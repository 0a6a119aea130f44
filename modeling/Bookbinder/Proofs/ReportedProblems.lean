import Bookbinder.Proofs.ImageLookups
/-!
# Reported problems

What is reported while a book is prepared, from the topics' sources to the images (`Draft.Chronicle`), is what its log
holds in the end (`chronicle_prepare`).
-/
namespace Bookbinder

open Xml (Document Element)

namespace Draft

variable {σ : Type} {b : Bindery σ} {d d' d₁ : Draft} {s s' : Session σ}

theorem problems_warnAll (t : Topic) : ∀ (messages : List String) (d : Draft),
    (d.warnAll t messages).problems = d.problems.addAll (t.remarks .warning messages)
  | [], _ => rfl
  | m :: ms, d => problems_warnAll t ms (d.warn t m)

theorem problems_errorAll (t : Topic) : ∀ (messages : List String) (d : Draft),
    (d.errorAll t messages).problems = d.problems.addAll (t.remarks .error messages)
  | [], _ => rfl
  | m :: ms, d => problems_errorAll t ms (d.error t m)

/-! ## Reading -/

/-- What is reported of a topic as its author wrote it. -/
def sourceRemarks (t : Topic) : List Remark :=
  match Manuscript.of t with
  | .empty => t.remarks .warning [Manuscript.emptyMessage]
  | .malformed cause => t.remarks .error [Manuscript.malformedMessage cause]
  | .document _ => []

theorem problems_readTopic {t : Topic} (hrun : (readTopic b d t).Gives s d' s') :
    d'.problems = d.problems.addAll (sourceRemarks t) := by
  unfold sourceRemarks
  cases reads_readTopic hrun with
  | empty content _ _ manuscript =>
    rw [manuscript]
    rfl
  | malformed cause content _ _ manuscript =>
    rw [manuscript]
    rfl
  | document doc ledger manuscript =>
    rw [manuscript]
    rfl

/-- **Reading reports each source that has no document.** -/
theorem problems_readTopics (hrun : (d.readTopics b).Gives s d' s') :
    d'.problems = d.problems.addAll (d.topics.flatMap sourceRemarks) :=
  Press.Gives.foldlM
    (P := fun ts d₁ => d₁.problems.addAll (ts.flatMap sourceRemarks) = d.problems.addAll (d.topics.flatMap sourceRemarks))
    (fun t ts d₁ d₂ _ _ h hrun => by
      rw [problems_readTopic hrun, ← ProblemLog.addAll_append, ← List.flatMap_cons]
      exact h) rfl hrun

/-! ## Working out -/

/-- What is reported of a reference before its page is set. -/
def announcements (d : Draft) (e : TopicEntry) (t : Topic) (doc : Document) : List Remark :=
  t.remarks .warning (d.translationWarnings t) ++ t.remarks .warning (d.injection e t doc).report.warnings
    ++ t.remarks .error (d.injection e t doc).report.errors

/-- Why a page is refused. -/
inductive Refusal (d : Draft) (e : TopicEntry) (t : Topic) (doc : Document) : String → Prop
  | injection (invalid : (d.injection e t doc).report.isValid = false) :
    Refusal d e t doc (injectionMessage (d.injection e t doc).root)
  | page (page failure dtd : String) (validator validator' : Validator)
      (valid : (d.injection e t doc).report.isValid = true)
      (render : Template.topicPage (d.injectionPage e t doc) = .ok page)
      (judge : judge validator dtd page = (.error failure, validator')) :
    Refusal d e t doc (invalidMessage failure page)

/-- What is reported of a page with an outcome. -/
inductive Judged (d : Draft) (e : TopicEntry) (t : Topic) (doc : Document) : Outcome → List Remark → Prop
  | accepted : Judged d e t doc .valid []
  | refused (content message : String) (refusal : d.Refusal e t doc message) :
    Judged d e t doc (.fallback content) (t.remarks .error [message])

/-- What is reported of a reference while it is worked out. -/
inductive Remarked (d : Draft) (e : TopicEntry) : List Remark → Prop
  | absent (topic : e.topic = none) : Remarked d e []
  | bodiless (t : Topic) (topic : e.topic = some t) (manuscript : (Manuscript.of t).document? = none) :
    Remarked d e (t.remarks .warning (d.translationWarnings t))
  | settled (t : Topic) (doc : Document) (rs : List Remark) (topic : e.topic = some t)
      (manuscript : (Manuscript.of t).document? = some doc) (judged : d.Judged e t doc e.outcome rs) :
    Remarked d e (d.announcements e t doc ++ rs)

theorem problems_announced (d : Draft) (e : TopicEntry) (t : Topic) (doc : Document) :
    (d.announced e t doc).problems = d.problems.addAll (d.announcements e t doc) := by
  rw [announced, announcements, problems_errorAll, problems_warnAll, problems_warnAll, ProblemLog.addAll_append,
    ProblemLog.addAll_append]

section Entry

variable {e : TopicEntry} {t : Topic} {doc : Document}

/-- A draft in which the reference is settled with reports that go with its outcome. -/
def SettledWith (d : Draft) (e : TopicEntry) (t : Topic) (doc : Document) (d₁ d' : Draft) : Prop :=
  ∃ r rs, d'.registry.entries = d.registry.entries.map (fun x => if x.ref.step = e.ref.step then x.settled r else x) ∧
    d'.problems = d₁.problems.addAll rs ∧ d.Judged e t doc r.outcome rs

/-- A page is set, or else it is reported why it is not. -/
theorem settledWith_typeset (hb : b.renderer = Renderer.pages) (hnoted : d.Noted d₁) {dtd : String}
    (hrun : (typeset b dtd d₁ e.ref t (d.injection e t doc)).Gives s d' s') : d.SettledWith e t doc d₁ d' := by
  have hset := typesets_typeset hrun
  rw [hb] at hset
  unfold SettledWith
  rw [← hnoted.registry]
  cases hset with
  | accepted page read validator =>
    exact ⟨⟨some (renamed d₁.ledger e t read), .valid, _⟩, [], rfl, rfl, .accepted⟩
  | uninjected content s₁ s₂ invalid =>
    exact ⟨⟨none, .fallback content, _⟩, _, rfl, rfl, .refused content _ (.injection invalid)⟩
  | invalid page failure content validator s₁ s₂ s₃ s₄ valid rendered judged =>
    have htext := rendered.render.1
    rw [Template.render_file, pageContext_congr hnoted.bare] at htext
    exact ⟨⟨none, .fallback content, _⟩, _, rfl, rfl, .refused content _ (.page page failure dtd _ _ valid htext judged)⟩

/-- What is injected does not depend on what has become of the reference. -/
theorem injection_bare {e' : TopicEntry} (he : e'.bare = e.bare) (hbare : d'.bare = d.bare) :
    d'.injection e' t doc = d.injection e t doc := by
  have hlink : e'.linkId d.stable = e.linkId d.stable :=
    show e'.bare.linkId d.stable = e.bare.linkId d.stable by rw [he]
  have hstep : e'.ref = e.ref := show e'.bare.ref = e.bare.ref by rw [he]
  rw [injection_congr hbare, injection, injection, occurrence, occurrence, hlink, hstep]

theorem Judged.congr {e' : TopicEntry} (he : e'.bare = e.bare) (hbare : d'.bare = d.bare) {outcome : Outcome}
    {rs : List Remark} (h : d.Judged e t doc outcome rs) : d'.Judged e' t doc outcome rs := by
  have hinjection : d'.injection e' t doc = d.injection e t doc := injection_bare he hbare
  have hpage : d'.injectionPage e' t doc = d.injectionPage e t doc := by
    rw [injectionPage, injectionPage, hinjection, pageContext_congr hbare]
  cases h with
  | accepted => exact .accepted
  | refused content message refusal =>
    refine .refused content message ?_
    cases refusal with
    | injection invalid =>
      rw [← hinjection] at invalid ⊢
      exact .injection invalid
    | page page failure dtd validator validator' valid render judge =>
      rw [← hinjection] at valid
      rw [← hpage] at render
      exact .page page failure dtd validator validator' valid render judge

/-- **What is reported of a reference goes with what becomes of it.** -/
theorem exists_remarked_processEntry (hb : b.renderer = Renderer.pages) (hsteps : d.registry.steps.Nodup)
    (he : e ∈ d.registry.entries) (hread : e.Read d.stable) {dtd : String}
    (hrun : (processEntry b dtd d e).Gives s d' s') : ∃ rs, d'.problems = d.problems.addAll rs ∧
      ∀ x ∈ d'.registry.entries, x.ref.step = e.ref.step → d.Remarked x rs := by
  cases hread with
  | absent topic outcome =>
    rw [processEntry, topic] at hrun
    obtain ⟨rfl, -⟩ := hrun.pure
    refine ⟨[], rfl, fun x hx hstep => ?_⟩
    cases eq_of_step hsteps hx he hstep
    exact .absent topic
  | bodiless t content topic manuscript document outcome standsIn context =>
    rw [processEntry, topic] at hrun
    simp only [document] at hrun
    obtain ⟨rfl, -⟩ := hrun.pure
    have hnoted := (Noted.refl d).warnAll t (d.translationWarnings t)
    refine ⟨_, problems_warnAll t _ d, fun x hx hstep => ?_⟩
    rw [hnoted.registry] at hx
    cases eq_of_step hsteps hx he hstep
    exact .bodiless t topic manuscript
  | authored t doc topic manuscript document outcome context =>
    rw [processEntry_eq topic document context] at hrun
    obtain ⟨r, rs, hentries, hproblems, hjudged⟩ := settledWith_typeset hb (d.noted_announced e t doc) hrun
    refine ⟨d.announcements e t doc ++ rs, ?_, fun x hx hstep => ?_⟩
    · rw [hproblems, problems_announced, ProblemLog.addAll_append]
    · -- No other reference has the step, so the entry is the one that is settled.
      rw [hentries] at hx
      obtain ⟨y, hy, rfl⟩ := List.mem_map.1 hx
      have hsame : y.ref.step = e.ref.step := by
        by_cases h : y.ref.step = e.ref.step
        · exact h
        · rwa [if_neg h] at hstep
      cases eq_of_step hsteps hy he hsame
      rw [if_pos rfl]
      have hbare : (e.settled r).bare = e.bare := rfl
      exact .settled t doc rs topic manuscript (hjudged.congr hbare rfl)

end Entry

theorem translationWarnings_congr (h : d'.bare = d.bare) : d'.translationWarnings = d.translationWarnings := by
  have hbare (d : Draft) : d.bare.translationWarnings = d.translationWarnings := by
    funext t
    have hcontains : d.bare.registry.containsTopic = d.registry.containsTopic := d.registry.containsTopic_bare
    simp only [translationWarnings, untranslated, hcontains]
    rfl
  rw [← hbare d', h, hbare]

theorem Remarked.congr {e e' : TopicEntry} {rs : List Remark} (h : d.Remarked e rs) (hbare : d'.bare = d.bare)
    (he : e'.bare = e.bare) (houtcome : e'.outcome = e.outcome) : d'.Remarked e' rs := by
  have htopic : e'.topic = e.topic := show e'.bare.topic = e.bare.topic by rw [he]
  have htranslation := translationWarnings_congr hbare
  cases h with
  | absent topic => exact .absent (htopic.trans topic)
  | bodiless t topic manuscript =>
    rw [← htranslation]
    exact .bodiless t (htopic.trans topic) manuscript
  | settled t doc rs topic manuscript judged =>
    have hsame : d.announcements e t doc = d'.announcements e' t doc := by
      rw [announcements, announcements, htranslation, injection_bare he hbare]
    rw [hsame]
    exact .settled t doc rs (htopic.trans topic) manuscript (houtcome ▸ judged.congr he hbare)

/-- Working out the reference at a step leaves all others as they are. -/
theorem exists_remarked_processStep (hb : b.renderer = Renderer.pages) {d₀ : Draft} {step : Nat} {rest : List Nat}
    (h : Progress d₀ (step :: rest) d) (hsteps : d₀.registry.steps.Nodup) {dtd : String}
    (hrun : (processStep b dtd d step).Gives s d' s') : ∃ rs, d'.problems = d.problems.addAll rs ∧
      ∀ x ∈ d'.registry.entries, if x.ref.step = step then d₀.Remarked x rs else x ∈ d.registry.entries := by
  have hstable : d₀.stable = d.stable := show d₀.bare.stable = d.bare.stable by rw [h.bare]
  have hnodup : d.registry.steps.Nodup := by rw [steps_of_bare h.bare]; exact hsteps
  rcases cases_processStep hrun with ⟨e, he, hstep, s₁, hrun⟩ | ⟨hnone, rfl⟩
  · have hread : e.Read d.stable := hstable ▸ h.read e he (hstep ▸ List.mem_cons_self)
    obtain ⟨rs, hproblems, hremarked⟩ := exists_remarked_processEntry hb hnodup he hread hrun
    obtain ⟨e', hreplaces⟩ := Replaces.processEntry hb hnodup he hread hrun
    refine ⟨rs, hproblems, fun x hx => ?_⟩
    by_cases hs : x.ref.step = step
    · rw [if_pos hs]
      exact (hremarked x hx (hs.trans hstep.symm)).congr h.bare.symm rfl rfl
    · rw [if_neg hs]
      rw [hreplaces.entries] at hx
      obtain ⟨y, hy, rfl⟩ := List.mem_map.1 hx
      by_cases hy' : y.ref.step = e.ref.step
      · rw [if_pos hy', ← TopicEntry.bare_ref, hreplaces.entry] at hs
        exact absurd hstep hs
      · rwa [if_neg hy']
  · refine ⟨[], rfl, fun x hx => ?_⟩
    rw [if_neg (hnone x hx)]
    exact hx

/-- The reports on the references at some steps. -/
def Told (d₀ d : Draft) (steps : List Nat) : Prop :=
  ∃ rss, d.problems = d₀.problems.addAll rss.flatten ∧
    List.Forall₂ (fun step rs => ∀ e ∈ d.registry.entries, e.ref.step = step → d₀.Remarked e rs) steps rss

theorem Told.processStep (hb : b.renderer = Renderer.pages) {d₀ : Draft} {done rest : List Nat} {step : Nat}
    (h : d₀.Told d done) (hprogress : Progress d₀ (step :: rest) d) (hsteps : d₀.registry.steps.Nodup)
    (hnew : step ∉ done) {dtd : String} (hrun : (Draft.processStep b dtd d step).Gives s d' s') :
    d₀.Told d' (done ++ [step]) := by
  obtain ⟨rs, hproblems, hentries⟩ := exists_remarked_processStep hb hprogress hsteps hrun
  obtain ⟨rss, htold, hall⟩ := h
  have hlast : ∀ e ∈ d'.registry.entries, e.ref.step = step → d₀.Remarked e rs := fun e he hs => by
    have hremarked := hentries e he
    rwa [if_pos hs] at hremarked
  refine ⟨rss ++ [rs], ?_, List.rel_append ?_ (.cons hlast .nil)⟩
  · rw [hproblems, htold, List.flatten_append, ProblemLog.addAll_append, List.flatten_singleton]
  · -- The steps before are others than this one, whose work leaves their entries alone.
    refine List.forall₂_iff_zip.2 ⟨hall.length_eq, fun {k rs'} hk e he hs => ?_⟩
    have hold := hentries e he
    have hne : e.ref.step ≠ step := fun he => hnew (he.symm.trans hs ▸ (List.of_mem_zip hk).1)
    rw [if_neg hne] at hold
    exact (List.forall₂_iff_zip.1 hall).2 hk e hold hs

/-- Reports by keys are reports by the items of those keys. -/
theorem forall₂_of_keys {α κ β : Type} {key : α → κ} {R : α → β → Prop} {xs : List α} : ∀ {ys : List α} {zs : List β},
    ys ⊆ xs → List.Forall₂ (fun k z => ∀ x ∈ xs, key x = k → R x z) (ys.map key) zs → List.Forall₂ R ys zs
  | [], _, _, .nil => .nil
  | y :: ys, _, hsub, .cons hz hzs =>
    .cons (hz y (hsub List.mem_cons_self) rfl) (forall₂_of_keys (fun _ h => hsub (List.mem_cons_of_mem y h)) hzs)

/-- **Working out reports on the references in their order.** -/
theorem exists_remarked_processReferences (hb : b.renderer = Renderer.pages) (h : d.AllRead)
    (hrun : (d.processReferences b).Gives s d' s') : ∃ rss, d'.problems = d.problems.addAll rss.flatten ∧
      List.Forall₂ d'.Remarked d'.registry.entries rss := by
  have hbare := bare_processReferences hrun
  obtain ⟨done, hdone, -, rss, hproblems, hall⟩ := processReferences_induction
    (P := fun remaining d₁ => ∃ done, done ++ remaining = d.registry.steps ∧ Progress d remaining d₁ ∧ d.Told d₁ done)
    ⟨[], rfl, Progress.start h, [], rfl, .nil⟩
    (fun {_ step _ _ _ _ _} ⟨done, hdone, hprogress, htold⟩ hrun => by
      have hnodup := List.nodup_append.1 (hdone ▸ h.steps)
      have hnew : step ∉ done := fun hm => hnodup.2.2 step hm step List.mem_cons_self rfl
      refine ⟨done ++ [step], by rw [← hdone, List.append_assoc]; rfl,
        hprogress.processStep hb h.steps (List.nodup_cons.1 hnodup.2.1).1 hrun,
        htold.processStep hb hprogress h.steps hnew hrun⟩)
    hrun
  rw [List.append_nil] at hdone
  refine ⟨rss, hproblems, ?_⟩
  rw [hdone, ← steps_of_bare hbare] at hall
  exact (forall₂_of_keys (List.Subset.refl _) hall).imp fun e rs he => he.congr hbare rfl rfl

end Draft

/-! ## Images -/

/-- What is reported of a reference to an image. -/
inductive ImageRef.Remarked (r : ImageRef) : List Remark → Prop
  | found (id : Int) (named : ImageName.id? r.name = some id) : Remarked r []
  | missing (id : Int) (named : ImageName.id? r.name = some id) :
    Remarked r (r.topic.remarks .error [notFoundMessage id r.fileref])
  | misnamed (unnamed : ImageName.id? r.name = none) : Remarked r (r.topic.remarks .error [badNameMessage r.fileref])

theorem Lookup.Yields.remarked {σ : Type} {store : TopicStore σ} {start : σ} {a : Lookup σ} {bytes : ByteArray}
    {rs : List Remark} (h : a.Yields store start bytes rs) : a.ref.Remarked rs := by
  cases h with
  | found id _ named => exact .found id named
  | missing id _ named => exact .missing id named
  | misnamed _ unnamed => exact .misnamed unnamed

namespace Draft

variable {σ : Type} {b : Bindery σ} {d d' : Draft} {s s' : Session σ}

theorem topic_imageRefs : ∀ r ∈ d.imageRefs, ∃ e ∈ d.registry.entries, e.topic = some r.topic := by
  intro r hr
  obtain ⟨e, he, hr⟩ := List.mem_flatMap.1 hr
  unfold TopicEntry.imageRefs at hr
  split at hr
  · rename_i htopic _
    obtain ⟨fileref, -, rfl⟩ := List.mem_map.1 hr
    exact ⟨e, (List.mem_filter.1 he).1, htopic⟩
  · exact absurd hr List.not_mem_nil

theorem exists_remarked_collectImages {images : List Image} (hrun : (d.collectImages b).Gives s (d', images) s') :
    ∃ rss, List.Forall₂ ImageRef.Remarked d.imageRefs rss ∧ d'.problems = d.problems.addAll rss.flatten := by
  obtain ⟨rss, hrss, hproblems⟩ := (gathers_collectImages hrun).problems
  have hrefs : (d.lookups b s.store).map (·.ref) = d.imageRefs := b.map_ref_lookups _ _
  refine ⟨rss, ?_, hproblems⟩
  rw [← hrefs, List.forall₂_map_left_iff]
  exact hrss.imp fun a rs ⟨_, h⟩ => h.remarked

/-! ## The whole build -/

/-- What is reported in the course of a build: of the topics' sources, of the references in document order, and of the
images. -/
inductive Chronicle (d : Draft) : List Remark → Prop
  | intro (remarks : List (List Remark)) (refs : List ImageRef) (images : List (List Remark))
      (references : List.Forall₂ d.Remarked d.registry.entries remarks)
      (topics : ∀ r ∈ refs, ∃ e ∈ d.registry.entries, e.topic = some r.topic)
      (shown : List.Forall₂ ImageRef.Remarked refs images) :
    Chronicle d (d.topics.flatMap sourceRemarks ++ remarks.flatten ++ images.flatten)

end Draft

namespace Bindery

variable {σ : Type} {b : Bindery σ} {spec : ContentSpec} {settings : Settings} {requester : Option String}
  {s s' : Session σ}

theorem problems_draft {d : Draft} (h : (b.draft spec settings requester).Gives s d s') :
    d.problems = { locale := d.locale } := by
  obtain ⟨topics, stable, rfl, -⟩ := eq_of_draft h
  rfl

/-- **The log of a prepared draft is that of the reports in the course of its build.** -/
theorem chronicle_prepare (hb : b.renderer = Renderer.pages) {d : Draft} {images : List Image}
    (hrun : (b.prepare spec settings requester).Gives s (d, images) s') :
    ∃ rs, d.Chronicle rs ∧ d.problems = ({ locale := d.locale } : ProblemLog).addAll rs := by
  obtain ⟨d₁, d₂, d₃, s₁, s₂, s₃, hd₁, hd₂, hd₃, hd⟩ := passes_of_prepare hrun
  have hfollows := follows_passes hd₂ hd₃ hd
  have hbare := Draft.bare_collectImages hd
  obtain ⟨-, hregistry, -⟩ := exists_fetch_of_draft hd₁
  have hread : d₁.AllRead := Draft.allRead_of_unlearned (hregistry ▸ Registry.unlearned_register spec.root)
  obtain ⟨remarks, hworked, hremarks⟩ := Draft.exists_remarked_processReferences hb (hread.readTopics hb hd₂) hd₃
  obtain ⟨shown, hshown, hcollected⟩ := Draft.exists_remarked_collectImages hd
  have hentries : List.Forall₂ d.Remarked d.registry.entries remarks := by
    rw [Draft.entries_collectImages hd, List.forall₂_map_left_iff]
    exact hremarks.imp fun e rs he => he.congr hbare (Draft.bare_relocateEntry _ e) (Draft.outcome_relocateEntry _ e)
  refine ⟨_, .intro remarks _ shown hentries (fun r hr => ?_) hshown, ?_⟩
  · obtain ⟨e, he, htopic⟩ := Draft.topic_imageRefs r hr
    rw [Draft.entries_collectImages hd]
    refine ⟨_, List.mem_map_of_mem he, ?_⟩
    have hsame : (Draft.relocateEntry d₃.outline e).1.bare.topic = e.bare.topic := by rw [Draft.bare_relocateEntry]
    exact hsame.trans htopic
  · rw [hcollected, hworked, Draft.problems_readTopics hd₂, problems_draft hd₁, ← hfollows.locale, ← hfollows.topics,
      ProblemLog.addAll_append, ProblemLog.addAll_append]

end Bindery
end Bookbinder
