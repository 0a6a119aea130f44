import Bookbinder.Proofs.FreshIds
import Bookbinder.Proofs.ReadTopics
/-!
# What working out makes of the references

Once all references are worked out, each is published from its own document or from a body that stands in for it, and
the ids within the documents are those of no other document and of no link (`worked_processReferences`).
-/
namespace Bookbinder

open Xml (Document Element)

namespace Draft

variable {σ : Type} {b : Bindery σ}

/-! ## One reference -/

/-- The document of an occurrence before anything is injected into it. -/
def occurrence (d : Draft) (e : TopicEntry) (t : Topic) (doc : Document) : Element :=
  ((doc.withRootId (t.linkId d.stable)).withRootId (e.linkId d.stable)).root

/-- The document of an occurrence with all that is injected into it. -/
def injection (d : Draft) (e : TopicEntry) (t : Topic) (doc : Document) : Injected :=
  d.inject e.ref.step t (d.occurrence e t doc) (topicContext t (e.linkId d.stable))

/-- What the page of an injected document is rendered from. -/
def injectionPage (d : Draft) (e : TopicEntry) (t : Topic) (doc : Document) : Template.Context :=
  d.pageContext t (d.injection e t doc).root (d.injection e t doc).context

/-- A page's document with its ids made unique for a reference. -/
def renamed (l : IdLedger) (e : TopicEntry) (t : Topic) (read : Document) : Document :=
  { read with root := l.rewritten t.sourceId e.ref.duplicate e.ref.step read.root }

/-- What working out makes of a reference. -/
inductive Worked (d : Draft) (e : TopicEntry) : Prop
  | absent (outcome : e.outcome = .pending)
  | bodiless (t : Topic) (content : String) (topic : e.topic = some t) (manuscript : (Manuscript.of t).document? = none)
      (document : e.document = none) (outcome : e.outcome = .fallback content) (standsIn : Template.StandsIn content)
      (context : e.context = some (topicContext t (e.linkId d.stable)))
  | refused (t : Topic) (doc : Document) (content : String) (topic : e.topic = some t)
      (manuscript : (Manuscript.of t).document? = some doc) (document : e.document = none)
      (outcome : e.outcome = .fallback content) (standsIn : Template.StandsIn content)
      (context : e.context = some (d.injection e t doc).context ∨ e.context = some (d.injectionPage e t doc))
  | valid (t : Topic) (doc read : Document) (page : String) (l : IdLedger) (topic : e.topic = some t)
      (manuscript : (Manuscript.of t).document? = some doc)
      (render : Template.topicPage (d.injectionPage e t doc) = .ok page) (reading : Document.read page = .ok read)
      (document : e.document = some (renamed l e t read)) (outcome : e.outcome = .valid)

theorem injection_congr {d d' : Draft} (h : d.bare = d'.bare) : d.injection = d'.injection := by
  funext e t doc
  have hstable : d.stable = d'.stable := show d.bare.stable = d'.bare.stable by rw [h]
  rw [injection, injection, occurrence, occurrence, inject_congr h, hstable]

theorem injectionPage_congr {d d' : Draft} (h : d.bare = d'.bare) : d.injectionPage = d'.injectionPage := by
  funext e t doc
  rw [injectionPage, injectionPage, injection_congr h, pageContext_congr h]

theorem Worked.congr {d d' : Draft} {e : TopicEntry} (h : d.bare = d'.bare) (hw : d.Worked e) : d'.Worked e := by
  have hstable : d.stable = d'.stable := show d.bare.stable = d'.bare.stable by rw [h]
  cases hw with
  | absent outcome => exact .absent outcome
  | bodiless t content topic manuscript document outcome standsIn context =>
    exact .bodiless t content topic manuscript document outcome standsIn (hstable ▸ context)
  | refused t doc content topic manuscript document outcome standsIn context =>
    rw [injection_congr h, injectionPage_congr h] at context
    exact .refused t doc content topic manuscript document outcome standsIn context
  | valid t doc read page l topic manuscript render reading document outcome =>
    rw [injectionPage_congr h] at render
    exact .valid t doc read page l topic manuscript render reading document outcome

end Draft

/-- The ids within the document that a reference is published from. -/
def TopicEntry.ownIds (e : TopicEntry) : List String :=
  match e.outcome, e.document with
  | .valid, some doc => IdLedger.innerIds doc.root
  | _, _ => []

/-- The reference once it is settled. -/
def TopicEntry.settled (e : TopicEntry) (s : Draft.Settled) : TopicEntry :=
  { e with document := s.document, outcome := s.outcome, context := some s.context }

theorem TopicEntry.ownIds_eq_nil {e : TopicEntry} (h : e.outcome ≠ .valid) : e.ownIds = [] := by
  rw [ownIds]
  split
  · rename_i hv _
    exact absurd hv h
  · rfl

namespace Draft

variable {σ : Type} {b : Bindery σ}

/-- A draft with another reference in place of the one at a step, and with the ids of that reference accounted for. -/
structure Replaces (d : Draft) (e : TopicEntry) (d' : Draft) (e' : TopicEntry) : Prop where
  worked : d.Worked e'
  bare : d'.bare = d.bare
  entry : e'.bare = e.bare
  entries : d'.registry.entries = d.registry.entries.map fun x => if x.ref.step = e.ref.step then e' else x
  taken : d.ledger.taken ⊆ d'.ledger.taken
  fresh : ∀ id ∈ e'.ownIds, id ∉ d.ledger.taken
  owned : e'.ownIds ⊆ d'.ledger.taken

theorem eq_of_step {d : Draft} (h : d.registry.steps.Nodup) {a e : TopicEntry} (ha : a ∈ d.registry.entries)
    (he : e ∈ d.registry.entries) (hs : a.ref.step = e.ref.step) : a = e :=
  List.inj_on_of_nodup_map h ha he hs

theorem Replaces.refl {d d' : Draft} {e : TopicEntry} (hsteps : d.registry.steps.Nodup) (he : e ∈ d.registry.entries)
    (hworked : d.Worked e) (hids : e.outcome ≠ .valid) (hbare : d'.bare = d.bare)
    (hentries : d'.registry.entries = d.registry.entries) (htaken : d.ledger.taken ⊆ d'.ledger.taken) :
    d.Replaces e d' e := by
  have hown := TopicEntry.ownIds_eq_nil hids
  refine ⟨hworked, hbare, rfl, ?_, htaken, by rw [hown]; exact fun _ h => absurd h List.not_mem_nil,
    by rw [hown]; exact List.nil_subset _⟩
  rw [hentries]
  refine ((List.map_congr_left fun x hx => ?_).trans (List.map_id _)).symm
  split
  · rename_i hs
    exact (eq_of_step hsteps hx he hs).symm
  · rfl

theorem Replaces.settle {d d₀ : Draft} {e : TopicEntry} {s : Settled} (hsteps : d.registry.steps.Nodup)
    (he : e ∈ d.registry.entries) (hbare : d₀.bare = d.bare) (hregistry : d₀.registry = d.registry)
    (hworked : d.Worked (e.settled s)) (htaken : d.ledger.taken ⊆ d₀.ledger.taken)
    (hfresh : ∀ id ∈ (e.settled s).ownIds, id ∉ d.ledger.taken ∧ id ∈ d₀.ledger.taken) :
    d.Replaces e (d₀.settle e.ref.step s) (e.settled s) := by
  refine ⟨hworked, ?_, rfl, ?_, htaken, fun id hid => (hfresh id hid).1, fun id hid => (hfresh id hid).2⟩
  · have hupdate : (d₀.settle e.ref.step s).registry.bare = d₀.registry.bare :=
      Registry.bare_update (f := (TopicEntry.settled · s)) (fun _ => rfl) d₀.registry e.ref.step
    rw [← hbare, Draft.bare, Draft.bare, hupdate]
    rfl
  · have hentries : (d₀.settle e.ref.step s).registry.entries
        = d₀.registry.entries.map fun x => if x.ref.step = e.ref.step then x.settled s else x := rfl
    rw [hentries, hregistry]
    refine List.map_congr_left fun x hx => ?_
    by_cases hs : x.ref.step = e.ref.step
    · rw [if_pos hs, if_pos hs, eq_of_step hsteps hx he hs]
    · rw [if_neg hs, if_neg hs]

/-! ## Problems and validators -/

/-- A draft that differs in its problems and its validator only. -/
structure Noted (d d₁ : Draft) : Prop where
  bare : d₁.bare = d.bare
  registry : d₁.registry = d.registry
  ledger : d₁.ledger = d.ledger

theorem Noted.refl (d : Draft) : d.Noted d := ⟨rfl, rfl, rfl⟩

theorem Noted.warnAll {d d₁ : Draft} (h : d.Noted d₁) (t : Topic) : ∀ messages : List String,
    d.Noted (d₁.warnAll t messages)
  | [] => h
  | m :: ms =>
    have hwarn : d.Noted (d₁.warn t m) := ⟨h.bare, h.registry, h.ledger⟩
    hwarn.warnAll t ms

theorem Noted.errorAll {d d₁ : Draft} (h : d.Noted d₁) (t : Topic) : ∀ messages : List String,
    d.Noted (d₁.errorAll t messages)
  | [] => h
  | m :: ms =>
    have herror : d.Noted (d₁.error t m) := ⟨h.bare, h.registry, h.ledger⟩
    herror.errorAll t ms

/-! ## Working out one reference -/

section Entry

variable {d d₁ d' : Draft} {e : TopicEntry} {t : Topic} {doc : Document} {s s' : Session σ}

theorem Replaces.refuse (hsteps : d.registry.steps.Nodup) (he : e ∈ d.registry.entries) (hnoted : d.Noted d₁)
    (htopic : e.topic = some t) (hmanuscript : (Manuscript.of t).document? = some doc) {content : String}
    (hstand : Template.StandsIn content) {context : Template.Context}
    (hcontext : context = (d.injection e t doc).context ∨ context = d.injectionPage e t doc) :
    ∃ e', d.Replaces e (d₁.settle e.ref.step ⟨none, .fallback content, context⟩) e' := by
  refine ⟨_, Replaces.settle hsteps he hnoted.bare hnoted.registry ?_
    (by rw [hnoted.ledger]; exact List.Subset.refl _) ?_⟩
  · exact .refused t doc content htopic hmanuscript rfl rfl hstand (hcontext.imp (congrArg some) (congrArg some))
  · exact fun id hid => absurd hid List.not_mem_nil

theorem Replaces.accept (hsteps : d.registry.steps.Nodup) (he : e ∈ d.registry.entries) (hnoted : d.Noted d₁)
    (htopic : e.topic = some t) (hmanuscript : (Manuscript.of t).document? = some doc) {page : String} {read : Document}
    (hrender : Template.topicPage (d.injectionPage e t doc) = .ok page) (hread : Document.read page = .ok read) :
    ∃ e', d.Replaces e (d₁.accept e.ref t (d.injectionPage e t doc) read) e' := by
  obtain ⟨hbare, hregistry, hledger⟩ := hnoted
  have htaken : d₁.ledger.taken ⊆ (d₁.ledger.enforce t.sourceId e.ref.duplicate e.ref.step read.root).2.2.taken := by
    rw [IdLedger.taken_enforce]
    exact List.subset_append_right _ _
  refine ⟨_, Replaces.settle
    (s := ⟨some { read with root := d₁.ledger.rewritten t.sourceId e.ref.duplicate e.ref.step read.root }, .valid,
      d.injectionPage e t doc⟩) hsteps he hbare hregistry ?_ (hledger ▸ htaken) ?_⟩
  · exact .valid t doc read page d₁.ledger htopic hmanuscript hrender hread rfl rfl
  · intro id hid
    rw [← hledger]
    exact ⟨IdLedger.notMem_taken_of_mem_rewritten d₁.ledger t.sourceId e.ref.duplicate e.ref.step read.root hid,
      IdLedger.mem_taken_of_mem_rewritten d₁.ledger t.sourceId e.ref.duplicate e.ref.step read.root hid⟩

theorem read_of_judge {validator validator' : Validator} {dtd page : String} {read : Document}
    (h : judge validator dtd page = (.ok read, validator')) : Document.read page = .ok read := by
  rw [judge] at h
  split at h
  · cases h
  · rename_i doc hdoc
    rw [hdoc]
    simp only [Prod.mk.injEq] at h
    split at h
    · cases h.1
      rfl
    · cases h.1

theorem Replaces.typeset (hb : b.renderer = Renderer.pages) (hsteps : d.registry.steps.Nodup)
    (he : e ∈ d.registry.entries) (hnoted : d.Noted d₁) (htopic : e.topic = some t)
    (hmanuscript : (Manuscript.of t).document? = some doc) {dtd : String}
    (hrun : (Draft.typeset b dtd d₁ e.ref t (d.injection e t doc)).Gives s d' s') : ∃ e', d.Replaces e d' e' := by
  have hpage : d₁.pageContext = d.pageContext := pageContext_congr hnoted.bare
  have hnote (message : String) (validator : Validator) : d.Noted ({ d₁ with validator }.error t message) :=
    ⟨hnoted.bare, hnoted.registry, hnoted.ledger⟩
  have hset := typesets_typeset hrun
  rw [hb] at hset
  cases hset with
  | accepted page read validator s₁ s₂ valid rendered judged =>
    have htext := rendered.render.1
    rw [Template.render_file, hpage] at htext
    have hjudged : d.Noted { d₁ with validator } := ⟨hnoted.bare, hnoted.registry, hnoted.ledger⟩
    rw [hpage]
    exact Replaces.accept hsteps he hjudged htopic hmanuscript htext (read_of_judge judged)
  | uninjected content s₁ s₂ invalid rendered =>
    exact Replaces.refuse hsteps he (hnote _ d₁.validator) htopic hmanuscript
      (standsIn_of_gives (by decide) rendered) (.inl rfl)
  | invalid page failure content validator s₁ s₂ s₃ s₄ valid rendered judged stoodIn =>
    exact Replaces.refuse hsteps he (hnote _ validator) htopic hmanuscript (standsIn_of_gives (by decide) stoodIn)
      (.inr (by rw [hpage]; rfl))

/-- A draft with all that is reported of a reference before its page is set. -/
def announced (d : Draft) (e : TopicEntry) (t : Topic) (doc : Document) : Draft :=
  ((d.warnAll t (d.translationWarnings t)).warnAll t (d.injection e t doc).report.warnings).errorAll t
    (d.injection e t doc).report.errors

theorem noted_announced (d : Draft) (e : TopicEntry) (t : Topic) (doc : Document) : d.Noted (d.announced e t doc) :=
  (((Noted.refl d).warnAll t _).warnAll t _).errorAll t _

/-- A reference with a document is worked out by setting the page of all that is injected into it. -/
theorem processEntry_eq (htopic : e.topic = some t) (hdocument : e.document = some (doc.withRootId (t.linkId d.stable)))
    (hcontext : e.context = some (topicContext t (e.linkId d.stable))) (dtd : String) :
    Draft.processEntry b dtd d e = Draft.typeset b dtd (d.announced e t doc) e.ref t (d.injection e t doc) := by
  have hnoted := (Noted.refl d).warnAll t (d.translationWarnings t)
  have hinject : (d.warnAll t (d.translationWarnings t)).inject = d.inject := inject_congr hnoted.bare
  have hstable : (d.warnAll t (d.translationWarnings t)).stable = d.stable :=
    show (d.warnAll t (d.translationWarnings t)).bare.stable = d.bare.stable by rw [hnoted.bare]
  rw [Draft.processEntry, htopic]
  simp only [hdocument, hcontext]
  rw [hinject, hstable]
  rfl

/-- **Working out a reference replaces it and nothing else.** -/
theorem Replaces.processEntry (hb : b.renderer = Renderer.pages) (hsteps : d.registry.steps.Nodup)
    (he : e ∈ d.registry.entries) (hread : e.Read d.stable) {dtd : String}
    (hrun : (Draft.processEntry b dtd d e).Gives s d' s') : ∃ e', d.Replaces e d' e' := by
  cases hread with
  | absent topic outcome =>
    rw [Draft.processEntry, topic] at hrun
    obtain ⟨rfl, -⟩ := hrun.pure
    exact ⟨e, Replaces.refl hsteps he (.absent outcome) (by rw [outcome]; decide) rfl rfl (List.Subset.refl _)⟩
  | bodiless t content topic manuscript document outcome standsIn context =>
    rw [Draft.processEntry, topic] at hrun
    simp only [document] at hrun
    obtain ⟨rfl, -⟩ := hrun.pure
    have hnoted := (Noted.refl d).warnAll t (d.translationWarnings t)
    exact ⟨e, Replaces.refl hsteps he (.bodiless t content topic manuscript document outcome standsIn context)
      (by rw [outcome]; exact Outcome.noConfusion) hnoted.bare (by rw [hnoted.registry])
      (by rw [hnoted.ledger]; exact List.Subset.refl _)⟩
  | authored t doc topic manuscript document outcome context =>
    rw [processEntry_eq topic document context] at hrun
    exact Replaces.typeset hb hsteps he (d.noted_announced e t doc) topic manuscript hrun

end Entry

/-! ## Working out all references -/

/-- The link ids of a book: of its references and of its levels. -/
def linkIds (d : Draft) : List String :=
  d.registry.entries.map (·.linkId d.stable) ++ d.registry.levels.map (·.linkId d.stable)

theorem linkId_mem {d : Draft} {e : TopicEntry} (h : e ∈ d.registry.entries) : e.linkId d.stable ∈ d.linkIds :=
  List.mem_append_left _ (List.mem_map.2 ⟨e, h, rfl⟩)

theorem levelId_mem {d : Draft} {l : LevelEntry} (h : l ∈ d.registry.levels) : l.linkId d.stable ∈ d.linkIds :=
  List.mem_append_right _ (List.mem_map.2 ⟨l, h, rfl⟩)

theorem linkIds_bare (d : Draft) : d.bare.linkIds = d.linkIds := by
  rw [linkIds, linkIds, bare, Registry.bare, List.map_map]
  rfl

/-- How far a run has come: the references still to come are as they were read, the others are worked out, and the ids
within their documents are taken, each by one document only, and by no link. -/
structure Progress (d₀ : Draft) (remaining : List Nat) (d : Draft) : Prop where
  bare : d.bare = d₀.bare
  read : ∀ e ∈ d.registry.entries, e.ref.step ∈ remaining → e.Read d₀.stable
  worked : ∀ e ∈ d.registry.entries, e.ref.step ∉ remaining → d₀.Worked e
  reserved : d₀.linkIds ⊆ d.ledger.taken
  owned : ∀ e ∈ d.registry.entries, e.ownIds ⊆ d.ledger.taken
  foreign : ∀ e ∈ d.registry.entries, e.ownIds.Disjoint d₀.linkIds
  disjoint : d.registry.entries.Pairwise fun a c => a.ownIds.Disjoint c.ownIds

theorem steps_of_bare {d d' : Draft} (h : d.bare = d'.bare) : d.registry.steps = d'.registry.steps := by
  have hb (d : Draft) : d.bare.registry.steps = d.registry.steps := Registry.steps_bare d.registry
  rw [← hb d, h, hb d']

/-- **Replacing the next reference is progress.** -/
theorem Progress.replace {d₀ d d' : Draft} {e e' : TopicEntry} {step : Nat} {rest : List Nat}
    (h : Progress d₀ (step :: rest) d) (hsteps : d₀.registry.steps.Nodup) (hnotin : step ∉ rest)
    (hstep : e.ref.step = step) (hr : d.Replaces e d' e') : Progress d₀ rest d' := by
  have he' : e'.ref.step = step := by
    rw [← hstep, ← TopicEntry.bare_ref e', hr.entry, TopicEntry.bare_ref]
  have hmem : ∀ x ∈ d'.registry.entries, x = e' ∨ (x ∈ d.registry.entries ∧ x.ref.step ≠ step) := fun x hx => by
    rw [hr.entries, List.mem_map] at hx
    obtain ⟨y, hy, rfl⟩ := hx
    split
    · exact .inl rfl
    · rename_i hs
      exact .inr ⟨hy, hstep ▸ hs⟩
  -- Every part of the invariant splits alike: the reference that was replaced, and those that stay as they were.
  refine ⟨hr.bare.trans h.bare, fun x hx hin => ?_, fun x hx hin => ?_, List.Subset.trans h.reserved hr.taken,
    fun x hx => ?_, fun x hx => ?_, ?_⟩
  · rcases hmem x hx with rfl | ⟨hx, _⟩
    · exact absurd (he' ▸ hin) hnotin
    · exact h.read x hx (List.mem_cons_of_mem _ hin)
  · rcases hmem x hx with rfl | ⟨hx, hs⟩
    · exact hr.worked.congr h.bare
    · exact h.worked x hx (fun hm => (List.mem_cons.1 hm).elim hs hin)
  · rcases hmem x hx with rfl | ⟨hx, _⟩
    · exact hr.owned
    · exact List.Subset.trans (h.owned x hx) hr.taken
  · rcases hmem x hx with rfl | ⟨hx, _⟩
    · exact fun id hid hlink => hr.fresh id hid (h.reserved hlink)
    · exact h.foreign x hx
  · have hnd : d.registry.entries.Pairwise fun a c => a.ref.step ≠ c.ref.step :=
      List.pairwise_map.1 (show d.registry.steps.Nodup by rw [steps_of_bare h.bare]; exact hsteps)
    rw [hr.entries, List.pairwise_map]
    refine (hnd.and h.disjoint).imp_of_mem fun {a c} ha hc hac => ?_
    obtain ⟨hne, hdisjoint⟩ := hac
    split <;> split
    · rename_i hs hs'
      exact absurd (hs.trans hs'.symm) hne
    · exact fun id hid hid' => hr.fresh id hid (h.owned c hc hid')
    · exact fun id hid hid' => hr.fresh id hid' (h.owned a ha hid)
    · exact hdisjoint

theorem Progress.processStep (hb : b.renderer = Renderer.pages) {d₀ d d' : Draft} {step : Nat} {rest : List Nat}
    (h : Progress d₀ (step :: rest) d) (hsteps : d₀.registry.steps.Nodup) (hnotin : step ∉ rest) {dtd : String}
    {s s' : Session σ} (hrun : (Draft.processStep b dtd d step).Gives s d' s') : Progress d₀ rest d' := by
  have hstable : d₀.stable = d.stable := show d₀.bare.stable = d.bare.stable by rw [h.bare]
  rcases cases_processStep hrun with ⟨e, he, hstep, s₁, hrun⟩ | ⟨hnone, rfl⟩
  · have hread : e.Read d.stable := hstable ▸ h.read e he (hstep ▸ List.mem_cons_self)
    obtain ⟨e', hr⟩ := Replaces.processEntry hb (by rw [steps_of_bare h.bare]; exact hsteps) he hread hrun
    exact h.replace hsteps hnotin hstep hr
  · exact ⟨h.bare, fun e he hin => h.read e he (List.mem_cons_of_mem _ hin),
      fun e he hin => h.worked e he fun hm => (List.mem_cons.1 hm).elim (hnone e he) hin, h.reserved, h.owned,
      h.foreign, h.disjoint⟩

theorem subset_taken_foldl_reserve : ∀ (ids : List String) (l : IdLedger),
    l.taken ⊆ (ids.foldl IdLedger.reserve l).taken ∧ ids ⊆ (ids.foldl IdLedger.reserve l).taken
  | [], _ => ⟨List.Subset.refl _, List.nil_subset _⟩
  | id :: ids, l => by
    obtain ⟨htaken, hids⟩ := subset_taken_foldl_reserve ids (l.reserve id)
    exact ⟨List.Subset.trans (List.subset_cons_self id l.taken) htaken,
      List.cons_subset.2 ⟨htaken List.mem_cons_self, hids⟩⟩

theorem ownIds_of_read {stable : Bool} {e : TopicEntry} (h : e.Read stable) : e.ownIds = [] := by
  refine TopicEntry.ownIds_eq_nil ?_
  cases h with
  | absent topic outcome => exact outcome ▸ Outcome.noConfusion
  | bodiless t content topic manuscript document outcome standsIn context => exact outcome ▸ Outcome.noConfusion
  | authored t doc topic manuscript document outcome context => exact outcome ▸ Outcome.noConfusion

theorem Progress.start {d : Draft} (h : d.AllRead) : Progress d d.registry.steps d.reserveLinkIds where
  bare := rfl
  read e he _ := h.entries e he
  worked e he hin := absurd (List.mem_map.2 ⟨e, he, rfl⟩) hin
  reserved := (subset_taken_foldl_reserve d.linkIds d.ledger).2
  owned e he := by rw [ownIds_of_read (h.entries e he)]; exact List.nil_subset _
  foreign e he := by rw [ownIds_of_read (h.entries e he)]; exact fun _ hid => absurd hid List.not_mem_nil
  disjoint := by
    refine List.pairwise_of_forall_mem_list fun a ha c _ => ?_
    rw [ownIds_of_read (h.entries a ha)]
    exact fun _ hid => absurd hid List.not_mem_nil

/-- Every reference of a draft has a step of its own and is worked out, and no id within one's document is a link id or
is within the document of another. -/
structure AllWorked (d : Draft) : Prop where
  steps : d.registry.steps.Nodup
  worked : ∀ e ∈ d.registry.entries, d.Worked e
  foreign : ∀ e ∈ d.registry.entries, e.ownIds.Disjoint d.linkIds
  disjoint : d.registry.entries.Pairwise fun a c => a.ownIds.Disjoint c.ownIds

/-- **Once all references are worked out, no two documents share an id, and none has a link id.** -/
theorem worked_processReferences (hb : b.renderer = Renderer.pages) {d d' : Draft} (h : d.AllRead) {s s' : Session σ}
    (hrun : (d.processReferences b).Gives s d' s') : d'.AllWorked := by
  have hprogress := processReferences_induction (P := fun remaining d' => remaining.Nodup ∧ Progress d remaining d')
    ⟨h.steps, Progress.start h⟩ (fun hp hrun =>
      have hnd := List.nodup_cons.1 hp.1
      ⟨hnd.2, hp.2.processStep hb h.steps hnd.1 hrun⟩) hrun
  obtain ⟨-, hbare, -, hworked, -, -, hforeign, hdisjoint⟩ := hprogress
  have hlinks : d'.linkIds = d.linkIds := by rw [← linkIds_bare, hbare, linkIds_bare]
  refine ⟨by rw [steps_of_bare hbare]; exact h.steps, fun e he => (hworked e he List.not_mem_nil).congr hbare.symm, ?_,
    hdisjoint⟩
  rw [hlinks]
  exact hforeign

end Draft
end Bookbinder
