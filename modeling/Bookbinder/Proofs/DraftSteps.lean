import Bookbinder.Book.Binding
import Bookbinder.Proofs.LinkView
import Bookbinder.Proofs.PressRuns
/-!
# What a step makes of a draft

The steps that a build takes with a draft, unpacked: how a draft begins (`eq_of_draft`), what reading a topic makes of it
(`Draft.Reads`), what working out a reference makes of it (`Draft.WorksOut`), and what one image more makes of the images
(`exists_findImage_of_loadImage`).  What a step keeps is a matter of its cases; what all of a pass keeps follows from it
(`processReferences_induction`, `collectImages_induction`).
-/
namespace Bookbinder

open Xml (Document)

variable {σ : Type} {s s' : Session σ}

namespace Draft

variable {b : Bindery σ} {d d' : Draft} {t : Topic} {dtd : String} {ref : TopicRef} {i : Injected} {e : TopicEntry}

/-! ## Reading -/

/-- What reading a topic makes of a draft. -/
inductive Reads (r : Renderer σ) (d : Draft) (t : Topic) : Draft → Prop
  | empty (content : String) (s₁ s₂ : Session σ) (manuscript : Manuscript.of t = .empty)
      (rendered : (Press.render r .emptyTopic (d.standInContext t)).Gives s₁ content s₂) :
    Reads r d t ((d.warn t Manuscript.emptyMessage).attach t none (.fallback content))
  | malformed (cause : Xml.XmlError) (content : String) (s₁ s₂ : Session σ)
      (manuscript : Manuscript.of t = .malformed cause)
      (rendered : (Press.render r .failedValidation (d.standInContext t)).Gives s₁ content s₂) :
    Reads r d t ((d.error t (Manuscript.malformedMessage cause)).attach t none (.fallback content))
  | document (doc : Document) (ledger : IdLedger) (manuscript : Manuscript.of t = .document doc)
      (recorded : ledger = d.ledger.record t.sourceId (doc.withRootId (t.linkId d.stable)).root) :
    Reads r d t ({ d with ledger }.attach t (some (doc.withRootId (t.linkId d.stable))) .pending)

theorem reads_readTopic (hrun : (readTopic b d t).Gives s d' s') : d.Reads b.renderer t d' := by
  unfold readTopic at hrun
  obtain ⟨_, s₁, -, hrun⟩ := hrun.bind
  cases hm : Manuscript.of t with
  | empty =>
    rw [hm] at hrun
    obtain ⟨content, hrender, rfl⟩ := hrun.map
    exact .empty content _ _ hm hrender
  | malformed cause =>
    rw [hm] at hrun
    obtain ⟨content, hrender, rfl⟩ := hrun.map
    exact .malformed cause content _ _ hm hrender
  | document doc =>
    rw [hm] at hrun
    obtain ⟨rfl, -⟩ := hrun.pure
    exact .document doc _ hm rfl

/-! ## Working out -/

/-- What setting the page of an injected document makes of a draft. -/
inductive Typesets (r : Renderer σ) (dtd : String) (d : Draft) (ref : TopicRef) (t : Topic) (i : Injected) : Draft → Prop
  | accepted (page : String) (read : Document) (validator : Validator) (s₁ s₂ : Session σ)
      (valid : i.report.isValid = true)
      (rendered : (Press.render r .topic (d.pageContext t i.root i.context)).Gives s₁ page s₂)
      (judged : judge d.validator dtd page = (.ok read, validator)) :
    Typesets r dtd d ref t i ({ d with validator }.accept ref t (d.pageContext t i.root i.context) read)
  | uninjected (content : String) (s₁ s₂ : Session σ) (invalid : i.report.isValid = false)
      (rendered : (Press.render r .failedInjection (d.standInContext t)).Gives s₁ content s₂) :
    Typesets r dtd d ref t i
      ((d.error t (injectionMessage i.root)).settle ref.step ⟨none, .fallback content, i.context⟩)
  | invalid (page failure content : String) (validator : Validator) (s₁ s₂ s₃ s₄ : Session σ)
      (valid : i.report.isValid = true)
      (rendered : (Press.render r .topic (d.pageContext t i.root i.context)).Gives s₁ page s₂)
      (judged : judge d.validator dtd page = (.error failure, validator))
      (stoodIn : (Press.render r .failedValidation (d.standInContext t)).Gives s₃ content s₄) :
    Typesets r dtd d ref t i (({ d with validator }.error t (invalidMessage failure page)).settle ref.step
      ⟨none, .fallback content, d.pageContext t i.root i.context⟩)

theorem typesets_typeset (hrun : (typeset b dtd d ref t i).Gives s d' s') : d.Typesets b.renderer dtd ref t i d' := by
  unfold typeset at hrun
  by_cases hvalid : i.report.isValid = true
  · rw [if_pos hvalid] at hrun
    obtain ⟨page, s₁, hrender, hrun⟩ := hrun.bind
    cases hjudge : judge d.validator dtd page with
    | mk judged validator =>
      rw [hjudge] at hrun
      cases judged with
      | ok read =>
        obtain ⟨_, s₂, -, hrun⟩ := hrun.bind
        obtain ⟨rfl, -⟩ := hrun.pure
        exact .accepted page read validator _ _ hvalid hrender hjudge
      | error failure =>
        obtain ⟨content, hstandIn, rfl⟩ := hrun.map
        exact .invalid page failure content validator _ _ _ _ hvalid hrender hjudge hstandIn
  · rw [if_neg hvalid] at hrun
    obtain ⟨content, hstandIn, rfl⟩ := hrun.map
    exact .uninjected content _ _ (Bool.eq_false_iff.2 hvalid) hstandIn

/-- What working out a reference makes of a draft. -/
inductive WorksOut (r : Renderer σ) (dtd : String) (d : Draft) (e : TopicEntry) : Draft → Prop
  | absent (topic : e.topic = none) : WorksOut r dtd d e d
  | bodiless (t : Topic) (topic : e.topic = some t) (document : e.document = none) :
    WorksOut r dtd d e (d.warnAll t (d.translationWarnings t))
  | authored (t : Topic) (doc : Document) (i : Injected) (d' : Draft) (topic : e.topic = some t)
      (document : e.document = some doc)
      (injected : i = d.inject e.ref.step t (doc.withRootId (e.linkId d.stable)).root (e.context.getD []))
      (set : (((d.warnAll t (d.translationWarnings t)).warnAll t i.report.warnings).errorAll t i.report.errors).Typesets
        r dtd e.ref t i d') :
    WorksOut r dtd d e d'

theorem worksOut_processEntry (hrun : (processEntry b dtd d e).Gives s d' s') : d.WorksOut b.renderer dtd e d' := by
  unfold processEntry at hrun
  cases htopic : e.topic with
  | none =>
    rw [htopic] at hrun
    obtain ⟨rfl, -⟩ := hrun.pure
    exact .absent htopic
  | some t =>
    rw [htopic] at hrun
    cases hdocument : e.document with
    | none =>
      simp only [hdocument] at hrun
      obtain ⟨rfl, -⟩ := hrun.pure
      exact .bodiless t htopic hdocument
    | some doc =>
      simp only [hdocument] at hrun
      have hbare := bare_warnAll t (d.translationWarnings t) d
      have hstable : (d.warnAll t (d.translationWarnings t)).stable = d.stable :=
        show (d.warnAll t (d.translationWarnings t)).bare.stable = d.bare.stable by rw [hbare]
      rw [inject_congr hbare, hstable] at hrun
      exact .authored t doc _ d' htopic hdocument rfl (typesets_typeset hrun)

/-- At a step the reference that has it is worked out, if there is one. -/
theorem cases_processStep {step : Nat} (hrun : (processStep b dtd d step).Gives s d' s') :
    (∃ e ∈ d.registry.entries, e.ref.step = step ∧ ∃ s₁, (processEntry b dtd d e).Gives s₁ d' s') ∨
      (∀ e ∈ d.registry.entries, e.ref.step ≠ step) ∧ d' = d := by
  unfold processStep at hrun
  obtain ⟨_, s₁, -, hrun⟩ := hrun.bind
  cases hentry : d.registry.entry? step with
  | some e =>
    rw [hentry] at hrun
    exact .inl ⟨e, List.mem_of_find?_eq_some hentry, by simpa using List.find?_some hentry, s₁, hrun⟩
  | none =>
    rw [hentry] at hrun
    exact .inr ⟨fun e he => by simpa using List.find?_eq_none.1 hentry e he, hrun.pure.1⟩

/-- **What holds once the link ids are reserved and is kept at each step holds when all references are worked out.** -/
theorem processReferences_induction {P : List Nat → Draft → Prop} (hstart : P d.registry.steps d.reserveLinkIds)
    (hstep : ∀ {dtd step rest d₁ d₂ s₁ s₂}, P (step :: rest) d₁ → (processStep b dtd d₁ step).Gives s₁ d₂ s₂ → P rest d₂)
    (hrun : (d.processReferences b).Gives s d' s') : P [] d' := by
  unfold processReferences at hrun
  obtain ⟨dtd, s₁, -, hrun⟩ := hrun.bind
  exact Press.Gives.foldlM (P := P) (fun _ _ _ _ _ _ h hrun => hstep h hrun) hstart hrun

/-! ## Images -/

/-- Moving the images of a reference changes its document only, if it has one and ends up in the book. -/
theorem relocateEntry_cases (outline : Level) (e : TopicEntry) : relocateEntry outline e = (e, []) ∨
    ∃ t doc, e.topic = some t ∧ e.document = some doc ∧ relocateEntry outline e
      = ({ e with document := some (ImageRef.relocateAll t doc).1 }, (ImageRef.relocateAll t doc).2) := by
  unfold relocateEntry
  split
  · split
    · exact .inr ⟨_, _, ‹_›, ‹_›, rfl⟩
    · exact .inl rfl
  · exact .inl rfl

/-- **One image loaded**: of several under one name, the first is kept. -/
theorem exists_findImage_of_loadImage {placeholder : ByteArray} {images images' : List Image} {r : ImageRef}
    (hrun : (loadImage b placeholder d images r).Gives s (d', images') s') :
    ∃ found, (findImage b d r).Gives s (d', found) s' ∧ images' = if images.any fun i => i.name == r.name then images
      else images ++ [⟨r.name, found.getD placeholder⟩] := by
  unfold loadImage at hrun
  obtain ⟨_, s₁, hcheck, hrun⟩ := hrun.bind
  cases hcheck.check
  obtain ⟨⟨d₁, found⟩, s₂, hfind, hrun⟩ := hrun.bind
  dsimp only at hrun
  split at hrun
  · rename_i hold
    obtain ⟨he, rfl⟩ := hrun.pure
    cases he
    exact ⟨found, hfind, (if_pos hold).symm⟩
  · rename_i hnew
    obtain ⟨he, rfl⟩ := hrun.pure
    cases he
    exact ⟨found, hfind, (if_neg hnew).symm⟩

/-- **What holds once the images are moved and is kept by each that is loaded holds when all are collected.** -/
theorem collectImages_induction {P : List ImageRef → Draft × List Image → Prop}
    (hstart : P d.relocateImages.2 (d.relocateImages.1, []))
    (hstep : ∀ {placeholder r refs d₁ d₂ images₁ images₂ s₁ s₂}, P (r :: refs) (d₁, images₁) →
      (loadImage b placeholder d₁ images₁ r).Gives s₁ (d₂, images₂) s₂ → P refs (d₂, images₂))
    {images : List Image} (hrun : (d.collectImages b).Gives s (d', images) s') : P [] (d', images) := by
  unfold collectImages at hrun
  dsimp only at hrun
  split at hrun
  · rename_i hempty
    rwa [hrun.pure.1, ← List.isEmpty_iff.1 hempty]
  · obtain ⟨placeholder, s₁, -, hrun⟩ := hrun.bind
    exact Press.Gives.foldlM (P := P) (fun _ _ _ _ _ _ h hrun => hstep h hrun) hstart hrun

end Draft

namespace Bindery

variable {b : Bindery σ} {spec : ContentSpec} {settings : Settings} {requester : Option String} {d : Draft}

/-! ## Beginning -/

/-- **A draft begins as the registered outline with the topics that were fetched for it.** -/
theorem eq_of_draft (h : (b.draft spec settings requester).Gives s d s') : ∃ topics stable,
    d = { spec, settings, requester, locale := localeOf spec settings,
          outline := (({} : Registry).register spec.root).1, registry := (({} : Registry).register spec.root).2, topics,
          stable, problems := { locale := localeOf spec settings }, validator := b.validator } ∧
      (b.fetch settings d.registry.topicIds (localeOf spec settings)).Gives s (topics, stable) s' := by
  unfold draft at h
  dsimp only at h
  split at h
  · obtain ⟨_, _, h, -⟩ := h.bind
    exact h.throw.elim
  · obtain ⟨⟨topics, stable⟩, hfetch, rfl⟩ := h.map
    exact ⟨topics, stable, rfl, hfetch⟩

end Bindery
end Bookbinder
