import Bookbinder.Proofs.PreparedBooks
/-!
# No reference is left pending

Whatever renders the pages and judges them, a reference whose topic was fetched ends up with something to publish: its
own document, or what stands in for it (`ready_prepare`).
-/
namespace Bookbinder

variable {σ : Type}

/-- A reference with something to publish. -/
inductive TopicEntry.Publishable (e : TopicEntry) : Prop
  | valid (doc : Xml.Document) (outcome : e.outcome = .valid) (document : e.document = some doc)
  | fallback (content : String) (outcome : e.outcome = .fallback content)

theorem TopicEntry.Publishable.ne_pending {e : TopicEntry} (h : e.Publishable) : e.outcome ≠ .pending := by
  cases h with
  | valid doc outcome document => rw [outcome]; exact Outcome.noConfusion
  | fallback content outcome => rw [outcome]; exact Outcome.noConfusion

/-- A reference with a topic's document that is still to be worked out. -/
structure TopicEntry.Waiting (e : TopicEntry) : Prop where
  topic : e.topic.isSome
  document : e.document.isSome

namespace Draft

variable {b : Bindery σ} {d d' : Draft} {s s' : Session σ}

/-! ## What a pass keeps -/

/-- Two drafts of one registered outline. -/
structure Keeps (d d' : Draft) : Prop where
  outline : d'.outline = d.outline
  refs : d'.registry.entries.map (·.ref) = d.registry.entries.map (·.ref)

theorem Keeps.refl (d : Draft) : d.Keeps d := ⟨rfl, rfl⟩

theorem Keeps.trans {d₁ d₂ d₃ : Draft} (h : d₁.Keeps d₂) (h' : d₂.Keeps d₃) : d₁.Keeps d₃ :=
  ⟨h'.outline.trans h.outline, h'.refs.trans h.refs⟩

theorem Keeps.of_bare (h : d'.bare = d.bare) : d.Keeps d' := by
  have hrefs (d : Draft) : d.registry.entries.map (·.ref) = d.bare.registry.entries.map (·.ref) :=
    (List.map_map (f := TopicEntry.bare) (g := TopicEntry.ref)).symm
  refine ⟨show d'.bare.outline = d.bare.outline by rw [h], ?_⟩
  rw [hrefs d, hrefs d', h]

theorem Keeps.steps (h : d.Keeps d') : d'.registry.steps = d.registry.steps := by
  have hsteps (d : Draft) : d.registry.steps = (d.registry.entries.map (·.ref)).map (·.step) :=
    List.map_map.symm
  rw [hsteps, hsteps, h.refs]

/-! ## Reading -/

/-- Every reference has been given its topic, or its topic is still to be read. -/
def Unread (remaining : List Topic) (d : Draft) : Prop :=
  ∀ e ∈ d.registry.entries, (∃ t ∈ remaining, t.sourceId = e.ref.topicId) ∨ e.Publishable ∨ e.Waiting

theorem Keeps.attach {d₁ : Draft} {t : Topic} {document : Option Xml.Document} {outcome : Outcome} (h : d.Keeps d₁) :
    d.Keeps (d₁.attach t document outcome) := by
  refine ⟨h.outline, Eq.trans ?_ h.refs⟩
  unfold Draft.attach
  rw [List.map_map]
  refine List.map_congr_left fun e _ => ?_
  dsimp only [Function.comp]
  split <;> rfl

theorem Unread.attach {t : Topic} {rest : List Topic} {document : Option Xml.Document} {outcome : Outcome}
    (h : d.Unread (t :: rest))
    (hnew : ∀ e, (attachTo d.stable t document outcome e).Publishable ∨ (attachTo d.stable t document outcome e).Waiting) :
    (d.attach t document outcome).Unread rest := by
  intro e he
  obtain ⟨x, hx, rfl⟩ := List.mem_map.1 he
  split
  · exact .inr (hnew x)
  · rename_i hne
    refine (h x hx).imp_left ?_
    rintro ⟨u, hu, hid⟩
    rcases List.mem_cons.1 hu with rfl | hu
    · exact absurd hid.symm hne
    · exact ⟨u, hu, hid⟩

theorem Unread.readTopic {t : Topic} {rest : List Topic} (h : d.Unread (t :: rest))
    (hrun : (Draft.readTopic b d t).Gives s d' s') : d'.Unread rest ∧ d.Keeps d' := by
  cases reads_readTopic hrun with
  | empty content _ _ manuscript rendered =>
    exact ⟨Unread.attach (d := d.warn t _) h fun _ => .inl (.fallback content rfl),
      Keeps.attach (show d.Keeps (d.warn t _) from ⟨rfl, rfl⟩)⟩
  | malformed cause content _ _ manuscript rendered =>
    exact ⟨Unread.attach (d := d.error t _) h fun _ => .inl (.fallback content rfl),
      Keeps.attach (show d.Keeps (d.error t _) from ⟨rfl, rfl⟩)⟩
  | document doc ledger manuscript recorded =>
    exact ⟨Unread.attach (d := { d with ledger }) h fun _ => .inr ⟨rfl, rfl⟩,
      Keeps.attach (show d.Keeps ({ d with ledger }) from ⟨rfl, rfl⟩)⟩

/-- **Once all topics are read, every reference whose topic was among them has a document or something in its
place.** -/
theorem waiting_readTopics (h : ∀ e ∈ d.registry.entries, ∃ t ∈ d.topics, t.sourceId = e.ref.topicId)
    (hrun : (d.readTopics b).Gives s d' s') :
    d.Keeps d' ∧ ∀ e ∈ d'.registry.entries, e.Publishable ∨ e.Waiting := by
  obtain ⟨hunread, hkeeps⟩ := Press.Gives.foldlM (P := fun ts d₁ => d₁.Unread ts ∧ d.Keeps d₁)
    (fun t ts d₁ d₂ _ _ h hrun =>
      have ⟨hunread, hkeeps⟩ := h.1.readTopic hrun
      ⟨hunread, h.2.trans hkeeps⟩) ⟨fun e he => .inl (h e he), Keeps.refl d⟩ hrun
  refine ⟨hkeeps, fun e he => (hunread e he).resolve_left ?_⟩
  rintro ⟨t, ht, -⟩
  exact absurd ht List.not_mem_nil

/-! ## Working out -/

/-- Every reference has something to publish, or is still to be worked out. -/
structure Unsettled (remaining : List Nat) (d : Draft) : Prop where
  steps : d.registry.steps.Nodup
  entries : ∀ e ∈ d.registry.entries, e.Publishable ∨ (e.ref.step ∈ remaining ∧ e.Waiting)

/-- A draft in which the reference at a step has been settled for good. -/
inductive Settles (d : Draft) (step : Nat) : Draft → Prop
  | settle (d₁ : Draft) (r : Settled) (bare : d₁.bare = d.bare) (registry : d₁.registry = d.registry)
      (publishable : ∀ e : TopicEntry, (e.settled r).Publishable) : Settles d step (d₁.settle step r)

theorem Typesets.settles {d₁ : Draft} {r : Renderer σ} {dtd : String} {ref : TopicRef} {t : Topic} {i : Injected}
    (h : d₁.Typesets r dtd ref t i d') (hnoted : d.Noted d₁) : d.Settles ref.step d' := by
  cases h with
  | accepted page read validator => exact .settle _ _ hnoted.bare hnoted.registry fun _ => .valid _ rfl rfl
  | uninjected content => exact .settle _ _ hnoted.bare hnoted.registry fun _ => .fallback content rfl
  | invalid page failure content => exact .settle _ _ hnoted.bare hnoted.registry fun _ => .fallback content rfl

/-- Working out a reference settles it, unless it has nothing to be worked out from. -/
theorem settles_processEntry {dtd : String} {e : TopicEntry} (hrun : (processEntry b dtd d e).Gives s d' s') :
    d.Settles e.ref.step d' ∨ d.Noted d' ∧ ¬e.Waiting := by
  cases worksOut_processEntry hrun with
  | absent topic =>
    refine .inr ⟨Noted.refl d, fun hwaiting => ?_⟩
    have hsome := hwaiting.topic
    rw [topic] at hsome
    cases hsome
  | bodiless t topic document =>
    refine .inr ⟨(Noted.refl d).warnAll t _, fun hwaiting => ?_⟩
    have hsome := hwaiting.document
    rw [document] at hsome
    cases hsome
  | authored t doc i d' topic document injected set =>
    exact .inl (set.settles ((((Noted.refl d).warnAll t _).warnAll t _).errorAll t _))

theorem Settles.bare_eq {step : Nat} (h : d.Settles step d') : d'.bare = d.bare := by
  cases h with
  | settle d₁ r bare registry publishable =>
    have hupdate : (d₁.settle step r).registry.bare = d₁.registry.bare :=
      Registry.bare_update (f := (TopicEntry.settled · r)) (fun _ => rfl) d₁.registry step
    rw [← bare, Draft.bare, Draft.bare, hupdate]
    rfl

theorem Settles.mem_entries {step : Nat} (h : d.Settles step d') {e : TopicEntry} (he : e ∈ d'.registry.entries) :
    e.Publishable ∨ (e ∈ d.registry.entries ∧ e.ref.step ≠ step) := by
  cases h with
  | settle d₁ r bare registry publishable =>
    obtain ⟨x, hx, rfl⟩ := List.mem_map.1 he
    rw [registry] at hx
    dsimp only
    split
    · exact .inl (publishable x)
    · exact .inr ⟨hx, ‹_›⟩

theorem Unsettled.processEntry {e : TopicEntry} {rest : List Nat} (h : d.Unsettled (e.ref.step :: rest))
    (he : e ∈ d.registry.entries) {dtd : String} (hrun : (Draft.processEntry b dtd d e).Gives s d' s') :
    d'.Unsettled rest := by
  rcases settles_processEntry hrun with hsettles | ⟨hnoted, hdone⟩
  · refine ⟨steps_of_bare hsettles.bare_eq ▸ h.steps, fun x hx => ?_⟩
    rcases hsettles.mem_entries hx with hx | ⟨hx, hne⟩
    · exact .inl hx
    · exact (h.entries x hx).imp_right fun hw => ⟨(List.mem_cons.1 hw.1).resolve_left hne, hw.2⟩
  · refine ⟨hnoted.registry ▸ h.steps, fun x hx => ?_⟩
    rw [hnoted.registry] at hx
    refine (h.entries x hx).imp_right fun ⟨hstep, hwaiting⟩ => ⟨(List.mem_cons.1 hstep).resolve_left fun hs => ?_, hwaiting⟩
    exact hdone (eq_of_step h.steps hx he hs ▸ hwaiting)

theorem bare_processStep {dtd : String} {step : Nat} (hrun : (processStep b dtd d step).Gives s d' s') :
    d'.bare = d.bare := by
  rcases cases_processStep hrun with ⟨e, -, -, s₁, hrun⟩ | ⟨-, rfl⟩
  · exact (settles_processEntry hrun).elim Settles.bare_eq fun h => h.1.bare
  · rfl

theorem bare_processReferences (hrun : (d.processReferences b).Gives s d' s') : d'.bare = d.bare :=
  processReferences_induction (P := fun _ d₁ => d₁.bare = d.bare) rfl
    (fun h hrun => (bare_processStep hrun).trans h) hrun

theorem Unsettled.processStep {step : Nat} {rest : List Nat} (h : d.Unsettled (step :: rest)) {dtd : String}
    (hrun : (Draft.processStep b dtd d step).Gives s d' s') : d'.Unsettled rest := by
  rcases cases_processStep hrun with ⟨e, he, rfl, s₁, hrun⟩ | ⟨hnone, rfl⟩
  · exact h.processEntry he hrun
  · exact ⟨h.steps, fun e he => (h.entries e he).imp_right fun hw =>
      ⟨(List.mem_cons.1 hw.1).resolve_left (hnone e he), hw.2⟩⟩

/-- **Once all references are worked out, each has something to publish.** -/
theorem publishable_processReferences (hsteps : d.registry.steps.Nodup)
    (h : ∀ e ∈ d.registry.entries, e.Publishable ∨ e.Waiting) (hrun : (d.processReferences b).Gives s d' s') :
    ∀ e ∈ d'.registry.entries, e.Publishable := by
  have hstart : d.reserveLinkIds.Unsettled d.registry.steps :=
    ⟨hsteps, fun e he => (h e he).imp_right fun hw => ⟨List.mem_map.2 ⟨e, he, rfl⟩, hw⟩⟩
  have hunsettled : d'.Unsettled [] := processReferences_induction (P := fun steps d₁ => d₁.Unsettled steps) hstart
    (fun h hrun => h.processStep hrun) hrun
  exact fun e he => (hunsettled.entries e he).resolve_right fun hw => absurd hw.1 List.not_mem_nil

theorem publishable_relocateEntry {outline : Level} {e : TopicEntry} (h : e.Publishable) :
    (relocateEntry outline e).1.Publishable := by
  have houtcome := outcome_relocateEntry outline e
  cases h with
  | fallback content outcome => exact .fallback content (houtcome.trans outcome)
  | valid doc outcome document =>
    obtain ⟨doc', hdocument⟩ : ∃ doc', (relocateEntry outline e).1.document = some doc' := by
      rcases relocateEntry_cases outline e with h | ⟨_, _, -, -, h⟩ <;> rw [h]
      · exact ⟨doc, document⟩
      · exact ⟨_, rfl⟩
    exact .valid doc' (houtcome.trans outcome) hdocument

end Draft

namespace Bindery

variable {b : Bindery σ} {spec : ContentSpec} {settings : Settings} {requester : Option String} {s s' : Session σ}

/-- A prepared draft of an outline: it is that outline, registered, and all its references have something to
publish. -/
structure Ready (spec : ContentSpec) (d : Draft) : Prop where
  outline : d.outline = (({} : Registry).register spec.root).1
  refs : d.registry.entries.map (·.ref) = d.outline.refs
  steps : d.registry.steps.Pairwise (· < ·)
  publishable : ∀ e ∈ d.registry.entries, e.Publishable

/-- **In a prepared draft no reference is pending.** -/
theorem ready_prepare (hplain : b.Untranslated s) {d : Draft} {images : List Image}
    (hrun : (b.prepare spec settings requester).Gives s (d, images) s') : Ready spec d := by
  obtain ⟨d₁, d₂, d₃, s₁, s₂, s₃, hd₁, hd₂, hd₃, hd⟩ := passes_of_prepare hrun
  obtain ⟨houtline, hregistry, -⟩ := exists_fetch_of_draft hd₁
  have hascending : d₁.registry.steps.Pairwise (· < ·) := hregistry ▸ (Registry.unlearned_register spec.root).steps
  obtain ⟨hread, hwaiting⟩ := Draft.waiting_readTopics (covers_draft hplain hd₁) hd₂
  have hsteps : d₂.registry.steps.Nodup := by
    rw [hread.steps]
    exact hascending.imp Nat.ne_of_lt
  have hpublishable := Draft.publishable_processReferences hsteps hwaiting hd₃
  have hkeeps : d₁.Keeps d := hread.trans (.of_bare ((Draft.bare_collectImages hd).trans (Draft.bare_processReferences hd₃)))
  refine ⟨hkeeps.outline.trans houtline, ?_, hkeeps.steps ▸ hascending, fun e he => ?_⟩
  · rw [hkeeps.refs, hkeeps.outline, hregistry, houtline]
    exact Registry.entries_register spec.root
  · rw [Draft.entries_collectImages hd] at he
    obtain ⟨x, hx, rfl⟩ := List.mem_map.1 he
    exact Draft.publishable_relocateEntry (hpublishable x hx)

end Bindery
end Bookbinder
