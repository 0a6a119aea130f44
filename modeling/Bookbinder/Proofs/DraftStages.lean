import Bookbinder.Proofs.SettledReferences
/-!
# The stages of a draft

A prepared draft is a later stage of the draft that a build begins with: it is a draft of the same book, in the same
language, with the same levels and the same topics (`exists_draft_of_prepare`).  What is learnt on the way are the
topics' documents, and the images that they show (`collected_images`).
-/
namespace Bookbinder

variable {σ : Type}

namespace Draft

variable {b : Bindery σ} {d d' : Draft} {s s' : Session σ}

/-- A later stage of a draft. -/
structure Follows (d d' : Draft) : Prop where
  spec : d'.spec = d.spec
  settings : d'.settings = d.settings
  locale : d'.locale = d.locale
  outline : d'.outline = d.outline
  levels : d'.registry.levels = d.registry.levels
  topics : d'.topics = d.topics
  stable : d'.stable = d.stable

theorem Follows.refl (d : Draft) : d.Follows d := ⟨rfl, rfl, rfl, rfl, rfl, rfl, rfl⟩

theorem Follows.trans {d₁ d₂ d₃ : Draft} (h : d₁.Follows d₂) (h' : d₂.Follows d₃) : d₁.Follows d₃ where
  spec := h'.spec.trans h.spec
  settings := h'.settings.trans h.settings
  locale := h'.locale.trans h.locale
  outline := h'.outline.trans h.outline
  levels := h'.levels.trans h.levels
  topics := h'.topics.trans h.topics
  stable := h'.stable.trans h.stable

theorem Follows.of_bare (h : d'.bare = d.bare) : d.Follows d' where
  spec := show d'.bare.spec = d.bare.spec by rw [h]
  settings := show d'.bare.settings = d.bare.settings by rw [h]
  locale := show d'.bare.locale = d.bare.locale by rw [h]
  outline := show d'.bare.outline = d.bare.outline by rw [h]
  levels := show d'.bare.registry.levels = d.bare.registry.levels by rw [h]
  topics := show d'.bare.topics = d.bare.topics by rw [h]
  stable := show d'.bare.stable = d.bare.stable by rw [h]

/-! ## Reading -/

/-- The topics that references have been given are among some. -/
def TopicsIn (ts : List Topic) (d : Draft) : Prop :=
  ∀ e ∈ d.registry.entries, ∀ t ∈ e.topic, t ∈ ts

theorem TopicsIn.attach {ts : List Topic} (h : d.TopicsIn ts) {t : Topic} (ht : t ∈ ts)
    (document : Option Xml.Document) (outcome : Outcome) : (d.attach t document outcome).TopicsIn ts := by
  intro e he u hu
  obtain ⟨x, hx, rfl⟩ := List.mem_map.1 he
  split at hu
  · cases hu
    exact ht
  · exact h x hx u hu

theorem TopicsIn.of_bare {ts : List Topic} (h : d.TopicsIn ts) (hbare : d'.bare = d.bare) : d'.TopicsIn ts := by
  intro e he t ht
  have hentries : d'.registry.entries.map TopicEntry.bare = d.registry.entries.map TopicEntry.bare :=
    show d'.bare.registry.entries = d.bare.registry.entries by rw [hbare]
  have hmem : e.bare ∈ d.registry.entries.map TopicEntry.bare := by
    rw [← hentries]
    exact List.mem_map_of_mem he
  obtain ⟨x, hx, hsame⟩ := List.mem_map.1 hmem
  have htopic : x.topic = e.topic := show x.bare.topic = e.bare.topic by rw [hsame]
  exact h x hx t (htopic ▸ ht)

theorem follows_readTopic {t : Topic} (hrun : (readTopic b d t).Gives s d' s') :
    d.Follows d' ∧ ∀ {ts : List Topic}, t ∈ ts → d.TopicsIn ts → d'.TopicsIn ts := by
  cases reads_readTopic hrun with
  | empty =>
    exact ⟨⟨rfl, rfl, rfl, rfl, rfl, rfl, rfl⟩, fun ht h => TopicsIn.attach (d := d.warn t _) h ht _ _⟩
  | malformed cause =>
    exact ⟨⟨rfl, rfl, rfl, rfl, rfl, rfl, rfl⟩, fun ht h => TopicsIn.attach (d := d.error t _) h ht _ _⟩
  | document doc ledger =>
    exact ⟨⟨rfl, rfl, rfl, rfl, rfl, rfl, rfl⟩, fun ht h => TopicsIn.attach (d := { d with ledger }) h ht _ _⟩

theorem follows_readTopics (hrun : (d.readTopics b).Gives s d' s') :
    d.Follows d' ∧ (d.TopicsIn d.topics → d'.TopicsIn d.topics) := by
  obtain ⟨-, hfollows, htopics⟩ := Press.Gives.foldlM
    (P := fun ts d₁ => ts ⊆ d.topics ∧ d.Follows d₁ ∧ (d.TopicsIn d.topics → d₁.TopicsIn d.topics))
    (fun t ts d₁ d₂ _ _ h hrun =>
      have ⟨hfollows, htopics⟩ := follows_readTopic hrun
      ⟨fun u hu => h.1 (List.mem_cons_of_mem t hu), h.2.1.trans hfollows,
        fun h₀ => htopics (h.1 List.mem_cons_self) (h.2.2 h₀)⟩)
    ⟨List.Subset.refl _, Follows.refl d, id⟩ hrun
  exact ⟨hfollows, htopics⟩

/-! ## Images -/

/-- The references to images in the topics that end up in the book, in document order. -/
def imageRefs (d : Draft) : List ImageRef :=
  (d.registry.entries.filter fun e => Layout.isOutlined d.outline e.ref.step).flatMap TopicEntry.imageRefs

/-- **The images that are looked up are those of the topics that end up in the book.** -/
theorem refs_relocateImages (d : Draft) : d.relocateImages.2 = d.imageRefs := by
  have hentry (e : TopicEntry) : (relocateEntry d.outline e).2
      = if Layout.isOutlined d.outline e.ref.step = true then e.imageRefs else [] := by
    unfold relocateEntry TopicEntry.imageRefs
    cases e.topic with
    | none => exact (ite_self _).symm
    | some t =>
      cases e.document with
      | none => exact (ite_self _).symm
      | some doc =>
        dsimp only
        by_cases houtlined : Layout.isOutlined d.outline e.ref.step = true
        · rw [if_pos houtlined, if_pos houtlined]
          exact ImageRef.refs_relocateAll
        · rw [if_neg houtlined, if_neg houtlined]
  have hgathered (es : List TopicEntry) : (es.map (relocateEntry d.outline)).flatMap (·.2)
      = (es.filter fun e => Layout.isOutlined d.outline e.ref.step).flatMap TopicEntry.imageRefs := by
    induction es with
    | nil => rfl
    | cons e es ih =>
      rw [List.map_cons, List.flatMap_cons, ih, hentry, List.filter_cons]
      split <;> rfl
  exact hgathered d.registry.entries

/-- References to images under the names that their places give them. -/
def ProperlyNamed (refs : List ImageRef) : Prop :=
  ∀ r ∈ refs, r.name = ImageName.ofReference r.fileref

theorem named_imageRefs (d : Draft) : ProperlyNamed d.imageRefs := by
  intro r hr
  obtain ⟨e, -, hr⟩ := List.mem_flatMap.1 hr
  unfold TopicEntry.imageRefs at hr
  split at hr
  · obtain ⟨fileref, -, rfl⟩ := List.mem_map.1 hr
    rfl
  · exact absurd hr List.not_mem_nil

/-- Images of different names, each of which some place gives. -/
structure Collected (images : List Image) : Prop where
  nodup : (images.map (·.name)).Nodup
  named : ∀ i ∈ images, ∃ fileref, i.name = ImageName.ofReference fileref

theorem Collected.loadImage {placeholder : ByteArray} {images images' : List Image} {r : ImageRef}
    (h : Collected images) (hr : r.name = ImageName.ofReference r.fileref)
    (hrun : (Draft.loadImage b placeholder d images r).Gives s (d', images') s') : Collected images' := by
  obtain ⟨found, -, rfl⟩ := exists_findImage_of_loadImage hrun
  split
  · exact h
  · rename_i hnew
    refine ⟨?_, List.forall_mem_append.2 ⟨h.named, List.forall_mem_singleton.2 ⟨_, hr⟩⟩⟩
    rw [List.map_append, List.map_singleton]
    refine List.nodup_append.2 ⟨h.nodup, List.nodup_singleton _, fun name hname name' hname' he => hnew ?_⟩
    obtain ⟨i, hi, hin⟩ := List.mem_map.1 hname
    rw [List.mem_singleton.1 hname'] at he
    exact List.any_eq_true.2 ⟨i, hi, beq_iff_eq.2 (hin.trans he)⟩

/-- **The images of a book have names of their own.** -/
theorem collected_images {images : List Image} (hrun : (d.collectImages b).Gives s (d', images) s') :
    Collected images := by
  have hnone : Collected [] := ⟨List.nodup_nil, fun _ h => absurd h List.not_mem_nil⟩
  have hnamed := d.refs_relocateImages ▸ d.named_imageRefs
  obtain ⟨-, h⟩ := collectImages_induction (P := fun refs p => ProperlyNamed refs ∧ Collected p.2) ⟨hnamed, hnone⟩
    (fun h hrun => ⟨fun r hr => h.1 r (List.mem_cons_of_mem _ hr), h.2.loadImage (h.1 _ List.mem_cons_self) hrun⟩) hrun
  exact h

end Draft

namespace Bindery

variable {b : Bindery σ} {spec : ContentSpec} {settings : Settings} {requester : Option String} {s s' : Session σ}

theorem follows_passes {d d₁ d₂ d₃ : Draft} {images : List Image} {s₁ s₂ s₃ : Session σ}
    (hread : (d.readTopics b).Gives s d₁ s₁) (hwork : (d₁.processReferences b).Gives s₁ d₂ s₂)
    (hcollect : (d₂.collectImages b).Gives s₂ (d₃, images) s₃) : d.Follows d₃ :=
  (Draft.follows_readTopics hread).1.trans
    (.of_bare ((Draft.bare_collectImages hcollect).trans (Draft.bare_processReferences hwork)))

/-- A draft of the book that was asked for, with its outline registered. -/
structure Begins (spec : ContentSpec) (settings : Settings) (d : Draft) : Prop where
  locale : d.locale = localeOf spec settings
  registered : ({} : Registry).register spec.root = (d.outline, d.registry)
  settings : d.settings = settings
  spec : d.spec = spec

theorem begins_draft {d : Draft} (h : (b.draft spec settings requester).Gives s d s') : Begins spec settings d := by
  obtain ⟨topics, stable, rfl, -⟩ := eq_of_draft h
  exact ⟨rfl, rfl, rfl, rfl⟩

/-- **A prepared draft is a later stage of one that has just begun**, with topics among those that were fetched for
it. -/
theorem exists_draft_of_prepare {d : Draft} {images : List Image}
    (hrun : (b.prepare spec settings requester).Gives s (d, images) s') : ∃ d₀ s₀,
      (b.draft spec settings requester).Gives s d₀ s₀ ∧ d₀.Follows d ∧ d.TopicsIn d₀.topics ∧
      Draft.Collected images := by
  obtain ⟨d₀, d₁, d₂, s₀, s₁, s₂, hdraft, hread, hwork, hcollect⟩ := passes_of_prepare hrun
  obtain ⟨-, htopics⟩ := Draft.follows_readTopics hread
  have hbare : d.bare = d₁.bare := (Draft.bare_collectImages hcollect).trans (Draft.bare_processReferences hwork)
  refine ⟨d₀, s₀, hdraft, follows_passes hread hwork hcollect, (htopics fun e he t ht => ?_).of_bare hbare,
    Draft.collected_images hcollect⟩
  have hregistry := (exists_fetch_of_draft hdraft).2.1
  rw [hregistry] at he
  rw [((Registry.unlearned_register spec.root).entries e he).1] at ht
  cases ht

/-- The outline of a prepared draft is the specification's, registered. -/
theorem outline_of_prepare {d : Draft} {images : List Image}
    (hrun : (b.prepare spec settings requester).Gives s (d, images) s') :
    d.outline = (({} : Registry).register spec.root).1 := by
  obtain ⟨d₀, s₀, hdraft, hfollows, -, -⟩ := exists_draft_of_prepare hrun
  rw [hfollows.outline, (begins_draft hdraft).registered]

end Bindery
end Bookbinder
