import Bookbinder.Proofs.CollatedRemarks
import Bookbinder.Proofs.DraftStages
/-!
# Images that are looked up

The images of a draft are looked up one after the other, and a store may change with every answer.  So a lookup is a
reference together with the store as it is by then (`Bindery.lookups`), and what it brings to light, an image or a
problem of the topic, is told by that store alone (`Lookup.Yields`).  Of several references under one name the first
tells the image (`Draft.gathers_collectImages`).
-/
namespace Bookbinder

variable {σ : Type}

/-- A reference to an image, and the store as it is when the image is looked up. -/
structure Lookup (σ : Type) where
  ref : ImageRef
  store : σ

namespace Lookup

/-- The store once the image has been looked up: it is only asked for images whose names tell their ids. -/
def next (store : TopicStore σ) (a : Lookup σ) : σ :=
  match ImageName.id? a.ref.name with
  | some id => (store.image id a.store).state
  | none => a.store

/-- What a lookup yields: an image, and what is reported of the reference.  `start` is the store as it was when it was
asked for the placeholder. -/
inductive Yields (store : TopicStore σ) (start : σ) (a : Lookup σ) : ByteArray → List Remark → Prop
  | found (id : Int) (bytes : ByteArray) (named : ImageName.id? a.ref.name = some id)
      (image : (store.image id a.store).result = .ok (some bytes)) : Yields store start a bytes []
  | missing (id : Int) (placeholder : ByteArray) (named : ImageName.id? a.ref.name = some id)
      (image : (store.image id a.store).result = .ok none)
      (blob : (store.blob ConstantId.placeholderImage start).result = .ok placeholder) :
    Yields store start a placeholder (a.ref.topic.remarks .error [ImageRef.notFoundMessage id a.ref.fileref])
  | misnamed (placeholder : ByteArray) (unnamed : ImageName.id? a.ref.name = none)
      (blob : (store.blob ConstantId.placeholderImage start).result = .ok placeholder) :
    Yields store start a placeholder (a.ref.topic.remarks .error [ImageRef.badNameMessage a.ref.fileref])

end Lookup

namespace Bindery

/-- The lookups of references one after the other. -/
def lookups (b : Bindery σ) : σ → List ImageRef → List (Lookup σ)
  | _, [] => []
  | u, r :: refs => ⟨r, u⟩ :: b.lookups (Lookup.next b.store ⟨r, u⟩) refs

theorem map_ref_lookups (b : Bindery σ) : ∀ (u : σ) (refs : List ImageRef), (b.lookups u refs).map (·.ref) = refs
  | _, [] => rfl
  | u, r :: refs => congrArg (r :: ·) (b.map_ref_lookups (Lookup.next b.store ⟨r, u⟩) refs)

end Bindery

namespace Draft

variable {b : Bindery σ} {d d' : Draft} {s s' : Session σ}

/-- The lookups of a draft's images, from the store as it is after it was asked for the placeholder. -/
def lookups (b : Bindery σ) (d : Draft) (start : σ) : List (Lookup σ) :=
  b.lookups (b.store.blob ConstantId.placeholderImage start).state d.imageRefs

/-! ## One reference -/

/-- **One lookup**: the draft it leaves differs by what is reported, and its image is kept unless there is one of its
name. -/
theorem exists_yields_loadImage {start : σ} {placeholder : ByteArray}
    (hblob : (b.store.blob ConstantId.placeholderImage start).result = .ok placeholder) {images images' : List Image}
    {r : ImageRef} (hrun : (loadImage b placeholder d images r).Gives s (d', images') s') :
    s'.store = Lookup.next b.store ⟨r, s.store⟩ ∧ ∃ bytes rs, Lookup.Yields b.store start ⟨r, s.store⟩ bytes rs ∧
      d'.problems = d.problems.addAll rs ∧
      images' = if images.any fun i => i.name == r.name then images else images ++ [⟨r.name, bytes⟩] := by
  obtain ⟨found, hfind, himages⟩ := exists_findImage_of_loadImage hrun
  unfold findImage at hfind
  split at hfind
  · rename_i hname
    obtain ⟨he, rfl⟩ := hfind.pure
    cases he
    refine ⟨?_, placeholder, _, .misnamed placeholder hname hblob, rfl, himages⟩
    rw [Lookup.next, hname]
  · rename_i id hname
    obtain ⟨image, s₃, hask, hfind⟩ := hfind.bind
    obtain ⟨hresult, rfl⟩ := hask.ask
    have hnext : Lookup.next b.store ⟨r, s.store⟩ = (b.store.image id s.store).state := by
      rw [Lookup.next, hname]
    split at hfind
    · rename_i bytes
      obtain ⟨he, rfl⟩ := hfind.pure
      cases he
      exact ⟨hnext.symm, bytes, [], .found id bytes hname hresult, rfl, himages⟩
    · obtain ⟨he, rfl⟩ := hfind.pure
      cases he
      exact ⟨hnext.symm, placeholder, _, .missing id placeholder hname hresult hblob, rfl, himages⟩

/-! ## All references -/

/-- The images and the reports that lookups add to others: every lookup yields something, what is reported is added in
order, and the new images have the names of the references, each told by the first of its name. -/
structure Gathers (b : Bindery σ) (start : σ) (asked : List (Lookup σ)) (log : ProblemLog) (images : List Image)
    (log' : ProblemLog) (images' : List Image) : Prop where
  problems : ∃ rss, List.Forall₂ (fun a rs => ∃ bytes, a.Yields b.store start bytes rs) asked rss ∧
    log' = log.addAll rss.flatten
  names : ∀ name, name ∈ images'.map (·.name) ↔ name ∈ images.map (·.name) ∨ ∃ a ∈ asked, a.ref.name = name
  kept : ∀ i ∈ images', i ∈ images ∨ i.name ∉ images.map (·.name) ∧
    ∃ a, asked.find? (fun a => a.ref.name == i.name) = some a ∧ ∃ rs, a.Yields b.store start i.bytes rs

theorem Gathers.refl (b : Bindery σ) (start : σ) (log : ProblemLog) (images : List Image) :
    Gathers b start [] log images log images where
  problems := ⟨[], .nil, rfl⟩
  names name := by simp
  kept i hi := .inl hi

/-- A lookup before others. -/
theorem Gathers.cons {start : σ} {a : Lookup σ} {asked : List (Lookup σ)} {log log' : ProblemLog}
    {images images₁ images' : List Image} {bytes : ByteArray} {rs : List Remark}
    (hyields : a.Yields b.store start bytes rs)
    (himages : images₁ = if images.any fun i => i.name == a.ref.name then images else images ++ [⟨a.ref.name, bytes⟩])
    (h : Gathers b start asked (log.addAll rs) images₁ log' images') :
    Gathers b start (a :: asked) log images log' images' := by
  have hany : (images.any fun i => i.name == a.ref.name) = true ↔ a.ref.name ∈ images.map (·.name) := by
    simp [List.any_eq_true, List.mem_map]
  have hnames (name : String) : name ∈ images₁.map (·.name) ↔ name ∈ images.map (·.name) ∨ a.ref.name = name := by
    rw [himages]
    split
    · rename_i hold
      exact ⟨.inl, fun h => h.elim id fun he => he ▸ hany.1 hold⟩
    · rw [List.map_append, List.mem_append, List.map_singleton, List.mem_singleton, eq_comm (a := name)]
  obtain ⟨rss, hrss, hrest⟩ := h.problems
  refine ⟨⟨rs :: rss, .cons ⟨bytes, hyields⟩ hrss, ?_⟩, fun name => ?_, fun i hi => ?_⟩
  · rw [hrest, ← ProblemLog.addAll_append]
    rfl
  · rw [h.names, hnames, List.exists_mem_cons_iff, or_assoc]
  · rcases h.kept i hi with hi₁ | ⟨hnew, a', hfind, hfound⟩
    · rw [himages] at hi₁
      split at hi₁
      · exact .inl hi₁
      · rename_i hnew
        refine (List.mem_append.1 hi₁).imp id fun hi₁ => ?_
        cases List.mem_singleton.1 hi₁
        exact ⟨hany.not.1 hnew, a, List.find?_cons_of_pos (beq_self_eq_true _), rs, hyields⟩
    · -- An image of a later lookup is kept only if this one has another name.
      rw [hnames, not_or] at hnew
      exact .inr ⟨hnew.1, a', by rw [List.find?_cons_of_neg (by simpa using hnew.2)]; exact hfind, hfound⟩

theorem gathers_loadImages {start : σ} {placeholder : ByteArray}
    (hblob : (b.store.blob ConstantId.placeholderImage start).result = .ok placeholder) : ∀ {refs : List ImageRef}
    {d d' : Draft} {images images' : List Image} {s s' : Session σ},
    (refs.foldlM (fun (d, images) r => loadImage b placeholder d images r) (d, images)).Gives s (d', images') s' →
    Gathers b start (b.lookups s.store refs) d.problems images d'.problems images'
  | [], d, _, images, _, _, _, h => by
    cases h.pure.1
    exact .refl b start d.problems images
  | r :: refs, d, d', images, images', s, s', h => by
    rw [List.foldlM_cons] at h
    obtain ⟨⟨d₁, images₁⟩, t, hfirst, h⟩ := h.bind
    obtain ⟨hstore, bytes, rs, hyields, hproblems, himages⟩ := exists_yields_loadImage hblob hfirst
    have hrest := gathers_loadImages hblob h
    rw [hstore, hproblems] at hrest
    exact hrest.cons hyields himages

/-- **What collecting a draft's images comes to.** -/
theorem gathers_collectImages {images : List Image} (hrun : (d.collectImages b).Gives s (d', images) s') :
    Gathers b s.store (d.lookups b s.store) d.problems [] d'.problems images := by
  unfold collectImages at hrun
  dsimp only at hrun
  rw [refs_relocateImages] at hrun
  unfold lookups
  split at hrun
  · rename_i hempty
    cases hrun.pure.1
    rw [List.isEmpty_iff.1 hempty]
    exact .refl b s.store d.problems []
  · obtain ⟨placeholder, s₁, hask, hrun⟩ := hrun.bind
    obtain ⟨hblob, rfl⟩ := hask.ask
    exact gathers_loadImages hblob hrun

end Draft
end Bookbinder
