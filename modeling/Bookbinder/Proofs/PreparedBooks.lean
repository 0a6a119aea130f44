import Bookbinder.Proofs.FetchedTopics
import Bookbinder.Proofs.PublishedDocuments
import Bookbinder.Proofs.WorkedReferences
import Bookbinder.Store.Sample
/-!
# Prepared books

Binding a book is preparing a draft of it and then printing that (`bind_eq`).  In a prepared draft every reference is
worked out and has its images moved (`prepared_prepare`).
-/
namespace Bookbinder

open Xml (Document Element)

variable {σ : Type}

namespace Bindery

variable (b : Bindery σ)

/-- A draft of a book in which all is worked out, and the book's images. -/
def prepare (spec : ContentSpec) (settings : Settings) (requester : Option String) : Press σ (Draft × List Image) := do
  if let some fault := settings.fault? then throw (.settings fault)
  Press.check
  let d ← b.draft spec settings requester
  let d ← d.readTopics b
  let d ← d.processReferences b
  d.collectImages b

/-- A book from its draft and its images. -/
def print (p : Draft × List Image) : Press σ Book := do
  let files ← p.1.files b p.2
  Press.check
  return book p.1 files p.2

/-- **A book is prepared and then printed.** -/
theorem bind_eq (spec : ContentSpec) (settings : Settings) (requester : Option String) :
    b.bind spec settings requester = b.prepare spec settings requester >>= b.print := by
  rw [bind, prepare]
  cases settings.fault? with
  | some fault => rfl
  | none =>
    simp only [bind_assoc]
    rfl

end Bindery

namespace Draft

variable {b : Bindery σ}

/-! ## Images -/

theorem bare_relocateEntry (outline : Level) (e : TopicEntry) : (relocateEntry outline e).1.bare = e.bare := by
  rcases relocateEntry_cases outline e with h | ⟨t, doc, -, -, h⟩
  · rw [h]
  · rw [h]
    rfl

theorem outcome_relocateEntry (outline : Level) (e : TopicEntry) : (relocateEntry outline e).1.outcome = e.outcome := by
  rcases relocateEntry_cases outline e with h | ⟨_, _, -, -, h⟩ <;> rw [h]

theorem context_relocateEntry (outline : Level) (e : TopicEntry) : (relocateEntry outline e).1.context = e.context := by
  rcases relocateEntry_cases outline e with h | ⟨_, _, -, -, h⟩ <;> rw [h]

theorem ownIds_relocateEntry (outline : Level) (e : TopicEntry) : (relocateEntry outline e).1.ownIds = e.ownIds := by
  rcases relocateEntry_cases outline e with h | ⟨t, doc, -, hdocument, h⟩
  · rw [h]
  · rw [h, TopicEntry.ownIds, TopicEntry.ownIds, hdocument]
    cases e.outcome with
    | valid => exact ImageRef.innerIds_relocateAll
    | pending => rfl
    | fallback content => rfl

theorem Noted.trans {d d₁ d₂ : Draft} (h : d.Noted d₁) (h' : d₁.Noted d₂) : d.Noted d₂ :=
  ⟨h'.bare.trans h.bare, h'.registry.trans h.registry, h'.ledger.trans h.ledger⟩

theorem Noted.findImage {d d' : Draft} {r : ImageRef} {bytes : Option ByteArray} {s s' : Session σ}
    (hrun : (Draft.findImage b d r).Gives s (d', bytes) s') : d.Noted d' := by
  rw [Draft.findImage] at hrun
  split at hrun
  · cases hrun.pure.1
    exact ⟨rfl, rfl, rfl⟩
  · obtain ⟨image, s₁, -, hrun⟩ := hrun.bind
    split at hrun
    · cases hrun.pure.1
      exact Noted.refl d
    · cases hrun.pure.1
      exact ⟨rfl, rfl, rfl⟩

theorem Noted.loadImage {d d' : Draft} {placeholder : ByteArray} {images images' : List Image} {r : ImageRef}
    {s s' : Session σ} (hrun : (Draft.loadImage b placeholder d images r).Gives s (d', images') s') : d.Noted d' := by
  obtain ⟨found, hfind, -⟩ := exists_findImage_of_loadImage hrun
  exact Noted.findImage hfind

theorem noted_collectImages {d d' : Draft} {images : List Image} {s s' : Session σ}
    (hrun : (d.collectImages b).Gives s (d', images) s') : d.relocateImages.1.Noted d' :=
  collectImages_induction (P := fun _ p => d.relocateImages.1.Noted p.1) (Noted.refl _)
    (fun h hrun => h.trans (Noted.loadImage hrun)) hrun

theorem entries_collectImages {d d' : Draft} {images : List Image} {s s' : Session σ}
    (hrun : (d.collectImages b).Gives s (d', images) s') :
    d'.registry.entries = d.registry.entries.map fun e => (relocateEntry d.outline e).1 := by
  rw [(noted_collectImages hrun).registry, relocateImages]
  exact List.map_map

theorem bare_relocateImages (d : Draft) : d.relocateImages.1.bare = d.bare := by
  have hentries : d.relocateImages.1.registry.bare = d.registry.bare := by
    rw [Registry.bare, Registry.bare, relocateImages, List.map_map, List.map_map]
    congr 1
    exact List.map_congr_left fun e _ => bare_relocateEntry d.outline e
  rw [bare, hentries]
  rfl

theorem bare_collectImages {d d' : Draft} {images : List Image} {s s' : Session σ}
    (hrun : (d.collectImages b).Gives s (d', images) s') : d'.bare = d.bare :=
  (noted_collectImages hrun).bare.trans d.bare_relocateImages

/-! ## Prepared drafts -/

/-- Every reference of a draft has a step of its own, is worked out and has its images moved, and no id within one's
document is a link id or is within the document of another. -/
structure Prepared (d : Draft) : Prop where
  steps : d.registry.steps.Nodup
  entries : ∀ e ∈ d.registry.entries, ∃ e₀, d.Worked e₀ ∧ e = (relocateEntry d.outline e₀).1
  foreign : ∀ e ∈ d.registry.entries, e.ownIds.Disjoint d.linkIds
  disjoint : d.registry.entries.Pairwise fun a c => a.ownIds.Disjoint c.ownIds

theorem AllWorked.collectImages {d d' : Draft} (h : d.AllWorked) {images : List Image} {s s' : Session σ}
    (hrun : (d.collectImages b).Gives s (d', images) s') : d'.Prepared := by
  have hbare := bare_collectImages hrun
  have hentries := entries_collectImages hrun
  have houtline : d'.outline = d.outline := show d'.bare.outline = d.bare.outline by rw [hbare]
  have hlinks : d'.linkIds = d.linkIds := by rw [← linkIds_bare, hbare, linkIds_bare]
  refine ⟨by rw [steps_of_bare hbare]; exact h.steps, fun e he => ?_, fun e he => ?_, ?_⟩
  · rw [hentries] at he
    obtain ⟨e₀, he₀, rfl⟩ := List.mem_map.1 he
    exact ⟨e₀, (h.worked e₀ he₀).congr hbare.symm, by rw [houtline]⟩
  · rw [hentries] at he
    obtain ⟨e₀, he₀, rfl⟩ := List.mem_map.1 he
    rw [hlinks, ownIds_relocateEntry]
    exact h.foreign e₀ he₀
  · rw [hentries, List.pairwise_map]
    refine h.disjoint.imp fun {a c} hac => ?_
    rw [ownIds_relocateEntry, ownIds_relocateEntry]
    exact hac

end Draft

namespace Bindery

variable {b : Bindery σ} {spec : ContentSpec} {settings : Settings} {requester : Option String}

/-- A draft is prepared in four passes. -/
theorem passes_of_prepare {d : Draft} {images : List Image} {s s' : Session σ}
    (hrun : (b.prepare spec settings requester).Gives s (d, images) s') : ∃ d₁ d₂ d₃ s₁ s₂ s₃,
      (b.draft spec settings requester).Gives s d₁ s₁ ∧ (d₁.readTopics b).Gives s₁ d₂ s₂ ∧
      (d₂.processReferences b).Gives s₂ d₃ s₃ ∧ (d₃.collectImages b).Gives s₃ (d, images) s' := by
  rw [prepare] at hrun
  cases hfault : settings.fault? with
  | some fault =>
    rw [hfault] at hrun
    obtain ⟨_, _, h, -⟩ := hrun.bind
    exact h.throw.elim
  | none =>
    rw [hfault] at hrun
    obtain ⟨_, s₀, hcheck, hrun⟩ := hrun.bind
    obtain ⟨d₁, s₁, hd₁, hrun⟩ := hrun.bind
    obtain ⟨d₂, s₂, hd₂, hrun⟩ := hrun.bind
    obtain ⟨d₃, s₃, hd₃, hrun⟩ := hrun.bind
    exact ⟨d₁, d₂, d₃, s₁, s₂, s₃, hcheck.check ▸ hd₁, hd₂, hd₃, hrun⟩

/-- **In a prepared draft all is worked out.** -/
theorem prepared_prepare (hb : b.renderer = Renderer.pages) {d : Draft} {images : List Image} {s s' : Session σ}
    (hrun : (b.prepare spec settings requester).Gives s (d, images) s') : d.Prepared := by
  obtain ⟨d₁, d₂, d₃, s₁, s₂, s₃, hd₁, hd₂, hd₃, hd⟩ := passes_of_prepare hrun
  obtain ⟨-, hregistry, -⟩ := exists_fetch_of_draft hd₁
  have hread : d₁.AllRead := Draft.allRead_of_unlearned (hregistry ▸ Registry.unlearned_register spec.root)
  exact (Draft.worked_processReferences hb (hread.readTopics hb hd₂) hd₃).collectImages hd

/-- A book that is found by preparing a draft and printing it, where draft, images, the session between and the book are
as they are asked to be. -/
theorem exists_bound_between {P : Draft × List Image → Session σ → Prop} {Q : Draft → Book → Prop}
    [∀ p, DecidablePred (P p)] [∀ d, DecidablePred (Q d)] {s : Session σ}
    (h : (b.prepare spec settings requester).passes s (fun p t =>
      decide (P p t) && (b.print p).passes t fun book _ => decide (Q p.1 book)) = true) :
    ∃ book d images s' t, (b.bind spec settings requester).Gives s book s' ∧
      (b.prepare spec settings requester).Gives s (d, images) t ∧ P (d, images) t ∧ Q d book := by
  obtain ⟨⟨d, images⟩, t, hprepare, htest⟩ := Press.exists_of_passes h
  rw [Bool.and_eq_true, decide_eq_true_iff] at htest
  obtain ⟨book, s', hprint, hbook⟩ := Press.exists_of_passes htest.2
  rw [decide_eq_true_iff] at hbook
  refine ⟨book, d, images, s', t, ?_, hprepare, htest.1, hbook⟩
  rw [bind_eq]
  exact hprepare.andThen hprint

theorem exists_bound_showing {P : Draft × List Image → Prop} {Q : Draft → Book → Prop} [DecidablePred P]
    [∀ d, DecidablePred (Q d)] {s : Session σ} (h : (b.prepare spec settings requester).passes s (fun p t =>
      decide (P p) && (b.print p).passes t fun book _ => decide (Q p.1 book)) = true) :
    ∃ book d images s' t, (b.bind spec settings requester).Gives s book s' ∧
      (b.prepare spec settings requester).Gives s (d, images) t ∧ P (d, images) ∧ Q d book :=
  exists_bound_between (P := fun p _ => P p) h

theorem exists_bound {P : Draft → Prop} {Q : Draft → Book → Prop} [DecidablePred P] [∀ d, DecidablePred (Q d)]
    {s : Session σ} (h : (b.prepare spec settings requester).passes s (fun p t => decide (P p.1) &&
      (b.print p).passes t fun book _ => decide (Q p.1 book)) = true) :
    ∃ book d images s' t, (b.bind spec settings requester).Gives s book s' ∧
      (b.prepare spec settings requester).Gives s (d, images) t ∧ P d ∧ Q d book :=
  exists_bound_showing h

/-! ## A book to try -/

/-- A bindery with a store in memory. -/
def sample : Bindery MemoryStore where
  store := MemoryStore.store
  now := default

/-- Settings for a book that consists of its chapters and topics. -/
def sampleSettings : Settings :=
  { suppressErrorsPage := true, suppressContentSpecPage := true, insertBugLinks := false }

/-- A book below whose root are some items. -/
def sampleSpec (children : List Item) : ContentSpec :=
  { ContentSpec.ofTitle "Book" "en-US" with root := { heading := { kind := .base, title := "Book" }, children } }

/-- A store of two topics, of which the first may inject the second. -/
def sampleSession (first second : String) : Session MemoryStore where
  store := { MemoryStore.sample with topics := Topic.relateIn [.ofText 1 "A" first, .ofText 2 "B" second] 1 2 }

end Bindery
end Bookbinder
