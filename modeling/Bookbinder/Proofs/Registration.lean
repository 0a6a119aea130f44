import Bookbinder.Registry
import Mathlib.Data.List.Induction
/-!
# What registering an outline keeps

References and levels are registered one after the other, so whatever each of the two steps keeps is kept by a whole
outline (`register_induction`), and by outlines that are registered in turn (`registerAll_induction`).  The repeat
number of a reference counts the earlier references to its topic, that of a level the earlier levels of its slug
(`numbered_entries`, `numbered_levels`); so no two that repeat the same have the same number (`Numbered.pairwise`).
The outline that comes out shows what was registered (`entries_register`, `levels_register`).
-/
namespace Bookbinder

/-! ## The levels of an outline -/

mutual

/-- The levels of an item, in document order. -/
def Item.headings : Item → List Heading
  | .topic _ => []
  | .level heading children => heading :: itemsHeadings children

def itemsHeadings : List Item → List Heading
  | [] => []
  | i :: is => i.headings ++ itemsHeadings is

end

/-! ## Repeat numbers -/

/-- Items that are numbered by how many earlier ones have their key. -/
def Numbered {α κ : Type} [BEq κ] (key : α → κ) (number : α → Option Nat) (xs : List α) : Prop :=
  ∀ before x after, xs = before ++ x :: after →
    number x = Registry.repeatNumber (before.filter fun y => key y == key x).length

namespace Numbered

open Registry (repeatNumber)

variable {α κ : Type} [BEq κ] {key : α → κ} {number : α → Option Nat} {xs : List α}

theorem nil : Numbered key number [] := fun before x after h => by
  cases before <;> cases h

theorem concat {x : α} (h : Numbered key number xs)
    (hx : number x = repeatNumber (xs.filter fun y => key y == key x).length) : Numbered key number (xs ++ [x]) := by
  intro before y after he
  cases after using List.reverseRecOn with
  | nil =>
    obtain ⟨rfl, hy⟩ := List.append_inj' he rfl
    cases hy
    exact hx
  | append_singleton after z =>
    rw [← List.cons_append, ← List.append_assoc] at he
    obtain ⟨rfl, -⟩ := List.append_inj' he rfl
    exact h before y after rfl

theorem repeatNumber_inj {m n : Nat} (h : repeatNumber m = repeatNumber n) : m = n := by
  cases m <;> cases n <;> simp_all [repeatNumber]

/-- **Items of one key have different numbers.** -/
theorem pairwise [LawfulBEq κ] (h : Numbered key number xs) :
    xs.Pairwise fun x y => key x = key y → number x ≠ number y := by
  induction xs using List.reverseRecOn with
  | nil => exact .nil
  | append_singleton xs y ih =>
    have hxs : Numbered key number xs := fun before x after he =>
      h before x (after ++ [y]) (by rw [he, List.append_assoc, List.cons_append])
    refine List.pairwise_append.2 ⟨ih hxs, List.pairwise_singleton _ _, fun x hx y' hy' hk hn => ?_⟩
    cases List.mem_singleton.1 hy'
    obtain ⟨before, after, rfl⟩ := List.append_of_mem hx
    rw [hxs before x after rfl, h _ y [] rfl, List.filter_append, List.length_append] at hn
    have hlen := repeatNumber_inj hn
    rw [List.filter_cons, if_pos (beq_iff_eq.2 hk), hk, List.length_cons] at hlen
    omega

end Numbered

namespace Registry

/-! ## Whole outlines -/

mutual

theorem addItem_induction {P : Registry → Prop} {Q : Heading → Prop}
    (href : ∀ r parent ref, P r → P (r.addRef parent ref).2)
    (hheading : ∀ r parent h, Q h → P r → P (r.addHeading (some parent) h).2) :
    ∀ (i : Item) (r : Registry) (parent : Nat), (∀ h ∈ i.headings, Q h) → P r → P (r.addItem parent i).2
  | .topic ref, r, parent, _, h => href r parent ref h
  | .level heading children, r, parent, hq, h => by
    rw [Item.headings, List.forall_mem_cons] at hq
    exact addItems_induction href hheading children _ _ hq.2 (hheading r parent heading hq.1 h)

/-- **What a reference and a level keep when they are registered, a list of items keeps.** -/
theorem addItems_induction {P : Registry → Prop} {Q : Heading → Prop}
    (href : ∀ r parent ref, P r → P (r.addRef parent ref).2)
    (hheading : ∀ r parent h, Q h → P r → P (r.addHeading (some parent) h).2) :
    ∀ (is : List Item) (r : Registry) (parent : Nat), (∀ h ∈ itemsHeadings is, Q h) → P r → P (r.addItems parent is).2
  | [], _, _, _, h => h
  | i :: is, r, parent, hq, h => by
    rw [itemsHeadings, List.forall_mem_append] at hq
    exact addItems_induction href hheading is _ _ hq.2 (addItem_induction href hheading i r parent hq.1 h)

end

/-- What a root establishes and each reference and level below it keeps, a registered outline has. -/
theorem register_induction {P : Registry → Prop} {Q : Heading → Prop}
    (href : ∀ r parent ref, P r → P (r.addRef parent ref).2)
    (hheading : ∀ r parent h, Q h → P r → P (r.addHeading (some parent) h).2) (r : Registry) (l : Level)
    (hq : ∀ h ∈ itemsHeadings l.children, Q h) (h : P (r.addHeading none l.heading).2) : P (r.register l).2 :=
  addItems_induction href hheading l.children _ _ hq h

/-- Outlines registered one after the other, and the outlines with their steps and repeat numbers. -/
def registerAll (r : Registry) : List Level → List Level × Registry
  | [] => ([], r)
  | l :: ls =>
    let (l, r) := r.register l
    let (ls, r) := registerAll r ls
    (l :: ls, r)

/-- What a reference and a level, a root or not, keep when they are registered, outlines keep. -/
theorem registerAll_induction {P : Registry → Prop} (href : ∀ r parent ref, P r → P (r.addRef parent ref).2)
    (hheading : ∀ r parent h, P r → P (r.addHeading parent h).2) :
    ∀ (ls : List Level) (r : Registry), P r → P (r.registerAll ls).2
  | [], _, h => h
  | l :: ls, r, h => by
    have hl : P (r.register l).2 := register_induction (Q := fun _ => True) href
      (fun r parent heading _ => hheading r (some parent) heading) r l (fun _ _ => trivial) (hheading r none l.heading h)
    exact registerAll_induction href hheading ls _ hl

mutual

theorem entries_addItem : ∀ (i : Item) (r : Registry) (parent : Nat),
    (r.addItem parent i).2.entries.map (·.ref) = r.entries.map (·.ref) ++ (r.addItem parent i).1.refs
  | .topic ref, r, parent => by
    change (r.entries ++ [_]).map TopicEntry.ref = _
    rw [List.map_append]
    rfl
  | .level heading children, r, parent =>
    entries_addItems children (r.addHeading (some parent) heading).2 r.levels.length

theorem entries_addItems : ∀ (is : List Item) (r : Registry) (parent : Nat),
    (r.addItems parent is).2.entries.map (·.ref) = r.entries.map (·.ref) ++ itemsRefs (r.addItems parent is).1
  | [], r, _ => (List.append_nil _).symm
  | i :: is, r, parent => by
    change ((r.addItem parent i).2.addItems parent is).2.entries.map (·.ref) = _
    rw [entries_addItems is, entries_addItem i, List.append_assoc]
    rfl

end

mutual

theorem levels_addItem : ∀ (i : Item) (r : Registry) (parent : Nat),
    (r.addItem parent i).2.levels.map (·.heading) = r.levels.map (·.heading) ++ (r.addItem parent i).1.headings
  | .topic ref, r, parent => (List.append_nil _).symm
  | .level heading children, r, parent => by
    change ((r.addHeading (some parent) heading).2.addItems r.levels.length children).2.levels.map (·.heading) = _
    rw [levels_addItems children]
    change (r.levels ++ [_]).map LevelEntry.heading ++ _ = _
    rw [List.map_append, List.append_assoc]
    rfl

theorem levels_addItems : ∀ (is : List Item) (r : Registry) (parent : Nat),
    (r.addItems parent is).2.levels.map (·.heading)
      = r.levels.map (·.heading) ++ itemsHeadings (r.addItems parent is).1
  | [], r, _ => (List.append_nil _).symm
  | i :: is, r, parent => by
    change ((r.addItem parent i).2.addItems parent is).2.levels.map (·.heading) = _
    rw [levels_addItems is, levels_addItem i, List.append_assoc]
    rfl

end

/-- **The registered references are those of the outline that comes out.** -/
theorem entries_register (l : Level) :
    ((({} : Registry).register l).2.entries).map (·.ref) = (({} : Registry).register l).1.refs :=
  entries_addItems l.children _ _

/-- **The registered levels are those of the outline that comes out, the root first.** -/
theorem levels_register (l : Level) : ((({} : Registry).register l).2.levels).map (·.heading)
    = (({} : Registry).register l).1.heading :: itemsHeadings (({} : Registry).register l).1.children :=
  levels_addItems l.children _ _

/-! ## What is registered -/

theorem numbered_entries_addRef {r : Registry} (parent : Nat) (ref : TopicRef)
    (h : Numbered (fun e : TopicEntry => e.ref.topicId) (·.ref.duplicate) r.entries) :
    Numbered (·.ref.topicId) (·.ref.duplicate) (r.addRef parent ref).2.entries := by
  refine h.concat ?_
  rw [stepsFor, List.length_map]

/-- The repeat number of a reference counts the earlier references to its topic. -/
theorem numbered_entries_registerAll (ls : List Level) :
    Numbered (·.ref.topicId) (·.ref.duplicate) (({} : Registry).registerAll ls).2.entries :=
  registerAll_induction (P := fun r => Numbered (fun e : TopicEntry => e.ref.topicId) (·.ref.duplicate) r.entries)
    (fun _ parent ref h => numbered_entries_addRef parent ref h) (fun _ _ _ h => h) ls _ Numbered.nil

theorem numbered_entries (l : Level) :
    Numbered (·.ref.topicId) (·.ref.duplicate) (({} : Registry).register l).2.entries :=
  numbered_entries_registerAll [l]

/-- The levels other than a root. -/
def belowRoot (r : Registry) : List LevelEntry :=
  r.levels.filter fun l => l.heading.kind != .base

theorem levelsFor_eq (r : Registry) (slug : String) :
    r.levelsFor slug = r.belowRoot.filter fun l => l.slug == slug := by
  rw [belowRoot, List.filter_filter, levelsFor]
  exact List.filter_congr fun _ _ => Bool.and_comm _ _

theorem belowRoot_addHeading (r : Registry) (parent : Option Nat) (heading : Heading) :
    (r.addHeading parent heading).2.belowRoot
      = r.belowRoot ++ if heading.kind = .base then [] else [⟨(r.addHeading parent heading).1, parent⟩] := by
  have hlevels : (r.addHeading parent heading).2.levels = r.levels ++ [⟨(r.addHeading parent heading).1, parent⟩] := rfl
  have hkind : (r.addHeading parent heading).1.kind = heading.kind := rfl
  rw [belowRoot, hlevels, List.filter_append]
  by_cases hk : heading.kind = .base
  · simp [belowRoot, hkind, hk]
  · simp [belowRoot, hkind, hk]

theorem numbered_belowRoot_addHeading {r : Registry} (parent : Option Nat) (heading : Heading)
    (h : Numbered LevelEntry.slug (·.heading.duplicate) r.belowRoot) :
    Numbered LevelEntry.slug (·.heading.duplicate) (r.addHeading parent heading).2.belowRoot := by
  rw [belowRoot_addHeading]
  by_cases hk : heading.kind = .base
  · rw [if_pos hk, List.append_nil]
    exact h
  · rw [if_neg hk]
    refine h.concat ?_
    simp only [addHeading, if_neg hk, levelsFor_eq]
    rfl

/-- The repeat number of a level counts the earlier levels of its slug, roots aside. -/
theorem numbered_levels_registerAll (ls : List Level) :
    Numbered LevelEntry.slug (·.heading.duplicate) (({} : Registry).registerAll ls).2.belowRoot :=
  registerAll_induction (P := fun r => Numbered LevelEntry.slug (·.heading.duplicate) r.belowRoot) (fun _ _ _ h => h)
    (fun _ parent heading h => numbered_belowRoot_addHeading parent heading h) ls _ Numbered.nil

theorem numbered_levels (l : Level) :
    Numbered LevelEntry.slug (·.heading.duplicate) (({} : Registry).register l).2.belowRoot :=
  numbered_levels_registerAll [l]

/-- A registry whose steps ascend, and nothing of whose topics is known yet. -/
structure Unlearned (r : Registry) : Prop where
  steps : r.steps.Pairwise (· < ·)
  lastStep : ∀ step ∈ r.steps, step ≤ r.lastStep
  entries : ∀ e ∈ r.entries, e.topic = none ∧ e.document = none ∧ e.outcome = .pending

theorem Unlearned.addRef {r : Registry} (h : r.Unlearned) (parent : Nat) (ref : TopicRef) :
    (r.addRef parent ref).2.Unlearned := by
  have hsteps : (r.addRef parent ref).2.steps = r.steps ++ [r.lastStep + 1] := by
    rw [Registry.steps, Registry.addRef, List.map_append]
    rfl
  refine ⟨?_, ?_, ?_⟩
  · rw [hsteps, List.pairwise_append]
    refine ⟨h.steps, List.pairwise_singleton _ _, fun a ha b hb => ?_⟩
    rw [List.mem_singleton.1 hb]
    exact Nat.lt_succ_of_le (h.lastStep a ha)
  · intro step hstep
    rw [hsteps, List.mem_append, List.mem_singleton] at hstep
    rcases hstep with hstep | rfl
    · exact Nat.le_succ_of_le (h.lastStep step hstep)
    · exact Nat.le_refl _
  · intro e he
    rcases List.mem_append.1 he with he | he
    · exact h.entries e he
    · rw [List.mem_singleton.1 he]
      exact ⟨rfl, rfl, rfl⟩

theorem Unlearned.addHeading {r : Registry} (h : r.Unlearned) (parent : Option Nat) (heading : Heading) :
    (r.addHeading parent heading).2.Unlearned :=
  ⟨h.steps, fun step hstep => Nat.le_succ_of_le (h.lastStep step hstep), h.entries⟩

/-- **Registering gives the references ascending steps.** -/
theorem unlearned_register (l : Level) : (({} : Registry).register l).2.Unlearned :=
  register_induction (Q := fun _ => True) (fun _ parent ref h => h.addRef parent ref)
    (fun _ parent heading _ h => h.addHeading (some parent) heading) _ l (fun _ _ => trivial)
    (Unlearned.addHeading ⟨.nil, fun _ h => absurd h List.not_mem_nil,
      fun _ h => absurd h List.not_mem_nil⟩ none l.heading)

end Registry
end Bookbinder
