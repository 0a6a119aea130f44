import Bookbinder.Proofs.Registration
import Mathlib.Data.List.Forall2
/-!
# What a registry holds of its outlines

Outlines are registered one after the other in one registry (`registerAll`).  What they list in document order, each
level and reference with the level right above it, are their `Mention`s, and a registry `Holds` some of them if they
have the steps from one on and are its levels and references.  A reference and a level each add one mention, hence an
item and an outline those that they list.  So the registry and the outlines that come out agree
(`registered_registerAll`).
-/
namespace Bookbinder

/-! ## What outlines list -/

/-- A level by itself or a reference, with the level right above it. -/
inductive Mention where
  | level (heading : Heading) (above : Option Heading)
  | reference (ref : TopicRef) (above : Heading)

namespace Mention

def step : Mention → Nat
  | level heading _ => heading.step
  | reference ref _ => ref.step

def level? : Mention → Option (Heading × Option Heading)
  | level heading above => some (heading, above)
  | reference _ _ => none

def reference? : Mention → Option (TopicRef × Heading)
  | level _ _ => none
  | reference ref above => some (ref, above)

theorem step_of_level? {m : Mention} {shown : Heading × Option Heading} (h : m.level? = some shown) :
    shown.1.step = m.step := by
  cases m with
  | level heading above =>
    cases h
    rfl
  | reference => cases h

end Mention

mutual

/-- What an item right below a level lists, in document order. -/
def Item.mentions (above : Heading) : Item → List Mention
  | .topic ref => [.reference ref above]
  | .level heading children => .level heading (some above) :: itemsMentions heading children

def itemsMentions (above : Heading) : List Item → List Mention
  | [] => []
  | i :: is => i.mentions above ++ itemsMentions above is

end

/-- What an outline lists, its root first. -/
def Level.mentions (l : Level) : List Mention :=
  .level l.heading none :: itemsMentions l.heading l.children

/-- What outlines list, one outline after the other. -/
def listing (ls : List Level) : List Mention :=
  ls.flatMap Level.mentions

/-! ## Outlines without numbers -/

/-- A level without its step, and without its repeat number unless it is a root, which keeps the one it came with. -/
def Heading.unnumbered (h : Heading) : Heading :=
  { h with step := 0, duplicate := if h.kind = .base then h.duplicate else none }

def TopicRef.unnumbered (ref : TopicRef) : TopicRef :=
  { ref with step := 0, duplicate := none }

mutual

def Item.unnumbered : Item → Item
  | .topic ref => .topic ref.unnumbered
  | .level heading children => .level heading.unnumbered (itemsUnnumbered children)

def itemsUnnumbered : List Item → List Item
  | [] => []
  | i :: is => i.unnumbered :: itemsUnnumbered is

end

def Level.unnumbered (l : Level) : Level :=
  ⟨l.heading.unnumbered, itemsUnnumbered l.children⟩

/-! ## Numbered items of one key -/

namespace Registry

/-! ## What registering leaves alone -/

theorem unnumbered_addHeading (r : Registry) (parent : Option Nat) (h : Heading) :
    (r.addHeading parent h).1.unnumbered = h.unnumbered := by
  by_cases hk : h.kind = .base <;> simp [addHeading, Heading.unnumbered, hk]

mutual

theorem unnumbered_addItem : ∀ (i : Item) (r : Registry) (parent : Nat),
    (r.addItem parent i).1.unnumbered = i.unnumbered
  | .topic _, _, _ => rfl
  | .level heading children, r, parent => by
    change Item.level (r.addHeading (some parent) heading).1.unnumbered (itemsUnnumbered (addItems _ _ children).1) = _
    rw [unnumbered_addHeading, unnumbered_addItems children]
    rfl

theorem unnumbered_addItems : ∀ (is : List Item) (r : Registry) (parent : Nat),
    itemsUnnumbered (r.addItems parent is).1 = itemsUnnumbered is
  | [], _, _ => rfl
  | i :: is, r, parent => by
    change (r.addItem parent i).1.unnumbered :: itemsUnnumbered (addItems _ parent is).1 = _
    rw [unnumbered_addItem i, unnumbered_addItems is]
    rfl

end

/-- **Registering changes nothing in an outline but steps and repeat numbers.** -/
theorem unnumbered_register (l : Level) (r : Registry) : (r.register l).1.unnumbered = l.unnumbered := by
  change (⟨(r.addHeading none l.heading).1.unnumbered, itemsUnnumbered (addItems _ _ l.children).1⟩ : Level) = _
  rw [unnumbered_addHeading, unnumbered_addItems]
  rfl

/-- The level at a place, by itself. -/
def heading? (r : Registry) (index : Nat) : Option Heading :=
  (r.level? index).map (·.heading)

/-- A registered level is one that is mentioned, and its parent is the level above that. -/
def ShowsLevel (r : Registry) (l : LevelEntry) (shown : Heading × Option Heading) : Prop :=
  l.heading = shown.1 ∧ l.parent.map r.heading? = shown.2.map some

/-- A registered reference is one that is mentioned, and its parent is the level above that. -/
def ShowsRef (r : Registry) (e : TopicEntry) (shown : TopicRef × Heading) : Prop :=
  e.ref = shown.1 ∧ r.heading? e.parent = some shown.2

/-- A registry that holds what is mentioned, which has the steps from one on. -/
structure Holds (r : Registry) (ms : List Mention) : Prop where
  steps : ms.map Mention.step = List.range' 1 ms.length
  lastStep : r.lastStep = ms.length
  levels : List.Forall₂ r.ShowsLevel r.levels (ms.filterMap Mention.level?)
  entries : List.Forall₂ r.ShowsRef r.entries (ms.filterMap Mention.reference?)

theorem heading?_addHeading_self (r : Registry) (parent : Option Nat) (h : Heading) :
    (r.addHeading parent h).2.heading? r.levels.length = some (r.addHeading parent h).1 := by
  simp [heading?, level?, addHeading]

theorem heading?_addHeading {r : Registry} {index : Nat} {above : Heading} (h : r.heading? index = some above)
    (parent : Option Nat) (heading : Heading) : (r.addHeading parent heading).2.heading? index = some above := by
  obtain ⟨l, hl, rfl⟩ := Option.map_eq_some_iff.1 h
  have hlt : index < r.levels.length := (List.getElem?_eq_some_iff.1 hl).1
  change ((r.levels ++ [_])[index]?).map LevelEntry.heading = _
  rw [List.getElem?_append_left hlt]
  exact h

theorem heading?_addItem {r : Registry} {index : Nat} {above : Heading} (h : r.heading? index = some above)
    (parent : Nat) (i : Item) : (r.addItem parent i).2.heading? index = some above :=
  addItem_induction (P := fun r => r.heading? index = some above) (Q := fun _ => True) (fun _ _ _ h => h)
    (fun _ parent heading _ h => heading?_addHeading h (some parent) heading) i r parent (fun _ _ => trivial) h

namespace Holds

variable {r : Registry} {ms : List Mention}

theorem empty : ({} : Registry).Holds [] := ⟨rfl, rfl, .nil, .nil⟩

/-- The next step goes to what is mentioned next. -/
theorem steps_concat (h : r.Holds ms) {m : Mention} (hm : m.step = r.lastStep + 1) :
    (ms ++ [m]).map Mention.step = List.range' 1 (ms ++ [m]).length := by
  rw [List.map_append, h.steps, List.length_append, List.length_singleton, List.range'_concat, List.map_singleton, hm,
    h.lastStep, Nat.one_mul, Nat.add_comm 1]

theorem addRef (h : r.Holds ms) {parent : Nat} {above : Heading} (habove : r.heading? parent = some above)
    (ref : TopicRef) : (r.addRef parent ref).2.Holds (ms ++ [.reference (r.addRef parent ref).1 above]) where
  steps := h.steps_concat rfl
  lastStep := by
    rw [List.length_append, ← h.lastStep]
    rfl
  levels := by
    rw [List.filterMap_append, List.filterMap_cons_none rfl, List.filterMap_nil, List.append_nil]
    exact h.levels
  entries := by
    rw [List.filterMap_append]
    exact List.rel_append h.entries (.cons ⟨rfl, habove⟩ .nil)

theorem addHeading (h : r.Holds ms) {parent : Option Nat} {above : Option Heading}
    (habove : parent.map r.heading? = above.map some) (heading : Heading) :
    (r.addHeading parent heading).2.Holds (ms ++ [.level (r.addHeading parent heading).1 above]) := by
  -- Places that have a level keep it; so who was shown below a level is so still.
  have hkept {parent' : Option Nat} {above' : Option Heading} (h : parent'.map r.heading? = above'.map some) :
      parent'.map (r.addHeading parent heading).2.heading? = above'.map some := by
    cases parent' with
    | none => exact h
    | some p =>
      cases above' with
      | none => cases h
      | some a => exact congrArg some (heading?_addHeading (Option.some.inj h) parent heading)
  refine ⟨h.steps_concat rfl, ?_, ?_, ?_⟩
  · rw [List.length_append, ← h.lastStep]
    rfl
  · rw [List.filterMap_append]
    exact List.rel_append (h.levels.imp fun _ _ hl => ⟨hl.1, hkept hl.2⟩) (.cons ⟨rfl, hkept habove⟩ .nil)
  · rw [List.filterMap_append, List.filterMap_cons_none rfl, List.filterMap_nil, List.append_nil]
    exact h.entries.imp fun _ _ he => ⟨he.1, heading?_addHeading he.2 parent heading⟩

end Holds

/-! ## Registering item by item -/

/-- What holds of a registry and its mentions so far, and is kept with each reference and each level that is added. -/
structure Tracks (P : Registry → List Mention → Prop) : Prop where
  ref : ∀ {r : Registry} {ms : List Mention} {parent : Nat} {above : Heading}, P r ms → r.heading? parent = some above →
    ∀ ref : TopicRef, P (r.addRef parent ref).2 (ms ++ [.reference (r.addRef parent ref).1 above])
  heading : ∀ {r : Registry} {ms : List Mention} {parent : Option Nat} {above : Option Heading}, P r ms →
    parent.map r.heading? = above.map some → ∀ heading : Heading,
      P (r.addHeading parent heading).2 (ms ++ [.level (r.addHeading parent heading).1 above])

namespace Tracks

variable {P : Registry → List Mention → Prop}

mutual

theorem addItem (ht : Tracks P) : ∀ (i : Item) {r : Registry} {ms : List Mention} {parent : Nat} {above : Heading},
    P r ms → r.heading? parent = some above →
      P (r.addItem parent i).2 (ms ++ (r.addItem parent i).1.mentions above)
  | .topic ref, _, _, _, _, h, habove => ht.ref h habove ref
  | .level heading children, r, ms, parent, above, h, habove => by
    have hbelow : (some parent).map r.heading? = (some above).map some := congrArg some habove
    have hheading := ht.heading h hbelow heading
    have hchildren := addItems ht children hheading (heading?_addHeading_self r (some parent) heading)
    rw [List.append_assoc] at hchildren
    exact hchildren

/-- **Items are added to the mentions as they are listed**, below the level at whose place they are registered. -/
theorem addItems (ht : Tracks P) : ∀ (is : List Item) {r : Registry} {ms : List Mention} {parent : Nat}
    {above : Heading}, P r ms → r.heading? parent = some above →
      P (r.addItems parent is).2 (ms ++ itemsMentions above (r.addItems parent is).1)
  | [], r, ms, _, _, h, _ => by
    change P r (ms ++ [])
    rwa [List.append_nil]
  | i :: is, r, ms, parent, above, h, habove => by
    have hrest := addItems ht is (addItem ht i h habove) (heading?_addItem habove parent i)
    rw [List.append_assoc] at hrest
    exact hrest

end

theorem register (ht : Tracks P) {r : Registry} {ms : List Mention} (h : P r ms) (l : Level) :
    P (r.register l).2 (ms ++ (r.register l).1.mentions) := by
  have hbelow : (none : Option Nat).map r.heading? = (none : Option Heading).map some := rfl
  have hheading := ht.heading h hbelow l.heading
  have hchildren := addItems ht l.children hheading (heading?_addHeading_self r none l.heading)
  rw [List.append_assoc] at hchildren
  exact hchildren

end Tracks

theorem tracks_holds : Tracks Holds :=
  ⟨fun h habove ref => h.addRef habove ref, fun h habove heading => h.addHeading habove heading⟩

/-- **Outlines are held as they are listed, one after the other.** -/
theorem Holds.registerAll : ∀ (ls : List Level) {r : Registry} {ms : List Mention}, r.Holds ms →
    (r.registerAll ls).2.Holds (ms ++ listing (r.registerAll ls).1)
  | [], r, ms, h => by
    change r.Holds (ms ++ [])
    rwa [List.append_nil]
  | l :: ls, r, ms, h => by
    have hrest := Holds.registerAll ls (tracks_holds.register h l)
    rw [List.append_assoc] at hrest
    exact hrest

theorem holds_registerAll (ls : List Level) :
    (({} : Registry).registerAll ls).2.Holds (listing (({} : Registry).registerAll ls).1) :=
  Holds.registerAll ls Holds.empty

/-! ## Steps -/

/-- What is picked from a list has its labels among those of the list, in order. -/
theorem map_filterMap_sublist {α β γ : Type} {pick : α → Option β} {g : β → γ} {label : α → γ}
    (h : ∀ {a b}, pick a = some b → g b = label a) : ∀ xs : List α,
      ((xs.filterMap pick).map g).Sublist (xs.map label)
  | [] => .slnil
  | x :: xs => by
    cases hx : pick x with
    | none =>
      rw [List.filterMap_cons_none hx]
      exact (map_filterMap_sublist h xs).cons _
    | some b =>
      rw [List.filterMap_cons_some hx, List.map_cons, h hx]
      exact (map_filterMap_sublist h xs).cons_cons _

namespace Holds

variable {r : Registry} {ms : List Mention}

theorem map_heading (h : r.Holds ms) : r.levels.map (·.heading) = (ms.filterMap Mention.level?).map (·.1) := by
  rw [← List.forall₂_eq_eq_eq, List.forall₂_map_left_iff, List.forall₂_map_right_iff]
  exact h.levels.imp fun _ _ hl => hl.1

theorem steps_lt (h : r.Holds ms) : (ms.map Mention.step).Pairwise (· < ·) := by
  rw [h.steps]
  exact List.pairwise_lt_range'

theorem levelSteps_sublist (h : r.Holds ms) : (r.levels.map (·.heading.step)).Sublist (ms.map Mention.step) := by
  have hsteps : r.levels.map (·.heading.step) = ((ms.filterMap Mention.level?).map (·.1)).map (·.step) := by
    rw [← h.map_heading, List.map_map]
    rfl
  rw [hsteps, List.map_map]
  exact map_filterMap_sublist Mention.step_of_level? ms

end Holds

/-! ## Repeat numbers -/

end Registry
end Bookbinder
