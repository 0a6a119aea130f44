import Bookbinder.Proofs.RegisteredOutlines
import Mathlib.Data.Option.Defs
/-!
# What names lead to

Levels and references may have a target id, and a reference answers to its own id as well.  Registering binds target
ids whatever they named before, but an own id only if it names nothing yet; so a name leads to the last in document
order whose target id it is, and else to the first reference whose own id it is (`named_register`).
-/
namespace Bookbinder

/-! ## What a name designates -/

namespace Mention

/-- The explicit target id. -/
def target? : Mention → Option String
  | level heading _ => heading.target
  | reference ref _ => ref.target

/-- The own id, which only references have. -/
def id? : Mention → Option String
  | level _ _ => none
  | reference ref _ => some ref.id

end Mention

/-- The last of some mentions with a name as its target id, if there is one, else the first with it as its own id. -/
def designated? (ms : List Mention) (name : String) : Option Mention :=
  (ms.reverse.find? fun m => m.target? == some name).or (ms.find? fun m => m.id? == some name)

/-- One more mention is designated for its target id, and for its own id unless something was before. -/
theorem designated?_concat (ms : List Mention) (m : Mention) (name : String) :
    designated? (ms ++ [m]) name = if m.target? = some name then some m
      else (designated? ms name).or (if m.id? = some name then some m else none) := by
  rw [designated?, designated?, List.reverse_append, List.reverse_singleton, List.singleton_append, List.find?_cons,
    List.find?_append, List.find?_singleton]
  simp only [beq_iff_eq]
  by_cases htarget : m.target? = some name
  · rw [if_pos htarget, beq_iff_eq.2 htarget, Option.some_or]
  · rw [if_neg htarget, beq_eq_false_iff_ne.2 htarget, Option.or_assoc]

namespace Registry

/-! ## Bound names -/

/-- What a name is bound to. -/
def named? (targets : List (String × Target)) (name : String) : Option Target :=
  (targets.find? fun b => b.1 == name).map (·.2)

theorem named?_cons (id : String) (t : Target) (targets : List (String × Target)) (name : String) :
    named? ((id, t) :: targets) name = if id = name then some t else named? targets name := by
  rw [named?, List.find?_cons]
  by_cases h : id = name
  · rw [if_pos h, beq_iff_eq.2 h, Option.map_some]
  · rw [if_neg h, beq_eq_false_iff_ne.2 h, named?]

/-- **A name that is bound has just that target**, and the others are bound as before. -/
theorem named?_bind (targets : List (String × Target)) (id : String) (t : Target) (name : String) :
    named? (bind targets id t) name = if id = name then some t else named? targets name := by
  rw [bind, named?_cons]
  by_cases h : id = name
  · rw [if_pos h, if_pos h]
  · rw [if_neg h, if_neg h, named?, named?, List.find?_filter]
    congr 2
    funext b
    by_cases hb : b.1 = name
    · rw [beq_iff_eq.2 hb, bne_iff_ne.2 (fun hid => h (hid.symm.trans hb))]
      rfl
    · rw [beq_eq_false_iff_ne.2 hb, decide_eq_false (by simp)]

/-- **A name that is bound if it is new keeps the target it has**, and the others are bound as before. -/
theorem named?_bindNew (targets : List (String × Target)) (id : String) (t : Target) (name : String) :
    named? (bindNew targets id t) name = (named? targets name).or (if id = name then some t else none) := by
  rw [bindNew]
  split
  case isTrue h =>
    obtain ⟨b, hb, hid⟩ := List.any_eq_true.1 h
    by_cases hname : id = name
    · obtain ⟨b', hb'⟩ : ∃ b', (targets.find? fun b => b.1 == name) = some b' := by
        rw [← Option.isSome_iff_exists, List.find?_isSome]
        exact ⟨b, hb, hname ▸ hid⟩
      rw [named?, hb', Option.map_some, Option.some_or]
    · rw [if_neg hname, Option.or_none]
  case isFalse h =>
    rw [named?_cons]
    by_cases hname : id = name
    · have hnone : (targets.find? fun b => b.1 == name) = none :=
        List.find?_eq_none.2 fun b hb hid => h (List.any_eq_true.2 ⟨b, hb, hname ▸ hid⟩)
      rw [if_pos hname, if_pos hname, named?, hnone, Option.map_none, Option.none_or]
    · rw [if_neg hname, if_neg hname, Option.or_none]

theorem named?_bindAny (targets : List (String × Target)) (id : Option String) (t : Target) (name : String) :
    named? (bindAny targets id t) name = if id = some name then some t else named? targets name := by
  cases id with
  | none => rw [bindAny, if_neg nofun]
  | some id =>
    rw [bindAny, named?_bind]
    simp only [Option.some.injEq]

/-! ## Where targets are -/

/-- A target is at what is mentioned: a reference by its step, a level by its place. -/
inductive Locates (r : Registry) : Target → Mention → Prop where
  | topic {step : Nat} {ref : TopicRef} (above : Heading) (here : (r.entry? step).map (·.ref) = some ref) :
    Locates r (.topic step) (.reference ref above)
  | level {index : Nat} {heading : Heading} (above : Option Heading) (here : r.heading? index = some heading) :
    Locates r (.level index) (.level heading above)

variable {r : Registry}

theorem map_ref_entry?_addRef {step : Nat} {ref : TopicRef} (h : (r.entry? step).map (·.ref) = some ref)
    (parent : Nat) (new : TopicRef) : (Registry.entry? (r.addRef parent new).2 step).map (·.ref) = some ref := by
  obtain ⟨e, he, rfl⟩ := Option.map_eq_some_iff.1 h
  change ((r.entries ++ [_]).find? _).map _ = _
  rw [List.find?_append, show r.entries.find? _ = some e from he]
  rfl

/-- The entry of a reference that was just registered is its own, as no earlier one has its step. -/
theorem map_ref_entry?_addRef_self (h : r.Unlearned) (parent : Nat) (ref : TopicRef) :
    (Registry.entry? (r.addRef parent ref).2 (r.lastStep + 1)).map (·.ref) = some (r.addRef parent ref).1 := by
  have hnone : (r.entries.find? fun e => e.ref.step == r.lastStep + 1) = none :=
    List.find?_eq_none.2 fun e he hstep =>
      absurd (h.lastStep e.ref.step (List.mem_map_of_mem he)) (by rw [beq_iff_eq.1 hstep]; omega)
  change ((r.entries ++ [_]).find? _).map _ = _
  rw [List.find?_append, hnone, Option.none_or, List.find?_singleton, if_pos (beq_self_eq_true (r.lastStep + 1))]
  rfl

theorem Locates.addRef {t : Target} {m : Mention} (h : r.Locates t m) (parent : Nat) (ref : TopicRef) :
    (r.addRef parent ref).2.Locates t m := by
  cases h with
  | topic above here => exact .topic above (map_ref_entry?_addRef here parent ref)
  | level above here => exact .level above here

theorem Locates.addHeading {t : Target} {m : Mention} (h : r.Locates t m) (parent : Option Nat) (heading : Heading) :
    (r.addHeading parent heading).2.Locates t m := by
  cases h with
  | topic above here => exact .topic above here
  | level above here => exact .level above (heading?_addHeading here parent heading)

/-! ## Related options -/

theorem rel_or {α β : Type} {R : α → β → Prop} {a a' : Option α} {b b' : Option β} (h : Option.Rel R a b)
    (h' : Option.Rel R a' b') : Option.Rel R (a.or a') (b.or b') := by
  cases h with
  | some h => exact .some h
  | none => exact h'

theorem rel_ite {α β : Type} {R : α → β → Prop} {a : α} {b : β} (h : R a b) (p : Prop) [Decidable p] {x : Option α}
    {y : Option β} (hrest : Option.Rel R x y) :
    Option.Rel R (if p then some a else x) (if p then some b else y) := by
  by_cases hp : p
  · rw [if_pos hp, if_pos hp]
    exact .some h
  · rwa [if_neg hp, if_neg hp]

theorem rel_imp {α β : Type} {R S : α → β → Prop} (hsub : ∀ {a b}, R a b → S a b) {x : Option α} {y : Option β}
    (h : Option.Rel R x y) : Option.Rel S x y := by
  cases h with
  | some h => exact .some (hsub h)
  | none => exact .none

/-! ## Names of what is registered -/

/-- Names lead a registry to what they designate among some mentions. -/
structure Names (r : Registry) (ms : List Mention) : Prop where
  unlearned : r.Unlearned
  resolves : ∀ name, Option.Rel r.Locates (r.resolve? name) (designated? ms name)

namespace Names

variable {ms : List Mention}

theorem empty : ({} : Registry).Names [] where
  unlearned := ⟨.nil, fun _ h => absurd h List.not_mem_nil, fun _ h => absurd h List.not_mem_nil⟩
  resolves _ := .none

/-- A reference takes its target id from whatever had it, its own id only from nobody. -/
theorem addRef (h : r.Names ms) (parent : Nat) (above : Heading) (ref : TopicRef) :
    (r.addRef parent ref).2.Names (ms ++ [.reference (r.addRef parent ref).1 above]) where
  unlearned := h.unlearned.addRef parent ref
  resolves name := by
    have hnew : (r.addRef parent ref).2.Locates (.topic (r.lastStep + 1)) (.reference (r.addRef parent ref).1 above) :=
      .topic above (map_ref_entry?_addRef_self h.unlearned parent ref)
    change Option.Rel _ (named? (bindAny (bindNew r.targets ref.id _) ref.target _) name) _
    rw [named?_bindAny, named?_bindNew, designated?_concat]
    refine rel_ite hnew (ref.target = some name) (rel_or (rel_imp (·.addRef parent ref) (h.resolves name)) ?_)
    simp only [Mention.id?, Option.some.injEq]
    exact rel_ite hnew (ref.id = name) .none

/-- A level takes its target id from whatever had it. -/
theorem addHeading (h : r.Names ms) (parent : Option Nat) (above : Option Heading) (heading : Heading) :
    (r.addHeading parent heading).2.Names (ms ++ [.level (r.addHeading parent heading).1 above]) where
  unlearned := h.unlearned.addHeading parent heading
  resolves name := by
    have hnew : (r.addHeading parent heading).2.Locates (.level r.levels.length)
        (.level (r.addHeading parent heading).1 above) :=
      .level above (heading?_addHeading_self r parent heading)
    change Option.Rel _ (named? (bindAny r.targets heading.target _) name) _
    rw [named?_bindAny, designated?_concat]
    simp only [Mention.id?, reduceCtorEq, if_false, Option.or_none]
    exact rel_ite hnew (heading.target = some name) (rel_imp (·.addHeading parent heading) (h.resolves name))

end Names

theorem tracks_names : Tracks Names :=
  ⟨fun h _ ref => h.addRef _ _ ref, fun h _ heading => h.addHeading _ _ heading⟩

/-- An outline that was registered, the outline that came out and the registry, by the names of its levels and
references. -/
structure Named (given made : Level) (r : Registry) : Prop where
  /-- The outline is the same but for steps and repeat numbers. -/
  unnumbered : made.unnumbered = given.unnumbered
  /-- No two of its levels and references have the same step. -/
  steps : (made.mentions.map Mention.step).Nodup
  /-- A name leads to the last with it as target id, if there is one, else to the first with it as own id. -/
  resolves : ∀ name, Option.Rel r.Locates (r.resolve? name) (designated? made.mentions name)

/-- **A name leads to its last target id in document order, else to its first reference.**  However an outline is
registered in an empty registry, the levels and references with a name as their target id come before those that have
it as their own id, wherever they stand. -/
theorem named_register (l : Level) : Named l (({} : Registry).register l).1 (({} : Registry).register l).2 where
  unnumbered := unnumbered_register l {}
  steps := (tracks_holds.register Holds.empty l).steps_lt.imp Nat.ne_of_lt
  resolves := (tracks_names.register Names.empty l).resolves

end Registry
end Bookbinder
