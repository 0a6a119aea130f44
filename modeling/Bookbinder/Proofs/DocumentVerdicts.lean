import Bookbinder.Dtd
import Mathlib.Data.List.Forall2
/-!
# Verdicts on documents

A definition allows a document whose elements it all allows, each with its attributes; otherwise there is a first fault
in document order, and the verdict names that (`judges_verdict`).  A validator keeps the definition it read last, but
only with the text it was read from; so whatever was validated before, a verdict is that of a definition freshly read
(`judges_verdicts`).
-/
namespace Bookbinder

namespace Dtd

/-! ## What is allowed -/

/-- A definition that declares no element allows any. -/
def AllowsElement (d : Dtd) (name : String) : Prop :=
  d.elements = [] ∨ d.declaresElement name = true

/-- A definition without attribute lists allows any attribute, and each allows those of XML and of its namespaces. -/
def AllowsAttribute (d : Dtd) (owner name : String) : Prop :=
  d.attributes = [] ∨ "xmlns".toList <+: name.toList ∨ "xml:".toList <+: name.toList ∨
    d.declaresAttribute owner name = true

/-- An element that may stand as it is, what it holds aside. -/
structure Allows (d : Dtd) (e : Xml.Element) : Prop where
  element : d.AllowsElement e.name
  attributes : ∀ a ∈ e.attributes, d.AllowsAttribute e.name a.1

/-- The first fault among elements in document order.  That of an element itself comes before those of its attributes,
and these come as they are written. -/
inductive FirstFault (d : Dtd) (es : List Xml.Element) : Violation → Prop
  | element {before after : List Xml.Element} {e : Xml.Element} : es = before ++ e :: after →
      (∀ x ∈ before, d.Allows x) → ¬ d.AllowsElement e.name → FirstFault d es (.element e.name)
  | attribute {before after : List Xml.Element} {e : Xml.Element} {earlier later : Xml.Attributes}
      {a : String × String} : es = before ++ e :: after → (∀ x ∈ before, d.Allows x) → d.AllowsElement e.name →
      e.attributes = earlier ++ a :: later → (∀ x ∈ earlier, d.AllowsAttribute e.name x.1) →
      ¬ d.AllowsAttribute e.name a.1 → FirstFault d es (.attribute a.1 e.name)

/-- A verdict on a document by a definition: it passes if all is allowed, else the first fault is told. -/
structure Judges (d : Dtd) (doc : Xml.Document) (v : Verdict) : Prop where
  passed_iff : v.passed = true ↔ ∀ e ∈ doc.root.elements, d.Allows e
  silent : v.passed = true → v.message = none
  tells : v.passed = false → ∃ fault, d.FirstFault doc.root.elements fault ∧ v.message = some fault.message

/-! ## Checking -/

theorem isSome_after?_iff {p cs : List Char} : (Text.after? p cs).isSome = true ↔ p <+: cs := by
  induction p generalizing cs with
  | nil => simp [Text.after?]
  | cons c p ih =>
    cases cs with
    | nil => simp [Text.after?]
    | cons d cs =>
      rw [List.cons_prefix_cons, ← ih, Text.after?]
      by_cases hc : c = d <;> simp [hc]

theorem isFree_iff {name : String} :
    isFree name = true ↔ "xmlns".toList <+: name.toList ∨ "xml:".toList <+: name.toList := by
  rw [isFree, Bool.or_eq_true, isSome_after?_iff, isSome_after?_iff]

theorem allowsElement_iff {d : Dtd} {name : String} :
    d.AllowsElement name ↔ (!d.elements.isEmpty && !d.declaresElement name) = false := by
  rw [Bool.and_eq_false_iff, Bool.not_eq_false', Bool.not_eq_false', List.isEmpty_iff, AllowsElement]

theorem allowsAttribute_iff {d : Dtd} (hd : d.attributes ≠ []) {owner name : String} :
    d.AllowsAttribute owner name ↔ (!isFree name && !d.declaresAttribute owner name) = false := by
  rw [Bool.and_eq_false_iff, Bool.not_eq_false', Bool.not_eq_false', isFree_iff, AllowsAttribute, or_iff_right hd,
    or_assoc]

variable {d : Dtd} {e : Xml.Element} {es : List Xml.Element} {v : Violation}

theorem checkElement_eq_none_iff : d.checkElement e = none ↔ d.Allows e := by
  unfold checkElement
  split
  · rename_i helement
    refine ⟨nofun, fun h => ?_⟩
    rw [allowsElement_iff.1 h.element] at helement
    cases helement
  · rename_i helement
    rw [Bool.not_eq_true, ← allowsElement_iff] at helement
    split
    · rename_i hempty
      exact ⟨fun _ => ⟨helement, fun _ _ => .inl (List.isEmpty_iff.1 hempty)⟩, fun _ => rfl⟩
    · rename_i hlists
      rw [List.isEmpty_iff] at hlists
      rw [Option.map_eq_none_iff, List.find?_eq_none]
      refine ⟨fun h => ⟨helement, fun a ha => ?_⟩, fun h a ha => ?_⟩
      · rw [allowsAttribute_iff hlists, ← Bool.not_eq_true]
        exact h a ha
      · rw [Bool.not_eq_true, ← allowsAttribute_iff hlists]
        exact h.attributes a ha

/-- **What checking finds is the first fault.** -/
theorem firstFault_of_findSome? (h : es.findSome? d.checkElement = some v) : d.FirstFault es v := by
  obtain ⟨before, e, after, hes, he, hnone⟩ := List.findSome?_eq_some_iff.1 h
  have hbefore : ∀ x ∈ before, d.Allows x := fun x hx => checkElement_eq_none_iff.1 (hnone x hx)
  unfold checkElement at he
  split at he
  · rename_i helement
    cases he
    exact .element hes hbefore fun hallowed => by rw [allowsElement_iff.1 hallowed] at helement; cases helement
  · rename_i helement
    rw [Bool.not_eq_true, ← allowsElement_iff] at helement
    split at he
    · cases he
    · rename_i hlists
      rw [List.isEmpty_iff] at hlists
      obtain ⟨a, ha, rfl⟩ := Option.map_eq_some_iff.1 he
      obtain ⟨hfault, earlier, later, hattributes, hearlier⟩ := List.find?_eq_some_iff_append.1 ha
      refine .attribute hes hbefore helement hattributes (fun x hx => ?_) ?_
      · rw [allowsAttribute_iff hlists, ← Bool.not_eq_true']
        exact hearlier x hx
      · rw [allowsAttribute_iff hlists, hfault]
        exact nofun

/-- **A definition's own verdict tells the first fault, if there is one.** -/
theorem judges_verdict (d : Dtd) (doc : Xml.Document) : d.Judges doc (d.verdict doc) := by
  unfold verdict
  cases hcheck : d.check doc with
  | none =>
    have hallowed : ∀ e ∈ doc.root.elements, d.Allows e := fun e he =>
      checkElement_eq_none_iff.1 (List.findSome?_eq_none_iff.1 hcheck e he)
    exact ⟨⟨fun _ => hallowed, fun _ => rfl⟩, fun _ => rfl, nofun⟩
  | some v =>
    refine ⟨⟨nofun, fun h => ?_⟩, nofun, fun _ => ⟨v, firstFault_of_findSome? hcheck, rfl⟩⟩
    have hnone : d.check doc = none := List.findSome?_eq_none_iff.2 fun e he => checkElement_eq_none_iff.2 (h e he)
    rw [hnone] at hcheck
    cases hcheck

end Dtd

/-! ## Validators -/

namespace Validator

/-- The verdicts of a validator on documents, each with the text of a definition, one after the other. -/
def verdicts : Validator → List (Xml.Document × String) → List Verdict
  | _, [] => []
  | v, (doc, schema) :: requests => (v.validate schema doc).1 :: (v.validate schema doc).2.verdicts requests

/-- A validator that keeps a definition with the text it was read from, or none. -/
def Honest : Validator → Prop
  | .dtd (some (source, d)) => d = Dtd.read source
  | .dtd none => True
  | .standing _ => False

/-- **What is kept changes no verdict, and is kept with its text again.** -/
theorem Honest.validate {v : Validator} (h : v.Honest) (schema : String) (doc : Xml.Document) :
    (v.validate schema doc).1 = (Dtd.read schema).verdict doc ∧ (v.validate schema doc).2.Honest := by
  cases v with
  | standing => exact h.elim
  | dtd last =>
    cases last with
    | none => exact ⟨rfl, rfl⟩
    | some kept =>
      obtain ⟨source, d⟩ := kept
      obtain rfl : d = Dtd.read source := h
      by_cases hsource : source = schema
      · subst hsource
        rw [Validator.validate, if_pos rfl]
        exact ⟨rfl, rfl⟩
      · rw [Validator.validate, if_neg hsource]
        exact ⟨rfl, rfl⟩

theorem Honest.verdicts_eq {v : Validator} (h : v.Honest) (requests : List (Xml.Document × String)) :
    v.verdicts requests = requests.map fun r => (Dtd.read r.2).verdict r.1 := by
  induction requests generalizing v with
  | nil => rfl
  | cons r requests ih =>
    obtain ⟨hverdict, hnext⟩ := h.validate r.2 r.1
    rw [verdicts, hverdict, ih hnext, List.map_cons]

/-- **Every verdict is that of a definition freshly read.**  Whatever a validator was asked before, a document passes if
and only if the definition allows all its elements with their attributes, and else the verdict tells the first fault. -/
theorem judges_verdicts (requests : List (Xml.Document × String)) :
    List.Forall₂ (fun r v => v = (Dtd.read r.2).verdict r.1 ∧ (Dtd.read r.2).Judges r.1 v) requests
      ((Validator.dtd none).verdicts requests) := by
  have hhonest : (Validator.dtd none).Honest := trivial
  rw [hhonest.verdicts_eq, List.forall₂_map_right_iff, List.forall₂_same]
  exact fun r _ => ⟨rfl, Dtd.judges_verdict _ _⟩

end Validator
end Bookbinder
