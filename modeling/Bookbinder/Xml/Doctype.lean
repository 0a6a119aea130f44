import Bookbinder.Text.Blank
import Bookbinder.Text.Find
/-!
# The end of a document type declaration

A `<!DOCTYPE` ends at the first `>` outside quotes and outside the brackets of its internal subset.  In the brackets,
whatever begins with `<` is passed over as a whole, so that a bracket inside it does not count: comments and processing
instructions to their ends, declarations that hold quoted strings to the first `>` outside these, and all else to the
first `>`.  Each function gives what follows the piece it passes over, which is always shorter.
-/
namespace Bookbinder
namespace Xml
namespace Doctype

open Text (after? cut?)

theorem length_le_of_after? {p cs r : List Char} (h : after? p cs = some r) : r.length ≤ cs.length := by
  have := congrArg List.length (Text.after?_eq_some h)
  simp only [List.length_append] at this
  omega

/-- What follows the first `>` outside quotes. -/
def afterDeclaration : Option Char → List Char → Option (List Char)
  | _, [] => none
  | none, '>' :: cs => some cs
  | none, c :: cs => afterDeclaration (if c = '"' ∨ c = '\'' then some c else none) cs
  | some q, c :: cs => afterDeclaration (if c = q then none else some q) cs

theorem length_le_of_afterDeclaration {q : Option Char} {cs r : List Char} (h : afterDeclaration q cs = some r) :
    r.length ≤ cs.length := by
  fun_induction afterDeclaration q cs <;> simp_all <;> omega

/-- Whether a declaration that holds quoted strings begins here, after its `<`. -/
def isQuotedDeclaration (cs : List Char) : Bool :=
  (after? "!ENTITY".toList cs).isSome || (after? "!ATTLIST".toList cs).isSome || (after? "!NOTATION".toList cs).isSome

/-- What follows the piece of an internal subset whose `<` has been read. -/
def afterPiece (cs : List Char) : Option (List Char) :=
  match after? "!--".toList cs with
  | some r => (cut? "-->".toList r).map (·.2)
  | none => match after? "?".toList cs with
    | some r => (cut? "?>".toList r).map (·.2)
    | none => if isQuotedDeclaration cs then afterDeclaration none cs else (cut? ">".toList cs).map (·.2)

theorem length_le_of_afterPiece {cs r : List Char} (h : afterPiece cs = some r) : r.length ≤ cs.length := by
  have cut {p a r' : List Char} (hp : p ≠ []) (hc : (cut? p a).map (·.2) = some r') : r'.length < a.length := by
    obtain ⟨⟨x, y⟩, hxy, rfl⟩ := Option.map_eq_some_iff.1 hc
    exact Text.length_lt_of_cut? hp hxy
  unfold afterPiece at h
  split at h
  · rename_i r' hr
    have := length_le_of_after? hr
    have := cut (by decide) h
    omega
  · split at h
    · rename_i r' hr
      have := length_le_of_after? hr
      have := cut (by decide) h
      omega
    · split at h
      · exact length_le_of_afterDeclaration h
      · exact Nat.le_of_lt (cut (by decide) h)

/-- What follows the `]` that closes an internal subset. -/
def afterSubset (cs : List Char) : Option (List Char) :=
  match cs with
  | [] => none
  | ']' :: r => some r
  | '<' :: r => match h : afterPiece r with
    | some r' =>
      have : r'.length ≤ r.length := length_le_of_afterPiece h
      afterSubset r'
    | none => none
  | _ :: r => afterSubset r
termination_by cs.length

theorem afterSubset_piece {cs r : List Char} (h : afterPiece cs = some r) :
    afterSubset ('<' :: cs) = afterSubset r := by
  rw [afterSubset]
  split
  · rename_i hr
    cases h.symm.trans hr
    rfl
  · rename_i hr
    cases h.symm.trans hr

/-- What follows the `>` that ends the declaration, read from after its keyword. -/
def afterDoctype : Option Char → List Char → Option (List Char)
  | _, [] => none
  | none, '>' :: cs => some cs
  | none, '[' :: cs => (afterSubset cs).bind fun r => (cut? ['>'] r).map (·.2)
  | none, c :: cs => afterDoctype (if c = '"' ∨ c = '\'' then some c else none) cs
  | some q, c :: cs => afterDoctype (if c = q then none else some q) cs

theorem length_le_of_afterSubset {cs r : List Char} (h : afterSubset cs = some r) : r.length ≤ cs.length := by
  fun_induction afterSubset cs with
  | case1 => cases h
  | case2 => cases h; simp
  | case3 r0 r1 h1 hle ih => have := ih h; simp only [List.length_cons]; omega
  | case4 => cases h
  | case5 c r0 h1 h2 ih => have := ih h; simp only [List.length_cons]; omega

theorem length_le_of_afterDoctype {q : Option Char} {cs r : List Char} (h : afterDoctype q cs = some r) :
    r.length ≤ cs.length := by
  fun_induction afterDoctype q cs with
  | case1 => cases h
  | case2 => cases h; simp
  | case3 cs =>
    obtain ⟨r1, h1, h2⟩ := Option.bind_eq_some_iff.1 h
    obtain ⟨⟨x, y⟩, hxy, rfl⟩ := Option.map_eq_some_iff.1 h2
    have := length_le_of_afterSubset h1
    have := Text.length_lt_of_cut? (by simp) hxy
    simp only [List.length_cons]
    omega
  | case4 c cs _ _ ih => have := ih h; simp only [List.length_cons]; omega
  | case5 q c cs ih => have := ih h; simp only [List.length_cons]; omega

end Doctype
end Xml
end Bookbinder
