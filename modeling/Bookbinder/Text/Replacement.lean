/-!
# Replacement texts

What is put in the place of a match may refer to it: `$` with a name of letters, digits and underscores, or with
anything in braces, stands for a group of the match.  Group zero is the match as a whole, and no other groups are
known.  Two dollar signs are one, and a dollar sign that nothing can be made of is itself.
-/
namespace Bookbinder
namespace Replacement

/-- A character of a group's name outside braces. -/
def isNameChar (c : Char) : Bool :=
  c.isAlphanum || c = '_'

/-- Whether a group's name is the number zero, which may have a plus sign. -/
def isWhole (name : List Char) : Bool :=
  let digits := match name with
    | '+' :: r => r
    | _ => name
  !digits.isEmpty && digits.all (· == '0')

/-- The group's name that follows a dollar sign, and what follows the name. -/
def reference? : List Char → Option (List Char × List Char)
  | '{' :: cs => match cs.dropWhile (· != '}') with
    | _ :: rest => some (cs.takeWhile (· != '}'), rest)
    | [] => none
  | cs =>
    if (cs.takeWhile isNameChar).isEmpty then none
    else some (cs.takeWhile isNameChar, cs.dropWhile isNameChar)

theorem length_le_of_reference? {cs name rest : List Char} (h : reference? cs = some (name, rest)) :
    rest.length ≤ cs.length := by
  unfold reference? at h
  split at h
  · rename_i cs
    split at h
    · rename_i r hr
      simp only [Option.some.injEq, Prod.mk.injEq] at h
      obtain ⟨-, rfl⟩ := h
      have := (List.dropWhile_sublist (l := cs) (· != '}')).length_le
      simp only [hr, List.length_cons] at this ⊢
      omega
    · cases h
  · split at h
    · cases h
    · simp only [Option.some.injEq, Prod.mk.injEq] at h
      obtain ⟨-, rfl⟩ := h
      exact (List.dropWhile_sublist _).length_le

/-- A replacement text with its references to a match filled in. -/
def expand (whole : List Char) : List Char → List Char
  | [] => []
  | '$' :: '$' :: cs => '$' :: expand whole cs
  | '$' :: cs => match h : reference? cs with
    | some (name, rest) =>
      have := length_le_of_reference? h
      (if isWhole name then whole else []) ++ expand whole rest
    | none => '$' :: expand whole cs
  | c :: cs => c :: expand whole cs
termination_by cs => cs.length
decreasing_by all_goals simp only [List.length_cons]; omega

/-- **A text without dollar signs stands for itself.** -/
theorem expand_of_notMem {whole cs : List Char} (h : '$' ∉ cs) : expand whole cs = cs := by
  induction cs with
  | nil => rw [expand]
  | cons c cs ih =>
    simp only [List.mem_cons, not_or] at h
    rw [expand, ih h.2]
    · exact fun _ e _ => h.1 e.symm
    · exact fun e => h.1 e.symm

end Replacement
end Bookbinder
