/-!
# Searching text

Cutting a text at the first place where a pattern begins, and replacing every place.  What is cut is always shorter
than what it was cut from, which is what recursions over the rest need.
-/
namespace Bookbinder
namespace Text

/-- What follows the pattern, if the text begins with it. -/
def after? : List Char → List Char → Option (List Char)
  | [], cs => some cs
  | _ :: _, [] => none
  | p :: ps, c :: cs => if p = c then after? ps cs else none

theorem after?_eq_some {p cs r : List Char} (h : after? p cs = some r) : cs = p ++ r := by
  fun_induction after? p cs <;> simp_all

/-- The text before and after the first place where the pattern stands. -/
def cut? (p : List Char) : List Char → Option (List Char × List Char)
  | [] => match after? p [] with
    | some r => some ([], r)
    | none => none
  | c :: cs => match after? p (c :: cs) with
    | some r => some ([], r)
    | none => match cut? p cs with
      | some (a, r) => some (c :: a, r)
      | none => none

theorem cut?_eq_some {p cs a r : List Char} (h : cut? p cs = some (a, r)) : cs = a ++ p ++ r := by
  induction cs generalizing a with
  | nil =>
    unfold cut? at h
    split at h
    · rename_i r' hr
      simp only [Option.some.injEq, Prod.mk.injEq] at h
      obtain ⟨rfl, rfl⟩ := h
      simpa using after?_eq_some hr
    · cases h
  | cons c cs ih =>
    unfold cut? at h
    split at h
    · rename_i r' hr
      simp only [Option.some.injEq, Prod.mk.injEq] at h
      obtain ⟨rfl, rfl⟩ := h
      simpa using after?_eq_some hr
    · split at h
      · rename_i a' r' hc
        simp only [Option.some.injEq, Prod.mk.injEq] at h
        obtain ⟨rfl, rfl⟩ := h
        simp [ih hc]
      · cases h

theorem length_lt_of_cut? {p cs a r : List Char} (hp : p ≠ []) (h : cut? p cs = some (a, r)) :
    r.length < cs.length := by
  have := congrArg List.length (cut?_eq_some h)
  have := List.length_pos_iff.2 hp
  simp only [List.length_append] at *
  omega

/-- Every place of a nonempty pattern, from the left and without overlaps, replaced by another text. -/
def replaceAll (p new : List Char) (cs : List Char) : List Char :=
  if hp : p = [] then cs else
  match h : cut? p cs with
  | none => cs
  | some (a, r) =>
    have : r.length < cs.length := length_lt_of_cut? hp h
    a ++ new ++ replaceAll p new r
termination_by cs.length

/-- The pieces of a text between the separators. -/
def splitAt (sep : Char) : List Char → List (List Char)
  | [] => [[]]
  | c :: cs => if c = sep then [] :: splitAt sep cs else
    match splitAt sep cs with
    | [] => [[c]]
    | w :: ws => (c :: w) :: ws

theorem splitAt_ne_nil (sep : Char) : ∀ cs : List Char, splitAt sep cs ≠ []
  | [] => List.cons_ne_nil _ _
  | c :: cs => by
    unfold splitAt
    split
    · exact List.cons_ne_nil _ _
    · split <;> exact List.cons_ne_nil _ _

theorem splitAt_append_cons (sep : Char) (b : List Char) : ∀ a : List Char,
    splitAt sep (a ++ sep :: b) = splitAt sep a ++ splitAt sep b
  | [] => by simp [splitAt]
  | c :: a => by
    have ih := splitAt_append_cons sep b a
    by_cases hc : c = sep
    · simp [splitAt, hc, ih]
    · simp only [List.cons_append, splitAt, if_neg hc, ih]
      cases h : splitAt sep a with
      | nil => exact absurd h (splitAt_ne_nil sep a)
      | cons w ws => rfl

theorem splitAt_of_notMem {sep : Char} : ∀ {cs : List Char}, sep ∉ cs → splitAt sep cs = [cs]
  | [], _ => rfl
  | c :: cs, h => by
    have hc : c ≠ sep := fun he => h (he ▸ List.mem_cons_self)
    have ih : splitAt sep cs = [cs] := splitAt_of_notMem fun hm => h (List.mem_cons_of_mem c hm)
    simp [splitAt, hc, ih]

/-- **Texts without the separator are the pieces of what they are joined to.** -/
theorem splitAt_intercalate {sep : Char} : ∀ {ws : List (List Char)}, ws ≠ [] → (∀ w ∈ ws, sep ∉ w) →
    splitAt sep ([sep].intercalate ws) = ws
  | [], h, _ => absurd rfl h
  | [w], _, h => by rw [List.intercalate_singleton, splitAt_of_notMem (h w List.mem_cons_self)]
  | w :: v :: ws, _, h => by
    rw [List.intercalate_cons_cons, List.append_assoc, List.singleton_append, splitAt_append_cons,
      splitAt_of_notMem (h w List.mem_cons_self), splitAt_intercalate (List.cons_ne_nil _ _)
      fun u hu => h u (List.mem_cons_of_mem _ hu), List.singleton_append]

end Text
end Bookbinder
