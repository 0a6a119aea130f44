import Bookbinder.Text.Blank
import Mathlib.Data.List.DropRight
/-!
# Blanks at the ends of a text

Trimming drops blanks from the two ends and stops at what is not blank (`trimChars_eq_self_iff`), so there is nothing
left to drop a second time.
-/
namespace Bookbinder
namespace Text

/-- What is said of each character of a text is decided along the text, not over all characters that there are. -/
instance decidableForallMem (cs : List Char) (p : Char → Prop) [DecidablePred p] : Decidable (∀ c ∈ cs, p c) :=
  List.decidableBAll p cs

theorem head_dropWhile {p : Char → Bool} {cs : List Char} : ∀ c ∈ (cs.dropWhile p).head?, p c = false := by
  intro c hc
  have := List.head?_dropWhile_not p cs
  rw [Option.mem_def.1 hc] at this
  simpa using this

theorem dropWhile_eq_self {p : Char → Bool} {cs : List Char} (h : ∀ c ∈ cs.head?, p c = false) :
    cs.dropWhile p = cs := by
  cases cs with
  | nil => rfl
  | cons c cs => exact List.dropWhile_cons_of_neg (by rw [h c rfl]; exact Bool.false_ne_true)

theorem takeWhile_eq_nil {p : Char → Bool} {cs : List Char} (h : ∀ c ∈ cs.head?, p c = false) :
    cs.takeWhile p = [] := by
  cases cs with
  | nil => rfl
  | cons c cs => exact List.takeWhile_cons_of_neg (by rw [h c rfl]; exact Bool.false_ne_true)

theorem toNat_of_isAlpha {c : Char} (h : c.isAlpha = true) :
    65 ≤ c.toNat ∧ c.toNat ≤ 90 ∨ 97 ≤ c.toNat ∧ c.toNat ≤ 122 := by
  rcases Bool.or_eq_true_iff.1 h with hupper | hlower
  · exact .inl (of_decide_eq_true hupper)
  · exact .inr ((Bool.and_eq_true_iff.1 hlower).imp of_decide_eq_true of_decide_eq_true)

theorem toNat_of_isDigit {c : Char} (h : c.isDigit = true) : 48 ≤ c.toNat ∧ c.toNat ≤ 57 :=
  (Bool.and_eq_true_iff.1 h).imp of_decide_eq_true of_decide_eq_true

theorem not_isBlank_of_isAlphanum {c : Char} (h : c.isAlphanum = true) : isBlank c = false := by
  simp only [isBlank, Bool.or_eq_false_iff, Bool.and_eq_false_iff, decide_eq_false_iff_not, beq_eq_false_iff_ne]
  rcases Bool.or_eq_true_iff.1 h with hletter | hdigit
  · have hcode := toNat_of_isAlpha hletter
    omega
  · have hcode := toNat_of_isDigit hdigit
    omega

theorem exists_trimRight (cs : List Char) : ∃ tail, cs = trimRight cs ++ tail ∧ ∀ c ∈ tail, isBlank c = true := by
  refine ⟨(cs.reverse.takeWhile isBlank).reverse, ?_, fun c hc => ?_⟩
  · unfold trimRight
    rw [← List.reverse_append, List.takeWhile_append_dropWhile, List.reverse_reverse]
  · exact List.mem_takeWhile_imp (List.mem_reverse.1 hc)

/-- What trimming drops is blank. -/
theorem exists_trimChars (cs : List Char) : ∃ lead tail, cs = lead ++ trimChars cs ++ tail ∧
    (∀ c ∈ lead, isBlank c = true) ∧ ∀ c ∈ tail, isBlank c = true := by
  obtain ⟨tail, htail, hblank⟩ := exists_trimRight (trimLeft cs)
  refine ⟨cs.takeWhile isBlank, tail, ?_, fun c hc => List.mem_takeWhile_imp hc, hblank⟩
  unfold trimChars
  rw [List.append_assoc, ← htail, trimLeft, List.takeWhile_append_dropWhile]

theorem head_trimChars (cs : List Char) : ∀ c ∈ (trimChars cs).head?, isBlank c = false := by
  obtain ⟨tail, htail, -⟩ := exists_trimRight (trimLeft cs)
  have hhead : ∀ c ∈ (trimLeft cs).head?, isBlank c = false := head_dropWhile
  intro c hc
  refine hhead c ?_
  rw [htail, List.head?_append]
  unfold trimChars at hc
  rw [Option.mem_def.1 hc]
  rfl

theorem getLast_trimChars (cs : List Char) : ∀ c ∈ (trimChars cs).getLast?, isBlank c = false := by
  intro c hc
  unfold trimChars trimRight at hc
  rw [List.getLast?_reverse] at hc
  exact head_dropWhile c hc

/-- A text is trimmed if there is no blank at either end. -/
theorem trimChars_eq_self_iff {cs : List Char} : trimChars cs = cs ↔
    (∀ c ∈ cs.head?, isBlank c = false) ∧ ∀ c ∈ cs.getLast?, isBlank c = false := by
  constructor
  · intro h
    rw [← h]
    exact ⟨head_trimChars cs, getLast_trimChars cs⟩
  · rintro ⟨hhead, hlast⟩
    unfold trimChars trimLeft trimRight
    rw [dropWhile_eq_self hhead, dropWhile_eq_self (by rwa [List.head?_reverse]), List.reverse_reverse]

/-- **Trimming a second time drops nothing.** -/
theorem trimChars_trimChars (cs : List Char) : trimChars (trimChars cs) = trimChars cs :=
  trimChars_eq_self_iff.2 ⟨head_trimChars cs, getLast_trimChars cs⟩

end Text
end Bookbinder
