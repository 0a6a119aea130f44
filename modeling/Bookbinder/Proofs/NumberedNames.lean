import Bookbinder.IdLedger
/-!
# Names with numbers behind them

Link ids and renamed ids are a base, a dash and a number.  The number can be told from the base again
(`numbered_inj`), since digits hold no dash; that is why the candidates for one id all differ.
-/
namespace Bookbinder

theorem notMem_digits {c : Char} (h : c.isDigit = false) (n : Nat) : c ∉ Nat.toDigits 10 n := fun hmem =>
  absurd (Nat.isDigit_of_mem_toDigits (by decide) (by decide) hmem) (Bool.eq_false_iff.1 h)

theorem toString_nat_injective : Function.Injective fun n : Nat => toString n := by
  intro a b h
  have hdigits : Nat.toDigits 10 a = Nat.toDigits 10 b := by simpa using congrArg String.toList h
  rw [← Nat.ofDigitChars_toDigits (b := 10) (n := a) (by decide) (by decide), hdigits,
    Nat.ofDigitChars_toDigits (by decide) (by decide)]

theorem dash_notMem_toString (n : Nat) : '-' ∉ (toString n).toList := by
  simpa using notMem_digits (by decide) n

theorem toList_negSucc (n : Nat) : (toString (Int.negSucc n)).toList = '-' :: (toString (n + 1)).toList := by
  rw [show toString (Int.negSucc n) = "-" ++ toString (n + 1) from rfl, String.toList_append]
  rfl

theorem toString_int_injective : Function.Injective fun n : Int => toString n := by
  have hsign (n : Nat) (rest : List Char) : (toString n).toList ≠ '-' :: rest := fun he =>
    dash_notMem_toString n (he ▸ List.mem_cons_self)
  intro a b h
  have hl : (toString a).toList = (toString b).toList := congrArg String.toList h
  cases a with
  | ofNat m =>
    cases b with
    | ofNat n => exact congrArg Int.ofNat (toString_nat_injective h)
    | negSucc n => exact absurd (hl.trans (toList_negSucc n)) (hsign m _)
  | negSucc m =>
    cases b with
    | ofNat n => exact absurd (hl.symm.trans (toList_negSucc m)) (hsign n _)
    | negSucc n =>
      rw [toList_negSucc, toList_negSucc] at hl
      have hsucc : m + 1 = n + 1 := toString_nat_injective (String.toList_inj.1 (List.cons.inj hl).2)
      exact congrArg Int.negSucc (Nat.succ.inj hsucc)

/-- A dash is the sign of a number, if there is one. -/
theorem dash_notMem_tail (n : Int) : '-' ∉ (toString n).toList.tail := by
  cases n with
  | ofNat n => exact fun h => dash_notMem_toString n (List.mem_of_mem_tail h)
  | negSucc n =>
    rw [toList_negSucc]
    exact dash_notMem_toString (n + 1)

theorem toList_int_ne_nil (n : Int) : (toString n).toList ≠ [] := by
  cases n with
  | ofNat n =>
    change (toString n).toList ≠ []
    simp
  | negSucc n =>
    rw [toList_negSucc]
    exact List.cons_ne_nil _ _

/-- What follows the last separator, and what precedes it, are determined by the whole. -/
theorem append_cons_inj_of_notMem_right {α : Type} {c : α} {u v : List α} (hu : c ∉ u) (hv : c ∉ v) :
    ∀ {xs ys : List α}, xs ++ c :: u = ys ++ c :: v → xs = ys ∧ u = v
  | [], [], h => ⟨rfl, (List.cons.inj h).2⟩
  | [], y :: ys, h => by
    rw [List.nil_append, List.cons_append, List.cons.injEq] at h
    exact absurd (h.2 ▸ List.mem_append_right ys List.mem_cons_self) hu
  | x :: xs, [], h => by
    rw [List.nil_append, List.cons_append, List.cons.injEq] at h
    exact absurd (h.2 ▸ List.mem_append_right xs List.mem_cons_self) hv
  | x :: xs, y :: ys, h => by
    rw [List.cons_append, List.cons_append, List.cons.injEq] at h
    obtain ⟨rfl, rfl⟩ := append_cons_inj_of_notMem_right hu hv h.2
    rw [h.1]
    exact ⟨rfl, rfl⟩

/-- A beginning and what follows it are determined by the whole where something holds all through the beginning and no
longer behind it. -/
theorem append_inj_of_boundary {α : Type} {p : α → Prop} {u v : List α} (hu : ∀ a ∈ u.head?, ¬ p a)
    (hv : ∀ a ∈ v.head?, ¬ p a) : ∀ {xs ys : List α}, (∀ a ∈ xs, p a) → (∀ a ∈ ys, p a) → xs ++ u = ys ++ v →
    xs = ys ∧ u = v
  | [], [], _, _, h => ⟨rfl, h⟩
  | [], y :: ys, _, hys, h => by
    obtain rfl : u = y :: (ys ++ v) := h
    exact absurd (hys y List.mem_cons_self) (hu y rfl)
  | x :: xs, [], hxs, _, h => by
    obtain rfl : x :: (xs ++ u) = v := h
    exact absurd (hxs x List.mem_cons_self) (hv x rfl)
  | x :: xs, y :: ys, hxs, hys, h => by
    rw [List.cons_append, List.cons_append, List.cons.injEq] at h
    obtain ⟨rfl, rfl⟩ := append_inj_of_boundary hu hv (List.forall_mem_cons.1 hxs).2 (List.forall_mem_cons.1 hys).2 h.2
    exact ⟨congrArg (· :: xs) h.1, rfl⟩

/-- A base with a number behind it. -/
def numbered (base : String) (n : Nat) : String :=
  base ++ "-" ++ toString n

theorem toList_numbered (base : String) (n : Nat) :
    (numbered base n).toList = base.toList ++ '-' :: Nat.toDigits 10 n := by
  simp [numbered]

/-- **A numbered name tells its base and its number.** -/
theorem numbered_inj {a b : String} {m n : Nat} : numbered a m = numbered b n ↔ a = b ∧ m = n := by
  constructor
  · intro h
    have hl := congrArg String.toList h
    rw [toList_numbered, toList_numbered] at hl
    obtain ⟨hab, hd⟩ := append_cons_inj_of_notMem_right (notMem_digits (by decide) m) (notMem_digits (by decide) n) hl
    refine ⟨String.toList_inj.1 hab, ?_⟩
    have hn := congrArg (fun ds => Nat.ofDigitChars 10 ds 0) hd
    rwa [Nat.ofDigitChars_ten_toDigits, Nat.ofDigitChars_ten_toDigits] at hn
  · rintro ⟨rfl, rfl⟩
    rfl

theorem length_lt_length_numbered (base : String) (n : Nat) : base.toList.length < (numbered base n).toList.length := by
  rw [toList_numbered, List.length_append, List.length_cons]
  omega

theorem numbered_ne (base : String) (n : Nat) : numbered base n ≠ base := by
  intro h
  have := length_lt_length_numbered base n
  rw [h] at this
  omega

/-- A number with another one behind it does not look like a number, whatever their signs. -/
theorem toString_int_ne_numbered (a b : Int) (n : Nat) : toString a ≠ numbered (toString b) n := by
  intro h
  have htail := dash_notMem_tail a
  rw [h, toList_numbered, List.tail_append_of_ne_nil (toList_int_ne_nil b)] at htail
  exact htail (List.mem_append_right _ List.mem_cons_self)

@[simp] theorem withDuplicate_none (base : String) : withDuplicate base none = base := rfl

@[simp] theorem withDuplicate_some (base : String) (n : Nat) : withDuplicate base (some n) = numbered base n := rfl

namespace IdLedger

theorem candidate_add_two (base : String) (step k : Nat) :
    candidate base step (k + 2) = numbered (numbered base step) (k + 1) := rfl

/-- **No two attempts try the same name.** -/
theorem candidate_injective (base : String) (step : Nat) {i k : Nat}
    (h : candidate base step i = candidate base step k) : i = k := by
  have two (k : Nat) : candidate base step (k + 2) ≠ base := by
    intro h
    rw [candidate_add_two] at h
    have h1 := length_lt_length_numbered base step
    have h2 := length_lt_length_numbered (numbered base step) (k + 1)
    rw [h] at h2
    omega
  match i, k with
  | 0, 0 => rfl
  | 0, 1 => exact absurd h.symm (numbered_ne base step)
  | 1, 0 => exact absurd h (numbered_ne base step)
  | 0, k + 2 => exact absurd h.symm (two k)
  | i + 2, 0 => exact absurd h (two i)
  | 1, 1 => rfl
  | 1, k + 2 => exact absurd h.symm (numbered_ne (numbered base step) (k + 1))
  | i + 2, 1 => exact absurd h (numbered_ne (numbered base step) (i + 1))
  | i + 2, k + 2 =>
    rw [candidate_add_two, candidate_add_two, numbered_inj] at h
    omega

end IdLedger
end Bookbinder
