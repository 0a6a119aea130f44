import Bookbinder.Numeral
import Bookbinder.Text.Find
import Mathlib.Algebra.Ring.Nat
/-!
# Reading English numerals

A number in words is read from left to right: words are added up to a group, `hundred` multiplies what the group is
worth so far, and the name of a scale ends the group that it multiplies (`Numeral.groups?`).  What `Numeral.spell`
writes is read as the number that it spells, in groups below a thousand with scales that go down (`Numeral.read_spell`).
-/
namespace Bookbinder
namespace Numeral

/-! ## Reading -/

def units : List (String × Nat) :=
  [("one", 1), ("two", 2), ("three", 3), ("four", 4), ("five", 5), ("six", 6), ("seven", 7), ("eight", 8), ("nine", 9)]

def teens : List (String × Nat) :=
  [("ten", 10), ("eleven", 11), ("twelve", 12), ("thirteen", 13), ("fourteen", 14), ("fifteen", 15), ("sixteen", 16),
    ("seventeen", 17), ("eighteen", 18), ("nineteen", 19)]

def multiplesOfTen : List (String × Nat) :=
  [("twenty", 20), ("thirty", 30), ("forty", 40), ("fifty", 50), ("sixty", 60), ("seventy", 70), ("eighty", 80),
    ("ninety", 90)]

def scales : List (String × Nat) :=
  [("thousand", 10 ^ 3), ("million", 10 ^ 6), ("billion", 10 ^ 9), ("trillion", 10 ^ 12), ("quadrillion", 10 ^ 15),
    ("quintillion", 10 ^ 18)]

/-- What a word is worth.  A hyphen joins a multiple of ten and a unit. -/
def value? (w : String) : Option Nat :=
  match (Text.splitAt '-' w.toList).map String.ofList with
  | [w] => (("zero", 0) :: units ++ teens ++ multiplesOfTen).lookup w
  | [a, b] => do return (← multiplesOfTen.lookup a) + (← units.lookup b)
  | _ => none

/-- What stands before the name of a scale, with the scale; what stands behind the last one has the scale of one. -/
structure Group where
  value : Nat
  scale : Nat
deriving DecidableEq

/-- The groups that words are read as, after words that are worth something already, if there are any. -/
def groups? : Option Nat → List String → Option (List Group)
  | none, [] => some []
  | some v, [] => some [⟨v, 1⟩]
  | before, w :: ws =>
    match scales.lookup w with
    | some scale => do
      let v ← before
      return ⟨v, scale⟩ :: (← groups? none ws)
    | none =>
      if w = "hundred" then do groups? (some ((← before) * 100)) ws
      else do groups? (some (before.getD 0 + (← value? w))) ws

/-- The groups of a text, whose words are set apart by spaces. -/
def readGroups? (text : String) : Option (List Group) :=
  groups? none ((Text.splitAt ' ' text.toList).map String.ofList)

def total (gs : List Group) : Nat :=
  (gs.map fun g => g.value * g.scale).sum

/-- The number that a text writes in words. -/
def read? (text : String) : Option Nat :=
  (readGroups? text).map total

/-! ## Words -/

/-- The word of a number below a hundred. -/
def word (n : Nat) : String :=
  if n < 20 then ones n else if n % 10 = 0 then tens (n / 10) else tens (n / 10) ++ "-" ++ ones (n % 10)

/-- A word that is worth something, and neither `hundred` nor the name of a scale. -/
structure IsWord (w : String) (n : Nat) : Prop where
  value : value? w = some n
  scale : scales.lookup w = none
  hundred : w ≠ "hundred"
  space : ' ' ∉ w.toList

theorem isWord_word {n : Nat} (h : n < 100) : IsWord (word n) n := by
  have hall : ∀ n : Fin 100, value? (word n) = some n.val ∧ scales.lookup (word n) = none ∧ word n ≠ "hundred" ∧
      ' ' ∉ (word n).toList := by decide +kernel
  obtain ⟨value, scale, hundred, space⟩ := hall ⟨n, h⟩
  exact ⟨value, scale, hundred, space⟩

theorem lookup_scaleOf (n : Nat) : scales.lookup (scaleOf n).name = some (scaleOf n).value := by
  unfold scaleOf
  repeat' split
  all_goals decide

theorem space_notMem_scaleOf (n : Nat) : ' ' ∉ (scaleOf n).name.toList := by
  unfold scaleOf
  repeat' split
  all_goals decide

theorem lt_scaleOf {n : Nat} (h : 1000 ≤ n) (h' : n < 10 ^ 21) : n / (scaleOf n).value < 1000 := by
  unfold scaleOf
  repeat' split
  all_goals simp only
  all_goals omega

/-! ## The words of a number -/

theorem words_of_lt_hundred {n : Nat} (h : n < 100) : words n = [word n] := by
  rw [words, word]
  split
  · rfl
  · rfl

theorem words_of_lt_thousand {n : Nat} (h : 100 ≤ n) (h' : n < 1000) :
    words n = word (n / 100) :: "hundred" :: if n % 100 = 0 then [] else [word (n % 100)] := by
  have hdigit : word (n / 100) = ones (n / 100) := if_pos (by omega)
  rw [words, if_neg (show ¬ n < 20 by omega), if_neg (show ¬ n < 100 by omega), if_pos h',
    words_of_lt_hundred (Nat.mod_lt n (by decide)), hdigit]

theorem words_of_thousand_le {n : Nat} (h : 1000 ≤ n) : words n = words (n / (scaleOf n).value)
    ++ (scaleOf n).name :: if n % (scaleOf n).value = 0 then [] else words (n % (scaleOf n).value) := by
  rw [words, if_neg (show ¬ n < 20 by omega), if_neg (show ¬ n < 100 by omega), if_neg (show ¬ n < 1000 by omega)]
  split
  · rfl
  · rfl

/-! ## Reading what is written -/

theorem groups?_word {n : Nat} (h : n < 100) (before : Option Nat) (ws : List String) :
    groups? before (word n :: ws) = groups? (some (before.getD 0 + n)) ws := by
  have hword := isWord_word h
  cases before <;> simp [groups?, hword.value, hword.scale, hword.hundred]

/-- **The words of a number below a thousand make one group.** -/
theorem groups?_words_append {n : Nat} (h : n < 1000) (ws : List String) :
    groups? none (words n ++ ws) = groups? (some n) ws := by
  rcases Nat.lt_or_ge n 100 with hn | hn
  · rw [words_of_lt_hundred hn, List.singleton_append, groups?_word hn, Option.getD_none, Nat.zero_add]
  · -- The digit in front of `hundred` is multiplied, and what follows is added to it.
    have hhundred : scales.lookup "hundred" = none := by decide
    have hhead : groups? none (words n ++ ws)
        = groups? (some (n / 100 * 100)) ((if n % 100 = 0 then [] else [word (n % 100)]) ++ ws) := by
      rw [words_of_lt_thousand hn h, List.cons_append, List.cons_append, groups?_word (by omega), groups?, hhundred,
        Option.getD_none, Nat.zero_add]
      rfl
    rw [hhead]
    split
    · rw [List.nil_append, show n / 100 * 100 = n by omega]
    · rw [List.singleton_append, groups?_word (Nat.mod_lt n (by decide)), Option.getD_some,
        show n / 100 * 100 + n % 100 = n by omega]

theorem groups?_scale (v n : Nat) (ws : List String) :
    groups? (some v) ((scaleOf n).name :: ws) = (groups? none ws).map (⟨v, (scaleOf n).value⟩ :: ·) := by
  rw [groups?, lookup_scaleOf]
  cases groups? none ws <;> rfl

/-- Words that are read as a number: as groups that add up to it, each from one to 999, with scales that go down. -/
structure Spells (ws : List String) (n : Nat) (gs : List Group) : Prop where
  read : groups? none ws = some gs
  total : total gs = n
  descending : gs.Pairwise fun a b => b.scale < a.scale
  values : ∀ g ∈ gs, 1 ≤ g.value ∧ g.value ≤ 999

theorem total_cons (g : Group) (gs : List Group) : Numeral.total (g :: gs) = g.value * g.scale + Numeral.total gs := by
  rw [Numeral.total, List.map_cons, List.sum_cons]
  rfl

theorem le_total : ∀ {gs : List Group}, ∀ g ∈ gs, g.value * g.scale ≤ Numeral.total gs
  | [], _, h => absurd h List.not_mem_nil
  | g' :: gs, g, h => by
    rw [total_cons]
    rcases List.mem_cons.1 h with rfl | h
    · exact Nat.le_add_right _ _
    · exact Nat.le_add_left_of_le (le_total g h)

theorem Spells.scale_le {ws : List String} {n : Nat} {gs : List Group} (h : Spells ws n gs) :
    ∀ g ∈ gs, g.scale ≤ n := by
  intro g hg
  have hle := le_total g hg
  rw [h.total] at hle
  exact Nat.le_trans (Nat.le_mul_of_pos_left _ (h.values g hg).1) hle

theorem spells_nil : Spells [] 0 [] where
  read := rfl
  total := rfl
  descending := List.Pairwise.nil
  values _ hg := absurd hg List.not_mem_nil

theorem spells_of_lt_thousand {n : Nat} (hpos : 0 < n) (h : n < 1000) : Spells (words n) n [⟨n, 1⟩] where
  read := by
    rw [← List.append_nil (words n), groups?_words_append h]
    rfl
  total := by simp [Numeral.total]
  descending := List.pairwise_singleton _ _
  values g hg := by
    rw [List.mem_singleton.1 hg]
    exact ⟨hpos, Nat.le_of_lt_succ h⟩

/-- **The largest scale of a number makes a group in front of what is left.** -/
theorem Spells.lead {n : Nat} {ws : List String} {gs : List Group} (hn : 1000 ≤ n) (hn' : n < 10 ^ 21)
    (h : Spells ws (n % (scaleOf n).value) gs) : Spells (words (n / (scaleOf n).value) ++ (scaleOf n).name :: ws) n
      (⟨n / (scaleOf n).value, (scaleOf n).value⟩ :: gs) := by
  have hscale := (scaleOf n).thousand_le
  have hvalue := lt_scaleOf hn hn'
  constructor
  case read =>
    rw [groups?_words_append hvalue, groups?_scale, h.read]
    rfl
  case total => rw [total_cons, h.total, Nat.div_add_mod']
  case descending =>
    -- The groups behind are those of a remainder, which is less than this scale.
    refine List.pairwise_cons.2 ⟨fun g hg => ?_, h.descending⟩
    exact Nat.lt_of_le_of_lt (h.scale_le g hg) (Nat.mod_lt n (by omega))
  case values =>
    refine List.forall_mem_cons.2 ⟨⟨?_, Nat.le_of_lt_succ hvalue⟩, h.values⟩
    exact Nat.div_pos (scaleOf_le hn) (by omega)

theorem exists_spells (n : Nat) (hpos : 0 < n) (h : n < 10 ^ 21) : ∃ gs, Spells (words n) n gs := by
  induction n using Nat.strongRecOn with
  | ind n ih =>
    rcases Nat.lt_or_ge n 1000 with hn | hn
    · exact ⟨_, spells_of_lt_thousand hpos hn⟩
    · have hlt : n % (scaleOf n).value < n :=
        Nat.lt_of_lt_of_le (Nat.mod_lt n (by have := (scaleOf n).thousand_le; omega)) (scaleOf_le hn)
      rw [words_of_thousand_le hn]
      split
      · rename_i hzero
        exact ⟨_, (hzero ▸ spells_nil).lead hn h⟩
      · rename_i hrest
        obtain ⟨gs, hgs⟩ := ih _ hlt (Nat.pos_of_ne_zero hrest) (Nat.lt_trans hlt h)
        exact ⟨_, hgs.lead hn h⟩

/-! ## Whole texts -/

theorem words_ne_nil (n : Nat) : words n ≠ [] := by
  rcases Nat.lt_or_ge n 1000 with hn | hn
  · rcases Nat.lt_or_ge n 100 with hn' | hn'
    · rw [words_of_lt_hundred hn']
      exact List.cons_ne_nil _ _
    · rw [words_of_lt_thousand hn' hn]
      exact List.cons_ne_nil _ _
  · rw [words_of_thousand_le hn]
    exact List.append_ne_nil_of_right_ne_nil _ (List.cons_ne_nil _ _)

theorem space_notMem_words (n : Nat) : ∀ w ∈ words n, ' ' ∉ w.toList := by
  induction n using Nat.strongRecOn with
  | ind n ih =>
    rcases Nat.lt_or_ge n 1000 with hn | hn
    · rcases Nat.lt_or_ge n 100 with hn' | hn'
      · rw [words_of_lt_hundred hn', List.forall_mem_singleton]
        exact (isWord_word hn').space
      · rw [words_of_lt_thousand hn' hn, List.forall_mem_cons, List.forall_mem_cons]
        refine ⟨(isWord_word (by omega)).space, by decide, ?_⟩
        split
        · exact fun _ h => absurd h List.not_mem_nil
        · rw [List.forall_mem_singleton]
          exact (isWord_word (Nat.mod_lt n (by decide))).space
    · have hscale := (scaleOf n).thousand_le
      have hle := scaleOf_le hn
      rw [words_of_thousand_le hn, List.forall_mem_append, List.forall_mem_cons]
      refine ⟨ih _ (Nat.div_lt_self (by omega) (by omega)), space_notMem_scaleOf n, ?_⟩
      split
      · exact fun _ h => absurd h List.not_mem_nil
      · exact ih _ (Nat.lt_of_lt_of_le (Nat.mod_lt n (by omega)) hle)

/-- The words of a number are those that its text is cut into. -/
theorem readGroups?_spell (n : Nat) : readGroups? (spell n) = groups? none (words n) := by
  have hcut : Text.splitAt ' ' (spell n).toList = (words n).map String.toList := by
    rw [spell, String.toList_intercalate]
    refine Text.splitAt_intercalate (by simpa using words_ne_nil n) fun cs hcs => ?_
    obtain ⟨w, hw, rfl⟩ := List.mem_map.1 hcs
    exact space_notMem_words n w hw
  have hwords : (words n).map (String.ofList ∘ String.toList) = words n :=
    (List.map_congr_left fun _ _ => String.ofList_toList).trans (List.map_id _)
  rw [readGroups?, hcut, List.map_map, hwords]

theorem exists_readGroups?_spell {n : Nat} (h : n < 10 ^ 21) : ∃ gs, readGroups? (spell n) = some gs ∧ total gs = n ∧
    gs.Pairwise (fun a b => b.scale < a.scale) ∧
    ∀ g ∈ gs, (1 ≤ g.value ∧ g.value ≤ 999) ∨ (n = 0 ∧ g = ⟨0, 1⟩) := by
  rw [readGroups?_spell]
  rcases Nat.eq_zero_or_pos n with rfl | hpos
  · -- Zero is the one number that is spelled by a word worth nothing.
    refine ⟨[⟨0, 1⟩], ?_, rfl, List.pairwise_singleton _ _, fun g hg => .inr ⟨rfl, List.mem_singleton.1 hg⟩⟩
    rw [words_of_lt_hundred (by decide), groups?_word (by decide)]
    rfl
  · obtain ⟨gs, hgs⟩ := exists_spells n hpos h
    exact ⟨gs, hgs.read, hgs.total, hgs.descending, fun g hg => .inl (hgs.values g hg)⟩

theorem read?_spell {n : Nat} (h : n < 10 ^ 21) : read? (spell n) = some n := by
  obtain ⟨gs, hgs, htotal, -⟩ := exists_readGroups?_spell h
  rw [read?, hgs, Option.map_some, htotal]

/-- **A number in words is read as the number.**  Every number of 64 bits is what its text is read as, so no two numbers
have the same text.  The text is read in groups with scales that go down, each worth from one to 999; only zero, which
has no scale, is a group that is worth nothing. -/
theorem read_spell : (∀ n : UInt64, read? (spell n.toNat) = some n.toNat ∧ ∃ gs, readGroups? (spell n.toNat) = some gs ∧
      gs.Pairwise (fun a b => b.scale < a.scale) ∧
      ∀ g ∈ gs, (1 ≤ g.value ∧ g.value ≤ 999) ∨ (n = 0 ∧ g = ⟨0, 1⟩)) ∧
    Function.Injective fun n : UInt64 => spell n.toNat := by
  have hbound (n : UInt64) : n.toNat < 10 ^ 21 := Nat.lt_trans n.toNat_lt (by decide)
  have hread (n : UInt64) : read? (spell n.toNat) = some n.toNat := read?_spell (hbound n)
  refine ⟨fun n => ⟨hread n, ?_⟩, fun m n h => UInt64.toNat_inj.1 (Option.some.inj ?_)⟩
  · obtain ⟨gs, hgs, -, hdescending, hvalues⟩ := exists_readGroups?_spell (hbound n)
    refine ⟨gs, hgs, hdescending, fun g hg => (hvalues g hg).imp_right fun hzero => ?_⟩
    exact ⟨UInt64.toNat_inj.1 hzero.1, hzero.2⟩
  · rw [← hread m, ← hread n]
    exact congrArg read? h

/-- A scale multiplies its own group only, and what is written behind the last scale stands for itself. -/
example : readGroups? "one million two hundred thirty-four thousand five"
    = some [⟨1, 10 ^ 6⟩, ⟨234, 10 ^ 3⟩, ⟨5, 1⟩] := by decide +kernel

end Numeral
end Bookbinder
