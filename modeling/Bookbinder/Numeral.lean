/-!
# English numerals

A number in English words: ones, tens joined to ones by a hyphen, hundreds, and groups of a thousand named by their
scale.  `words` lists the words from left to right and `spell` joins them with spaces.
-/
namespace Bookbinder
namespace Numeral

/-- The word of a number below twenty. -/
def ones : Nat → String
  | 0 => "zero" | 1 => "one" | 2 => "two" | 3 => "three" | 4 => "four"
  | 5 => "five" | 6 => "six" | 7 => "seven" | 8 => "eight" | 9 => "nine"
  | 10 => "ten" | 11 => "eleven" | 12 => "twelve" | 13 => "thirteen" | 14 => "fourteen"
  | 15 => "fifteen" | 16 => "sixteen" | 17 => "seventeen" | 18 => "eighteen" | _ => "nineteen"

/-- The word of a multiple of ten, from twenty to ninety. -/
def tens : Nat → String
  | 2 => "twenty" | 3 => "thirty" | 4 => "forty" | 5 => "fifty"
  | 6 => "sixty" | 7 => "seventy" | 8 => "eighty" | _ => "ninety"

/-- A named power of a thousand. -/
structure Scale where
  value : Nat
  name : String
  thousand_le : 1000 ≤ value

/-- The largest named scale that a number reaches; below a million it is the thousand. -/
def scaleOf (n : Nat) : Scale :=
  if n ≥ 1_000_000_000_000_000_000 then ⟨1_000_000_000_000_000_000, "quintillion", by decide⟩
  else if n ≥ 1_000_000_000_000_000 then ⟨1_000_000_000_000_000, "quadrillion", by decide⟩
  else if n ≥ 1_000_000_000_000 then ⟨1_000_000_000_000, "trillion", by decide⟩
  else if n ≥ 1_000_000_000 then ⟨1_000_000_000, "billion", by decide⟩
  else if n ≥ 1_000_000 then ⟨1_000_000, "million", by decide⟩
  else ⟨1_000, "thousand", by decide⟩

theorem scaleOf_le {n : Nat} (h : 1000 ≤ n) : (scaleOf n).value ≤ n := by
  unfold scaleOf
  repeat' split
  all_goals simp only
  all_goals omega

/-- The words of a number, from left to right.  A group of zero is not named. -/
def words (n : Nat) : List String :=
  if n < 20 then [ones n]
  else if n < 100 then
    [if n % 10 = 0 then tens (n / 10) else tens (n / 10) ++ "-" ++ ones (n % 10)]
  else if n < 1000 then
    ones (n / 100) :: "hundred" :: (if n % 100 = 0 then [] else words (n % 100))
  else if n % (scaleOf n).value = 0 then
    words (n / (scaleOf n).value) ++ [(scaleOf n).name]
  else
    words (n / (scaleOf n).value) ++ (scaleOf n).name :: words (n % (scaleOf n).value)
termination_by n
decreasing_by
  · omega
  all_goals
    have h := (scaleOf n).thousand_le
    have h' := scaleOf_le (n := n) (by omega)
  · exact Nat.div_lt_self (by omega) (by omega)
  · exact Nat.div_lt_self (by omega) (by omega)
  · exact Nat.lt_of_lt_of_le (Nat.mod_lt _ (by omega)) h'

/-- The number in words, as in `one hundred twenty-one`. -/
def spell (n : Nat) : String :=
  " ".intercalate (words n)

end Numeral
end Bookbinder
