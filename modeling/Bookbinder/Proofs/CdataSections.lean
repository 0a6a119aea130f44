import Bookbinder.Proofs.XmlRestoring
import Bookbinder.Xml.CharacterData
/-!
# CDATA sections of cleaned text

A text is wrapped into CDATA sections by splitting its terminators, and what XML does not allow is taken out of the
whole page afterwards.  That leaves sections of the cleaned text just if cleaning brings no terminator together that did
not stand in the text (`Sealed`, `cleanText_wrapInCdata`).  Terminators are counted and split from left to right, given
how many brackets stand before.
-/
namespace Bookbinder

namespace Text

theorem after?_append {p cs r : List Char} (h : after? p cs = some r) (rest : List Char) :
    after? p (cs ++ rest) = some (r ++ rest) := by
  rw [after?_eq_some h, List.append_assoc, after?_self_append]

end Text

namespace Xml

open Text (after? cut?)

/-! ## Terminators -/

/-- How often a text would end a CDATA section. -/
def terminators : List Char → Nat
  | [] => 0
  | c :: cs => (if (after? "]]>".toList (c :: cs)).isSome then 1 else 0) + terminators cs

/-- How many brackets a text ends with, of which two count, with one more character. -/
def brackets (k : Nat) (c : Char) : Nat :=
  if c = ']' then min (k + 1) 2 else 0

/-- How often a text ends a CDATA section after brackets. -/
def terminatorsFrom (k : Nat) : List Char → Nat
  | [] => 0
  | c :: cs => (if k = 2 ∧ c = '>' then 1 else 0) + terminatorsFrom (brackets k c) cs

/-- A text after brackets, with its terminators spread over two sections. -/
def splitFrom (k : Nat) : List Char → List Char
  | [] => []
  | c :: cs =>
    if k = 2 ∧ c = '>' then "]]><![CDATA[>".toList ++ splitFrom 0 cs else c :: splitFrom (brackets k c) cs

theorem brackets_le (k : Nat) (c : Char) : brackets k c ≤ 2 := by
  unfold brackets
  split <;> omega

theorem brackets_mono {k l : Nat} (h : k ≤ l) (c : Char) : brackets k c ≤ brackets l c := by
  unfold brackets
  split <;> omega

theorem terminators_replicate_append {k : Nat} (hk : k ≤ 2) (c : Char) (cs : List Char) :
    terminators (List.replicate k ']' ++ c :: cs) =
      (if k = 2 ∧ c = '>' then 1 else 0) + terminators (List.replicate (brackets k c) ']' ++ cs) := by
  rcases (by omega : k = 0 ∨ k = 1 ∨ k = 2) with rfl | rfl | rfl
  all_goals
    by_cases hb : c = ']'
    · subst hb
      simp [brackets, terminators, after?]
    · by_cases he : c = '>'
      · simp [brackets, terminators, after?, he]
      · simp [brackets, terminators, after?, hb, he, Ne.symm hb, Ne.symm he]

/-- **Terminators can be counted from left to right.** -/
theorem terminatorsFrom_eq {k : Nat} (hk : k ≤ 2) (cs : List Char) :
    terminatorsFrom k cs = terminators (List.replicate k ']' ++ cs) := by
  induction cs generalizing k with
  | nil =>
    rcases (by omega : k = 0 ∨ k = 1 ∨ k = 2) with rfl | rfl | rfl <;> rfl
  | cons c cs ih => rw [terminatorsFrom, ih (brackets_le k c), terminators_replicate_append hk]

theorem terminators_eq (cs : List Char) : terminators cs = terminatorsFrom 0 cs :=
  (terminatorsFrom_eq (Nat.zero_le 2) cs).symm

theorem terminatorsFrom_append (k : Nat) (cs ds : List Char) :
    terminatorsFrom k (cs ++ ds) = terminatorsFrom k cs + terminatorsFrom (cs.foldl brackets k) ds := by
  induction cs generalizing k with
  | nil => rw [List.nil_append, terminatorsFrom, Nat.zero_add, List.foldl_nil]
  | cons c cs ih => rw [List.cons_append, terminatorsFrom, terminatorsFrom, ih, List.foldl_cons, Nat.add_assoc]

theorem splitFrom_append (k : Nat) (cs ds : List Char) (h : terminatorsFrom k cs = 0) :
    splitFrom k (cs ++ ds) = cs ++ splitFrom (cs.foldl brackets k) ds := by
  induction cs generalizing k with
  | nil => rfl
  | cons c cs ih =>
    rw [terminatorsFrom, Nat.add_eq_zero_iff] at h
    obtain ⟨hc, hcs⟩ := h
    have hno : ¬ (k = 2 ∧ c = '>') := fun h => by simp [h] at hc
    rw [List.cons_append, splitFrom, if_neg hno, ih _ hcs, List.foldl_cons, List.cons_append]

theorem brackets_brackets {k : Nat} : brackets (brackets k ']') ']' = 2 := by
  simp only [brackets, if_pos]
  omega

/-! ## Splitting -/

theorem terminators_of_cut? {cs a r : List Char} (h : cut? "]]>".toList cs = some (a, r)) : terminators a = 0 := by
  induction cs generalizing a with
  | nil => cases h
  | cons c cs ih =>
    rw [cut?] at h
    split at h
    · cases h
      rfl
    · rename_i hnone
      split at h
      · rename_i a' r' hcut
        cases h
        have hcs := Text.cut?_eq_some hcut
        have ha : after? "]]>".toList (c :: a') = none := by
          cases ha : after? "]]>".toList (c :: a') with
          | none => rfl
          | some x =>
            rw [hcs, List.append_assoc, ← List.cons_append, Text.after?_append ha] at hnone
            cases hnone
        rw [terminators, ha, ih hcut]
        rfl
      · cases h

theorem terminators_of_not_cut? {cs : List Char} (h : cut? "]]>".toList cs = none) : terminators cs = 0 := by
  induction cs with
  | nil => rfl
  | cons c cs ih =>
    rw [cut?] at h
    split at h
    · cases h
    · rename_i hnone
      split at h
      · cases h
      · rename_i hcut
        rw [terminators, hnone, ih hcut]
        rfl

theorem terminatorsFrom_zero {cs : List Char} (h : terminators cs = 0) : terminatorsFrom 0 cs = 0 :=
  (terminators_eq cs).symm.trans h

/-- **Terminators can be split from left to right.** -/
theorem splitTerminators_eq (cs : List Char) : splitTerminators cs = splitFrom 0 cs := by
  unfold splitTerminators
  fun_induction Text.replaceAll "]]>".toList "]]]]><![CDATA[>".toList cs with
  | case1 => contradiction
  | case2 cs _ hcut =>
    have hcs := splitFrom_append 0 cs [] (terminatorsFrom_zero (terminators_of_not_cut? hcut))
    rw [List.append_nil] at hcs
    exact (hcs.trans (List.append_nil cs)).symm
  | case3 cs _ a r hcut _ ih =>
    rw [Text.cut?_eq_some hcut, List.append_assoc a "]]>".toList,
      splitFrom_append 0 a _ (terminatorsFrom_zero (terminators_of_cut? hcut)), ih]
    -- The terminator's own brackets count as two, however many stand before them.
    have hthere (k : Nat) : splitFrom k ("]]>".toList ++ r) = "]]]]><![CDATA[>".toList ++ splitFrom 0 r := by
      have hfirst : ¬ (k = 2 ∧ ']' = '>') := fun h => absurd h.2 (by decide)
      have hsecond : ¬ (brackets k ']' = 2 ∧ ']' = '>') := fun h => absurd h.2 (by decide)
      change splitFrom k (']' :: ']' :: '>' :: r) = _
      rw [splitFrom, if_neg hfirst, splitFrom, if_neg hsecond, brackets_brackets, splitFrom, if_pos ⟨rfl, rfl⟩]
      rfl
    rw [hthere, List.append_assoc]

theorem terminatorsFrom_splitFrom (k : Nat) (cs : List Char) :
    terminatorsFrom k (splitFrom k cs) = terminatorsFrom k cs := by
  induction cs generalizing k with
  | nil => rfl
  | cons c cs ih =>
    rw [splitFrom]
    split
    · rename_i h
      obtain ⟨rfl, rfl⟩ := h
      rw [terminatorsFrom_append, terminatorsFrom]
      exact congrArg₂ (· + ·) rfl (ih 0)
    · rw [terminatorsFrom, ih, terminatorsFrom]

/-! ## Cleaning -/

/-- The characters of a cleaned text. -/
def cleanChars (cs : List Char) : List Char :=
  cs.filter isLegal

theorem cleanChars_of_legal {c : Char} (h : isLegal c = true) (cs : List Char) :
    cleanChars (c :: cs) = c :: cleanChars cs :=
  List.filter_cons_of_pos h

theorem cleanChars_of_illegal {c : Char} (h : ¬ isLegal c = true) (cs : List Char) :
    cleanChars (c :: cs) = cleanChars cs :=
  List.filter_cons_of_neg h

theorem cleanChars_append (cs ds : List Char) : cleanChars (cs ++ ds) = cleanChars cs ++ cleanChars ds :=
  List.filter_append _ _

theorem toList_cleanText (s : String) : (cleanText s).toList = cleanChars s.toList :=
  String.toList_ofList

theorem cleanText_append (s t : String) : cleanText (s ++ t) = cleanText s ++ cleanText t := by
  simp [cleanText]

theorem eq_of_not_isLegal {c d : Char} (hc : isLegal c = false) (hd : isLegal d = true) : c ≠ d :=
  fun h => by rw [h, hd] at hc; cases hc

/-- A character that is cleaned away is neither a bracket nor the end of a terminator. -/
theorem brackets_of_not_isLegal {c : Char} (h : isLegal c = false) (k : Nat) : brackets k c = 0 :=
  if_neg (eq_of_not_isLegal h (by decide))

/-- Cleaning loses no terminator. -/
theorem terminatorsFrom_le_clean {k l : Nat} (h : k ≤ l) (hl : l ≤ 2) (cs : List Char) :
    terminatorsFrom k cs ≤ terminatorsFrom l (cleanChars cs) := by
  induction cs generalizing k l with
  | nil => exact Nat.zero_le _
  | cons c cs ih =>
    by_cases hc : isLegal c = true
    · rw [cleanChars_of_legal hc, terminatorsFrom, terminatorsFrom]
      have hrest := ih (brackets_mono h c) (brackets_le l c)
      have hhere : (if k = 2 ∧ c = '>' then 1 else 0) ≤ if l = 2 ∧ c = '>' then 1 else 0 := by
        split
        · rename_i hk
          rw [if_pos ⟨by omega, hk.2⟩]
        · exact Nat.zero_le _
      exact Nat.add_le_add hhere hrest
    · have hno : isLegal c = false := by simpa using hc
      have hend : ¬ (k = 2 ∧ c = '>') := fun hk => eq_of_not_isLegal hno (by decide) hk.2
      rw [cleanChars_of_illegal hc, terminatorsFrom, if_neg hend, brackets_of_not_isLegal hno, Nat.zero_add]
      exact ih (Nat.zero_le l) hl

/-- Where cleaning brings no terminator together, it makes no difference whether a text is split or cleaned first. -/
theorem clean_splitFrom {k l : Nat} (h : k ≤ l) (hl : l ≤ 2) {cs : List Char}
    (hsame : terminatorsFrom l (cleanChars cs) = terminatorsFrom k cs) :
    cleanChars (splitFrom k cs) = splitFrom l (cleanChars cs) := by
  induction cs generalizing k l with
  | nil => rfl
  | cons c cs ih =>
    by_cases hc : isLegal c = true
    · rw [cleanChars_of_legal hc, terminatorsFrom, terminatorsFrom] at hsame
      rw [splitFrom]
      have hrest := terminatorsFrom_le_clean (brackets_mono h c) (brackets_le l c) cs
      by_cases hk : k = 2 ∧ c = '>'
      · have hl : l = 2 ∧ c = '>' := ⟨by omega, hk.2⟩
        rw [if_pos hk, cleanChars_append, cleanChars_of_legal hc, splitFrom, if_pos hl]
        obtain ⟨rfl, rfl⟩ := hk
        obtain ⟨rfl, -⟩ := hl
        exact congrArg₂ (· ++ ·) (by decide) (ih (Nat.le_refl 0) (by omega) (Nat.add_left_cancel hsame))
      · rw [if_neg hk, Nat.zero_add] at hsame
        have hl : ¬ (l = 2 ∧ c = '>') := fun hl => by
          rw [if_pos hl] at hsame
          change 1 + terminatorsFrom _ (cleanChars cs) = _ at hsame
          omega
        rw [if_neg hl, Nat.zero_add] at hsame
        rw [if_neg hk, cleanChars_of_legal hc, cleanChars_of_legal hc, splitFrom, if_neg hl]
        exact congrArg (c :: ·) (ih (brackets_mono h c) (brackets_le l c) hsame)
    · have hno : isLegal c = false := by simpa using hc
      have hend : ¬ (k = 2 ∧ c = '>') := fun hk => eq_of_not_isLegal hno (by decide) hk.2
      rw [cleanChars_of_illegal hc, terminatorsFrom, if_neg hend, brackets_of_not_isLegal hno,
        Nat.zero_add] at hsame
      rw [splitFrom, if_neg hend, cleanChars_of_illegal hc, cleanChars_of_illegal hc, brackets_of_not_isLegal hno]
      exact ih (Nat.zero_le l) hl hsame

/-- Splitting before cleaning leaves as many terminators as cleaning alone. -/
theorem terminatorsFrom_clean_splitFrom {k l : Nat} (h : k ≤ l) (hl : l ≤ 2) (cs : List Char) :
    terminatorsFrom l (cleanChars (splitFrom k cs)) = terminatorsFrom l (cleanChars cs) := by
  induction cs generalizing k l with
  | nil => rfl
  | cons c cs ih =>
    rw [splitFrom]
    by_cases hk : k = 2 ∧ c = '>'
    · obtain ⟨rfl, rfl⟩ := hk
      have hl : l = 2 := by omega
      subst hl
      have hthen : (cleanChars "]]><![CDATA[>".toList).foldl brackets 2 = 0 := by decide
      rw [if_pos ⟨rfl, rfl⟩, cleanChars_append, terminatorsFrom_append, hthen, ih (Nat.le_refl 0) (by omega),
        cleanChars_of_legal (by decide), terminatorsFrom]
      rfl
    · rw [if_neg hk]
      by_cases hc : isLegal c = true
      · rw [cleanChars_of_legal hc, cleanChars_of_legal hc, terminatorsFrom, terminatorsFrom]
        exact congrArg _ (ih (brackets_mono h c) (brackets_le l c))
      · have hno : isLegal c = false := by simpa using hc
        rw [cleanChars_of_illegal hc, cleanChars_of_illegal hc, brackets_of_not_isLegal hno]
        exact ih (Nat.zero_le l) hl

/-- What cleaning leaves of a split text, by its terminators. -/
theorem length_clean_splitFrom (k : Nat) (cs : List Char) :
    (cleanChars (splitFrom k cs)).length = (cleanChars cs).length + 12 * terminatorsFrom k cs := by
  induction cs generalizing k with
  | nil => rfl
  | cons c cs ih =>
    rw [splitFrom, terminatorsFrom]
    split
    · rename_i h
      obtain ⟨rfl, rfl⟩ := h
      have hlength : (cleanChars "]]><![CDATA[>".toList).length = 13 := by decide
      rw [cleanChars_append, List.length_append, hlength, ih, cleanChars_of_legal (by decide), List.length_cons]
      rw [show brackets 2 '>' = 0 from rfl]
      omega
    · by_cases hc : isLegal c = true
      · rw [cleanChars_of_legal hc, cleanChars_of_legal hc, List.length_cons, List.length_cons, ih]
        omega
      · rw [cleanChars_of_illegal hc, cleanChars_of_illegal hc, ih, Nat.zero_add]

/-! ## Sealed text -/

/-- A text in which cleaning brings no terminator together: `]]>` with an illegal character within is none before, and
is one afterwards. -/
def Sealed (s : String) : Prop :=
  terminators (cleanText s).toList = terminators s.toList

instance (s : String) : Decidable (Sealed s) :=
  inferInstanceAs (Decidable (_ = _))

theorem sealed_iff {s : String} : Sealed s ↔ terminatorsFrom 0 (cleanChars s.toList) = terminatorsFrom 0 s.toList := by
  rw [Sealed, terminators_eq, terminators_eq, toList_cleanText]

theorem toList_wrapInCdata (s : String) :
    (wrapInCdata s).toList = "<![CDATA[".toList ++ (splitFrom 0 s.toList ++ "]]>".toList) := by
  have hsplit : (String.ofList (splitTerminators s.toList)).toList = splitFrom 0 s.toList :=
    String.toList_ofList.trans (splitTerminators_eq s.toList)
  rw [wrapInCdata, String.toList_append, String.toList_append, List.append_assoc, hsplit]

/-- **Sealed text is cleaned in its sections as by itself.** -/
theorem cleanText_wrapInCdata {s : String} (h : Sealed s) : cleanText (wrapInCdata s) = wrapInCdata (cleanText s) := by
  rw [← String.toList_inj, toList_cleanText, toList_wrapInCdata, toList_wrapInCdata, toList_cleanText,
    cleanChars_append, cleanChars_append]
  exact congrArg₂ (· ++ ·) (by decide)
    (congrArg₂ (· ++ ·) (clean_splitFrom (Nat.le_refl 0) (by omega) (sealed_iff.1 h)) (by decide))

/-- Where no terminator reaches from one text into another, they are sealed together just if each is. -/
theorem sealed_append_iff {s t : String}
    (hraw : terminatorsFrom (s.toList.foldl brackets 0) t.toList = terminatorsFrom 0 t.toList)
    (hclean : terminatorsFrom ((cleanChars s.toList).foldl brackets 0) (cleanChars t.toList)
      = terminatorsFrom 0 (cleanChars t.toList)) : Sealed (s ++ t) ↔ Sealed s ∧ Sealed t := by
  rw [sealed_iff, sealed_iff, sealed_iff, String.toList_append, cleanChars_append, terminatorsFrom_append,
    terminatorsFrom_append, hraw, hclean]
  have hs := terminatorsFrom_le_clean (Nat.le_refl 0) (by omega) s.toList
  have ht := terminatorsFrom_le_clean (Nat.le_refl 0) (by omega) t.toList
  omega

theorem sealed_append_of_last {s t : String} {c : Char} (hlast : s.toList.getLast? = some c) (hc : c ≠ ']')
    (hlegal : isLegal c = true) : Sealed (s ++ t) ↔ Sealed s ∧ Sealed t := by
  obtain ⟨cs, hcs⟩ := List.getLast?_eq_some_iff.1 hlast
  have hraw : s.toList.foldl brackets 0 = 0 := by
    rw [hcs, List.foldl_append]
    exact if_neg hc
  have hclean : (cleanChars s.toList).foldl brackets 0 = 0 := by
    rw [hcs, cleanChars_append, cleanChars_of_legal hlegal, List.foldl_append]
    exact if_neg hc
  exact sealed_append_iff (by rw [hraw]) (by rw [hclean])

theorem sealed_append_of_head {s t : String} {cs : List Char} (ht : t.toList = '<' :: cs) :
    Sealed (s ++ t) ↔ Sealed s ∧ Sealed t := by
  have hmarkup (k : Nat) (ds : List Char) : terminatorsFrom k ('<' :: ds) = terminatorsFrom 0 ('<' :: ds) := by
    have hno (k : Nat) : ¬ (k = 2 ∧ '<' = '>') := fun h => absurd h.2 (by decide)
    have hb (k : Nat) : brackets k '<' = 0 := if_neg (by decide)
    rw [terminatorsFrom, terminatorsFrom, if_neg (hno k), if_neg (hno 0), hb, hb]
  refine sealed_append_iff ?_ ?_
  · rw [ht, hmarkup]
  · rw [ht, cleanChars_of_legal (by decide), hmarkup]

theorem terminatorsFrom_terminator (k : Nat) : terminatorsFrom k "]]>".toList = 1 := by
  have hbracket : ¬ ((']' : Char) = '>') := by decide
  change terminatorsFrom k [']', ']', '>'] = 1
  rw [terminatorsFrom, if_neg fun h => hbracket h.2, terminatorsFrom, if_neg fun h => hbracket h.2, brackets_brackets,
    terminatorsFrom, if_pos ⟨rfl, rfl⟩]
  rfl

/-- **Sections are sealed only around sealed text.** -/
theorem sealed_of_wrapInCdata {s : String} (h : Sealed (wrapInCdata s)) : Sealed s := by
  have hsections : wrapInCdata s = "<![CDATA[" ++ String.ofList (splitFrom 0 s.toList ++ "]]>".toList) := by
    rw [← String.toList_inj, toList_wrapInCdata, String.toList_append]
    exact congrArg _ String.toList_ofList.symm
  have hclean : cleanChars "]]>".toList = "]]>".toList := by decide
  obtain ⟨-, hsplit⟩ := (sealed_append_of_last (c := '[') rfl (by decide) (by decide)).1 (hsections ▸ h)
  have hsame := sealed_iff.1 hsplit
  rw [String.toList_ofList, cleanChars_append, hclean, terminatorsFrom_append, terminatorsFrom_append,
    terminatorsFrom_terminator, terminatorsFrom_terminator, terminatorsFrom_clean_splitFrom (Nat.le_refl 0) (by omega),
    terminatorsFrom_splitFrom] at hsame
  exact sealed_iff.2 (Nat.add_right_cancel hsame)

end Xml
end Bookbinder
