import Bookbinder.Proofs.DtdTexts
import Bookbinder.Proofs.FilePaths
import Bookbinder.Proofs.TrimmedText
import Mathlib
/-!
# The slugs of titles

A slug holds slug characters only, begins with a letter or an underscore and has no two underscores in a row
(`Slug.IsSlug`).  Each step of `Slug.chars` is a lemma on how its result begins, so that what comes out begins as it
should: a number in words begins with a letter (`Slug.begins_digitWords`), and escaping and squeezing keep the first
character.  Slugs are the slugs of all titles, and just the texts that are their own slugs (`Slug.ofTitle_retraction`).
-/
namespace Bookbinder

/-- A value that the id of an element may have: a name without colons. -/
def Xml.IsId (s : String) : Prop :=
  ∃ n : Xml.Name, s = n.text ∧ ':' ∉ n.chars

namespace Slug

/-- A character that a slug may begin with. -/
def IsStart (c : Char) : Prop :=
  c.isAlpha = true ∨ c = '_'

/-- A text that may be a slug: slug characters, the first of them a letter or an underscore, and no two underscores in a
row.  The empty text is one. -/
structure IsSlug (s : String) : Prop where
  chars : ∀ c ∈ s.toList, isSlugChar c = true
  start : ∀ c ∈ s.toList.head?, IsStart c
  apart : ¬ ['_', '_'] <:+: s.toList

/-! ## Numbers in words -/

/-- Whether a text begins with a letter. -/
def Begins (s : String) : Prop :=
  s.toList.head?.any Char.isAlpha = true

instance (s : String) : Decidable (Begins s) :=
  inferInstanceAs (Decidable (_ = true))

theorem begins_iff {s : String} : Begins s ↔ ∃ c ∈ s.toList.head?, c.isAlpha = true :=
  Option.any_eq_true _ _

theorem Begins.append {s : String} (h : Begins s) (t : String) : Begins (s ++ t) := by
  obtain ⟨c, hc, halpha⟩ := begins_iff.1 h
  refine begins_iff.2 ⟨c, ?_, halpha⟩
  rw [String.toList_append]
  exact List.mem_head?_append_of_mem_head? hc

theorem begins_ones (n : Nat) : Begins (Numeral.ones n) := by
  unfold Numeral.ones
  split <;> decide

theorem begins_tens (n : Nat) : Begins (Numeral.tens n) := by
  unfold Numeral.tens
  split <;> decide

theorem begins_intercalate {sep : String} : ∀ {ws : List String}, (∃ w ∈ ws.head?, Begins w) →
    Begins (sep.intercalate ws)
  | [], ⟨_, hw, _⟩ => by cases hw
  | [w], ⟨_, hw, h⟩ => by
    cases hw
    exact h
  | w :: w' :: ws, ⟨_, hw, h⟩ => by
    cases hw
    rw [String.intercalate_cons_cons, String.append_assoc]
    exact h.append _

theorem begins_words (n : Nat) : ∃ w ∈ (Numeral.words n).head?, Begins w := by
  fun_induction Numeral.words n with
  | case1 n => exact ⟨_, rfl, begins_ones n⟩
  | case2 n =>
    refine ⟨_, rfl, ?_⟩
    split
    · exact begins_tens _
    · exact ((begins_tens _).append _).append _
  | case3 n => exact ⟨_, rfl, begins_ones _⟩
  | case4 n _ _ _ _ ih => exact ih.imp fun w h => ⟨List.mem_head?_append_of_mem_head? h.1, h.2⟩
  | case5 n _ _ _ _ ih => exact ih.imp fun w h => ⟨List.mem_head?_append_of_mem_head? h.1, h.2⟩

/-- **A run of digits in words begins with a letter**, be it spelled as a number or digit by digit. -/
theorem begins_digitWords {ds : List Char} (h : ds ≠ []) : Begins (digitWords ds) := by
  unfold digitWords
  dsimp only
  split
  · exact begins_intercalate (begins_words _)
  · obtain ⟨d, ds, rfl⟩ := List.exists_cons_of_ne_nil h
    exact begins_intercalate ⟨_, rfl, begins_ones _⟩

/-! ## Steps -/

theorem IsStart.isSlugChar {c : Char} (h : IsStart c) : isSlugChar c = true := by
  rcases h with h | rfl
  · simp [Slug.isSlugChar, Char.isAlphanum, h]
  · decide

theorem IsStart.isWordChar {c : Char} (h : IsStart c) : isWordChar c = true := by
  rcases h with h | rfl
  · simp [Slug.isWordChar, Char.isAlphanum, h]
  · decide

theorem IsStart.not_isDigit {c : Char} (h : IsStart c) : c.isDigit = false := by
  rw [Bool.eq_false_iff]
  intro hdigit
  have hcode := Text.toNat_of_isDigit hdigit
  rcases h with h | rfl
  · have := Text.toNat_of_isAlpha h
    omega
  · exact absurd hdigit (by decide)

/-- With its number in words, a text that begins with a word character begins as a slug. -/
theorem start_spellLeadingNumber {c : Char} (h : isWordChar c = true) (cs : List Char) :
    ∃ c' ∈ (spellLeadingNumber (c :: cs)).head?, IsStart c' := by
  unfold spellLeadingNumber
  dsimp only
  split
  · rename_i hnone
    refine ⟨c, rfl, ?_⟩
    have hdigit : c.isDigit = false := by
      rw [List.isEmpty_iff] at hnone
      by_contra hdigit
      rw [List.takeWhile_cons_of_pos (by simpa using hdigit)] at hnone
      cases hnone
    simpa [isWordChar, Char.isAlphanum, hdigit, IsStart] using h
  · rename_i hsome
    rw [List.isEmpty_iff] at hsome
    obtain ⟨c', hc', halpha⟩ := begins_iff.1 (begins_digitWords hsome)
    obtain ⟨rest, hrest⟩ := List.head?_eq_some_iff.1 hc'
    rw [hrest]
    exact ⟨_, rfl, .inl ((Char.isAlpha_toUpper_eq_isAlpha c').trans halpha)⟩

theorem head?_escapeChars {c : Char} {cs : List Char} (h : c ∈ cs.head?) (hslug : isSlugChar c = true) :
    c ∈ (escapeChars cs).head? := by
  obtain ⟨rest, rfl⟩ := List.head?_eq_some_iff.1 h
  have hspace : c ≠ ' ' := by
    rintro rfl
    exact absurd hslug (by decide)
  rw [escapeChars, List.map_cons, if_neg hspace, List.filter_cons_of_pos hslug]
  rfl

theorem escapeChars_eq_self {cs : List Char} (h : ∀ c ∈ cs, isSlugChar c = true) : escapeChars cs = cs := by
  have hmap : cs.map (fun c => if c = ' ' then '_' else c) = cs := by
    refine (List.map_congr_left fun c hc => if_neg ?_).trans (List.map_id' cs)
    rintro rfl
    exact absurd (h ' ' hc) (by decide)
  rw [escapeChars, hmap, List.filter_eq_self.2 h]

theorem head?_squeeze (cs : List Char) : (squeeze cs).head? = cs.head? := by
  fun_induction squeeze cs with
  | case1 cs ih => exact ih
  | case2 => rfl
  | case3 => rfl

/-- **No two underscores stay next to each other.** -/
theorem not_infix_squeeze (cs : List Char) : ¬ ['_', '_'] <:+: squeeze cs := by
  fun_induction squeeze cs with
  | case1 cs ih => exact ih
  | case2 c cs hne ih =>
    rw [List.infix_cons_iff, not_or]
    refine ⟨fun h => ?_, ih⟩
    -- The rest begins as before, so two in front were two before, and would have been one by now.
    obtain ⟨rfl, hrest⟩ := List.cons_prefix_cons.1 h
    obtain ⟨rest, hrest⟩ := hrest
    have hhead := head?_squeeze cs
    rw [← hrest] at hhead
    obtain ⟨cs', rfl⟩ := List.head?_eq_some_iff.1 hhead.symm
    exact hne cs' rfl rfl
  | case3 => decide

theorem squeeze_eq_self {cs : List Char} (h : ¬ ['_', '_'] <:+: cs) : squeeze cs = cs := by
  fun_induction squeeze cs with
  | case1 cs ih => exact absurd (List.prefix_append ['_', '_'] cs).isInfix h
  | case2 c cs _ ih => rw [ih fun hcs => h (hcs.trans (List.suffix_cons c cs).isInfix)]
  | case3 => rfl

/-! ## Whole titles -/

theorem chars_eq_nil {title : List Char} (h : ∀ c ∈ title, isWordChar c = false) : chars title = [] := by
  have hdrop : title.dropWhile (fun c => !isWordChar c) = [] :=
    List.dropWhile_eq_nil_iff.2 fun c hc => by rw [h c hc]; rfl
  rw [chars, hdrop]
  rfl

/-- **The slug of a title that has a word character begins as it should.** -/
theorem start_chars {title : List Char} {c : Char} (hc : c ∈ title) (h : isWordChar c = true) :
    ∃ c' ∈ (chars title).head?, IsStart c' := by
  have hdrop : title.dropWhile (fun c => !isWordChar c) ≠ [] := fun hnil => by
    have hnone := List.dropWhile_eq_nil_iff.1 hnil c hc
    rw [h] at hnone
    cases hnone
  obtain ⟨d, ds, hds⟩ := List.exists_cons_of_ne_nil hdrop
  have hfirst : d ∈ (title.dropWhile fun c => !isWordChar c).head? := by
    rw [hds]
    rfl
  have hd : isWordChar d = true := by simpa using Text.head_dropWhile d hfirst
  obtain ⟨c', hc', hstart⟩ := start_spellLeadingNumber hd ds
  refine ⟨c', ?_, hstart⟩
  rw [chars, head?_squeeze, hds]
  exact head?_escapeChars hc' hstart.isSlugChar

theorem IsSlug.chars_eq {s : String} (h : IsSlug s) : Slug.chars s.toList = s.toList := by
  have hlead : s.toList.dropWhile (fun c => !isWordChar c) = s.toList :=
    Text.dropWhile_eq_self fun c hc => by rw [(h.start c hc).isWordChar]; rfl
  have hdigits : s.toList.takeWhile Char.isDigit = [] :=
    Text.takeWhile_eq_nil fun c hc => (h.start c hc).not_isDigit
  have hspell : spellLeadingNumber s.toList = s.toList := by
    rw [spellLeadingNumber, hdigits]
    rfl
  rw [Slug.chars, hlead, hspell, escapeChars_eq_self h.chars, squeeze_eq_self h.apart]

theorem isSlug_ofTitle (title : String) : IsSlug (ofTitle title) where
  chars := List.all_eq_true.1 (all_ofTitle title)
  start c hc := by
    rw [ofTitle, String.toList_ofList] at hc
    by_cases hword : ∃ d ∈ title.toList, isWordChar d = true
    · obtain ⟨d, hd, hword⟩ := hword
      obtain ⟨c', hc', hstart⟩ := start_chars hd hword
      exact Option.mem_unique hc hc' ▸ hstart
    · rw [chars_eq_nil (by simpa using hword)] at hc
      cases hc
  apart := by
    rw [ofTitle, String.toList_ofList]
    exact not_infix_squeeze _

theorem ofTitle_eq_empty_iff {title : String} :
    ofTitle title = "" ↔ ∀ c ∈ title.toList, isWordChar c = false := by
  rw [← String.toList_inj, ofTitle, String.toList_ofList]
  constructor
  · intro hnil c hc
    rw [Bool.eq_false_iff]
    intro hword
    obtain ⟨c', hc', -⟩ := start_chars hc hword
    rw [hnil] at hc'
    cases hc'
  · exact chars_eq_nil

theorem ofTitle_eq_self_iff {s : String} : ofTitle s = s ↔ IsSlug s := by
  constructor
  · exact fun h => h ▸ isSlug_ofTitle s
  · intro h
    rw [ofTitle, h.chars_eq, String.ofList_toList]

theorem IsStart.beginsName {c : Char} (h : IsStart c) : Xml.beginsName c = true := by
  have hascending : Xml.nameStarts.Pairwise fun a b => a.1 ≤ b.1 := by decide
  rcases h with h | rfl
  · rcases Text.toNat_of_isAlpha h with hupper | hlower
    · exact Text.Ranges.covers_of_mem hascending (r := (0x41, 0x5A)) (by decide) hupper
    · exact Text.Ranges.covers_of_mem hascending (r := (0x61, 0x7A)) (by decide) hlower
  · decide

theorem continuesName_of_isSlugChar {c : Char} (h : isSlugChar c = true) : Xml.continuesName c = true := by
  simp only [isSlugChar, Char.isAlphanum, Bool.or_eq_true, beq_iff_eq] at h
  rcases h with (((halpha | hdigit) | rfl) | rfl) | rfl
  · exact Bool.or_eq_true_iff.2 (.inl (IsStart.beginsName (.inl halpha)))
  · have hascending : Xml.nameExtras.Pairwise fun a b => a.1 ≤ b.1 := by decide
    have hcovers := Text.Ranges.covers_of_mem hascending (r := (0x30, 0x39)) (by decide) (Text.toNat_of_isDigit hdigit)
    exact Bool.or_eq_true_iff.2 (.inr hcovers)
  · decide
  · decide
  · decide

/-- A slug that is not empty can be the id of an element. -/
theorem IsSlug.isId {s : String} (h : IsSlug s) (hne : s ≠ "") : Xml.IsId s := by
  have hnil : s.toList ≠ [] := fun hnil => hne (String.toList_inj.1 hnil)
  obtain ⟨c, cs, hs⟩ := List.exists_cons_of_ne_nil hnil
  have hchars : ∀ d ∈ c :: cs, isSlugChar d = true := hs ▸ h.chars
  have hstart : IsStart c := h.start c (by rw [hs]; rfl)
  refine ⟨⟨c, cs, hstart.beginsName, fun d hd => ?_⟩, ?_, fun hcolon => ?_⟩
  · exact continuesName_of_isSlugChar (hchars d (List.mem_cons_of_mem c hd))
  · rw [Xml.Name.text, Xml.Name.chars, ← hs, String.ofList_toList]
  · exact absurd (hchars ':' hcolon) (by decide)

/-- **Every title has a slug, and slugs are their own.**  The slug of a title is made of slug characters, begins with a
letter or an underscore and has no two underscores in a row.  It is empty just if the title has no letter, digit or
underscore, and the same as the title just if that is such a text already; so taking the slug a second time changes
nothing, and a slug that is not empty can be the id of an element. -/
theorem ofTitle_retraction (title : String) :
    IsSlug (ofTitle title) ∧
    (ofTitle title = "" ↔ ∀ c ∈ title.toList, isWordChar c = false) ∧
    (ofTitle title = title ↔ IsSlug title) ∧
    ofTitle (ofTitle title) = ofTitle title ∧
    (ofTitle title ≠ "" → Xml.IsId (ofTitle title)) :=
  have hslug := isSlug_ofTitle title
  ⟨hslug, ofTitle_eq_empty_iff, ofTitle_eq_self_iff, ofTitle_eq_self_iff.2 hslug, hslug.isId⟩

example : ofTitle "- 21 Ways: a _ b." = "Twenty-one_Ways_a_b." := by cbv

end Slug
end Bookbinder
