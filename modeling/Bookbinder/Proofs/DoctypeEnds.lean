import Bookbinder.Proofs.TrimmedText
import Bookbinder.Proofs.XmlWriting
import Mathlib.Data.List.Induction
/-!
# Document type declarations that are read again

Where a document type declaration ends is decided by what it holds, not by what follows it, and blanks before its end
count for nothing.  So the body of one that was read is read again when it is written (`next_doctype`), unless nothing
is left of it.
-/
namespace Bookbinder

namespace Text

theorem isSome_after?_append {p x : List Char} {c : Char} (hp : c ∉ p) (hx : c ∈ x) (r r' : List Char) :
    (after? p (x ++ r)).isSome = (after? p (x ++ r')).isSome := by
  induction p generalizing x with
  | nil => rfl
  | cons d p ih =>
    cases x with
    | nil => exact absurd hx List.not_mem_nil
    | cons e x =>
      rw [List.mem_cons, not_or] at hp
      rw [List.cons_append, List.cons_append, after?, after?]
      split
      · rename_i hde
        refine ih hp.2 ((List.mem_cons.1 hx).resolve_left ?_)
        exact fun hce => hp.1 (hce.trans hde.symm)
      · rfl

/-- What stands in front of a text is decided by its beginning, if that is no shorter or cannot be part of it. -/
theorem after?_eq_none_append {p x : List Char} {c : Char} (hp : c ∉ p) (hx : c ∈ x) {r : List Char}
    (h : after? p (x ++ r) = none) (r' : List Char) : after? p (x ++ r') = none := by
  have hsame := isSome_after?_append hp hx r' r
  rw [h] at hsame
  exact Option.not_isSome_iff_eq_none.1 (by rw [hsame]; exact Bool.false_ne_true)

theorem notMem_of_cut? {c : Char} {cs a r : List Char} (h : cut? [c] cs = some (a, r)) : c ∉ a := by
  induction cs generalizing a with
  | nil => cases h
  | cons d cs ih =>
    rw [cut?, after?] at h
    split at h
    · rename_i hfront
      cases h
      exact List.not_mem_nil
    · rename_i hfront
      split at h
      · rename_i b s hb
        cases h
        have hne : c ≠ d := fun he => by
          rw [if_pos he] at hfront
          cases hfront
        exact fun hm => (List.mem_cons.1 hm).elim hne (ih hb)
      · cases h

end Text

namespace Xml
namespace Doctype

open Text (after? cut? isBlank)

/-! ## Ends -/

theorem exists_afterDeclaration {q : Option Char} {cs r : List Char} (h : afterDeclaration q cs = some r) :
    ∃ x, cs = x ++ '>' :: r ∧ ∀ r', afterDeclaration q (x ++ '>' :: r') = some r' := by
  fun_induction afterDeclaration q cs with
  | case1 => cases h
  | case2 cs =>
    cases h
    exact ⟨[], rfl, fun r' => rfl⟩
  | case3 c cs hc ih =>
    obtain ⟨x, rfl, hx⟩ := ih h
    refine ⟨c :: x, rfl, fun r' => ?_⟩
    rw [List.cons_append, afterDeclaration]
    · exact hx r'
    · exact hc
  | case4 q c cs ih =>
    obtain ⟨x, rfl, hx⟩ := ih h
    refine ⟨c :: x, rfl, fun r' => ?_⟩
    rw [List.cons_append, afterDeclaration]
    exact hx r'

theorem exists_cut {p cs r : List Char} (h : (cut? p cs).map (·.2) = some r) :
    ∃ a, cs = a ++ p ++ r ∧ ∀ r', (cut? p (a ++ p ++ r')).map (·.2) = some r' := by
  obtain ⟨⟨a, r₁⟩, hcut, rfl⟩ := Option.map_eq_some_iff.1 h
  have he := Text.cut?_eq_some hcut
  rw [he] at hcut
  refine ⟨a, he, fun r' => ?_⟩
  rw [Text.cut?_append hcut]
  rfl

theorem exists_cut_after {mark p cs rest r : List Char} (hmark : after? mark cs = some rest)
    (h : (cut? p rest).map (·.2) = some r) : ∃ x, cs = mark ++ x ++ r ∧
      ∀ r', after? mark (mark ++ x ++ r') = some (x ++ r') ∧ (cut? p (x ++ r')).map (·.2) = some r' := by
  obtain ⟨a, rfl, ha⟩ := exists_cut h
  refine ⟨a ++ p, ?_, fun r' => ⟨?_, ha r'⟩⟩
  · rw [Text.after?_eq_some hmark, List.append_assoc mark]
  · rw [List.append_assoc mark]
    exact Text.after?_self_append mark (a ++ p ++ r')

/-- What is no comment and no instruction ends in `>`, and it is decided before that where. -/
theorem exists_declaration {cs r : List Char}
    (h : (if isQuotedDeclaration cs then afterDeclaration none cs else (cut? ">".toList cs).map (·.2)) = some r) :
    ∃ x, cs = x ++ r ∧ '>' ∈ x ∧ ∀ r', (if isQuotedDeclaration (x ++ r') then afterDeclaration none (x ++ r')
      else (cut? ">".toList (x ++ r')).map (·.2)) = some r' := by
  have hquoted {x : List Char} (hend : '>' ∈ x) (r' : List Char) :
      isQuotedDeclaration (x ++ r') = isQuotedDeclaration (x ++ r) := by
    unfold isQuotedDeclaration
    rw [Text.isSome_after?_append (by decide) hend r' r, Text.isSome_after?_append (by decide) hend r' r,
      Text.isSome_after?_append (by decide) hend r' r]
  split at h
  · rename_i hyes
    obtain ⟨x, rfl, hx⟩ := exists_afterDeclaration h
    have hsplit (r' : List Char) : x ++ '>' :: r' = x ++ ['>'] ++ r' := by rw [List.append_assoc, List.singleton_append]
    have hend : '>' ∈ x ++ ['>'] := List.mem_append_right x (List.mem_singleton_self _)
    refine ⟨x ++ ['>'], hsplit r, hend, fun r' => ?_⟩
    rw [hquoted hend, ← hsplit, if_pos hyes, ← hsplit]
    exact hx r'
  · rename_i hno
    obtain ⟨a, rfl, ha⟩ := exists_cut h
    have hend : '>' ∈ a ++ ">".toList := List.mem_append_right a (List.mem_singleton_self _)
    refine ⟨a ++ ">".toList, rfl, hend, fun r' => ?_⟩
    rw [hquoted hend, if_neg hno]
    exact ha r'

/-- **A piece of an internal subset ends where it did, whatever follows.** -/
theorem exists_afterPiece {cs r : List Char} (h : afterPiece cs = some r) :
    ∃ x, cs = x ++ r ∧ ∀ r', afterPiece (x ++ r') = some r' := by
  unfold afterPiece at h
  split at h
  · rename_i rest hrest
    obtain ⟨x, rfl, hx⟩ := exists_cut_after hrest h
    refine ⟨_, rfl, fun r' => ?_⟩
    rw [afterPiece, (hx r').1]
    exact (hx r').2
  · rename_i hcomment
    split at h
    · rename_i rest hrest
      obtain ⟨x, rfl, hx⟩ := exists_cut_after hrest h
      refine ⟨_, rfl, fun r' => ?_⟩
      have hcomment : after? "!--".toList ("?".toList ++ x ++ r') = none := rfl
      rw [afterPiece, hcomment, (hx r').1]
      exact (hx r').2
    · rename_i hinstruction
      obtain ⟨x, rfl, hend, hx⟩ := exists_declaration h
      refine ⟨x, rfl, fun r' => ?_⟩
      rw [afterPiece, Text.after?_eq_none_append (by decide) hend hcomment r',
        Text.after?_eq_none_append (by decide) hend hinstruction r']
      exact hx r'

theorem exists_afterSubset {cs r : List Char} (h : afterSubset cs = some r) :
    ∃ x, cs = x ++ ']' :: r ∧ ∀ r', afterSubset (x ++ ']' :: r') = some r' := by
  fun_induction afterSubset cs with
  | case1 => cases h
  | case2 r₀ =>
    cases h
    exact ⟨[], rfl, fun r' => by rw [List.nil_append, afterSubset]⟩
  | case3 r₀ r₁ hpiece hle ih =>
    obtain ⟨x, rfl, hx⟩ := ih h
    obtain ⟨y, rfl, hy⟩ := exists_afterPiece hpiece
    refine ⟨'<' :: (y ++ x), by simp, fun r' => ?_⟩
    have hnext : afterPiece (y ++ x ++ ']' :: r') = some (x ++ ']' :: r') := by
      rw [List.append_assoc]
      exact hy _
    rw [List.cons_append, afterSubset_piece hnext]
    exact hx r'
  | case4 => cases h
  | case5 c r₀ hclose hopen ih =>
    obtain ⟨x, rfl, hx⟩ := ih h
    refine ⟨c :: x, rfl, fun r' => ?_⟩
    rw [List.cons_append, afterSubset]
    · exact hx r'
    · exact hclose
    · exact hopen

/-- Blanks at the end of a text come after any of its characters that is none. -/
theorem exists_blanks_after {s a y z : List Char} {c : Char} (h : s ++ [c] ++ a = y ++ z) (hc : isBlank c = false)
    (hz : ∀ d ∈ z, isBlank d = true) : ∃ a', y = s ++ [c] ++ a' ∧ a = a' ++ z := by
  rcases List.append_eq_append_iff.1 h with h | ⟨b, hy, hb⟩
  · exact h
  · cases b using List.reverseRecOn with
    | nil => exact ⟨[], by rw [List.append_nil] at hy ⊢; exact hy.symm, hb.symm⟩
    | append_singleton b d =>
      rw [← List.append_assoc] at hy
      have hd : d = c := by simpa using (List.append_inj' hy rfl).2.symm
      have hblank := hz d (hb ▸ by simp)
      rw [hd, hc] at hblank
      cases hblank

/-- A declaration with an internal subset ends at the first `>` after that. -/
theorem exists_afterBrackets {cs r : List Char}
    (h : ((afterSubset cs).bind fun r => (cut? ['>'] r).map (·.2)) = some r) : ∃ x, cs = x ++ '>' :: r ∧
      ∀ y z r', '[' :: x = y ++ z → (∀ c ∈ z, isBlank c = true) → afterDoctype none (y ++ '>' :: r') = some r' := by
  obtain ⟨r₁, hsubset, hcut⟩ := Option.bind_eq_some_iff.1 h
  obtain ⟨s, rfl, hs⟩ := exists_afterSubset hsubset
  obtain ⟨⟨a, r₂⟩, ha, rfl⟩ := Option.map_eq_some_iff.1 hcut
  have hr₁ := Text.cut?_eq_some ha
  refine ⟨s ++ [']'] ++ a, by simp [hr₁], fun y z r' hyz hz => ?_⟩
  obtain ⟨a', rfl, rfl⟩ := exists_blanks_after (s := '[' :: s) (c := ']') hyz (by decide) hz
  have hfree : '>' ∉ a' := fun hm => Text.notMem_of_cut? ha (List.mem_append_left z hm)
  have hend : afterSubset (s ++ ']' :: (a' ++ '>' :: r')) = some (a' ++ '>' :: r') := hs _
  have hshape : '[' :: s ++ [']'] ++ a' ++ '>' :: r' = '[' :: (s ++ ']' :: (a' ++ '>' :: r')) := by simp
  rw [hshape, afterDoctype, hend, Option.bind_some, Text.cut?_singleton hfree]
  rfl

theorem not_isBlank_quote {c : Char} : ∀ d ∈ (if c = '"' ∨ c = '\'' then some c else none), isBlank d = false := by
  intro d hd
  split at hd
  · rename_i hc
    cases hd
    rcases hc with rfl | rfl <;> decide
  · cases hd

/-- **A declaration ends where it did, whatever follows, also without the blanks at its end.** -/
theorem exists_afterDoctype {q : Option Char} {cs r : List Char} (hq : ∀ c ∈ q, isBlank c = false)
    (h : afterDoctype q cs = some r) : ∃ x, cs = x ++ '>' :: r ∧ ∀ y z r', x = y ++ z →
      (∀ c ∈ z, isBlank c = true) → afterDoctype q (y ++ '>' :: r') = some r' := by
  fun_induction afterDoctype q cs with
  | case1 => cases h
  | case2 cs =>
    cases h
    refine ⟨[], rfl, fun y z r' hyz _ => ?_⟩
    rw [(List.append_eq_nil_iff.1 hyz.symm).1]
    rfl
  | case3 cs =>
    obtain ⟨x, rfl, hx⟩ := exists_afterBrackets h
    exact ⟨'[' :: x, rfl, hx⟩
  | case4 c cs hend hopen ih =>
    obtain ⟨x, rfl, hx⟩ := ih not_isBlank_quote h
    refine ⟨c :: x, rfl, fun y z r' hyz hz => ?_⟩
    cases y with
    | nil => rfl
    | cons d y =>
      obtain ⟨rfl, htail⟩ := List.cons.inj hyz
      rw [List.cons_append, afterDoctype]
      · exact hx y z r' htail hz
      · exact hend
      · exact hopen
  | case5 q c cs ih =>
    have hq' : isBlank q = false := hq q rfl
    obtain ⟨x, rfl, hx⟩ := ih (by split <;> simp [hq']) h
    refine ⟨c :: x, rfl, fun y z r' hyz hz => ?_⟩
    cases y with
    | nil =>
      -- Nothing but blanks is left, so a quote that is open would never be closed.
      rw [List.nil_append] at hyz
      have hne : c ≠ q := fun he => by
        have := hz c (hyz ▸ List.mem_cons_self)
        rw [he, hq'] at this
        cases this
      have hopen := hx [] x [] rfl fun d hd => hz d (hyz ▸ List.mem_cons_of_mem _ hd)
      rw [if_neg hne] at hopen
      cases hopen
    | cons d y =>
      obtain ⟨rfl, htail⟩ := List.cons.inj hyz
      rw [List.cons_append, afterDoctype]
      exact hx y z r' htail hz

theorem afterDoctype_blanks {lead : List Char} (h : ∀ c ∈ lead, isBlank c = true) (cs : List Char) :
    afterDoctype none (lead ++ cs) = afterDoctype none cs := by
  induction lead with
  | nil => rfl
  | cons c lead ih =>
    have hc := h c List.mem_cons_self
    have hne : ∀ d ∈ ['>', '[', '"', '\''], c ≠ d := by
      intro d hd he
      rw [he] at hc
      simp only [List.mem_cons, List.not_mem_nil, or_false] at hd
      rcases hd with rfl | rfl | rfl | rfl <;> exact absurd hc (by decide)
    rw [List.cons_append, afterDoctype]
    · rw [if_neg (by simp [hne]), ih fun d hd => h d (List.mem_cons_of_mem _ hd)]
    · exact hne _ (by simp)
    · exact hne _ (by simp)

end Doctype

/-- The body of a declaration that was read, with the space before it. -/
theorem exists_of_nextDoctype_body {cs r a : List Char} (h : Markup.nextDoctype cs = .ok (.doctype a, r)) :
    ∃ x, a = x.dropWhile Text.isSpace ∧ ∀ y z r', x = y ++ z → (∀ c ∈ z, Text.isBlank c = true) →
      Doctype.afterDoctype none (y ++ '>' :: r') = some r' := by
  unfold Markup.nextDoctype at h
  split at h
  · cases h
  · split at h
    · cases h
    · rename_i r₁ hr₁
      obtain ⟨x, rfl, hx⟩ := Doctype.exists_afterDoctype (fun c hc => absurd hc (Option.not_mem_none c)) hr₁
      rw [take_body] at h
      split at h
      · cases h
      · cases h
        exact ⟨x, rfl, hx⟩

/-- **The body of a declaration that was read is read again**, unless it is blank. -/
theorem next_doctype {cs r a : List Char} (h : Markup.nextDoctype cs = .ok (.doctype a, r))
    (hbody : Text.trimChars a ≠ []) (r' : List Char) :
    Markup.nextDoctype ("DOCTYPE ".toList ++ (Text.trimChars a ++ '>' :: r')) = .ok (.doctype (Text.trimChars a), r') := by
  obtain ⟨x, rfl, hx⟩ := exists_of_nextDoctype_body h
  obtain ⟨lead, tail, htrim, hlead, htail⟩ := Text.exists_trimChars (x.dropWhile Text.isSpace)
  have hhead := Text.head_trimChars (x.dropWhile Text.isSpace)
  generalize Text.trimChars (x.dropWhile Text.isSpace) = body at htrim hbody hhead
  have hwhole : x = (x.takeWhile Text.isSpace ++ lead ++ body) ++ tail := by
    rw [List.append_assoc, List.append_assoc, ← List.append_assoc lead, ← htrim, List.takeWhile_append_dropWhile]
  have hblank : ∀ c ∈ x.takeWhile Text.isSpace ++ lead, Text.isBlank c = true := fun c hc =>
    (List.mem_append.1 hc).elim (fun hc => Text.isBlank_of_isSpace (List.mem_takeWhile_imp hc)) (hlead c)
  have hend : Doctype.afterDoctype none (' ' :: body ++ '>' :: r') = some r' := by
    have hread := hx _ _ r' hwhole htail
    rw [List.append_assoc, Doctype.afterDoctype_blanks hblank] at hread
    rwa [← List.singleton_append, List.append_assoc, Doctype.afterDoctype_blanks (by decide)]
  have hspace : (' ' :: body).dropWhile Text.isSpace = body := by
    rw [List.dropWhile_cons_of_pos (by decide)]
    refine Text.dropWhile_eq_self fun c hc => Bool.eq_false_iff.2 fun hs => ?_
    exact absurd (Text.isBlank_of_isSpace hs) (Bool.eq_false_iff.1 (hhead c hc))
  have hread := nextDoctype_body hend (by rwa [hspace])
  rwa [hspace] at hread

end Xml
end Bookbinder
