import Bookbinder.Proofs.TrimmedText
import Bookbinder.Proofs.XmlTags
import Mathlib.Data.List.TakeWhile
/-!
# The tags of what is written

A text that is put together from parts has the tags of its parts, in order: `Writes cs es` says that a part adds the
tags `es` to those of whatever follows it.  Running text, references, comments and the like add none; a node that holds
plain elements adds their tags (`writes_node`).  What reading makes of a text can be written that way (`sound_of_read`).
-/
namespace Bookbinder

namespace Text

theorem after?_self_append (p r : List Char) : after? p (p ++ r) = some r := by
  induction p with
  | nil => rfl
  | cons c p ih => rw [List.cons_append, after?, if_pos rfl, ih]

/-- Whether a pattern stands in front is decided by as many characters as it has. -/
theorem after?_append_eq_none {p x : List Char} (r r' : List Char) (hlen : p.length ≤ x.length)
    (h : after? p (x ++ r) = none) : after? p (x ++ r') = none := by
  induction p generalizing x with
  | nil => cases h
  | cons c p ih =>
    cases x with
    | nil => exact absurd hlen (by simp)
    | cons d x =>
      rw [List.cons_append, after?] at h ⊢
      split
      · rename_i hc
        rw [if_pos hc] at h
        exact ih (by simpa using hlen) h
      · rfl

theorem cut?_eq_of_after? {p cs r : List Char} (h : after? p cs = some r) : cut? p cs = some ([], r) := by
  cases cs with
  | nil =>
    rw [cut?]
    cases p with
    | nil =>
      cases h
      rfl
    | cons c p => cases h
  | cons c cs => rw [cut?, h]

theorem cut?_singleton {c : Char} {a : List Char} (h : c ∉ a) (r : List Char) :
    cut? [c] (a ++ c :: r) = some (a, r) := by
  induction a with
  | nil => exact cut?_eq_of_after? (after?_self_append [c] r)
  | cons d a ih =>
    rw [List.mem_cons, not_or] at h
    rw [List.cons_append, cut?, after?, if_neg h.1, ih h.2]

/-- **Where a text is cut first does not depend on what follows that place.** -/
theorem cut?_append {p a r : List Char} (h : cut? p (a ++ p ++ r) = some (a, r)) (r' : List Char) :
    cut? p (a ++ p ++ r') = some (a, r') := by
  induction a with
  | nil => exact cut?_eq_of_after? (after?_self_append p r')
  | cons c a ih =>
    rw [List.cons_append, List.cons_append, cut?] at h ⊢
    split at h
    · cases h
    · rename_i hn
      have hn' : after? p (c :: (a ++ p ++ r')) = none :=
        after?_append_eq_none (x := c :: (a ++ p)) r r' (by simp; omega) hn
      rw [hn']
      split at h
      · rename_i b s hb
        cases h
        rw [ih hb]
      · cases h

theorem quote_notMem_escapeChar (c : Char) : '"' ∉ escapeChar c := by
  unfold escapeChar
  split
  · decide
  · decide
  · decide
  · decide
  · decide
  · rename_i hquot
    rw [List.mem_singleton]
    exact fun h => hquot h.symm

theorem quote_notMem_escapeChars (cs : List Char) : '"' ∉ escapeChars cs := by
  rw [escapeChars, List.mem_flatMap]
  rintro ⟨c, -, hc⟩
  exact quote_notMem_escapeChar c hc

theorem quote_notMem_escape (s : String) : '"' ∉ (escape s).toList := by
  rw [escape, String.toList_ofList]
  exact quote_notMem_escapeChars s.toList

end Text

namespace Xml

open Text (after? cut? isSpace)

/-- A text that adds tags to those of whatever follows it. -/
def Writes (cs : List Char) (es : List Element) : Prop :=
  ∀ rest, tags (cs ++ rest) = es ++ tags rest

namespace Writes

theorem nil : Writes [] [] := fun _ => rfl

theorem append {cs ds : List Char} {es fs : List Element} (h : Writes cs es) (h' : Writes ds fs) :
    Writes (cs ++ ds) (es ++ fs) := fun rest => by
  rw [List.append_assoc, h, h', List.append_assoc]

theorem tags_eq {cs : List Char} {es : List Element} (h : Writes cs es) : tags cs = es := by
  have := h []
  rwa [List.append_nil, tags_nil, List.append_nil] at this

theorem of_next {c : Char} {cs : List Char} {m : Markup} (h : ∀ rest, Markup.next c (cs ++ rest) = .ok (m, rest)) :
    Writes (c :: cs) m.tag?.toList := fun rest => tags_of_next (h rest)

end Writes

/-! ## Text -/

theorem tags_cons_of_isText {c : Char} (hc : Markup.isText c = true) (cs : List Char) : tags (c :: cs) = tags cs := by
  have hnext {c : Char} (hc : Markup.isText c = true) (cs : List Char) :
      tags (c :: cs) = tags (cs.dropWhile Markup.isText) := by
    rw [Markup.isText, Bool.and_eq_true, bne_iff_ne, bne_iff_ne] at hc
    refine tags_of_next (m := .text (c :: cs.takeWhile Markup.isText)) ?_
    rw [Markup.next, if_neg hc.1, if_neg hc.2]
  rw [hnext hc]
  cases cs with
  | nil => rfl
  | cons d cs =>
    rw [List.dropWhile_cons]
    split
    · rename_i hd
      exact (hnext hd cs).symm
    · rfl

theorem writes_text {cs : List Char} (h : ∀ c ∈ cs, Markup.isText c = true) : Writes cs [] := by
  induction cs with
  | nil => exact Writes.nil
  | cons c cs ih =>
    intro rest
    rw [List.cons_append, tags_cons_of_isText (h c List.mem_cons_self)]
    exact ih (fun d hd => h d (List.mem_cons_of_mem _ hd)) rest

theorem next_reference {name : List Char} (h : ∀ c ∈ name, (c != ';' && Markup.isText c) = true) (rest : List Char) :
    Markup.next '&' (name ++ [';'] ++ rest) = .ok (.reference name, rest) := by
  have hdrop : (name ++ [';'] ++ rest).dropWhile (fun c => c != ';' && Markup.isText c) = ';' :: rest := by
    rw [List.append_assoc, List.dropWhile_append_of_pos h]
    rfl
  have htake : (name ++ [';'] ++ rest).takeWhile (fun c => c != ';' && Markup.isText c) = name := by
    rw [List.append_assoc, List.takeWhile_append_of_pos h]
    exact List.append_nil _
  change Markup.nextReference (name ++ [';'] ++ rest) = _
  simp only [Markup.nextReference, hdrop, htake]

theorem writes_reference (name : List Char) (h : ∀ c ∈ name, (c != ';' && Markup.isText c) = true) :
    Writes ('&' :: name ++ [';']) [] :=
  Writes.of_next (m := .reference name) (next_reference h)

/-- A character is escaped as running text, if as itself, or as a reference. -/
theorem escapeChar_cases (c : Char) : (Markup.isText c = true ∧ Text.escapeChar c = [c]) ∨
    ∃ name, (∀ d ∈ name, (d != ';' && Markup.isText d) = true) ∧ Text.escapeChar c = '&' :: name ++ [';'] := by
  unfold Text.escapeChar
  split
  · exact .inr ⟨['l', 't'], by decide, rfl⟩
  · exact .inr ⟨['g', 't'], by decide, rfl⟩
  · exact .inr ⟨['a', 'm', 'p'], by decide, rfl⟩
  · exact .inr ⟨['a', 'p', 'o', 's'], by decide, rfl⟩
  · exact .inr ⟨['q', 'u', 'o', 't'], by decide, rfl⟩
  · rename_i hlt hgt hamp hapos hquot
    refine .inl ⟨?_, rfl⟩
    rw [Markup.isText, Bool.and_eq_true, bne_iff_ne, bne_iff_ne]
    exact ⟨hlt, hamp⟩

theorem writes_escapeChars : ∀ cs : List Char, Writes (Text.escapeChars cs) []
  | [] => Writes.nil
  | c :: cs => by
    refine Writes.append (?_ : Writes (Text.escapeChar c) []) (writes_escapeChars cs)
    rcases escapeChar_cases c with ⟨htext, hc⟩ | ⟨name, hname, hc⟩
    · rw [hc]
      exact writes_text fun d hd => List.mem_singleton.1 hd ▸ htext
    · rw [hc]
      exact writes_reference name hname

theorem writes_escape (s : String) : Writes (Text.escape s).toList [] := by
  rw [Text.escape, String.toList_ofList]
  exact writes_escapeChars _

/-! ## Comments and the like -/

/-- A text that is cut at a pattern's first place is cut there whatever follows. -/
theorem cut?_of_ends {p content : List Char} (h : cut? p (content ++ p) = some (content, [])) (rest : List Char) :
    cut? p (content ++ p ++ rest) = some (content, rest) :=
  Text.cut?_append (by rwa [List.append_nil]) rest

theorem next_comment {content : List Char}
    (h : cut? ['-', '-', '>'] (content ++ ['-', '-', '>']) = some (content, [])) (rest : List Char) :
    Markup.next '<' ('!' :: '-' :: '-' :: (content ++ ['-', '-', '>']) ++ rest) = .ok (.comment content, rest) := by
  have hcut : (after? "--".toList ('-' :: '-' :: (content ++ ['-', '-', '>'] ++ rest))).bind (cut? "-->".toList)
      = some (content, rest) := cut?_of_ends h rest
  change Markup.nextBang ('-' :: '-' :: (content ++ ['-', '-', '>'] ++ rest)) = _
  unfold Markup.nextBang
  simp only [List.head?_cons, hcut]

theorem writes_comment {content : List Char}
    (h : cut? ['-', '-', '>'] (content ++ ['-', '-', '>']) = some (content, [])) :
    Writes (['<', '!', '-', '-'] ++ (content ++ ['-', '-', '>'])) [] :=
  Writes.of_next (m := .comment content) (next_comment h)

theorem next_cdata {content : List Char}
    (h : cut? [']', ']', '>'] (content ++ [']', ']', '>']) = some (content, [])) (rest : List Char) :
    Markup.next '<' ('!' :: '[' :: 'C' :: 'D' :: 'A' :: 'T' :: 'A' :: '[' :: (content ++ [']', ']', '>']) ++ rest)
      = .ok (.cdata content, rest) := by
  have hcut : (after? "[CDATA[".toList ('[' :: 'C' :: 'D' :: 'A' :: 'T' :: 'A' :: '[' :: (content ++ [']', ']', '>']
      ++ rest))).bind (cut? "]]>".toList) = some (content, rest) := cut?_of_ends h rest
  change Markup.nextBang ('[' :: 'C' :: 'D' :: 'A' :: 'T' :: 'A' :: '[' :: (content ++ [']', ']', '>'] ++ rest)) = _
  unfold Markup.nextBang
  simp only [List.head?_cons, hcut]

theorem writes_cdata {content : List Char}
    (h : cut? [']', ']', '>'] (content ++ [']', ']', '>']) = some (content, [])) :
    Writes (['<', '!', '[', 'C', 'D', 'A', 'T', 'A', '['] ++ (content ++ [']', ']', '>'])) [] :=
  Writes.of_next (m := .cdata content) (next_cdata h)

theorem next_instruction {content : List Char} (h : cut? ['?', '>'] (content ++ ['?', '>']) = some (content, []))
    (hhead : content.head? ≠ some '>') (rest : List Char) :
    Markup.next '<' ('?' :: (content ++ ['?', '>']) ++ rest)
      = .ok (if Markup.isDeclaration content then .declaration else .instruction content, rest) := by
  have hh : (content ++ ['?', '>'] ++ rest).head? ≠ some '>' := by
    cases content with
    | nil => simp
    | cons c content => simpa using hhead
  have hsign : "?>".toList = ['?', '>'] := rfl
  change Markup.nextInstruction (content ++ ['?', '>'] ++ rest) = _
  rw [Markup.nextInstruction, if_neg hh, hsign, cut?_of_ends h]

theorem writes_instruction {content : List Char} (h : cut? ['?', '>'] (content ++ ['?', '>']) = some (content, []))
    (hhead : content.head? ≠ some '>') : Writes (['<', '?'] ++ (content ++ ['?', '>'])) [] := by
  have hw : Writes ('<' :: '?' :: (content ++ ['?', '>'])) _ := Writes.of_next (next_instruction h hhead)
  split at hw
  · exact hw
  · exact hw

theorem take_body (body r : List Char) : (body ++ '>' :: r).take ((body ++ '>' :: r).length - r.length - 1) = body := by
  have hlength : (body ++ '>' :: r).length - r.length - 1 = body.length := by
    rw [List.length_append, List.length_cons]
    omega
  rw [hlength, List.take_left]

/-- **A document type declaration is read as a whole** if it ends there and is not blank. -/
theorem nextDoctype_body {body r : List Char} (hend : Doctype.afterDoctype none (body ++ '>' :: r) = some r)
    (hbody : body.dropWhile Text.isSpace ≠ []) :
    Markup.nextDoctype ("DOCTYPE".toList ++ (body ++ '>' :: r)) = .ok (.doctype (body.dropWhile Text.isSpace), r) := by
  have hkeyword : Markup.afterKeyword? ("DOCTYPE".toList ++ (body ++ '>' :: r)) = some (body ++ '>' :: r) := rfl
  have htake : (body ++ '>' :: r).take ((body ++ '>' :: r).length - r.length - 1) = body := take_body body r
  rw [Markup.nextDoctype, hkeyword]
  dsimp only
  rw [hend]
  dsimp only
  rw [htake]
  cases hb : body.dropWhile Text.isSpace with
  | nil => exact absurd hb hbody
  | cons c cs => rfl

/-! ## Tags -/

/-- A character that a name may hold without being taken for markup. -/
def isNameChar (c : Char) : Bool :=
  !isSpace c && !(['<', '>', '"', '\'', '/', '=', '!', '?'].contains c)

/-- A name of an element or an attribute that holds nothing that markup is made of. -/
def isName (s : String) : Bool :=
  !s.isEmpty && s.toList.all isNameChar

/-- An element whose names hold nothing that markup is made of, and whose values hold no double quote. -/
def Element.isPlain (e : Element) : Bool :=
  isName e.name && e.attributes.all fun a => isName a.1 && !a.2.toList.contains '"'

namespace Markup

theorem next_eq_nextTag {c : Char} (hbang : c ≠ '!') (hquestion : c ≠ '?') (hslash : c ≠ '/') (cs : List Char) :
    next '<' (c :: cs) = nextTag (c :: cs) := by
  rw [next, if_pos rfl, nextAngle]
  · exact fun r hr => hbang (List.cons.inj hr).1
  · exact fun r hr => hquestion (List.cons.inj hr).1
  · exact fun r hr => hslash (List.cons.inj hr).1

theorem tag_append_of_plain {cs rest a r : List Char} (h : ∀ c ∈ cs, c ≠ '>' ∧ c ≠ '"' ∧ c ≠ '\'')
    (ht : tag none rest = .ok (a, r)) : tag none (cs ++ rest) = .ok (cs ++ a, r) := by
  induction cs with
  | nil => exact ht
  | cons c cs ih =>
    obtain ⟨hc, hq, hq'⟩ := h c List.mem_cons_self
    rw [List.cons_append, tag, if_neg (by simp [hq, hq']), ih fun d hd => h d (List.mem_cons_of_mem _ hd)]
    · rfl
    · exact hc

theorem tag_append_quoted {q : Char} {cs rest a r : List Char} (h : q ∉ cs) (ht : tag none rest = .ok (a, r)) :
    tag (some q) (cs ++ q :: rest) = .ok (cs ++ q :: a, r) := by
  induction cs with
  | nil =>
    rw [List.nil_append, tag, if_pos rfl, ht]
    rfl
  | cons c cs ih =>
    rw [List.mem_cons, not_or] at h
    rw [List.cons_append, tag, if_neg (Ne.symm h.1), ih h.2]
    rfl

end Markup

theorem isName_iff {s : String} : isName s = true ↔ s.toList ≠ [] ∧ ∀ c ∈ s.toList, isNameChar c = true := by
  rw [isName, Bool.and_eq_true, List.all_eq_true, Bool.not_eq_true', ← Bool.not_eq_true, String.isEmpty_iff, ne_eq,
    String.toList_eq_nil_iff]

theorem ne_of_isNameChar {c : Char} (h : isNameChar c = true) :
    isSpace c = false ∧ c ≠ '<' ∧ c ≠ '>' ∧ c ≠ '"' ∧ c ≠ '\'' ∧ c ≠ '/' ∧ c ≠ '=' ∧ c ≠ '!' ∧ c ≠ '?' := by
  simpa [isNameChar] using h

theorem isPlain_iff {e : Element} : e.isPlain = true ↔
    isName e.name = true ∧ ∀ a ∈ e.attributes, isName a.1 = true ∧ '"' ∉ a.2.toList := by
  simp [Element.isPlain]

theorem toList_attributesXml_cons (key value : String) (as : Attributes) :
    (attributesXml ((key, value) :: as)).toList
      = ' ' :: (key.toList ++ '=' :: '"' :: (value.toList ++ '"' :: (attributesXml as).toList)) := by
  simp [attributesXml]

theorem tag_attributesXml {as : Attributes} (h : ∀ a ∈ as, isName a.1 = true ∧ '"' ∉ a.2.toList)
    {rest a r : List Char} (ht : Markup.tag none rest = .ok (a, r)) :
    Markup.tag none ((attributesXml as).toList ++ rest) = .ok ((attributesXml as).toList ++ a, r) := by
  induction as with
  | nil => exact ht
  | cons x as ih =>
    obtain ⟨key, value⟩ := x
    obtain ⟨hkey, hvalue⟩ := h (key, value) List.mem_cons_self
    have hrest := ih fun b hb => h b (List.mem_cons_of_mem _ hb)
    have hquoted : Markup.tag none ('"' :: (value.toList ++ '"' :: ((attributesXml as).toList ++ rest)))
        = .ok ('"' :: (value.toList ++ '"' :: ((attributesXml as).toList ++ a)), r) := by
      rw [Markup.tag, if_pos (.inl rfl), Markup.tag_append_quoted hvalue hrest]
      decide
    have hplain : ∀ c ∈ ' ' :: key.toList ++ ['='], c ≠ '>' ∧ c ≠ '"' ∧ c ≠ '\'' := by
      intro c hc
      simp only [List.mem_append, List.mem_cons, List.not_mem_nil, or_false] at hc
      rcases hc with (rfl | hc) | rfl
      · decide
      · have := ne_of_isNameChar ((isName_iff.1 hkey).2 c hc)
        exact ⟨this.2.2.1, this.2.2.2.1, this.2.2.2.2.1⟩
      · decide
    have := Markup.tag_append_of_plain hplain hquoted
    rw [toList_attributesXml_cons]
    simpa using this

namespace Tag

theorem value_quoted (size : Nat) {v : List Char} (h : '"' ∉ v) (r : List Char) :
    value size ('"' :: (v ++ '"' :: r)) = .ok (v, r) := by
  rw [value]
  have hq : ('"' :: (v ++ '"' :: r)).dropWhile isSpace = '"' :: (v ++ '"' :: r) := by
    rw [List.dropWhile_cons_of_neg]
    decide
  simp only [hq, true_or, if_true, Text.cut?_singleton h]

theorem attributes_eq {size : Nat} {seen : List (List Char × Nat)} {cs r r' a r'' : List Char} {c : Char}
    (hkey : cs.dropWhile isSpace = c :: r) (heq : (r.dropWhile isKeyChar).dropWhile isSpace = '=' :: r')
    (hnew : ∀ s ∈ seen, s.1 ≠ c :: r.takeWhile isKeyChar) (hvalue : value size r' = .ok (a, r'')) {as : Attributes}
    (has : attributes size ((c :: r.takeWhile isKeyChar, size - byteCount (c :: r)) :: seen) r'' = .ok as) :
    attributes size seen cs = .ok ((String.ofList (c :: r.takeWhile isKeyChar), String.ofList a) :: as) := by
  rw [attributes]
  split
  · rename_i h
    rw [h] at hkey
    cases hkey
  · rename_i h
    rw [h] at hkey
    cases hkey
    split
    · rename_i h'
      rw [h'] at heq
      cases heq
      have hnone : seen.find? (fun s => s.1 == c :: r.takeWhile isKeyChar) = none :=
        List.find?_eq_none.2 fun s hs => by simpa using hnew s hs
      simp only [hnone]
      split
      · rename_i h''
        rw [h''] at hvalue
        cases hvalue
      · rename_i h''
        rw [h''] at hvalue
        cases hvalue
        rw [has]
    · rename_i hne
      exact absurd heq (hne _)

theorem attributes_quoted {size : Nat} {seen : List (List Char × Nat)} {key v : String} {more : List Char}
    {as : Attributes} (hkey : isName key = true) (hv : '"' ∉ v.toList) (hnew : ∀ s ∈ seen, s.1 ≠ key.toList)
    (hrest : attributes size ((key.toList, size - byteCount (key.toList ++ '=' :: '"' :: (v.toList ++ '"' :: more)))
      :: seen) more = .ok as) :
    attributes size seen (' ' :: (key.toList ++ '=' :: '"' :: (v.toList ++ '"' :: more))) = .ok ((key, v) :: as) := by
  obtain ⟨hne, hchars⟩ := isName_iff.1 hkey
  obtain ⟨c, k, hk⟩ := List.exists_cons_of_ne_nil hne
  rw [hk] at hchars hnew hrest ⊢
  have hc : isSpace c = false := (ne_of_isNameChar (hchars c List.mem_cons_self)).1
  have hkeyChar : ∀ d ∈ k, isKeyChar d = true := by
    intro d hd
    have := ne_of_isNameChar (hchars d (List.mem_cons_of_mem _ hd))
    simp [isKeyChar, this.1, this.2.2.2.2.2.2.1]
  have htake : (k ++ '=' :: '"' :: (v.toList ++ '"' :: more)).takeWhile isKeyChar = k := by
    rw [List.takeWhile_append_of_pos hkeyChar]
    exact List.append_nil _
  have hdrop : ((k ++ '=' :: '"' :: (v.toList ++ '"' :: more)).dropWhile isKeyChar).dropWhile isSpace
      = '=' :: '"' :: (v.toList ++ '"' :: more) := by
    rw [List.dropWhile_append_of_pos hkeyChar]
    rfl
  have hspace : (' ' :: (c :: (k ++ '=' :: '"' :: (v.toList ++ '"' :: more)))).dropWhile isSpace
      = c :: (k ++ '=' :: '"' :: (v.toList ++ '"' :: more)) := by
    rw [List.dropWhile_cons_of_pos (by decide), List.dropWhile_cons_of_neg (by simp [hc])]
  have := attributes_eq hspace hdrop (by rwa [htake]) (value_quoted size hv _) (by rwa [htake])
  rw [List.cons_append, this, htake, ← hk, String.ofList_toList, String.ofList_toList]

/-- The attributes of a tag are read as they were written; blanks after them are passed over. -/
theorem attributes_attributesXml (size : Nat) {tail : List Char} (htail : ∀ c ∈ tail, isSpace c = true) :
    ∀ {as : Attributes} (seen : List (List Char × Nat)), (∀ a ∈ as, isName a.1 = true ∧ '"' ∉ a.2.toList) →
      (as.map (·.1)).Nodup → (∀ a ∈ as, ∀ s ∈ seen, s.1 ≠ a.1.toList) →
      attributes size seen ((attributesXml as).toList ++ tail) = .ok as
  | [], seen, _, _, _ => by
    have hblank : ((attributesXml []).toList ++ tail).dropWhile isSpace = [] := List.dropWhile_eq_nil_iff.2 htail
    rw [attributes]
    split
    · rfl
    · rename_i hc
      rw [hblank] at hc
      cases hc
  | (key, v) :: as, seen, h, hnd, hseen => by
    obtain ⟨hkey, hv⟩ := h (key, v) List.mem_cons_self
    rw [List.map_cons, List.nodup_cons] at hnd
    have hwhole : (attributesXml ((key, v) :: as)).toList ++ tail
        = ' ' :: (key.toList ++ '=' :: '"' :: (v.toList ++ '"' :: ((attributesXml as).toList ++ tail))) := by
      rw [toList_attributesXml_cons]
      simp
    rw [hwhole]
    refine attributes_quoted hkey hv (hseen (key, v) List.mem_cons_self) ?_
    -- The key joins those that have been seen, and no later attribute has it.
    refine attributes_attributesXml size htail _ (fun a ha => h a (List.mem_cons_of_mem _ ha)) hnd.2 ?_
    intro a ha s hs
    rcases List.mem_cons.1 hs with rfl | hs
    · intro he
      exact hnd.1 (List.mem_map.2 ⟨a, ha, String.toList_inj.1 he.symm⟩)
    · exact hseen a (List.mem_cons_of_mem _ ha) s hs

end Tag

/-! ## Whole tags -/

section Tags

variable {name : String} {as : Attributes}

theorem element_attributesXml (h : (⟨name, as, []⟩ : Element).isPlain = true) (hnd : (as.map (·.1)).Nodup)
    (tail : List Char) (htail : ∀ c ∈ tail, isSpace c = true) :
    Tag.element (name.toList ++ (attributesXml as).toList ++ tail) = .ok ⟨name, as, []⟩ := by
  obtain ⟨hname, has⟩ := isPlain_iff.1 h
  have hchars : ∀ c ∈ name.toList, (!isSpace c) = true := fun c hc => by
    rw [(ne_of_isNameChar ((isName_iff.1 hname).2 c hc)).1]
    rfl
  -- What follows the name is empty or begins with a blank.
  have hrest : ∀ c ∈ ((attributesXml as).toList ++ tail).head?, isSpace c = true := by
    cases as with
    | nil => exact fun c hc => htail c (List.mem_of_mem_head? hc)
    | cons a as =>
      obtain ⟨key, value⟩ := a
      rw [toList_attributesXml_cons]
      rintro c hc
      cases hc
      rfl
  have hcut {p : Char → Bool} {cs : List Char} (hp : ∀ c ∈ cs.head?, p c = false) :
      cs.dropWhile p = cs ∧ cs.takeWhile p = [] := by
    cases cs with
    | nil => exact ⟨rfl, rfl⟩
    | cons c cs => simp [hp c rfl]
  obtain ⟨hd, ht⟩ := hcut (p := fun c => !isSpace c) fun c hc => by rw [hrest c hc]; rfl
  rw [List.append_assoc, Tag.element, Tag.name, List.dropWhile_append_of_pos hchars, List.takeWhile_append_of_pos hchars, hd, ht,
    Tag.attributes_attributesXml _ htail [] has hnd fun _ _ _ hs => absurd hs List.not_mem_nil, List.append_nil,
    String.ofList_toList]

theorem element_of_isPlain (h : (⟨name, as, []⟩ : Element).isPlain = true) (hnd : (as.map (·.1)).Nodup) :
    Tag.element (name.toList ++ (attributesXml as).toList) = .ok ⟨name, as, []⟩ := by
  have := element_attributesXml h hnd [] fun _ hc => absurd hc List.not_mem_nil
  rwa [List.append_nil] at this

theorem exists_toList_eq_of_isName {s : String} (h : isName s = true) :
    ∃ c cs, s.toList = c :: cs ∧ isNameChar c = true := by
  obtain ⟨hne, hchars⟩ := isName_iff.1 h
  obtain ⟨c, cs, hs⟩ := List.exists_cons_of_ne_nil hne
  exact ⟨c, cs, hs, hchars c (hs ▸ List.mem_cons_self)⟩

theorem next_of_isName (h : isName name = true) (cs : List Char) :
    Markup.next '<' (name.toList ++ cs) = Markup.nextTag (name.toList ++ cs) := by
  obtain ⟨c, k, hk, hc⟩ := exists_toList_eq_of_isName h
  have hne := ne_of_isNameChar hc
  rw [hk, List.cons_append]
  exact Markup.next_eq_nextTag hne.2.2.2.2.2.2.2.1 hne.2.2.2.2.2.2.2.2 hne.2.2.2.2.2.1 _

theorem tag_content (h : (⟨name, as, []⟩ : Element).isPlain = true) {rest a r : List Char}
    (ht : Markup.tag none rest = .ok (a, r)) : Markup.tag none (name.toList ++ (attributesXml as).toList ++ rest)
      = .ok (name.toList ++ (attributesXml as).toList ++ a, r) := by
  obtain ⟨hname, has⟩ := isPlain_iff.1 h
  have hplain : ∀ c ∈ name.toList, c ≠ '>' ∧ c ≠ '"' ∧ c ≠ '\'' := fun c hc => by
    have := ne_of_isNameChar ((isName_iff.1 hname).2 c hc)
    exact ⟨this.2.2.1, this.2.2.2.1, this.2.2.2.2.1⟩
  have := Markup.tag_append_of_plain hplain (tag_attributesXml has ht)
  simpa using this

theorem exists_attributesXml_eq : ∀ {as : Attributes}, as ≠ [] → ∃ cs, (attributesXml as).toList = cs ++ ['"']
  | [], h => absurd rfl h
  | (key, v) :: as, _ => by
    rw [toList_attributesXml_cons]
    cases as with
    | nil => exact ⟨' ' :: (key.toList ++ '=' :: '"' :: v.toList), by simp [attributesXml]⟩
    | cons a as =>
      obtain ⟨cs, hcs⟩ := exists_attributesXml_eq (List.cons_ne_nil a as)
      exact ⟨' ' :: (key.toList ++ '=' :: '"' :: (v.toList ++ '"' :: cs)), by simp [hcs]⟩

theorem getLast?_content (h : (⟨name, as, []⟩ : Element).isPlain = true) :
    (name.toList ++ (attributesXml as).toList).getLast? ≠ some '/' := by
  obtain ⟨hname, has⟩ := isPlain_iff.1 h
  intro hl
  by_cases hnil : as = []
  · subst hnil
    rw [attributesXml, String.toList_empty, List.append_nil] at hl
    exact (ne_of_isNameChar ((isName_iff.1 hname).2 _ (List.mem_of_getLast? hl))).2.2.2.2.2.1 rfl
  · obtain ⟨cs, hcs⟩ := exists_attributesXml_eq hnil
    rw [hcs, ← List.append_assoc, List.getLast?_concat] at hl
    cases hl

theorem next_opening (h : (⟨name, as, []⟩ : Element).isPlain = true) (rest : List Char) :
    Markup.next '<' (name.toList ++ (attributesXml as).toList ++ ['>'] ++ rest)
      = .ok (.opening (name.toList ++ (attributesXml as).toList), rest) := by
  have ht := tag_content h (show Markup.tag none ('>' :: rest) = .ok ([], rest) from rfl)
  rw [List.append_nil] at ht
  rw [List.append_assoc, List.append_assoc, next_of_isName (isPlain_iff.1 h).1, ← List.append_assoc]
  unfold Markup.nextTag
  simp only [List.singleton_append, ht, if_neg (getLast?_content h)]

/-- **A plain start tag is read as it was written.** -/
theorem writes_opening (h : (⟨name, as, []⟩ : Element).isPlain = true) (hnd : (as.map (·.1)).Nodup) :
    Writes ('<' :: (name.toList ++ (attributesXml as).toList ++ ['>'])) [⟨name, as, []⟩] := by
  have hw : Writes ('<' :: (name.toList ++ (attributesXml as).toList ++ ['>'])) _ := Writes.of_next (next_opening h)
  rwa [Markup.tag?, element_of_isPlain h hnd] at hw

theorem next_empty (h : (⟨name, as, []⟩ : Element).isPlain = true) {tail : List Char}
    (htail : ∀ c ∈ tail, isSpace c = true) (rest : List Char) :
    Markup.next '<' (name.toList ++ (attributesXml as).toList ++ (tail ++ ['/', '>']) ++ rest)
      = .ok (.empty (name.toList ++ (attributesXml as).toList ++ tail), rest) := by
  have hplain : ∀ c ∈ tail, c ≠ '>' ∧ c ≠ '"' ∧ c ≠ '\'' := fun c hc => by
    have := htail c hc
    refine ⟨?_, ?_, ?_⟩ <;> rintro rfl <;> exact absurd this (by decide)
  have hslash : Markup.tag none (['/'] ++ '>' :: rest) = .ok (['/'], rest) := rfl
  have ht := tag_content h (Markup.tag_append_of_plain hplain hslash)
  rw [List.append_assoc, List.append_assoc, next_of_isName (isPlain_iff.1 h).1, Markup.nextTag]
  have hshape : name.toList ++ ((attributesXml as).toList ++ ((tail ++ ['/', '>']) ++ rest))
      = name.toList ++ (attributesXml as).toList ++ (tail ++ (['/'] ++ '>' :: rest)) := by simp
  rw [hshape, ht, ← List.append_assoc]
  simp

/-- **A plain empty tag is read as it was written**, with or without blanks before its end. -/
theorem writes_empty (h : (⟨name, as, []⟩ : Element).isPlain = true) (hnd : (as.map (·.1)).Nodup)
    (tail : List Char) (htail : ∀ c ∈ tail, isSpace c = true) :
    Writes ('<' :: (name.toList ++ (attributesXml as).toList ++ (tail ++ ['/', '>']))) [⟨name, as, []⟩] := by
  have hw : Writes ('<' :: (name.toList ++ (attributesXml as).toList ++ (tail ++ ['/', '>']))) _ :=
    Writes.of_next (next_empty h htail)
  rwa [Markup.tag?, element_attributesXml h hnd tail htail] at hw

theorem writes_closing (h : isName name = true) : Writes ('<' :: '/' :: (name.toList ++ ['>'])) [] := by
  refine Writes.of_next (m := .closing (Markup.closingName name.toList)) fun rest => ?_
  have hplain : ∀ c ∈ name.toList, c ≠ '>' ∧ c ≠ '"' ∧ c ≠ '\'' := fun c hc => by
    have := ne_of_isNameChar ((isName_iff.1 h).2 c hc)
    exact ⟨this.2.2.1, this.2.2.2.1, this.2.2.2.2.1⟩
  have ht := Markup.tag_append_of_plain hplain (show Markup.tag none ('>' :: rest) = .ok ([], rest) from rfl)
  rw [List.append_nil] at ht
  change Markup.nextClosing (name.toList ++ ['>'] ++ rest) = _
  rw [Markup.nextClosing, List.append_assoc, List.cons_append, List.nil_append, ht]

end Tags

end Xml
end Bookbinder
