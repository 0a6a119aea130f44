import Bookbinder.Proofs.DoctypeEnds
import Bookbinder.Proofs.XmlFragments
import Bookbinder.Proofs.XmlSound
/-!
# Tags that are read again

A tag's content is its name and its attributes, each value between double quotes.  A content that is read as an element
and begins like what the element is written as is written that way, up to spaces (`content_of_begins`).  So the tag that an
element is written as is read as that tag in one way only (`rereads_of_next`).
-/
namespace Bookbinder
namespace Xml

open Text (cut? isSpace)

namespace Tag

/-- How the first attribute of a tag is written: with spaces before it and on both sides of the equals sign, and with
quotes that do not stand in the value. -/
structure Leads (cs : List Char) (key value rest : List Char) : Prop where
  text : ∃ lead gap gap' q, cs = lead ++ (key ++ (gap ++ '=' :: (gap' ++ q :: (value ++ q :: rest)))) ∧
    (∀ c ∈ lead, isSpace c = true) ∧ (∀ c ∈ gap, isSpace c = true) ∧ (∀ c ∈ gap', isSpace c = true) ∧
    (q = '"' ∨ q = '\'') ∧ q ∉ value
  begins : ∃ c cs, key = c :: cs ∧ isSpace c = false

theorem exists_value {size : Nat} {cs a r : List Char} (h : value size cs = .ok (a, r)) :
    ∃ gap q, cs = gap ++ q :: (a ++ q :: r) ∧ (∀ c ∈ gap, isSpace c = true) ∧ (q = '"' ∨ q = '\'') ∧ q ∉ a := by
  have hsplit := List.takeWhile_append_dropWhile (p := isSpace) (l := cs)
  unfold value at h
  split at h
  · cases h
  · rename_i q t hcs
    split at h
    · rename_i hq
      split at h
      · rename_i a' r' hcut
        cases h
        refine ⟨cs.takeWhile isSpace, q, ?_, fun c hc => List.mem_takeWhile_imp hc, hq, Text.notMem_of_cut? hcut⟩
        have ht := Text.cut?_eq_some hcut
        rw [hcs, ht] at hsplit
        simpa using hsplit.symm
      · cases h
    · cases h

theorem leads_of_attributes {size : Nat} {seen : List (List Char × Nat)} {cs : List Char} {k v : String}
    {as : Attributes} (h : attributes size seen cs = .ok ((k, v) :: as)) :
    ∃ rest seen', Leads cs k.toList v.toList rest ∧ attributes size seen' rest = .ok as := by
  rw [attributes] at h
  split at h
  · cases h
  · rename_i c r hkey
    split at h
    · rename_i r' heq
      dsimp only at h
      split at h
      · cases h
      · split at h
        · cases h
        · rename_i a r'' hvalue
          split at h
          · rename_i as' has
            simp only [Except.ok.injEq, List.cons.injEq, Prod.mk.injEq] at h
            obtain ⟨⟨rfl, rfl⟩, rfl⟩ := h
            obtain ⟨gap', q, hr', hgap', hq, hfree⟩ := exists_value hvalue
            refine ⟨r'', _, ⟨⟨cs.takeWhile isSpace, (r.dropWhile isKeyChar).takeWhile isSpace, gap', q, ?_, ?_, ?_, hgap',
              hq, ?_⟩, c, r.takeWhile isKeyChar, String.toList_ofList, ?_⟩, has⟩
            · rw [String.toList_ofList, String.toList_ofList, ← hr', ← heq, List.takeWhile_append_dropWhile,
                List.cons_append, List.takeWhile_append_dropWhile, ← hkey, List.takeWhile_append_dropWhile]
            · exact fun c hc => List.mem_takeWhile_imp hc
            · exact fun c hc => List.mem_takeWhile_imp hc
            · rwa [String.toList_ofList]
            · exact Text.head_dropWhile c (by rw [hkey]; rfl)
          · cases h
    · cases h

/-- Texts that go on alike after spaces go on alike at once if none of them goes on with a space. -/
theorem eq_nil_of_spaces {gap x y : List Char} {c : Char} (hgap : ∀ d ∈ gap, isSpace d = true)
    (hc : isSpace c = false) (h : gap ++ x = c :: y) : gap = [] := by
  cases gap with
  | nil => rfl
  | cons d gap =>
    have hd := hgap d List.mem_cons_self
    rw [(List.cons.inj h).1, hc] at hd
    cases hd

/-- **Attributes that are read from the text that they are written as, or from the beginning of it, take all of it**, and
none of their values holds a double quote. -/
theorem attributes_of_begins {as : Attributes} {size : Nat} {seen : List (List Char × Nat)} {cs y z : List Char}
    (h : attributes size seen cs = .ok as) (he : cs ++ y = (attributesXml as).toList ++ z) :
    (∀ a ∈ as, '"' ∉ a.2.toList) ∧ ∃ tail, cs = (attributesXml as).toList ++ tail ∧ ∀ c ∈ tail, isSpace c = true := by
  induction as generalizing seen cs with
  | nil =>
    refine ⟨fun _ ha => absurd ha List.not_mem_nil, cs, by simp [attributesXml], ?_⟩
    rw [attributes] at h
    split at h
    · rename_i hnil
      exact List.dropWhile_eq_nil_iff.1 hnil
    · split at h
      · dsimp only at h
        split at h
        · cases h
        · split at h
          · cases h
          · split at h <;> cases h
      · cases h
  | cons a as ih =>
    obtain ⟨k, v⟩ := a
    obtain ⟨rest, seen', ⟨⟨lead, gap, gap', q, rfl, hlead, hgap, hgap', hq, hfree⟩, c, key, hk, hc⟩,
      hrest⟩ := leads_of_attributes h
    rw [toList_attributesXml_cons] at he ⊢
    simp only [List.append_assoc, List.cons_append] at he
    -- One space leads, since the key begins with none.
    obtain rfl : lead = [' '] := by
      cases lead with
      | nil =>
        rw [hk] at he
        rw [(List.cons.inj he).1] at hc
        exact absurd hc (by decide)
      | cons d lead =>
        obtain ⟨rfl, hrest'⟩ := List.cons.inj he
        rw [hk] at hrest'
        rw [eq_nil_of_spaces (fun d hd => hlead d (List.mem_cons_of_mem _ hd)) hc hrest']
    rw [List.singleton_append] at he
    have he₁ := List.append_cancel_left (List.cons.inj he).2
    have hequals : isSpace '=' = false := by decide
    have hquote : isSpace '"' = false := by decide
    obtain rfl : gap = [] := eq_nil_of_spaces hgap hequals he₁
    have he₂ := (List.cons.inj he₁).2
    obtain rfl : gap' = [] := eq_nil_of_spaces hgap' hquote he₂
    obtain ⟨rfl, he₃⟩ := List.cons.inj he₂
    obtain ⟨-, he₄⟩ := List.cons.inj (List.append_cancel_left he₃)
    obtain ⟨hvalues, tail, rfl, htail⟩ := ih hrest he₄
    refine ⟨List.forall_mem_cons.2 ⟨hfree, hvalues⟩, tail, ?_, htail⟩
    simp

end Tag

/-! ## Pieces -/

namespace Markup

/-- What a piece is read from, if it keeps all of that. -/
def source : Markup → List Char
  | .text raw => raw
  | .reference name => '&' :: (name ++ [';'])
  | .opening content => '<' :: (content ++ ['>'])
  | .empty content => '<' :: (content ++ ['/', '>'])
  | .cdata content => '<' :: '!' :: '[' :: 'C' :: 'D' :: 'A' :: 'T' :: 'A' :: '[' :: (content ++ [']', ']', '>'])
  | .comment content => '<' :: '!' :: '-' :: '-' :: (content ++ ['-', '-', '>'])
  | .instruction content => '<' :: '?' :: (content ++ ['?', '>'])
  | _ => []

/-- Whether a piece that begins with the character ends where the text begins: running text takes in all that follows it
up to the next markup. -/
def Parted (c : Char) (rest : List Char) : Prop :=
  isText c = true → ∀ d ∈ rest.head?, isText d = false

/-- A piece that is read again from what it was read from, whatever follows. -/
def Legible (m : Markup) : Prop :=
  ∃ c cs, m.source = c :: cs ∧ ∀ rest, Parted c rest → next c (cs ++ rest) = .ok (m, rest)

/-- A piece that keeps all that it is read from. -/
def Verbatim : Markup → Prop
  | .closing _ => False
  | .declaration => False
  | .doctype _ => False
  | _ => True

theorem Verbatim.of_leaf? {m : Markup} {n : Node} (h : m.leaf? = some n) : m.Verbatim := by
  cases m <;> trivial

theorem Verbatim.of_tag? {m : Markup} {e : Element} (h : m.tag? = some e) : m.Verbatim := by
  cases m <;> trivial

theorem legible_nextReference {cs r : List Char} {m : Markup} (h : nextReference cs = .ok (m, r)) :
    '&' :: cs = m.source ++ r ∧ m.Legible := by
  simp only [nextReference] at h
  have hsplit := List.takeWhile_append_dropWhile (p := fun c => c != ';' && isText c) (l := cs)
  have hname := fun c => List.mem_takeWhile_imp (p := fun c => c != ';' && isText c) (l := cs) (x := c)
  split at h
  · rename_i r' hr
    cases h
    rw [hr] at hsplit
    generalize cs.takeWhile (fun c => c != ';' && isText c) = name at hname hsplit
    rw [← hsplit]
    exact ⟨by simp [source], '&', name ++ [';'], rfl, fun rest _ => next_reference hname rest⟩
  · cases h

theorem legible_nextBang {cs r : List Char} {m : Markup} (h : nextBang cs = .ok (m, r)) (hm : m.Verbatim) :
    '<' :: '!' :: cs = m.source ++ r ∧ m.Legible := by
  have hdoctype {cs : List Char} (h : nextDoctype cs = .ok (m, r)) : False := by
    obtain ⟨content, rfl⟩ := exists_of_nextDoctype h
    exact hm
  unfold nextBang at h
  split at h
  · split at h
    · rename_i a r' hcut
      cases h
      obtain ⟨cs', hafter, hcut'⟩ := Option.bind_eq_some_iff.1 hcut
      have hshape := Text.after?_eq_some hafter
      have hrest := Text.cut?_eq_some hcut'
      refine ⟨?_, '<', _, rfl, fun rest _ => next_cdata (ends_of_cut hcut) rest⟩
      rw [hshape, hrest]
      simp [source]
    · cases h
  · split at h
    · rename_i a r' hcut
      cases h
      obtain ⟨cs', hafter, hcut'⟩ := Option.bind_eq_some_iff.1 hcut
      have hshape := Text.after?_eq_some hafter
      have hrest := Text.cut?_eq_some hcut'
      refine ⟨?_, '<', _, rfl, fun rest _ => next_comment (ends_of_cut hcut) rest⟩
      rw [hshape, hrest]
      simp [source]
    · cases h
  · exact absurd (hdoctype h) not_false
  · exact absurd (hdoctype h) not_false
  · cases h

theorem legible_nextInstruction {cs r : List Char} {m : Markup} (h : nextInstruction cs = .ok (m, r))
    (hm : m.Verbatim) : '<' :: '?' :: cs = m.source ++ r ∧ m.Legible := by
  unfold nextInstruction at h
  split at h
  · cases h
  · rename_i hhead
    split at h
    · rename_i a r' hcut
      have hshape := Text.cut?_eq_some hcut
      have hfree : a.head? ≠ some '>' := by
        rintro ha
        cases a with
        | nil => cases ha
        | cons c a =>
          rw [hshape] at hhead
          exact hhead ha
      have hnext := next_instruction (cut?_ends hcut) hfree
      simp only [Except.ok.injEq, Prod.mk.injEq] at h
      obtain ⟨rfl, rfl⟩ := h
      split at hnext
      · rename_i hd
        rw [if_pos hd] at hm
        exact absurd hm not_false
      · rename_i hd
        rw [if_neg hd]
        exact ⟨by rw [hshape]; simp [source], '<', _, rfl, fun rest _ => hnext rest⟩
    · cases h

theorem exists_nextTag {cs r : List Char} {m : Markup} (h : nextTag cs = .ok (m, r)) :
    ∃ c cs', m.source = '<' :: c :: cs' ∧ cs = c :: cs' ++ r ∧ ∀ rest, nextTag (c :: cs' ++ rest) = .ok (m, rest) := by
  unfold nextTag at h
  split at h
  · rename_i a r' ha
    obtain ⟨rfl, htag⟩ := tag_eq_ok ha
    simp only [Except.ok.injEq, Prod.mk.injEq] at h
    obtain ⟨rfl, rfl⟩ := h
    have hnext (rest : List Char) : nextTag (a ++ ['>'] ++ rest)
        = .ok (if a.getLast? = some '/' then .empty a.dropLast else .opening a, rest) := by
      rw [nextTag, List.append_assoc, List.singleton_append, htag]
    have hsource : source (if a.getLast? = some '/' then .empty a.dropLast else .opening a) = '<' :: (a ++ ['>']) := by
      split
      · rename_i hlast
        obtain ⟨b, rfl⟩ := List.getLast?_eq_some_iff.1 hlast
        simp [source]
      · rfl
    obtain ⟨c, cs', hcs⟩ := List.exists_cons_of_ne_nil (List.append_ne_nil_of_right_ne_nil a (List.cons_ne_nil '>' []))
    rw [hcs] at hnext hsource
    exact ⟨c, cs', hsource, by rw [← hcs]; simp, hnext⟩
  · cases h

/-- **A piece that has been read is read again from what it was read from**, whatever follows. -/
theorem legible_of_next {c : Char} {cs r : List Char} {m : Markup} (h : next c cs = .ok (m, r)) (hm : m.Verbatim) :
    c :: cs = m.source ++ r ∧ m.Legible := by
  unfold next at h
  split at h
  · rename_i hc
    subst hc
    unfold nextAngle at h
    split at h
    · exact legible_nextBang h hm
    · exact legible_nextInstruction h hm
    · unfold nextClosing at h
      split at h
      · cases h
        exact absurd hm not_false
      · cases h
    · rename_i hbang hquestion hslash
      obtain ⟨d, ds, hsource, rfl, hnext⟩ := exists_nextTag h
      have hd {e : Char} (hne : ∀ cs', d :: (ds ++ r) = e :: cs' → False) : d ≠ e := fun he => hne (ds ++ r) (by rw [he])
      refine ⟨by rw [hsource]; rfl, '<', d :: ds, hsource, fun rest _ => ?_⟩
      rw [List.cons_append, next_eq_nextTag (hd hbang) (hd hquestion) (hd hslash)]
      exact hnext rest
  · rename_i hlt
    split at h
    · rename_i hamp
      subst hamp
      exact legible_nextReference h
    · rename_i hamp
      cases h
      have htext : isText c = true := by simp [isText, hlt, hamp]
      refine ⟨by rw [source, List.cons_append, List.takeWhile_append_dropWhile], c, _, rfl, fun rest hrest => ?_⟩
      have hrun : ∀ d ∈ cs.takeWhile isText, isText d = true := fun d hd => List.mem_takeWhile_imp hd
      rw [next, if_neg hlt, if_neg hamp, List.takeWhile_append_of_pos hrun, List.dropWhile_append_of_pos hrun,
        Text.dropWhile_eq_self (hrest htext), Text.takeWhile_eq_nil (hrest htext), List.append_nil]

end Markup

/-! ## Elements -/

namespace Element

/-- What the element's tag is written to hold, the slash of an empty tag apart. -/
def content (e : Element) : List Char :=
  e.name.toList ++ (attributesXml e.attributes).toList

/-- The tag that the element is written with first: its start tag, or an empty tag if it has no children. -/
def piece (e : Element) : Markup :=
  if e.children.isEmpty then .empty e.content else .opening e.content

/-- The tag that the element is written with is read again, as that tag and with the element's name and attributes. -/
structure Rereads (e : Element) : Prop where
  tag : Tag.element e.content = .ok e.tag
  piece : e.piece.Legible

/-- A tag's content that is read as an element's tag and begins like what the element's tag is written to hold is that,
up to spaces at its end. -/
theorem content_of_begins {e : Element} {content y z : List Char} (h : Tag.element content = .ok e.tag)
    (he : content ++ y = e.content ++ z) : (∀ a ∈ e.attributes, '"' ∉ a.2.toList) ∧
      ∃ tail, content = e.content ++ tail ∧ ∀ c ∈ tail, isSpace c = true := by
  have hsplit := List.takeWhile_append_dropWhile (p := fun c => !isSpace c) (l := content)
  rw [Tag.element] at h
  split at h
  · rename_i as has
    simp only [Except.ok.injEq, Element.tag, Element.mk.injEq] at h
    obtain ⟨hname, rfl, -⟩ := h
    have hname' : content.takeWhile (fun c => !isSpace c) = e.name.toList := by
      rw [← hname, Tag.name, String.toList_ofList]
    rw [hname'] at hsplit
    rw [← hsplit, Element.content, List.append_assoc, List.append_assoc] at he
    obtain ⟨hvalues, tail, htail, hspaces⟩ := Tag.attributes_of_begins has (List.append_cancel_left he)
    exact ⟨hvalues, tail, by rw [Element.content, List.append_assoc, ← htail, hsplit], hspaces⟩
  · cases h

/-- **If the text of an element's tag is read as the element's tag at all, it is read as it was written.** -/
theorem rereads_of_next {e : Element} {cs r more : List Char} {m : Markup} (h : Markup.next '<' cs = .ok (m, r))
    (he : '<' :: cs = e.piece.source ++ more) (hm : m.tag? = some e.tag) :
    e.Rereads ∧ m = e.piece ∧ r = more := by
  obtain ⟨hsource, hlegible⟩ := Markup.legible_of_next h (.of_tag? hm)
  rw [hsource] at he
  obtain ⟨a, hread, hpiece'⟩ := exists_content hm
  -- The two texts go on with a character that is no space, so nothing stands between the content and that.
  have hcontent {x y : List Char} {c : Char} (hc : isSpace c = false) (he : a ++ x = e.content ++ c :: y) :
      a = e.content ∧ x = c :: y := by
    obtain ⟨-, tail, rfl, htail⟩ := content_of_begins hread he
    rw [List.append_assoc] at he
    have hend := List.append_cancel_left he
    have hnil := Tag.eq_nil_of_spaces htail hc hend
    subst hnil
    exact ⟨List.append_nil _, hend⟩
  have hclose : isSpace '>' = false := by decide
  have hslash : isSpace '/' = false := by decide
  have hne : '>' ≠ '/' := by decide
  by_cases hchildren : e.children.isEmpty = true
  · have hpiece : e.piece = .empty e.content := if_pos hchildren
    rw [hpiece] at he ⊢
    rcases hpiece' with rfl | rfl
    · obtain ⟨-, hy⟩ := hcontent hslash (x := '>' :: r) (y := '>' :: more) (by simpa [Markup.source] using he)
      exact absurd (List.cons.inj hy).1 hne
    · obtain ⟨rfl, hy⟩ := hcontent hslash (x := '/' :: '>' :: r) (y := '>' :: more)
        (by simpa [Markup.source] using he)
      exact ⟨⟨hread, hpiece ▸ hlegible⟩, rfl, (List.cons.inj (List.cons.inj hy).2).2⟩
  · have hpiece : e.piece = .opening e.content := if_neg hchildren
    rw [hpiece] at he ⊢
    rcases hpiece' with rfl | rfl
    · obtain ⟨rfl, hy⟩ := hcontent hclose (x := '>' :: r) (y := more) (by simpa [Markup.source] using he)
      exact ⟨⟨hread, hpiece ▸ hlegible⟩, rfl, (List.cons.inj hy).2⟩
    · obtain ⟨-, hy⟩ := hcontent hclose (x := '/' :: '>' :: r) (y := more) (by simpa [Markup.source] using he)
      exact absurd (List.cons.inj hy).1.symm hne

/-- The value of no attribute of an element that is read again holds a double quote. -/
theorem Rereads.notMem_quote {e : Element} (h : e.Rereads) : ∀ a ∈ e.attributes, '"' ∉ a.2.toList :=
  (content_of_begins h.tag (y := []) (z := []) rfl).1

/-- **An element of plain names, no attribute twice and no double quote in a value is read again.** -/
theorem rereads_of_isPlain {e : Element} (h : e.isPlain = true) (hnd : (e.attributes.map (·.1)).Nodup) : e.Rereads := by
  obtain ⟨name, as, cs⟩ := e
  have hnone : ∀ c ∈ ([] : List Char), isSpace c = true := fun _ hc => absurd hc List.not_mem_nil
  refine ⟨element_of_isPlain h hnd, ?_⟩
  cases cs with
  | nil =>
    refine ⟨'<', _, rfl, fun rest _ => ?_⟩
    have hnext := next_empty h hnone rest
    rw [List.append_nil] at hnext
    exact hnext
  | cons n ns => exact ⟨'<', _, rfl, fun rest _ => next_opening h rest⟩

/-- The tag of an element of plain names is read again just if no value holds a double quote. -/
theorem rereads_iff {e : Element} (hname : isName e.name = true) (hkeys : ∀ a ∈ e.attributes, isName a.1 = true)
    (hnd : (e.attributes.map (·.1)).Nodup) : e.Rereads ↔ ∀ a ∈ e.attributes, '"' ∉ a.2.toList :=
  ⟨Rereads.notMem_quote, fun h => rereads_of_isPlain (isPlain_iff.2 ⟨hname, fun a ha => ⟨hkeys a ha, h a ha⟩⟩) hnd⟩

end Element
end Xml
end Bookbinder
