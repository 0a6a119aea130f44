import Bookbinder.Proofs.CdataSections
import Bookbinder.Proofs.TitledSections
/-!
# The content of elements

What a text is read as where it stands within an element.  Texts that add nodes whatever follows (`Adds`) or before
markup (`AddsBefore`) are put together like the texts themselves.  Messages are running text with escaped words,
emphasis and listings in between, and are read if what they list is sealed (`Worded.exists_adds`).
-/
namespace Bookbinder
namespace Xml

open Reading
open Text (cut? after?)

/-! ## Adding nodes -/

/-- A text that adds nodes to the innermost open element, whatever follows it. -/
def Adds (s : String) (ns : List Node) : Prop :=
  ∀ (r : Reading) (rest : List Char), r.opened ≠ [] → r.run (s.toList ++ rest) = (r.put ns).run rest

/-- A text that adds nodes to the innermost open element if markup follows it. -/
def AddsBefore (s : String) (ns : List Node) : Prop :=
  ∀ (r : Reading) (rest : List Char), r.opened ≠ [] → (∀ c ∈ rest.head?, Markup.isText c = false) →
    r.run (s.toList ++ rest) = (r.put ns).run rest

/-- A text that begins with markup. -/
def Begins (s : String) : Prop :=
  ∃ c cs, s.toList = c :: cs ∧ Markup.isText c = false

section Adding

variable {s t : String} {ns ms : List Node}

theorem Begins.append (h : Begins s) (t : String) : Begins (s ++ t) := by
  obtain ⟨c, cs, hcs, hc⟩ := h
  exact ⟨c, cs ++ t.toList, by rw [String.toList_append, hcs]; rfl, hc⟩

theorem Begins.isText (h : Begins s) (rest : List Char) :
    ∀ c ∈ (s.toList ++ rest).head?, Markup.isText c = false := by
  obtain ⟨c, cs, hcs, hc⟩ := h
  rw [hcs]
  rintro d ⟨⟩
  exact hc

theorem adds_empty : Adds "" [] := fun r rest _ => by
  rw [put_nil]
  rfl

theorem Adds.before (h : Adds s ns) : AddsBefore s ns := fun r rest ho _ => h r rest ho

theorem Adds.append_before (h : Adds s ns) (h' : AddsBefore t ms) : AddsBefore (s ++ t) (ns ++ ms) :=
  fun r rest ho hrest => by
    rw [String.toList_append, List.append_assoc, h r _ ho, h' _ rest (put_opened ho ns) hrest, put_append]

theorem AddsBefore.append_before (h : AddsBefore s ns) (hbegins : Begins t) (h' : AddsBefore t ms) :
    AddsBefore (s ++ t) (ns ++ ms) :=
  fun r rest ho hrest => by
    rw [String.toList_append, List.append_assoc, h r _ ho (hbegins.isText rest),
      h' _ rest (put_opened ho ns) hrest, put_append]

theorem addsBefore_running (hne : s ≠ "") (h : ∀ c ∈ s.toList, Markup.isText c = true) : AddsBefore s [.text s] :=
  fun r rest ho hrest => by
    cases hs : s.toList with
    | nil => exact absurd (String.toList_eq_nil_iff.1 hs) hne
    | cons c cs =>
      rw [hs] at h
      have hc := h c List.mem_cons_self
      have hcs : ∀ d ∈ cs, Markup.isText d = true := fun d hd => h d (List.mem_cons_of_mem _ hd)
      rw [Markup.isText, Bool.and_eq_true, bne_iff_ne, bne_iff_ne] at hc
      have hnext : Markup.next c (cs ++ rest) = .ok (.text (c :: cs), rest) := by
        rw [Markup.next, if_neg hc.1, if_neg hc.2, List.takeWhile_append_of_pos hcs, List.dropWhile_append_of_pos hcs,
          Text.takeWhile_eq_nil hrest, Text.dropWhile_eq_self hrest, List.append_nil]
      rw [List.cons_append, run_of_next hnext (add_put ho _), ← hs, String.ofList_toList]

end Adding

/-! ## Elements -/

theorem isTagName_of_isName {name : String} (h : isName name = true) : IsTagName name where
  head c hc := by
    have hne := ne_of_isNameChar ((isName_iff.1 h).2 c (List.mem_of_mem_head? hc))
    exact ⟨hne.2.2.2.2.2.2.2.1, hne.2.2.2.2.2.2.2.2, hne.2.2.2.2.2.1⟩
  spaceless c hc := (ne_of_isNameChar ((isName_iff.1 h).2 c hc)).1

theorem closes_of_isName {name : String} (h : isName name = true) : Closes name := by
  have hplain : (⟨name, [], []⟩ : Element).isPlain = true := isPlain_iff.2 ⟨h, fun a ha => absurd ha List.not_mem_nil⟩
  have htag := tag_content hplain (show Markup.tag none ['>'] = .ok ([], []) from rfl)
  unfold Closes
  simpa [attributesXml] using htag

/-- A tag that opens an element. -/
def startTag (name : String) (as : Attributes) : String :=
  "<" ++ name ++ attributesXml as ++ ">"

def endTag (name : String) : String :=
  "</" ++ name ++ ">"

/-- An element as it is written around its content. -/
def tagsAround (name : String) (as : Attributes) (inner : String) : String :=
  startTag name as ++ inner ++ endTag name

theorem begins_startTag (name : String) (as : Attributes) : Begins (startTag name as) :=
  ⟨'<', _, by simp only [startTag, String.toList_append, List.append_assoc]; rfl, rfl⟩

theorem begins_endTag (name : String) : Begins (endTag name) :=
  ⟨'<', _, by simp only [endTag, String.toList_append, List.append_assoc]; rfl, rfl⟩

/-- The tag of an element that holds nothing. -/
def emptyTag (name : String) (as : Attributes) : String :=
  "<" ++ name ++ attributesXml as ++ " />"

theorem begins_emptyTag (name : String) (as : Attributes) : Begins (emptyTag name as) :=
  ⟨'<', _, by simp only [emptyTag, String.toList_append, List.append_assoc]; rfl, rfl⟩

theorem begins_tagsAround (name : String) (as : Attributes) (inner : String) : Begins (tagsAround name as inner) :=
  ((begins_startTag name as).append inner).append _

section Tags

variable {name inner : String} {as : Attributes} {ns : List Node}

theorem run_startTag (hplain : (⟨name, as, []⟩ : Element).isPlain = true) (hkeys : (as.map (·.1)).Nodup) (r : Reading)
    (rest : List Char) :
    r.run ((startTag name as).toList ++ rest) = { r with opened := ⟨name, as, []⟩ :: r.opened }.run rest := by
  have hshape : (startTag name as).toList ++ rest
      = '<' :: (name.toList ++ (attributesXml as).toList ++ ['>'] ++ rest) := by
    simp [startTag]
  rw [hshape, run_of_next (next_opening hplain _) (step_opening (element_of_isPlain hplain hkeys))]

theorem run_endTag (hname : isName name = true) {r r' : Reading} {cs : List Node} {es : List Element}
    (ho : r.opened = ⟨name, as, cs⟩ :: es)
    (hadd : { r with opened := es }.add (.element name as cs.reverse) = .ok r') (rest : List Char) :
    r.run ((endTag name).toList ++ rest) = r'.run rest := by
  have hshape : (endTag name).toList ++ rest = '<' :: '/' :: (name.toList ++ ['>'] ++ rest) := by simp [endTag]
  rw [hshape, run_of_next (next_of_closes (closes_of_isName hname) (isTagName_of_isName hname) rest)
    ((step_closing ho).trans hadd)]

/-- **Tags around content add one element that holds what the content adds.** -/
theorem adds_tagsAround (hplain : (⟨name, as, []⟩ : Element).isPlain = true) (hkeys : (as.map (·.1)).Nodup)
    (h : AddsBefore inner ns) : Adds (tagsAround name as inner) [.element name as ns] := fun r rest ho => by
  rw [tagsAround, String.toList_append, String.toList_append, List.append_assoc, List.append_assoc,
    run_startTag hplain hkeys, h _ _ (List.cons_ne_nil _ _) ((begins_endTag name).isText rest)]
  refine run_endTag (isPlain_iff.1 hplain).1 rfl ?_ rest
  rw [List.append_nil, List.reverse_reverse]
  exact add_put ho _

/-- The tag of an element that holds nothing, with white space before its end. -/
theorem run_emptyTag (hplain : (⟨name, as, []⟩ : Element).isPlain = true) (hkeys : (as.map (·.1)).Nodup)
    {blanks : List Char} (hblank : ∀ c ∈ blanks, Text.isSpace c = true) {r r' : Reading}
    (hadd : r.add (.element name as []) = .ok r') (rest : List Char) :
    r.run ('<' :: (name.toList ++ (attributesXml as).toList ++ (blanks ++ ['/', '>']) ++ rest)) = r'.run rest :=
  run_of_next (next_empty hplain hblank rest)
    ((step_empty (element_attributesXml hplain hkeys blanks hblank)).trans hadd)

/-- An empty tag adds one element that holds nothing. -/
theorem adds_emptyTag (hplain : (⟨name, as, []⟩ : Element).isPlain = true) (hkeys : (as.map (·.1)).Nodup) :
    Adds (emptyTag name as) [.element name as []] := fun r rest ho => by
  have hblank : ∀ c ∈ [' '], Text.isSpace c = true := by decide
  have hshape : (emptyTag name as).toList ++ rest
      = '<' :: (name.toList ++ (attributesXml as).toList ++ ([' '] ++ ['/', '>']) ++ rest) := by
    simp [emptyTag]
  rw [hshape]
  exact run_emptyTag hplain hkeys hblank (add_put ho _) rest

/-! ## Roots -/

/-- What is read of a root up to where its content goes on. -/
theorem exists_run_root {lead rest : String} (hlead : Introduces lead) (hplain : (⟨name, as, []⟩ : Element).isPlain = true)
    (hkeys : (as.map (·.1)).Nodup) (h : AddsBefore inner ns) (hrest : Begins rest) : ∃ r : Reading, r.root = none ∧
      r.opened = [⟨name, as, ns.reverse⟩] ∧
      Document.read (lead ++ (startTag name as ++ inner ++ rest)) = r.run rest.toList := by
  have hhead : (startTag name as ++ inner ++ rest).toList.head? = some '<' := by
    simp only [startTag, String.toList_append, List.append_assoc]
    rfl
  obtain ⟨r, ho, hroot, hread⟩ := hlead _ hhead
  have hmarkup := hrest.isText []
  rw [List.append_nil] at hmarkup
  refine ⟨{ r with opened := ⟨name, as, ns.reverse⟩ :: r.opened }, hroot, by rw [ho], ?_⟩
  rw [hread, String.toList_append, String.toList_append, List.append_assoc, run_startTag hplain hkeys,
    h _ _ (List.cons_ne_nil _ _) hmarkup, put]
  simp only [List.append_nil]

theorem run_blank {r : Reading} (ho : r.opened = []) {root : Element} (hroot : r.root = some root) {tail : String}
    (htail : tail = "" ∨ tail = "\n") : r.run tail.toList = .ok ⟨r.declared, r.doctype, root⟩ := by
  have hend : r.run [] = .ok ⟨r.declared, r.doctype, root⟩ := by
    rw [run, finish, ho, hroot]
  rcases htail with rfl | rfl
  · exact hend
  · exact (run_line ho (by simp)).trans hend

/-- **A root is read with what its content adds.** -/
theorem exists_read_root {lead tail : String} (hlead : Introduces lead)
    (hplain : (⟨name, as, []⟩ : Element).isPlain = true) (hkeys : (as.map (·.1)).Nodup) (h : AddsBefore inner ns)
    (htail : tail = "" ∨ tail = "\n") :
    ∃ d, Document.read (lead ++ (tagsAround name as inner ++ tail)) = .ok d ∧ d.root = ⟨name, as, ns⟩ := by
  obtain ⟨r, hroot, ho, hread⟩ := exists_run_root hlead hplain hkeys h ((begins_endTag name).append tail)
  have hadd : { r with opened := [] }.add (.element name as ns.reverse.reverse)
      = .ok { r with opened := [], root := some ⟨name, as, ns⟩ } := by
    simp only [add, attach, hroot, List.reverse_reverse]
    rfl
  rw [String.toList_append, run_endTag (isPlain_iff.1 hplain).1 ho hadd, run_blank rfl rfl htail] at hread
  exact ⟨_, by rw [tagsAround, String.append_assoc]; exact hread, rfl⟩

end Tags

/-- The nodes that a text is read as where it is all that an element holds. -/
def content? (s : String) : Option (List Node) :=
  match Document.read (tagsAround "para" [] s) with
  | .ok d => some d.root.children
  | .error _ => none

theorem content?_of_addsBefore {s : String} {ns : List Node} (h : AddsBefore s ns) : content? s = some ns := by
  have hplain : (⟨"para", [], []⟩ : Element).isPlain = true := by decide
  obtain ⟨d, hread, hroot⟩ := exists_read_root introduces_empty hplain List.nodup_nil h (.inl rfl)
  rw [String.empty_append, String.append_empty] at hread
  simp only [content?, hread, hroot]

/-! ## Sections of character data -/

theorem cut?_of_terminators {cs : List Char} (h : terminators cs = 0) (rest : List Char) :
    cut? "]]>".toList (cs ++ "]]>".toList ++ rest) = some (cs, rest) := by
  induction cs with
  | nil => exact Text.cut?_eq_of_after? (Text.after?_self_append "]]>".toList rest)
  | cons c cs ih =>
    rw [terminators, Nat.add_eq_zero_iff] at h
    obtain ⟨hc, hcs⟩ := h
    have hnone : after? "]]>".toList (c :: cs) = none := by
      cases ha : after? "]]>".toList (c :: cs) with
      | none => rfl
      | some r =>
        rw [ha] at hc
        exact absurd hc Nat.one_ne_zero
    -- What begins within the text and ends after it has a bracket where a terminator ends.
    have hnot : after? "]]>".toList (c :: (cs ++ "]]>".toList ++ rest)) = none := by
      rcases cs with _ | ⟨d, _ | ⟨e, cs⟩⟩
      · simp [after?]
      · simp [after?]
      · have hwhole : after? "]]>".toList ((c :: d :: e :: cs) ++ []) = none := by rwa [List.append_nil]
        have hlong := Text.after?_append_eq_none [] ("]]>".toList ++ rest) (by simp) hwhole
        rwa [← List.append_assoc, List.cons_append] at hlong
    rw [List.cons_append, List.cons_append, cut?, hnot, ih hcs]

theorem run_section {r : Reading} (ho : r.opened ≠ []) {cs : List Char} (h : terminators cs = 0) (rest : List Char) :
    r.run ("<![CDATA[".toList ++ (cs ++ "]]>".toList ++ rest)) = (r.put [.cdata (String.ofList cs)]).run rest := by
  have hcut := cut?_of_terminators h []
  rw [List.append_nil] at hcut
  have hshape : "<![CDATA[".toList ++ (cs ++ "]]>".toList ++ rest)
      = '<' :: ('!' :: '[' :: 'C' :: 'D' :: 'A' :: 'T' :: 'A' :: '[' :: (cs ++ [']', ']', '>']) ++ rest) := by simp
  rw [hshape]
  exact run_of_next (next_cdata hcut rest) (add_put ho _)

theorem terminators_append_singleton {held : List Char} {k : Nat} (hheld : terminators held = 0)
    (hk : held.foldl brackets 0 = k) {c : Char} (hc : ¬ (k = 2 ∧ c = '>')) : terminators (held ++ [c]) = 0 := by
  rw [terminators_eq, terminatorsFrom_append, terminatorsFrom_zero hheld, hk, terminatorsFrom, if_neg hc]
  rfl

/-- The rest of a text after what is held of it in the section that is open. -/
theorem exists_run_splitFrom : ∀ (cs held : List Char) (k : Nat), terminators held = 0 → held.foldl brackets 0 = k →
    ∃ pieces : List String, String.join pieces = String.ofList (held ++ cs) ∧
      ∀ (r : Reading) (rest : List Char), r.opened ≠ [] →
        r.run ("<![CDATA[".toList ++ (held ++ splitFrom k cs ++ "]]>".toList ++ rest))
          = (r.put (pieces.map .cdata)).run rest
  | [], held, k, hheld, _ => ⟨[String.ofList held], by simp, fun r rest ho => by
      rw [splitFrom, List.append_nil]
      exact run_section ho hheld rest⟩
  | c :: cs, held, k, hheld, hk => by
    rw [splitFrom]
    split
    -- A terminator ends here: its brackets stay in the open section, and `>` begins the next one.
    · rename_i hend
      obtain ⟨rfl, rfl⟩ := hend
      obtain ⟨pieces, hjoin, hrun⟩ := exists_run_splitFrom cs ['>'] 0 rfl rfl
      refine ⟨String.ofList held :: pieces, ?_, fun r rest ho => ?_⟩
      · rw [String.join_cons, hjoin, ← String.ofList_append]
        rfl
      · have hshape : held ++ ("]]><![CDATA[>".toList ++ splitFrom 0 cs) ++ "]]>".toList ++ rest
            = held ++ "]]>".toList ++ ("<![CDATA[".toList ++ (['>'] ++ splitFrom 0 cs ++ "]]>".toList ++ rest)) := by
          simp
        rw [hshape, run_section ho hheld, hrun _ rest (put_opened ho _), put_append]
        rfl
    · rename_i hend
      obtain ⟨pieces, hjoin, hrun⟩ := exists_run_splitFrom cs (held ++ [c]) (brackets k c)
        (terminators_append_singleton hheld hk hend) (by rw [List.foldl_append, hk]; rfl)
      refine ⟨pieces, by simpa using hjoin, fun r rest ho => ?_⟩
      have hshape : held ++ c :: splitFrom (brackets k c) cs = held ++ [c] ++ splitFrom (brackets k c) cs := by simp
      rw [hshape, hrun r rest ho]

/-- **The sections that a text is wrapped into hold the text.** -/
theorem exists_adds_wrapInCdata (s : String) :
    ∃ pieces : List String, String.join pieces = s ∧ Adds (wrapInCdata s) (pieces.map .cdata) := by
  obtain ⟨pieces, hjoin, hrun⟩ := exists_run_splitFrom s.toList [] 0 rfl rfl
  refine ⟨pieces, by simpa using hjoin, fun r rest ho => ?_⟩
  rw [toList_wrapInCdata, ← hrun r rest ho]
  simp only [List.append_assoc, List.nil_append]

/-- **Sections of character data are read as what they were made of**: nothing but sections stands between the tags, and
together they hold the text. -/
theorem read_wrapInCdata (s : String) : ∃ d pieces, Document.read ("<x>" ++ wrapInCdata s ++ "</x>") = .ok d ∧
    d.root = ⟨"x", [], pieces.map .cdata⟩ ∧ String.join pieces = s := by
  obtain ⟨pieces, hjoin, hadds⟩ := exists_adds_wrapInCdata s
  have hplain : (⟨"x", [], []⟩ : Element).isPlain = true := by decide
  have htags : "<x>" ++ wrapInCdata s ++ "</x>" = tagsAround "x" [] (wrapInCdata s) := rfl
  obtain ⟨d, hread, hroot⟩ := exists_read_root introduces_empty hplain List.nodup_nil hadds.before (.inl rfl)
  rw [String.empty_append, String.append_empty, ← htags] at hread
  exact ⟨d, pieces, hread, hroot, hjoin⟩

/-! ## Character data -/

/-- Running text with references. -/
inductive CharacterData : List Char → Prop
  | nil : CharacterData []
  | text {c : Char} {cs : List Char} : Markup.isText c = true → CharacterData cs → CharacterData (c :: cs)
  | reference {name cs : List Char} : (∀ c ∈ name, (c != ';' && Markup.isText c) = true) → CharacterData cs →
    CharacterData ('&' :: (name ++ [';'] ++ cs))

namespace CharacterData

variable {cs ds : List Char}

theorem append (h : CharacterData cs) (h' : CharacterData ds) : CharacterData (cs ++ ds) := by
  induction h with
  | nil => exact h'
  | text hc _ ih => exact .text hc ih
  | @reference name cs hname _ ih =>
    rw [List.cons_append, List.append_assoc]
    exact .reference hname ih

theorem of_isText (h : ∀ c ∈ cs, Markup.isText c = true) : CharacterData cs := by
  induction cs with
  | nil => exact .nil
  | cons c cs ih => exact .text (h c List.mem_cons_self) (ih fun d hd => h d (List.mem_cons_of_mem c hd))

theorem escapeChars (cs : List Char) : CharacterData (Text.escapeChars cs) := by
  induction cs with
  | nil => exact .nil
  | cons c cs ih =>
    change CharacterData (Text.escapeChar c ++ Text.escapeChars cs)
    rcases escapeChar_cases c with ⟨hc, he⟩ | ⟨name, hname, he⟩
    · rw [he]
      exact .text hc ih
    · rw [he, List.cons_append]
      exact .reference hname ih

theorem escape (s : String) : CharacterData (Text.escape s).toList := by
  rw [Text.escape, String.toList_ofList]
  exact escapeChars s.toList

/-- Cleaning takes nothing from references but characters within their names. -/
theorem clean (h : CharacterData cs) : CharacterData (cleanChars cs) := by
  induction h with
  | nil => exact .nil
  | @text c cs hc _ ih =>
    by_cases hl : isLegal c = true
    · rw [cleanChars_of_legal hl]
      exact .text hc ih
    · rwa [cleanChars_of_illegal hl]
  | @reference name cs hname _ ih =>
    rw [cleanChars_of_legal (by decide), cleanChars_append, cleanChars_append]
    exact .reference (fun c hc => hname c (List.mem_of_mem_filter hc)) ih

/-- Character data after running text that it joins. -/
theorem exists_raws_append (pre : List Char) (hpre : ∀ c ∈ pre, Markup.isText c = true) (h : CharacterData cs) :
    ∃ raws : List String, String.join raws = String.ofList (pre ++ cs) ∧
      AddsBefore (String.ofList (pre ++ cs)) (raws.map .text) := by
  have hrunning {pre : List Char} (hpre : ∀ c ∈ pre, Markup.isText c = true) :
      ∃ raws : List String, String.join raws = String.ofList pre ∧ AddsBefore (String.ofList pre) (raws.map .text) := by
    by_cases hne : pre = []
    · subst hne
      exact ⟨[], rfl, adds_empty.before⟩
    · exact ⟨[String.ofList pre], by simp, addsBefore_running (by simpa using hne) (by simpa using hpre)⟩
  induction h generalizing pre with
  | nil =>
    rw [List.append_nil]
    exact hrunning hpre
  | @text c cs hc _ ih =>
    have hjoined : ∀ d ∈ pre ++ [c], Markup.isText d = true := fun d hd =>
      (List.mem_append.1 hd).elim (hpre d) fun hd => List.mem_singleton.1 hd ▸ hc
    rw [List.append_cons]
    exact ih _ hjoined
  | @reference name cs hname _ ih =>
    -- The running text ends where the reference begins.
    obtain ⟨raws, hraws, hadds⟩ := hrunning hpre
    obtain ⟨raws', hraws', hadds'⟩ := ih [] fun _ hc => absurd hc List.not_mem_nil
    have href : Adds (String.ofList ('&' :: (name ++ [';']))) [.text (String.ofList ('&' :: (name ++ [';'])))] := by
      intro r rest ho
      have hraw : String.ofList ('&' :: (name ++ [';'])) = "&" ++ String.ofList name ++ ";" := by
        rw [← String.toList_inj]
        simp
      rw [String.toList_ofList, List.cons_append, hraw]
      exact run_of_next (next_reference hname rest) (add_put ho _)
    have hbegins : Begins (String.ofList ('&' :: (name ++ [';']))) := ⟨'&', _, String.toList_ofList, rfl⟩
    have hshape : String.ofList (pre ++ '&' :: (name ++ [';'] ++ cs)) =
        String.ofList pre ++ (String.ofList ('&' :: (name ++ [';'])) ++ String.ofList cs) := by
      rw [← String.ofList_append, ← String.ofList_append]
      rfl
    rw [hshape]
    refine ⟨raws ++ String.ofList ('&' :: (name ++ [';'])) :: raws', ?_, ?_⟩
    · rw [String.join_append, String.join_cons, hraws, hraws', List.nil_append]
    · rw [List.map_append, List.map_cons]
      exact hadds.append_before (hbegins.append _) (href.append_before hadds')

/-- **Character data adds text nodes that it is put together from.** -/
theorem exists_raws {s : String} (h : CharacterData s.toList) :
    ∃ raws : List String, String.join raws = s ∧ AddsBefore s (raws.map .text) := by
  have hraws := exists_raws_append [] (fun _ hc => absurd hc List.not_mem_nil) h
  rwa [List.nil_append, String.ofList_toList] at hraws

theorem exists_addsBefore {s : String} (h : CharacterData s.toList) : ∃ ns, AddsBefore s ns := by
  obtain ⟨raws, -, hadds⟩ := h.exists_raws
  exact ⟨_, hadds⟩

end CharacterData

/-! ## Messages -/

/-- A message: character data with emphasis and listings in between. -/
inductive Worded : String → Prop
  | words {s : String} : CharacterData s.toList → Worded s
  | emphasis {s e t : String} : CharacterData s.toList → CharacterData e.toList → Worded t →
    Worded (s ++ (tagsAround "emphasis" [] e ++ t))
  | listing {s x t : String} : CharacterData s.toList → Worded t →
    Worded (s ++ (tagsAround "programlisting" [] (wrapInCdata x) ++ t))

theorem Worded.prepend {s m : String} (hs : CharacterData s.toList) (h : Worded m) : Worded (s ++ m) := by
  have hlead {t : String} (ht : CharacterData t.toList) : CharacterData (s ++ t).toList := by
    rw [String.toList_append]
    exact hs.append ht
  cases h with
  | words h => exact .words (hlead h)
  | emphasis h he ht =>
    rw [← String.append_assoc]
    exact .emphasis (hlead h) he ht
  | listing h ht =>
    rw [← String.append_assoc]
    exact .listing (hlead h) ht

theorem cleanText_tagsAround {name inner : String} {as : Attributes} (hname : cleanText name = name)
    (has : cleanText (attributesXml as) = attributesXml as) :
    cleanText (tagsAround name as inner) = tagsAround name as (cleanText inner) := by
  have hopen : cleanText "<" = "<" := by decide
  have hend : cleanText ">" = ">" := by decide
  have hclose : cleanText "</" = "</" := by decide
  simp only [tagsAround, startTag, endTag, cleanText_append, hname, has, hopen, hend, hclose]

/-- Sealed text around an element is sealed within and after it. -/
theorem sealed_of_tagsAround {s name inner t : String} (h : Sealed (s ++ (tagsAround name [] inner ++ t))) :
    Sealed inner ∧ Sealed t := by
  have hshape : s ++ (tagsAround name [] inner ++ t)
      = s ++ ("<" ++ name ++ ">") ++ (inner ++ ("</" ++ name ++ ">" ++ t)) := by
    simp [tagsAround, startTag, endTag, attributesXml, String.append_assoc]
  have hopen : (s ++ ("<" ++ name ++ ">")).toList.getLast? = some '>' := by simp [List.getLast?_cons]
  have hend : ("</" ++ name ++ ">").toList.getLast? = some '>' := by simp [List.getLast?_cons]
  have hclose : ("</" ++ name ++ ">" ++ t).toList = '<' :: ('/' :: (name.toList ++ '>' :: t.toList)) := by simp
  rw [hshape, sealed_append_of_last hopen (by decide) (by decide), sealed_append_of_head hclose,
    sealed_append_of_last hend (by decide) (by decide)] at h
  exact ⟨h.2.1, h.2.2.2⟩

/-- **Messages whose listings are sealed are read.** -/
theorem Worded.exists_adds {m : String} (h : Worded m) (hsealed : Sealed m) : ∃ ns, AddsBefore (cleanText m) ns := by
  have hdata {s : String} (h : CharacterData s.toList) : ∃ ns, AddsBefore (cleanText s) ns := by
    refine CharacterData.exists_addsBefore ?_
    rw [toList_cleanText]
    exact h.clean
  induction h with
  | words h => exact hdata h
  | emphasis hs he _ ih =>
    obtain ⟨-, hafter⟩ := sealed_of_tagsAround hsealed
    obtain ⟨ns, hns⟩ := hdata hs
    obtain ⟨es, hes⟩ := hdata he
    obtain ⟨ms, hms⟩ := ih hafter
    rw [cleanText_append, cleanText_append, cleanText_tagsAround (by decide) (by decide)]
    exact ⟨_, hns.append_before ((begins_tagsAround _ _ _).append _)
      ((adds_tagsAround (by decide) (by decide) hes).append_before hms)⟩
  | @listing s x t hs _ ih =>
    obtain ⟨hlisted, hafter⟩ := sealed_of_tagsAround hsealed
    obtain ⟨ns, hns⟩ := hdata hs
    obtain ⟨pieces, -, hpieces⟩ := exists_adds_wrapInCdata (cleanText x)
    obtain ⟨ms, hms⟩ := ih hafter
    rw [cleanText_append, cleanText_append, cleanText_tagsAround (by decide) (by decide),
      cleanText_wrapInCdata (sealed_of_wrapInCdata hlisted)]
    exact ⟨_, hns.append_before ((begins_tagsAround _ _ _).append _)
      ((adds_tagsAround (by decide) (by decide) hpieces.before).append_before hms)⟩

end Xml
end Bookbinder
