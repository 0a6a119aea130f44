import Bookbinder.Proofs.Preambles
import Bookbinder.Proofs.XmlNesting
import Bookbinder.Proofs.XmlRoundTrip
/-!
# Sections with a title

What the file of a topic has to show: a section under the topic's link id that begins with the topic's title.  A text
that begins with such a section, after whatever stands before a root, is read to one if it is read at all
(`exists_of_read`), and it is read if the tags between the title and the section's end match (`exists_read`).
-/
namespace Bookbinder

namespace Text

/-! ## What escaped text stands for -/

/-- The characters that an escaped text stands for. -/
def unescapeChars : List Char → List Char
  | '&' :: 'l' :: 't' :: ';' :: cs => '<' :: unescapeChars cs
  | '&' :: 'g' :: 't' :: ';' :: cs => '>' :: unescapeChars cs
  | '&' :: 'a' :: 'm' :: 'p' :: ';' :: cs => '&' :: unescapeChars cs
  | '&' :: 'a' :: 'p' :: 'o' :: 's' :: ';' :: cs => '\'' :: unescapeChars cs
  | '&' :: 'q' :: 'u' :: 'o' :: 't' :: ';' :: cs => '"' :: unescapeChars cs
  | c :: cs => c :: unescapeChars cs
  | [] => []

def unescape (s : String) : String :=
  String.ofList (unescapeChars s.toList)

theorem unescapeChars_cons {c : Char} (h : c ≠ '&') (cs : List Char) :
    unescapeChars (c :: cs) = c :: unescapeChars cs := by
  rw [unescapeChars]
  all_goals exact fun _ hc => absurd hc h

theorem unescapeChars_escapeChars (cs : List Char) : unescapeChars (escapeChars cs) = cs := by
  induction cs with
  | nil => rfl
  | cons c cs ih =>
    change unescapeChars (escapeChar c ++ escapeChars cs) = c :: cs
    unfold escapeChar
    split
    · exact congrArg ('<' :: ·) ih
    · exact congrArg ('>' :: ·) ih
    · exact congrArg ('&' :: ·) ih
    · exact congrArg ('\'' :: ·) ih
    · exact congrArg ('"' :: ·) ih
    · rename_i hlt hgt hamp hapos hquot
      rw [List.singleton_append, unescapeChars_cons hamp, ih]

/-- **Escaping is undone exactly.** -/
theorem unescape_escape (s : String) : unescape (escape s) = s := by
  rw [unescape, escape, String.toList_ofList, unescapeChars_escapeChars, String.ofList_toList]

end Text

namespace Xml

open Reading

/-! ## Text within an element -/

/-- The text of a text node, as it was written. -/
def Node.raw? : Node → Option String
  | .text raw => some raw
  | _ => none

namespace Element

/-- The text of an element that holds nothing else, as it was written. -/
def raw? (e : Element) : Option String :=
  (e.children.mapM Node.raw?).map String.join

/-- The first element among the children. -/
def first? (e : Element) : Option Element :=
  e.children.findSome? Node.element?

end Element

/-- An element of text. -/
def textual (name : String) (raws : List String) : Element :=
  ⟨name, [], raws.map .text⟩

theorem raw?_textual (name : String) (raws : List String) : (textual name raws).raw? = some (String.join raws) := by
  have hraws : (raws.map Node.text).mapM Node.raw? = some raws := by
    induction raws with
    | nil => rfl
    | cons raw raws ih =>
      rw [List.map_cons, List.mapM_cons, ih]
      rfl
  rw [Element.raw?, textual, hraws]
  rfl

namespace Reading

/-- Nodes added to the innermost element that is open. -/
def put (r : Reading) (ns : List Node) : Reading :=
  match r.opened with
  | [] => r
  | e :: es => { r with opened := ⟨e.name, e.attributes, ns.reverse ++ e.children⟩ :: es }

variable {r : Reading}

theorem put_nil : r.put [] = r := by
  obtain ⟨_, _, opened, _⟩ := r
  cases opened <;> rfl

theorem put_append (ns ms : List Node) : (r.put ns).put ms = r.put (ns ++ ms) := by
  obtain ⟨_, _, opened, _⟩ := r
  cases opened with
  | nil => rfl
  | cons e es => simp [put]

theorem put_opened (ho : r.opened ≠ []) (ns : List Node) : (r.put ns).opened ≠ [] := by
  obtain ⟨e, es, ho⟩ := List.exists_cons_of_ne_nil ho
  simp [put, ho]

theorem add_put (ho : r.opened ≠ []) (n : Node) : r.add n = .ok (r.put [n]) := by
  obtain ⟨e, es, ho⟩ := List.exists_cons_of_ne_nil ho
  rw [add_of_opened ho, put, ho]
  rfl

/-- Running text up to the next markup. -/
theorem run_text (ho : r.opened ≠ []) {cs : List Char} (h : ∀ c ∈ cs, Markup.isText c = true) (rest : List Char)
    (hrest : ∀ c ∈ rest.head?, Markup.isText c = false) :
    ∃ raws : List String, String.join raws = String.ofList cs ∧
      r.run (cs ++ rest) = (r.put (raws.map .text)).run rest := by
  cases cs with
  | nil => exact ⟨[], rfl, by rw [List.map_nil, put_nil]; rfl⟩
  | cons c cs =>
    have hc := h c List.mem_cons_self
    have hcs : ∀ d ∈ cs, Markup.isText d = true := fun d hd => h d (List.mem_cons_of_mem _ hd)
    have hnext : Markup.next c (cs ++ rest) = .ok (.text (c :: cs), rest) := by
      rw [Markup.isText, Bool.and_eq_true, bne_iff_ne, bne_iff_ne] at hc
      rw [Markup.next, if_neg hc.1, if_neg hc.2, List.takeWhile_append_of_pos hcs, List.dropWhile_append_of_pos hcs,
        Text.takeWhile_eq_nil hrest, Text.dropWhile_eq_self hrest, List.append_nil]
    refine ⟨[String.ofList (c :: cs)], by simp, ?_⟩
    rw [List.cons_append, run_of_next hnext (add_put ho _)]
    rfl

/-- Escaped text after running text that it joins. -/
theorem run_escapeChars (ho : r.opened ≠ []) (cs pre : List Char) {rest : List Char}
    (hpre : ∀ c ∈ pre, Markup.isText c = true) (hrest : ∀ c ∈ rest.head?, Markup.isText c = false) :
    ∃ raws : List String, String.join raws = String.ofList (pre ++ Text.escapeChars cs) ∧
      r.run (pre ++ Text.escapeChars cs ++ rest) = (r.put (raws.map .text)).run rest := by
  induction cs generalizing r pre with
  | nil =>
    rw [show Text.escapeChars [] = [] from rfl, List.append_nil]
    exact run_text ho hpre rest hrest
  | cons c cs ih =>
    rw [show Text.escapeChars (c :: cs) = Text.escapeChar c ++ Text.escapeChars cs from rfl]
    rcases escapeChar_cases c with ⟨hc, he⟩ | ⟨name, hname, he⟩
    · rw [he, ← List.append_assoc]
      refine ih ho _ fun d hd => ?_
      rcases List.mem_append.1 hd with hd | hd
      · exact hpre d hd
      · exact List.mem_singleton.1 hd ▸ hc
    · -- The running text ends where the reference begins.
      obtain ⟨raws, hraws, hrun⟩ := run_text ho hpre ('&' :: (name ++ [';'] ++ (Text.escapeChars cs ++ rest)))
        (by simp [Markup.isText])
      have ho' := put_opened ho (raws.map .text)
      obtain ⟨raws', hraws', hrun'⟩ := ih (put_opened ho' [.text ("&" ++ String.ofList name ++ ";")]) []
        fun _ hd => absurd hd List.not_mem_nil
      refine ⟨raws ++ ("&" ++ String.ofList name ++ ";") :: raws', ?_, ?_⟩
      · rw [String.join_append, String.join_cons, hraws, hraws', he, ← String.toList_inj]
        simp
      · have hshape : pre ++ (Text.escapeChar c ++ Text.escapeChars cs) ++ rest
            = pre ++ '&' :: (name ++ [';'] ++ (Text.escapeChars cs ++ rest)) := by
          rw [he]
          simp
        rw [hshape, hrun, run_of_next (next_reference hname _) (add_put ho' _)]
        refine hrun'.trans ?_
        rw [put_append, put_append, List.map_append, List.map_cons, List.singleton_append]

theorem run_escape (ho : r.opened ≠ []) (s : String) (rest : List Char)
    (hrest : ∀ c ∈ rest.head?, Markup.isText c = false) : ∃ raws : List String, String.join raws = Text.escape s ∧
      r.run ((Text.escape s).toList ++ rest) = (r.put (raws.map .text)).run rest := by
  rw [Text.escape, String.toList_ofList]
  exact run_escapeChars ho s.toList [] (fun _ hc => absurd hc List.not_mem_nil) hrest

/-! ## Titles -/

theorem closes_title : Closes "title" := rfl

theorem isTagName_title : IsTagName "title" where
  head := by
    rintro c ⟨⟩
    decide
  spaceless := by decide

/-- The tags of a title around its text. -/
theorem run_titleTags (ho : r.opened ≠ []) (title : String) (rest : List Char) :
    ∃ raws : List String, String.join raws = Text.escape title ∧
      r.run (("<title>" ++ Text.escape title ++ "</title>").toList ++ rest)
        = (r.put [(textual "title" raws).toNode]).run rest := by
  have hplain : (⟨"title", [], []⟩ : Element).isPlain = true := by decide
  have htag := element_of_isPlain hplain List.nodup_nil
  -- The title is read as an element that is open, until its end tag adds it to what was open before.
  obtain ⟨raws, hraws, hrun⟩ := run_escape (r := { r with opened := ⟨"title", [], []⟩ :: r.opened })
    (List.cons_ne_nil _ _) title ('<' :: '/' :: ("title".toList ++ ['>'] ++ rest)) (by simp [Markup.isText])
  refine ⟨raws, hraws, ?_⟩
  have hshape : ("<title>" ++ Text.escape title ++ "</title>").toList ++ rest
      = '<' :: ("title".toList ++ (attributesXml []).toList ++ ['>'] ++ ((Text.escape title).toList
        ++ '<' :: '/' :: ("title".toList ++ ['>'] ++ rest))) := by
    simp [attributesXml]
  have hclose : ({ r with opened := ⟨"title", [], []⟩ :: r.opened }.put (raws.map .text)).step (.closing "title".toList)
      = .ok (r.put [(textual "title" raws).toNode]) := by
    rw [put]
    dsimp only
    rw [step_closing rfl, List.append_nil, List.reverse_reverse]
    exact add_put ho _
  rw [hshape, run_of_next (next_opening hplain _) (step_opening htag), hrun]
  exact run_of_next (next_of_closes closes_title isTagName_title rest) hclose

/-- A title as it is written after it was read. -/
theorem run_textual (ho : r.opened ≠ []) {title : String} {raws : List String} (h : String.join raws = Text.escape title)
    (rest : List Char) : ∃ raws' : List String, String.join raws' = Text.escape title ∧
      r.run ((textual "title" raws).toXml.toList ++ rest) = (r.put [(textual "title" raws').toNode]).run rest := by
  have hinner : ∀ raws : List String, nodesXml (raws.map .text) = String.join raws := by
    intro raws
    induction raws with
    | nil => rfl
    | cons raw raws ih =>
      rw [List.map_cons, nodesXml, String.join_cons, ih]
      rfl
  cases raws with
  | nil =>
    have hplain : (⟨"title", [], []⟩ : Element).isPlain = true := by decide
    have hnone : ∀ c ∈ ([] : List Char), Text.isSpace c = true := fun _ hc => absurd hc List.not_mem_nil
    have htag := element_attributesXml hplain List.nodup_nil [] hnone
    refine ⟨[], h, ?_⟩
    rw [Element.toXml, textual, List.map_nil, Element.toNode, toList_toXml_leaf]
    exact run_of_next (next_empty hplain hnone rest) ((step_empty htag).trans (add_put ho _))
  | cons raw raws =>
    have htext : (textual "title" (raw :: raws)).toXml = "<title>" ++ Text.escape title ++ "</title>" := by
      rw [← h, ← hinner, Element.toXml, textual, Element.toNode, List.map_cons, Node.toXml, nodesXml]
      simp [attributesXml, String.append_assoc]
    rw [htext]
    exact run_titleTags ho title rest

end Reading

/-! ## Sections -/

/-- A way to write a title. -/
def Heads (title heading : String) : Prop :=
  (∃ cs, heading.toList = '<' :: cs) ∧ ∀ (r : Reading) (rest : List Char), r.opened ≠ [] →
    ∃ raws : List String, String.join raws = Text.escape title ∧
      r.run (heading.toList ++ rest) = (r.put [(textual "title" raws).toNode]).run rest

theorem heads_titleTags (title : String) : Heads title ("<title>" ++ Text.escape title ++ "</title>") :=
  ⟨⟨_, by rw [String.toList_append, String.toList_append]; rfl⟩, fun _ rest ho => Reading.run_titleTags ho title rest⟩

theorem heads_textual {title : String} {raws : List String} (h : String.join raws = Text.escape title) :
    Heads title (textual "title" raws).toXml :=
  ⟨exists_toXml _, fun _ rest ho => Reading.run_textual ho h rest⟩

/-- What can stand before a document's root. -/
def Introduces (lead : String) : Prop :=
  ∀ s : String, s.toList.head? = some '<' →
    ∃ r : Reading, r.opened = [] ∧ r.root = none ∧ Document.read (lead ++ s) = r.run s.toList

theorem introduces_empty : Introduces "" := by
  intro s hs
  refine ⟨{}, rfl, rfl, ?_⟩
  rw [String.empty_append, Document.read, dropMark_eq]
  intro c hc
  rw [hs] at hc
  exact (Option.some.inj hc).symm

/-- What is not read by itself is not read after what can stand before it. -/
theorem Introduces.isOk_read {lead s : String} (h : Introduces lead) (hs : ∃ cs, s.toList = '<' :: cs)
    (hread : (Document.read s).isOk = false) : (Document.read (lead ++ s)).isOk = false := by
  obtain ⟨cs, hcs⟩ := hs
  have hhead : s.toList.head? = some '<' := by rw [hcs]; rfl
  obtain ⟨r, ho, hroot, hrun⟩ := h s hhead
  obtain ⟨r', ho', hroot', hrun'⟩ := introduces_empty s hhead
  cases hd : Document.read (lead ++ s) with
  | error => rfl
  | ok d =>
    have halike : r.Alike r' := ⟨by rw [ho, ho'], by rw [hroot, hroot']⟩
    obtain ⟨d', hd'⟩ := halike.run (hrun.symm.trans hd)
    rw [String.empty_append] at hrun'
    rw [hrun', hd'] at hread
    cases hread

/-- A section under a link id that begins with a title. -/
def titledSection (linkId : String) (raws : List String) (after : List Node) : Element :=
  ⟨"section", [("id", Text.escape linkId)], .text "\n\t" :: (textual "title" raws).toNode :: after⟩

/-- A text with a section under a link id, from its start tag through its title to whatever follows. -/
def sectionText (lead linkId heading rest : String) : String :=
  lead ++ ("<section id=\"" ++ Text.escape linkId ++ "\">" ++ "\n\t" ++ heading ++ rest)

section Sections

variable {lead title heading : String}

theorem exists_run_section (hlead : Introduces lead) (hheading : Heads title heading) (linkId rest : String) :
    ∃ (r : Reading) (raws : List String), String.join raws = Text.escape title ∧ r.root = none ∧
      r.opened = [⟨"section", [("id", Text.escape linkId)], [(textual "title" raws).toNode, .text "\n\t"]⟩] ∧
      Document.read (sectionText lead linkId heading rest) = r.run rest.toList := by
  obtain ⟨⟨cs, hcs⟩, hrun⟩ := hheading
  have hplain : (⟨"section", [("id", Text.escape linkId)], []⟩ : Element).isPlain = true :=
    isPlain_with "section" "id" (by decide) (Text.quote_notMem_escape linkId)
  have htag := element_of_isPlain hplain (List.nodup_singleton _)
  have hshape : ("<section id=\"" ++ Text.escape linkId ++ "\">" ++ "\n\t" ++ heading ++ rest).toList
      = '<' :: ("section".toList ++ (attributesXml [("id", Text.escape linkId)]).toList ++ ['>']
        ++ ('\n' :: '\t' :: (heading.toList ++ rest.toList))) := by
    simp [attributesXml]
  obtain ⟨r, ho, hroot, hread⟩ := hlead _ (by rw [hshape]; rfl)
  have hbreak : Markup.next '\n' ('\t' :: (heading.toList ++ rest.toList))
      = .ok (.text ['\n', '\t'], heading.toList ++ rest.toList) := by
    rw [hcs]
    rfl
  have hstart : Document.read (sectionText lead linkId heading rest) = { r with opened :=
      ⟨"section", [("id", Text.escape linkId)], [.text "\n\t"]⟩ :: r.opened }.run (heading.toList ++ rest.toList) := by
    rw [sectionText, hread, hshape, run_of_next (next_opening hplain _) (step_opening htag),
      run_of_next hbreak (add_put (List.cons_ne_nil _ _) _)]
    rfl
  obtain ⟨raws, hraws, hrun⟩ := hrun { r with opened :=
    ⟨"section", [("id", Text.escape linkId)], [.text "\n\t"]⟩ :: r.opened } rest.toList (List.cons_ne_nil _ _)
  refine ⟨_, raws, hraws, ?_, ?_, hstart.trans hrun⟩
  · exact hroot
  · exact congrArg (_ :: ·) ho

/-- **A text that begins with a section and its title is read, if at all, to a section that begins with the title.** -/
theorem exists_of_read (hlead : Introduces lead) (hheading : Heads title heading) {linkId rest : String} {d : Document}
    (h : Document.read (sectionText lead linkId heading rest) = .ok d) : ∃ (raws : List String) (after : List Node),
      String.join raws = Text.escape title ∧ d.root = titledSection linkId raws after := by
  obtain ⟨r, raws, hraws, -, ho, hrun⟩ := exists_run_section hlead hheading linkId rest
  have hwithin := within_of_run (hrun.symm.trans h)
  rw [Within, ho] at hwithin
  obtain ⟨-, after, hroot⟩ := hwithin
  refine ⟨raws, after, hraws, ?_⟩
  have hnode : d.root.toNode = (titledSection linkId raws after).toNode := hroot
  exact Option.some.inj (congrArg Node.element? hnode)

theorem accepts_sectionEnd : Accepts ["section"] "</section>".toList := by
  have hrun : ({ opened := [⟨"section", [], []⟩] } : Reading).run "</section>".toList
      = .ok ⟨false, none, ⟨"section", [], []⟩⟩ := by
    with_unfolding_all rfl
  exact Accepts.of_run rfl hrun

/-- **A section is read if the tags after its title match.** -/
theorem exists_read (linkId : String) (hlead : Introduces lead) (hheading : Heads title heading) {body : String}
    (hbody : Balanced body.toList) : ∃ (d : Document) (raws : List String) (after : List Node),
      Document.read (sectionText lead linkId heading (body ++ "</section>")) = .ok d ∧
        String.join raws = Text.escape title ∧ d.root = titledSection linkId raws after := by
  obtain ⟨r, raws, hraws, hroot, ho, hread⟩ := exists_run_section hlead hheading linkId (body ++ "</section>")
  obtain ⟨d, hd⟩ := hbody ["section"] _ (List.cons_ne_nil _ _) accepts_sectionEnd r (by rw [ho]; rfl) hroot
  rw [String.toList_append, hd] at hread
  obtain ⟨raws, after, hraws, hsection⟩ := exists_of_read hlead hheading hread
  exact ⟨d, raws, after, hread, hraws, hsection⟩

end Sections

/-! ## What a section shows -/

/-- A section under a link id whose first element is a title. -/
structure Element.Presents (e : Element) (linkId title : String) : Prop where
  name : e.name = "section"
  id : (e.attribute? "id").map Text.unescape = some linkId
  title : ∃ heading raw, e.first? = some heading ∧ heading.name = "title" ∧ heading.raw? = some raw ∧
    Text.unescape raw = title

theorem presents_titledSection (linkId : String) {title : String} {raws : List String}
    (h : String.join raws = Text.escape title) (after : List Node) :
    (titledSection linkId raws after).Presents linkId title := by
  refine ⟨rfl, congrArg some (Text.unescape_escape linkId), textual "title" raws, String.join raws, rfl, rfl,
    raw?_textual "title" raws, ?_⟩
  rw [h, Text.unescape_escape]

end Xml

namespace Template

/-- **A preamble can stand before a root**, with a line break after it or without one. -/
theorem introduces_preamble {c : Context} {element name : String} (hroot : c.get "root_element" = .text element)
    (htitle : c.get "escaped_book_title" = .text name) (helement : ∀ a ∈ element.toList, a.isAlpha = true)
    (hne : element.toList ≠ []) (hname : '"' ∉ name.toList) :
    Xml.Introduces (preamble c) ∧ Xml.Introduces (preamble c ++ "\n") := by
  have hline : "<?xml version='1.0' encoding='utf-8' ?>\n".toList
      = '<' :: '?' :: ("xml version='1.0' encoding='utf-8' ".toList ++ ['?', '>']) ++ ['\n'] := by decide +kernel
  have hrun (s : String) :
      ∃ r : Xml.Reading, r.opened = [] ∧ r.root = none ∧ Xml.Document.read (preamble c ++ s) = r.run s.toList := by
    obtain ⟨a, hnext⟩ := Xml.exists_next_doctype helement hne hname s.toList
    have hmark : Xml.dropMark (preamble c ++ s).toList = (preamble c ++ s).toList := by
      refine Xml.dropMark_eq fun d hd => ?_
      rw [String.toList_append, toList_preamble hroot htitle, hline] at hd
      exact (Option.some.inj hd).symm
    refine ⟨{ declared := true, doctype := some (String.ofList (Text.trimChars a)) }, rfl, rfl, ?_⟩
    rw [Xml.Document.read, hmark, String.toList_append, toList_preamble hroot htitle, List.append_assoc,
      Xml.Reading.run_declaration rfl hline (by decide +kernel) (by decide +kernel) (by decide +kernel)]
    · exact Xml.Reading.run_of_next hnext rfl
    · rintro d ⟨⟩
      decide
  refine ⟨fun s _ => hrun s, fun s hs => ?_⟩
  obtain ⟨r, ho, hempty, hread⟩ := hrun ("\n" ++ s)
  have hmarkup : ∀ d ∈ s.toList.head?, Xml.Markup.isText d = false := by
    rw [hs]
    rintro d ⟨⟩
    decide
  refine ⟨r, ho, hempty, ?_⟩
  rw [String.append_assoc, hread, String.toList_append]
  exact Xml.Reading.run_line ho hmarkup

end Template
end Bookbinder
