import Bookbinder.Proofs.XmlFragments
import Bookbinder.Slug
import Bookbinder.Template.Pages
/-!
# Preambles

Every file of a book begins with a declaration and a document type whose internal subset names the book's entities.
However the book is called, a reader passes over all of it (`writes_preamble`).
-/
namespace Bookbinder
namespace Xml

open Text (cut?)

namespace Doctype

theorem afterDeclaration_append {cs : List Char} (h : ∀ c ∈ cs, c ≠ '>' ∧ c ≠ '"' ∧ c ≠ '\'') (r : List Char) :
    afterDeclaration none (cs ++ r) = afterDeclaration none r := by
  induction cs with
  | nil => rfl
  | cons c cs ih =>
    obtain ⟨hc, hq, hq'⟩ := h c List.mem_cons_self
    rw [List.cons_append, afterDeclaration, if_neg (not_or.2 ⟨hq, hq'⟩), ih fun d hd => h d (List.mem_cons_of_mem _ hd)]
    exact fun e => hc e

theorem afterDeclaration_quoted {cs : List Char} (h : '"' ∉ cs) (r : List Char) :
    afterDeclaration (some '"') (cs ++ '"' :: r) = afterDeclaration none r := by
  induction cs with
  | nil => rfl
  | cons c cs ih =>
    rw [List.mem_cons, not_or] at h
    rw [List.cons_append, afterDeclaration, if_neg (Ne.symm h.1), ih h.2]

theorem afterDoctype_append {cs : List Char} (h : ∀ c ∈ cs, c ≠ '>' ∧ c ≠ '[' ∧ c ≠ '"' ∧ c ≠ '\'') (r : List Char) :
    afterDoctype none (cs ++ r) = afterDoctype none r := by
  induction cs with
  | nil => rfl
  | cons c cs ih =>
    obtain ⟨hc, hb, hq, hq'⟩ := h c List.mem_cons_self
    rw [List.cons_append, afterDoctype, if_neg (not_or.2 ⟨hq, hq'⟩), ih fun d hd => h d (List.mem_cons_of_mem _ hd)]
    · exact fun e => hc e
    · exact fun e => hb e

theorem afterDoctype_quoted {cs : List Char} (h : '"' ∉ cs) (r : List Char) :
    afterDoctype (some '"') (cs ++ '"' :: r) = afterDoctype none r := by
  induction cs with
  | nil => rfl
  | cons c cs ih =>
    rw [List.mem_cons, not_or] at h
    rw [List.cons_append, afterDoctype, if_neg (Ne.symm h.1), ih h.2]

theorem afterSubset_append {cs : List Char} (h : ∀ c ∈ cs, c ≠ ']' ∧ c ≠ '<') (r : List Char) :
    afterSubset (cs ++ r) = afterSubset r := by
  induction cs with
  | nil => rfl
  | cons c cs ih =>
    obtain ⟨hc, hl⟩ := h c List.mem_cons_self
    rw [List.cons_append, afterSubset, ih fun d hd => h d (List.mem_cons_of_mem _ hd)]
    · exact fun e => hc e
    · exact fun e => hl e

theorem afterPiece_entity (r : List Char) :
    afterPiece ("!ENTITY".toList ++ r) = afterDeclaration none ("!ENTITY".toList ++ r) := by
  have hcomment : Text.after? "!--".toList ("!ENTITY".toList ++ r) = none := rfl
  have hinstruction : Text.after? "?".toList ("!ENTITY".toList ++ r) = none := rfl
  have hentity : Text.after? "!ENTITY".toList ("!ENTITY".toList ++ r) = some r := Text.after?_self_append _ r
  rw [afterPiece, hcomment, hinstruction, isQuotedDeclaration, hentity]
  rfl

/-- What stands in the brackets of a preamble's document type. -/
def entities (name : List Char) : List Char :=
  "\n".toList ++ '<' :: ("!ENTITY".toList ++ (" % BOOK_ENTITIES SYSTEM ".toList ++ '"' :: ((name ++ ".ent".toList)
    ++ '"' :: '>' :: "\n%BOOK_ENTITIES;\n".toList)))

theorem afterSubset_entities {name : List Char} (h : '"' ∉ name) (r : List Char) :
    afterSubset (entities name ++ ']' :: r) = some r := by
  have hname : '"' ∉ name ++ ".ent".toList := fun hm => (List.mem_append.1 hm).elim h (by decide)
  have hpiece : afterPiece ("!ENTITY".toList ++ (" % BOOK_ENTITIES SYSTEM ".toList ++ '"' :: ((name ++ ".ent".toList)
      ++ '"' :: '>' :: ("\n%BOOK_ENTITIES;\n".toList ++ ']' :: r)))) =
      some ("\n%BOOK_ENTITIES;\n".toList ++ ']' :: r) := by
    rw [afterPiece_entity, afterDeclaration_append (by decide), afterDeclaration_append (by decide), afterDeclaration,
      if_pos (.inl rfl), afterDeclaration_quoted hname, afterDeclaration]
    exact fun e => absurd e (by decide)
  have hcs : entities name ++ ']' :: r = "\n".toList ++ '<' :: ("!ENTITY".toList ++ (" % BOOK_ENTITIES SYSTEM ".toList
      ++ '"' :: ((name ++ ".ent".toList) ++ '"' :: '>' :: ("\n%BOOK_ENTITIES;\n".toList ++ ']' :: r)))) := by
    simp only [entities, List.append_assoc, List.cons_append]
  rw [hcs, afterSubset_append (by decide), afterSubset_piece hpiece, afterSubset_append (by decide), afterSubset]

end Doctype

/-- The content of a preamble's document type, from after its keyword. -/
def doctypeContent (element name : List Char) : List Char :=
  ' ' :: element ++ (" PUBLIC ".toList ++ '"' :: ("-//OASIS//DTD DocBook XML V4.5//EN".toList ++ '"' :: ' ' :: '"' ::
    ("http://www.oasis-open.org/docbook/xml/4.5/docbookx.dtd".toList ++ '"' :: ' ' :: '[' :: (Doctype.entities name
      ++ [']', '>']))))

theorem afterDoctype_content {element name : List Char} (helement : ∀ c ∈ element, c.isAlpha = true)
    (hname : '"' ∉ name) (r : List Char) : Doctype.afterDoctype none (doctypeContent element name ++ r) = some r := by
  have hchar : ∀ c ∈ ' ' :: element, c ≠ '>' ∧ c ≠ '[' ∧ c ≠ '"' ∧ c ≠ '\'' := fun c hc => by
    rcases List.mem_cons.1 hc with rfl | hc
    · decide
    · refine ⟨?_, ?_, ?_, ?_⟩ <;> rintro rfl <;> exact absurd (helement _ hc) (by decide)
  have hcs : doctypeContent element name ++ r = ' ' :: element ++ (" PUBLIC ".toList ++ '"' ::
      ("-//OASIS//DTD DocBook XML V4.5//EN".toList ++ '"' :: ([' '] ++ '"' ::
        ("http://www.oasis-open.org/docbook/xml/4.5/docbookx.dtd".toList ++ '"' :: ([' '] ++ '[' ::
          (Doctype.entities name ++ ']' :: '>' :: r)))))) := by
    simp only [doctypeContent, List.append_assoc, List.cons_append, List.nil_append]
  have hquote (cs : List Char) : Doctype.afterDoctype none ('"' :: cs) = Doctype.afterDoctype (some '"') cs := by
    rw [Doctype.afterDoctype, if_pos (.inl rfl)]
    · exact fun e => absurd e (by decide)
    · exact fun e => absurd e (by decide)
  rw [hcs, Doctype.afterDoctype_append hchar, Doctype.afterDoctype_append (by decide), hquote,
    Doctype.afterDoctype_quoted (by decide), Doctype.afterDoctype_append (by decide), hquote,
    Doctype.afterDoctype_quoted (by decide), Doctype.afterDoctype_append (by decide), Doctype.afterDoctype,
    Doctype.afterSubset_entities hname]
  rfl

/-- **A document type is read as a whole**; what is kept of it does not matter. -/
theorem exists_next_doctype {element name : List Char} (helement : ∀ c ∈ element, c.isAlpha = true)
    (hne : element ≠ []) (hname : '"' ∉ name) (rest : List Char) : ∃ a,
      Markup.next '<' ('!' :: ("DOCTYPE".toList ++ (doctypeContent element name ++ rest))) = .ok (.doctype a, rest) := by
  obtain ⟨c, cs, rfl⟩ := List.exists_cons_of_ne_nil hne
  have hc : Text.isSpace c = false := by
    have := helement c List.mem_cons_self
    cases hs : Text.isSpace c with
    | false => rfl
    | true =>
      simp only [Text.isSpace, Bool.or_eq_true, beq_iff_eq] at hs
      rcases hs with ((rfl | rfl) | rfl) | rfl <;> exact absurd this (by decide)
  obtain ⟨body, hcontent⟩ : ∃ body, doctypeContent (c :: cs) name = ' ' :: c :: body ++ ['>'] :=
    ⟨cs ++ (" PUBLIC ".toList ++ '"' :: ("-//OASIS//DTD DocBook XML V4.5//EN".toList ++ '"' :: ' ' :: '"' ::
      ("http://www.oasis-open.org/docbook/xml/4.5/docbookx.dtd".toList ++ '"' :: ' ' :: '[' ::
        (Doctype.entities name ++ [']'])))), by
      simp only [doctypeContent, List.append_assoc, List.cons_append, List.nil_append]⟩
  have hend := afterDoctype_content helement hname rest
  rw [hcontent, List.append_assoc, List.singleton_append] at hend ⊢
  refine ⟨_, nextDoctype_body hend ?_⟩
  rw [List.dropWhile_cons_of_pos (by decide), List.dropWhile_cons_of_neg (by rw [hc]; exact Bool.false_ne_true)]
  exact List.cons_ne_nil c body

theorem writes_doctype {element name : List Char} (helement : ∀ c ∈ element, c.isAlpha = true) (hne : element ≠ [])
    (hname : '"' ∉ name) : Writes ("<!DOCTYPE".toList ++ doctypeContent element name) [] := fun rest => by
  obtain ⟨a, hnext⟩ := exists_next_doctype helement hne hname rest
  exact tags_of_next hnext

end Xml

namespace Template

theorem writes_declaration : Xml.Writes "<?xml version='1.0' encoding='utf-8' ?>\n".toList [] := by
  have hdeclaration : Xml.Writes (['<', '?'] ++ ("xml version='1.0' encoding='utf-8' ".toList ++ ['?', '>'])) [] :=
    Xml.writes_instruction (by decide) (by decide)
  have hline : Xml.Writes ['\n'] [] := Xml.writes_text (by decide)
  exact hdeclaration.append hline

theorem toList_preamble {c : Context} {element name : String} (hroot : c.get "root_element" = .text element)
    (htitle : c.get "escaped_book_title" = .text name) :
    (preamble c).toList = "<?xml version='1.0' encoding='utf-8' ?>\n".toList
      ++ ("<!DOCTYPE".toList ++ Xml.doctypeContent element.toList name.toList) := by
  have hopen : "<?xml version='1.0' encoding='utf-8' ?>\n<!DOCTYPE ".toList
      = "<?xml version='1.0' encoding='utf-8' ?>\n".toList ++ ("<!DOCTYPE".toList ++ [' ']) := by decide +kernel
  have hsplit :
      " PUBLIC \"-//OASIS//DTD DocBook XML V4.5//EN\" \"http://www.oasis-open.org/docbook/xml/4.5/docbookx.dtd\" [\n"
        = " PUBLIC \"-//OASIS//DTD DocBook XML V4.5//EN\" "
          ++ "\"http://www.oasis-open.org/docbook/xml/4.5/docbookx.dtd\" [\n" := by decide +kernel
  have hpublic : " PUBLIC \"-//OASIS//DTD DocBook XML V4.5//EN\" ".toList
      = " PUBLIC ".toList ++ '"' :: ("-//OASIS//DTD DocBook XML V4.5//EN".toList ++ ['"', ' ']) := by decide +kernel
  have hsystem : "\"http://www.oasis-open.org/docbook/xml/4.5/docbookx.dtd\" [\n".toList
      = '"' :: ("http://www.oasis-open.org/docbook/xml/4.5/docbookx.dtd".toList
        ++ '"' :: ' ' :: '[' :: "\n".toList) := by decide +kernel
  have hentity : "<!ENTITY % BOOK_ENTITIES SYSTEM \"".toList
      = '<' :: ("!ENTITY".toList ++ (" % BOOK_ENTITIES SYSTEM ".toList ++ ['"'])) := by decide +kernel
  have hend : ".ent\">\n%BOOK_ENTITIES;\n]>".toList
      = ".ent".toList ++ '"' :: '>' :: ("\n%BOOK_ENTITIES;\n".toList ++ [']', '>']) := by decide +kernel
  unfold preamble
  rw [raw, raw, hroot, htitle, hsplit]
  simp only [Value.print, String.toList_append, hopen, hpublic, hsystem, hentity, hend, Xml.doctypeContent,
    Xml.Doctype.entities, List.append_assoc, List.cons_append, List.nil_append]

/-- **A preamble holds no tags.** -/
theorem writes_preamble {c : Context} {element name : String} (hroot : c.get "root_element" = .text element)
    (htitle : c.get "escaped_book_title" = .text name) (helement : ∀ a ∈ element.toList, a.isAlpha = true)
    (hne : element.toList ≠ []) (hname : '"' ∉ name.toList) : Xml.Writes (preamble c).toList [] := by
  rw [toList_preamble hroot htitle]
  exact writes_declaration.append (Xml.writes_doctype helement hne hname)

theorem trimEnd_preamble (c : Context) : Text.trimEnd (preamble c) = preamble c := by
  obtain ⟨cs, hcs⟩ : ∃ cs, (preamble c).toList = cs ++ ['>'] := by
    have hend : ".ent\">\n%BOOK_ENTITIES;\n]>".toList =
      ".ent\">\n%BOOK_ENTITIES;\n]".toList ++ ['>'] := by decide +kernel
    unfold preamble
    rw [String.toList_append, hend, ← List.append_assoc]
    exact ⟨_, rfl⟩
  have htrim : Text.trimRight (preamble c).toList = (preamble c).toList := by
    rw [Text.trimRight, hcs, List.reverse_append, List.reverse_singleton, List.singleton_append,
      List.dropWhile_cons_of_neg (by decide), List.reverse_cons, List.reverse_reverse]
  rw [Text.trimEnd, htrim, String.ofList_toList]

end Template

theorem Slug.isSlugChar_of_mem_escape {title : String} {c : Char} (h : c ∈ (escape title).toList) :
    isSlugChar c = true := by
  rw [escape, String.toList_ofList, escapeChars] at h
  exact (List.mem_filter.1 h).2

end Bookbinder
