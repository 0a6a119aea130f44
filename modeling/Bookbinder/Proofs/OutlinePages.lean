import Bookbinder.Book.Body
import Bookbinder.Proofs.TopicFiles
/-!
# Pages of the outline

The page of a chapter shows its level and the levels below it, each under its link id, and so does the page of the book
for its parts; what they include has no id (`ids_chapterPage`, `ids_bookPage`).
-/
namespace Bookbinder

open Xml (Element Writes)

/-- The tag that includes a file. -/
def inclusionTag (href : String) : Element :=
  ⟨"xi:include", [("href", href), ("xmlns:xi", "http://www.w3.org/2001/XInclude")], []⟩

/-- The tags of an element of the outline and of its title. -/
def elementTags (name id : String) : List Element :=
  [⟨name, [("id", Text.escape id)], []⟩, ⟨"title", [], []⟩]

mutual

/-- The tags that a node of an outline is written as. -/
def OutlineNode.tags : OutlineNode → List Element
  | .inclusion href => [inclusionTag (Text.escape href)]
  | .element name id _ children => elementTags name id ++ outlineTags children

def outlineTags : List OutlineNode → List Element
  | [] => []
  | n :: ns => n.tags ++ outlineTags ns

end

mutual

/-- The ids of a node of an outline and of those below it. -/
def OutlineNode.ids : OutlineNode → List String
  | .inclusion _ => []
  | .element _ id _ children => id :: outlineIds children

def outlineIds : List OutlineNode → List String
  | [] => []
  | n :: ns => n.ids ++ outlineIds ns

end

mutual

/-- A node of an outline whose elements, and those below it, have proper names. -/
def OutlineNode.Named : OutlineNode → Prop
  | .inclusion _ => True
  | .element name _ _ children => Xml.isName name = true ∧ outlineNamed children

def outlineNamed : List OutlineNode → Prop
  | [] => True
  | n :: ns => n.Named ∧ outlineNamed ns

end

theorem outlineIds_append (ns ms : List OutlineNode) : outlineIds (ns ++ ms) = outlineIds ns ++ outlineIds ms := by
  induction ns with
  | nil => rfl
  | cons n ns ih => rw [List.cons_append, outlineIds, outlineIds, ih, List.append_assoc]

theorem outlineNamed_iff {ns : List OutlineNode} : outlineNamed ns ↔ ∀ n ∈ ns, n.Named := by
  induction ns with
  | nil => exact ⟨fun _ n hn => absurd hn List.not_mem_nil, fun _ => trivial⟩
  | cons n ns ih => rw [outlineNamed, ih, List.forall_mem_cons]

/-! ## Tags and ids -/

theorem ids_elementTags (name id : String) : Xml.ids (elementTags name id) = [Text.escape id] := rfl

mutual

theorem OutlineNode.ids_tags : ∀ n : OutlineNode, Xml.ids n.tags = n.ids.map Text.escape
  | .inclusion _ => rfl
  | .element name id _ children => by
    rw [OutlineNode.tags, OutlineNode.ids, Xml.ids_append, ids_elementTags, ids_outlineTags children]
    rfl

/-- **The ids of what an outline is written as are those of its elements.** -/
theorem ids_outlineTags : ∀ ns : List OutlineNode, Xml.ids (outlineTags ns) = (outlineIds ns).map Text.escape
  | [] => rfl
  | n :: ns => by
    rw [outlineTags, outlineIds, Xml.ids_append, OutlineNode.ids_tags n, ids_outlineTags ns, List.map_append]

end

namespace Template

theorem writes_emptyTag_two (name key other : String) {value url : String}
    (h : (Xml.isName name && Xml.isName key && Xml.isName other && key != other) = true) (hvalue : '"' ∉ value.toList)
    (hurl : '"' ∉ url.toList) : Writes ("<" ++ name ++ " " ++ key ++ "=\"" ++ value ++ "\" " ++ other ++ "=\"" ++ url
      ++ "\" />").toList [⟨name, [(key, value), (other, url)], []⟩] := by
  simp only [Bool.and_eq_true, bne_iff_ne] at h
  obtain ⟨⟨⟨hname, hkey⟩, hother⟩, hne⟩ := h
  have hplain : (⟨name, [(key, value), (other, url)], []⟩ : Element).isPlain = true :=
    Xml.isPlain_iff.2 ⟨hname, List.forall_mem_cons.2 ⟨⟨hkey, hvalue⟩, List.forall_mem_singleton.2 ⟨hother, hurl⟩⟩⟩
  have hkeys : [key, other].Nodup := List.nodup_cons.2 ⟨fun hm => hne (List.mem_singleton.1 hm), List.nodup_singleton _⟩
  have htag := Xml.writes_empty hplain hkeys [' '] (by decide)
  simpa [Xml.attributesXml] using htag

theorem quote_notMem_xinclude : '"' ∉ "http://www.w3.org/2001/XInclude".toList := by decide +kernel

theorem writes_inclusion {href : String} (h : '"' ∉ href.toList) :
    Writes (inclusion href).toList [inclusionTag href] := by
  have hstart : "<xi:include href=\"" = "<" ++ "xi:include" ++ " " ++ "href" ++ "=\"" := by decide +kernel
  have hend : "\" xmlns:xi=\"http://www.w3.org/2001/XInclude\" />"
      = "\" " ++ "xmlns:xi" ++ "=\"" ++ "http://www.w3.org/2001/XInclude" ++ "\" />" := by decide +kernel
  have htext : inclusion href = "<" ++ "xi:include" ++ " " ++ "href" ++ "=\"" ++ href
      ++ ("\" " ++ "xmlns:xi" ++ "=\"" ++ "http://www.w3.org/2001/XInclude" ++ "\" />") :=
    congrArg₂ (fun a c => a ++ href ++ c) hstart hend
  have htag := writes_emptyTag_two "xi:include" "href" "xmlns:xi" (by decide) h quote_notMem_xinclude
  simp only [String.append_assoc] at htag htext
  rwa [htext]

theorem writes_outlineElement {name id title content : String} (hname : Xml.isName name = true) {es : List Element}
    (hcontent : Writes content.toList es) :
    Writes (outlineElement name (Text.escape id) (Text.escape title) content).toList (elementTags name id ++ es) := by
  have hblank := Xml.writes_fragment "\n\t" [] (by decide +kernel)
  have hstart := Xml.writes_startTag name "id" (by rw [hname]; decide) (Text.quote_notMem_escape id)
  have htitle := Xml.writes_fragment "\n\t\t<title>" [("title", [])] (by decide +kernel)
  have htitleEnd := Xml.writes_fragment "</title>" [] (by decide +kernel)
  have hend : Writes ("</" ++ name ++ ">").toList [] := by simpa using Xml.writes_closing hname
  have hall := ((((((hblank.append_toList hstart).append_toList htitle).append_toList
    (Xml.writes_escape title)).append_toList htitleEnd).append_toList hcontent).append_toList hblank).append_toList hend
  simpa [outlineElement, elementTags, String.append_assoc] using hall

mutual

theorem exists_writes_outlineNode : ∀ n : OutlineNode, n.Named →
    ∃ text, outlineNode n.value = .ok text ∧ Writes text.toList n.tags
  | .inclusion href, _ => by
    refine ⟨_, rfl, ?_⟩
    exact (Xml.writes_fragment "\n\t" [] (by decide +kernel)).append_toList
      (writes_inclusion (Text.quote_notMem_escape href))
  | .element name id title children, h => by
    obtain ⟨content, hcontent, hwrites⟩ := exists_writes_outline children h.2
    refine ⟨outlineElement name (Text.escape id) (Text.escape title) content, ?_, writes_outlineElement h.1 hwrites⟩
    have hbelow : outlineBelow [("kind", .text "element"), ("element", .text name), ("id", .text id),
        ("title", .text title), ("children", .list (outlineValues children))] = .ok content := hcontent
    rw [OutlineNode.value, outlineNode, hbelow]
    rfl

/-- **An outline is written as the tags of its nodes.** -/
theorem exists_writes_outline : ∀ ns : List OutlineNode, outlineNamed ns →
    ∃ text, outlineAll (outlineValues ns) = .ok text ∧ Writes text.toList (outlineTags ns)
  | [], _ => ⟨"", rfl, Writes.nil⟩
  | n :: ns, h => by
    obtain ⟨a, ha, hwritesA⟩ := exists_writes_outlineNode n h.1
    obtain ⟨c, hc, hwritesC⟩ := exists_writes_outline ns h.2
    refine ⟨a ++ c, ?_, hwritesA.append_toList hwritesC⟩
    rw [outlineValues, outlineAll, ha, hc]

end

theorem writes_chapterPage {c : Context} {element id title text : String} {ns : List OutlineNode}
    (helement : c.get "element" = .text element) (hid : c.get "id" = .text id) (htitle : c.get "title" = .text title)
    (hchildren : c.get "children" = .list (outlineValues ns)) (hpreamble : Writes (preamble c).toList [])
    (hname : Xml.isName element = true) (hns : outlineNamed ns) (h : chapterPage c = .ok text) :
    Writes text.toList (elementTags element id ++ outlineTags ns) := by
  obtain ⟨content, hcontent, hwrites⟩ := exists_writes_outline ns hns
  have houtline : outline (.list (outlineValues ns)) = .ok content := hcontent
  rw [chapterPage, raw, xml, xml, helement, hid, htitle, hchildren, houtline] at h
  rw [← Except.ok.inj h]
  have hblank := Xml.writes_fragment "\n" [] (by decide +kernel)
  have hstart := Xml.writes_startTag element "id" (by rw [hname]; decide) (Text.quote_notMem_escape id)
  have htitleStart := Xml.writes_fragment "\n\t<title>" [("title", [])] (by decide +kernel)
  have htitleEnd := Xml.writes_fragment "</title>" [] (by decide +kernel)
  have hend : Writes ("</" ++ element ++ ">").toList [] := by simpa using Xml.writes_closing hname
  have hall := (((((((hpreamble.append_toList hblank).append_toList hstart).append_toList htitleStart).append_toList
    (Xml.writes_escape title)).append_toList htitleEnd).append_toList hwrites).append_toList hblank).append_toList hend
  simpa [elementTags, String.append_assoc, Value.print, Value.printXml] using hall

/-- What the page of a book writes besides its outline. -/
theorem writes_bookPage {c : Context} {text : String} {ns : List OutlineNode}
    (hlevels : c.get "levels" = .list (outlineValues ns)) (hpreamble : Writes (preamble c).toList [])
    (hns : outlineNamed ns) (h : bookPage c = .ok text) : ∃ before after, Writes text.toList
      (before ++ outlineTags ns ++ after) ∧ Xml.ids before = [] ∧ Xml.ids after = [] := by
  obtain ⟨content, hcontent, hwrites⟩ := exists_writes_outline ns hns
  have houtline : outline (.list (outlineValues ns)) = .ok content := hcontent
  rw [bookPage, hlevels, houtline] at h
  rw [← Except.ok.inj h]
  have hstart := Xml.writes_fragment "\n<book>\n\t" [("book", [])] (by decide +kernel)
  have hblank := Xml.writes_fragment "\n\t" [] (by decide +kernel)
  have hinfo := writes_inclusion (show '"' ∉ "Book_Info.xml".toList by decide)
  have hpreface := writes_inclusion (show '"' ∉ "Preface.xml".toList by decide)
  have hhistory := writes_inclusion (show '"' ∉ "Revision_History.xml".toList by decide)
  have hend := Xml.writes_fragment "\n\t<index />\n</book>" [("index", [])] (by decide +kernel)
  have hall := (((((((hpreamble.append_toList hstart).append_toList hinfo).append_toList hblank).append_toList
    hpreface).append_toList hwrites).append_toList hblank).append_toList hhistory).append_toList hend
  refine ⟨[⟨"book", [], []⟩, inclusionTag "Book_Info.xml", inclusionTag "Preface.xml"],
    [inclusionTag "Revision_History.xml", ⟨"index", [], []⟩], ?_, rfl, rfl⟩
  simpa [String.append_assoc] using hall

end Template
end Bookbinder
