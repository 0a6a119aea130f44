import Bookbinder.Proofs.TitledSections
import Bookbinder.Proofs.TopicPages
/-!
# Pages with a title

A topic's page is a section that begins with the topic's title.  If the page is read at all, it is read to that section
(`TopicView.exists_of_read_xml`), whatever its content is; and it is read if the tags of its content match
(`TopicView.exists_read_xml`), whatever titles and addresses its links show.
-/
namespace Bookbinder

open Xml (Balanced Document Moves)

namespace RelatedLink

/-! ## Links -/

theorem balanced_xml (l : RelatedLink) : Balanced l.xml.toList := by
  obtain ⟨link, title⟩ := l
  cases link with
  | xref target => exact Xml.balanced_emptyTag "xref" "linkend" (by decide) (Text.quote_notMem_escape target)
  | ulink url =>
    have hstart := Xml.moves_startTag "ulink" "url" (by decide) (Text.quote_notMem_escape url)
    have hend := Xml.moves_fragment "</ulink>" ["ulink"] [] (by decide +kernel)
    exact hstart.between (Xml.balanced_escape title) hend

theorem balanced_itemXml (l : RelatedLink) : Balanced l.itemXml.toList := by
  have hstart := Xml.moves_fragment "\n\t\t<listitem><para>" [] ["para", "listitem"] (by decide +kernel)
  have hend := Xml.moves_fragment "</para></listitem>" ["para", "listitem"] [] (by decide +kernel)
  exact hstart.between l.balanced_xml hend

theorem balanced_listXml {role title : String} (hrole : '"' ∉ role.toList) (htitle : Balanced title.toList)
    (ls : List RelatedLink) : Balanced (listXml role title ls).toList := by
  have hstart := Moves.around "\n\t<itemizedlist role=\"" "\">\n\t\t<title>" (by decide +kernel) (by decide +kernel)
    (Xml.moves_fragment "\n\t" [] [] (by decide +kernel)) (Xml.moves_startTag "itemizedlist" "role" (by decide) hrole)
    (Xml.moves_fragment "\n\t\t<title>" ["itemizedlist"] ["title", "itemizedlist"] (by decide +kernel))
  have htitleEnd := Xml.moves_fragment "</title>" ["title", "itemizedlist"] ["itemizedlist"] (by decide +kernel)
  have hitems : Balanced (String.join (ls.map itemXml)).toList := Moves.join itemXml fun l _ => l.balanced_itemXml
  have hend := Xml.moves_fragment "\n\t</itemizedlist>" ["itemizedlist"] [] (by decide +kernel)
  exact (((hstart.append_toList (htitle.within _)).append_toList htitleEnd).append_toList
    (hitems.within _)).append_toList hend

end RelatedLink

namespace Template

theorem balanced_linksXml {role title : String} (hrole : '"' ∉ role.toList) (htitle : Balanced title.toList)
    (ls : List RelatedLink) : Balanced (linksXml role title ls).toList := by
  rw [linksXml]
  split
  · exact Moves.nil
  · exact RelatedLink.balanced_listXml hrole htitle ls

theorem balanced_stepsXml {role title : String} (hrole : '"' ∉ role.toList) (htitle : Balanced title.toList)
    (process : Option RelatedLink) (ls : List RelatedLink) : Balanced (stepsXml process role title ls).toList := by
  cases process with
  | none => exact Moves.nil
  | some p =>
    have hin := Xml.moves_fragment " Step in " [] [] (by decide +kernel)
    exact balanced_linksXml hrole ((htitle.append_toList hin).append_toList p.balanced_xml) ls

theorem balanced_relatedXml {l : RelatedList} (h : '"' ∉ l.role.toList) : Balanced (relatedXml l).toList := by
  refine RelatedLink.balanced_listXml ?_ (Xml.balanced_escape l.label) l.links
  rw [String.toList_append, List.mem_append]
  exact fun hm => hm.elim (by decide) h

theorem balanced_bugXml (url : String) : Balanced (bugXml url).toList := by
  rw [bugXml]
  split
  · exact Moves.nil
  · have hbefore := Xml.moves_fragment "\n\t<simplesect role=\"RoleCreateBugPara\">\n\t\t<title></title>\n\t\t<para>" []
      ["para", "simplesect"] (by decide +kernel)
    have hstart := Xml.moves_startTag "ulink" "url" (by decide) (Text.quote_notMem_escape url)
    have hafter := Xml.moves_fragment "Report a bug</ulink></para>\n\t</simplesect>" ["ulink", "para", "simplesect"] []
      (by decide +kernel)
    exact Moves.around _ _ (by decide +kernel) (by decide +kernel) hbefore (hstart.within _) hafter

namespace TopicView

/-! ## Sections -/

/-- What stands between the title of a topic's page and the end of its section. -/
def bodyXml (v : TopicView) (content : String) : String :=
  linksXml "prereqs-list" "Prerequisite" v.links.prerequisites
    ++ "\n" ++ content
    ++ stepsXml v.links.process "process-previous" "Previous" v.links.previousSteps
    ++ stepsXml v.links.process "process-next" "Next" v.links.nextSteps
    ++ String.join (v.related.map relatedXml)
    ++ linksXml "see-also-list" "See Also" v.links.seeAlso
    ++ bugXml (v.bugLink.getD "") ++ "\n"

variable {v : TopicView} {content : String}

theorem xml_eq (v : TopicView) (lead content : String) : v.xml lead content = Xml.sectionText lead v.linkId
    ("<title>" ++ Text.escape v.title ++ "</title>") (v.bodyXml content ++ "</section>") := by
  have htitle : "\">\n\t<title>" = "\">" ++ ("\n\t" ++ "<title>") := by decide +kernel
  have hend : "\n</section>" = "\n" ++ "</section>" := by decide +kernel
  simp only [xml, bodyXml, Xml.sectionText, htitle, hend, String.append_assoc]

theorem balanced_bodyXml (hrole : ∀ l ∈ v.related, '"' ∉ l.role.toList) (hcontent : Balanced content.toList) :
    Balanced (v.bodyXml content).toList := by
  have hprerequisites := balanced_linksXml (show '"' ∉ "prereqs-list".toList by decide)
    (Xml.moves_fragment "Prerequisite" [] [] (by decide +kernel)) v.links.prerequisites
  have hblank := Xml.moves_fragment "\n" [] [] (by decide +kernel)
  have hprevious := balanced_stepsXml (show '"' ∉ "process-previous".toList by decide)
    (Xml.moves_fragment "Previous" [] [] (by decide +kernel)) v.links.process v.links.previousSteps
  have hnext := balanced_stepsXml (show '"' ∉ "process-next".toList by decide)
    (Xml.moves_fragment "Next" [] [] (by decide +kernel)) v.links.process v.links.nextSteps
  have hrelated := Moves.join relatedXml fun l hl => balanced_relatedXml (hrole l hl)
  have hseeAlso := balanced_linksXml (show '"' ∉ "see-also-list".toList by decide)
    (Xml.moves_fragment "See Also" [] [] (by decide +kernel)) v.links.seeAlso
  exact (((((((hprerequisites.append_toList hblank).append_toList hcontent).append_toList hprevious).append_toList
    hnext).append_toList hrelated).append_toList hseeAlso).append_toList (balanced_bugXml _)).append_toList hblank

/-- **A topic's page is read, if at all, to a section that begins with the topic's title.** -/
theorem exists_of_read_xml {lead : String} (hlead : Xml.Introduces lead) {d : Document}
    (h : Document.read (v.xml lead content) = .ok d) : ∃ (raws : List String) (after : List Xml.Node),
      String.join raws = Text.escape v.title ∧ d.root = Xml.titledSection v.linkId raws after := by
  rw [xml_eq] at h
  exact Xml.exists_of_read hlead (Xml.heads_titleTags v.title) h

/-- **A topic's page is read if the tags of its content match.** -/
theorem exists_read_xml {lead : String} (hlead : Xml.Introduces lead) (hrole : ∀ l ∈ v.related, '"' ∉ l.role.toList)
    (hcontent : Balanced content.toList) : ∃ d : Document, Document.read (v.xml lead content) = .ok d ∧
      d.root.Presents v.linkId v.title := by
  obtain ⟨d, raws, after, hread, hraws, hroot⟩ :=
    Xml.exists_read v.linkId hlead (Xml.heads_titleTags v.title) (balanced_bodyXml hrole hcontent)
  rw [← xml_eq] at hread
  exact ⟨d, hread, hroot ▸ Xml.presents_titledSection v.linkId hraws after⟩

end TopicView
end Template
end Bookbinder
