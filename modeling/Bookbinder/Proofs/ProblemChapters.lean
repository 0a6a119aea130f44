import Bookbinder.Book.BackMatter
import Bookbinder.Proofs.ContainedPaths
import Bookbinder.Proofs.SpecListings
import Bookbinder.Proofs.WordedMessages
/-!
# The chapter of problems

The chapter has a section for each topic with problems, in the order of the log, and a section lists the topic's tags,
its errors and its warnings, in this order.  It is read so if all messages are sealed (`listsProblems_of_sealed`).
-/
namespace Bookbinder
namespace Xml

/-! ## Elements on lines of their own -/

/-- Elements with running text around them. -/
inductive Laid : String → List Element → Prop
  | blank {s : String} : Template.Running s → Laid s []
  | element {s x t : String} {e : Element} {es : List Element} : Template.Running s → Begins x → Adds x [e.toNode] →
    Laid t es → Laid (s ++ (x ++ t)) (e :: es)

/-- The elements among the children. -/
def Element.inner (e : Element) : List Element :=
  e.children.filterMap Node.element?

namespace Laid

variable {s t : String} {es fs : List Element}

theorem prepend (hs : Template.Running s) (h : Laid t es) : Laid (s ++ t) es := by
  cases h with
  | blank ht => exact .blank (hs.append ht)
  | element hblank hbegins hadds hrest =>
    rw [← String.append_assoc]
    exact .element (hs.append hblank) hbegins hadds hrest

theorem append (h : Laid s es) (h' : Laid t fs) : Laid (s ++ t) (es ++ fs) := by
  induction h with
  | blank hs => exact h'.prepend hs
  | element hblank hbegins hadds _ ih =>
    rw [String.append_assoc, String.append_assoc]
    exact .element hblank hbegins hadds ih

theorem exists_addsBefore (h : Laid s es) : ∃ ns, AddsBefore s ns ∧ ns.filterMap Node.element? = es := by
  have hrunning {s : String} (hs : Template.Running s) :
      ∃ ns, AddsBefore s ns ∧ ns.filterMap Node.element? = [] := by
    by_cases hne : s = ""
    · exact ⟨[], hne ▸ adds_empty.before, rfl⟩
    · exact ⟨_, addsBefore_running hne hs, rfl⟩
  induction h with
  | blank hs => exact hrunning hs
  | element hs hbegins hadds _ ih =>
    obtain ⟨ns, hns, hnone⟩ := hrunning hs
    obtain ⟨ms, hms, hes⟩ := ih
    refine ⟨_, hns.append_before (hbegins.append _) (hadds.append_before hms), ?_⟩
    rw [List.filterMap_append, List.filterMap_append, hnone, hes]
    rfl

/-- One element without any text around it. -/
theorem of_adds {x : String} {e : Element} (hbegins : Begins x) (h : Adds x [e.toNode]) : Laid x [e] := by
  have hlaid := Laid.element (s := "") (t := "") (fun _ hc => absurd hc List.not_mem_nil) hbegins h
    (.blank fun _ hc => absurd hc List.not_mem_nil)
  rwa [String.empty_append, String.append_empty] at hlaid

/-- What is left of running text when it is clean. -/
theorem of_running (h : Template.Running s) : Laid (cleanText s) [] :=
  .blank fun c hc => h c (List.mem_of_mem_filter (by rwa [toList_cleanText] at hc))

theorem tags (h : Laid s es) {name : String} {as : Attributes} (hplain : (⟨name, as, []⟩ : Element).isPlain = true)
    (hkeys : (as.map (·.1)).Nodup) :
    ∃ ns, ns.filterMap Node.element? = es ∧ Laid (tagsAround name as s) [⟨name, as, ns⟩] := by
  obtain ⟨ns, hns, hes⟩ := h.exists_addsBefore
  exact ⟨ns, hes, of_adds (begins_tagsAround _ _ _) (adds_tagsAround hplain hkeys hns)⟩

end Laid

end Xml

namespace Draft

open Xml

/-! ## Items -/

/-- A text that is read, once it is clean, where it is all that an element holds. -/
def Readable (text : String) : Prop :=
  ∃ ns, AddsBefore (cleanText text) ns

theorem readable_of_phrase {s : String} (h : Phrase s) : Readable s := by
  refine CharacterData.exists_addsBefore ?_
  rw [toList_cleanText]
  exact h.clean

theorem readable_message (s : Severity) {m : String} (h : Worded m) (hm : Sealed m) :
    Readable (s.name ++ ": " ++ m) := by
  have hlast : (s.name ++ ": ").toList.getLast? = some ' ' := by cases s <;> decide
  have hname : Phrase (s.name ++ ": ") := .of_running (by cases s <;> decide)
  have hsealed : Sealed (s.name ++ ": ") := by cases s <;> decide
  exact (h.prepend hname).exists_adds ((sealed_append_of_last hlast (by decide) (by decide)).2 ⟨hsealed, hm⟩)

/-- An item that shows a text. -/
def IsItem (text : String) (e : Element) : Prop :=
  e.name = "listitem" ∧ ∃ para, e.inner = [para] ∧ para.name = "para" ∧ content? (cleanText text) = some para.children

/-- The messages of a severity, as they are listed. -/
def reported (p : TopicProblems) (s : Severity) : List String :=
  (p.messages s).map (s.name ++ ": " ++ ·)

/-- The tags of a topic, as they are listed. -/
def tagLines (t : TopicSummary) : List String :=
  if t.tags.isEmpty then [] else ["INFO: " ++ Text.escape t.tags]

/-- What is listed of a topic with problems: its tags, its errors and its warnings. -/
def itemTexts (p : TopicProblems) : List String :=
  tagLines p.topic ++ reported p .error ++ reported p .warning

theorem readable_itemTexts {p : TopicProblems} (h : ∀ i ∈ p.items, Worded i.message ∧ Sealed i.message) :
    ∀ text ∈ itemTexts p, Readable text := by
  have hreported (s : Severity) : ∀ text ∈ reported p s, Readable text := by
    intro text htext
    obtain ⟨m, hm, rfl⟩ := List.mem_map.1 htext
    obtain ⟨i, hi, rfl⟩ := List.mem_map.1 hm
    obtain ⟨hworded, hsealed⟩ := h i (List.mem_filter.1 hi).1
    exact readable_message s hworded hsealed
  have htags : ∀ text ∈ tagLines p.topic, Readable text := by
    unfold tagLines
    split
    · exact fun _ hc => absurd hc List.not_mem_nil
    · intro text htext
      rw [List.mem_singleton.1 htext]
      exact readable_of_phrase ((Phrase.of_running (by decide)).append (.escape _))
  intro text htext
  rw [itemTexts, List.mem_append, List.mem_append] at htext
  exact htext.elim (·.elim (htags text) (hreported .error text)) (hreported .warning text)

theorem items_eq (p : TopicProblems) :
    tagItem p.topic ++ severityItems p .error ++ severityItems p .warning = String.join ((itemTexts p).map listItem) := by
  have htags : tagItem p.topic = String.join ((tagLines p.topic).map listItem) := by
    unfold tagItem tagLines
    split
    · rfl
    · rw [List.map_singleton, String.join_cons, String.join_nil, String.append_empty]
  have hreported (s : Severity) : severityItems p s = String.join ((reported p s).map listItem) := by
    rw [severityItems, reported, List.map_map]
    rfl
  rw [itemTexts, List.map_append, List.map_append, String.join_append, String.join_append, htags, hreported, hreported]

theorem listItem_eq (text : String) :
    listItem text = "\t\t\t" ++ (tagsAround "listitem" [] (tagsAround "para" [] text) ++ "\n") := by
  rw [← String.toList_inj]
  unfold listItem
  simp [tagsAround, startTag, endTag, attributesXml]

theorem exists_laid_listItem {text : String} (h : Readable text) :
    ∃ e, IsItem text e ∧ Laid (cleanText (listItem text)) [e] := by
  obtain ⟨ns, hns⟩ := h
  have hplain : (⟨"para", [], []⟩ : Element).isPlain = true := by decide
  have hplainItem : (⟨"listitem", [], []⟩ : Element).isPlain = true := by decide
  have hpara : Laid (tagsAround "para" [] (cleanText text)) [⟨"para", [], ns⟩] :=
    .of_adds (begins_tagsAround _ _ _) (adds_tagsAround hplain List.nodup_nil hns)
  obtain ⟨ms, hms, hitem⟩ := hpara.tags hplainItem List.nodup_nil
  refine ⟨⟨"listitem", [], ms⟩, ⟨rfl, _, hms, rfl, content?_of_addsBefore hns⟩, ?_⟩
  rw [listItem_eq, cleanText_append, cleanText_append, cleanText_tagsAround (by decide) (by decide),
    cleanText_tagsAround (by decide) (by decide)]
  exact (Laid.of_running (by decide)).append (hitem.append (.of_running (by decide)))

theorem exists_laid_items {texts : List String} (h : ∀ text ∈ texts, Readable text) :
    ∃ es, List.Forall₂ IsItem texts es ∧ Laid (cleanText (String.join (texts.map listItem))) es := by
  induction texts with
  | nil => exact ⟨[], .nil, .blank fun _ hc => absurd hc List.not_mem_nil⟩
  | cons text texts ih =>
    obtain ⟨e, he, hlaid⟩ := exists_laid_listItem (h text List.mem_cons_self)
    obtain ⟨es, hes, hrest⟩ := ih fun t ht => h t (List.mem_cons_of_mem text ht)
    refine ⟨e :: es, .cons he hes, ?_⟩
    rw [List.map_cons, String.join_cons, cleanText_append]
    exact hlaid.append hrest

/-! ## Sections -/

def sectionHeading (t : TopicSummary) : String :=
  "Topic ID " ++ toString t.topicId ++ ", Revision " ++ toString t.revision

/-- A section that shows a topic with problems: under the topic's heading, a list of what is reported. -/
structure ShowsProblems (p : TopicProblems) (e : Element) : Prop where
  name : e.name = "section"
  id : e.attribute? "id" = some p.topic.xrefId
  parts : ∃ title list, e.inner = [title, list] ∧ title.name = "title" ∧ title.raw? = some (sectionHeading p.topic) ∧
    list.name = "itemizedlist" ∧ List.Forall₂ IsItem (itemTexts p) list.inner

/-- What is within the section of a topic with problems. -/
def sectionBody (p : TopicProblems) : String :=
  "\n\t\t" ++ (tagsAround "title" [] (sectionHeading p.topic) ++ ("\n\t\t"
    ++ (tagsAround "itemizedlist" [] ("\n" ++ (String.join ((itemTexts p).map listItem) ++ "\t\t")) ++ "\n\t")))

theorem problemSection_eq (p : TopicProblems) : problemSection p =
    "\t" ++ (tagsAround "section" [("id", Text.escape p.topic.xrefId)] (sectionBody p) ++ "\n") := by
  rw [sectionBody, ← items_eq, ← String.toList_inj]
  unfold problemSection
  simp [sectionHeading, tagsAround, startTag, endTag, attributesXml]

theorem running_sectionHeading (t : TopicSummary) : Template.Running (sectionHeading t) := by
  refine ((Template.Running.append ?_ (Template.running_int _)).append ?_).append (Template.running_int _)
  all_goals decide

theorem legal_sectionHeading (t : TopicSummary) : Legal (sectionHeading t) := by
  refine ((Legal.append ?_ (legal_of_slug (Slug.all_int _))).append ?_).append (legal_of_slug (Slug.all_int _))
  all_goals decide

theorem laid_title {title : String} (h : Template.Running title) (hne : title ≠ "") :
    Laid (tagsAround "title" [] title) [⟨"title", [], [.text title]⟩] :=
  have hplain : (⟨"title", [], []⟩ : Element).isPlain = true := by decide
  .of_adds (begins_tagsAround _ _ _) (adds_tagsAround hplain List.nodup_nil (addsBefore_running hne h))

theorem exists_laid_sectionBody {p : TopicProblems} (h : ∀ i ∈ p.items, Worded i.message ∧ Sealed i.message) :
    ∃ list, list.name = "itemizedlist" ∧ List.Forall₂ IsItem (itemTexts p) list.inner ∧
      Laid (cleanText (sectionBody p)) [⟨"title", [], [.text (sectionHeading p.topic)]⟩, list] := by
  obtain ⟨es, hitems, hlaid⟩ := exists_laid_items (readable_itemTexts h)
  have hplain : (⟨"itemizedlist", [], []⟩ : Element).isPlain = true := by decide
  have hindented : Laid (cleanText ("\n" ++ (String.join ((itemTexts p).map listItem) ++ "\t\t"))) es := by
    rw [cleanText_append, cleanText_append, ← List.append_nil es]
    exact (Laid.of_running (by decide)).append (hlaid.append (.of_running (by decide)))
  obtain ⟨ms, hms, hlist⟩ := hindented.tags hplain List.nodup_nil
  have hne : sectionHeading p.topic ≠ "" := by
    rw [Ne, ← String.toList_inj]
    simp [sectionHeading]
  refine ⟨⟨"itemizedlist", [], ms⟩, rfl, by rwa [Element.inner, hms], ?_⟩
  rw [sectionBody, cleanText_append, cleanText_append, cleanText_append, cleanText_append,
    cleanText_tagsAround (by decide) (by decide), cleanText_tagsAround (by decide) (by decide),
    (legal_sectionHeading _).cleanText_eq]
  exact (Laid.of_running (by decide)).append ((laid_title (running_sectionHeading _) hne).append
    ((Laid.of_running (by decide)).append (hlist.append (.of_running (by decide)))))

theorem exists_laid_section {p : TopicProblems} (hid : p.topic.xrefId.toList.all Slug.isSlugChar = true)
    (h : ∀ i ∈ p.items, Worded i.message ∧ Sealed i.message) :
    ∃ e, ShowsProblems p e ∧ Laid (cleanText (problemSection p)) [e] := by
  obtain ⟨list, hname, hitems, hlaid⟩ := exists_laid_sectionBody h
  have hplain : (⟨"section", [("id", Text.escape p.topic.xrefId)], []⟩ : Element).isPlain = true :=
    isPlain_with "section" "id" (by decide) (Text.quote_notMem_escape _)
  obtain ⟨ms, hms, hsection⟩ := hlaid.tags hplain (List.nodup_singleton _)
  have hattributes : Legal (attributesXml [("id", Text.escape p.topic.xrefId)]) := by
    rw [escape_of_slug hid]
    exact (((Legal.append (by decide) (legal_of_slug hid)).append (by decide)).append (by decide))
  have hshows : ShowsProblems p ⟨"section", [("id", Text.escape p.topic.xrefId)], ms⟩ :=
    ⟨rfl, congrArg some (escape_of_slug hid), _, _, hms, rfl, rfl, hname, hitems⟩
  refine ⟨_, hshows, ?_⟩
  rw [problemSection_eq, cleanText_append, cleanText_append, cleanText_tagsAround (by decide) hattributes.cleanText_eq]
  exact (Laid.of_running (by decide)).append (hsection.append (.of_running (by decide)))

theorem exists_laid_sections {ps : List TopicProblems} (hids : ∀ p ∈ ps, p.topic.xrefId.toList.all Slug.isSlugChar = true)
    (h : ∀ p ∈ ps, ∀ i ∈ p.items, Worded i.message ∧ Sealed i.message) :
    ∃ es, List.Forall₂ ShowsProblems ps es ∧ Laid (cleanText (String.join (ps.map problemSection))) es := by
  induction ps with
  | nil => exact ⟨[], .nil, .blank fun _ hc => absurd hc List.not_mem_nil⟩
  | cons p ps ih =>
    obtain ⟨e, he, hlaid⟩ := exists_laid_section (hids p List.mem_cons_self) (h p List.mem_cons_self)
    obtain ⟨es, hes, hrest⟩ := ih (fun q hq => hids q (List.mem_cons_of_mem p hq))
      fun q hq => h q (List.mem_cons_of_mem p hq)
    refine ⟨e :: es, .cons he hes, ?_⟩
    rw [List.map_cons, String.join_cons, cleanText_append]
    exact hlaid.append hrest

/-! ## The chapter -/

/-- The sections right below an element. -/
def sections (e : Element) : List Element :=
  e.inner.filter fun e => e.name == "section"

/-- A file of a chapter with a section for each topic with problems, in their order. -/
def ListsProblems (file : String) (ps : List TopicProblems) : Prop :=
  ∃ d, Document.read file = .ok d ∧ d.root.name = "chapter" ∧ d.root.attribute? "id" = some "Compiler_Output" ∧
    List.Forall₂ ShowsProblems ps (sections d.root)

theorem problemChapterText_eq (preamble : String) (ps : List TopicProblems) : problemChapterText preamble ps =
    Text.trimEnd preamble ++ "\n" ++ (tagsAround "chapter" [("id", "Compiler_Output")]
      ("\n\t" ++ (tagsAround "title" [] "Compiler Output" ++ ("\n" ++ problemSections ps))) ++ "\n") := by
  rw [← String.toList_inj]
  unfold problemChapterText
  simp [tagsAround, startTag, endTag, attributesXml]

theorem exists_laid_problemSections {ps : List TopicProblems}
    (hids : ∀ p ∈ ps, p.topic.xrefId.toList.all Slug.isSlugChar = true)
    (h : ∀ p ∈ ps, ∀ i ∈ p.items, Worded i.message ∧ Sealed i.message) :
    ∃ es, List.Forall₂ ShowsProblems ps (es.filter fun e => e.name == "section") ∧
      Laid (cleanText (problemSections ps)) es := by
  unfold problemSections
  split
  · rename_i hempty
    -- The note that there are no problems is a paragraph, not a section.
    have hnote : (DocBook.para "No Errors Found").toXml = tagsAround "para" [] "No Errors Found" := by decide
    have hplain : (⟨"para", [], []⟩ : Element).isPlain = true := by decide
    obtain ⟨ms, -, hpara⟩ := (Laid.of_running (s := "No Errors Found") (by decide)).tags hplain List.nodup_nil
    refine ⟨[⟨"para", [], ms⟩], by rw [List.isEmpty_iff.1 hempty]; exact .nil, ?_⟩
    rw [hnote, cleanText_append, cleanText_append, cleanText_tagsAround (by decide) (by decide)]
    exact ((Laid.of_running (by decide)).append hpara).append (.of_running (by decide))
  · obtain ⟨es, hes, hlaid⟩ := exists_laid_sections hids h
    have hall : es.filter (fun e => e.name == "section") = es := List.filter_eq_self.2 fun e he => by
      obtain ⟨p, -, hshows⟩ := exists_of_forall₂_right hes he
      exact beq_iff_eq.2 hshows.name
    exact ⟨es, by rwa [hall], hlaid⟩

/-- **The chapter is read with its sections if the messages are sealed.** -/
theorem listsProblems_of_sealed {preamble : String} (hlead : Introduces (preamble ++ "\n")) (hlegal : Legal preamble)
    (htrim : Text.trimEnd preamble = preamble) {ps : List TopicProblems}
    (hids : ∀ p ∈ ps, p.topic.xrefId.toList.all Slug.isSlugChar = true)
    (h : ∀ p ∈ ps, ∀ i ∈ p.items, Worded i.message ∧ Sealed i.message) :
    ListsProblems (cleanText (problemChapterText preamble ps)) ps := by
  obtain ⟨es, hes, hlaid⟩ := exists_laid_problemSections hids h
  have hplain : (⟨"chapter", [("id", "Compiler_Output")], []⟩ : Element).isPlain = true := by decide
  have htitle : cleanText "Compiler Output" = "Compiler Output" := by decide
  have hinner : Laid (cleanText ("\n\t" ++ (tagsAround "title" [] "Compiler Output" ++ ("\n" ++ problemSections ps))))
      (⟨"title", [], [.text "Compiler Output"]⟩ :: es) := by
    rw [cleanText_append, cleanText_append, cleanText_append, cleanText_tagsAround (by decide) (by decide), htitle]
    exact (Laid.of_running (by decide)).append ((laid_title (by decide) (by decide)).append
      ((Laid.of_running (by decide)).append hlaid))
  obtain ⟨ns, hns, hinnerElements⟩ := hinner.exists_addsBefore
  obtain ⟨d, hread, hroot⟩ := exists_read_root hlead hplain (List.nodup_singleton _) hns (.inr rfl)
  refine ⟨d, ?_, by rw [hroot], by rw [hroot]; rfl, ?_⟩
  · have hline : cleanText "\n" = "\n" := by decide
    have hattributes :
        cleanText (attributesXml [("id", "Compiler_Output")]) = attributesXml [("id", "Compiler_Output")] := by
      decide
    rw [problemChapterText_eq, htrim, cleanText_append, cleanText_append, hlegal.cleanText_eq, hline, cleanText_append,
      cleanText_tagsAround (by decide) hattributes, hline]
    exact hread
  · rw [sections, Element.inner, hroot, hinnerElements]
    exact hes

end Draft
end Bookbinder
