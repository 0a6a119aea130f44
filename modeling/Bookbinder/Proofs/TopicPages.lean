import Bookbinder.Injection.OutlineLinks
import Bookbinder.Injection.RelatedList
import Bookbinder.Proofs.PressRuns
import Bookbinder.Proofs.XmlNesting
import Bookbinder.Template.Pages
/-!
# The page of a topic

What a topic's page is rendered from always has a page (`topicPage_eq`), and the page's tags are those of the section,
of the lists of links and of the content, in order (`writes_topicXml`).
-/
namespace Bookbinder

open Xml (Element Writes)

namespace RelatedLink

/-! ## Links -/

/-- A link as pages show it. -/
def xml (l : RelatedLink) : String :=
  match l.link with
  | .xref target => "<xref linkend=\"" ++ Text.escape target ++ "\" />"
  | .ulink url => "<ulink url=\"" ++ Text.escape url ++ "\">" ++ Text.escape l.title ++ "</ulink>"

/-- The tag of a link. -/
def tag (l : RelatedLink) : Element :=
  match l.link with
  | .xref target => ⟨"xref", [("linkend", Text.escape target)], []⟩
  | .ulink url => ⟨"ulink", [("url", Text.escape url)], []⟩

theorem writes_xml (l : RelatedLink) : Writes l.xml.toList [l.tag] := by
  obtain ⟨link, title⟩ := l
  cases link with
  | xref target => exact Xml.writes_emptyTag "xref" "linkend" (by decide) (Text.quote_notMem_escape target)
  | ulink url =>
    have hstart := Xml.writes_startTag "ulink" "url" (by decide) (Text.quote_notMem_escape url)
    have hend := Xml.writes_fragment "</ulink>" [] (by decide +kernel)
    exact (hstart.append_toList (Xml.writes_escape title)).append_toList hend

theorem anonymous_tag (l : RelatedLink) : l.tag.Anonymous := by
  obtain ⟨link, _⟩ := l
  cases link with
  | xref target => exact ⟨Xml.isPlain_with "xref" "linkend" (by decide) (Text.quote_notMem_escape target), rfl⟩
  | ulink url => exact ⟨Xml.isPlain_with "ulink" "url" (by decide) (Text.quote_notMem_escape url), rfl⟩

/-- A link as an item of a list. -/
def itemXml (l : RelatedLink) : String :=
  "\n\t\t<listitem><para>" ++ l.xml ++ "</para></listitem>"

def itemTags (l : RelatedLink) : List Element :=
  [⟨"listitem", [], []⟩, ⟨"para", [], []⟩, l.tag]

theorem writes_itemXml (l : RelatedLink) : Writes l.itemXml.toList l.itemTags := by
  have hstart := Xml.writes_fragment "\n\t\t<listitem><para>" [("listitem", []), ("para", [])] (by decide +kernel)
  have hend := Xml.writes_fragment "</para></listitem>" [] (by decide +kernel)
  exact (hstart.append_toList l.writes_xml).append_toList hend

/-- A titled list of links. -/
def listXml (role title : String) (ls : List RelatedLink) : String :=
  "\n\t<itemizedlist role=\"" ++ role ++ "\">\n\t\t<title>" ++ title ++ "</title>" ++ String.join (ls.map itemXml)
    ++ "\n\t</itemizedlist>"

/-- The tags of a titled list of links, given those of its title. -/
def listTags (role : String) (title : List Element) (ls : List RelatedLink) : List Element :=
  [⟨"itemizedlist", [("role", role)], []⟩, ⟨"title", [], []⟩] ++ title ++ ls.flatMap itemTags

theorem writes_listXml {role title : String} {es : List Element} (hrole : '"' ∉ role.toList)
    (htitle : Writes title.toList es) (ls : List RelatedLink) :
    Writes (listXml role title ls).toList (listTags role es ls) := by
  have hstart := Writes.between "\n\t<itemizedlist role=\"" "\">\n\t\t<title>" (by decide +kernel) (by decide +kernel)
    (Xml.writes_fragment "\n\t" [] (by decide +kernel)) (Xml.writes_startTag "itemizedlist" "role" (by decide) hrole)
    (Xml.writes_fragment "\n\t\t<title>" [("title", [])] (by decide +kernel))
  have htitleEnd := Xml.writes_fragment "</title>" [] (by decide +kernel)
  have hitems : Writes (String.join (ls.map itemXml)).toList (ls.flatMap itemTags) :=
    Writes.join itemXml itemTags fun l _ => l.writes_itemXml
  have hend := Xml.writes_fragment "\n\t</itemizedlist>" [] (by decide +kernel)
  have hall := (((hstart.append_toList htitle).append_toList htitleEnd).append_toList hitems).append_toList hend
  have htags : listTags role es ls = [] ++ ⟨"itemizedlist", [("role", role)], []⟩ :: [⟨"title", [], []⟩] ++ es ++ []
      ++ ls.flatMap itemTags ++ [] := by
    simp only [listTags, List.append_nil, List.nil_append, List.append_assoc]
  rw [htags]
  exact hall

end RelatedLink

namespace Template

/-! ## Rendering -/

theorem mapM_ok {α β ε : Type} {f : α → Except ε β} {g : α → β} : ∀ {xs : List α}, (∀ x ∈ xs, f x = .ok (g x)) →
    xs.mapM f = .ok (xs.map g)
  | [], _ => rfl
  | x :: xs, h => by
    rw [List.mapM_cons, h x List.mem_cons_self, mapM_ok fun y hy => h y (List.mem_cons_of_mem _ hy)]
    rfl

theorem forEach_eq {α : Type} {f : Value → Except Fault String} {v : Value} {value : α → Value} {xml : α → String}
    {xs : List α} (hv : v.items = .ok (xs.map value)) (h : ∀ x ∈ xs, f (value x) = .ok (xml x)) :
    forEach v f = .ok (String.join (xs.map xml)) := by
  have hmap : (xs.map value).mapM f = .ok (xs.map xml) := by
    rw [List.mapM_map]
    exact mapM_ok h
  rw [forEach, hv]
  change ((xs.map value).mapM f >>= fun a => Except.ok (String.join a)) = _
  rw [hmap]
  rfl

theorem link_value (l : RelatedLink) : link l.value = .ok l.xml := by
  obtain ⟨target, title⟩ := l
  cases target <;> rfl

theorem linkList_value (role title : String) (ls : List RelatedLink) :
    linkList role title (.list (ls.map RelatedLink.value)) = .ok (RelatedLink.listXml role title ls) := by
  have hitems : linkItems (.list (ls.map RelatedLink.value)) = .ok (String.join (ls.map RelatedLink.itemXml)) :=
    forEach_eq rfl fun l _ => by rw [link_value]; rfl
  rw [linkList, hitems]
  rfl

/-- A list of related topics as pages show it. -/
def relatedXml (l : RelatedList) : String :=
  RelatedLink.listXml ("related-" ++ l.role) (Text.escape l.label) l.links

def relatedTags (l : RelatedList) : List Element :=
  RelatedLink.listTags ("related-" ++ l.role) [] l.links

theorem relatedList_value (l : RelatedList) : relatedList l.value = .ok (relatedXml l) :=
  linkList_value _ _ _

theorem writes_relatedXml {l : RelatedList} (h : '"' ∉ l.role.toList) :
    Writes (relatedXml l).toList (relatedTags l) := by
  refine RelatedLink.writes_listXml ?_ (Xml.writes_escape l.label) l.links
  rw [String.toList_append, List.mem_append]
  exact fun hm => hm.elim (by decide) h

/-- The value of a list of links in a context, where it is left out if it is empty. -/
def linksValue (ls : List RelatedLink) : Value :=
  if ls.isEmpty then .undefined else .list (ls.map RelatedLink.value)

/-- A list of links, unless it is empty. -/
def linksXml (role title : String) (ls : List RelatedLink) : String :=
  if ls.isEmpty then "" else RelatedLink.listXml role title ls

def linksTags (role : String) (title : List Element) (ls : List RelatedLink) : List Element :=
  if ls.isEmpty then [] else RelatedLink.listTags role title ls

theorem writes_linksXml {role title : String} {es : List Element} (hrole : '"' ∉ role.toList)
    (htitle : Writes title.toList es) (ls : List RelatedLink) :
    Writes (linksXml role title ls).toList (linksTags role es ls) := by
  rw [linksXml, linksTags]
  split
  · exact Writes.nil
  · exact RelatedLink.writes_listXml hrole htitle ls

theorem truthy_linksValue (ls : List RelatedLink) : (linksValue ls).truthy = !ls.isEmpty := by
  cases ls <;> rfl

theorem linkListOf_eq {c : Context} {name : String} {ls : List RelatedLink} (h : c.get name = linksValue ls)
    (role title : String) : linkListOf c name role title = .ok (linksXml role title ls) := by
  rw [linkListOf, h, truthy_linksValue]
  cases ls with
  | nil => rfl
  | cons l ls => exact linkList_value role title (l :: ls)

theorem stepList_eq {c : Context} {name : String} {ls : List RelatedLink} {process : RelatedLink}
    (h : c.get name = linksValue ls) (hprocess : c.get "process_link" = process.value) (role title : String) :
    stepList c name role title = .ok (linksXml role (title ++ " Step in " ++ process.xml) ls) := by
  rw [stepList, h, truthy_linksValue, hprocess, link_value]
  cases ls with
  | nil => rfl
  | cons l ls => exact linkList_value role (title ++ " Step in " ++ process.xml) (l :: ls)

/-! ## What a topic's page shows -/

/-- What the page of a topic shows besides its content. -/
structure TopicView where
  linkId : String
  title : String
  links : OutlineLinks := {}
  related : List RelatedList := []
  bugLink : Option String := none

/-- The value of a list of steps, which only a topic of a process has. -/
def stepsValue (process : Option RelatedLink) (ls : List RelatedLink) : Value :=
  if process.isSome then linksValue ls else .undefined

/-- The names that a view is read from. -/
def viewNames : List String :=
  ["section_id", "title", "prerequisites", "see_also", "process_link", "previous_steps", "next_steps", "related_topics",
    "bug_link"]

/-- A context that a view can be read from. -/
structure Context.Shows (c : Context) (v : TopicView) : Prop where
  linkId : c.get "section_id" = .text v.linkId
  title : c.get "title" = .text v.title
  prerequisites : c.get "prerequisites" = linksValue v.links.prerequisites
  seeAlso : c.get "see_also" = linksValue v.links.seeAlso
  process : ∀ p ∈ v.links.process, c.get "process_link" = p.value
  previous : c.get "previous_steps" = stepsValue v.links.process v.links.previousSteps
  next : c.get "next_steps" = stepsValue v.links.process v.links.nextSteps
  related : (c.get "related_topics").items = .ok (v.related.map RelatedList.value)
  bugLink : c.get "bug_link" = (v.bugLink.map Value.text).getD .undefined

namespace Context

theorem get_set (c : Context) (name key : String) (v : Value) :
    (c.set name v).get key = if name = key then v else c.get key := by
  induction c with
  | nil => by_cases h : name = key <;> simp [set, get, h]
  | cons f fs ih =>
    rw [set]
    by_cases hf : f.1 = name
    · rw [if_pos hf]
      by_cases h : name = key
      · simp [get, h]
      · simp [get, h, show f.1 ≠ key from hf ▸ h]
    · rw [if_neg hf]
      by_cases hk : f.1 = key
      · simp [get, hk, show name ≠ key from fun e => hf (hk.trans e.symm)]
      · have hget (gs : Context) : get (f :: gs) key = gs.get key := by simp [get, hk]
        rw [hget, hget, ih]

theorem get_set_self (c : Context) (name : String) (v : Value) : (c.set name v).get name = v := by
  rw [get_set, if_pos rfl]

theorem get_set_ne {name key : String} (h : name ≠ key) (c : Context) (v : Value) :
    (c.set name v).get key = c.get key := by
  rw [get_set, if_neg h]

theorem Shows.congr {c c' : Context} {v : TopicView} (h : c.Shows v) (he : ∀ key ∈ viewNames, c'.get key = c.get key) :
    c'.Shows v where
  linkId := (he _ (by decide)).trans h.linkId
  title := (he _ (by decide)).trans h.title
  prerequisites := (he _ (by decide)).trans h.prerequisites
  seeAlso := (he _ (by decide)).trans h.seeAlso
  process p hp := (he _ (by decide)).trans (h.process p hp)
  previous := (he _ (by decide)).trans h.previous
  next := (he _ (by decide)).trans h.next
  related := (congrArg Value.items (he _ (by decide))).trans h.related
  bugLink := (he _ (by decide)).trans h.bugLink

theorem Shows.set {c : Context} {v : TopicView} (h : c.Shows v) {name : String} (hname : name ∉ viewNames) (x : Value) :
    (c.set name x).Shows v :=
  h.congr fun key hkey => get_set_ne (fun e : name = key => hname (by rw [e]; exact hkey)) c x

/-! ## Adding links to a context -/

theorem get_setLinks {c : Context} {name : String} (h : c.get name = .undefined)
    (ls : List RelatedLink) (key : String) :
    (OutlineLinks.setLinks c name ls).get key = if name = key then linksValue ls else c.get key := by
  rw [OutlineLinks.setLinks, linksValue]
  split
  · split
    · rename_i hkey
      rw [← hkey, h]
    · rfl
  · rw [get_set]

/-- **A context with the links of the outline added shows them.** -/
theorem Shows.apply {c : Context} {linkId title : String} (h : c.Shows { linkId, title }) (l : OutlineLinks) :
    (l.apply c).Shows { linkId, title, links := l } := by
  have hprerequisites : c.get "prerequisites" = .undefined := h.prerequisites
  have hseeAlso : c.get "see_also" = .undefined := h.seeAlso
  have hprevious : c.get "previous_steps" = .undefined := h.previous
  have hnext : c.get "next_steps" = .undefined := h.next
  obtain ⟨prerequisites, seeAlso, previous, next, process⟩ := l
  have hlists (key : String) : (OutlineLinks.setLinks (OutlineLinks.setLinks c "prerequisites" prerequisites) "see_also"
      seeAlso).get key = if "see_also" = key then linksValue seeAlso
        else if "prerequisites" = key then linksValue prerequisites else c.get key := by
    rw [get_setLinks (by rw [get_setLinks hprerequisites]; exact hseeAlso), get_setLinks hprerequisites]
  -- Only a topic of a process has steps, and a link to the process with them.
  cases process with
  | none =>
    constructor <;>
      simp [OutlineLinks.apply, hlists, hprevious, hnext, h.linkId, h.title, h.related, h.bugLink, stepsValue]
  | some p =>
    have hsteps (key : String) : (OutlineLinks.apply ⟨prerequisites, seeAlso, previous, next, some p⟩ c).get key
        = if "next_steps" = key then linksValue next else if "previous_steps" = key then linksValue previous
          else if "process_link" = key then p.value else if "see_also" = key then linksValue seeAlso
          else if "prerequisites" = key then linksValue prerequisites else c.get key := by
      have hp : ((OutlineLinks.setLinks (OutlineLinks.setLinks c "prerequisites" prerequisites) "see_also" seeAlso).set
          "process_link" p.value).get "previous_steps" = .undefined := by
        rw [get_set, hlists]
        exact hprevious
      rw [OutlineLinks.apply, get_setLinks (by rw [get_setLinks hp, get_set, hlists]; exact hnext),
        get_setLinks hp, get_set, hlists]
    constructor <;> simp [hsteps, h.linkId, h.title, h.related, h.bugLink, stepsValue]

theorem Shows.setRelated {c : Context} {linkId title : String} (h : c.Shows { linkId, title }) (ls : List RelatedList) :
    (c.set "related_topics" (.list (ls.map RelatedList.value))).Shows { linkId, title, related := ls } := by
  have hother (key : String) (hkey : "related_topics" ≠ key) := get_set_ne hkey c (.list (ls.map RelatedList.value))
  refine ⟨(hother _ (by decide)).trans h.linkId, (hother _ (by decide)).trans h.title,
    (hother _ (by decide)).trans h.prerequisites, (hother _ (by decide)).trans h.seeAlso,
    fun p hp => (hother _ (by decide)).trans (h.process p hp), (hother _ (by decide)).trans h.previous,
    (hother _ (by decide)).trans h.next, ?_, (hother _ (by decide)).trans h.bugLink⟩
  rw [get_set_self]
  rfl

theorem Shows.setBugLink {c : Context} {v : TopicView} (h : c.Shows v) (url : String) :
    (c.set "bug_link" (.text url)).Shows { v with bugLink := some url } := by
  have hother (key : String) (hkey : "bug_link" ≠ key) := get_set_ne hkey c (.text url)
  refine ⟨(hother _ (by decide)).trans h.linkId, (hother _ (by decide)).trans h.title,
    (hother _ (by decide)).trans h.prerequisites, (hother _ (by decide)).trans h.seeAlso,
    fun p hp => (hother _ (by decide)).trans (h.process p hp), (hother _ (by decide)).trans h.previous,
    (hother _ (by decide)).trans h.next, (congrArg Value.items (hother _ (by decide))).trans h.related,
    get_set_self c _ _⟩

end Context

/-! ## The page -/

/-- Steps before or after a topic, titled by the process that they belong to. -/
def stepsXml (process : Option RelatedLink) (role title : String) (ls : List RelatedLink) : String :=
  match process with
  | some p => linksXml role (title ++ " Step in " ++ p.xml) ls
  | none => ""

def stepsTags (process : Option RelatedLink) (role : String) (ls : List RelatedLink) : List Element :=
  match process with
  | some p => linksTags role [p.tag] ls
  | none => []

/-- The offer to report a bug at a URL. -/
def bugXml (url : String) : String :=
  if url.isEmpty then "" else
    "\n\t<simplesect role=\"RoleCreateBugPara\">\n\t\t<title></title>\n\t\t<para><ulink url=\"" ++ Text.escape url
      ++ "\">Report a bug</ulink></para>\n\t</simplesect>"

def bugTags (url : String) : List Element :=
  if url.isEmpty then [] else
    [⟨"simplesect", [("role", "RoleCreateBugPara")], []⟩, ⟨"title", [], []⟩, ⟨"para", [], []⟩,
      ⟨"ulink", [("url", Text.escape url)], []⟩]

namespace TopicView

/-- The page that a view makes with a preamble and a content. -/
def xml (v : TopicView) (preamble content : String) : String :=
  preamble ++ "<section id=\"" ++ Text.escape v.linkId ++ "\">\n\t<title>" ++ Text.escape v.title ++ "</title>"
    ++ linksXml "prereqs-list" "Prerequisite" v.links.prerequisites
    ++ "\n" ++ content
    ++ stepsXml v.links.process "process-previous" "Previous" v.links.previousSteps
    ++ stepsXml v.links.process "process-next" "Next" v.links.nextSteps
    ++ String.join (v.related.map relatedXml)
    ++ linksXml "see-also-list" "See Also" v.links.seeAlso
    ++ bugXml (v.bugLink.getD "") ++ "\n</section>"

/-- The tags of a page, given those of its content. -/
def tags (v : TopicView) (content : List Element) : List Element :=
  [⟨"section", [("id", Text.escape v.linkId)], []⟩, ⟨"title", [], []⟩]
    ++ linksTags "prereqs-list" [] v.links.prerequisites
    ++ content
    ++ stepsTags v.links.process "process-previous" v.links.previousSteps
    ++ stepsTags v.links.process "process-next" v.links.nextSteps
    ++ v.related.flatMap relatedTags
    ++ linksTags "see-also-list" [] v.links.seeAlso
    ++ bugTags (v.bugLink.getD "")

end TopicView

theorem stepList_stepsValue {c : Context} {name : String} {ls : List RelatedLink} {process : Option RelatedLink}
    (h : c.get name = stepsValue process ls) (hp : ∀ p ∈ process, c.get "process_link" = p.value)
    (role title : String) :
    stepList c name role title = .ok (stepsXml process role title ls) := by
  cases process with
  | none =>
    rw [stepList, h]
    rfl
  | some p => exact stepList_eq h (hp p rfl) role title

theorem bugReport_eq {c : Context} {url : Option String} (h : c.get "bug_link" = (url.map Value.text).getD .undefined) :
    bugReport c = bugXml (url.getD "") := by
  cases url with
  | none =>
    rw [bugReport, h]
    rfl
  | some url =>
    rw [bugReport, xml, h, showIf, bugXml]
    change (if (!url.isEmpty) = true then _ else _) = if url.isEmpty = true then _ else _
    cases url.isEmpty <;> rfl

/-- **A context that shows a view has a page, which shows it.** -/
theorem topicPage_eq {c : Context} {v : TopicView} (h : c.Shows v) : topicPage c
    = .ok (v.xml (showIf (c.get "include_preamble") (preamble c)) (raw c "content")) := by
  rw [topicPage, linkListOf_eq h.prerequisites, linkListOf_eq h.seeAlso, stepList_stepsValue h.previous h.process,
    stepList_stepsValue h.next h.process, forEach_eq h.related fun l _ => relatedList_value l, bugReport_eq h.bugLink,
    xml, xml, h.linkId, h.title]
  rfl

theorem writes_stepsXml {role title : String} (hrole : '"' ∉ role.toList) (htitle : Writes title.toList [])
    (process : Option RelatedLink) (ls : List RelatedLink) :
    Writes (stepsXml process role title ls).toList (stepsTags process role ls) := by
  cases process with
  | none => exact Writes.nil
  | some p =>
    have hin := Xml.writes_fragment " Step in " [] (by decide +kernel)
    exact writes_linksXml hrole ((htitle.append_toList hin).append_toList p.writes_xml) ls

theorem writes_bugXml (url : String) : Writes (bugXml url).toList (bugTags url) := by
  rw [bugXml, bugTags]
  split
  · exact Writes.nil
  · have hbefore := Xml.writes_fragment "\n\t<simplesect role=\"RoleCreateBugPara\">\n\t\t<title></title>\n\t\t<para>"
      [("simplesect", [("role", "RoleCreateBugPara")]), ("title", []), ("para", [])] (by decide +kernel)
    have hafter := Xml.writes_fragment "Report a bug</ulink></para>\n\t</simplesect>" [] (by decide +kernel)
    exact Writes.between _ _ (by decide +kernel) (by decide +kernel) hbefore
      (Xml.writes_startTag "ulink" "url" (by decide) (Text.quote_notMem_escape url)) hafter

/-- **The tags of a topic's page are those of the section, of its lists of links and of its content, in order.** -/
theorem writes_topicPage {v : TopicView} (hrole : ∀ l ∈ v.related, '"' ∉ l.role.toList) {preamble content : String}
    {es : List Element} (hpreamble : Writes preamble.toList []) (hcontent : Writes content.toList es) :
    Writes (v.xml preamble content).toList (v.tags es) := by
  have hsection := Writes.between (preamble ++ "<section id=\"") "\">\n\t<title>"
    (congrArg (preamble ++ ·) (by decide +kernel)) (by decide +kernel) hpreamble
    (Xml.writes_startTag "section" "id" (by decide) (Text.quote_notMem_escape v.linkId))
    (Xml.writes_fragment "\n\t<title>" [("title", [])] (by decide +kernel))
  have htitle := (hsection.append_toList (Xml.writes_escape v.title)).append_toList
    (Xml.writes_fragment "</title>" [] (by decide +kernel))
  have hprerequisites := writes_linksXml (show '"' ∉ "prereqs-list".toList by decide)
    (Xml.writes_fragment "Prerequisite" [] (by decide +kernel)) v.links.prerequisites
  have hblank := Xml.writes_fragment "\n" [] (by decide +kernel)
  have hprevious := writes_stepsXml (show '"' ∉ "process-previous".toList by decide)
    (Xml.writes_fragment "Previous" [] (by decide +kernel)) v.links.process v.links.previousSteps
  have hnext := writes_stepsXml (show '"' ∉ "process-next".toList by decide)
    (Xml.writes_fragment "Next" [] (by decide +kernel)) v.links.process v.links.nextSteps
  have hrelated := Writes.join relatedXml relatedTags fun l hl => writes_relatedXml (hrole l hl)
  have hseeAlso := writes_linksXml (show '"' ∉ "see-also-list".toList by decide)
    (Xml.writes_fragment "See Also" [] (by decide +kernel)) v.links.seeAlso
  have hend := Xml.writes_fragment "\n</section>" [] (by decide +kernel)
  have hall := ((((((((htitle.append_toList hprerequisites).append_toList hblank).append_toList hcontent).append_toList
    hprevious).append_toList hnext).append_toList hrelated).append_toList hseeAlso).append_toList
    (writes_bugXml (v.bugLink.getD ""))).append_toList hend
  simpa [TopicView.xml, TopicView.tags] using hall

theorem exists_tags_topicPage (v : TopicView) {preamble : String} (hpreamble : Writes preamble.toList [])
    (content : String) :
    ∃ es, Xml.tags (v.xml preamble content).toList = ⟨"section", [("id", Text.escape v.linkId)], []⟩ :: es := by
  have hsection := Writes.between (preamble ++ "<section id=\"") "\">\n\t<title>"
    (congrArg (preamble ++ ·) (by decide +kernel)) (by decide +kernel) hpreamble
    (Xml.writes_startTag "section" "id" (by decide) (Text.quote_notMem_escape v.linkId))
    (Xml.writes_fragment "\n\t<title>" [("title", [])] (by decide +kernel))
  have hxml : ∃ rest, v.xml preamble content
      = preamble ++ "<section id=\"" ++ Text.escape v.linkId ++ "\">\n\t<title>" ++ rest := by
    rw [TopicView.xml]
    simp only [String.append_assoc]
    exact ⟨_, rfl⟩
  obtain ⟨rest, hxml⟩ := hxml
  rw [hxml, String.toList_append, hsection]
  exact ⟨_, rfl⟩

/-! ## Ids of a page -/

theorem anonymous_listTags {role : String} (hrole : '"' ∉ role.toList) {title : List Element}
    (htitle : ∀ e ∈ title, e.Anonymous) (ls : List RelatedLink) :
    ∀ e ∈ RelatedLink.listTags role title ls, e.Anonymous := by
  intro e he
  simp only [RelatedLink.listTags, List.mem_append, List.mem_cons, List.not_mem_nil, or_false, List.mem_flatMap,
    RelatedLink.itemTags] at he
  rcases he with ((rfl | rfl) | he) | ⟨l, -, rfl | rfl | rfl⟩
  · exact ⟨Xml.isPlain_with "itemizedlist" "role" (by decide) hrole, rfl⟩
  · exact ⟨by decide, rfl⟩
  · exact htitle e he
  · exact ⟨by decide, rfl⟩
  · exact ⟨by decide, rfl⟩
  · exact l.anonymous_tag

theorem anonymous_linksTags {role : String} (hrole : '"' ∉ role.toList) {title : List Element}
    (htitle : ∀ e ∈ title, e.Anonymous) (ls : List RelatedLink) : ∀ e ∈ linksTags role title ls, e.Anonymous := by
  rw [linksTags]
  split
  · exact fun e he => absurd he List.not_mem_nil
  · exact anonymous_listTags hrole htitle ls

theorem anonymous_stepsTags {role : String} (hrole : '"' ∉ role.toList) (process : Option RelatedLink)
    (ls : List RelatedLink) : ∀ e ∈ stepsTags process role ls, e.Anonymous := by
  cases process with
  | none => exact fun e he => absurd he List.not_mem_nil
  | some p => exact anonymous_linksTags hrole (fun e he => by rw [List.mem_singleton.1 he]; exact p.anonymous_tag) ls

theorem anonymous_relatedTags {l : RelatedList} (hrole : '"' ∉ l.role.toList) : ∀ e ∈ relatedTags l, e.Anonymous := by
  refine anonymous_listTags ?_ (fun e he => absurd he List.not_mem_nil) l.links
  rw [String.toList_append, List.mem_append]
  exact fun hm => hm.elim (by decide) hrole

theorem anonymous_bugTags (url : String) : ∀ e ∈ bugTags url, e.Anonymous := by
  rw [bugTags]
  split
  · exact fun e he => absurd he List.not_mem_nil
  · intro e he
    simp only [List.mem_cons, List.not_mem_nil, or_false] at he
    rcases he with rfl | rfl | rfl | rfl
    · exact ⟨by decide, rfl⟩
    · exact ⟨by decide, rfl⟩
    · exact ⟨by decide, rfl⟩
    · exact ⟨Xml.isPlain_with "ulink" "url" (by decide) (Text.quote_notMem_escape url), rfl⟩

namespace TopicView

variable {v : TopicView}

/-- **Besides its content, a topic's page has one id, the link id of its section.** -/
theorem ids_tags (hrole : ∀ l ∈ v.related, '"' ∉ l.role.toList) (content : List Element) :
    Xml.ids (v.tags content) = Text.escape v.linkId :: Xml.ids content := by
  have hnone : ∀ e ∈ ([] : List Element), e.Anonymous := fun e he => absurd he List.not_mem_nil
  have hrelated : ∀ e ∈ v.related.flatMap relatedTags, e.Anonymous := fun e he => by
    obtain ⟨l, hl, he⟩ := List.mem_flatMap.1 he
    exact anonymous_relatedTags (hrole l hl) e he
  have hprerequisites := Xml.ids_eq_nil_of_anonymous (anonymous_linksTags
    (show '"' ∉ "prereqs-list".toList by decide) hnone v.links.prerequisites)
  have hseeAlso := Xml.ids_eq_nil_of_anonymous (anonymous_linksTags
    (show '"' ∉ "see-also-list".toList by decide) hnone v.links.seeAlso)
  have hprevious := Xml.ids_eq_nil_of_anonymous (anonymous_stepsTags
    (show '"' ∉ "process-previous".toList by decide) v.links.process v.links.previousSteps)
  have hnext := Xml.ids_eq_nil_of_anonymous (anonymous_stepsTags
    (show '"' ∉ "process-next".toList by decide) v.links.process v.links.nextSteps)
  simp only [tags, Xml.ids_append, hprerequisites, hseeAlso, hprevious, hnext, Xml.ids_eq_nil_of_anonymous hrelated,
    Xml.ids_eq_nil_of_anonymous (anonymous_bugTags _), List.append_nil]
  rfl

theorem isPlain_tags (hrole : ∀ l ∈ v.related, '"' ∉ l.role.toList) {content : List Element}
    (hcontent : ∀ e ∈ content, e.isPlain = true) : ∀ e ∈ v.tags content, e.isPlain = true := by
  have hnone : ∀ e ∈ ([] : List Element), e.Anonymous := fun e he => absurd he List.not_mem_nil
  intro e he
  simp only [tags, List.mem_append, List.mem_cons, List.not_mem_nil, or_false, List.mem_flatMap] at he
  rcases he with (((((((rfl | rfl) | he) | he) | he) | he) | ⟨l, hl, he⟩) | he) | he
  · exact Xml.isPlain_with "section" "id" (by decide) (Text.quote_notMem_escape _)
  · decide
  · exact (anonymous_linksTags (by decide) hnone _ e he).1
  · exact hcontent e he
  · exact (anonymous_stepsTags (by decide) _ _ e he).1
  · exact (anonymous_stepsTags (by decide) _ _ e he).1
  · exact (anonymous_relatedTags (hrole l hl) e he).1
  · exact (anonymous_linksTags (by decide) hnone _ e he).1
  · exact (anonymous_bugTags _ e he).1

end TopicView

/-! ## Bodies that stand in for a topic -/

/-- A content whose tags match, are plain and have no ids. -/
structure StandsIn (content : String) : Prop where
  tags : ∃ es, Writes content.toList es ∧ ∀ e ∈ es, e.Anonymous
  balanced : Xml.Balanced content.toList

/-- A text without markup. -/
def Running (text : String) : Prop :=
  ∀ c ∈ text.toList, Xml.Markup.isText c = true

instance (text : String) : Decidable (Running text) :=
  inferInstanceAs (Decidable (∀ c ∈ text.toList, Xml.Markup.isText c = true))

theorem Running.append {a b : String} (ha : Running a) (hb : Running b) : Running (a ++ b) := by
  intro c hc
  rw [String.toList_append, List.mem_append] at hc
  exact hc.elim (ha c) (hb c)

theorem running_nat (n : Nat) : Running (toString n) := by
  intro c hc
  have hdigits : c ∈ Nat.toDigits 10 n := by simpa using hc
  have hdigit : c.isDigit = true := Nat.isDigit_of_mem_toDigits (by decide) (by decide) hdigits
  rw [Xml.Markup.isText, Bool.and_eq_true, bne_iff_ne, bne_iff_ne]
  constructor <;> rintro rfl <;> exact absurd hdigit (by decide)

theorem running_int (i : Int) : Running (toString i) := by
  cases i with
  | ofNat n => exact running_nat n
  | negSucc n => exact Running.append (a := "-") (by decide +kernel) (running_nat (n + 1))

theorem quote_notMem_printXml (v : Value) : '"' ∉ v.printXml.toList := by
  cases v with
  | null => decide
  | _ => exact Text.quote_notMem_escape _

theorem writes_standIn (c : Context) {text : String} (h : Running text) : Writes (standIn c text).toList
    (⟨"para", [], []⟩ :: if (c.get "show_errors_page").truthy then
      [⟨"xref", [("linkend", xml c "topic_error_xref")], []⟩] else []) := by
  have hvalue : '"' ∉ (xml c "topic_error_xref").toList := quote_notMem_printXml _
  have hopen := Xml.writes_fragment "<para>\n\t" [("para", [])] (by decide +kernel)
  have hend := Xml.writes_fragment "\n</para>" [] (by decide +kernel)
  rw [standIn, showIf]
  split
  · have hxref := Writes.between " See <xref linkend=\"" "\" /> for details." (by decide +kernel) (by decide +kernel)
      (Xml.writes_fragment " See " [] (by decide +kernel)) (Xml.writes_emptyTag "xref" "linkend" (by decide) hvalue)
      (Xml.writes_fragment " for details." [] (by decide +kernel))
    exact ((hopen.append_toList (Xml.writes_text h)).append_toList hxref).append_toList hend
  · have hnothing := Xml.writes_fragment "" [] (by decide +kernel)
    exact ((hopen.append_toList (Xml.writes_text h)).append_toList hnothing).append_toList hend

theorem standsIn_standIn (c : Context) {text : String} (h : Running text) : StandsIn (standIn c text) := by
  have hvalue : '"' ∉ (xml c "topic_error_xref").toList := quote_notMem_printXml _
  constructor
  · refine ⟨_, writes_standIn c h, List.forall_mem_cons.2 ⟨⟨by decide, rfl⟩, ?_⟩⟩
    split
    · exact List.forall_mem_singleton.2 ⟨Xml.isPlain_with "xref" "linkend" (by decide) hvalue, rfl⟩
    · exact fun _ hc => absurd hc List.not_mem_nil
  · have hopen := Xml.moves_fragment "<para>\n\t" [] ["para"] (by decide +kernel)
    have hend := Xml.moves_fragment "\n</para>" ["para"] [] (by decide +kernel)
    have htext : Xml.Balanced text.toList := Xml.balanced_text h
    rw [standIn, showIf]
    have hstart := hopen.append_toList (htext.within ["para"])
    refine (hstart.append_toList (Xml.Moves.within (?_ : Xml.Balanced _) ["para"])).append_toList hend
    split
    · exact Xml.Moves.around " See <xref linkend=\"" "\" /> for details." (by decide +kernel) (by decide +kernel)
        (Xml.moves_fragment " See " [] [] (by decide +kernel))
        (Xml.balanced_emptyTag "xref" "linkend" (by decide) hvalue)
        (Xml.moves_fragment " for details." [] [] (by decide +kernel))
    · exact Xml.Moves.nil

/-- The pages that stand in for a topic are one paragraph, each with a text of its own. -/
theorem exists_standIn_of_render {page : PageName} (hpage : page ∈ [.emptyTopic, .failedInjection, .failedValidation])
    {c : Context} {id : Int} (hid : c.get "topic_id" = .int id) {content : String}
    (h : render page.file c = .ok content) : ∃ text, Running text ∧ content = standIn c text := by
  have htopic : Running ("Topic " ++ raw c "topic_id") := by
    rw [raw, hid]
    exact Running.append (by decide) (running_int id)
  rw [render_file] at h
  simp only [List.mem_cons, List.not_mem_nil, or_false] at hpage
  rcases hpage with rfl | rfl | rfl
  · exact ⟨_, by decide, (Except.ok.inj h).symm⟩
  · exact ⟨_, htopic.append (by decide), (Except.ok.inj h).symm⟩
  · exact ⟨_, htopic.append (by decide), (Except.ok.inj h).symm⟩

/-- **The pages that stand in for a topic hold nothing but a paragraph.** -/
theorem standsIn_of_render {page : PageName} (hpage : page ∈ [.emptyTopic, .failedInjection, .failedValidation])
    {c : Context} {id : Int} (hid : c.get "topic_id" = .int id) {content : String}
    (h : render page.file c = .ok content) : StandsIn content := by
  obtain ⟨text, htext, rfl⟩ := exists_standIn_of_render hpage hid h
  exact standsIn_standIn c htext

end Template
end Bookbinder
