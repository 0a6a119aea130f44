import Bookbinder.Template.Value
/-!
# Pages

The pages of a book, each a function of the named values it is rendered from.  What comes from outside is escaped,
except for content that is XML already.  A page fails only where it asks for a field of a value that is not there, or
loops over a value that holds no values.
-/
namespace Bookbinder
namespace Template

/-- A page, rendered from named values. -/
abbrev Page := Context → Except Fault String

/-! ## Parts of pages -/

/-- A value of the context as it prints. -/
def raw (c : Context) (name : String) : String :=
  (c.get name).print

/-- A value of the context as it prints within XML. -/
def xml (c : Context) (name : String) : String :=
  (c.get name).printXml

/-- A text for a value that stands for true. -/
def showIf (v : Value) (s : String) : String :=
  if v.truthy then s else ""

/-- The texts of a value's items, one after the other. -/
def forEach (v : Value) (f : Value → Except Fault String) : Except Fault String := do
  return String.join (← (← v.items).mapM f)

/-- The declaration and document type that every file of a book begins with. -/
def preamble (c : Context) : String :=
  "<?xml version='1.0' encoding='utf-8' ?>\n<!DOCTYPE " ++ raw c "root_element"
    ++ " PUBLIC \"-//OASIS//DTD DocBook XML V4.5//EN\" \"http://www.oasis-open.org/docbook/xml/4.5/docbookx.dtd\" [\n"
    ++ "<!ENTITY % BOOK_ENTITIES SYSTEM \"" ++ raw c "escaped_book_title" ++ ".ent\">\n%BOOK_ENTITIES;\n]>"

/-- The inclusion of a file whose name is escaped already. -/
def inclusion (href : String) : String :=
  "<xi:include href=\"" ++ href ++ "\" xmlns:xi=\"http://www.w3.org/2001/XInclude\" />"

/-! ## Outlines -/

/-- An element of an outline around its content, from its name, id and title as they print. -/
def outlineElement (element id title content : String) : String :=
  "\n\t<" ++ element ++ " id=\"" ++ id ++ "\">\n\t\t<title>" ++ title ++ "</title>" ++ content
    ++ "\n\t</" ++ element ++ ">"

mutual

/-- A node of an outline: the inclusion of a file, or an element with the nodes below it. -/
def outlineNode : Value → Except Fault String
  | .undefined => .error (.fieldOfUndefined "kind")
  | .record fields =>
    if (Context.get fields "kind").isText "include" then .ok ("\n\t" ++ inclusion (xml fields "href"))
    else match outlineBelow fields with
      | .ok content => .ok (outlineElement (raw fields "element") (xml fields "id") (xml fields "title") content)
      | .error e => .error e
  | _ => .ok (outlineElement "" "" "" "")

/-- The nodes below a node with the given fields. -/
def outlineBelow : List (String × Value) → Except Fault String
  | [] => .ok ""
  | (name, v) :: fields => if name = "children" then outline v else outlineBelow fields

/-- The nodes of an outline.  Only a list has nodes of its own; the characters of a text and the keys of a record are
nodes without any fields. -/
def outline : Value → Except Fault String
  | .list items => outlineAll items
  | .undefined => .ok ""
  | .null => .ok ""
  | .text s => .ok (String.join (s.toList.map fun _ => outlineElement "" "" "" ""))
  | .record fields => .ok (String.join (fields.map fun _ => outlineElement "" "" "" ""))
  | .bool _ => .error .notIterable
  | .int _ => .error .notIterable

def outlineAll : List Value → Except Fault String
  | [] => .ok ""
  | v :: vs => match outlineNode v with
    | .error e => .error e
    | .ok a => match outlineAll vs with
      | .ok b => .ok (a ++ b)
      | .error e => .error e

end

/-! ## Pages of topics -/

/-- A link, given as a record of a link and a title. -/
def link (item : Value) : Except Fault String := do
  let link ← item.field "link"
  let kind ← link.field "type"
  let target := (← link.field "target").printXml
  if kind.isText "xref" then return "<xref linkend=\"" ++ target ++ "\" />"
  else return "<ulink url=\"" ++ target ++ "\">" ++ (← item.field "title").printXml ++ "</ulink>"

/-- The items of a list of links. -/
def linkItems (links : Value) : Except Fault String :=
  forEach links fun item => do return "\n\t\t<listitem><para>" ++ (← link item) ++ "</para></listitem>"

/-- A titled list of links. -/
def linkList (role title : String) (links : Value) : Except Fault String := do
  return "\n\t<itemizedlist role=\"" ++ role ++ "\">\n\t\t<title>" ++ title ++ "</title>" ++ (← linkItems links)
    ++ "\n\t</itemizedlist>"

/-- A titled list of links, unless there are none. -/
def linkListOf (c : Context) (name role title : String) : Except Fault String :=
  if (c.get name).truthy then linkList role title (c.get name) else .ok ""

/-- The steps before or after a topic, titled by the process that they belong to. -/
def stepList (c : Context) (name role title : String) : Except Fault String :=
  if (c.get name).truthy then do linkList role (title ++ " Step in " ++ (← link (c.get "process_link"))) (c.get name)
  else .ok ""

def relatedList (bucket : Value) : Except Fault String := do
  linkList ("related-" ++ (← bucket.field "role").print) (← bucket.field "label").printXml (← bucket.field "links")

/-- The paragraph that offers to report a bug. -/
def bugReport (c : Context) : String :=
  showIf (c.get "bug_link") ("\n\t<simplesect role=\"RoleCreateBugPara\">\n\t\t<title></title>\n\t\t<para><ulink url=\""
    ++ xml c "bug_link" ++ "\">Report a bug</ulink></para>\n\t</simplesect>")

/-- A topic's section: its title, what has to be read before, its content, and what is related to it. -/
def topicPage : Page := fun c => do
  return showIf (c.get "include_preamble") (preamble c)
    ++ "<section id=\"" ++ xml c "section_id" ++ "\">\n\t<title>" ++ xml c "title" ++ "</title>"
    ++ (← linkListOf c "prerequisites" "prereqs-list" "Prerequisite")
    ++ "\n" ++ raw c "content"
    ++ (← stepList c "previous_steps" "process-previous" "Previous")
    ++ (← stepList c "next_steps" "process-next" "Next")
    ++ (← forEach (c.get "related_topics") relatedList)
    ++ (← linkListOf c "see_also" "see-also-list" "See Also")
    ++ bugReport c ++ "\n</section>"

/-- The paragraph that stands in for a topic, with a link to what is said of it among the problems. -/
def standIn (c : Context) (text : String) : String :=
  "<para>\n\t" ++ text ++ showIf (c.get "show_errors_page")
    (" See <xref linkend=\"" ++ xml c "topic_error_xref" ++ "\" /> for details.") ++ "\n</para>"

def emptyTopicPage : Page := fun c =>
  .ok (standIn c "This topic has no XML content.")

def failedInjectionPage : Page := fun c =>
  .ok (standIn c ("Topic " ++ raw c "topic_id"
    ++ " could not be built because its injection points could not be resolved."))

def failedValidationPage : Page := fun c =>
  .ok (standIn c ("Topic " ++ raw c "topic_id"
    ++ " failed validation and has been replaced by this placeholder."))

/-! ## Pages of books -/

def preamblePage : Page := fun c =>
  .ok (preamble c)

/-- A chapter or appendix with what it includes. -/
def chapterPage : Page := fun c => do
  return preamble c ++ "\n<" ++ raw c "element" ++ " id=\"" ++ xml c "id" ++ "\">\n\t<title>" ++ xml c "title"
    ++ "</title>" ++ (← outline (c.get "children")) ++ "\n</" ++ raw c "element" ++ ">"

/-- The book itself. -/
def bookPage : Page := fun c => do
  return preamble c ++ "\n<book>\n\t" ++ inclusion "Book_Info.xml" ++ "\n\t" ++ inclusion "Preface.xml"
    ++ (← outline (c.get "levels"))
    ++ "\n\t" ++ inclusion "Revision_History.xml" ++ "\n\t<index />\n</book>"

/-- The entities that a book's files refer to. -/
def entitiesPage : Page := fun c =>
  .ok ("<!ENTITY PRODUCT \"" ++ xml c "product" ++ "\">\n<!ENTITY BOOKID \"" ++ xml c "escaped_book_title"
    ++ "\">\n<!ENTITY YEAR \"" ++ raw c "year" ++ "\">\n<!ENTITY HOLDER \"" ++ xml c "holder" ++ "\">")

def bookInfoPage : Page := fun c =>
  .ok (preamble c ++ "\n<bookinfo id=\"book-" ++ xml c "escaped_book_title" ++ "\">\n\t<title>" ++ xml c "title"
    ++ "</title>" ++ showIf (c.get "subtitle") ("\n\t<subtitle>" ++ xml c "subtitle" ++ "</subtitle>")
    ++ "\n\t<productname>" ++ xml c "product" ++ "</productname>\n\t<productnumber>" ++ xml c "version"
    ++ "</productnumber>\n\t<edition>" ++ xml c "edition" ++ "</edition>\n\t<pubsnumber>" ++ xml c "pubsnumber"
    ++ "</pubsnumber>\n\t<abstract>\n\t\t<para>" ++ xml c "abstract" ++ "</para>\n\t</abstract>\n\t<corpauthor>"
    ++ "\n\t\t<inlinemediaobject>\n\t\t\t<imageobject>\n\t\t\t\t"
    ++ "<imagedata fileref=\"Common_Content/images/title_logo.svg\" format=\"SVG\" />"
    ++ "\n\t\t\t</imageobject>\n\t\t</inlinemediaobject>\n\t</corpauthor>\n\t"
    ++ inclusion "Common_Content/Legal_Notice.xml" ++ "\n\t" ++ inclusion "Author_Group.xml" ++ "\n</bookinfo>")

/-- One author, with as much of the affiliation as is known. -/
def author (a : Value) : Except Fault String := do
  let organization ← a.field "organization"
  let division ← a.field "org_division"
  let email ← a.field "email"
  return "\n\t<author>\n\t\t<firstname>" ++ (← a.field "first_name").printXml ++ "</firstname>\n\t\t<surname>"
    ++ (← a.field "last_name").printXml ++ "</surname>"
    ++ showIf organization ("\n\t\t<affiliation>\n\t\t\t<orgname>" ++ organization.printXml ++ "</orgname>"
      ++ showIf division ("\n\t\t\t<orgdiv>" ++ division.printXml ++ "</orgdiv>") ++ "\n\t\t</affiliation>")
    ++ showIf email ("\n\t\t<email>" ++ email.printXml ++ "</email>") ++ "\n\t</author>"

/-- The author of a book whose writers are not known. -/
def unknownAuthor : String :=
  "\n\t<author>\n\t\t<firstname>Unknown</firstname>\n\t\t<surname>Writer</surname>\n\t</author>"

def authorGroupPage : Page := fun c => do
  let authors ← (c.get "authors").items
  let shown ← authors.mapM author
  return preamble c ++ "\n<authorgroup>" ++ (if authors.isEmpty then unknownAuthor else String.join shown)
    ++ "\n</authorgroup>"

def prefacePage : Page := fun c =>
  .ok (preamble c ++ "\n<preface id=\"pref-" ++ xml c "escaped_book_title" ++ "-Preface\">\n\t<title>Preface</title>\n\t"
    ++ inclusion "Common_Content/Conventions.xml"
    ++ "\n\t<xi:include href=\"Common_Content/Feedback.xml\" xmlns:xi=\"http://www.w3.org/2001/XInclude\">"
    ++ "\n\t\t<xi:fallback xmlns:xi=\"http://www.w3.org/2001/XInclude\" />\n\t</xi:include>\n</preface>")

def revisionHistoryPage : Page := fun c => do
  let author := c.get "author"
  return preamble c ++ "\n<appendix id=\"appe-" ++ xml c "escaped_book_title"
    ++ "-Revision_History\">\n\t<title>Revision History</title>\n\t<simpara>\n\t\t<revhistory>\n\t\t\t<revision>"
    ++ "\n\t\t\t\t<revnumber>" ++ xml c "revnumber" ++ "</revnumber>\n\t\t\t\t<date>" ++ xml c "date"
    ++ "</date>\n\t\t\t\t<author>\n\t\t\t\t\t<firstname>" ++ (← author.field "first_name").printXml
    ++ "</firstname>\n\t\t\t\t\t<surname>" ++ (← author.field "last_name").printXml
    ++ "</surname>\n\t\t\t\t\t<email>" ++ (← author.field "email").printXml
    ++ "</email>\n\t\t\t\t</author>\n\t\t\t\t<revdescription>\n\t\t\t\t\t<simplelist>"
    ++ (← forEach (c.get "messages") fun m => .ok ("\n\t\t\t\t\t\t<member>" ++ m.printXml ++ "</member>"))
    ++ "\n\t\t\t\t\t</simplelist>\n\t\t\t\t</revdescription>\n\t\t\t</revision>\n\t\t</revhistory>"
    ++ "\n\t</simpara>\n</appendix>"

/-! ## Pages by name -/

/-- The pages that a book is made of. -/
inductive PageName where
  | preamble
  | topic
  | emptyTopic
  | failedInjection
  | failedValidation
  | chapter
  | book
  | entities
  | bookInfo
  | authorGroup
  | preface
  | revisionHistory
deriving DecidableEq, Repr

namespace PageName

def all : List PageName :=
  [preamble, topic, emptyTopic, failedInjection, failedValidation, chapter, book, entities, bookInfo, authorGroup,
    preface, revisionHistory]

/-- The file that a page is known by. -/
def file : PageName → String
  | preamble => "preamble.xml"
  | topic => "topic.xml"
  | emptyTopic => "empty_topic.xml"
  | failedInjection => "failed_injection_topic.xml"
  | failedValidation => "failed_validation_topic.xml"
  | chapter => "chapter.xml"
  | book => "book.xml"
  | entities => "book.ent"
  | bookInfo => "book_info.xml"
  | authorGroup => "author_group.xml"
  | preface => "preface.xml"
  | revisionHistory => "revision_history.xml"

def page : PageName → Page
  | preamble => preamblePage
  | topic => topicPage
  | emptyTopic => emptyTopicPage
  | failedInjection => failedInjectionPage
  | failedValidation => failedValidationPage
  | chapter => chapterPage
  | book => bookPage
  | entities => entitiesPage
  | bookInfo => bookInfoPage
  | authorGroup => authorGroupPage
  | preface => prefacePage
  | revisionHistory => revisionHistoryPage

def ofFile? (file : String) : Option PageName :=
  all.find? fun p => p.file == file

end PageName

/-- The page known by a file's name, rendered from named values. -/
def render (file : String) : Page := fun c =>
  match PageName.ofFile? file with
  | some p => p.page c
  | none => .error (.unknownTemplate file)

end Template
end Bookbinder
