import Bookbinder.Book.FrontMatter
import Bookbinder.DocBook
import Bookbinder.Xml.CharacterData
/-!
# Back matter

The chapter that lists the problems of the book, and the appendix that shows the content specification.  Both are
written directly, and what may not stand in XML is taken out of them.
-/
namespace Bookbinder
namespace Draft

variable {σ : Type}

/-! ## Problems -/

def problemsFile : String := "Errors.xml"

def listItem (text : String) : String :=
  "\t\t\t<listitem><para>" ++ text ++ "</para></listitem>\n"

/-- The items of a topic's problems of one severity. -/
def severityItems (p : TopicProblems) (s : Severity) : String :=
  String.join ((p.messages s).map fun m => listItem (s.name ++ ": " ++ m))

/-- The tags of a topic, if it has any. -/
def tagItem (t : TopicSummary) : String :=
  if t.tags.isEmpty then "" else listItem ("INFO: " ++ Text.escape t.tags)

/-- The section of a topic with problems, the errors before the warnings. -/
def problemSection (p : TopicProblems) : String :=
  "\t<section id=\"" ++ Text.escape p.topic.xrefId ++ "\">\n\t\t<title>Topic ID " ++ toString p.topic.topicId
    ++ ", Revision " ++ toString p.topic.revision ++ "</title>\n\t\t<itemizedlist>\n" ++ tagItem p.topic
    ++ severityItems p .error ++ severityItems p .warning ++ "\t\t</itemizedlist>\n\t</section>\n"

def problemSections (problems : List TopicProblems) : String :=
  if problems.isEmpty then "\t" ++ (DocBook.para "No Errors Found").toXml ++ "\n"
  else String.join (problems.map problemSection)

/-- The chapter of problems after a preamble. -/
def problemChapterText (preamble : String) (problems : List TopicProblems) : String :=
  Text.trimEnd preamble ++ "\n<chapter id=\"Compiler_Output\">\n\t<title>Compiler Output</title>\n"
    ++ problemSections problems ++ "</chapter>\n"

def problemChapter (b : Bindery σ) (d : Draft) : Press σ File := do
  let preamble ← Press.render b.renderer .preamble (d.baseContext "chapter")
  return .ofText (d.localePath problemsFile)
    (Xml.cleanText (problemChapterText preamble (d.problems.under d.locale)))

/-- The chapter of problems, unless the caller does without. -/
def problemChapters (b : Bindery σ) (d : Draft) : Press σ (List File) := do
  if d.settings.suppressErrorsPage then return []
  else return [← problemChapter b d]

/-! ## The content specification -/

def specFile : String := "Build_Content_Specification.xml"

/-- The appendix of the specification's text after a preamble. -/
def specAppendixText (preamble name text : String) : String :=
  Text.trimEnd preamble ++ "\n<appendix id=\"appe-" ++ Text.escape name
    ++ "-Build_Content_Specification\">\n\t<title>Build Content Specification</title>\n\t<programlisting>"
    ++ Xml.wrapInCdata text ++ "</programlisting>\n</appendix>\n"

def specAppendix (b : Bindery σ) (d : Draft) : Press σ File := do
  let preamble ← Press.render b.renderer .preamble (d.baseContext "appendix")
  return .ofText (d.localePath specFile) (Xml.cleanText (specAppendixText preamble d.name d.spec.text))

/-- The appendix of the specification, unless the caller does without. -/
def specAppendices (b : Bindery σ) (d : Draft) : Press σ (List File) := do
  if d.settings.suppressContentSpecPage then return []
  else return [← specAppendix b d]

end Draft
end Bookbinder
