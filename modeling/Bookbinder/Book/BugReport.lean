import Bookbinder.Text.Percent
import Bookbinder.Topic
/-!
# Bug reports

The link by which a reader reports a bug in a topic.  It says nothing that changes from one build to the next, so that
a topic is the same in all of them.
-/
namespace Bookbinder

/-- What a link fills in for the reader. -/
structure BugReport where
  product : String
  component : String
  version : String
  /-- Where the bug was seen: the build, its locale and the topic. -/
  environment : String
  keywords : Option String := none
  assignee : Option String := none
deriving DecidableEq, Repr, Inhabited

namespace BugReport

/-- The component of topics that name none. -/
def defaultComponent : String := "documentation"

def environmentText (build locale : String) (t : Topic) : String :=
  "Build Name: " ++ build ++ "\nBuild Locale: " ++ locale ++ "\nTopic ID: " ++ toString t.sourceId ++ "-"
    ++ toString t.sourceRevision

/-- The report on a topic: what its tags say comes before what is known of the book. -/
def of (t : Topic) (product version : Option String) (build locale : String) : BugReport where
  product := ((t.tagProperty? PropertyId.bugProduct).or product).getD ""
  component := (t.tagProperty? PropertyId.bugComponent).getD defaultComponent
  version := ((t.tagProperty? PropertyId.bugVersion).or version).getD ""
  environment := environmentText build locale t
  keywords := t.tagProperty? PropertyId.bugKeywords
  assignee := t.tagProperty? PropertyId.bugAssignee

/-- A parameter that may be left out. -/
def optional (name : String) : Option String → List (String × String)
  | some value => [(name, value)]
  | none => []

def parameters (r : BugReport) : List (String × String) :=
  [("product", r.product), ("component", r.component), ("version", r.version), ("cf_environment", r.environment)]
    ++ optional "keywords" r.keywords ++ optional "assigned_to" r.assignee

/-- Parameters as they stand in a URL. -/
def query (parameters : List (String × String)) : String :=
  "&".intercalate (parameters.map fun (name, value) => name ++ "=" ++ Percent.encode value)

/-- An address without slashes at its end. -/
def trimSlashes (url : String) : String :=
  String.ofList (url.toList.reverse.dropWhile (· == '/')).reverse

/-- The link to a tracker at an address. -/
def url (tracker : String) (r : BugReport) : String :=
  trimSlashes tracker ++ "/enter_bug.cgi?" ++ query r.parameters

end BugReport
end Bookbinder
