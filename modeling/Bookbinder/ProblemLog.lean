import Bookbinder.Topic
/-!
# Problems of a build

What is wrong with the topics of a book, topic by topic in the order of their first reports.  A problem that is
reported again is not listed twice.  Everything is filed under the locale of the build.
-/
namespace Bookbinder

inductive Severity where
  | warning
  | error
deriving DecidableEq, Repr, Inhabited

def Severity.name : Severity → String
  | warning => "WARNING"
  | error => "ERROR"

structure Problem where
  severity : Severity
  message : String
deriving DecidableEq, Repr, Inhabited

/-- What is shown of a topic that has problems. -/
structure TopicSummary where
  id : Int
  topicId : Int
  revision : Int
  translated : Bool
  tags : String
  xrefId : String
deriving DecidableEq, Repr, Inhabited

def TopicSummary.of (t : Topic) : TopicSummary :=
  ⟨t.id, t.sourceId, t.sourceRevision, t.isTranslated, t.tagNames, t.problemXrefId⟩

/-- The problems of one topic, in the order of their reports. -/
structure TopicProblems where
  topic : TopicSummary
  items : List Problem
deriving DecidableEq, Repr, Inhabited

/-- The messages of a severity. -/
def TopicProblems.messages (p : TopicProblems) (s : Severity) : List String :=
  (p.items.filter fun i => i.severity == s).map (·.message)

/-- The problems of a build in a locale. -/
structure ProblemLog where
  locale : String
  topics : List TopicProblems := []
deriving DecidableEq, Repr, Inhabited

namespace ProblemLog

/-- A list with an item at its end, unless it has the item already. -/
def addNew (items : List Problem) (i : Problem) : List Problem :=
  if items.contains i then items else items ++ [i]

/-- A problem filed with its topic, which comes last if it is new. -/
def file (t : Topic) (p : Problem) : List TopicProblems → List TopicProblems
  | [] => [⟨.of t, [p]⟩]
  | d :: ds => if d.topic.topicId = t.sourceId then { d with items := addNew d.items p } :: ds else d :: file t p ds

def add (log : ProblemLog) (s : Severity) (t : Topic) (message : String) : ProblemLog :=
  { log with topics := file t ⟨s, message⟩ log.topics }

def warn (log : ProblemLog) (t : Topic) (message : String) : ProblemLog :=
  log.add .warning t message

def error (log : ProblemLog) (t : Topic) (message : String) : ProblemLog :=
  log.add .error t message

/-- The problems filed under a locale. -/
def under (log : ProblemLog) (locale : String) : List TopicProblems :=
  if log.locale = locale then log.topics else []

/-- How many problems of a severity are listed. -/
def count (log : ProblemLog) (s : Severity) : Nat :=
  log.topics.foldr (fun d n => (d.messages s).length + n) 0

end ProblemLog
end Bookbinder
