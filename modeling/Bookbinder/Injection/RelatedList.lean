import Bookbinder.Injection.Link
/-!
# Lists of related topics

The relations of a topic that no marker claims are filed by topic type.  Each goes under the first type that its topic
is tagged with, and each list is sorted by title.
-/
namespace Bookbinder

/-- A type of topics: the tag that marks it, and how its list is titled and called. -/
structure TopicType where
  tag : Int
  label : String
  role : String
deriving DecidableEq, Repr, Inhabited

namespace TopicType

def task : TopicType := ⟨4, "Task", "task"⟩
def reference : TopicType := ⟨5, "Reference", "reference"⟩
def concept : TopicType := ⟨6, "Concept", "concept"⟩
def overview : TopicType := ⟨7, "Conceptual Overview", "conceptual-overview"⟩

/-- The order in which a topic's tags are tried. -/
def filingOrder : List TopicType := [task, reference, concept, overview]

/-- The order in which the lists stand. -/
def listOrder : List TopicType := [reference, task, concept, overview]

/-- The type that a topic is filed under. -/
def of? (t : Topic) : Option TopicType :=
  filingOrder.find? fun type => t.hasTag type.tag

end TopicType

/-- A titled list of links to topics of one type. -/
structure RelatedList where
  label : String
  role : String
  links : List RelatedLink
deriving DecidableEq, Repr, Inhabited

def RelatedList.value (l : RelatedList) : Template.Value :=
  .record [("label", .text l.label), ("links", .list (l.links.map RelatedLink.value)), ("role", .text l.role)]

/-- What becomes of one relation. -/
inductive Filing where
  /-- A marker links to it already. -/
  | claimed
  /-- Its topic is not in the book. -/
  | missing (topicId : Int)
  /-- Its topic has no type, or nothing to link to. -/
  | dropped
  | filed (type : TopicType) (link : RelatedLink)
deriving DecidableEq, Repr, Inhabited

/-- The lists of related topics, and the ids that are not in the book. -/
structure RelatedTopics where
  lists : List RelatedList
  missing : List Int
deriving DecidableEq, Repr, Inhabited

namespace RelatedTopics

def filing (targets : LinkTargets) (claimed : List Int) (related : Topic) : Filing :=
  let id := related.sourceId
  if claimed.contains id then .claimed
  else if !targets.contains id then .missing id
  else match TopicType.of? related, targets.link? id with
    | some type, some link => .filed type ⟨link, (targets.title? id).getD related.title⟩
    | _, _ => .dropped

/-- The links filed under a type, in the order of the relations. -/
def filedUnder (type : TopicType) (filings : List Filing) : List RelatedLink :=
  filings.filterMap fun
    | .filed type' link => if type' = type then some link else none
    | _ => none

/-- The list of a type, unless nothing is filed under it. -/
def list? (type : TopicType) (filings : List Filing) : Option RelatedList :=
  let links := filedUnder type filings
  if links.isEmpty then none
  else some ⟨type.label, type.role, links.mergeSort fun a b => decide (a.title ≤ b.title)⟩

/-- A topic's relations filed by type.  Missing topics are of no interest where they are tolerated. -/
def of (targets : LinkTargets) (claimed : List Int) (tolerant : Bool) (topic : Topic) : RelatedTopics :=
  let filings := topic.outgoing.map (filing targets claimed)
  ⟨TopicType.listOrder.filterMap (list? · filings),
    if tolerant then [] else filings.filterMap fun
      | .missing id => some id
      | _ => none⟩

/-- What is to be said about related topics outside the book. -/
def message? (r : RelatedTopics) : Option String :=
  if r.missing.isEmpty then none
  else some ("Topic has related Topic(s) " ++ ", ".intercalate (r.missing.map toString)
    ++ " that were not included in the filter used to build this book.")

end RelatedTopics
end Bookbinder
