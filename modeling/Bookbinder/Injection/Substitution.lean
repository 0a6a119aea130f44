import Bookbinder.Injection.Link
import Bookbinder.Injection.Marker
/-!
# Substituting markers

Each marker comment of a topic gives way to what it asks for.  A marker's id is resolved if the topic is related to
it and, for links, if it takes part in the book.  A marker with an unresolved id stays and is an error, unless missing
injections are tolerated: then its resolved ids are used and the others are warnings, those marked optional aside.
-/
namespace Bookbinder
namespace Injection

open Xml (Element Node)

/-- The outcome of substituting a topic's markers. -/
structure Report where
  /-- The ids that link markers name, in ascending order. -/
  claimed : List Int := []
  errors : List String := []
  warnings : List String := []
deriving DecidableEq, Repr, Inhabited

def Report.isValid (r : Report) : Bool :=
  r.errors.isEmpty

/-- The ids left unresolved, by what was asked of them. -/
structure Unresolved where
  links : List MarkerId := []
  texts : List MarkerId := []
  titles : List MarkerId := []
deriving DecidableEq, Repr, Inhabited

/-- More ids left unresolved by a marker of a kind. -/
def Unresolved.add (u : Unresolved) (kind : MarkerKind) (ids : List MarkerId) : Unresolved :=
  match kind with
  | .text => { u with texts := u.texts ++ ids }
  | .title => { u with titles := u.titles ++ ids }
  | _ => { u with links := u.links ++ ids }

/-- What has been gathered from the markers so far. -/
structure Tally where
  claimed : List Int := []
  unresolved : Unresolved := {}
deriving DecidableEq, Repr, Inhabited

/-- An id in its place among ascending ids. -/
def insertId (id : Int) : List Int → List Int
  | [] => [id]
  | i :: is => if id < i then id :: i :: is else if id = i then i :: is else i :: insertId id is

/-! ## One marker -/

/-- The related topic that an id stands for, if it is resolved. -/
def resolve? (targets : LinkTargets) (topic : Topic) (kind : MarkerKind) (id : MarkerId) : Option Topic :=
  if kind.isLink && !targets.contains id.topicId then none else topic.related? id.topicId

/-- The role that keeps an element out of injected text. -/
def noInjectRole : String := "noinject"

/-- Whether one of an element's roles keeps it out of injected text. -/
def isKept (e : Element) : Bool :=
  match e.attribute? "role" with
  | some roles => !(Text.splitAt ',' roles.toList).contains noInjectRole.toList
  | none => true

/-- The body of a topic: nothing if its XML cannot be read, else all that its root holds, less the first title and the
elements that keep out. -/
def bodyOf (related : Topic) : List Node :=
  match Xml.Document.read related.xml with
  | .ok d => ((d.root.dropFirstChild "title").retain isKept).children
  | .error _ => []

/-- The links of resolved ids as they stand in a sentence or list item. -/
def linkPieces (targets : LinkTargets) (resolved : List (MarkerId × Topic)) : List (List Node) :=
  resolved.filterMap fun (id, related) =>
    (targets.link? id.topicId).map fun link => DocBook.markedLink (link.element related.title) id.isOptional

/-- Resolved ids in the order in which a marker of a kind shows them. -/
def arrange (kind : MarkerKind) (resolved : List (MarkerId × Topic)) : List (MarkerId × Topic) :=
  if kind = .sortedList then resolved.mergeSort fun a b => decide (a.2.title ≤ b.2.title) else resolved

/-- The nodes that a link marker gives way to. -/
def linkNodes (targets : LinkTargets) (kind : MarkerKind) (resolved : List (MarkerId × Topic)) : List Node :=
  let pieces := linkPieces targets (arrange kind resolved)
  if pieces.isEmpty then []
  else match kind with
    | .single => pieces.flatten
    | .listItems => pieces.map fun p => (DocBook.listItem p).toNode
    | .sequence => [DocBook.orderedList (pieces.map DocBook.listItem)]
    | _ => [DocBook.itemizedList (pieces.map DocBook.listItem)]

/-- The nodes that a marker gives way to, from what its ids were resolved to. -/
def nodes (targets : LinkTargets) (kind : MarkerKind) (resolved : List (MarkerId × Topic)) : List Node :=
  match kind with
  | .text => match resolved.head? with
    | some (_, related) => bodyOf related
    | none => []
  | .title => match resolved.head? with
    | some (_, related) => [DocBook.title related.title]
    | none => []
  | _ => linkNodes targets kind resolved

/-- What takes the place of one marker, if anything does, and what it adds to the tally. -/
def substitute (targets : LinkTargets) (tolerant : Bool) (topic : Topic) (m : Marker) (t : Tally) :
    Option (List Node) × Tally :=
  let resolved := m.ids.filterMap fun id => (resolve? targets topic m.kind id).map fun r => (id, r)
  let missing := m.ids.filter fun id => (resolve? targets topic m.kind id).isNone
  let t : Tally :=
    { claimed := if m.kind.isLink then m.topicIds.foldl (fun ids id => insertId id ids) t.claimed else t.claimed
      unresolved := t.unresolved.add m.kind missing }
  if !missing.isEmpty && !tolerant then (none, t) else (some (nodes targets m.kind resolved), t)

/-! ## All markers of a topic -/

def joinIds (ids : List MarkerId) : String :=
  ", ".intercalate (ids.map fun id => toString id.topicId)

def linksMessage (ids : List MarkerId) : String :=
  "Topic has referenced Topic(s) " ++ joinIds ids ++ " in a custom injection point that was either not related, or "
    ++ "not included in the filter used to build this book."

def textsMessage (ids : List MarkerId) : String :=
  "Topic has injected content from Topic(s) " ++ joinIds ids ++ " that were not related."

def titlesMessage (ids : List MarkerId) : String :=
  "Topic has injected a title from Topic(s) " ++ joinIds ids ++ " that were not related."

/-- The messages about unresolved ids that pass a test: at most one each for links, texts and titles. -/
def Unresolved.messages (u : Unresolved) (counts : MarkerId → Bool) : List String :=
  [(u.links, linksMessage), (u.texts, textsMessage), (u.titles, titlesMessage)].filterMap fun (ids, message) =>
    let ids := ids.filter counts
    if ids.isEmpty then none else some (message ids)

/-- What is reported once all markers have been seen. -/
def Tally.report (t : Tally) (tolerant : Bool) : Report :=
  if tolerant then ⟨t.claimed, [], t.unresolved.messages fun id => !id.isOptional⟩
  else ⟨t.claimed, t.unresolved.messages fun _ => true, []⟩

/-- A topic's document with its markers substituted, and the report on them. -/
def process (targets : LinkTargets) (tolerant : Bool) (topic : Topic) (root : Element) : Element × Report :=
  let (root, tally) := root.replaceComments (fun body t => match Marker.read? body with
    | some m => substitute targets tolerant topic m t
    | none => (none, t)) ({} : Tally)
  (root, tally.report tolerant)

end Injection
end Bookbinder
