import Bookbinder.Outline
import Bookbinder.Xml.Node
/-!
# Ids that are unique in the book

Every topic is written by itself, so two of them may use the same id.  The ledger records the ids of every topic and
reserves the link ids of the book.  Each occurrence of a topic then has the ids below its root renamed where they are
used already, and with them every attribute value that refers to one of them.
-/
namespace Bookbinder

open Xml (Element Node)

structure IdLedger where
  /-- The ids below the roots of the topics, with the topics they are recorded for. -/
  recorded : List (Int × String) := []
  /-- Reserved ids, and those handed out. -/
  taken : List String := []
deriving DecidableEq, Repr, Inhabited

namespace IdLedger

/-- The ids below a root, in document order.  The root's own id is the topic's link id. -/
def innerIds (root : Element) : List String :=
  (Xml.nodesElements root.children).filterMap (·.attribute? "id")

/-- The ledger with the ids of a topic's document as it was written. -/
def record (l : IdLedger) (topicId : Int) (root : Element) : IdLedger :=
  { l with recorded := l.recorded ++ (innerIds root).map fun id => (topicId, id) }

/-- The ledger with an id that is used outside the topics' own ids. -/
def reserve (l : IdLedger) (id : String) : IdLedger :=
  { l with taken := id :: l.taken }

/-- The ids recorded for other topics. -/
def elsewhere (l : IdLedger) (topicId : Int) : List String :=
  (l.recorded.filter fun r => r.1 != topicId).map (·.2)

/-- The names that are tried for an id: its own, one with the step, and then one more number each. -/
def candidate (base : String) (step : Nat) : Nat → String
  | 0 => base
  | 1 => base ++ "-" ++ toString step
  | k + 2 => base ++ "-" ++ toString step ++ "-" ++ toString (k + 1)

/-- The first of the candidates, from an attempt on, that passes a test, if one of the next `attempts` does. -/
def firstFree (free : String → Bool) (name : Nat → String) (attempt : Nat) : Nat → String
  | 0 => name attempt
  | n + 1 => if free (name attempt) then name attempt else firstFree free name (attempt + 1) n

/-- What an occurrence may not use for an id of its own: what is taken or recorded elsewhere, what it has given to
another id, and, where it keeps its names, the names of its other ids. -/
def isFree (l : IdLedger) (others : List String) (duplicate : Option Nat) (originals assigned : List String)
    (old name : String) : Bool :=
  !l.taken.contains name && !others.contains name && !assigned.contains name
    && !(duplicate.isNone && name != old && originals.contains name)

/-- New names for ids, each with the id that it replaces.  `assigned` holds those given so far. -/
def assign (l : IdLedger) (others : List String) (duplicate : Option Nat) (step : Nat) (originals : List String) :
    List String → List (String × String) → List (String × String)
  | [], given => given
  | old :: olds, given =>
    let assigned := given.map (·.2)
    let bound := l.taken.length + others.length + assigned.length + originals.length
    let name := firstFree (l.isFree others duplicate originals assigned old)
      (candidate (withDuplicate old duplicate) step) 0 bound
    assign l others duplicate step originals olds (given ++ [(old, name)])

/-- An attribute value after renaming. -/
def renameValue (names : List (String × String)) (value : String) : String :=
  ((names.find? fun n => n.1 == value).map (·.2)).getD value

def renameAll (names : List (String × String)) (as : Xml.Attributes) : Xml.Attributes :=
  as.map fun (key, value) => (key, renameValue names value)

/-- A root with the values renamed in all its attributes but its id, and in those of all elements below. -/
def renameIn (names : List (String × String)) (root : Element) : Element :=
  ⟨root.name,
    root.attributes.map fun (key, value) => (key, if key = "id" then value else renameValue names value),
    (Xml.nodesMapAttributes (fun _ as () => (renameAll names as, ())) root.children ()).1⟩

/-- An occurrence of a topic with its ids made unique: the ids that changed with their new names, the document, and the
ledger with what was handed out. -/
def enforce (l : IdLedger) (topicId : Int) (duplicate : Option Nat) (step : Nat) (root : Element) :
    List (String × String) × Element × IdLedger :=
  let originals := innerIds root
  let given := l.assign (l.elsewhere topicId) duplicate step originals originals.eraseDups []
  let changed := given.filter fun n => n.1 != n.2
  (changed, if changed.isEmpty then root else renameIn changed root,
    { l with taken := given.map (·.2) ++ l.taken })

end IdLedger
end Bookbinder
