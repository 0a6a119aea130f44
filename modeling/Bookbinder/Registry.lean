import Bookbinder.Outline
import Bookbinder.Template.Value
import Bookbinder.Topic
import Bookbinder.Xml.Document
/-!
# The registry of a book

Every level and reference of the outline gets a step, in document order, and the number of its repeat.  The registry
keeps them with what a build learns about each reference, and answers where links lead: to the occurrence nearest to
where they start, or to what a target id names.
-/
namespace Bookbinder

/-- How a reference's topic is to be published. -/
inductive Outcome where
  | pending
  /-- From its processed document. -/
  | valid
  /-- From a body that stands in for it. -/
  | fallback (content : String)
deriving DecidableEq, Repr, Inhabited

/-- A registered reference. -/
structure TopicEntry where
  /-- The reference with its step and repeat number. -/
  ref : TopicRef
  /-- The place of the enclosing level among the levels. -/
  parent : Nat
  topic : Option Topic := none
  document : Option Xml.Document := none
  context : Option Template.Context := none
  outcome : Outcome := .pending

namespace TopicEntry

/-- The link id of this occurrence: the topic's own and the number of the repeat. -/
def linkId (e : TopicEntry) (stable : Bool) : String :=
  withDuplicate (match e.topic with
    | some t => t.linkId stable
    | none => "TopicID" ++ toString e.ref.topicId) e.ref.duplicate

/-- The title that links show: the topic's, or the outline's as long as there is no topic. -/
def title (e : TopicEntry) : String :=
  match e.topic with
  | some t => t.title
  | none => e.ref.title

end TopicEntry

/-- A registered level. -/
structure LevelEntry where
  heading : Heading
  /-- The place of the enclosing level among the levels. -/
  parent : Option Nat
deriving DecidableEq, Repr, Inhabited

namespace LevelEntry

def slug (l : LevelEntry) : String :=
  Slug.ofTitle l.heading.title

def linkId (l : LevelEntry) (stable : Bool) : String :=
  l.heading.linkId stable

end LevelEntry

/-- What a target id names. -/
inductive Target where
  /-- A reference, by its step. -/
  | topic (step : Nat)
  /-- A level, by its place among the levels. -/
  | level (index : Nat)
deriving DecidableEq, Repr, Inhabited

structure Registry where
  /-- References in document order. -/
  entries : List TopicEntry := []
  /-- Levels in document order. -/
  levels : List LevelEntry := []
  targets : List (String × Target) := []
  /-- The last step given. -/
  lastStep : Nat := 0

namespace Registry

/-! ## Registering -/

/-- The number of a repeat, given how many came before: none for the first. -/
def repeatNumber : Nat → Option Nat
  | 0 => none
  | n => some n

/-- The targets with an id bound to a target, whatever it named before. -/
def bind (targets : List (String × Target)) (id : String) (t : Target) : List (String × Target) :=
  (id, t) :: targets.filter fun b => b.1 != id

/-- The targets with an id bound to a target unless it names one already. -/
def bindNew (targets : List (String × Target)) (id : String) (t : Target) : List (String × Target) :=
  if targets.any fun b => b.1 == id then targets else (id, t) :: targets

def bindAny (targets : List (String × Target)) (id : Option String) (t : Target) : List (String × Target) :=
  match id with
  | some id => bind targets id t
  | none => targets

/-- The steps of the references to a topic, in document order. -/
def stepsFor (r : Registry) (topicId : Int) : List Nat :=
  (r.entries.filter fun e => e.ref.topicId == topicId).map (·.ref.step)

/-- The levels other than a root whose titles have a slug, in document order. -/
def levelsFor (r : Registry) (slug : String) : List LevelEntry :=
  r.levels.filter fun l => l.heading.kind != .base && l.slug == slug

/-- A reference in the level at a place, with its step and repeat number. -/
def addRef (r : Registry) (parent : Nat) (ref : TopicRef) : TopicRef × Registry :=
  let step := r.lastStep + 1
  let ref := { ref with step, duplicate := repeatNumber (r.stepsFor ref.topicId).length }
  (ref, { r with
    lastStep := step
    entries := r.entries ++ [{ ref, parent }]
    targets := bindAny (bindNew r.targets ref.id (.topic step)) ref.target (.topic step) })

/-- A level without what it holds, with its step and repeat number.  A root keeps the number it came with. -/
def addHeading (r : Registry) (parent : Option Nat) (h : Heading) : Heading × Registry :=
  let step := r.lastStep + 1
  let duplicate := if h.kind = .base then h.duplicate else repeatNumber (r.levelsFor (Slug.ofTitle h.title)).length
  let h := { h with step, duplicate }
  (h, { r with
    lastStep := step
    levels := r.levels ++ [⟨h, parent⟩]
    targets := bindAny r.targets h.target (.level r.levels.length) })

mutual

/-- An item in the level at a place, and all that it holds. -/
def addItem (r : Registry) (parent : Nat) : Item → Item × Registry
  | .topic ref =>
    let (ref, r) := r.addRef parent ref
    (.topic ref, r)
  | .level heading children =>
    let index := r.levels.length
    let (heading, r) := r.addHeading (some parent) heading
    let (children, r) := addItems r index children
    (.level heading children, r)

def addItems (r : Registry) (parent : Nat) : List Item → List Item × Registry
  | [] => ([], r)
  | i :: is =>
    let (i, r) := addItem r parent i
    let (is, r) := addItems r parent is
    (i :: is, r)

end

/-- An outline registered after what is registered already, and the outline with its steps and repeat numbers. -/
def register (r : Registry) (l : Level) : Level × Registry :=
  let index := r.levels.length
  let (heading, r) := r.addHeading none l.heading
  let (children, r) := r.addItems index l.children
  (⟨heading, children⟩, r)

/-! ## Looking up -/

/-- The ids of the topics referred to, in the order of their first references. -/
def topicIds (r : Registry) : List Int :=
  r.entries.foldl (fun ids e => if ids.contains e.ref.topicId then ids else ids ++ [e.ref.topicId]) []

def containsTopic (r : Registry) (topicId : Int) : Bool :=
  r.entries.any fun e => e.ref.topicId == topicId

/-- Whether the topic is referred to exactly once. -/
def isUnique (r : Registry) (topicId : Int) : Bool :=
  (r.stepsFor topicId).length == 1

def entry? (r : Registry) (step : Nat) : Option TopicEntry :=
  r.entries.find? fun e => e.ref.step == step

def level? (r : Registry) (index : Nat) : Option LevelEntry :=
  r.levels[index]?

/-- The references to a topic, in document order. -/
def entriesFor (r : Registry) (topicId : Int) : List TopicEntry :=
  r.entries.filter fun e => e.ref.topicId == topicId

def steps (r : Registry) : List Nat :=
  r.entries.map (·.ref.step)

/-- How far two steps are apart. -/
def distance (a b : Nat) : Nat :=
  (a - b) + (b - a)

/-- The entry whose step is nearest to a step, the earlier one of two that are equally near. -/
def nearest (start : Nat) : List TopicEntry → Option TopicEntry
  | [] => none
  | e :: es => match nearest start es with
    | none => some e
    | some e' =>
      let d := distance e.ref.step start
      let d' := distance e'.ref.step start
      if d < d' ∨ (d = d' ∧ e.ref.step ≤ e'.ref.step) then some e else some e'

/-- The reference to a topic nearest to a step. -/
def closest? (r : Registry) (topicId : Int) (start : Nat) : Option TopicEntry :=
  nearest start (r.entriesFor topicId)

/-- What a target id names: an explicit target if there is one, the last of them, else the first reference with that
id. -/
def resolve? (r : Registry) (id : String) : Option Target :=
  (r.targets.find? fun b => b.1 == id).map (·.2)

/-- The registry with what is known of the reference at a step changed. -/
def update (r : Registry) (step : Nat) (f : TopicEntry → TopicEntry) : Registry :=
  { r with entries := r.entries.map fun e => if e.ref.step = step then f e else e }

def isEmpty (r : Registry) : Bool :=
  r.entries.isEmpty

end Registry
end Bookbinder
