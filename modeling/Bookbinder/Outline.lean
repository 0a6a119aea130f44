import Bookbinder.Slug
/-!
# Outlines

A book is outlined as a tree of levels with references to topics in them.  A reference may name relations of its own,
by the target ids of other references and levels.  Steps and repeat numbers are zero and absent until the tree is
registered.
-/
namespace Bookbinder

/-- What a level of the outline is in the book. -/
inductive LevelKind where
  /-- The invisible root of the tree. -/
  | base
  | part
  | chapter
  | appendix
  | division
deriving DecidableEq, Repr, Inhabited

namespace LevelKind

/-- How link ids of such levels begin where addresses are stable. -/
def idPrefix : LevelKind → String
  | base => "book" | part => "part" | chapter => "chap" | appendix => "appe" | division => "sect"

/-- The DocBook element that such a level is written as. -/
def element : LevelKind → String
  | base => "book" | part => "part" | chapter => "chapter" | appendix => "appendix" | division => "section"

def name : LevelKind → String
  | base => "Base" | part => "Part" | chapter => "Chapter" | appendix => "Appendix" | division => "Section"

end LevelKind

/-- What a level is by itself, without what it holds. -/
structure Heading where
  kind : LevelKind
  title : String
  target : Option String := none
  /-- The number of earlier levels of the same slug, from the second on. -/
  duplicate : Option Nat := none
  step : Nat := 0
deriving DecidableEq, Repr, Inhabited

/-- A link id with the number of its repeat, if it is one. -/
def withDuplicate (base : String) : Option Nat → String
  | some n => base ++ "-" ++ toString n
  | none => base

/-- The link id of a level: kind, slug and repeat where addresses are stable, else kind and step. -/
def Heading.linkId (h : Heading) (stable : Bool) : String :=
  if stable then withDuplicate (h.kind.idPrefix ++ "-" ++ Slug.ofTitle h.title) h.duplicate
  else h.kind.name ++ "ID" ++ toString h.step

inductive RelationKind where
  | prerequisite
  | related
  | next
  | previous
deriving DecidableEq, Repr, Inhabited

/-- A relation declared in the outline, by a target id. -/
structure Relation where
  kind : RelationKind
  target : String
deriving DecidableEq, Repr, Inhabited

/-- A reference to a topic. -/
structure TopicRef where
  /-- The reference's own id in the outline. -/
  id : String
  topicId : Int
  title : String
  revision : Option Int := none
  condition : Option String := none
  target : Option String := none
  relations : List Relation := []
  /-- The number of earlier references to the same topic, from the second on. -/
  duplicate : Option Nat := none
  step : Nat := 0
deriving DecidableEq, Repr, Inhabited

/-- A reference to a topic, under the id that references get by default. -/
def TopicRef.ofTopic (topicId : Int) (title : String) : TopicRef :=
  { id := "T" ++ toString topicId, topicId, title }

/-- A level or a reference in a level. -/
inductive Item where
  | level (heading : Heading) (children : List Item)
  | topic (ref : TopicRef)
deriving Inhabited

/-- A level with what it holds. -/
structure Level where
  heading : Heading
  children : List Item := []
deriving Inhabited

def Level.toItem (l : Level) : Item :=
  .level l.heading l.children

/-! ## References in an outline -/

mutual

/-- The references of an item, in document order. -/
def Item.refs : Item → List TopicRef
  | .topic ref => [ref]
  | .level _ children => itemsRefs children

def itemsRefs : List Item → List TopicRef
  | [] => []
  | i :: is => i.refs ++ itemsRefs is

end

mutual

/-- Whether an item is a reference or holds one. -/
def Item.hasRef : Item → Bool
  | .topic _ => true
  | .level _ children => itemsHaveRef children

def itemsHaveRef : List Item → Bool
  | [] => false
  | i :: is => i.hasRef || itemsHaveRef is

end

mutual

theorem Item.hasRef_eq : ∀ i : Item, i.hasRef = !i.refs.isEmpty
  | .topic _ => rfl
  | .level _ children => by simp [Item.hasRef, Item.refs, itemsHaveRef_eq children]

theorem itemsHaveRef_eq : ∀ is : List Item, itemsHaveRef is = !(itemsRefs is).isEmpty
  | [] => rfl
  | i :: is => by
    simp only [itemsHaveRef, itemsRefs, Item.hasRef_eq i, itemsHaveRef_eq is]
    cases i.refs <;> simp

end

namespace Level

def refs (l : Level) : List TopicRef :=
  itemsRefs l.children

def hasRef (l : Level) : Bool :=
  itemsHaveRef l.children

end Level
end Bookbinder
