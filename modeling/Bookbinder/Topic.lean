/-!
# Topics

A topic is a unit of text with an id, a revision and relations to other topics.  A translated topic is a topic in
another language that names the topic it translates; a placeholder stands in for a translation nobody has made.
Relations hold copies of the related topics.
-/
namespace Bookbinder

/-- A value that a store attaches to a topic or a tag. -/
structure Property where
  id : Int
  value : String
  valid : Bool := true
deriving DecidableEq, Repr, Inhabited

structure Tag where
  id : Int
  name : String
  categories : List Int := []
  properties : List Property := []
deriving DecidableEq, Repr, Inhabited

/-- The value of a tag's first property of an id. -/
def Tag.property? (t : Tag) (id : Int) : Option String :=
  (t.properties.find? (fun p => p.id == id)).map (·.value)

/-- What a translated topic says about the topic it translates. -/
structure Translation where
  topicId : Int
  topicRevision : Int
  percentage : Nat
  /-- Whether this is a placeholder. -/
  dummy : Bool := false
deriving DecidableEq, Repr, Inhabited

/-- A topic with copies of the topics it points at and of those that point at it. -/
structure Topic where
  id : Int
  revision : Int
  title : String
  xml : String
  locale : String
  tags : List Tag := []
  properties : List Property := []
  translation : Option Translation := none
  outgoing : List Topic := []
  incoming : List Topic := []
deriving Inhabited

/-! ## Well-known ids -/

namespace PropertyId

/-- The property that holds a topic's stable address. -/
def address : Int := 20
def bugProduct : Int := 21
def bugComponent : Int := 22
def bugVersion : Int := 23
def bugKeywords : Int := 24
def bugAssignee : Int := 25

end PropertyId

/-- The category of tags that name writers. -/
def writerCategory : Int := 12

namespace Topic

/-- A topic of the source language, fresh from its author. -/
def ofText (id : Int) (title xml : String) : Topic :=
  { id, revision := 1, title, xml, locale := "en-US" }

/-! ## What a topic says of itself -/

/-- The id of the topic that counts for books and relations: the one translated, if this is a translation. -/
def sourceId (t : Topic) : Int :=
  match t.translation with
  | some tr => tr.topicId
  | none => t.id

def sourceRevision (t : Topic) : Int :=
  match t.translation with
  | some tr => tr.topicRevision
  | none => t.revision

def isTranslated (t : Topic) : Bool :=
  t.translation.isSome

/-- Whether the topic is a placeholder for a translation. -/
def isDummy (t : Topic) : Bool :=
  match t.translation with
  | some tr => tr.dummy
  | none => false

/-- Whether some of the topic's text is not translated yet. -/
def isIncomplete (t : Topic) : Bool :=
  match t.translation with
  | some tr => tr.percentage < 100
  | none => false

def hasTag (t : Topic) (id : Int) : Bool :=
  t.tags.any fun tag => tag.id == id

def tagNames (t : Topic) : String :=
  ", ".intercalate (t.tags.map (·.name))

/-- The first value of a property among the topic's tags. -/
def tagProperty? (t : Topic) (id : Int) : Option String :=
  t.tags.findSome? (·.property? id)

/-! ## Addresses -/

/-- A property that holds an address in force. -/
def isAddress (p : Property) : Bool :=
  p.id == PropertyId.address && p.valid && !p.value.isEmpty

/-- The topic's stable address, if it has one in force. -/
def address? (t : Topic) : Option String :=
  (t.properties.find? isAddress).map (·.value)

/-- The link target that every topic has. -/
def xrefId (t : Topic) : String :=
  "TopicID" ++ toString t.sourceId

/-- The anchor of the topic's entry among the problems of a build. -/
def problemXrefId (t : Topic) : String :=
  "TopicErrorID" ++ toString t.sourceId

/-- The link target of a topic: its stable address where those are used and it has one, else its id. -/
def linkId (t : Topic) (stable : Bool) : String :=
  match t.address? with
  | some a => if stable then a else t.xrefId
  | none => t.xrefId

/-! ## Relations -/

/-- The topic without its relations, as other topics hold it. -/
def shallow (t : Topic) : Topic :=
  { t with outgoing := [], incoming := [] }

/-- The first topic pointed at that has a source id. -/
def related? (t : Topic) (id : Int) : Option Topic :=
  t.outgoing.find? fun r => r.sourceId == id

def isRelatedTo (t : Topic) (id : Int) : Bool :=
  t.outgoing.any fun r => r.sourceId == id

/-- Two topics after the first has been pointed at the second. -/
def relate (a b : Topic) : Topic × Topic :=
  let a' := { a with outgoing := a.outgoing ++ [b.shallow] }
  (a', { b with incoming := b.incoming ++ [a'.shallow] })

/-- A list of topics after the first one of an id has been pointed at the first one of another id, if it has both. -/
def relateIn (ts : List Topic) (start target : Int) : List Topic :=
  match ts.findIdx? (·.id == start), ts.findIdx? (·.id == target) with
  | some i, some k =>
    if i = k then ts
    else
      let (a, b) := relate (ts.getD i default) (ts.getD k default)
      (ts.set i a).set k b
  | _, _ => ts

end Topic
end Bookbinder
