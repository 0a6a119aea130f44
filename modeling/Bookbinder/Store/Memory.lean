import Bookbinder.Store
/-!
# Stores in memory

A complete store held in memory.  A change of a property goes to the stored topic and to every copy that other topics
hold of it, as a live store would give them out on the next call.  Changes are made one after the other, so those
before a failing one stay.
-/
namespace Bookbinder

structure MemoryStore where
  /-- Topics by ascending id. -/
  topics : List Topic := []
  /-- Translated topics, the ones added last in front. -/
  translations : List Topic := []
  texts : List (Int × String) := []
  blobs : List (Int × ByteArray) := []
  images : List (Int × ByteArray) := []
  /-- Writers by the ids of their tags. -/
  authors : List (Int × Author) := []
  tags : List Tag := []
  /-- How many of the next updates fail. -/
  failingUpdates : Nat := 0
  /-- How many updates were asked for, failed ones included. -/
  updateCalls : Nat := 0
deriving Inhabited

namespace MemoryStore

/-! ## Filling -/

/-- A topic in its place among topics by ascending id, instead of one that has its id. -/
def insertTopic (t : Topic) : List Topic → List Topic
  | [] => [t]
  | u :: us => if t.id < u.id then t :: u :: us else if t.id = u.id then t :: us else u :: insertTopic t us

def addTopic (s : MemoryStore) (t : Topic) : MemoryStore :=
  { s with topics := insertTopic t s.topics }

def addTranslation (s : MemoryStore) (t : Topic) : MemoryStore :=
  { s with translations := t :: s.translations }

def addText (s : MemoryStore) (id : Int) (text : String) : MemoryStore :=
  { s with texts := (id, text) :: s.texts }

def addBlob (s : MemoryStore) (id : Int) (bytes : ByteArray) : MemoryStore :=
  { s with blobs := (id, bytes) :: s.blobs }

def addImage (s : MemoryStore) (id : Int) (bytes : ByteArray) : MemoryStore :=
  { s with images := (id, bytes) :: s.images }

def addAuthor (s : MemoryStore) (tag : Tag) (a : Author) : MemoryStore :=
  { s with authors := (tag.id, a) :: s.authors, tags := s.tags ++ [tag] }

/-! ## Looking up -/

/-- The value of an id; of several, the first. -/
def lookup? {α : Type} (items : List (Int × α)) (id : Int) : Option α :=
  (items.find? fun i => i.1 == id).map (·.2)

def topic? (s : MemoryStore) (id : Int) : Option Topic :=
  s.topics.find? fun t => t.id == id

def translation? (s : MemoryStore) (locale : String) (id : Int) : Option Topic :=
  s.translations.find? fun t => t.locale == locale && t.sourceId == id

/-! ## Changing properties -/

/-- A topic's properties after an update: stale ones are dropped, and the added one comes last. -/
def updateProperties (u : PropertyUpdate) (ps : List Property) : List Property :=
  (ps.filter fun p => !(p.id == u.add.id && u.remove.contains p) && p != u.add) ++ [u.add]

def updateTopic (u : PropertyUpdate) (t : Topic) : Topic :=
  { t with properties := updateProperties u t.properties }

/-- The topics after the updates, or up to the first one whose topic is missing, with that topic's id. -/
def updateTopics : List PropertyUpdate → List Topic → List Topic × Option Int
  | [], ts => (ts, none)
  | u :: us, ts =>
    if ts.any fun t => t.id == u.topicId then
      updateTopics us (ts.map fun t => if t.id = u.topicId then updateTopic u t else t)
    else (ts, some u.topicId)

/-- A copy of a topic after the updates.  Of the updates of one topic a copy takes the first, and copies of
translations take none. -/
def updateCopy (us : List PropertyUpdate) (t : Topic) : Topic :=
  if t.isTranslated then t
  else match us.find? fun u => u.topicId == t.id with
    | some u => updateTopic u t
    | none => t

/-- A topic with the updates made in the copies that it holds. -/
def updateCopies (us : List PropertyUpdate) (t : Topic) : Topic :=
  { t with outgoing := t.outgoing.map (updateCopy us), incoming := t.incoming.map (updateCopy us) }

/-- A batch of updates. -/
def update (us : List PropertyUpdate) (s : MemoryStore) : Reply MemoryStore Unit :=
  let s := { s with updateCalls := s.updateCalls + 1 }
  if s.failingUpdates > 0 then
    .of (.error (.transient "simulated update failure")) { s with failingUpdates := s.failingUpdates - 1 }
  else match updateTopics us s.topics with
    | (ts, some id) => .of (.error (.notFound "topic" id)) { s with topics := ts }
    | (ts, none) => .of (.ok ()) { s with topics := ts.map (updateCopies us) }

/-! ## The store -/

/-- What was found, or the error that says what was not. -/
def found {α : Type} (kind : String) (id : Int) : Option α → Except StoreError α
  | some a => .ok a
  | none => .error (.notFound kind id)

/-- The calls of a store in memory. -/
def store : TopicStore MemoryStore where
  topics ids s := .of (.ok (ids.filterMap s.topic?)) s
  translations ids locale s := .of (.ok (ids.filterMap (s.translation? locale))) s
  withProperty id value s :=
    .of (.ok ((s.topics.filter fun t => t.properties.any fun p => p.id == id && p.value == value).map (·.id))) s
  update := update
  text id s := .of (found "string constant" id (lookup? s.texts id)) s
  blob id s := .of (found "blob constant" id (lookup? s.blobs id)) s
  image id s := .of (.ok (lookup? s.images id)) s
  author id s := .of (.ok (lookup? s.authors id)) s
  tagsNamed name s := .of (.ok (s.tags.filter fun t => t.name == name)) s

end MemoryStore
end Bookbinder
