import Bookbinder.Topic
/-!
# Topic stores

Where a build gets its topics and keeps their addresses.  A store is a set of calls on a state; a call may fail, it may
change the state, and the build may be cancelled while it runs.  All that is part of its reply.
-/
namespace Bookbinder

inductive StoreError where
  | transient (text : String)
  | notFound (kind : String) (id : Int)
  | rejected (text : String)
deriving DecidableEq, Repr, Inhabited

def StoreError.message : StoreError → String
  | transient text => "transient store failure: " ++ text
  | notFound kind id => kind ++ " " ++ toString id ++ " not found"
  | rejected text => "store rejected request: " ++ text

/-- A property to be added to a topic, with stale ones to be dropped. -/
structure PropertyUpdate where
  topicId : Int
  add : Property
  remove : List Property
deriving DecidableEq, Repr, Inhabited

/-- What is known of a writer. -/
structure Author where
  id : Int
  firstName : String
  lastName : String
  email : Option String := none
  organization : Option String := none
  division : Option String := none
deriving DecidableEq, Repr, Inhabited

/-- What a call gives back: its result, the store after it, and whether the build was cancelled meanwhile. -/
structure Reply (σ α : Type) where
  result : Except StoreError α
  state : σ
  cancelled : Bool := false

/-- A call of a store. -/
abbrev StoreCall (σ α : Type) := σ → Reply σ α

/-- The calls that a build needs. -/
structure TopicStore (σ : Type) where
  /-- The topics of ids, those it does not have left out. -/
  topics : List Int → StoreCall σ (List Topic)
  /-- The translations of topics into a locale. -/
  translations : List Int → String → StoreCall σ (List Topic)
  /-- The ids of the topics with a property of exactly this value. -/
  withProperty : Int → String → StoreCall σ (List Int)
  /-- Changes of properties, in one batch. -/
  update : List PropertyUpdate → StoreCall σ Unit
  /-- A text that builds need. -/
  text : Int → StoreCall σ String
  /-- A file that builds need. -/
  blob : Int → StoreCall σ ByteArray
  image : Int → StoreCall σ (Option ByteArray)
  /-- The writer that a tag names. -/
  author : Int → StoreCall σ (Option Author)
  tagsNamed : String → StoreCall σ (List Tag)

/-- A call that leaves the store as it is. -/
def Reply.of {σ α : Type} (result : Except StoreError α) (state : σ) : Reply σ α :=
  ⟨result, state, false⟩

/-- The store without any knowledge of writers. -/
def TopicStore.withoutAuthors {σ : Type} (s : TopicStore σ) : TopicStore σ :=
  { s with
    author := fun _ => Reply.of (.ok none)
    tagsNamed := fun _ => Reply.of (.ok []) }

/-! ## Well-known files and texts -/

namespace ConstantId

/-- The definition that topics are validated against. -/
def docbookDtd : Int := 9
/-- The publisher's configuration to start from. -/
def publicanCfg : Int := 15
def icon : Int := 5
/-- The image that stands in for those that cannot be found. -/
def placeholderImage : Int := 6

end ConstantId

/-- Texts that go with books in the Skynet style, with their places in the locale's folder. -/
def skynetTexts : List (Int × String) :=
  [(18, "images/jboss.svg"), (19, "files/yahoo-dom-event.js"), (20, "files/treeview-min.js"),
    (21, "files/treeview.css"), (22, "files/jquery.min.js")]

/-- Files that go with books in the Skynet style, with their places in the locale's folder. -/
def skynetBlobs : List (Int × String) :=
  [(23, "files/treeview-sprite.gif"), (24, "files/treeview-loading.gif")]

end Bookbinder
