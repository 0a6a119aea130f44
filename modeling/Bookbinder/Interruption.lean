import Bookbinder.Press
/-!
# Interruptions

A store and pages that go wrong when they are told to: at the nth call of a kind the build is cancelled, or the call
fails.  What is not interrupted goes on as before.  This is how a build is tried out under failure.
-/
namespace Bookbinder

/-- The kinds of calls of a store. -/
inductive CallKind where
  | topics
  | translations
  | withProperty
  | update
  | text
  | blob
  | image
  | author
  | tagsNamed
deriving DecidableEq, Repr, Inhabited

namespace CallKind

def all : List CallKind := [topics, translations, withProperty, update, text, blob, image, author, tagsNamed]

/-- What a call is called in the errors that interrupt it. -/
def name : CallKind → String
  | topics => "topics"
  | translations => "translated_topics"
  | withProperty => "topics_with_property"
  | update => "update_topic_properties"
  | text => "string_constant"
  | blob => "blob_constant"
  | image => "image"
  | author => "author_information"
  | tagsNamed => "tags_by_name"

end CallKind

/-- What happens to a call. -/
inductive Incident where
  /-- The build is cancelled, and the call goes on. -/
  | cancel
  | transient
  | rejected
  | notFound
deriving DecidableEq, Repr, Inhabited

structure Interruption where
  call : CallKind
  /-- At which call of the kind, counted from one. -/
  nth : Nat
  incident : Incident
deriving DecidableEq, Repr, Inhabited

/-- A page that cannot be rendered: the nth time, or ever. -/
structure BrokenPage where
  file : String
  nth : Option Nat
deriving DecidableEq, Repr, Inhabited

/-- A store with the calls that it has had, and the pages that have been rendered. -/
structure Observed (σ : Type) where
  inner : σ
  calls : List CallKind := []
  pages : List String := []

namespace Interruption

variable {σ α : Type}

/-- What the interruptions do at the nth call of a kind: cancel or not, and fail or not.  The first one that fails a
call is the last one that counts. -/
def effect (plan : List Interruption) (call : CallKind) (nth : Nat) : Bool × Option StoreError :=
  match plan with
  | [] => (false, none)
  | i :: plan =>
    if i.call = call ∧ i.nth = nth then
      let text := call.name ++ " call " ++ toString nth
      match i.incident with
      | .cancel => (true, (effect plan call nth).2)
      | .transient => (false, some (.transient text))
      | .rejected => (false, some (.rejected text))
      | .notFound => (false, some (.notFound "thing" nth))
    else effect plan call nth

/-- A call that may be interrupted. -/
def interrupt (plan : List Interruption) (kind : CallKind) (f : StoreCall σ α) : StoreCall (Observed σ) α := fun s =>
  let calls := kind :: s.calls
  let (cancels, error) := effect plan kind (calls.count kind)
  match error with
  | some e => ⟨.error e, { s with calls }, cancels⟩
  | none =>
    let reply := f s.inner
    ⟨reply.result, { s with inner := reply.state, calls }, cancels || reply.cancelled⟩

/-- A store whose calls are interrupted according to a plan. -/
def store (plan : List Interruption) (inner : TopicStore σ) : TopicStore (Observed σ) where
  topics ids := interrupt plan .topics (inner.topics ids)
  translations ids locale := interrupt plan .translations (inner.translations ids locale)
  withProperty id value := interrupt plan .withProperty (inner.withProperty id value)
  update us := interrupt plan .update (inner.update us)
  text id := interrupt plan .text (inner.text id)
  blob id := interrupt plan .blob (inner.blob id)
  image id := interrupt plan .image (inner.image id)
  author id := interrupt plan .author (inner.author id)
  tagsNamed name := interrupt plan .tagsNamed (inner.tagsNamed name)

/-- Pages of which one may be broken. -/
def render (broken : Option BrokenPage) : Renderer (Observed σ) := fun file c s =>
  let pages := file :: s.pages
  let s := { s with pages }
  match broken with
  | none => (Template.render file c, s)
  | some b =>
    if b.file = file ∧ (b.nth = none ∨ b.nth = some (pages.count file)) then (.error (.refused file), s)
    else (Template.render file c, s)

end Interruption
end Bookbinder
