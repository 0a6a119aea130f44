import Bookbinder.Address
import Bookbinder.Book.Body
import Bookbinder.Book.References
import Bookbinder.Translation
/-!
# Binding a book

A content specification is made into an archive: its outline is registered, the topics are fetched, every topic is read
and every reference worked out, the images are collected, and the files are written.
-/
namespace Bookbinder

/-- What is told about a book besides its files. -/
structure BookStats where
  /-- How many topics were fetched. -/
  topics : Nat
  /-- How many references the outline has. -/
  references : Nat
  errors : Nat
  warnings : Nat
  images : Nat
  /-- Whether links use stable addresses. -/
  stable : Bool
deriving DecidableEq, Repr, Inhabited

structure Book where
  archive : Archive
  stats : BookStats

namespace Bindery

variable {σ : Type}

/-- The topics of ids, each of which has to be among those found. -/
def gather (found : List Topic) : List Int → Press σ (List Topic)
  | [] => return []
  | id :: ids => do
    match found.find? fun t => t.id == id with
    | some t => return t :: (← gather found ids)
    | none => throw (.store (.notFound "topic" id))

/-- The topics of ids with stable addresses, and whether they could be given any. -/
def fetchTopics (b : Bindery σ) (settings : Settings) (ids : List Int) : Press σ (List Topic × Bool) := do
  let topics ← gather (← Press.ask (b.store.topics ids)) ids
  match ← Address.assign b.store settings.addressAttempts topics settings.addressRetries with
  | some topics => return (topics, true)
  | none => return (topics, false)

/-- One topic for each id in the book's language. -/
def fetch (b : Bindery σ) (settings : Settings) (ids : List Int) (locale : String) : Press σ (List Topic × Bool) := do
  if locale = settings.defaultLocale then fetchTopics b settings ids
  else return (← Translation.fetch b.store ids locale, true)

/-- The language of a book: its own, or the default. -/
def localeOf (spec : ContentSpec) (settings : Settings) : String :=
  if Text.allBlank spec.locale then settings.defaultLocale else spec.locale

/-- The registered outline with its topics. -/
def draft (b : Bindery σ) (spec : ContentSpec) (settings : Settings) (requester : Option String) : Press σ Draft := do
  let (outline, registry) := ({} : Registry).register spec.root
  if registry.isEmpty then throw (.noContent spec.title)
  let locale := localeOf spec settings
  let (topics, stable) ← b.fetch settings registry.topicIds locale
  return {
    spec, settings, requester, locale, outline, registry, topics, stable,
    problems := { locale }, validator := b.validator }

def book (d : Draft) (files : List File) (images : List Image) : Book where
  archive := .ofFiles files
  stats := {
    topics := d.topics.length
    references := d.registry.steps.length
    errors := d.problems.count .error
    warnings := d.problems.count .warning
    images := images.length
    stable := d.stable }

/-- A book from its content specification. -/
def bind (b : Bindery σ) (spec : ContentSpec) (settings : Settings) (requester : Option String) : Press σ Book := do
  if let some fault := settings.fault? then throw (.settings fault)
  Press.check
  let d ← b.draft spec settings requester
  let d ← d.readTopics b
  let d ← d.processReferences b
  let (d, images) ← d.collectImages b
  let files ← d.files b images
  Press.check
  return book d files images

end Bindery
end Bookbinder
