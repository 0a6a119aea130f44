import Bookbinder.ContentSpec
import Bookbinder.Dtd
import Bookbinder.IdLedger
import Bookbinder.Press
import Bookbinder.ProblemLog
import Bookbinder.Registry
/-!
# Drafts

A draft is a book in the making: what was asked for, the registered outline, the topics, and what has been found out
about them so far.  A bindery is what drafts are made with.
-/
namespace Bookbinder

/-- A document whose root has an id. -/
def Xml.Document.withRootId (d : Document) (id : String) : Document :=
  { d with root := d.root.withAttribute "id" id }

/-- What books are made with. -/
structure Bindery (σ : Type) where
  store : TopicStore σ
  renderer : Renderer σ := Renderer.pages
  validator : Validator := .dtd none
  /-- The time, for books that are given none. -/
  now : Calendar.Instant

structure Draft where
  spec : ContentSpec
  settings : Settings
  /-- Who the revision history names. -/
  requester : Option String
  locale : String
  /-- The outline with its steps and repeat numbers. -/
  outline : Level
  registry : Registry
  /-- The topics referred to, one for each id. -/
  topics : List Topic
  /-- Whether links use stable addresses. -/
  stable : Bool
  problems : ProblemLog
  ledger : IdLedger := {}
  validator : Validator

namespace Draft

/-- The book's title as the name of its files. -/
def name (d : Draft) : String :=
  Slug.escape d.spec.title

/-! ## Problems -/

def warn (d : Draft) (t : Topic) (message : String) : Draft :=
  { d with problems := d.problems.warn t message }

def error (d : Draft) (t : Topic) (message : String) : Draft :=
  { d with problems := d.problems.error t message }

def warnAll (d : Draft) (t : Topic) (messages : List String) : Draft :=
  messages.foldl (warn · t) d

def errorAll (d : Draft) (t : Topic) (messages : List String) : Draft :=
  messages.foldl (error · t) d

/-! ## Pages -/

/-- What the pages that stand in for a topic are rendered from. -/
def standInContext (d : Draft) (t : Topic) : Template.Context :=
  [("topic_id", .int t.sourceId), ("show_errors_page", .bool !d.settings.suppressErrorsPage),
    ("topic_error_xref", .text t.problemXrefId)]

/-- What the page of an occurrence of a topic is rendered from. -/
def topicContext (t : Topic) (linkId : String) : Template.Context :=
  [("title", .text t.title), ("topic_id", .int t.sourceId), ("topic_revision", .int t.sourceRevision),
    ("section_id", .text linkId)]

end Draft

end Bookbinder
