import Bookbinder.Book.Draft
/-!
# Manuscripts

Each topic of a book is read once, as its author wrote it, and given to all references to it.  A topic that has no XML,
or XML that cannot be read, is published as a page that says so.
-/
namespace Bookbinder

/-- What a topic's XML comes to. -/
inductive Manuscript where
  | empty
  | malformed (cause : Xml.XmlError)
  | document (d : Xml.Document)

namespace Manuscript

def of (t : Topic) : Manuscript :=
  if Text.allBlank t.xml then .empty
  else match Xml.Document.read t.xml with
    | .ok d => .document d
    | .error e => .malformed e

def emptyMessage : String := "This topic has no XML data"

def malformedMessage (cause : Xml.XmlError) : String :=
  "This topic doesn't have well-formed xml. The error is <emphasis>" ++ Text.escape cause.message ++ "</emphasis>"

end Manuscript

namespace Draft

variable {σ : Type}

/-- A reference's entry with its topic, and what the topic comes to. -/
def attachTo (stable : Bool) (t : Topic) (document : Option Xml.Document) (outcome : Outcome) (e : TopicEntry) :
    TopicEntry :=
  let e := { e with topic := some t, document, outcome }
  { e with context := some (topicContext t (e.linkId stable)) }

/-- A topic, and what it comes to, given to all references to it. -/
def attach (d : Draft) (t : Topic) (document : Option Xml.Document) (outcome : Outcome) : Draft :=
  let give := fun e : TopicEntry =>
    if e.ref.topicId = t.sourceId then attachTo d.stable t document outcome e else e
  { d with registry := { d.registry with entries := d.registry.entries.map give } }

/-- One topic read, and its ids recorded. -/
def readTopic (b : Bindery σ) (d : Draft) (t : Topic) : Press σ Draft := do
  Press.check
  match Manuscript.of t with
  | .empty =>
    let d := d.warn t Manuscript.emptyMessage
    let page ← Press.render b.renderer .emptyTopic (d.standInContext t)
    return d.attach t none (.fallback page)
  | .malformed cause =>
    let d := d.error t (Manuscript.malformedMessage cause)
    let page ← Press.render b.renderer .failedValidation (d.standInContext t)
    return d.attach t none (.fallback page)
  | .document doc =>
    let doc := doc.withRootId (t.linkId d.stable)
    return { d with ledger := d.ledger.record t.sourceId doc.root }.attach t (some doc) .pending

/-- All topics read, in their order. -/
def readTopics (b : Bindery σ) (d : Draft) : Press σ Draft :=
  d.topics.foldlM (readTopic b) d

end Draft
end Bookbinder
