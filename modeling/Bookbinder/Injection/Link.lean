import Bookbinder.DocBook
import Bookbinder.Registry
/-!
# Links between topics

Where the id of a topic leads: to an id inside the book, the occurrence nearest to the link, or to a URL for a topic
that stands alone.
-/
namespace Bookbinder

inductive Link where
  /-- A cross reference to an id of the book. -/
  | xref (target : String)
  | ulink (url : String)
deriving DecidableEq, Repr, Inhabited

/-- The link as an element; a URL shows the title. -/
def Link.element (title : String) : Link → Xml.Element
  | .xref target => DocBook.xref target
  | .ulink url => DocBook.ulink url title

def Link.value : Link → Template.Value
  | .xref target => .record [("target", .text target), ("type", .text "xref")]
  | .ulink url => .record [("target", .text url), ("type", .text "ulink")]

/-- A link with the title of what it leads to. -/
structure RelatedLink where
  link : Link
  title : String
deriving DecidableEq, Repr, Inhabited

def RelatedLink.value (l : RelatedLink) : Template.Value :=
  .record [("link", l.link.value), ("title", .text l.title)]

/-- What topic ids lead to. -/
structure LinkTargets where
  /-- Whether the topic takes part in what is built. -/
  contains : Int → Bool
  link? : Int → Option Link
  /-- A title that is better than the one a relation's copy carries. -/
  title? : Int → Option String

namespace LinkTargets

/-- The links of a topic outside any book. -/
def standalone (baseUrl : String) : LinkTargets :=
  ⟨fun _ => true, fun id => some (.ulink (baseUrl ++ toString id)), fun _ => none⟩

/-- The links of the reference at a step of a book. -/
def book (r : Registry) (stable : Bool) (start : Nat) : LinkTargets :=
  ⟨r.containsTopic, fun id => (r.closest? id start).map fun e => .xref (e.linkId stable),
    fun id => (r.closest? id start).map (·.title)⟩

end LinkTargets
end Bookbinder
