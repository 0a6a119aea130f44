import Bookbinder.Text.Blank
import Bookbinder.Text.Decimal
/-!
# Injection markers

A comment of a topic is a marker if its whole text reads `Keyword: id, id, …`, where an id may stand after `OPT:` and
a last comma is allowed.  `Marker.read?` takes exactly such texts; a comment that is anything else is no marker.
-/
namespace Bookbinder

/-- What a marker asks for. -/
inductive MarkerKind where
  /-- An ordered list of links. -/
  | sequence
  /-- An itemized list of links. -/
  | list
  /-- List items with links, to stand in a list of the topic's own. -/
  | listItems
  /-- An itemized list of links sorted by title. -/
  | sortedList
  /-- One link within a sentence. -/
  | single
  /-- The body of a related topic. -/
  | text
  /-- The title of a related topic. -/
  | title
deriving DecidableEq, Repr

namespace MarkerKind

def all : List MarkerKind := [sequence, list, listItems, sortedList, single, text, title]

def keyword : MarkerKind → String
  | sequence => "InjectSequence"
  | list => "InjectList"
  | listItems => "InjectListItems"
  | sortedList => "InjectListAlphaSort"
  | single => "Inject"
  | text => "InjectText"
  | title => "InjectTitle"

def ofKeyword? (word : String) : Option MarkerKind :=
  all.find? fun k => k.keyword == word

/-- Whether the marker gives way to links to other topics of the book. -/
def isLink : MarkerKind → Bool
  | text | title => false
  | _ => true

/-- Whether the marker names exactly one topic. -/
def takesOne : MarkerKind → Bool
  | single | text | title => true
  | _ => false

end MarkerKind

/-- A topic named by a marker. -/
structure MarkerId where
  topicId : Int
  isOptional : Bool
deriving DecidableEq, Repr

structure Marker where
  kind : MarkerKind
  ids : List MarkerId
deriving DecidableEq, Repr

namespace Marker

/-! ## Tokens -/

inductive Token where
  | word (letters : List Char)
  | number (n : Nat)
  | colon
  | comma
deriving DecidableEq, Repr

/-- White space between tokens: space, tab, line feed, form feed and carriage return. -/
def isGap (c : Char) : Bool :=
  c == ' ' || c == '\t' || c == '\n' || c == '\x0C' || c == '\r'

/-- The tokens of a text, if it holds nothing else.  A number has to fit in 64 signed bits. -/
def tokens? (cs : List Char) : Option (List Token) :=
  match cs with
  | [] => some []
  | c :: cs =>
    if isGap c then tokens? cs
    else if c = ':' then (tokens? cs).map (.colon :: ·)
    else if c = ',' then (tokens? cs).map (.comma :: ·)
    else if c.isDigit then
      have := (List.dropWhile_sublist Char.isDigit (l := cs)).length_le
      let n := Decimal.ofDigits (c :: cs.takeWhile Char.isDigit)
      if n < Decimal.signedLimit then (tokens? (cs.dropWhile Char.isDigit)).map (.number n :: ·) else none
    else if c.isAlpha then
      have := (List.dropWhile_sublist Char.isAlpha (l := cs)).length_le
      (tokens? (cs.dropWhile Char.isAlpha)).map (.word (c :: cs.takeWhile Char.isAlpha) :: ·)
    else none
termination_by cs.length

/-! ## Grammar -/

/-- The ids that tokens name: one or more, with commas between them, and perhaps one after the last. -/
def ids? : List Token → Option (List MarkerId)
  | .word ['O', 'P', 'T'] :: .colon :: .number n :: ts => more ⟨n, true⟩ ts
  | .number n :: ts => more ⟨n, false⟩ ts
  | _ => none
where
  /-- The ids after the first one. -/
  more (first : MarkerId) : List Token → Option (List MarkerId)
    | [] => some [first]
    | [.comma] => some [first]
    | .comma :: .word ['O', 'P', 'T'] :: .colon :: .number n :: ts => (more ⟨n, true⟩ ts).map (first :: ·)
    | .comma :: .number n :: ts => (more ⟨n, false⟩ ts).map (first :: ·)
    | _ => none

/-- The marker that tokens write. -/
def ofTokens? : List Token → Option Marker
  | .word letters :: .colon :: ts => do
    let kind ← MarkerKind.ofKeyword? (String.ofList letters)
    let ids ← ids? ts
    if kind.takesOne && ids.length != 1 then none else some ⟨kind, ids⟩
  | _ => none

/-- The marker that a comment is, if it is one. -/
def read? (comment : String) : Option Marker :=
  (tokens? (Text.trimChars comment.toList)).bind ofTokens?

def topicIds (m : Marker) : List Int :=
  m.ids.map (·.topicId)

end Marker
end Bookbinder
