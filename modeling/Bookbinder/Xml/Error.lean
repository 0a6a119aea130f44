/-!
# Why a text is no XML document

Three kinds of faults: in a piece of markup, in a tag's attributes, and in how the pieces are nested.  Each fault is a
cause; `message` words it.
-/
namespace Bookbinder
namespace Xml

/-- A piece of markup that cannot be read, or an end tag that closes nothing. -/
inductive MarkupError where
  | referenceNotClosed
  | tagNotClosed
  | valueNotClosed (quote : Char)
  | mismatchedEnd (expected found : String)
  | unmatchedEnd (found : String)
  | unknownMarkup
  | cdataNotClosed
  | commentNotClosed
  | doctypeNotClosed
  | doctypeWithoutName
  | instructionNotClosed
  | declarationNotClosed
deriving DecidableEq, Repr

/-- A tag's attribute that cannot be read.  Positions count bytes from the tag's name. -/
inductive AttributeError where
  | expectedEquals (position : Nat)
  | expectedValue (position : Nat)
  | unquotedValue (position : Nat)
  | expectedQuote (position : Nat) (quote : Char)
  | duplicate (position earlier : Nat)
deriving DecidableEq, Repr

/-- Pieces that are well-formed each but make no tree. -/
inductive NestingError where
  | secondRoot (name : String)
  | textOutside
  | cdataOutside
  | neverClosed (name : String)
deriving DecidableEq, Repr

inductive XmlError where
  | markup (cause : MarkupError)
  | attribute (cause : AttributeError)
  | nesting (cause : NestingError)
  | noRoot
deriving DecidableEq, Repr

namespace MarkupError

/-- Wording for a piece of markup that the input ends in. -/
private def notClosed (what sign : String) : String :=
  "syntax error: " ++ what ++ " not closed: `" ++ sign ++ "` not found before end of input"

def message : MarkupError → String
  | referenceNotClosed =>
    "ill-formed document: entity or character reference not closed: `;` not found before end of input"
  | tagNotClosed => notClosed "tag" ">"
  | valueNotClosed quote => notClosed "attribute value" quote.toString
  | mismatchedEnd expected found =>
    "ill-formed document: expected `</" ++ expected ++ ">`, but `</" ++ found ++ ">` was found"
  | unmatchedEnd found => "ill-formed document: close tag `</" ++ found ++ ">` does not match any open tag"
  | unknownMarkup => "syntax error: unknown or missed symbol in markup"
  | cdataNotClosed => notClosed "CDATA" "]]>"
  | commentNotClosed => notClosed "comment" "-->"
  | doctypeNotClosed => notClosed "DOCTYPE" ">"
  | doctypeWithoutName =>
    "ill-formed document: `<!DOCTYPE>` declaration does not contain a name of a document type"
  | instructionNotClosed => notClosed "processing instruction" "?>"
  | declarationNotClosed => notClosed "XML declaration" "?>"

end MarkupError

namespace AttributeError

private def located (position : Nat) (what : String) : String :=
  "position " ++ toString position ++ ": " ++ what

def message : AttributeError → String
  | expectedEquals p => located p "attribute key must be directly followed by `=` or space"
  | expectedValue p => located p "`=` must be followed by an attribute value"
  | unquotedValue p => located p "attribute value must be enclosed in `\"` or `'`"
  | expectedQuote p q => located p ("missing closing quote `" ++ q.toString ++ "` in attribute value")
  | duplicate p q => located p ("duplicated attribute, previous declaration at position " ++ toString q)

end AttributeError

namespace NestingError

def message : NestingError → String
  | secondRoot name => "second root element <" ++ name ++ ">"
  | textOutside => "text outside of the root element"
  | cdataOutside => "CDATA outside of the root element"
  | neverClosed name => "element <" ++ name ++ "> is never closed"

end NestingError

def XmlError.message : XmlError → String
  | .markup cause => cause.message
  | .attribute cause => "malformed attribute: " ++ cause.message
  | .nesting cause => "malformed document: " ++ cause.message
  | .noRoot => "document has no root element"

end Xml
end Bookbinder
