import Bookbinder.Numeral
import Bookbinder.Text.Decimal
/-!
# Slugs

The address of a title: ASCII letters, digits, `_`, `.` and `-` only, no two underscores in a row, and no digit in
front.  Such a text can serve as a file name and as an XML id.
-/
namespace Bookbinder
namespace Slug

/-- A character that a slug may hold. -/
def isSlugChar (c : Char) : Bool :=
  c.isAlphanum || c == '_' || c == '.' || c == '-'

/-- A character that a slug may begin with once its number is in words. -/
def isWordChar (c : Char) : Bool :=
  c.isAlphanum || c == '_'

/-- Spaces become underscores and every character a slug cannot hold is dropped. -/
def escapeChars (cs : List Char) : List Char :=
  (cs.map fun c => if c = ' ' then '_' else c).filter isSlugChar

/-- A title made safe for file names and anchors. -/
def escape (title : String) : String :=
  String.ofList (escapeChars title.toList)

/-- A run of underscores becomes one. -/
def squeeze : List Char → List Char
  | '_' :: '_' :: cs => squeeze ('_' :: cs)
  | c :: cs => c :: squeeze cs
  | [] => []

/-- The first letter in upper case. -/
def capitalize : List Char → List Char
  | [] => []
  | c :: cs => c.toUpper :: cs

/-- A run of digits in words: the number it writes if that fits in 64 bits, else digit by digit. -/
def digitWords (ds : List Char) : String :=
  let n := Decimal.ofDigits ds
  if n < Decimal.unsignedLimit then Numeral.spell n
  else "-".intercalate (ds.map fun d => Numeral.ones (Decimal.digitValue d))

/-- A leading number is written in words and capitalized. -/
def spellLeadingNumber (cs : List Char) : List Char :=
  let ds := cs.takeWhile Char.isDigit
  if ds.isEmpty then cs else capitalize ((digitWords ds).toList ++ cs.dropWhile Char.isDigit)

/-- The slug's characters: what comes before the first letter, digit or underscore is dropped, a leading number is
written in words, and the rest is escaped. -/
def chars (title : List Char) : List Char :=
  squeeze (escapeChars (spellLeadingNumber (title.dropWhile fun c => !isWordChar c)))

/-- The slug of a title; empty if no character of the title can begin one. -/
def ofTitle (title : String) : String :=
  String.ofList (chars title.toList)

end Slug
end Bookbinder
