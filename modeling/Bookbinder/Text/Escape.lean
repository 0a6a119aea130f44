/-!
# Escaped text

The five characters that XML reserves are written as the predefined entities.  `escape` writes all five, so what it
writes can stand in text and in an attribute value of either quote.
-/
namespace Bookbinder
namespace Text

/-- How one character is written: `<`, `>`, `&`, `'` and `"` as entities, any other as itself. -/
def escapeChar : Char → List Char
  | '<' => ['&', 'l', 't', ';']
  | '>' => ['&', 'g', 't', ';']
  | '&' => ['&', 'a', 'm', 'p', ';']
  | '\'' => ['&', 'a', 'p', 'o', 's', ';']
  | '"' => ['&', 'q', 'u', 'o', 't', ';']
  | c => [c]

def escapeChars (cs : List Char) : List Char :=
  cs.flatMap escapeChar

/-- The text with the five reserved characters written as entities. -/
def escape (s : String) : String :=
  String.ofList (escapeChars s.toList)

theorem escapeChars_append (a b : List Char) : escapeChars (a ++ b) = escapeChars a ++ escapeChars b :=
  List.flatMap_append

theorem escape_append (a b : String) : escape (a ++ b) = escape a ++ escape b := by
  simp [escape, escapeChars_append]

end Text
end Bookbinder
