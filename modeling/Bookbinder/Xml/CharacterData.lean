import Bookbinder.Text.Find
/-!
# Character data

CDATA sections that hold any text, and the characters that an XML 1.0 document may hold at all.
-/
namespace Bookbinder
namespace Xml

/-- The text with every `]]>` spread over two CDATA sections. -/
def splitTerminators (cs : List Char) : List Char :=
  Text.replaceAll "]]>".toList "]]]]><![CDATA[>".toList cs

/-- CDATA sections that together hold the text. -/
def wrapInCdata (s : String) : String :=
  "<![CDATA[" ++ String.ofList (splitTerminators s.toList) ++ "]]>"

/-- A character that XML 1.0 allows. -/
def isLegal (c : Char) : Bool :=
  c == '\t' || c == '\n' || c == '\r' || (0x20 ≤ c.toNat && c.toNat ≤ 0xD7FF)
    || (0xE000 ≤ c.toNat && c.toNat ≤ 0xFFFD) || 0x10000 ≤ c.toNat

/-- The text without the characters that XML 1.0 does not allow. -/
def cleanText (s : String) : String :=
  String.ofList (s.toList.filter isLegal)

end Xml
end Bookbinder
