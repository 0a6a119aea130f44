import Bookbinder.Text.Blank
import Bookbinder.Text.Find
import Bookbinder.Text.Replacement
/-!
# The publisher's configuration

The file that tells Publican how a book is to be published: a base text with the book's brand and language put in, and
more lines at its end.
-/
namespace Bookbinder
namespace PublicanConfig

/-- What stands for the brand in a base text. -/
def brandPlaceholder : String := "<<contentSpec.brand>>"

/-- A base text with the brand in every place for it. -/
def withBrand (brand : String) (base : List Char) : List Char :=
  let placeholder := brandPlaceholder.toList
  Text.replaceAll placeholder (Replacement.expand placeholder brand.toList) base

def languageKey : String := "xml_lang:"

/-- What follows the rest of a line, its end included. -/
def afterLine (cs : List Char) : List Char × List Char :=
  match cs.dropWhile fun c => c != '\r' && c != '\n' with
  | '\r' :: '\n' :: r => (['\r', '\n'], r)
  | '\n' :: r => (['\n'], r)
  | r => ([], r)

/-- A text that ends in a line break, unless it is empty. -/
def closed (cs : List Char) : List Char :=
  if cs.isEmpty || cs.getLast? = some '\n' then cs else cs ++ ['\n']

/-- A text with one more line. -/
def addLine (cs : List Char) (line : String) : List Char :=
  closed cs ++ line.toList ++ ['\n']

/-- A text with the book's language: in place of the first setting for it, else as one more line. -/
def withLanguage (locale : String) (cs : List Char) : List Char :=
  let setting := languageKey ++ " " ++ locale
  match Text.cut? languageKey.toList cs with
  | some (before, rest) =>
    let (ending, rest) := afterLine rest
    before ++ setting.toList ++ ending ++ rest
  | none => addLine cs setting

/-- The configuration from a base text. -/
def text (base brand locale : String) (more : List String) : String :=
  String.ofList (more.foldl addLine (withLanguage locale (withBrand brand base.toList)))

end PublicanConfig
end Bookbinder
