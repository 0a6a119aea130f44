import Bookbinder.Xml.Node
/-!
# DocBook elements

The few elements of DocBook that the library itself writes: links, lists, titles and paragraphs.
-/
namespace Bookbinder
namespace DocBook

open Xml (Element Node)

/-- A cross reference to an id. -/
def xref (linkend : String) : Element :=
  (Element.ofName "xref").withAttribute "linkend" linkend

/-- A link to a URL with a text. -/
def ulink (url text : String) : Element :=
  ((Element.ofName "ulink").withAttribute "url" url).withText text

def emphasis (text : String) : Element :=
  (Element.ofName "emphasis").withText text

def title (text : String) : Element :=
  (Element.ofName "title").withText text

def para (text : String) : Element :=
  (Element.ofName "para").withText text

/-- What stands before a link that need not be followed. -/
def optionalMark : String := "Optional: "

/-- A link, after the mark for optional links if it is one. -/
def markedLink (link : Element) (isOptional : Bool) : List Node :=
  if isOptional then [emphasis optionalMark, link] else [link]

/-- A list item with one paragraph. -/
def listItem (content : List Node) : Element :=
  ⟨"listitem", [], [.element "para" [] content]⟩

def orderedList (items : List Element) : Element :=
  ⟨"orderedlist", [], items.map Element.toNode⟩

def itemizedList (items : List Element) : Element :=
  ⟨"itemizedlist", [], items.map Element.toNode⟩

end DocBook
end Bookbinder
