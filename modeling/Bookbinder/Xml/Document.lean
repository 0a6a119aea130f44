import Bookbinder.Xml.Markup
import Bookbinder.Xml.Tag
/-!
# XML documents

A document is one element with an optional declaration and document type before it.  `Document.read` nests the pieces
of a text into that element and refuses elements that do not match, a second root, and text outside the root;
`Document.toXml` writes a document back.
-/
namespace Bookbinder
namespace Xml

structure Document where
  /-- Whether an XML declaration was seen. -/
  declared : Bool := false
  /-- The body of the document type declaration. -/
  doctype : Option String := none
  root : Element

namespace Document

def ofRoot (root : Element) : Document := ⟨false, none, root⟩

/-- The document as it is written. -/
def toXml (d : Document) : String :=
  (if d.declared then "<?xml version=\"1.0\" encoding=\"UTF-8\"?>\n" else "")
    ++ (match d.doctype with
      | some body => "<!DOCTYPE " ++ body ++ ">\n"
      | none => "")
    ++ d.root.toXml

end Document

/-! ## Nesting -/

/-- What has been read so far: the open elements from the innermost out, their children from the last back, and the
root once it is complete. -/
structure Reading where
  declared : Bool := false
  doctype : Option String := none
  opened : List Element := []
  root : Option Element := none

namespace Reading

/-- A node where the reading stands: a child of the innermost open element, or outside the root, where only one
element may stand and blank text, comments and instructions are let go. -/
def attach (r : Reading) (n : Node) : Except NestingError Reading :=
  match r.opened with
  | e :: es => .ok { r with opened := ⟨e.name, e.attributes, n :: e.children⟩ :: es }
  | [] => match n with
    | .element name attributes children =>
      if r.root.isSome then .error (.secondRoot name) else .ok { r with root := some ⟨name, attributes, children⟩ }
    | .text raw => if Text.allBlank raw then .ok r else .error .textOutside
    | .cdata _ => .error .cdataOutside
    | _ => .ok r

/-- A node where the reading stands, or the fault that makes the text no document. -/
def add (r : Reading) (n : Node) : Except XmlError Reading :=
  match r.attach n with
  | .ok r => .ok r
  | .error e => .error (.nesting e)

/-- An element whose tag's content is given. -/
def tagged (content : List Char) : Except XmlError Element :=
  match Tag.element content with
  | .ok e => .ok e
  | .error e => .error (.attribute e)

/-- The innermost open element is closed by an end tag of its own name. -/
def close (r : Reading) (name : String) : Except XmlError Reading :=
  match r.opened with
  | [] => .error (.markup (.unmatchedEnd name))
  | e :: es =>
    if e.name = name then { r with opened := es }.add (.element e.name e.attributes e.children.reverse)
    else .error (.markup (.mismatchedEnd e.name name))

/-- The reading after one more piece. -/
def step (r : Reading) : Markup → Except XmlError Reading
  | .text raw => r.add (.text (String.ofList raw))
  | .reference name => r.add (.text ("&" ++ String.ofList name ++ ";"))
  | .opening content => do
    let e ← tagged content
    return { r with opened := e :: r.opened }
  | .empty content => do
    let e ← tagged content
    r.add e.toNode
  | .closing name => r.close (String.ofList name)
  | .cdata content => r.add (.cdata (String.ofList content))
  | .comment content => r.add (.comment (String.ofList content))
  | .instruction content => r.add (.instruction (String.ofList content))
  | .declaration => .ok { r with declared := true }
  | .doctype content => .ok { r with doctype := some (String.ofList (Text.trimChars content)) }

/-- The document read, once the text has ended. -/
def finish (r : Reading) : Except XmlError Document :=
  match r.opened, r.root with
  | e :: _, _ => .error (.nesting (.neverClosed e.name))
  | [], none => .error .noRoot
  | [], some root => .ok ⟨r.declared, r.doctype, root⟩

/-- The document that a reading and the rest of the text make. -/
def run (r : Reading) (cs : List Char) : Except XmlError Document :=
  match cs with
  | [] => r.finish
  | c :: cs => match h : Markup.next c cs with
    | .error e => .error (.markup e)
    | .ok (m, rest) =>
      have : rest.length ≤ cs.length := Markup.length_le_of_next h
      match r.step m with
      | .error e => .error e
      | .ok r => r.run rest
termination_by cs.length

end Reading

/-- A text without the byte order mark in front. -/
def dropMark : List Char → List Char
  | '\uFEFF' :: cs => cs
  | cs => cs

/-- The document that a text writes, or the first fault in it. -/
def Document.read (s : String) : Except XmlError Document :=
  ({} : Reading).run (dropMark s.toList)

end Xml
end Bookbinder
