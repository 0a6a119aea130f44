import Bookbinder.Text.Escape
/-!
# XML trees

Nodes keep their text as it was written: entity references are not expanded, and attribute values stay escaped.
What the library itself adds goes through `Node.ofText` and `Element.with`, which escape.  `Element` is an element taken
out of its node; `toXml` writes a tree back without a change.
-/
namespace Bookbinder
namespace Xml

/-- Names with raw values, in the order in which they were written. -/
abbrev Attributes := List (String × String)

/-- One node of a tree. -/
inductive Node where
  | element (name : String) (attributes : Attributes) (children : List Node)
  | text (raw : String)
  | cdata (content : String)
  | comment (content : String)
  | instruction (content : String)
deriving Inhabited

/-- An element: its name, its attributes and what it holds. -/
structure Element where
  name : String
  attributes : Attributes := []
  children : List Node := []

def Element.toNode (e : Element) : Node :=
  .element e.name e.attributes e.children

instance : Coe Element Node := ⟨Element.toNode⟩

/-- The element that a node is, if it is one. -/
def Node.element? : Node → Option Element
  | .element name attributes children => some ⟨name, attributes, children⟩
  | _ => none

/-! ## Attributes -/

namespace Attributes

/-- The value of the first attribute of a name. -/
def get? (as : Attributes) (name : String) : Option String :=
  (as.find? (fun a => a.1 == name)).map (·.2)

/-- The first attribute of the name gets the value; if there is none, it is added at the end. -/
def set (name value : String) : Attributes → Attributes
  | [] => [(name, value)]
  | a :: as => if a.1 = name then (name, value) :: as else a :: set name value as

end Attributes

namespace Element

/-- An element with neither attributes nor children. -/
def ofName (name : String) : Element := ⟨name, [], []⟩

/-- The raw value of an attribute. -/
def attribute? (e : Element) (name : String) : Option String :=
  e.attributes.get? name

/-- The element with an attribute set to a raw value. -/
def set (e : Element) (name raw : String) : Element :=
  ⟨e.name, e.attributes.set name raw, e.children⟩

/-- The element with an attribute set to a value, which is escaped. -/
def withAttribute (e : Element) (name value : String) : Element :=
  e.set name (Text.escape value)

end Element

/-- The text node that reads as the given text. -/
def Node.ofText (s : String) : Node :=
  .text (Text.escape s)

namespace Element

def withChild (e : Element) (n : Node) : Element :=
  ⟨e.name, e.attributes, e.children ++ [n]⟩

/-- The element with a last child that reads as the given text. -/
def withText (e : Element) (s : String) : Element :=
  e.withChild (.ofText s)

end Element

/-! ## Writing -/

/-- Attributes as they stand in a tag, a space before each. -/
def attributesXml : Attributes → String
  | [] => ""
  | (key, value) :: as => " " ++ key ++ "=\"" ++ value ++ "\"" ++ attributesXml as

mutual

/-- A node as it is written.  An element without children is written as one empty tag. -/
def Node.toXml : Node → String
  | .element name attributes [] => "<" ++ name ++ attributesXml attributes ++ "/>"
  | .element name attributes (n :: ns) =>
    "<" ++ name ++ attributesXml attributes ++ ">" ++ n.toXml ++ nodesXml ns ++ "</" ++ name ++ ">"
  | .text raw => raw
  | .cdata content => "<![CDATA[" ++ content ++ "]]>"
  | .comment content => "<!--" ++ content ++ "-->"
  | .instruction content => "<?" ++ content ++ "?>"

/-- Nodes as they are written, one after the other. -/
def nodesXml : List Node → String
  | [] => ""
  | n :: ns => n.toXml ++ nodesXml ns

end

namespace Element

def toXml (e : Element) : String :=
  e.toNode.toXml

/-- What stands between the element's tags. -/
def innerXml (e : Element) : String :=
  nodesXml e.children

end Element

/-! ## Walking -/

mutual

/-- The elements of a node, each before those inside it. -/
def Node.elements : Node → List Element
  | .element name attributes children => ⟨name, attributes, children⟩ :: nodesElements children
  | _ => []

def nodesElements : List Node → List Element
  | [] => []
  | n :: ns => n.elements ++ nodesElements ns

end

mutual

/-- The comments of a node, in document order. -/
def Node.comments : Node → List String
  | .comment content => [content]
  | .element _ _ children => nodesComments children
  | _ => []

def nodesComments : List Node → List String
  | [] => []
  | n :: ns => n.comments ++ nodesComments ns

end

namespace Element

/-- The element and the elements below it, each before those inside it. -/
def elements (e : Element) : List Element :=
  e :: nodesElements e.children

def comments (e : Element) : List String :=
  nodesComments e.children

/-- The values of an attribute in the element and below, in document order. -/
def attributeValues (e : Element) (name : String) : List String :=
  e.elements.filterMap (·.attribute? name)

end Element

/-! ## Editing -/

section Fold

variable {σ : Type}

mutual

/-- Every element's attributes rewritten, each before those inside it, with a state that is carried along. -/
def Node.mapAttributes (f : String → Attributes → σ → Attributes × σ) : Node → σ → Node × σ
  | .element name attributes children, s =>
    let (attributes', s) := f name attributes s
    let (children', s) := nodesMapAttributes f children s
    (.element name attributes' children', s)
  | n, s => (n, s)

def nodesMapAttributes (f : String → Attributes → σ → Attributes × σ) : List Node → σ → List Node × σ
  | [], s => ([], s)
  | n :: ns, s =>
    let (n', s) := n.mapAttributes f s
    let (ns', s) := nodesMapAttributes f ns s
    (n' :: ns', s)

end

mutual

/-- A node with its comments replaced: `f` is given each comment in document order, and either keeps it or names the
nodes that take its place.  Those nodes are not looked into. -/
def Node.replaceComments (f : String → σ → Option (List Node) × σ) : Node → σ → List Node × σ
  | .comment content, s =>
    match f content s with
    | (some nodes, s) => (nodes, s)
    | (none, s) => ([.comment content], s)
  | .element name attributes children, s =>
    let (children', s) := nodesReplaceComments f children s
    ([.element name attributes children'], s)
  | n, s => ([n], s)

def nodesReplaceComments (f : String → σ → Option (List Node) × σ) : List Node → σ → List Node × σ
  | [], s => ([], s)
  | n :: ns, s =>
    let (n', s) := n.replaceComments f s
    let (ns', s) := nodesReplaceComments f ns s
    (n' ++ ns', s)

end

namespace Element

/-- The attributes of the element and of all below it rewritten, each before those inside it. -/
def mapAttributes (f : String → Attributes → σ → Attributes × σ) (e : Element) (s : σ) : Element × σ :=
  let (attributes', s) := f e.name e.attributes s
  let (children', s) := nodesMapAttributes f e.children s
  (⟨e.name, attributes', children'⟩, s)

/-- The comments below the element replaced, in document order. -/
def replaceComments (f : String → σ → Option (List Node) × σ) (e : Element) (s : σ) : Element × σ :=
  let (children', s) := nodesReplaceComments f e.children s
  (⟨e.name, e.attributes, children'⟩, s)

end Element

/-- What replaces a comment, given how many came before, as something that counts the comments itself. -/
def numbered (f : Nat → String → σ → Option (List Node) × σ) (body : String) (s : Nat × σ) :
    Option (List Node) × (Nat × σ) :=
  let (nodes, t) := f s.1 body s.2
  (nodes, s.1 + 1, t)

/-- The comments below the element replaced, in document order, each with the number of those before it in view. -/
def Element.replaceNumbered (f : Nat → String → σ → Option (List Node) × σ) (e : Element) (s : σ) : Element × σ :=
  let (e', _, s) := e.replaceComments (numbered f) (0, s)
  (e', s)

end Fold

mutual

/-- A node without the elements below it that are not to be kept; nothing if it is such an element itself. -/
def Node.retain (keep : Element → Bool) : Node → List Node
  | .element name attributes children =>
    if keep ⟨name, attributes, children⟩ then [.element name attributes (nodesRetain keep children)] else []
  | n => [n]

def nodesRetain (keep : Element → Bool) : List Node → List Node
  | [] => []
  | n :: ns => n.retain keep ++ nodesRetain keep ns

end

/-- Whether a node is an element of a name. -/
def Node.isNamed (name : String) (n : Node) : Bool :=
  match n with
  | .element name' _ _ => name' == name
  | _ => false

namespace Element

/-- The element without the elements below it that are not to be kept. -/
def retain (keep : Element → Bool) (e : Element) : Element :=
  ⟨e.name, e.attributes, nodesRetain keep e.children⟩

/-- The first child element of a name. -/
def firstChild? (e : Element) (name : String) : Option Element :=
  (e.children.find? (·.isNamed name)).bind Node.element?

/-- The element without its first child element of a name. -/
def dropFirstChild (e : Element) (name : String) : Element :=
  ⟨e.name, e.attributes, e.children.eraseP (·.isNamed name)⟩

end Element

end Xml
end Bookbinder
