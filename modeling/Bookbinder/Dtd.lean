import Bookbinder.Xml.Document
/-!
# Document type definitions

The elements and attributes that a DTD declares, and whether a document uses only those.  Content models are not
enforced.  Parameter entities are expanded within declarations, at most sixteen deep.
-/
namespace Bookbinder

/-- The declared names; an attribute list stands by itself, and an element may have several. -/
structure Dtd where
  elements : List String := []
  attributes : List (String × List String) := []
deriving DecidableEq, Repr, Inhabited

namespace Dtd

open Text (cut? isBlank)

/-! ## Declarations -/

/-- The text without its comments; an unclosed one goes to the end. -/
def stripComments (cs : List Char) : List Char :=
  match h : cut? "<!--".toList cs with
  | none => cs
  | some (a, r) => match h' : cut? "-->".toList r with
    | none => a
    | some (_, r') =>
      have := Text.length_lt_of_cut? (by decide) h
      have := Text.length_lt_of_cut? (by decide) h'
      a ++ stripComments r'
termination_by cs.length

/-- A declaration: its keyword, and the text between that and the closing bracket. -/
structure Declaration where
  keyword : List Char
  body : List Char
deriving DecidableEq, Repr

/-- The declarations of a text.  What begins like one but has no keyword is passed over, and one that is not closed
ends the reading. -/
def declarations (cs : List Char) : List Declaration :=
  match h : cut? "<!".toList cs with
  | none => []
  | some (_, r) =>
    have := Text.length_lt_of_cut? (by decide) h
    let keyword := r.takeWhile Char.isAlpha
    if keyword.isEmpty then declarations r
    else match h' : Xml.Markup.tag none (r.dropWhile Char.isAlpha) with
      | .error _ => []
      | .ok (body, rest) =>
        have := Xml.Markup.length_lt_of_tag h'
        have := (List.dropWhile_sublist Char.isAlpha (l := r)).length_le
        ⟨keyword, body⟩ :: declarations rest
termination_by cs.length

/-- The tokens of a declaration: pieces between blanks, where quoted strings and groups in parentheses are kept whole.
`current` holds the token read so far, from its last character back. -/
def tokens (quote : Option Char) (depth : Nat) (current : List Char) : List Char → List (List Char)
  | [] => if current.isEmpty then [] else [current.reverse]
  | c :: cs => match quote with
    | some q => tokens (if c = q then none else some q) depth (c :: current) cs
    | none =>
      if c = '"' ∨ c = '\'' then tokens (some c) depth (c :: current) cs
      else if c = '(' then tokens none (depth + 1) (c :: current) cs
      else if c = ')' then tokens none (depth - 1) (c :: current) cs
      else if isBlank c && depth == 0 then
        if current.isEmpty then tokens none depth [] cs else current.reverse :: tokens none depth [] cs
      else tokens none depth (c :: current) cs

/-- The tokens of a declaration's body. -/
def tokenize (body : List Char) : List (List Char) :=
  tokens none 0 [] body

/-- What stands between the quotes of a quoted token. -/
def unquote? : List Char → Option (List Char)
  | q :: cs => if (q = '"' ∨ q = '\'') ∧ cs.getLast? = some q then some cs.dropLast else none
  | [] => none

/-! ## Parameter entities -/

/-- Names with the texts they stand for; the first of a name is binding. -/
abbrev Entities := List (List Char × List Char)

/-- The parameter entity that a declaration declares. -/
def entity? (d : Declaration) : Option (List Char × List Char) :=
  if d.keyword = "ENTITY".toList then
    match tokenize d.body with
    | ['%'] :: name :: value :: _ => (unquote? value).map fun v => (name, v)
    | _ => none
  else none

def isNameStart (c : Char) : Bool :=
  c.isAlpha || c == '_'

def isNameChar (c : Char) : Bool :=
  c.isAlphanum || c == '.' || c == '_' || c == ':' || c == '-'

/-- The name of a reference, after its `%`, and what follows the semicolon. -/
def reference? : List Char → Option (List Char × List Char)
  | [] => none
  | c :: cs =>
    if isNameStart c then
      match cs.dropWhile isNameChar with
      | ';' :: r => some (c :: cs.takeWhile isNameChar, r)
      | _ => none
    else none

theorem length_lt_of_reference? {cs name r : List Char} (h : reference? cs = some (name, r)) :
    r.length < cs.length := by
  cases cs with
  | nil => cases h
  | cons c cs =>
    simp only [reference?] at h
    split at h
    · split at h
      · rename_i r' hr
        cases h
        have := Xml.Tag.length_dropWhile_cons hr
        simp only [List.length_cons]
        omega
      · cases h
    · cases h

/-- What a name stands for; nothing if it is not declared. -/
def Entities.text (es : Entities) (name : List Char) : List Char :=
  ((es.find? fun e => e.1 == name).map (·.2)).getD []

/-- Every reference of a text replaced by what it stands for. -/
def expandOnce (es : Entities) (cs : List Char) : List Char :=
  match cs with
  | [] => []
  | c :: cs =>
    if c = '%' then
      match h : reference? cs with
      | some (name, r) =>
        have := length_lt_of_reference? h
        es.text name ++ expandOnce es r
      | none => c :: expandOnce es cs
    else c :: expandOnce es cs
termination_by cs.length

/-- How deep references may be nested. -/
def maxDepth : Nat := 16

/-- A text with its references expanded, again and again up to the greatest depth. -/
def expand (es : Entities) (cs : List Char) : List Char :=
  Nat.repeat (expandOnce es) maxDepth cs

/-! ## Reading -/

/-- The tokens after the first; after the first two if the first is a given word. -/
def afterWord (word : List Char) : List (List Char) → List (List Char)
  | [] => []
  | t :: ts => if t = word then ts.tail else ts

theorem length_afterWord_le (word : List Char) (ts : List (List Char)) : (afterWord word ts).length ≤ ts.length := by
  cases ts with
  | nil => exact Nat.le_refl _
  | cons t ts =>
    simp only [afterWord]
    split <;> simp only [List.length_tail, List.length_cons] <;> omega

/-- The attribute names of a list of definitions.  Each has a name, a type and a default; a notation type is followed
by its group, and a fixed default by its value. -/
def attributeNames (ts : List (List Char)) : List (List Char) :=
  match ts with
  | [] => []
  | name :: rest =>
    have := length_afterWord_le "NOTATION".toList rest
    have := length_afterWord_le "#FIXED".toList (afterWord "NOTATION".toList rest)
    name :: attributeNames (afterWord "#FIXED".toList (afterWord "NOTATION".toList rest))
termination_by ts.length
decreasing_by
  simp only [List.length_cons]
  omega

/-- The definition with what one more declaration declares. -/
def declare (es : Entities) (d : Dtd) (decl : Declaration) : Dtd :=
  if decl.keyword = "ELEMENT".toList then
    match tokenize (expand es decl.body) with
    | name :: _ => { d with elements := String.ofList name :: d.elements }
    | [] => d
  else if decl.keyword = "ATTLIST".toList then
    match tokenize (expand es decl.body) with
    | element :: rest =>
      { d with attributes := (String.ofList element, (attributeNames rest).map String.ofList) :: d.attributes }
    | [] => d
  else d

/-- The definition that a text writes.  Entities count wherever they are declared. -/
def read (s : String) : Dtd :=
  let decls := declarations (stripComments s.toList)
  decls.foldl (declare (decls.filterMap entity?)) {}

def declaresElement (d : Dtd) (name : String) : Bool :=
  d.elements.contains name

def declaresAttribute (d : Dtd) (element name : String) : Bool :=
  d.attributes.any fun a => a.1 == element && a.2.contains name

/-! ## Checking -/

/-- What a document uses without its being declared. -/
inductive Violation where
  | element (name : String)
  | attribute (name owner : String)
deriving DecidableEq, Repr

def Violation.message : Violation → String
  | .element name => "Element type \"" ++ name ++ "\" must be declared."
  | .attribute name owner =>
    "Attribute \"" ++ name ++ "\" must be declared for element type \"" ++ owner ++ "\"."

/-- An attribute that needs no declaration: those of XML itself and of its namespaces. -/
def isFree (name : String) : Bool :=
  (Text.after? "xmlns".toList name.toList).isSome || (Text.after? "xml:".toList name.toList).isSome

/-- The first violation of an element by itself.  A definition without elements allows any, and one without attribute
lists any attribute. -/
def checkElement (d : Dtd) (e : Xml.Element) : Option Violation :=
  if !d.elements.isEmpty && !d.declaresElement e.name then some (.element e.name)
  else if d.attributes.isEmpty then none
  else (e.attributes.find? fun a => !isFree a.1 && !d.declaresAttribute e.name a.1).map fun a =>
    .attribute a.1 e.name

/-- The first violation of a document, in document order. -/
def check (d : Dtd) (doc : Xml.Document) : Option Violation :=
  doc.root.elements.findSome? d.checkElement

end Dtd

/-! ## Validators -/

/-- What a validator says of a document. -/
structure Verdict where
  passed : Bool
  message : Option String := none
deriving DecidableEq, Repr, Inhabited

/-- What a definition says of a document. -/
def Dtd.verdict (d : Dtd) (doc : Xml.Document) : Verdict :=
  match d.check doc with
  | none => ⟨true, none⟩
  | some v => ⟨false, some v.message⟩

/-- A judge of documents: by a definition, where the last one read is kept, or by a verdict that stands. -/
inductive Validator where
  | dtd (last : Option (String × Dtd))
  | standing (verdict : Verdict)
deriving Inhabited

/-- The verdict on a document against a definition's text, and the validator for the next one. -/
def Validator.validate (v : Validator) (schema : String) (doc : Xml.Document) : Verdict × Validator :=
  match v with
  | .standing verdict => (verdict, v)
  | .dtd (some (source, d)) =>
    if source = schema then (d.verdict doc, v)
    else
      let d := Dtd.read schema
      (d.verdict doc, .dtd (some (schema, d)))
  | .dtd none =>
    let d := Dtd.read schema
    (d.verdict doc, .dtd (some (schema, d)))

end Bookbinder
