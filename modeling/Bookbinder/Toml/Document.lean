import Bookbinder.Toml.Scalar
/-!
# TOML documents

A document is read line by line: blank lines and comments, headers, and keys with their values.  `read?` gives the
table that a document writes, or nothing if it is no TOML.  The fuel of each function bounds its steps and is taken
from the length of the text, of which each step uses up a part.
-/
namespace Bookbinder
namespace Toml

/-! ## Blanks and comments -/

def isGap (c : Char) : Bool :=
  c == ' ' || c == '\t'

def skipGap (cs : List Char) : List Char :=
  cs.dropWhile isGap

/-- What follows a comment, if there is one here.  It ends at a line break or with the text. -/
def skipComment (cs : List Char) : List Char :=
  match cs with
  | '#' :: r => r.dropWhile fun c => !isControl c
  | cs => cs

/-- What follows the end of a line, after blanks and a comment. -/
def endOfLine? (cs : List Char) : Option (List Char) :=
  match skipComment (skipGap cs) with
  | [] => some []
  | cs => newline? cs

/-- What follows blanks, comments and line breaks. -/
def skipLines : Nat → List Char → List Char
  | 0, cs => cs
  | fuel + 1, cs =>
    let cs := skipComment (skipGap cs)
    match newline? cs with
    | some r => skipLines fuel r
    | none => cs

/-! ## Keys -/

def isBareKey (c : Char) : Bool :=
  c.isAlphanum || c == '_' || c == '-'

/-- One part of a key, and what follows it. -/
def keyPart? (cs : List Char) : Option (String × List Char) :=
  let text := fun (a : List Char × List Char) => (String.ofList a.1, a.2)
  match cs with
  | '"' :: r => (basic? cs.length r).map text
  | '\'' :: r => (literal? r).map text
  | _ =>
    let a := cs.takeWhile isBareKey
    if a.isEmpty then none else some (String.ofList a, cs.dropWhile isBareKey)

/-- The parts of a key with dots between them, and what follows it and its blanks. -/
def keyParts? : Nat → List Char → Option (List String × List Char)
  | 0, _ => none
  | fuel + 1, cs => do
    let (part, r) ← keyPart? (skipGap cs)
    match skipGap r with
    | '.' :: r =>
      let (parts, r) ← keyParts? fuel r
      return (part :: parts, r)
    | r => return ([part], r)

/-- How deep arrays and tables may lie within one another in a value, and how many parts a key may have. -/
def depth : Nat := 80

/-- A key, and what follows it and its blanks. -/
def key? (cs : List Char) : Option (List String × List Char) :=
  (keyParts? cs.length cs).bind fun (parts, r) => if parts.length ≤ depth then some (parts, r) else none

/-! ## Values -/

mutual

/-- A value, and what follows it.  In it, arrays and tables in braces may lie within one another as often as there is
room. -/
def value? : Nat → Nat → List Char → Option (Value × List Char)
  | 0, _, _ => none
  | fuel + 1, room, cs => match cs with
    | '[' :: r => match room with
      | 0 => none
      | room + 1 => (items? fuel room r).map fun (vs, r) => (.array vs, r)
    | '{' :: r => match room with
      | 0 => none
      | room + 1 => (fields? fuel room [] r).map fun (t, r) => (.table .braced t, r)
    | '"' :: _ => (string? cs).map fun (s, r) => (.text (String.ofList s), r)
    | '\'' :: _ => (string? cs).map fun (s, r) => (.text (String.ofList s), r)
    | _ => unquoted? cs

/-- The items of an array up to its closing bracket. -/
def items? : Nat → Nat → List Char → Option (List Value × List Char)
  | 0, _, _ => none
  | fuel + 1, room, cs =>
    match skipLines cs.length cs with
    | ']' :: r => some ([], r)
    | cs => do
      let (v, r) ← value? fuel room cs
      match skipLines r.length r with
      | ',' :: r =>
        let (vs, r) ← items? fuel room r
        return (v :: vs, r)
      | ']' :: r => return ([v], r)
      | _ => none

/-- The keys and values of a table in braces up to the closing one, added to a table. -/
def fields? : Nat → Nat → Table → List Char → Option (Table × List Char)
  | 0, _, _, _ => none
  | fuel + 1, room, t, cs =>
    match skipLines cs.length cs with
    | '}' :: r => some (t, r)
    | cs => do
      let (key, r) ← key? cs
      let (v, r) ← match skipLines r.length r with
        | '=' :: r => value? fuel room (skipLines r.length r)
        | _ => none
      let t ← t.insert? key v
      match skipLines r.length r with
      | ',' :: r => fields? fuel room t r
      | '}' :: r => return (t, r)
      | _ => none

end

/-! ## Documents -/

/-- What has been read: the whole table, and the path of the header that stands. -/
structure State where
  root : Table := []
  path : List String := []

/-- The state with a key and its value added under the header that stands. -/
def State.insert? (s : State) (key : List String) (v : Value) : Option State :=
  match s.path with
  | [] => (s.root.insert? key v).map fun root => { s with root }
  | path => (Table.atPath? (Table.insertUnder? key v) path s.root).map fun root => { s with root }

/-- A header's path up to its closing brackets, and what follows the line. -/
def header? (closing : List Char) (cs : List Char) : Option (List String × List Char) := do
  let (path, r) ← key? cs
  if closing.isPrefixOf r then return (path, ← endOfLine? (r.drop closing.length)) else none

/-- The state after a line that is neither blank nor a comment, and what follows the line. -/
def line? (s : State) (cs : List Char) : Option (State × List Char) :=
  match cs with
  | '[' :: '[' :: r => do
    let (path, r) ← header? [']', ']'] r
    return (⟨← Table.atPath? Table.openItem path s.root, path⟩, r)
  | '[' :: r => do
    let (path, r) ← header? [']'] r
    return (⟨← Table.atPath? Table.openTable path s.root, path⟩, r)
  | cs => do
    let (key, r) ← key? cs
    match r with
    | '=' :: r =>
      let (v, r) ← value? r.length depth (skipGap r)
      return (← s.insert? key v, ← endOfLine? r)
    | _ => none

/-- The table of a whole text. -/
def lines? : Nat → State → List Char → Option Table
  | 0, _, _ => none
  | fuel + 1, s, cs =>
    match skipLines cs.length cs with
    | [] => some s.root
    | cs => do
      let (s, r) ← line? s cs
      lines? fuel s r

/-- A text without the byte order mark in front. -/
def dropMark : List Char → List Char
  | '\uFEFF' :: cs => cs
  | cs => cs

/-- The table that a text writes, if it is TOML. -/
def read? (s : String) : Option Table :=
  let cs := dropMark s.toList
  lines? (cs.length + 1) {} cs

end Toml
end Bookbinder
