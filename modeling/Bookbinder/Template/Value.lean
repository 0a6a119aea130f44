import Bookbinder.Text.Escape
import Bookbinder.Text.Unseen
/-!
# Values for templates

What a page is rendered from: texts, numbers, truth values, lists and records.  A value that is not there at all is
undefined, which differs from null: it prints as nothing, and it has no fields.
-/
namespace Bookbinder
namespace Template

inductive Value where
  | undefined
  | null
  | bool (b : Bool)
  | int (i : Int)
  | text (s : String)
  | list (items : List Value)
  | record (fields : List (String × Value))
deriving Inhabited

/-- Why a page cannot be rendered. -/
inductive Fault where
  | unknownTemplate (name : String)
  | fieldOfUndefined (field : String)
  | notIterable
  /-- A renderer's own reason. -/
  | refused (template : String)
deriving DecidableEq, Repr

namespace Value

/-! ## Reading values -/

/-- A field of a value.  An undefined value has no fields; any other has every field, undefined where it is missing. -/
def field (v : Value) (name : String) : Except Fault Value :=
  match v with
  | .undefined => .error (.fieldOfUndefined name)
  | .record fields => .ok (((fields.find? fun f => f.1 == name).map (·.2)).getD .undefined)
  | _ => .ok .undefined

/-- Whether a condition on the value holds: not if it is empty, zero, false, null or undefined. -/
def truthy : Value → Bool
  | .undefined | .null => false
  | .bool b => b
  | .int i => i != 0
  | .text s => !s.isEmpty
  | .list items => !items.isEmpty
  | .record fields => !fields.isEmpty

/-- The values that a loop over the value runs through: a list's items, a text's characters, a record's keys. -/
def items : Value → Except Fault (List Value)
  | .undefined | .null => .ok []
  | .list items => .ok items
  | .text s => .ok (s.toList.map fun c => .text c.toString)
  | .record fields => .ok (fields.map fun f => .text f.1)
  | _ => .error .notIterable

/-- Whether the value is a given text. -/
def isText (v : Value) (s : String) : Bool :=
  match v with
  | .text t => t == s
  | _ => false

/-! ## Printing values -/

/-- A character within a quoted text.  One that does not show is written as its number. -/
def quoteChar (c : Char) : String :=
  if c = '"' then "\\\""
  else if c = '\\' then "\\\\"
  else if c = '\n' then "\\n"
  else if c = '\r' then "\\r"
  else if c = '\t' then "\\t"
  else if c = '\x00' then "\\0"
  else if Text.isUnseen c then
    "\\u\x7b" ++ String.ofList (Nat.toDigits 16 c.toNat) ++ "\x7d"
  else c.toString

/-- A text in quotes, as it stands within a list or record. -/
def quote (s : String) : String :=
  "\"" ++ String.join (s.toList.map quoteChar) ++ "\""

mutual

/-- A value as it stands within a list or record. -/
def inner : Value → String
  | .undefined => "undefined"
  | .null => "None"
  | .bool b => if b then "True" else "False"
  | .int i => toString i
  | .text s => quote s
  | .list items => "[" ++ ", ".intercalate (innerItems items) ++ "]"
  | .record fields => "\x7b" ++ ", ".intercalate (innerFields fields) ++ "\x7d"

def innerItems : List Value → List String
  | [] => []
  | v :: vs => v.inner :: innerItems vs

def innerFields : List (String × Value) → List String
  | [] => []
  | (name, v) :: fs => (quote name ++ ": " ++ v.inner) :: innerFields fs

end

/-- A value as it prints. -/
def print : Value → String
  | .undefined => ""
  | .text s => s
  | v => v.inner

/-- A value as it prints within XML; null prints as nothing. -/
def printXml : Value → String
  | .null => ""
  | v => Text.escape v.print

/-! ## Making values -/

/-- A text, or null. -/
def ofText? : Option String → Value
  | some s => .text s
  | none => .null

end Value

/-- The named values that a page is rendered from. -/
abbrev Context := List (String × Value)

namespace Context

/-- The value of a name, undefined if the context lacks it. -/
def get (c : Context) (name : String) : Value :=
  ((c.find? fun f => f.1 == name).map (·.2)).getD .undefined

def has (c : Context) (name : String) : Bool :=
  c.any fun f => f.1 == name

/-- The context with a name set to a value. -/
def set (c : Context) (name : String) (v : Value) : Context :=
  match c with
  | [] => [(name, v)]
  | f :: fs => if f.1 = name then (name, v) :: fs else f :: Context.set fs name v

end Context

end Template
end Bookbinder
