import Bookbinder.Toml.Stamp
/-!
# TOML values

The values of a TOML document.  A table remembers how it came to be, since that decides what may still be added to it.
-/
namespace Bookbinder
namespace Toml

/-- How a table came to be. -/
inductive Origin where
  /-- As part of a longer header. -/
  | implied
  /-- By a header of its own. -/
  | header
  /-- As part of a dotted key. -/
  | dotted
  /-- Written within braces, and complete. -/
  | braced
deriving DecidableEq, Repr, Inhabited

inductive Value where
  | text (s : String)
  | int (i : Int)
  | float
  | bool (b : Bool)
  | stamp (s : Stamp)
  | array (items : List Value)
  | table (origin : Origin) (entries : List (String × Value))
  /-- Tables under one header, from the last one back. -/
  | tables (entries : List (List (String × Value)))
deriving Inhabited

/-- Keys with their values, in the order in which they were added. -/
abbrev Table := List (String × Value)

namespace Table

def get? (t : Table) (key : String) : Option Value :=
  (t.find? fun e => e.1 == key).map (·.2)

/-- The table with the value of a key, which it has, replaced. -/
def replace (t : Table) (key : String) (v : Value) : Table :=
  t.map fun e => if e.1 = key then (key, v) else e

/-! ## Adding keys and tables

Nothing is given where the document contradicts itself. -/

/-- The table with a key and its value added, where the key is dotted.  The tables before its last part are made if they
are not there.  A dotted key passes through tables that only longer headers made, and through the last of tables under
one header, but adds a value only to a table that a dotted key made. -/
def insert? : List String → Value → Table → Option Table
  | [], _, _ => none
  | [key], v, t => if (t.get? key).isSome then none else some (t ++ [(key, v)])
  | key :: next :: keys, v, t => match t.get? key with
    | none => (insert? (next :: keys) v []).map fun inner => t ++ [(key, .table .dotted inner)]
    | some (.table .dotted inner) =>
      (insert? (next :: keys) v inner).map fun inner => t.replace key (.table .dotted inner)
    | some (.table .implied inner) =>
      if keys.isEmpty then none
      else (insert? (next :: keys) v inner).map fun inner => t.replace key (.table .implied inner)
    | some (.tables (inner :: before)) =>
      if keys.isEmpty then none
      else (insert? (next :: keys) v inner).map fun inner => t.replace key (.tables (inner :: before))
    | some _ => none

/-- The table that a header's path leads to changed by a function, which is given what stands there, if anything does.
Of tables under one header, the last one is meant. -/
def atPath? (f : Option Value → Option Value) : List String → Table → Option Table
  | [], _ => none
  | [key], t => match t.get? key with
    | none => (f none).map fun v => t ++ [(key, v)]
    | some old => (f (some old)).map (t.replace key)
  | key :: keys, t => match t.get? key with
    | none => (atPath? f keys []).map fun inner => t ++ [(key, .table .implied inner)]
    | some (.table .braced _) => none
    | some (.table origin inner) => (atPath? f keys inner).map fun inner => t.replace key (.table origin inner)
    | some (.tables (inner :: before)) => (atPath? f keys inner).map fun inner => t.replace key (.tables (inner :: before))
    | some _ => none

/-- A table opened by a header: a new one, or one that only longer headers have made. -/
def openTable : Option Value → Option Value
  | none => some (.table .header [])
  | some (.table .implied inner) => some (.table .header inner)
  | some _ => none

/-- One more table opened by a header in double brackets. -/
def openItem : Option Value → Option Value
  | none => some (.tables [[]])
  | some (.tables before) => some (.tables ([] :: before))
  | some _ => none

/-- A key and its value added to the table that a header has opened. -/
def insertUnder? (key : List String) (v : Value) : Option Value → Option Value
  | some (.table origin inner) => (insert? key v inner).map (.table origin ·)
  | some (.tables (inner :: before)) => (insert? key v inner).map fun inner => .tables (inner :: before)
  | _ => none

end Table
end Toml
end Bookbinder
