import Bookbinder.Calendar.Date
import Bookbinder.Text.Decimal
/-!
# TOML dates and times

A stamp is a date, a time of day, or both, the latter perhaps with an offset from UTC.  Seconds may be left out, and
decimals beyond the ninth do not count.  A stamp is written in one form, whichever of its forms it was read from: with
seconds, with the decimals that are needed, a `T` before the time, and a capital `Z` for UTC.
-/
namespace Bookbinder
namespace Toml

/-- A time of day.  A leap second is the second 60. -/
structure Clock where
  hour : Nat
  minute : Nat
  second : Nat := 0
  nano : Nat := 0
deriving DecidableEq, Repr, Inhabited

inductive Offset where
  | utc
  /-- Minutes ahead of UTC. -/
  | ahead (minutes : Int)
deriving DecidableEq, Repr, Inhabited

inductive Stamp where
  | date (d : Calendar.Date)
  | time (t : Clock)
  | moment (d : Calendar.Date) (t : Clock) (offset : Option Offset)
deriving DecidableEq, Repr, Inhabited

/-! ## Reading -/

/-- A run of exactly so many digits, within bounds. -/
def field? (width least most : Nat) (cs : List Char) : Option (Nat × List Char) :=
  let ds := cs.take width
  let n := Decimal.ofDigits ds
  if ds.length = width ∧ ds.all Char.isDigit ∧ least ≤ n ∧ n ≤ most then some (n, cs.drop width) else none

def sign? (c : Char) : List Char → Option (List Char)
  | d :: r => if d = c then some r else none
  | [] => none

/-- A date, and what follows it. -/
def date? (cs : List Char) : Option (Calendar.Date × List Char) := do
  let (year, cs) ← field? 4 0 9999 cs
  let (month, cs) ← field? 2 1 12 (← sign? '-' cs)
  let (day, cs) ← field? 2 1 31 (← sign? '-' cs)
  let d : Calendar.Date := ⟨year, month, day⟩
  if d.isValid then some (d, cs) else none

/-- Nanoseconds by their decimals, of which there may be none. -/
def fraction? (cs : List Char) : Option (Nat × List Char) :=
  match cs with
  | '.' :: r =>
    let ds := r.takeWhile Char.isDigit
    if ds.isEmpty then none
    else some (Decimal.ofDigits ((ds ++ List.replicate 9 '0').take 9), r.dropWhile Char.isDigit)
  | cs => some (0, cs)

/-- A time of day, and what follows it. -/
def clock? (cs : List Char) : Option (Clock × List Char) := do
  let (hour, cs) ← field? 2 0 23 cs
  let (minute, cs) ← field? 2 0 59 (← sign? ':' cs)
  match cs with
  | ':' :: cs =>
    let (second, cs) ← field? 2 0 60 cs
    let (nano, cs) ← fraction? cs
    return (⟨hour, minute, second, nano⟩, cs)
  | cs => return (⟨hour, minute, 0, 0⟩, cs)

/-- Hours and minutes of an offset, as minutes, and what follows them. -/
def hours? (cs : List Char) : Option (Nat × List Char) := do
  let (hour, cs) ← field? 2 0 23 cs
  let (minute, cs) ← field? 2 0 59 (← sign? ':' cs)
  return (60 * hour + minute, cs)

/-- An offset from UTC, and what follows it. -/
def offset? (cs : List Char) : Option (Offset × List Char) :=
  match cs with
  | 'Z' :: r => some (.utc, r)
  | 'z' :: r => some (.utc, r)
  | '+' :: r => (hours? r).map fun (n, r) => (.ahead n, r)
  | '-' :: r => (hours? r).map fun (n, r) => (.ahead (-(n : Int)), r)
  | _ => none

namespace Stamp

/-- The time of a given date, with or without an offset. -/
def moment? (d : Calendar.Date) (cs : List Char) : Option Stamp :=
  match clock? cs with
  | some (t, []) => some (.moment d t none)
  | some (t, r) => match offset? r with
    | some (o, []) => some (.moment d t (some o))
    | _ => none
  | none => none

/-- The stamp that a text writes. -/
def read? (cs : List Char) : Option Stamp :=
  match date? cs with
  | some (d, []) => some (.date d)
  | some (d, c :: r) => if c = 'T' ∨ c = 't' ∨ c = ' ' then moment? d r else none
  | none => match clock? cs with
    | some (t, []) => some (.time t)
    | _ => none

end Stamp

/-! ## Writing -/

/-- The decimals of a second, without the zeros at their end. -/
def fractionText (nano : Nat) : String :=
  if nano = 0 then ""
  else "." ++ String.ofList ((Calendar.padded 9 nano).toList.reverse.dropWhile (· == '0')).reverse

def dateText (d : Calendar.Date) : String :=
  Calendar.yearText d.year ++ "-" ++ Calendar.padded 2 d.month ++ "-" ++ Calendar.padded 2 d.day

def Clock.text (t : Clock) : String :=
  Calendar.padded 2 t.hour ++ ":" ++ Calendar.padded 2 t.minute ++ ":" ++ Calendar.padded 2 t.second
    ++ fractionText t.nano

def Offset.text : Offset → String
  | utc => "Z"
  | ahead n => (if n < 0 then "-" else "+") ++ Calendar.padded 2 (n.natAbs / 60) ++ ":"
      ++ Calendar.padded 2 (n.natAbs % 60)

def Stamp.text : Stamp → String
  | date d => dateText d
  | time t => t.text
  | moment d t offset => dateText d ++ "T" ++ t.text ++ (offset.map Offset.text).getD ""

end Toml
end Bookbinder
