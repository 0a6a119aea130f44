import Bookbinder.Calendar.Date
import Bookbinder.Text.Blank
import Bookbinder.Text.Decimal
/-!
# Instants

A point in time, counted in UTC.  It is read from RFC 3339 text, where blanks may stand between the parts, and written
back in UTC with as many decimals as it needs, in groups of three.
-/
namespace Bookbinder
namespace Calendar

/-- A point in time.  A leap second belongs to the second before it, with a billion nanoseconds more. -/
structure Instant where
  /-- The number of the day. -/
  day : Int
  /-- Seconds since midnight. -/
  second : Nat
  nano : Nat
deriving DecidableEq, Repr, Inhabited

namespace Instant

/-- The first and the last year of the calendar. -/
def minYear : Int := -262143
def maxYear : Int := 262142

def date (i : Instant) : Date :=
  Date.ofDays i.day

/-! ## Reading -/

/-- What is left of a text after some of it was read. -/
abbrev Reader := StateT (List Char) Option

/-- The next blanks are passed over. -/
def blanks : Reader Unit :=
  modify Text.trimLeft

def literal (c : Char) : Reader Unit := fun cs =>
  match cs with
  | d :: r => if d = c then some ((), r) else none
  | [] => none

/-- A number of at least one and at most so many digits. -/
def digits (most : Nat) : Reader (List Char) := fun cs =>
  let ds := (cs.takeWhile Char.isDigit).take most
  if ds.isEmpty then none else some (ds, cs.drop ds.length)

/-- A number of one or two digits within bounds, after blanks. -/
def small (least most : Nat) : Reader Nat := do
  blanks
  let n := Decimal.ofDigits (← digits 2)
  if least ≤ n ∧ n ≤ most then return n else failure

/-- A year: up to four digits, or any number of them after a sign. -/
def year : Reader Int := do
  blanks
  match (← get) with
  | '-' :: cs =>
    set cs
    return -(Decimal.ofDigits (← digits cs.length) : Int)
  | '+' :: cs =>
    set cs
    return (Decimal.ofDigits (← digits cs.length) : Int)
  | _ => return (Decimal.ofDigits (← digits 4) : Int)

/-- The decimals of a second, as nanoseconds; those after the ninth do not count. -/
def fraction : Reader Nat := fun cs =>
  match cs with
  | '.' :: r =>
    let ds := r.takeWhile Char.isDigit
    if ds.isEmpty then none
    else some (Decimal.ofDigits ((ds ++ List.replicate 9 '0').take 9), r.dropWhile Char.isDigit)
  | _ => some (0, cs)

/-- Two digits. -/
def twoDigits : Reader Nat := fun cs =>
  match cs with
  | a :: b :: r => if a.isDigit && b.isDigit then some (Decimal.ofDigits [a, b], r) else none
  | _ => none

/-- How many seconds the given time is ahead of UTC: a `Z`, the letters `UTC`, or a sign with hours and minutes. -/
def offset : Reader Int := do
  blanks
  let cs ← get
  if (cs.take 3).map Char.toUpper = ['U', 'T', 'C'] then
    set (cs.drop 3)
    return 0
  match cs with
  | [] => failure
  | c :: r =>
    set r
    if c = 'Z' ∨ c = 'z' then return 0
    else if c = '+' ∨ c = '-' ∨ c = '\u2212' then
      let hours ← twoDigits
      modify fun r => r.dropWhile fun d => d == ':' || Text.isBlank d
      let minutes ← twoDigits
      if hours < 24 ∧ minutes < 60 then
        let n : Int := 3600 * hours + 60 * minutes
        return if c = '+' then n else -n
      else failure
    else failure

/-- The instant at seconds past the midnight of a day, which may lie on another day. -/
def ofSeconds (day second : Int) (nano : Nat) : Instant :=
  ⟨day + second / 86400, (second % 86400).toNat, nano⟩

/-- A date and a time with its offset. -/
def reader : Reader Instant := do
  let y ← year
  blanks
  literal '-'
  let month ← small 1 12
  blanks
  literal '-'
  let day ← small 1 31
  match (← get) with
  | c :: r => if c = 't' ∨ c = 'T' ∨ c = ' ' then set r else failure
  | [] => failure
  let hour ← small 0 23
  blanks
  literal ':'
  let minute ← small 0 59
  blanks
  literal ':'
  let second ← small 0 60
  let nano ← fraction
  let ahead ← offset
  let d : Date := ⟨y, month, day⟩
  let leap := second = 60
  let clock : Int := 3600 * hour + 60 * minute + (if leap then 59 else second)
  let i := ofSeconds d.toDays (clock - ahead) (if leap then nano + 1000000000 else nano)
  if d.isValid && minYear ≤ y && y ≤ maxYear && minYear ≤ i.date.year && i.date.year ≤ maxYear then return i
  else failure

/-- The instant that a text writes, if it writes one. -/
def read? (s : String) : Option Instant :=
  match reader.run s.toList with
  | some (i, rest) => if rest.all Text.isBlank then some i else none
  | none => none

/-! ## Writing -/

/-- Decimals in groups of three, as many as are needed. -/
def fractionText (nano : Nat) : String :=
  if nano = 0 then ""
  else if nano % 1000000 = 0 then "." ++ padded 3 (nano / 1000000)
  else if nano % 1000 = 0 then "." ++ padded 6 (nano / 1000)
  else "." ++ padded 9 nano

/-- The instant as RFC 3339 text in UTC. -/
def text (i : Instant) : String :=
  let d := i.date
  let leap := i.nano / 1000000000
  yearText d.year ++ "-" ++ padded 2 d.month ++ "-" ++ padded 2 d.day ++ "T" ++ padded 2 (i.second / 3600) ++ ":"
    ++ padded 2 (i.second / 60 % 60) ++ ":" ++ padded 2 (i.second % 60 + leap)
    ++ fractionText (i.nano % 1000000000) ++ "Z"

end Instant
end Calendar
end Bookbinder
