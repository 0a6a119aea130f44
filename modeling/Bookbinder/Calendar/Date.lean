/-!
# Dates

Days counted from the first of January 1970, and the same days by year, month and day in the Gregorian calendar, which
is continued into the past.
-/
namespace Bookbinder
namespace Calendar

/-- A day by year, month and day, the latter two from one. -/
structure Date where
  year : Int
  month : Nat
  day : Nat
deriving DecidableEq, Repr, Inhabited

def isLeap (year : Int) : Bool :=
  year % 4 == 0 && (year % 100 != 0 || year % 400 == 0)

def daysInMonth (year : Int) (month : Nat) : Nat :=
  if month = 2 then if isLeap year then 29 else 28
  else if month = 4 ∨ month = 6 ∨ month = 9 ∨ month = 11 then 30
  else 31

namespace Date

/-- Whether there is such a day. -/
def isValid (d : Date) : Bool :=
  1 ≤ d.month && d.month ≤ 12 && 1 ≤ d.day && d.day ≤ daysInMonth d.year d.month

/-- Days before the first of March of a year, counted from the first of March of the year zero. -/
def daysToMarch (year : Int) : Int :=
  365 * year + year / 4 - year / 100 + year / 400

/-- The day's number, counted from the first of January 1970.  Years are taken to begin in March, so that the leap day
comes last. -/
def toDays (d : Date) : Int :=
  let year := if d.month ≤ 2 then d.year - 1 else d.year
  let month := if d.month ≤ 2 then d.month + 9 else d.month - 3
  daysToMarch year + ((153 * month + 2) / 5 : Nat) + d.day - 719469

/-- The day with a number. -/
def ofDays (n : Int) : Date :=
  let n := n + 719468
  let era := n / 146097
  let day := n - era * 146097
  let year := (day - day / 1460 + day / 36524 - day / 146096) / 365
  let day := (day - (365 * year + year / 4 - year / 100)).toNat
  let month := (5 * day + 2) / 153
  let year := year + era * 400
  ⟨if month < 10 then year else year + 1, if month < 10 then month + 3 else month - 9,
    day - (153 * month + 2) / 5 + 1⟩

end Date

/-- The day of the week of a day's number, Sunday being zero. -/
def weekday (n : Int) : Nat :=
  ((n + 4) % 7).toNat

def weekdayNames : List String := ["Sun", "Mon", "Tue", "Wed", "Thu", "Fri", "Sat"]

def monthNames : List String :=
  ["Jan", "Feb", "Mar", "Apr", "May", "Jun", "Jul", "Aug", "Sep", "Oct", "Nov", "Dec"]

/-- A number with zeros in front up to a width. -/
def padded (width n : Nat) : String :=
  let digits := toString n
  String.ofList (List.replicate (width - digits.length) '0') ++ digits

/-- A year in four digits, with a sign if it does not fit in them. -/
def yearText (year : Int) : String :=
  if 0 ≤ year ∧ year ≤ 9999 then padded 4 year.toNat
  else (if year < 0 then "-" else "+") ++ padded 4 year.natAbs

/-- A day's number as in `Fri Mar 01 2024`. -/
def dateText (n : Int) : String :=
  let d := Date.ofDays n
  weekdayNames.getD (weekday n) "" ++ " " ++ monthNames.getD (d.month - 1) "" ++ " " ++ padded 2 d.day
    ++ " " ++ yearText d.year

end Calendar
end Bookbinder
