/-!
# Decimal numbers

Digits read as a number, and the signed numbers that fit in 64 bits.
-/
namespace Bookbinder
namespace Decimal

def digitValue (c : Char) : Nat :=
  c.toNat - '0'.toNat

/-- The number that a run of digits writes; the empty run writes zero. -/
def ofDigits (ds : List Char) : Nat :=
  ds.foldl (fun n d => 10 * n + digitValue d) 0

/-- One past the largest signed number of 64 bits. -/
def signedLimit : Nat := 0x8000000000000000

/-- One past the largest unsigned number of 64 bits. -/
def unsignedLimit : Nat := 0x10000000000000000

/-- A nonempty run of digits, whatever its length. -/
def nat? (cs : List Char) : Option Nat :=
  if cs.isEmpty then none else if cs.all Char.isDigit then some (ofDigits cs) else none

/-- A number in the signed 64-bit range, after an optional sign. -/
def signed? : List Char → Option Int
  | '-' :: cs => (nat? cs).bind fun n => if n ≤ signedLimit then some (-(n : Int)) else none
  | '+' :: cs => (nat? cs).bind fun n => if n < signedLimit then some (n : Int) else none
  | cs => (nat? cs).bind fun n => if n < signedLimit then some (n : Int) else none

end Decimal
end Bookbinder
