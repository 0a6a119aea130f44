/-!
# Hexadecimal bytes

Bytes written as two hexadecimal digits each.  Digits of either case can be read; lower case is written.  Reading takes
any text: two characters are a byte, which is zero if they write no number, and a last one alone is none.
-/
namespace Bookbinder
namespace Hex

def digits : List Char := "0123456789abcdef".toList

/-- The value of a digit of either case, given by its code. -/
def digitValue? (b : UInt8) : Option Nat :=
  digits.idxOf? (Char.ofNat b.toNat).toLower

/-- The byte that two characters write: two digits, or one after a plus sign. -/
def byte (a b : UInt8) : UInt8 :=
  match digitValue? a, digitValue? b with
  | some high, some low => .ofNat (high * 16 + low)
  | none, some low => if a = 0x2B then .ofNat low else 0
  | _, none => 0

/-- The bytes that a text's characters write, two for each. -/
def read : List UInt8 → List UInt8
  | a :: b :: cs => byte a b :: read cs
  | _ => []

def write (bytes : List UInt8) : List Char :=
  bytes.flatMap fun b => [Nat.digitChar (b.toNat / 16), Nat.digitChar (b.toNat % 16)]

theorem length_read : ∀ cs : List UInt8, (read cs).length = cs.length / 2
  | [] => rfl
  | [_] => by simp [read]
  | a :: b :: cs => by
    simp only [read, List.length_cons, length_read cs]
    omega

end Hex
end Bookbinder
