/-!
# Decoding bytes leniently

Bytes read as UTF-8, whatever they are.  Where no character can be read, the bytes that could have begun one, or the
one byte that could not, give way to the replacement character, and reading goes on behind them.
-/
namespace Bookbinder
namespace Utf8

/-- What stands for bytes that are no character. -/
def replacement : Char := '\uFFFD'

/-- How a character goes on after its leading byte. -/
structure Lead where
  /-- The bits of the leading byte that count. -/
  bits : Nat
  /-- How many bytes follow. -/
  more : Nat
  /-- The least and the greatest byte that may follow first. -/
  low : Nat := 0x80
  high : Nat := 0xBF
deriving DecidableEq, Repr

/-- What a byte leads to, if characters can begin with it. -/
def lead? (b : Nat) : Option Lead :=
  if b < 0x80 then some { bits := b, more := 0 }
  else if 0xC2 ≤ b ∧ b ≤ 0xDF then some { bits := b % 0x20, more := 1 }
  else if b = 0xE0 then some { bits := 0, more := 2, low := 0xA0 }
  else if b = 0xED then some { bits := 0x0D, more := 2, high := 0x9F }
  else if 0xE1 ≤ b ∧ b ≤ 0xEF then some { bits := b % 0x10, more := 2 }
  else if b = 0xF0 then some { bits := 0, more := 3, low := 0x90 }
  else if b = 0xF4 then some { bits := 4, more := 3, high := 0x8F }
  else if 0xF1 ≤ b ∧ b ≤ 0xF3 then some { bits := b % 8, more := 3 }
  else none

/-- The character that a number of further bytes complete, and what follows them.  Reading stops at a byte that does
not belong there. -/
def complete (bits low high : Nat) : Nat → List UInt8 → Char × List UInt8
  | 0, bs => (Char.ofNat bits, bs)
  | _ + 1, [] => (replacement, [])
  | more + 1, b :: bs =>
    if low ≤ b.toNat ∧ b.toNat ≤ high then complete (bits * 64 + b.toNat % 64) 0x80 0xBF more bs
    else (replacement, b :: bs)

theorem length_complete_le (bits low high more : Nat) (bs : List UInt8) :
    (complete bits low high more bs).2.length ≤ bs.length := by
  fun_induction complete bits low high more bs with
  | case1 => exact Nat.le_refl _
  | case2 => exact Nat.le_refl _
  | case3 _ _ _ _ _ _ _ ih => exact Nat.le_succ_of_le ih
  | case4 => exact Nat.le_refl _

/-- The characters of bytes. -/
def decode : List UInt8 → List Char
  | [] => []
  | b :: bs => match lead? b.toNat with
    | none => replacement :: decode bs
    | some l =>
      have := length_complete_le l.bits l.low l.high l.more bs
      (complete l.bits l.low l.high l.more bs).1 :: decode (complete l.bits l.low l.high l.more bs).2
termination_by bs => bs.length

/-- The text of a file. -/
def text (bytes : ByteArray) : String :=
  String.ofList (decode bytes.data.toList)

end Utf8
end Bookbinder
