/-!
# Percent encoding

Text as it stands in the query of a URL: ASCII letters and digits as themselves, every other byte of its UTF-8 form as
a percent sign and two hexadecimal digits.
-/
namespace Bookbinder
namespace Percent

/-- A byte that stands for itself: an ASCII letter or digit. -/
def isPlain (b : UInt8) : Bool :=
  (Char.ofUInt8 b).isAlphanum

/-- A digit from 0 to 15, in upper case. -/
def hexDigit (n : Nat) : Char :=
  (Nat.digitChar n).toUpper

/-- How one byte is written. -/
def encodeByte (b : UInt8) : List Char :=
  if isPlain b then [Char.ofUInt8 b] else ['%', hexDigit (b.toNat / 16), hexDigit (b.toNat % 16)]

def encodeChars (cs : List Char) : List Char :=
  cs.flatMap fun c => (String.utf8EncodeChar c).flatMap encodeByte

/-- The text in percent encoding. -/
def encode (s : String) : String :=
  String.ofList (encodeChars s.toList)

end Percent
end Bookbinder
