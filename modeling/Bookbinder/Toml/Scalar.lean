import Bookbinder.Toml.Value
/-!
# TOML scalars

Strings in their four forms, and the unquoted scalars: truth values, numbers, dates and times.  Floating-point numbers
are checked but their values are not kept.
-/
namespace Bookbinder
namespace Toml

/-- A control character that no TOML text may hold; the tab is allowed. -/
def isControl (c : Char) : Bool :=
  (c.toNat < 0x20 && c != '\t') || c == '\x7F'

/-! ## Strings -/

/-- The character with a number in hexadecimal digits, if there is one. -/
def unicode? (ds : List Char) : Option Char :=
  if ds.all fun d => d.isDigit || ('a' ≤ d && d ≤ 'f') || ('A' ≤ d && d ≤ 'F') then
    let n := ds.foldl (fun n d => 16 * n + if d.isDigit then d.toNat - 48 else d.toUpper.toNat - 55) 0
    if h : n.isValidChar then some (Char.ofNatAux n h) else none
  else none

/-- A character after a backslash, and what follows it. -/
def escape? : List Char → Option (Char × List Char)
  | 'b' :: r => some ('\x08', r)
  | 't' :: r => some ('\t', r)
  | 'n' :: r => some ('\n', r)
  | 'e' :: r => some ('\x1B', r)
  | 'f' :: r => some ('\x0C', r)
  | 'r' :: r => some ('\r', r)
  | '"' :: r => some ('"', r)
  | '\\' :: r => some ('\\', r)
  | 'x' :: r => if r.length < 2 then none else (unicode? (r.take 2)).map fun c => (c, r.drop 2)
  | 'u' :: r => if r.length < 4 then none else (unicode? (r.take 4)).map fun c => (c, r.drop 4)
  | 'U' :: r => if r.length < 8 then none else (unicode? (r.take 8)).map fun c => (c, r.drop 8)
  | _ => none

/-- A basic string on one line, its opening quote read already.  `fuel` bounds the characters. -/
def basic? : Nat → List Char → Option (List Char × List Char)
  | 0, _ => none
  | fuel + 1, cs => match cs with
    | '"' :: r => some ([], r)
    | '\\' :: r => (escape? r).bind fun (c, r) => (basic? fuel r).map fun (a, r) => (c :: a, r)
    | c :: r => if isControl c then none else (basic? fuel r).map fun (a, r) => (c :: a, r)
    | [] => none

/-- A literal string on one line, its opening quote read already. -/
def literal? (cs : List Char) : Option (List Char × List Char) :=
  let a := cs.takeWhile fun c => c != '\'' && !isControl c
  match cs.dropWhile fun c => c != '\'' && !isControl c with
  | '\'' :: r => some (a, r)
  | _ => none

/-- The closing quotes of a string on several lines: three, after at most two that belong to the string. -/
def closing? (q : Char) (cs : List Char) : Option (List Char × List Char) :=
  let run := (cs.takeWhile (· == q)).length
  if 3 ≤ run then
    let inside := min (run - 3) 2
    some (List.replicate inside q, cs.drop (inside + 3))
  else none

/-- A line break, and what follows it. -/
def newline? : List Char → Option (List Char)
  | '\n' :: r => some r
  | '\r' :: '\n' :: r => some r
  | _ => none

/-- What follows blanks and line breaks. -/
def dropBreaks : List Char → List Char
  | ' ' :: r => dropBreaks r
  | '\t' :: r => dropBreaks r
  | '\n' :: r => dropBreaks r
  | '\r' :: '\n' :: r => dropBreaks r
  | cs => cs

/-- What follows the blanks and line breaks after a backslash at the end of a line. -/
def continued? (cs : List Char) : Option (List Char) :=
  (newline? (cs.dropWhile fun c => c == ' ' || c == '\t')).map dropBreaks

/-- A string on several lines, its opening quotes read already.  `fuel` bounds the characters. -/
def multiline? (q : Char) : Nat → List Char → Option (List Char × List Char)
  | 0, _ => none
  | fuel + 1, cs => match closing? q cs with
    | some done => some done
    | none => match cs with
      | [] => none
      | c :: r =>
        let more := fun (a : List Char) (r : List Char) =>
          (multiline? q fuel r).map fun (b, r) => (a ++ b, r)
        if c = '\\' ∧ q = '"' then
          match continued? r with
          | some r => more [] r
          | none => (escape? r).bind fun (c, r) => more [c] r
        else if c = '\n' then more [c] r
        else if c = '\r' then if r.head? = some '\n' then more [c] r else none
        else if isControl c then none
        else more [c] r

/-- A text without a line break in front. -/
def dropNewline (cs : List Char) : List Char :=
  (newline? cs).getD cs

/-- A quoted string of any form, and what follows it. -/
def string? (cs : List Char) : Option (List Char × List Char) :=
  match cs with
  | '"' :: '"' :: '"' :: r => multiline? '"' cs.length (dropNewline r)
  | '\'' :: '\'' :: '\'' :: r => multiline? '\'' cs.length (dropNewline r)
  | '"' :: r => basic? cs.length r
  | '\'' :: r => literal? r
  | _ => none

/-! ## Numbers -/

/-- The digits of a run in which single underscores may stand between digits. -/
def grouped? (isDigit : Char → Bool) : List Char → Option (List Char)
  | [] => none
  | [c] => if isDigit c then some [c] else none
  | c :: '_' :: cs => if isDigit c then (grouped? isDigit cs).map (c :: ·) else none
  | c :: cs => if isDigit c then (grouped? isDigit cs).map (c :: ·) else none

def isHex (c : Char) : Bool :=
  c.isDigit || ('a' ≤ c && c ≤ 'f') || ('A' ≤ c && c ≤ 'F')

def isOctal (c : Char) : Bool :=
  '0' ≤ c && c ≤ '7'

def isBinary (c : Char) : Bool :=
  c == '0' || c == '1'

/-- The number that digits write to a base. -/
def ofBase (base : Nat) (ds : List Char) : Nat :=
  ds.foldl (fun n d => base * n + if d.isDigit then d.toNat - 48 else d.toUpper.toNat - 55) 0

/-- Decimal digits without a superfluous zero in front. -/
def decimal? (cs : List Char) : Option Nat :=
  match grouped? Char.isDigit cs with
  | some ('0' :: _ :: _) => none
  | some ds => some (ofBase 10 ds)
  | none => none

/-- A text without its sign, and whether that is a minus. -/
def unsigned : List Char → Bool × List Char
  | '-' :: cs => (true, cs)
  | '+' :: cs => (false, cs)
  | cs => (false, cs)

/-- A whole number of at most 128 bits. -/
def int? (cs : List Char) : Option Int :=
  match cs with
  | '0' :: 'x' :: ds => (grouped? isHex ds).map fun ds => (ofBase 16 ds : Int)
  | '0' :: 'o' :: ds => (grouped? isOctal ds).map fun ds => (ofBase 8 ds : Int)
  | '0' :: 'b' :: ds => (grouped? isBinary ds).map fun ds => (ofBase 2 ds : Int)
  | _ =>
    let (minus, ds) := unsigned cs
    (decimal? ds).map fun n => if minus then -(n : Int) else n

def inRange (i : Int) : Bool :=
  -0x80000000000000000000000000000000 ≤ i && i < 0x100000000000000000000000000000000

/-- A floating-point number by its digits: they stand before a point, which is moved by the exponent. -/
structure Scientific where
  digits : List Char
  exponent : Int

/-- The digits of an exponent with their sign. -/
def exponent? (cs : List Char) : Option Int :=
  let (minus, ds) := unsigned cs
  (grouped? Char.isDigit ds).map fun ds => if minus then -(ofBase 10 ds : Int) else ofBase 10 ds

/-- The number that a whole part writes with decimals, an exponent, or both. -/
def Scientific.read? (cs : List Char) : Option Scientific := do
  let isExponent := fun c => c == 'e' || c == 'E'
  let mantissa := cs.takeWhile fun c => !isExponent c
  let exponent := cs.dropWhile fun c => !isExponent c
  let whole := mantissa.takeWhile (· != '.')
  let decimals := mantissa.dropWhile (· != '.')
  if decimals.isEmpty && exponent.isEmpty then none
  let _ ← decimal? whole
  let ds ← if decimals.isEmpty then some [] else grouped? Char.isDigit decimals.tail
  let e ← if exponent.isEmpty then some 0 else exponent? exponent.tail
  return ⟨whole.filter Char.isDigit ++ ds, e - ds.length⟩

/-- The least number that is nearer to infinity than to the largest number of 64 bits. -/
def Scientific.limit : Nat :=
  Nat.shiftLeft 0x3FFFFFFFFFFFFF 970

/-- Whether the number is too large to be told from infinity.  It is compared with the limit, which has 309 digits, only
if it has as many itself. -/
def Scientific.overflows (x : Scientific) : Bool :=
  match x.digits.dropWhile (· == '0') with
  | [] => false
  | ds =>
    let width := ds.length + x.exponent
    if width ≠ 309 then 309 < width
    else if 0 ≤ x.exponent then limit ≤ ofBase 10 ds * Nat.pow 10 x.exponent.toNat
    else limit * Nat.pow 10 (-x.exponent).toNat ≤ ofBase 10 ds

/-- Whether a text is a floating-point number that is not too large, or one of the values that are no numbers. -/
def isFloat (cs : List Char) : Bool :=
  let (_, ds) := unsigned cs
  if ds = "inf".toList ∨ ds = "nan".toList then true
  else match Scientific.read? ds with
    | some x => !x.overflows
    | none => false

/-! ## Unquoted scalars -/

/-- The value that an unquoted text writes. -/
def scalar? (cs : List Char) : Option Value :=
  if cs = "true".toList then some (.bool true)
  else if cs = "false".toList then some (.bool false)
  else match int? cs with
    | some i => if inRange i then some (.int i) else none
    | none => if isFloat cs then some .float else (Stamp.read? cs).map .stamp

/-- A character of an unquoted scalar. -/
def isScalarChar (c : Char) : Bool :=
  c.isAlphanum || c == '_' || c == '+' || c == '-' || c == '.' || c == ':'

/-- An unquoted scalar, and what follows it.  A date may have a space before its time. -/
def unquoted? (cs : List Char) : Option (Value × List Char) :=
  let a := cs.takeWhile isScalarChar
  let r := cs.dropWhile isScalarChar
  match date? a, r with
  | some (_, []), ' ' :: d :: r' =>
    if d.isDigit then
      (scalar? (a ++ ' ' :: d :: r'.takeWhile isScalarChar)).map fun v => (v, r'.dropWhile isScalarChar)
    else (scalar? a).map fun v => (v, r)
  | _, _ => (scalar? a).map fun v => (v, r)

end Toml
end Bookbinder
