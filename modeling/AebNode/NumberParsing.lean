import AebNode.Types

/-! The number conversions of the C library that the command line uses, on the characters of a
NUL-terminated string in the "C" locale. -/
namespace AebNode.NumberParsing
open Binary32

/-- The characters of a `std::string` that a function of the C library sees through `c_str`. -/
def cString (text : String) : List Char := text.toList.takeWhile (· ≠ '\x00')

def isSpace (c : Char) : Bool := c = ' ' || ('\t' ≤ c && c ≤ '\r')

def sign : List Char → Bool × List Char
  | '-' :: text => (true, text)
  | '+' :: text => (false, text)
  | text => (false, text)

def digitValue (c : Char) : ℕ :=
  if c.isDigit then c.toNat - '0'.toNat
  else if 'a' ≤ c && c ≤ 'f' then c.toNat - 'a'.toNat + 10
  else c.toNat - 'A'.toNat + 10

def isHexDigit (c : Char) : Bool :=
  c.isDigit || ('a' ≤ c && c ≤ 'f') || ('A' ≤ c && c ≤ 'F')

def digitsValue (base : ℕ) (digits : List Char) : ℕ :=
  digits.foldl (fun value c => base * value + digitValue c) 0

/-- What `strtoul` returns, the text its end pointer leaves and whether it sets `ERANGE`. -/
structure Parsed where
  value : ℕ
  rest : List Char
  outOfRange : Bool
  deriving DecidableEq, Repr

/-- `std::strtoul` in base 10 for an `unsigned long` of `width` bits. A minus sign negates in
unsigned arithmetic; without a digit nothing is converted. -/
def strtoul (width : ℕ) (text : List Char) : Parsed :=
  let (negative, body) := sign (text.dropWhile isSpace)
  let digits := body.takeWhile Char.isDigit
  let rest := body.dropWhile Char.isDigit
  let magnitude := digitsValue 10 digits
  if digits = [] then ⟨0, text, false⟩
  else if 2 ^ width ≤ magnitude then ⟨2 ^ width - 1, rest, true⟩
  else ⟨if negative then (2 ^ width - magnitude) % 2 ^ width else magnitude, rest, false⟩

/-- The binary32 nearest to a non-negative rational. `none` is `ERANGE`: the value overflows, or
it is not exact and stays below the normal numbers when rounded to 24 bits. -/
def nearestFloat (q : ℚ) : Option FloatBits :=
  if q = 0 then some 0
  else
    let exponent := max (Int.log 2 q) (-126)
    let scaled := q * 2 ^ (23 - exponent)
    let significand := roundEven scaled
    let bits := (exponent + 126).toNat * 2 ^ 23 + significand
    let tiny := Int.log 2 q < -127 ∨
      Int.log 2 q = -127 ∧ roundEven (q * 2 ^ (23 - Int.log 2 q)) < 2 ^ 24
    if 0x7F800000 ≤ bits then none
    else if tiny ∧ scaled ≠ significand then none
    else some (UInt32.ofNat bits)

/-- A scale factor and what follows it: a marker, an optional sign and at least one decimal
digit. Anything else is no scale factor. -/
def scale (marker : Char) : List Char → ℤ × List Char
  | [] => (0, [])
  | c :: text =>
    let (negative, body) := sign text
    let digits := body.takeWhile Char.isDigit
    if c.toLower ≠ marker ∨ digits = [] then (0, c :: text)
    else
      let magnitude : ℤ := digitsValue 10 digits
      (if negative then -magnitude else magnitude, body.dropWhile Char.isDigit)

/-- The longest prefix that is a number with an optional fraction and an optional scale factor:
its value and what follows it. `none` if the prefix has no digit. -/
def realValue (base : ℕ) (isDigit : Char → Bool) (marker : Char) (radix : ℚ)
    (text : List Char) : Option (ℚ × List Char) :=
  let whole := text.takeWhile isDigit
  let (fraction, rest) := match text.dropWhile isDigit with
    | '.' :: tail => (tail.takeWhile isDigit, tail.dropWhile isDigit)
    | tail => ([], tail)
  if whole ++ fraction = [] then none
  else
    let (exponent, rest) := scale marker rest
    some (digitsValue base (whole ++ fraction) / (base : ℚ) ^ fraction.length *
      radix ^ exponent, rest)

def afterWord (word : String) (text : List Char) : Option (List Char) :=
  if word.toList.isPrefixOf (text.map Char.toLower) then some (text.drop word.toList.length)
  else none

/-- The integer that a character sequence is from end to end, in the base that its prefix tells;
zero if it is none. -/
def nanPayload : List Char → ℕ
  | '0' :: 'x' :: digits | '0' :: 'X' :: digits =>
    if digits.all isHexDigit then digitsValue 16 digits else 0
  | '0' :: digits => if digits.all fun c => '0' ≤ c && c ≤ '7' then digitsValue 8 digits else 0
  | digits => if digits.all Char.isDigit then digitsValue 10 digits else 0

/-- The NaN with the payload that a character sequence in parentheses sets, if there is one, and
the text behind it. -/
def afterNan : List Char → FloatBits × List Char
  | '(' :: text =>
    let isSequence := fun c : Char => c.isAlphanum || c = '_'
    match text.dropWhile isSequence with
    | ')' :: rest =>
      let payload := min (nanPayload (text.takeWhile isSequence)) (2 ^ 64 - 1)
      (0x7FC00000 ||| UInt32.ofNat (payload % 2 ^ 22), rest)
    | _ => (0x7FC00000, '(' :: text)
  | text => (0x7FC00000, text)

/-- An unsigned number at the start of a text and what follows it. A hexadecimal prefix without
digits is the number zero. The value is missing where it is out of range. -/
def unsignedFloat (text : List Char) : Option (Option FloatBits × List Char) :=
  let decimal := (realValue 10 Char.isDigit 'e' 10 text).map fun r => (nearestFloat r.1, r.2)
  let hexadecimal := do
    let r ← realValue 16 isHexDigit 'p' 2 (← afterWord "0x" text)
    return (nearestFloat r.1, r.2)
  let infinity := (afterWord "infinity" text <|> afterWord "inf" text).map fun rest =>
    (some 0x7F800000, rest)
  let nan := (afterWord "nan" text).map fun rest => (some (afterNan rest).1, (afterNan rest).2)
  infinity <|> nan <|> hexadecimal <|> decimal

/-- `strtof`: the number at the start of the text, missing if `errno` is `ERANGE`, and the text
its end pointer leaves; `none` if nothing is converted. -/
def strtof (text : List Char) : Option (Option FloatBits × List Char) :=
  let (negative, body) := sign (text.dropWhile isSpace)
  (unsignedFloat body).map fun r =>
    (r.1.map fun bits => if negative then bits ||| 0x80000000 else bits, r.2)

/-- `std::stof`, which ignores what follows the number; `none` if it throws. -/
def stof (text : List Char) : Option FloatBits := (strtof text).bind Prod.fst

example : stof " -45.5mm".toList = some 0xC2360000 ∧ stof "mm".toList = none ∧
    stof "-nan(0x7F)".toList = some 0xFFC0007F := by
  decide +kernel

end AebNode.NumberParsing
