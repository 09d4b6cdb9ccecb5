import SegmentIndex.Toml.Text
import SegmentIndex.Toml.Value

/-!
# TOML scalars

Booleans, integers, floats, dates and times. All of them are written without quotes, so the
characters that can occur in one are taken together first and then judged as a whole.
-/

namespace SegmentIndex.Toml

/-! ## Digits -/

/-- Whether a character is a decimal digit. -/
def isDigit (c : Char) : Bool := '0' ≤ c && c ≤ '9'

/-- Digits with single underscores between them, without the underscores. -/
def ungroup? (isDigit : Char → Bool) : List Char → Option (List Char)
  | [] => none
  | [c] => if isDigit c then some [c] else none
  | c :: '_' :: s => if isDigit c then (ungroup? isDigit s).map (c :: ·) else none
  | c :: s => if isDigit c then (ungroup? isDigit s).map (c :: ·) else none

/-- The number that some digits of a base spell. -/
def ofDigits (base : Nat) (digits : List Char) : Nat :=
  digits.foldl (fun n c => n * base + (hexValue? c).getD 0) 0

/-- The digits of a decimal number, which has no zero in front. -/
def decimal? (s : List Char) : Option (List Char) := do
  let digits ← ungroup? isDigit s
  guard (s = ['0'] ∨ s.head? ≠ some '0')
  return digits

/-- A sign, and what follows it. Without a sign a number is positive. -/
def signed : List Char → Bool × List Char
  | '-' :: s => (true, s)
  | '+' :: s => (false, s)
  | s => (false, s)

/-! ## Integers -/

/-- An integer, if it fits in sixty-four bits with a sign. -/
def inRange? (n : Int) : Option Value :=
  if -0x8000000000000000 ≤ n ∧ n < 0x8000000000000000 then some (.integer n) else none

/-- A natural number after the letter of its base. -/
def based? (base : Nat) (isDigit : Char → Bool) (s : List Char) : Option Value := do
  let digits ← ungroup? isDigit s
  inRange? (ofDigits base digits)

/-- An integer: decimal with an optional sign, or hexadecimal, octal or binary. -/
def integer? : List Char → Option Value
  | '0' :: 'x' :: s => based? 16 (fun c => (hexValue? c).isSome) s
  | '0' :: 'o' :: s => based? 8 (fun c => '0' ≤ c && c ≤ '7') s
  | '0' :: 'b' :: s => based? 2 (fun c => c = '0' || c = '1') s
  | s => do
    let (negative, s) := signed s
    let digits ← decimal? s
    let n := ofDigits 10 digits
    inRange? (if negative then -n else n)

/-! ## Floats -/

/-- The least number that lies nearer to the first power of two beyond the doubles than to any
double. -/
def doubleLimit : Nat := (1 <<< 1024) - (1 <<< 970)

/-- Whether the number that some digits spell, times a power of ten, is too large for a double.
Where the count of digits alone decides, the number is not worked out. -/
def overflows (digits : List Char) (exponent : Int) : Bool :=
  let digits := digits.dropWhile (· = '0')
  let size := digits.length + exponent
  if digits.isEmpty || size ≤ 308 then false
  else if size > 310 then true
  else if exponent ≥ 0 then ofDigits 10 digits * Nat.pow 10 exponent.toNat ≥ doubleLimit
  else ofDigits 10 digits ≥ doubleLimit * Nat.pow 10 (-exponent).toNat

/-- An exponent, after its letter. -/
def exponent? (s : List Char) : Option Int := do
  let (negative, s) := signed s
  let digits ← ungroup? isDigit s
  let n : Int := ofDigits 10 digits
  return if negative then -n else n

/-- A float with its sign taken off: a decimal number with a fraction or an exponent or both. It
gives whether the number is too large for a double. -/
def unsignedFloat? (s : List Char) : Option Bool := do
  let isMark (c : Char) := c = 'e' || c = 'E'
  let whole := s.takeWhile fun c => isDigit c || c = '_'
  let wholeDigits ← decimal? whole
  match s.drop whole.length with
  | '.' :: s =>
    let fraction := s.takeWhile fun c => isDigit c || c = '_'
    let fractionDigits ← ungroup? isDigit fraction
    let digits := wholeDigits ++ fractionDigits
    match s.drop fraction.length with
    | [] => return overflows digits (-fractionDigits.length)
    | c :: s => do
      guard (isMark c)
      let exponent ← exponent? s
      return overflows digits (exponent - fractionDigits.length)
  | c :: s => do
    guard (isMark c)
    let exponent ← exponent? s
    return overflows wholeDigits exponent
  | [] => none

/-- A float, or one of the words for infinity and not-a-number. A positive number that is too large
for a double is refused. -/
def float? (s : List Char) : Option Value := do
  let (negative, rest) := signed s
  if rest = ['i', 'n', 'f'] ∨ rest = ['n', 'a', 'n'] then
    return .float (.ofList s)
  else
    let tooLarge ← unsignedFloat? rest
    guard (negative || !tooLarge)
    return .float (.ofList s)

/-! ## Dates and times -/

/-- The number that two digits spell. -/
def twoDigits? (a b : Char) : Option Nat :=
  if isDigit a && isDigit b then some (ofDigits 10 [a, b]) else none

/-- The number of days in a month. -/
def daysIn (year month : Nat) : Nat :=
  if month = 2 then
    if (year % 4 = 0 ∧ year % 100 ≠ 0) ∨ year % 400 = 0 then 29 else 28
  else if month = 4 ∨ month = 6 ∨ month = 9 ∨ month = 11 then 30
  else 31

/-- What follows a date. -/
def skipDate? : List Char → Option (List Char)
  | a :: b :: c :: d :: '-' :: e :: f :: '-' :: g :: h :: s => do
    let year := 100 * (← twoDigits? a b) + (← twoDigits? c d)
    let month ← twoDigits? e f
    let day ← twoDigits? g h
    guard (1 ≤ month ∧ month ≤ 12 ∧ 1 ≤ day ∧ day ≤ daysIn year month)
    return s
  | _ => none

/-- What follows a time of day. Leap seconds are admitted at any minute. -/
def skipTime? : List Char → Option (List Char)
  | a :: b :: ':' :: c :: d :: ':' :: e :: f :: s => do
    guard ((← twoDigits? a b) ≤ 23 ∧ (← twoDigits? c d) ≤ 59 ∧ (← twoDigits? e f) ≤ 60)
    match s with
    | '.' :: s =>
      let fraction := s.takeWhile isDigit
      guard !fraction.isEmpty
      return s.drop fraction.length
    | s => return s
  | _ => none

/-- Whether some characters are a distance from universal time. -/
def isZone : List Char → Bool
  | ['Z'] | ['z'] => true
  | [sign, a, b, ':', c, d] =>
    (sign = '+' || sign = '-') && (twoDigits? a b).any (· ≤ 23) && (twoDigits? c d).any (· ≤ 59)
  | _ => false

/-- Whether some characters are a time of day, and perhaps a zone. -/
def isZonedTime (s : List Char) : Bool := (skipTime? s).any fun rest => rest.isEmpty || isZone rest

/-- Whether some characters are a date, a time of day, or both with a letter between them. -/
def isMoment (s : List Char) : Bool :=
  skipTime? s = some [] ||
  match skipDate? s with
  | some [] => true
  | some ('T' :: time) | some ('t' :: time) => isZonedTime time
  | _ => false

/-! ## All scalars -/

/-- Whether a character may occur in a scalar without quotes. -/
def isScalarChar (c : Char) : Bool :=
  c.isAlphanum || c = '+' || c = '-' || c = '_' || c = '.' || c = ':'

/-- The value that a run of scalar characters stands for. -/
def scalar? (s : List Char) : Option Value :=
  if s = "true".toList then some (.boolean true)
  else if s = "false".toList then some (.boolean false)
  else if isMoment s then some (.moment (.ofList s))
  else (integer? s).or (float? s)

/-- A scalar. After a date, one space may stand in place of the letter before the time. -/
def readScalar? (s : List Char) : Option (Value × List Char) :=
  let token := s.takeWhile isScalarChar
  let rest := s.drop token.length
  let time := (rest.drop 1).takeWhile isScalarChar
  if skipDate? token = some [] ∧ rest.head? = some ' ' ∧ time.head?.any isDigit then
    if isZonedTime time then
      some (.moment (.ofList (token ++ ' ' :: time)), rest.drop (1 + time.length))
    else
      none
  else
    (scalar? token).map (·, rest)

end SegmentIndex.Toml
