import SegmentIndex.Text.Invisible

/-!
# Text

How things are written and read as text. Hashes, attribute ids and key bytes are written in
lower-case hexadecimal; keys that are text are shown in quotes; and values from outside are read
without the white space around them.
-/

/-! ## Hexadecimal text -/

namespace SegmentIndex.Text.Hex

/-- The hexadecimal digit of a number below sixteen. -/
def digit (n : Nat) : Char :=
  if n < 10 then Char.ofNat (48 + n) else Char.ofNat (87 + n)

/-- The last `width` hexadecimal digits of `n`, most significant first. -/
def digits : Nat → Nat → List Char
  | 0, _ => []
  | width + 1, n => digits width (n / 16) ++ [digit (n % 16)]

/-- A number in exactly `width` hexadecimal digits. -/
def fixed (width n : Nat) : String := String.ofList (digits width n)

/-- Bytes as two digits each. -/
def ofBytes (bytes : List UInt8) : String :=
  String.ofList (bytes.flatMap fun b => digits 2 b.toNat)

theorem length_digits (width n : Nat) : (digits width n).length = width := by
  induction width generalizing n with
  | zero => rfl
  | succ width ih => simp [digits, ih]

end SegmentIndex.Text.Hex

/-!
## Quoted text

Text inside double quotes, with everything escaped that would not show. Five characters have a
short escape; what cannot be seen is written by its code point. A single quote stands for itself.
-/

namespace SegmentIndex.Text.Quoted

/-- The characters that stand for one character inside quotes. -/
def escape (c : Char) : List Char :=
  if c = '\x00' then ['\\', '0']
  else if c = '\t' then ['\\', 't']
  else if c = '\r' then ['\\', 'r']
  else if c = '\n' then ['\\', 'n']
  else if c = '\\' || c = '"' then ['\\', c]
  else if Invisible.isInvisible c then
    ['\\', 'u', '\x7b'] ++ Nat.toDigits 16 c.toNat ++ ['\x7d']
  else [c]

/-- Text in double quotes. -/
def encode (s : String) : String :=
  String.ofList ('"' :: s.toList.flatMap escape ++ ['"'])

end SegmentIndex.Text.Quoted

/-! ## White space -/

namespace SegmentIndex.Text.Blank

/-- The ranges of code points that have the property `White_Space`, both ends included. -/
def ranges : List (Nat × Nat) := [
  (0x09, 0x0d), (0x20, 0x20), (0x85, 0x85), (0xa0, 0xa0), (0x1680, 0x1680), (0x2000, 0x200a),
  (0x2028, 0x2029), (0x202f, 0x202f), (0x205f, 0x205f), (0x3000, 0x3000)]

/-- Whether a character is white space. -/
def isBlank (c : Char) : Bool := ranges.any fun r => r.1 ≤ c.toNat && c.toNat ≤ r.2

/-- Spaces, tabs and line breaks are white space. -/
theorem isBlank_of_isWhitespace {c : Char} (h : c.isWhitespace = true) : isBlank c = true := by
  simp only [Char.isWhitespace, Bool.or_eq_true, decide_eq_true_eq] at h
  rcases h with ((rfl | rfl) | rfl) | rfl <;> rfl

/-- Characters without the white space at both ends. -/
def trimChars (cs : List Char) : List Char :=
  ((cs.dropWhile isBlank).reverse.dropWhile isBlank).reverse

/-- Text without the white space at both ends. -/
def trim (s : String) : String := String.ofList (trimChars s.toList)

end SegmentIndex.Text.Blank
