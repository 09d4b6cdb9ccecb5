/-!
# TOML text

The smallest parts of a TOML document: blanks, comments, line ends, strings in their four forms, and
keys. A reader takes the characters that are left and gives what it has read together with the
characters after it, or nothing if what stands there is not what it reads.
-/

namespace SegmentIndex.Toml

/-! ## Blanks and line ends -/

/-- A space or a tab. -/
def isBlank (c : Char) : Bool := c = ' ' || c = '\t'

/-- Whether a character may stand in a comment: all but the controls other than the tab. -/
def isCommentChar (c : Char) : Bool := c = '\t' || (0x20 ≤ c.toNat && c.toNat ≠ 0x7F)

/-- Leaves out spaces and tabs. -/
def skipBlanks (s : List Char) : List Char := s.dropWhile isBlank

/-- Leaves out a comment up to the end of its line. -/
def skipComment : List Char → List Char
  | '#' :: s => s.dropWhile isCommentChar
  | s => s

/-- What follows a line break. A carriage return breaks a line only before a line feed. -/
def newline? : List Char → Option (List Char)
  | '\n' :: s => some s
  | '\r' :: '\n' :: s => some s
  | _ => none

/-- What follows the rest of a line that holds nothing more than blanks and a comment. -/
def lineEnd? (s : List Char) : Option (List Char) :=
  match skipComment (skipBlanks s) with
  | [] => some []
  | rest => newline? rest

/-- Leaves out blanks and line breaks. -/
def skipLines : List Char → List Char
  | '\n' :: s => skipLines s
  | '\r' :: '\n' :: s => skipLines s
  | c :: s => if isBlank c then skipLines s else c :: s
  | [] => []

/-- Leaves out blanks, line breaks and comments. -/
def skipSpace (inComment : Bool) : List Char → List Char
  | '\n' :: s => skipSpace false s
  | '\r' :: '\n' :: s => skipSpace false s
  | c :: s =>
    if inComment then if isCommentChar c then skipSpace true s else c :: s
    else if isBlank c then skipSpace false s
    else if c = '#' then skipSpace true s
    else c :: s
  | [] => []

/-! ## Strings -/

/-- The value of a hexadecimal digit. -/
def hexValue? (c : Char) : Option Nat :=
  if '0' ≤ c ∧ c ≤ '9' then some (c.toNat - 48)
  else if 'a' ≤ c ∧ c ≤ 'f' then some (c.toNat - 87)
  else if 'A' ≤ c ∧ c ≤ 'F' then some (c.toNat - 55)
  else none

/-- The character with the code point that exactly `n` hexadecimal digits spell. -/
def codePoint? (n : Nat) (digits : List Char) : Option Char := do
  guard (digits.length = n)
  let value ← digits.foldlM (fun v c => (hexValue? c).map (v * 16 + ·)) 0
  if h : value.isValidChar then some (Char.ofNatAux value h) else none

/-- The character that an escape of one letter stands for. -/
def escaped? : Char → Option Char
  | 'b' => some '\x08'
  | 'f' => some '\x0c'
  | 'n' => some '\n'
  | 'r' => some '\r'
  | 't' => some '\t'
  | '"' => some '"'
  | '\\' => some '\\'
  | _ => none

/-- An escape, after its backslash. -/
def escape? : List Char → Option (Char × List Char)
  | 'u' :: s => (codePoint? 4 (s.take 4)).map (·, s.drop 4)
  | 'U' :: s => (codePoint? 8 (s.take 8)).map (·, s.drop 8)
  | c :: s => (escaped? c).map (·, s)
  | [] => none

theorem length_le_of_escape? {s rest : List Char} {c : Char} (h : escape? s = some (c, rest)) :
    rest.length ≤ s.length := by
  unfold escape? at h
  split at h
  · obtain ⟨_, _, h⟩ := Option.map_eq_some_iff.1 h
    cases h
    simp only [List.length_drop, List.length_cons]
    omega
  · obtain ⟨_, _, h⟩ := Option.map_eq_some_iff.1 h
    cases h
    simp only [List.length_drop, List.length_cons]
    omega
  · obtain ⟨_, _, h⟩ := Option.map_eq_some_iff.1 h
    cases h
    simp
  · cases h

/-- The rest of a string in double quotes on one line. -/
def basicString (s : List Char) : Option (List Char × List Char) :=
  match s with
  | '"' :: s => some ([], s)
  | '\\' :: s =>
    match _h : escape? s with
    | some (c, rest) => do
      let (text, rest) ← basicString rest
      return (c :: text, rest)
    | none => none
  | c :: s =>
    if isCommentChar c then do
      let (text, rest) ← basicString s
      return (c :: text, rest)
    else
      none
  | [] => none
termination_by s.length
decreasing_by
  · have := length_le_of_escape? _h
    simp only [List.length_cons]
    omega
  · simp

/-- The rest of a string in single quotes on one line, where nothing is escaped. -/
def literalString : List Char → Option (List Char × List Char)
  | '\'' :: s => some ([], s)
  | c :: s =>
    if isCommentChar c then do
      let (text, rest) ← literalString s
      return (c :: text, rest)
    else
      none
  | [] => none

/-- The end of a string in triple quotes, after the first three quotes in a row: up to two more
belong to the text. -/
def closeTriple (quote : Char) (s : List Char) : List Char × List Char :=
  let extra := (s.takeWhile (· = quote)).take 2
  (extra, s.drop extra.length)

/-- What follows a backslash at the end of a line: it takes all blanks and line breaks away. -/
def continuation? (s : List Char) : Option (List Char) :=
  (newline? (skipBlanks s)).map skipLines

theorem length_le_of_newline? {s rest : List Char} (h : newline? s = some rest) :
    rest.length ≤ s.length := by
  unfold newline? at h
  split at h
  · cases h; simp
  · cases h; simp only [List.length_cons]; omega
  · cases h

theorem length_skipLines_le (s : List Char) : (skipLines s).length ≤ s.length := by
  fun_induction skipLines s with
  | case1 s ih => simp only [List.length_cons]; omega
  | case2 s ih => simp only [List.length_cons]; omega
  | case3 c s _ _ hc ih => simp only [List.length_cons]; omega
  | case4 => exact Nat.le_refl _
  | case5 => exact Nat.le_refl _

theorem length_le_of_continuation? {s rest : List Char} (h : continuation? s = some rest) :
    rest.length ≤ s.length := by
  obtain ⟨t, ht, rfl⟩ := Option.map_eq_some_iff.1 h
  have h₁ := length_le_of_newline? ht
  have h₂ := length_skipLines_le t
  have h₃ : (skipBlanks s).length ≤ s.length := (List.dropWhile_sublist _).length_le
  omega

/-- The rest of a string in three double quotes. -/
def multilineBasic (s : List Char) : Option (List Char × List Char) :=
  match s with
  | '"' :: '"' :: '"' :: s => some (closeTriple '"' s)
  | '\\' :: s =>
    match _h : continuation? s with
    | some rest => multilineBasic rest
    | none =>
      match _h : escape? s with
      | some (c, rest) => do
        let (text, rest) ← multilineBasic rest
        return (c :: text, rest)
      | none => none
  | '\r' :: '\n' :: s => do
    let (text, rest) ← multilineBasic s
    return ('\n' :: text, rest)
  | c :: s =>
    if c = '\n' || isCommentChar c then do
      let (text, rest) ← multilineBasic s
      return (c :: text, rest)
    else
      none
  | [] => none
termination_by s.length
decreasing_by
  · have := length_le_of_continuation? _h
    simp only [List.length_cons]
    omega
  · have := length_le_of_escape? _h
    simp only [List.length_cons]
    omega
  · simp only [List.length_cons]
    omega
  · simp

/-- The rest of a string in three single quotes, where nothing is escaped. -/
def multilineLiteral : List Char → Option (List Char × List Char)
  | '\'' :: '\'' :: '\'' :: s => some (closeTriple '\'' s)
  | '\r' :: '\n' :: s => do
    let (text, rest) ← multilineLiteral s
    return ('\n' :: text, rest)
  | c :: s =>
    if c = '\n' || isCommentChar c then do
      let (text, rest) ← multilineLiteral s
      return (c :: text, rest)
    else
      none
  | [] => none

/-- A line break right after three opening quotes is not part of the text. -/
def dropFirstBreak (s : List Char) : List Char := (newline? s).getD s

/-- A string in any of its forms. -/
def string? : List Char → Option (String × List Char)
  | '"' :: '"' :: '"' :: s => (multilineBasic (dropFirstBreak s)).map (·.map .ofList id)
  | '"' :: s => (basicString s).map (·.map .ofList id)
  | '\'' :: '\'' :: '\'' :: s => (multilineLiteral (dropFirstBreak s)).map (·.map .ofList id)
  | '\'' :: s => (literalString s).map (·.map .ofList id)
  | _ => none

/-! ## Keys -/

/-- Whether a character may stand in a key without quotes. -/
def isBareChar (c : Char) : Bool := c.isAlphanum || c = '-' || c = '_'

/-- One part of a key: a string on one line, or some letters, digits, hyphens and underscores. -/
def keyPart? : List Char → Option (String × List Char)
  | '"' :: s => (basicString s).map (·.map .ofList id)
  | '\'' :: s => (literalString s).map (·.map .ofList id)
  | s =>
    let name := s.takeWhile isBareChar
    if name.isEmpty then none else some (.ofList name, s.drop name.length)

/-- The parts of a dotted key, of which there are at most as many as `fuel`. Blanks may stand around
each part. -/
def keyParts? : Nat → List Char → Option (List String × List Char)
  | 0, _ => none
  | fuel + 1, s => do
    let (part, rest) ← keyPart? (skipBlanks s)
    match skipBlanks rest with
    | '.' :: rest => do
      let (parts, rest) ← keyParts? fuel rest
      return (part :: parts, rest)
    | rest => return ([part], rest)

/-- The greatest number of parts that a key may have. -/
def maxKeyParts : Nat := 79

/-- A key, as the path before its last part and the last part. -/
def key? (s : List Char) : Option ((List String × String) × List Char) := do
  let (parts, rest) ← keyParts? maxKeyParts s
  let last ← parts.getLast?
  return ((parts.dropLast, last), rest)

end SegmentIndex.Toml
