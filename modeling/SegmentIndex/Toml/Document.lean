import SegmentIndex.Toml.Scalar

/-!
# TOML documents

A document is a list of statements: headers, headers in double brackets, and assignments. `parse?`
reads them one after another, starting from an empty root table, and carries each of them out before
it reads the next.
-/

namespace SegmentIndex.Toml

/-! ## Values -/

/-- The greatest depth to which arrays and inline tables may be nested. -/
def maxDepth : Nat := 79

mutual

/-- A value, in which brackets and braces are nested at most `room` deep. -/
def value? : Nat → Nat → List Char → Option (Value × List Char)
  | 0, _, _ => none
  | fuel + 1, room, s =>
    match s, room with
    -- brackets and braces
    | '[' :: _, 0 | '\x7b' :: _, 0 => none
    | '[' :: s, room + 1 =>
      match skipSpace false s with
      | ']' :: rest => some (.array [], rest)
      | rest => (items? fuel room rest).map (·.map .array id)
    | '\x7b' :: s, room + 1 =>
      match skipBlanks s with
      | '\x7d' :: rest => some (.table .inline [], rest)
      | rest => do
        let (pairs, rest) ← pairs? fuel room rest
        let entries ← Entries.ofAssignments pairs
        return (.table .inline entries, rest)
    -- everything else
    | '"' :: _, _ | '\'' :: _, _ => (string? s).map (·.map .string id)
    | _, _ => readScalar? s

/-- The items of an array, of which there is at least one. -/
def items? : Nat → Nat → List Char → Option (List Value × List Char)
  | 0, _, _ => none
  | fuel + 1, room, s => do
    let (item, rest) ← value? fuel room s
    match skipSpace false rest with
    | ']' :: rest => return ([item], rest)
    | ',' :: rest =>
      match skipSpace false rest with
      | ']' :: rest => return ([item], rest)
      | rest => do
        let (items, rest) ← items? fuel room rest
        return (item :: items, rest)
    | _ => none

/-- The assignments of an inline table, of which there is at least one. -/
def pairs? : Nat → Nat → List Char → Option (List (List String × String × Value) × List Char)
  | 0, _, _ => none
  | fuel + 1, room, s => do
    let ((path, key), rest) ← key? s
    match rest with
    | '=' :: rest => do
      let (value, rest) ← value? fuel room (skipBlanks rest)
      match skipBlanks rest with
      | '\x7d' :: rest => return ([(path, key, value)], rest)
      | ',' :: rest => do
        let (pairs, rest) ← pairs? fuel room rest
        return ((path, key, value) :: pairs, rest)
      | _ => none
    | _ => none

end

/-! ## Statements -/

/-- A statement of a document. -/
inductive Statement where
  /-- A header opens a table. -/
  | header (path : List String) (key : String)
  /-- A header in double brackets opens one more table under its name. -/
  | element (path : List String) (key : String)
  /-- An assignment binds a key in the table opened last. -/
  | assignment (path : List String) (key : String) (value : Value)

/-- One statement up to the end of its line. `fuel` bounds the steps that its value may take. -/
def statement? (fuel : Nat) (s : List Char) : Option (Statement × List Char) :=
  match s with
  | '[' :: '[' :: s => do
    let ((path, key), rest) ← key? s
    match rest with
    | ']' :: ']' :: rest => return (.element path key, ← lineEnd? rest)
    | _ => none
  | '[' :: s => do
    let ((path, key), rest) ← key? s
    match rest with
    | ']' :: rest => return (.header path key, ← lineEnd? rest)
    | _ => none
  | s => do
    let ((path, key), rest) ← key? s
    match rest with
    | '=' :: rest => do
      let (value, rest) ← value? fuel maxDepth (skipBlanks rest)
      return (.assignment path key value, ← lineEnd? rest)
    | _ => none

/-! ## Documents -/

/-- What a document says so far, and the header that was opened last. -/
structure Progress where
  root : Entries
  opened : List String

/-- Carries out one statement. -/
def Progress.step (p : Progress) : Statement → Option Progress
  | .header path key => do return ⟨← p.root.openTable path key, path ++ [key]⟩
  | .element path key => do return ⟨← p.root.openElement path key, path ++ [key]⟩
  | .assignment path key value => do
    let (_, root) ← p.root.alterAt .header
      (fun origin entries => entries.assign path key value origin) p.opened .header
    return ⟨root, p.opened⟩

/-- Reads and carries out the statements in at most `size` characters, one on a line at most. Each
line takes at least one character, and so do every two steps of reading a value. -/
def Progress.read? : Nat → List Char → Progress → Option Progress
  | 0, s, p => if s.isEmpty then some p else none
  | size + 1, s, p =>
    match skipBlanks s with
    | [] => some p
    | c :: s =>
      if c = '#' || c = '\n' || c = '\r' then do
        read? size (← lineEnd? (c :: s)) p
      else do
        let (statement, rest) ← statement? (2 * size + 4) (c :: s)
        read? size rest (← p.step statement)

/-- The contents of a document, if it is well-formed. A byte order mark in front is left out. -/
def parse? (s : String) : Option Entries :=
  let chars := match s.toList with
    | '\ufeff' :: rest => rest
    | chars => chars
  (Progress.read? chars.length chars ⟨[], []⟩).map (·.root)

end SegmentIndex.Toml
