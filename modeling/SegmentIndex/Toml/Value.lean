/-!
# TOML values and tables

What a TOML document says. Tables remember how they came to be, because that decides who may still
add to them: a table opened by its own header, a table that exists only as part of the path of a
header, a table written by dotted keys, or an inline table, which is complete as it stands.
-/

namespace SegmentIndex.Toml

/-- How a table came to be. -/
inductive Origin where
  /-- It stands in braces. -/
  | inline
  /-- It is part of the path of a dotted key. -/
  | dotted
  /-- It is part of the path of a header. -/
  | implied
  /-- It has a header of its own, or is the root of the document. -/
  | header
  deriving DecidableEq

/-- A TOML value. Floats, dates and times are kept as they are written. -/
inductive Value where
  | string (text : String)
  | integer (value : Int)
  | float (literal : String)
  | boolean (value : Bool)
  | moment (literal : String)
  | array (items : List Value)
  | table (origin : Origin) (entries : List (String × Value))
  /-- The tables that headers in double brackets have opened under one name: the last of them, and
  those before it, latest first. -/
  | tables (last : List (String × Value)) (earlier : List (List (String × Value)))

/-- The contents of a table, in the order in which the keys first occur. -/
abbrev Entries := List (String × Value)

/-- What a key is bound to. -/
def Entries.find? (t : Entries) (key : String) : Option Value := List.lookup key t

/-- The entries with a key bound anew, in its old place if it has one. -/
def Entries.put (key : String) (value : Value) : Entries → Entries
  | [] => [(key, value)]
  | (k, v) :: rest => if k = key then (k, value) :: rest else (k, v) :: put key value rest

/-- The kind of path that leads from one table to another. -/
inductive Path where
  /-- The path in a header: it may lead through any table that is not inline. -/
  | header
  /-- The path before the last part of a dotted key: it may lead only through tables that have no
  header of their own. -/
  | dotted

/-- The origin of a table that a path creates on its way. -/
def Path.creates : Path → Origin
  | header => .implied
  | dotted => .dotted

/-- Whether a path may lead through a table. -/
def Path.enters : Path → Origin → Bool
  | header, o => o ≠ .inline
  | dotted, o => o = .dotted || o = .implied

/-- Changes the table at the end of a path, creating the tables that are missing on the way. Of the
tables under one name the path takes the last. -/
def Entries.alterAt (kind : Path) (change : Origin → Entries → Option (Origin × Entries)) :
    List String → Origin → Entries → Option (Origin × Entries)
  | [], origin, t => change origin t
  | key :: path, origin, t =>
    match t.find? key with
    | none => do
      let (o, u) ← alterAt kind change path kind.creates []
      return (origin, t.put key (.table o u))
    | some (.table o u) =>
      if kind.enters o then do
        let (o, u) ← alterAt kind change path o u
        return (origin, t.put key (.table o u))
      else
        none
    | some (.tables last earlier) => do
      let (_, last) ← alterAt kind change path .header last
      return (origin, t.put key (.tables last earlier))
    | some _ => none

/-- Binds a dotted key. Its path must end in a table written by dotted keys, and its last part must
be new there. -/
def Entries.assign (path : List String) (key : String) (value : Value) (origin : Origin)
    (t : Entries) : Option (Origin × Entries) :=
  t.alterAt .dotted
    (fun o u =>
      if (path.isEmpty || o = .dotted) && (u.find? key).isNone then some (o, u.put key value)
      else none)
    path origin

/-- The entries of an inline table that some dotted keys bind. -/
def Entries.ofAssignments (pairs : List (List String × String × Value)) : Option Entries :=
  pairs.foldlM
    (fun t pair => do
      let (_, t) ← t.assign pair.1 pair.2.1 pair.2.2 .inline
      return t)
    []

/-- Opens the table of a header: a new one, or one that so far exists only as part of a path. -/
def Entries.openTable (path : List String) (key : String) (t : Entries) : Option Entries := do
  let (_, t) ← t.alterAt .header
    (fun o u =>
      match u.find? key with
      | none => some (o, u.put key (.table .header []))
      | some (.table .implied entries) => some (o, u.put key (.table .header entries))
      | some _ => none)
    path .header
  return t

/-- Opens one more of the tables under the name of a header in double brackets. -/
def Entries.openElement (path : List String) (key : String) (t : Entries) : Option Entries := do
  let (_, t) ← t.alterAt .header
    (fun o u =>
      match u.find? key with
      | none => some (o, u.put key (.tables [] []))
      | some (.tables last earlier) => some (o, u.put key (.tables [] (last :: earlier)))
      | some _ => none)
    path .header
  return t

end SegmentIndex.Toml
