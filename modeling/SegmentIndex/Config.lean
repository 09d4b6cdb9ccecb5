import SegmentIndex.Toml.Document
import SegmentIndex.Writer

/-!
# Configuration

What a user may configure. Every setting may be left out, and then its default holds; only when the
configuration is resolved does it turn out whether the hash algorithm asked for exists.

A configuration is a TOML document with one table, `writer`. The table may also be written as an
array, which gives the fields by position; whatever comes after them is ignored. Nothing that the
configuration does not know may occur.

It can be overridden by variables whose names start with a fixed mark. What follows the mark names a
section and a field, in any case and with two underscores between them. Variables without the mark
are passed over; one with the mark that names nothing is an error.
-/

namespace SegmentIndex

/-- The settings of a writer that a user asks for. -/
structure WriterSection where
  /-- The least size of a batch that is hashed off the calling thread. -/
  offloadThreshold : Option Nat := none
  hashAlgorithm : Option String := none
  deriving DecidableEq

/-- A configuration. -/
structure Config where
  writer : Option WriterSection := none
  deriving DecidableEq

/-- Why a configuration was refused. -/
inductive ConfigError where
  /-- The file could not be read as text. -/
  | io
  /-- The file is not a well-formed configuration. -/
  | toml
  /-- A value does not suit its key. -/
  | invalidValue (key value : String)
  | unknownKey (key : String)
  deriving DecidableEq

/-- The text of an error. What is wrong with a file is not said here. -/
def ConfigError.message : ConfigError → String
  | io => "io error"
  | toml => "toml parse error"
  | invalidValue key value => s!"invalid value for {key}: {value}"
  | unknownKey key => s!"unknown config key: {key}"

namespace WriterSection

/-- The algorithm that the section asks for. -/
def algorithm (w : WriterSection) : Except ConfigError HashAlgorithm :=
  match w.hashAlgorithm with
  | none => .ok .xxh3
  | some name =>
    match HashAlgorithm.parse? name with
    | some a => .ok a
    | none => .error (.invalidValue "writer.hash_algorithm" name)

/-- The settings that the section comes to. A threshold of zero counts as one. -/
def resolve (w : WriterSection) : Except ConfigError WriterConfig := do
  let algorithm ← w.algorithm
  let standard : WriterConfig := {}
  let threshold := (w.offloadThreshold.map (max · 1)).getD standard.offloadThreshold
  return { offloadThreshold := threshold, hashAlgorithm := algorithm }

end WriterSection

/-- The settings of the writer that a configuration comes to. -/
def Config.resolve (c : Config) : Except ConfigError WriterConfig :=
  (c.writer.getD {}).resolve

/-! ## Overrides -/

namespace Config

/-- What the name of every override starts with. -/
def overrideMark : String := "OXITABLE__"

/-- The name of an override without its mark, if it has the mark. -/
def unmark? (name : String) : Option (List Char) :=
  if overrideMark.toList.isPrefixOf name.toList then
    some (name.toList.drop overrideMark.toList.length)
  else
    none

/-- A setting that can be overridden. -/
inductive Field where
  | offloadThreshold
  | hashAlgorithm
  deriving DecidableEq

/-- The field that the rest of a name stands for. Case matters only beyond ASCII. -/
def Field.ofName? (name : List Char) : Option Field :=
  let name := name.map Char.toLower
  if name = "writer__offload_threshold".toList then some offloadThreshold
  else if name = "writer__hash_algorithm".toList then some hashAlgorithm
  else none

/-- The greatest threshold there is. -/
def maxThreshold : Nat := 0xffffffffffffffff

/-- The threshold that a text spells: decimal digits, perhaps after a plus sign. -/
def threshold? (text : String) : Option Nat :=
  let digits := match text.toList with
    | '+' :: s => s
    | s => s
  if digits.isEmpty || !digits.all Char.isDigit then none
  else
    let n := digits.foldl (fun n c => 10 * n + (c.toNat - 48)) 0
    if n ≤ maxThreshold then some n else none

/-- The writer's section, which comes into being when something is put into it. -/
def writerSection (c : Config) : WriterSection := c.writer.getD {}

/-- The configuration with one field set from a text, under the name that asked for it. -/
def set (c : Config) (name : String) (text : String) : Field → Except ConfigError Config
  | .offloadThreshold =>
    match threshold? text with
    | some n => .ok { writer := some { c.writerSection with offloadThreshold := some n } }
    | none => .error (.invalidValue name text)
  | .hashAlgorithm => .ok { writer := some { c.writerSection with hashAlgorithm := some text } }

/-- The configuration after one variable. -/
def override (c : Config) (name value : String) : Except ConfigError Config :=
  match unmark? name with
  | none => .ok c
  | some rest =>
    match Field.ofName? rest with
    | some field => c.set name (Text.Blank.trim value) field
    | none => .error (.unknownKey name)

/-- The configuration after some variables, taken in order. The first error ends the run, and what
was set before it stays set. -/
def applyOverrides (c : Config) : List (String × String) → Config × Option ConfigError
  | [] => (c, none)
  | (name, value) :: rest =>
    match c.override name value with
    | .ok c => c.applyOverrides rest
    | .error e => (c, some e)

end Config

/-! ## Loading a configuration -/

open Toml (Value Entries)

namespace WriterSection

/-- The section with one more field from a document. -/
def withField (w : WriterSection) (key : String) (value : Value) : Option WriterSection :=
  match key, value with
  | "offload_threshold", .integer n =>
    if 0 ≤ n then some { w with offloadThreshold := some n.toNat } else none
  | "hash_algorithm", .string name => some { w with hashAlgorithm := some name }
  | _, _ => none

/-- The section that a value of a document stands for. -/
def ofValue? : Value → Option WriterSection
  | .table _ entries => entries.foldlM (fun w entry => w.withField entry.1 entry.2) {}
  | .array (threshold :: algorithm :: _) => do
    let w ← withField {} "offload_threshold" threshold
    w.withField "hash_algorithm" algorithm
  | _ => none

end WriterSection

namespace Config

/-- The configuration that the contents of a document stand for. -/
def ofEntries? : Entries → Option Config
  | [] => some {}
  | [("writer", value)] => (WriterSection.ofValue? value).map fun w => { writer := some w }
  | _ => none

/-- The configuration that a document stands for. -/
def ofToml (document : String) : Except ConfigError Config :=
  match (Toml.parse? document).bind ofEntries? with
  | some c => .ok c
  | none => .error .toml

/-- The configuration in a file, of which the bytes are given if it can be read. -/
def ofFile (contents : Option ByteArray) : Except ConfigError Config :=
  match contents.bind String.fromUTF8? with
  | some document => ofToml document
  | none => .error .io

/-- The variable that names the configuration's file. -/
def fileVariable : String := "OXITABLE_CONFIG"

/-- The configuration that an environment asks for: the file that it names, or else the empty
configuration, with all of the environment's variables applied to it. -/
def ofEnvironment (read : String → Option ByteArray) (environment : List (String × String)) :
    Except ConfigError Config := do
  let c ← match environment.lookup fileVariable with
    | some path => ofFile (read path)
    | none => .ok {}
  match c.applyOverrides environment with
  | (c, none) => return c
  | (_, some e) => throw e

end Config

end SegmentIndex
