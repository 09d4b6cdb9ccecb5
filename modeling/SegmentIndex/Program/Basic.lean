import SegmentIndex.Bucket
import SegmentIndex.Error

/-!
# Programs

The index talks to a segment one call at a time, and other clients may talk to the same segment
between two of its calls. So an operation of the index is a program: a tree of calls in which the
reply to each call decides how it goes on. A program says nothing about who answers. `Program.run`
runs it to its end against one server, with nobody in between; interleaved runs take the calls of
several programs in turn.

A program may also crash, which leaves the segment as the calls before it have left it. While it
works, it reports events for the log of the process that runs it; they have no influence on what
happens.
-/

namespace SegmentIndex

/-! ## Events -/

/-- Something worth a line in a log. -/
inductive Event where
  /-- So many updates are handed to another thread for hashing. -/
  | offloading (updates : Nat)
  /-- So many updates with so many different hashes are about to be grouped. -/
  | grouping (updates hashes : Nat)
  /-- A plan turned out to change nothing. -/
  | unchanged (segment : SegmentId) (first last : Offset)
  /-- The batch of a plan is about to be written. -/
  | applying (segment : SegmentId) (first last : Offset) (mutations : Nat)
  /-- The batch was refused because the checkpoint is no longer where the plan started. -/
  | stale (segment : SegmentId) (first : Offset) (cause : IndexError)

/-- How much an event matters. -/
inductive Event.Level where
  | trace
  | debug
  | warn

namespace Event

instance : ToString Level where
  toString
    | .trace => "TRACE"
    | .debug => "DEBUG"
    | .warn => "WARN"

/-- How much an event matters. -/
def level : Event → Level
  | offloading _ | grouping .. => .trace
  | unchanged .. | applying .. => .debug
  | stale .. => .warn

/-- What an event says. -/
def message : Event → String
  | offloading _ => "offloading key hashing to blocking pool"
  | grouping .. => "grouping key updates by bucket"
  | unchanged .. => "index writer: no changes"
  | applying .. => "index writer: applying attribute updates"
  | stale .. => "index writer: table index offset moved, bucket updates are stale"

/-- The fields of the segment and the stretch of its log. -/
def rangeFields (segment : SegmentId) (first last : Offset) : List (String × String) :=
  [("segment_id", toString segment), ("first_indexed_offset", toString first),
    ("last_indexed_offset", toString last)]

/-- The details of an event. -/
def fields : Event → List (String × String)
  | offloading updates => [("update_count", toString updates)]
  | grouping updates hashes =>
    [("update_count", toString updates), ("hash_count", toString hashes)]
  | unchanged segment first last => rangeFields segment first last
  | applying segment first last mutations =>
    rangeFields segment first last ++ [("update_count", toString mutations)]
  | stale segment first cause =>
    [("segment_id", toString segment), ("first_indexed_offset", toString first),
      ("error", cause.message)]

end Event

/-! ## Calls and programs -/

/-- The values of some attributes. Attributes that were never set are missing. -/
abbrev AttributeValues := Std.ExtTreeMap AttributeKey AttributeValue

/-- The values that a function gives for some keys. -/
def AttributeValues.select (f : AttributeKey → Option AttributeValue) (keys : List AttributeKey) :
    AttributeValues :=
  keys.foldl (fun values key => values.alter key fun _ => f key) ∅

/-- A call to a segment. -/
inductive Call where
  | readAttributes (keys : List AttributeKey)
  /-- Applies a batch of mutations, all or none. -/
  | writeAttributes (batch : List Mutation)
  /-- Reads the key of the entry that starts at an offset. -/
  | readKey (offset : Offset)
  | readLength
  /-- Reads the entries that start at the first offset or later and before the second. -/
  | readUpdates (first last : Offset)

/-- What a segment replies to a call. -/
@[reducible] def Call.Reply : Call → Type
  | .readAttributes _ => Except StoreError AttributeValues
  | .writeAttributes _ => Except ApplyError Unit
  | .readKey _ => Except StoreError (Option TableKey)
  | .readLength => Offset
  | .readUpdates .. => Option (List KeyUpdate)

/-- An operation that works by calls to a segment. -/
inductive Program (α : Type) : Type where
  | done (value : α)
  | crash
  /-- The operation reports an event and goes on. -/
  | note (event : Event) (rest : Program α)
  /-- The operation calls the segment and goes on with the reply. -/
  | call (c : Call) (rest : c.Reply → Program α)

namespace Program

variable {α β γ : Type}

/-- One program, and then another that depends on how the first one ended. -/
def bind : Program α → (α → Program β) → Program β
  | done a, f => f a
  | crash, _ => crash
  | note e p, f => note e (p.bind f)
  | call c k, f => call c fun reply => (k reply).bind f

instance : Monad Program where
  pure := done
  bind := bind

theorem bind_done (p : Program α) : p.bind done = p := by
  induction p with
  | done => rfl
  | crash => rfl
  | note e p ih => simp only [bind, ih]
  | call c k ih => simp only [bind, ih]

theorem bind_assoc (p : Program α) (f : α → Program β) (g : β → Program γ) :
    (p.bind f).bind g = p.bind fun a => (f a).bind g := by
  induction p with
  | done => rfl
  | crash => rfl
  | note e p ih => simp only [bind, ih]
  | call c k ih => simp only [bind, ih]

instance : LawfulMonad Program :=
  LawfulMonad.mk' Program bind_done (fun _ _ => rfl) bind_assoc

/-- How a run ended. -/
structure Outcome (σ α : Type) where
  /-- What the program gave, unless it crashed. -/
  value : Option α
  events : List Event
  state : σ

/-- Who answers the calls: from a state and a call, the reply and the state after it. -/
abbrev Server (σ : Type) := (c : Call) → σ → c.Reply × σ

/-- Runs a program to its end. -/
def run {σ : Type} (server : Server σ) : Program α → σ → Outcome σ α
  | done a, s => ⟨some a, [], s⟩
  | crash, s => ⟨none, [], s⟩
  | note e p, s =>
    let o := run server p s
    { o with events := e :: o.events }
  | call c k, s =>
    let (reply, s) := server c s
    run server (k reply) s

end Program

/-! ## Single calls -/

/-- A program that may end in an error. -/
abbrev Attempt (ε α : Type) := ExceptT ε Program α

namespace Attempt

/-- Reads some attributes. -/
def readAttributes (keys : List AttributeKey) : Attempt StoreError AttributeValues :=
  .mk (.call (.readAttributes keys) .done)

/-- Applies a batch of mutations, all or none. -/
def writeAttributes (batch : List Mutation) : Attempt ApplyError Unit :=
  .mk (.call (.writeAttributes batch) .done)

/-- Reads the key of the entry that starts at an offset. -/
def readKey (offset : Offset) : Attempt StoreError (Option TableKey) :=
  .mk (.call (.readKey offset) .done)

/-- Asks for the end of the log. -/
def readLength {ε : Type} : Attempt ε Offset :=
  .lift (.call .readLength .done)

/-- Reads the entries that start in a stretch of the log. The program crashes if the segment does
not answer. -/
def readUpdates {ε : Type} (first last : Offset) : Attempt ε (List KeyUpdate) :=
  .lift (.call (.readUpdates first last) fun
    | some updates => .done updates
    | none => .crash)

/-- Reports an event. -/
def note {ε : Type} (e : Event) : Attempt ε Unit := .lift (.note e (.done ()))

/-- Breaks down. -/
def crash {ε α : Type} : Attempt ε α := .lift .crash

/-- An attempt on the store as part of an operation of the index. -/
def ofStore {α : Type} (p : Attempt StoreError α) : Attempt IndexError α := p.adapt .store

end Attempt

end SegmentIndex
