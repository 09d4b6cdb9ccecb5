import SegmentIndex.Program.Basic

/-!
# Segments

A segment is a log together with its attributes. It counts the reads that it has served and the
batches that it has applied, it can be sealed against every further write, and for the sake of
clients that must cope with trouble, its next read or its next batch can be made to fail.

A log is a row of entries, one behind another. Each entry takes a header and the bytes of its key,
and its offset is where it starts. Entries are only ever added at the end.

Attributes are kept under their ids, and what they physically hold may be the absent value: then
they count as missing wherever a condition is checked, but they are still there. A batch is staged
first. Each mutation sees what those before it have staged; only if none of them fails is everything
written.

`Segment.serve` answers the calls of programs.
-/

namespace SegmentIndex

/-! ## The log -/

/-- An entry of a log: a key, and whether the entry removes it. -/
structure LogEntry where
  key : TableKey
  removal : Bool
  deriving DecidableEq

/-- The bytes that an entry takes besides its key. -/
def LogEntry.headerLength : Nat := 16

/-- The bytes that an entry with a key takes. -/
def LogEntry.sizeFor (key : TableKey) : Nat := headerLength + key.length

/-- The change that an entry makes. -/
def LogEntry.toUpdate (start : Offset) (e : LogEntry) : KeyUpdate := ⟨⟨start, e.removal⟩, e.key⟩

/-- The log of a segment. -/
structure Log where
  /-- The entries, by where they start. -/
  entries : Std.ExtTreeMap Offset LogEntry
  /-- Where the last entry ends. -/
  length : Offset

namespace Log

/-- The log without entries. -/
def empty : Log := ⟨∅, .zero⟩

/-- The log with one more entry at its end, if there are offsets left for it. -/
def append? (log : Log) (key : TableKey) (removal : Bool) : Option Log := do
  let length ← log.length.add? (LogEntry.sizeFor key)
  return ⟨log.entries.insert log.length ⟨key, removal⟩, length⟩

/-- The key of the entry that starts at an offset, if one does that does not remove its key. -/
def liveKeyAt? (log : Log) (o : Offset) : Option TableKey :=
  (log.entries[o]?.filter (!·.removal)).map (·.key)

/-- The changes of the entries that start at the first offset or later and before the second. The
log refuses to answer for a stretch that ends before it starts, unless it is empty itself. -/
def updatesIn? (log : Log) (first last : Offset) : Option (List KeyUpdate) :=
  if log.entries.isEmpty then some []
  else if last < first then none
  else
    some ((log.entries.toList.filter fun (start, _) => first ≤ start && start < last).map
      fun (start, e) => e.toUpdate start)

end Log

/-! ## The attributes -/

/-- The attributes of a segment, as they are physically kept. -/
abbrev Attributes := Std.ExtTreeMap AttributeId AttributeValue

namespace Attributes

/-- What an attribute physically holds, if it was ever set. -/
def get? (a : Attributes) (key : AttributeKey) : Option AttributeValue := a[key.toId]?

/-- The offset that an attribute holds, if it holds one. -/
def offset? (a : Attributes) (key : AttributeKey) : Option Offset :=
  (a.get? key).bind Offset.ofValue?

/-- Adds what is kept under an id to a snapshot, if it is an offset of an attribute. -/
def addLive (live : Std.ExtTreeMap AttributeKey Offset) (p : AttributeId × AttributeValue) :
    Std.ExtTreeMap AttributeKey Offset :=
  match AttributeKey.ofId? p.1, Offset.ofValue? p.2 with
  | some key, some o => live.insert key o
  | _, _ => live

/-- The attributes that hold offsets. -/
def live (a : Attributes) : Std.ExtTreeMap AttributeKey Offset := a.toList.foldl addLive ∅

/-- What an attribute holds for a mutation of a batch: what is staged for it, or else what is
written. -/
def current (a staged : Attributes) (key : AttributeKey) : Option Offset :=
  ((staged.get? key).or (a.get? key)).bind Offset.ofValue?

/-- Stages one more mutation of a batch. -/
def stage (a staged : Attributes) (m : Mutation) : Except ApplyError Attributes :=
  let current := a.current staged m.key
  match m.condition with
  | .absent => .ok (if current.isSome then staged else staged.insert m.key.toId m.physicalValue)
  | .always => .ok (staged.insert m.key.toId m.physicalValue)
  | .holds expected =>
    if current = expected then .ok (staged.insert m.key.toId m.physicalValue)
    else .error (.conflict m.key expected current)

/-- The attributes after a batch, or the first mutation of it that fails. -/
def apply (a : Attributes) (batch : List Mutation) : Except ApplyError Attributes := do
  let staged ← batch.foldlM a.stage ∅
  return a ∪ staged

end Attributes

/-! ## Segments -/

/-- A segment that is kept in memory. -/
structure Segment where
  id : SegmentId
  log : Log
  attributes : Attributes
  /-- Whether the segment refuses every further write. -/
  isSealed : Bool
  /-- The failure of the next attribute read, if it is to fail. -/
  pendingReadFailure : Option StoreError
  /-- The failure of the next batch, if it is to fail. -/
  pendingWriteFailure : Option StoreError
  appliedBatches : UInt64
  attributeReads : UInt64

namespace Segment

/-- A new segment. -/
def empty (id : SegmentId) : Segment where
  id := id
  log := .empty
  attributes := ∅
  isSealed := false
  pendingReadFailure := none
  pendingWriteFailure := none
  appliedBatches := 0
  attributeReads := 0

/-- Adds an entry to the log. -/
def append (s : Segment) (key : TableKey) (removal : Bool) : Except StoreError Offset × Segment :=
  if s.isSealed then (.error (.segmentSealed s.id), s)
  else
    match s.log.append? key removal with
    | some log => (.ok s.log.length, { s with log := log })
    | none => (.error (.segmentFull s.id), s)

/-- Refuses every write from now on. -/
def sealOff (s : Segment) : Segment := { s with isSealed := true }

/-- Makes the next attribute read fail. -/
def failNextRead (s : Segment) (e : StoreError) : Segment :=
  { s with pendingReadFailure := some e }

/-- Makes the next batch fail. -/
def failNextWrite (s : Segment) (e : StoreError) : Segment :=
  { s with pendingWriteFailure := some e }

/-- Reads some attributes. A read that fails is not counted. -/
def readAttributes (s : Segment) (keys : List AttributeKey) :
    Except StoreError AttributeValues × Segment :=
  match s.pendingReadFailure with
  | some e => (.error e, { s with pendingReadFailure := none })
  | none =>
    (.ok (.select s.attributes.get? keys), { s with attributeReads := s.attributeReads + 1 })

/-- Applies a batch of mutations, all or none. A failure that was ordered comes before everything
else, even before the seal. -/
def writeAttributes (s : Segment) (batch : List Mutation) : Except ApplyError Unit × Segment :=
  match s.pendingWriteFailure with
  | some e => (.error (.store e), { s with pendingWriteFailure := none })
  | none =>
    if s.isSealed then (.error (.store (.segmentSealed s.id)), s)
    else
      match s.attributes.apply batch with
      | .ok attributes =>
        (.ok (), { s with attributes := attributes, appliedBatches := s.appliedBatches + 1 })
      | .error e => (.error e, s)

/-- Answers a call. -/
def serve : Program.Server Segment
  | .readAttributes keys, s => s.readAttributes keys
  | .writeAttributes batch, s => s.writeAttributes batch
  | .readKey o, s => (.ok (s.log.liveKeyAt? o), s)
  | .readLength, s => (s.log.length, s)
  | .readUpdates first last, s => (s.log.updatesIn? first last, s)

end Segment

end SegmentIndex
