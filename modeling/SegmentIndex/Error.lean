import SegmentIndex.Attribute

/-!
# Errors

Three layers can fail. The segment's store fails for reasons of its own (`StoreError`); applying a
batch fails either because of the store or because a condition in the batch did not hold
(`ApplyError`); an operation of the index fails because of any of these, because its caller gave
it something inconsistent, or because the attributes it reads make no sense (`IndexError`).

Each error records its cause. The texts are written here and nowhere else. Every failure also maps
to one coarse status, which says no more than what kind of trouble it was and whether trying again
can help.
-/

namespace SegmentIndex

/-! ## Status -/

/-- The outcome of an operation, in one word. -/
inductive Status where
  | ok
  | ioError
  | corruption
  | invalidArgument
  | conflict
  | unavailable
  | sealed
  deriving DecidableEq

namespace Status

/-- The number of a status. -/
def code : Status → Nat
  | ok => 0
  | ioError => 1
  | corruption => 2
  | invalidArgument => 3
  | conflict => 4
  | unavailable => 5
  | sealed => 6

/-- The status with a number. -/
def ofCode? : Nat → Option Status
  | 0 => some ok
  | 1 => some ioError
  | 2 => some corruption
  | 3 => some invalidArgument
  | 4 => some conflict
  | 5 => some unavailable
  | 6 => some sealed
  | _ => none

/-- Whether the operation succeeded. -/
def isOk (s : Status) : Bool := s == ok

/-- Whether the operation failed. -/
def isError (s : Status) : Bool := !s.isOk

/-- Whether the operation may be tried again. After a conflict that makes sense only once the
updates have been rebuilt from what the index holds by then. -/
def isRetryable : Status → Bool
  | conflict | unavailable | ioError => true
  | _ => false

instance : ToString Status where
  toString
    | ok => "Ok"
    | ioError => "IoError"
    | corruption => "Corruption"
    | invalidArgument => "InvalidArgument"
    | conflict => "Conflict"
    | unavailable => "Unavailable"
    | sealed => "Sealed"

theorem ofCode?_code (s : Status) : ofCode? s.code = some s := by cases s <;> rfl

end Status

/-! ## What can fail -/

/-- The number that identifies a segment. -/
abbrev SegmentId := UInt64

/-- Why a segment's store failed. -/
inductive StoreError where
  | io (message : String)
  | unavailable (message : String)
  | segmentSealed (segment : SegmentId)
  | segmentFull (segment : SegmentId)
  /-- An attribute holds a value that stands for nothing. -/
  | invalidAttributeValue (key : AttributeKey) (value : AttributeValue)
  deriving DecidableEq

/-- Why a batch of mutations was not applied. -/
inductive ApplyError where
  /-- A condition of the batch found a value other than the expected one. -/
  | conflict (key : AttributeKey) (expected actual : Option Offset)
  | store (cause : StoreError)
  deriving DecidableEq

/-- How a caller broke its side of the contract. -/
inductive ContractViolation where
  | reversedRange (first last : Offset)
  /-- A bucket has a head but no known keys, or known keys but no head. -/
  | headMismatch (bucket : KeyHash) (hasHead : Bool) (existingKeys : Nat)
  /-- The locator left out a bucket that it was asked for. -/
  | missingBucket (hash : KeyHash)
  | uninitialized (segment : SegmentId)
  /-- A batch put a condition on an attribute other than the checkpoint. -/
  | foreignCondition (key : AttributeKey) (expected actual : Option Offset)
  | other (message : String)
  deriving DecidableEq

/-- What the attributes of a segment describe that cannot be. -/
inductive Corruption where
  /-- A backpointer leads to an entry that is not older. -/
  | forwardLink (source target : Offset) (bucket : KeyHash)
  /-- A chain leads to a place where no live entry starts. -/
  | deadEntry (bucket : KeyHash) (offset : Offset)
  /-- A chain leads to an entry of another bucket. -/
  | foreignEntry (offset : Offset) (bucket : KeyHash)
  | other (message : String)
  deriving DecidableEq

/-- Why an operation of the index failed. -/
inductive IndexError where
  | contractViolation (cause : ContractViolation)
  /-- The checkpoint is no longer where the batch was computed for. -/
  | checkpointConflict (expected : Offset) (actual : Option Offset)
  /-- The attributes describe something that cannot be. -/
  | corruption (cause : Corruption)
  | store (cause : StoreError)
  deriving DecidableEq

/-! ## Texts -/

/-- The text of a store failure. -/
def StoreError.message : StoreError → String
  | io text => s!"io error: {text}"
  | unavailable text => s!"segment store unavailable: {text}"
  | segmentSealed segment => s!"segment {segment} is sealed"
  | segmentFull segment => s!"segment {segment} is full"
  | invalidAttributeValue key value => s!"invalid value {value} for attribute {key}"

/-- What was expected of an attribute and what it held. -/
def describeMismatch (key : AttributeKey) (expected actual : Option Offset) : String :=
  s!"{key}: expected {Offset.describe? expected}, found {Offset.describe? actual}"

/-- The text of a failure to apply a batch. -/
def ApplyError.message : ApplyError → String
  | conflict key expected actual =>
    s!"bad attribute update for {describeMismatch key expected actual}"
  | store cause => cause.message

/-- The text of a broken contract. -/
def ContractViolation.message : ContractViolation → String
  | reversedRange first last =>
    s!"last indexed offset {last} precedes first indexed offset {first}"
  | headMismatch bucket hasHead existingKeys =>
    s!"bucket {bucket} (exists={hasHead}) has {existingKeys} existing keys"
  | missingBucket hash => s!"bucket locator returned no bucket for hash {hash}"
  | uninitialized segment => s!"table attributes of segment {segment} are not initialized"
  | foreignCondition key expected actual =>
    s!"unexpected conditional update on {describeMismatch key expected actual}"
  | other message => message

/-- The text of a corruption. -/
def Corruption.message : Corruption → String
  | forwardLink source target bucket =>
    s!"backpointer from {source} leads forward to {target} in bucket {bucket}"
  | deadEntry bucket offset => s!"bucket {bucket} links offset {offset}, which holds no live entry"
  | foreignEntry offset bucket => s!"entry at offset {offset} does not hash to bucket {bucket}"
  | other message => message

/-- The text of a failure of the index. -/
def IndexError.message : IndexError → String
  | contractViolation cause => s!"contract violation: {cause.message}"
  | checkpointConflict expected actual =>
    s!"table index offset conflict: expected {expected}, found {Offset.describe? actual}"
  | corruption cause => s!"index corruption: {cause.message}"
  | store cause => cause.message

/-! ## The status of an error, and conversion -/

/-- The status of a store failure. -/
def StoreError.status : StoreError → Status
  | io _ => .ioError
  | unavailable _ => .unavailable
  | segmentSealed _ | segmentFull _ => .sealed
  | invalidAttributeValue .. => .corruption

/-- The status of a failure of the index. -/
def IndexError.status : IndexError → Status
  | contractViolation _ => .invalidArgument
  | checkpointConflict .. => .conflict
  | corruption _ => .corruption
  | store cause => cause.status

/-- Whether the checkpoint moved under the operation. -/
def IndexError.isCheckpointConflict : IndexError → Bool
  | checkpointConflict .. => true
  | _ => false

/-- What a failure to apply a batch means to the index. The checkpoint is the only attribute that
its batches put a condition on, so a conflict elsewhere is the caller's doing. -/
def IndexError.ofApplyError : ApplyError → IndexError
  | .conflict .tableIndexOffset expected actual =>
    .checkpointConflict (expected.getD .zero) actual
  | .conflict key expected actual => .contractViolation (.foreignCondition key expected actual)
  | .store cause => .store cause

end SegmentIndex
