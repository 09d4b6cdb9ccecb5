import SegmentIndex.Key

/-!
# Attributes and mutations

The index lives in three kinds of attribute: the checkpoint, which says how far the log has been
indexed; a head for each bucket, which points at the newest entry of the bucket's chain; and a
backpointer for an entry, which leads to the next older entry of the same chain.

A segment keeps its attributes under 128-bit ids. Ids whose top bit is clear belong to the buckets.
The others are divided by their upper half: one value of it holds the core attributes and the next
one the backpointers. `AttributeKey.toId` gives the id under which an attribute is kept, and
`AttributeKey.ofId?` finds out what an id stands for.

A mutation writes one attribute, either always or only if what the attribute holds allows it.
Mutations travel in batches, of which a segment applies all or none.
-/

namespace SegmentIndex

/-- The name under which a segment keeps an attribute. -/
@[ext] structure AttributeId where
  bits : BitVec 128
  deriving DecidableEq

namespace AttributeId

instance : Ord AttributeId := ⟨compareOn bits⟩

instance : Std.TransOrd AttributeId := inferInstanceAs (Std.TransCmp (compareOn bits))

instance : Std.LawfulEqOrd AttributeId := lawfulEqCmp_compareOn bits fun _ _ => AttributeId.ext

/-- The id with the given upper and lower halves. -/
def ofHalves (high low : BitVec 64) : AttributeId := ⟨high ++ low⟩

/-- The upper 64 bits. -/
def high (i : AttributeId) : BitVec 64 := i.bits.extractLsb' 64 64

/-- The lower 64 bits. -/
def low (i : AttributeId) : BitVec 64 := i.bits.extractLsb' 0 64

/-- The upper half of every core attribute's id. -/
def corePart : BitVec 64 := 0x8000000000000000#64

/-- The upper half of every backpointer's id. -/
def backpointerPart : BitVec 64 := 0x8000000000000001#64

/-- The id of the checkpoint, the first of the core attributes. -/
def checkpoint : AttributeId := ofHalves corePart 0#64

/-- Both halves in full, joined by a hyphen. -/
instance : ToString AttributeId :=
  ⟨fun i => Text.Hex.fixed 16 i.high.toNat ++ "-" ++ Text.Hex.fixed 16 i.low.toNat⟩

end AttributeId

/-- What an attribute is about. -/
inductive AttributeKey where
  /-- The offset up to which the log has been indexed. -/
  | tableIndexOffset
  /-- The head of a bucket's chain. -/
  | bucket (hash : KeyHash)
  /-- The link from an entry to the next older one of its chain. -/
  | backpointer (offset : Offset)
  deriving DecidableEq

namespace AttributeKey

/-- The place of a key among all keys: the checkpoint, then the buckets by hash, then the
backpointers by offset. -/
def rank : AttributeKey → Nat
  | tableIndexOffset => 0
  | bucket hash => 1 + hash.bits.toNat
  | backpointer offset => 1 + 0x80000000000000000000000000000000 + offset.val

theorem rank_injective {a b : AttributeKey} (h : a.rank = b.rank) : a = b := by
  cases a with
  | tableIndexOffset =>
    cases b with
    | tableIndexOffset => rfl
    | bucket y => simp only [rank] at h; omega
    | backpointer y => simp only [rank] at h; omega
  | bucket x =>
    have hx := x.bits.isLt
    cases b with
    | tableIndexOffset => simp only [rank] at h; omega
    | bucket y =>
      simp only [rank] at h
      exact congrArg bucket (KeyHash.ext (BitVec.eq_of_toNat_eq (by omega)))
    | backpointer y => simp only [rank] at h; omega
  | backpointer x =>
    cases b with
    | tableIndexOffset => simp only [rank] at h; omega
    | bucket y =>
      have hy := y.bits.isLt
      simp only [rank] at h
      omega
    | backpointer y =>
      simp only [rank] at h
      exact congrArg backpointer (Offset.ext (by omega))

instance : Ord AttributeKey := ⟨compareOn rank⟩

instance : Std.TransOrd AttributeKey := inferInstanceAs (Std.TransCmp (compareOn rank))

instance : Std.LawfulEqOrd AttributeKey := lawfulEqCmp_compareOn rank fun _ _ => rank_injective

/-- The id under which a segment keeps the attribute. -/
def toId : AttributeKey → AttributeId
  | tableIndexOffset => .checkpoint
  | bucket hash => ⟨hash.toBits⟩
  | backpointer offset => .ofHalves AttributeId.backpointerPart (BitVec.ofNat 64 offset.val)

/-- What the attribute with an id is about: nothing that the index knows, if the id lies outside
the buckets and is neither the checkpoint's nor a backpointer's. -/
def ofId? (i : AttributeId) : Option AttributeKey :=
  if i.bits.msb = false then
    some (bucket (.ofBits i.bits))
  else if i = .checkpoint then
    some tableIndexOffset
  else if i.high = AttributeId.backpointerPart then
    (Offset.ofNat? i.low.toNat).map backpointer
  else
    none

instance : ToString AttributeKey where
  toString
    | tableIndexOffset => "TableIndexOffset"
    | bucket hash => s!"Bucket[{hash}]"
    | backpointer offset => s!"Backpointer[{offset}]"

end AttributeKey

/-! ## Mutations -/

/-- When a mutation takes effect. -/
inductive Mutation.Condition where
  /-- Only if the attribute holds no offset; otherwise nothing happens. -/
  | absent
  | always
  /-- Only if the attribute holds what is expected; otherwise the batch fails. -/
  | holds (expected : Option Offset)
  deriving DecidableEq

/-- A write to one attribute. -/
structure Mutation where
  key : AttributeKey
  /-- When the write takes effect. -/
  condition : Mutation.Condition
  /-- The new offset, or none to clear the attribute. -/
  value : Option Offset
  deriving DecidableEq

namespace Mutation

/-- Write an attribute unless it holds an offset. -/
def setIfAbsent (key : AttributeKey) (value : Option Offset) : Mutation := ⟨key, .absent, value⟩

/-- Write an attribute. -/
def replace (key : AttributeKey) (value : Option Offset) : Mutation := ⟨key, .always, value⟩

/-- Write an attribute that holds what is expected. -/
def replaceIfEquals (key : AttributeKey) (value expected : Option Offset) : Mutation :=
  ⟨key, .holds expected, value⟩

/-- The value that the mutation physically writes. -/
def physicalValue (m : Mutation) : AttributeValue := Offset.encode m.value

/-- The value that the mutation physically expects, if it expects one. -/
def physicalExpected? (m : Mutation) : Option AttributeValue :=
  match m.condition with
  | .holds expected => some (Offset.encode expected)
  | _ => none

/-- Whether the mutation clears its attribute. -/
def isRemoval (m : Mutation) : Bool := m.value.isNone

/-- A value as the text of a mutation shows it. -/
def showValue : Option Offset → String
  | some o => toString o
  | none => "null"

instance : ToString Mutation where
  toString m :=
    let value := showValue m.value
    match m.condition with
    | .absent => s!"{m.key} ?= {value}"
    | .always => s!"{m.key} := {value}"
    | .holds expected => s!"{m.key} := {value} if {showValue expected}"

end Mutation

end SegmentIndex
