import SegmentIndex.Key

/-!
# Buckets

A bucket holds all keys with one hash. Its entries form a chain through the log: the bucket's head
is the newest of them, and each leads to the next older one. Keys reach a bucket in two ways: they
are indexed there already, or a batch brings a change to them.

A bucket update gathers what a batch means for one bucket: the bucket as it was found, the keys that
are indexed in it, and the changes that the batch brings to its keys. Of several records of the same
kind for one key only the newest counts, whatever order they come in; of equally new ones the first
one counts.
-/

namespace SegmentIndex

/-- A bucket as the index shows it. -/
structure Bucket where
  /-- The hash that the keys of the bucket share. -/
  hash : KeyHash
  /-- The newest entry of the bucket's chain, if there is one. -/
  head : Option Offset
  deriving DecidableEq

namespace Bucket

/-- The bucket with a hash, without any entries. -/
def vacant (hash : KeyHash) : Bucket := ⟨hash, none⟩

/-- Whether the bucket has a chain. -/
def isOccupied (b : Bucket) : Bool := b.head.isSome

/-- Buckets are ordered by hash, and with the same hash a bucket without a head comes first. -/
instance : Ord Bucket := ⟨compareLex (compareOn hash) (compareOn head)⟩

instance : Std.TransOrd Bucket :=
  inferInstanceAs (Std.TransCmp (compareLex (compareOn hash) (compareOn head)))

instance : Std.LawfulEqOrd Bucket where
  compare_self {a} :=
    (Std.ReflCmp.compare_self : compareLex (compareOn hash) (compareOn head) a a = .eq)
  eq_of_compare {a b} h := by
    have h : (compare a.hash b.hash).then (compare a.head b.head) = .eq := h
    obtain ⟨h₁, h₂⟩ := Ordering.then_eq_eq.1 h
    cases a; cases b
    cases Std.LawfulEqCmp.eq_of_compare h₁
    cases Std.LawfulEqCmp.eq_of_compare h₂
    rfl

end Bucket

/-- A key that is indexed already. -/
structure KeyInfo where
  key : TableKey
  offset : Offset
  deriving DecidableEq

/-- What an entry of the log does to its key. -/
structure Change where
  offset : Offset
  deleted : Bool
  deriving DecidableEq

/-- A change to a key. -/
structure KeyUpdate extends Change where
  key : TableKey
  deriving DecidableEq

/-! ## Bucket updates -/

/-- What a batch means for one bucket. -/
structure BucketUpdate where
  bucket : Bucket
  /-- The entries of the keys that are indexed in the bucket. -/
  existing : Std.ExtTreeMap TableKey Offset
  /-- The changes to keys of the bucket. -/
  changes : Std.ExtTreeMap TableKey Change

namespace BucketUpdate

/-- The update that knows of no keys. -/
def empty (bucket : Bucket) : BucketUpdate := ⟨bucket, ∅, ∅⟩

/-- The update with one more key that is indexed already. -/
def withExistingKey (u : BucketUpdate) (info : KeyInfo) : BucketUpdate :=
  if u.existing[info.key]?.all (· < info.offset) then
    { u with existing := u.existing.insert info.key info.offset }
  else
    u

/-- The update with one more change. -/
def withKeyUpdate (u : BucketUpdate) (update : KeyUpdate) : BucketUpdate :=
  if u.changes[update.key]?.all (·.offset < update.offset) then
    { u with changes := u.changes.insert update.key update.toChange }
  else
    u

/-- The keys that are indexed already, in order. -/
def existingKeys (u : BucketUpdate) : List KeyInfo :=
  u.existing.toList.map fun (key, offset) => ⟨key, offset⟩

/-- The changes, in the order of their keys. -/
def keyUpdates (u : BucketUpdate) : List KeyUpdate :=
  u.changes.toList.map fun (key, change) => ⟨change, key⟩

/-- Whether the batch changes a key. -/
def isKeyUpdated (u : BucketUpdate) (key : TableKey) : Bool := u.changes.contains key

/-- Whether the batch changes anything in the bucket. -/
def hasUpdates (u : BucketUpdate) : Bool := !u.changes.isEmpty

/-- The changes that leave their key in place, in the order of their keys. -/
def surviving (u : BucketUpdate) : List KeyUpdate := u.keyUpdates.filter (!·.deleted)

/-- The keys that are indexed already, oldest entry first. -/
def existingByOffset (u : BucketUpdate) : List KeyInfo :=
  u.existingKeys.mergeSort fun a b => a.offset ≤ b.offset

/-- The changes that leave their key in place, oldest first. -/
def survivingByOffset (u : BucketUpdate) : List KeyUpdate :=
  u.surviving.mergeSort fun a b => a.offset ≤ b.offset

/-- The newest entry that the bucket has after the batch, if any key is left in it. -/
def newest (u : BucketUpdate) : Option Offset :=
  let kept := u.existingKeys.filter fun info => !u.isKeyUpdated info.key
  (kept.map (·.offset) ++ u.surviving.map (·.offset)).max?

end BucketUpdate

end SegmentIndex
