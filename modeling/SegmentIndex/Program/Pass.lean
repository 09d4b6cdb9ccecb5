import SegmentIndex.Plan
import SegmentIndex.Program.Read

/-!
# Index passes

A pass brings the index up to the end of the log. It reads the checkpoint and the log behind it,
groups the changes it finds there, looks up what is indexed in the buckets they touch, and writes
everything in one batch. The batch is refused if another pass has moved the checkpoint in between.

A batch of changes is divided by the buckets that the keys fall into. The buckets are asked for once
and all together, by their hashes in ascending order. Whoever answers may leave buckets out, which
is an error, or add some, which is not.

The keys of a large batch are hashed by another thread, if there is one. If that task is cancelled,
there is nothing to go on with, and nobody is asked for buckets.
-/

namespace SegmentIndex

open Attempt

/-! ## Grouping updates by bucket -/

/-- Changes divided by the hash of their key, in the order in which they came. -/
abbrev HashedUpdates := Std.ExtTreeMap KeyHash (List KeyUpdate)

/-- The changes divided by hash, unless hashing fails for one of them. -/
def hashUpdates (hash : KeyHasher) (updates : List KeyUpdate) : Option HashedUpdates := do
  let hashed ← updates.mapM fun u => (hash u.key).map (·, u)
  return hashed.foldr (fun (h, u) groups => groups.alter h fun us => some (u :: us.getD [])) ∅

/-- The groups with more changes to the keys of a bucket. -/
def addToGroup (groups : Std.ExtTreeMap Bucket BucketUpdate) (b : Bucket)
    (updates : List KeyUpdate) : Std.ExtTreeMap Bucket BucketUpdate :=
  groups.alter b fun group =>
    some (updates.foldl BucketUpdate.withKeyUpdate (group.getD (.empty b)))

/-- The groups with the changes of one hash, if a bucket was located for it. -/
def gather (located : Std.ExtTreeMap KeyHash Bucket) (groups : Std.ExtTreeMap Bucket BucketUpdate)
    (part : KeyHash × List KeyUpdate) :
    Except ContractViolation (Std.ExtTreeMap Bucket BucketUpdate) :=
  match located[part.1]? with
  | some b => .ok (addToGroup groups b part.2)
  | none => .error (.missingBucket part.1)

/-- The groups that divided changes form with the located buckets. -/
def assembleGroups (hashed : HashedUpdates) (located : Std.ExtTreeMap KeyHash Bucket) :
    Except ContractViolation (Std.ExtTreeMap Bucket BucketUpdate) :=
  hashed.toList.foldlM (gather located) ∅

/-- Locates the buckets with some hashes. -/
abbrev BucketLocator := List KeyHash → Attempt StoreError (Std.ExtTreeMap KeyHash Bucket)

/-- Locates the buckets of divided changes and forms their groups, in the order of the buckets. -/
def locateGroups (locate : BucketLocator) (hashed : HashedUpdates) :
    Attempt IndexError (List BucketUpdate) := do
  let located ← ofStore (locate hashed.keys)
  match assembleGroups hashed located with
  | .ok groups => return groups.values
  | .error cause => throw (.contractViolation cause)

namespace Writer

/-- Whether the hashing of a batch is handed to another thread. -/
def offloads (w : Writer) (updates : List KeyUpdate) : Bool :=
  w.config.offloadThreshold ≤ updates.length && w.hasThreads

/-- The failure of a batch whose hashing was cancelled. -/
def hashingCancelled : IndexError := .store (.unavailable "key hashing task was cancelled")

/-- Divides changes by hash. -/
def hashByKey (w : Writer) (updates : List KeyUpdate) : Attempt IndexError HashedUpdates :=
  match hashUpdates w.hash updates with
  | some hashed => return hashed
  | none => crash

/-- Divides changes by hash, here or on another thread. -/
def hashBatch (w : Writer) (updates : List KeyUpdate) : Attempt IndexError HashedUpdates :=
  if w.offloads updates then do
    note (.offloading updates.length)
    match w.hashingTask with
    | .completed => w.hashByKey updates
    | .cancelled => throw hashingCancelled
  else
    w.hashByKey updates

/-- One bucket update for each bucket that a batch touches, in the order of the buckets. -/
def groupByBucket (w : Writer) (locate : BucketLocator) (updates : List KeyUpdate) :
    Attempt IndexError (List BucketUpdate) := do
  if updates.isEmpty then
    return []
  let hashed ← w.hashBatch updates
  note (.grouping updates.length hashed.size)
  locateGroups locate hashed

end Writer

/-! ## Passes -/

/-- A bucket update with the keys attached that are indexed in its bucket. -/
def withIndexedKeys (hash : KeyHasher) (u : BucketUpdate) : Attempt IndexError BucketUpdate := do
  let (result, u) ← ExceptT.lift (collectExistingKeys hash u)
  match result with
  | .error e => throw e
  | .ok _ => return u

namespace Writer

/-- The plan for a stretch of the log. Without `collect` it knows nothing of the keys that are
indexed already. -/
def planRange (w : Writer) (first last : Offset) (collect : Bool) : Attempt IndexError Plan := do
  let updates ← readUpdates first last
  let groups ← w.groupByBucket locateBuckets updates
  let groups ← if collect then groups.mapM (withIndexedKeys w.hash) else pure groups
  return ⟨first, last, groups⟩

/-- The plan for the log from the checkpoint to an offset. -/
def planTo (w : Writer) (segment : SegmentId) (last : Offset) : Attempt IndexError Plan := do
  let first ← lastIndexedOffset segment
  w.planRange first last true

/-- The plan for the whole log from the checkpoint on. -/
def plan (w : Writer) (segment : SegmentId) (collect : Bool) : Attempt IndexError Plan := do
  let first ← lastIndexedOffset segment
  let last ← readLength
  w.planRange first last collect

end Writer

/-- Writes the batch of a plan. It gives the number of mutations, and calls nobody if there are
none. -/
def Plan.apply (p : Plan) (segment : SegmentId) : Attempt IndexError Nat := do
  match p.mutations with
  | .error cause => throw (.contractViolation cause)
  | .ok [] =>
    note (.unchanged segment p.first p.last)
    return 0
  | .ok batch =>
    note (.applying segment p.first p.last batch.length)
    match ← ExceptT.lift (writeAttributes batch).run with
    | .ok () => return batch.length
    | .error e =>
      let e := IndexError.ofApplyError e
      if e.isCheckpointConflict then
        note (.stale segment p.first e)
      throw e

namespace Writer

/-- Indexes the log from the checkpoint to an offset. -/
def indexTo (w : Writer) (segment : SegmentId) (last : Offset) : Attempt IndexError Nat := do
  let p ← w.planTo segment last
  p.apply segment

/-- Indexes the whole log from the checkpoint on. -/
def pass (w : Writer) (segment : SegmentId) : Attempt IndexError Nat := do
  let p ← w.plan segment true
  p.apply segment

end Writer

end SegmentIndex
