import SegmentIndex.Attribute
import SegmentIndex.Bucket
import SegmentIndex.Error

/-!
# Plans

A plan says what indexing a stretch of the log amounts to: where the stretch starts and ends, and
what it means for each bucket. Its mutations form one batch. If the stretch is not empty, the batch
also moves the checkpoint from the start to the end, on the condition that it is still at the start.

The mutations for a bucket turn its chain into the chain that it has after the batch. Only links
that change are written. A replaced entry loses its link, and the first kept entry above it is
linked to the newest kept entry below; the oldest entry never had a link to lose. New entries are
linked one behind another on top of the kept ones. At last the head is set, to nothing if no entry
is left; it is never taken away.
-/

namespace SegmentIndex

/-! ## Relinking a bucket -/

/-- Makes the link of an entry lead to an older one, or to nothing. -/
def relink (entry : Offset) (older : Option Offset) : Mutation :=
  .replace (.backpointer entry) older

/-- The links to write for one entry of a chain, which is marked if it is replaced. `below` is the
mark of the entry just below, if there is one, and `kept` the newest entry below that is not
replaced. -/
def entryWrites (below : Option Bool) (kept : Option Offset) (entry : Offset) (replaced : Bool) :
    List Mutation :=
  match below, replaced with
  | none, _ => [] -- the oldest entry has no link
  | some _, true => [relink entry none]
  | some true, false => [relink entry kept]
  | some false, false => [] -- its link leads to the entry just below already

/-- The links to write among the entries of a chain, oldest first, from one of them upwards. -/
def relinkChain : Option Bool → Option Offset → List (Offset × Bool) → List Mutation
  | _, _, [] => []
  | below, kept, (entry, replaced) :: rest =>
    entryWrites below kept entry replaced ++
      relinkChain (some replaced) (if replaced then kept else some entry) rest

/-- The links to write for new entries, oldest first, on top of an older one if there is one. -/
def linkNew : Option Offset → List Offset → List Mutation
  | _, [] => []
  | none, entry :: rest => linkNew (some entry) rest
  | some older, entry :: rest => relink entry (some older) :: linkNew (some entry) rest

namespace BucketUpdate

/-- The entries of the bucket's chain, oldest first, each marked if the batch replaces it. -/
def markedChain (u : BucketUpdate) : List (Offset × Bool) :=
  u.existingByOffset.map fun info => (info.offset, u.isKeyUpdated info.key)

/-- The newest entry of the chain that the batch does not replace. -/
def newestKept (u : BucketUpdate) : Option Offset :=
  ((u.markedChain.filter (!·.2)).getLast?).map (·.1)

/-- The links to write. -/
def linkMutations (u : BucketUpdate) : List Mutation :=
  relinkChain none none u.markedChain ++
    linkNew u.newestKept (u.survivingByOffset.map (·.offset))

/-- Whether the bucket has a head exactly if some of its keys are known. -/
def isConsistent (u : BucketUpdate) : Bool := u.bucket.isOccupied != u.existing.isEmpty

/-- The mutations for the bucket, if the batch changes anything in it. A chain that is to be changed
must be known. -/
def mutations (u : BucketUpdate) : Except ContractViolation (List Mutation) :=
  if !u.hasUpdates then .ok []
  else if !u.isConsistent then
    .error (.headMismatch u.bucket.hash u.bucket.isOccupied u.existing.size)
  else .ok (u.linkMutations ++ [.replace (.bucket u.bucket.hash) u.newest])

end BucketUpdate

/-! ## The batch of a plan -/

/-- What indexing a stretch of the log amounts to. -/
structure Plan where
  first : Offset
  /-- The checkpoint after the plan. -/
  last : Offset
  /-- What the stretch means for each bucket. -/
  groups : List BucketUpdate

namespace Plan

/-- The move of the checkpoint. -/
def advance (p : Plan) : List Mutation :=
  if p.first < p.last then
    [.replaceIfEquals .tableIndexOffset (some p.last) (some p.first)]
  else
    []

/-- The mutations of the plan, bucket by bucket, with the move of the checkpoint at the end. -/
def mutations (p : Plan) : Except ContractViolation (List Mutation) :=
  if p.last < p.first then .error (.reversedRange p.first p.last)
  else do
    let batches ← p.groups.mapM BucketUpdate.mutations
    return batches.flatten ++ p.advance

end Plan

/-- The batch that prepares a new segment: it sets the checkpoint unless there is one. -/
def initialMutations : List Mutation := [.setIfAbsent .tableIndexOffset (some .zero)]

end SegmentIndex
