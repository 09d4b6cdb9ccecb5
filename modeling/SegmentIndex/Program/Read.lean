import SegmentIndex.Bucket
import SegmentIndex.Program.Basic
import SegmentIndex.Writer
import Std.Data.ExtTreeSet

/-!
# Reading the index

The checkpoint, the heads of buckets, and the chains below them, read from the attributes of a
segment. The reader takes the agreed absent value for "nothing" and refuses any other value that
stands for no offset.

A chain is walked from its head downwards, one attribute at a time. Each step must lead to an older
entry, so the walk ends whatever the attributes hold.
-/

namespace SegmentIndex

open Attempt

/-- The offset that an attribute holds, if it holds one. -/
def decodeAttribute (key : AttributeKey) : Option AttributeValue →
    Except StoreError (Option Offset)
  | none => .ok none
  | some value =>
    if value = .absent then .ok none
    else
      match Offset.ofValue? value with
      | some o => .ok (some o)
      | none => .error (.invalidAttributeValue key value)

/-- The offset that one attribute holds, if it holds one. -/
def readOffset (key : AttributeKey) : Attempt StoreError (Option Offset) := do
  let values ← readAttributes [key]
  decodeAttribute key values[key]?

/-- Adds the bucket that some attribute values show for a hash. -/
def addLocated (values : AttributeValues) (located : Std.ExtTreeMap KeyHash Bucket)
    (hash : KeyHash) : Except StoreError (Std.ExtTreeMap KeyHash Bucket) := do
  let head ← decodeAttribute (.bucket hash) values[AttributeKey.bucket hash]?
  return located.insert hash ⟨hash, head⟩

/-- The buckets that some attribute values show for some hashes. -/
def decodeBuckets (values : AttributeValues) (hashes : List KeyHash) :
    Except StoreError (Std.ExtTreeMap KeyHash Bucket) :=
  hashes.foldlM (addLocated values) ∅

/-- The buckets with some hashes, all read at once. -/
def locateBuckets (hashes : List KeyHash) :
    Attempt StoreError (Std.ExtTreeMap KeyHash Bucket) := do
  let values ← readAttributes (hashes.map .bucket)
  decodeBuckets values hashes

/-- The checkpoint: how far the segment has been indexed. A segment without one has not been
prepared for indexing. -/
def lastIndexedOffset (segment : SegmentId) : Attempt IndexError Offset := do
  match ← ofStore (readOffset .tableIndexOffset) with
  | some o => return o
  | none => throw (.contractViolation (.uninitialized segment))

/-- The entry to which the link of an entry leads, if it leads anywhere. -/
def backpointerOffset (entry : Offset) : Attempt StoreError (Option Offset) :=
  readOffset (.backpointer entry)

/-- The entries of a bucket's chain, newest first, where the walk has come to an entry. `newer` are
the entries before it, the last one in front. -/
def chainFrom (bucket : KeyHash) (newer : List Offset) (entry : Offset) :
    Attempt IndexError (List Offset) := do
  match ← ofStore (backpointerOffset entry) with
  | none => return (entry :: newer).reverse
  | some older =>
    if older < entry then chainFrom bucket (entry :: newer) older
    else throw (.corruption (.forwardLink entry older bucket))
termination_by entry.val

/-- The entries of a bucket's chain, newest first. -/
def bucketOffsets (b : Bucket) : Attempt IndexError (List Offset) :=
  match b.head with
  | none => return []
  | some head => chainFrom b.hash [] head

/-- How collecting the keys of a chain ended, and what it has attached so far. -/
abbrev Collected := Except IndexError Nat × BucketUpdate

/-- Attaches the keys of some entries, newest first, to an update. `seen` are the keys of newer
entries; a key is attached only where it is seen first. It counts the keys. -/
def attachKeys (hash : KeyHasher) (seen : Std.ExtTreeSet TableKey) (u : BucketUpdate) :
    List Offset → Program Collected
  | [] => return (.ok seen.size, u)
  | entry :: rest => do
    match ← (readKey entry).run with
    | .error e => return (.error (.store e), u)
    | .ok none => return (.error (.corruption (.deadEntry u.bucket.hash entry)), u)
    | .ok (some key) =>
      match hash key with
      | none => .crash
      | some h =>
        if h ≠ u.bucket.hash then
          return (.error (.corruption (.foreignEntry entry u.bucket.hash)), u)
        else if key ∈ seen then
          attachKeys hash seen u rest
        else
          attachKeys hash (seen.insert key) (u.withExistingKey ⟨key, entry⟩) rest

/-- Attaches the keys that are indexed in the update's bucket to it. What has been attached before
an error stays attached. -/
def collectExistingKeys (hash : KeyHasher) (u : BucketUpdate) : Program Collected := do
  match ← (bucketOffsets u.bucket).run with
  | .error e => return (.error e, u)
  | .ok entries => attachKeys hash ∅ u entries

end SegmentIndex
