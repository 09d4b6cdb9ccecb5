import SegmentIndex.Hash.XXH3
import SegmentIndex.Key

/-!
# Writers

An index writer is a way to hash keys together with a few settings. Hashing is a partial function,
since a hasher supplied from outside may give up on a key; the built-in algorithms never do. A
configuration may ask for one of those by name.

Large batches may be hashed by another thread. Whether there is one, and whether it ever comes to
the task, is not up to the writer: both are given along with it.
-/

namespace SegmentIndex

/-! ## Hash algorithms -/

/-- An algorithm that hashes keys. -/
inductive HashAlgorithm where
  | xxh3
  /-- Two runs of XXH64 that differ in their seed. -/
  | xxh64
  deriving DecidableEq

namespace HashAlgorithm

instance : Inhabited HashAlgorithm := ⟨xxh3⟩

/-- The full name of an algorithm. -/
def name : HashAlgorithm → String
  | xxh3 => "XXHash3"
  | xxh64 => "XXHash64"

/-- The algorithm that a configuration asks for, in its full or its short name. Case does not
matter: no letter outside ASCII has one of the names' letters for its lower case, so lowering the
ASCII letters is all it takes. -/
def parse? (s : String) : Option HashAlgorithm :=
  let name := s.toList.map Char.toLower
  if name = "xxhash3".toList ∨ name = "xxh3".toList then some xxh3
  else if name = "xxhash64".toList ∨ name = "xxh64".toList then some xxh64
  else none

/-- The seed of the run of XXH64 that gives the upper half. -/
def upperSeed : UInt64 := 0x9E3779B97F4A7C15

/-- The seed of the run of XXH64 that gives the lower half. -/
def lowerSeed : UInt64 := 0

/-- The 128-bit hash of some bytes. -/
def hash128 (a : HashAlgorithm) (bytes : List UInt8) : BitVec 128 :=
  match a with
  | xxh3 => (Hash.XXH3.hash bytes).toBits
  | xxh64 =>
    (Hash.Wide.mk (Hash.XXH64.hash upperSeed bytes) (Hash.XXH64.hash lowerSeed bytes)).toBits

/-- The bucket hash of some bytes. -/
def keyHash (a : HashAlgorithm) (bytes : List UInt8) : KeyHash := .ofBits (a.hash128 bytes)

end HashAlgorithm

/-! ## Writers -/

/-- The settings of a writer. -/
structure WriterConfig where
  /-- Batches with at least this many updates are hashed off the calling thread. -/
  offloadThreshold : Nat := 1024
  /-- The algorithm that hashes keys, unless the writer brings its own. -/
  hashAlgorithm : HashAlgorithm := .xxh3
  deriving DecidableEq

/-- Maps keys to the hashes of their buckets. -/
abbrev KeyHasher := TableKey → Option KeyHash

/-- The hasher that a function on bytes defines. -/
def KeyHasher.ofFunction (f : List UInt8 → KeyHash) : KeyHasher := fun key => some (f key.bytes)

/-- What becomes of a task that is handed to another thread. -/
inductive TaskOutcome where
  | completed
  /-- The task was called off before the thread came to it. -/
  | cancelled
  deriving DecidableEq

/-- An index writer. -/
structure Writer where
  hash : KeyHasher
  config : WriterConfig
  /-- Whether there are threads to which hashing can be handed. -/
  hasThreads : Bool := true
  /-- What becomes of hashing that is handed to a thread. -/
  hashingTask : TaskOutcome := .completed

/-- The writer with the algorithm that its settings name. -/
def Writer.ofConfig (config : WriterConfig) : Writer where
  hash := .ofFunction config.hashAlgorithm.keyHash
  config := config

end SegmentIndex
