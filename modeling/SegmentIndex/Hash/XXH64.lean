/-!
# The 64-bit hash XXH64

The bytes are taken in stripes of thirty-two, each of which feeds four accumulators; what is left
over is mixed in by eights, then a four, then one by one.

The key hashes share some arithmetic on 64-bit words, which comes first: reading little-endian words
from bytes, rotation, byte order, and the full product of two words.
-/

namespace SegmentIndex.Hash

/-! ## Words -/

/-- The number that some bytes spell, least significant byte first. -/
def littleEndian (bytes : List UInt8) : UInt64 :=
  bytes.foldr (fun b n => n <<< 8 ||| b.toUInt64) 0

/-- The word in the first four bytes. -/
def word32 (bytes : List UInt8) : UInt64 := littleEndian (bytes.take 4)

/-- The word in the first eight bytes. -/
def word64 (bytes : List UInt8) : UInt64 := littleEndian (bytes.take 8)

/-- The first `n` eight-byte words. -/
def words : Nat → List UInt8 → List UInt64
  | 0, _ => []
  | n + 1, bytes => word64 bytes :: words n (bytes.drop 8)

/-- Rotation to the left, by more than zero and less than sixty-four places. -/
def rotateLeft (x : UInt64) (n : UInt64) : UInt64 := x <<< n ||| x >>> (64 - n)

/-- A word combined with itself, shifted to the right. -/
def xorShift (x : UInt64) (n : UInt64) : UInt64 := x ^^^ x >>> n

/-- The lower 32 bits of a word. -/
def lower32 (x : UInt64) : UInt64 := x &&& 0xFFFFFFFF

/-- The lower four bytes of a word in opposite order. -/
def swap32 (x : UInt64) : UInt64 :=
  let byte (i : UInt64) : UInt64 := (x >>> i) &&& (0xFF : UInt64)
  byte 0 <<< 24 ||| byte 8 <<< 16 ||| byte 16 <<< 8 ||| byte 24

/-- The eight bytes of a word in opposite order. -/
def swap64 (x : UInt64) : UInt64 := swap32 (lower32 x) <<< 32 ||| swap32 (x >>> 32)

/-- A number of 128 bits in two words. -/
structure Wide where
  high : UInt64
  low : UInt64
  deriving DecidableEq

/-- The full product of two words. -/
def Wide.product (a b : UInt64) : Wide :=
  let n := a.toNat * b.toNat
  ⟨.ofNat (n >>> 64), .ofNat n⟩

/-- Both words as one number. -/
def Wide.toBits (w : Wide) : BitVec 128 := w.high.toBitVec ++ w.low.toBitVec

/-- The full product of two words, folded to one word. -/
def foldedProduct (a b : UInt64) : UInt64 :=
  let p := Wide.product a b
  p.low ^^^ p.high

end SegmentIndex.Hash

namespace SegmentIndex.Hash.XXH64

/-! ## The five primes by which the steps multiply -/

def prime1 : UInt64 := 0x9E3779B185EBCA87
def prime2 : UInt64 := 0xC2B2AE3D27D4EB4F
def prime3 : UInt64 := 0x165667B19E3779F9
def prime4 : UInt64 := 0x85EBCA77C2B2AE63
def prime5 : UInt64 := 0x27D4EB2F165667C5

/-! ## Stripes -/

/-- An accumulator after one more word. -/
def round (acc word : UInt64) : UInt64 := rotateLeft (acc + word * prime2) 31 * prime1

/-- The four accumulators. -/
structure Lanes where
  a : UInt64
  b : UInt64
  c : UInt64
  d : UInt64

namespace Lanes

/-- The accumulators before the first stripe. -/
def start (seed : UInt64) : Lanes := ⟨seed + prime1 + prime2, seed + prime2, seed, seed - prime1⟩

/-- The accumulators after one more stripe. -/
def absorb (l : Lanes) (stripe : List UInt8) : Lanes :=
  ⟨round l.a (word64 stripe), round l.b (word64 (stripe.drop 8)),
    round l.c (word64 (stripe.drop 16)), round l.d (word64 (stripe.drop 24))⟩

/-- One word made of the four. -/
def merge (l : Lanes) : UInt64 :=
  let mixIn (h v : UInt64) := (h ^^^ round 0 v) * prime1 + prime4
  let h := rotateLeft l.a 1 + rotateLeft l.b 7 + rotateLeft l.c 12 + rotateLeft l.d 18
  mixIn (mixIn (mixIn (mixIn h l.a) l.b) l.c) l.d

end Lanes

/-- The accumulators after some stripes, and the bytes that follow them. -/
def absorbStripes : Nat → Lanes → List UInt8 → Lanes × List UInt8
  | 0, l, bytes => (l, bytes)
  | count + 1, l, bytes => absorbStripes count (l.absorb bytes) (bytes.drop 32)

/-! ## The end of the input -/

/-- The hash after the single bytes at the end. -/
def absorbBytes (h : UInt64) (bytes : List UInt8) : UInt64 :=
  bytes.foldl (fun h b => rotateLeft (h ^^^ b.toUInt64 * prime5) 11 * prime1) h

/-- The hash after fewer than eight bytes at the end. -/
def absorbShort (h : UInt64) (bytes : List UInt8) : UInt64 :=
  if 4 ≤ bytes.length then
    absorbBytes (rotateLeft (h ^^^ word32 bytes * prime1) 23 * prime2 + prime3) (bytes.drop 4)
  else
    absorbBytes h bytes

/-- The hash after the bytes that no stripe holds. -/
def absorbTail (h : UInt64) (bytes : List UInt8) : UInt64 :=
  if 8 ≤ bytes.length then
    absorbTail (rotateLeft (h ^^^ round 0 (word64 bytes)) 27 * prime1 + prime4) (bytes.drop 8)
  else
    absorbShort h bytes
termination_by bytes.length
decreasing_by simp only [List.length_drop]; omega

/-- The last step, after which every bit of the hash depends on every bit before it. -/
def avalanche (h : UInt64) : UInt64 :=
  xorShift (xorShift (xorShift h 33 * prime2) 29 * prime3) 32

/-- The hash of some bytes. -/
def hash (seed : UInt64) (bytes : List UInt8) : UInt64 :=
  let n := bytes.length
  let (lanes, rest) := absorbStripes (n / 32) (.start seed) bytes
  let h := if 32 ≤ n then lanes.merge else seed + prime5
  avalanche (absorbTail (h + .ofNat n) rest)

end SegmentIndex.Hash.XXH64
