import SegmentIndex.Hash.XXH64

/-!
# The 128-bit hash XXH3

The hash without a seed. Inputs are treated by length: there is one rule each for up to three, up
to eight, up to sixteen, up to 128 and up to 240 bytes, and one for everything longer. All of them
mix the input with a fixed block of pseudo-random bytes, the secret.
-/

namespace SegmentIndex.Hash.XXH3

open XXH64 (prime1 prime2 prime3 prime4 prime5)

/-! ## Constants -/

/-- The first of three primes of 32 bits, which stand beside those of 64 bits. -/
def shortPrime1 : UInt64 := 0x9E3779B1

/-- The second prime of 32 bits. -/
def shortPrime2 : UInt64 := 0x85EBCA77

/-- The third prime of 32 bits. -/
def shortPrime3 : UInt64 := 0xC2B2AE3D

/-- The secret: 192 bytes. -/
def secret : List UInt8 := [
  0xb8, 0xfe, 0x6c, 0x39, 0x23, 0xa4, 0x4b, 0xbe, 0x7c, 0x01, 0x81, 0x2c, 0xf7, 0x21, 0xad, 0x1c,
  0xde, 0xd4, 0x6d, 0xe9, 0x83, 0x90, 0x97, 0xdb, 0x72, 0x40, 0xa4, 0xa4, 0xb7, 0xb3, 0x67, 0x1f,
  0xcb, 0x79, 0xe6, 0x4e, 0xcc, 0xc0, 0xe5, 0x78, 0x82, 0x5a, 0xd0, 0x7d, 0xcc, 0xff, 0x72, 0x21,
  0xb8, 0x08, 0x46, 0x74, 0xf7, 0x43, 0x24, 0x8e, 0xe0, 0x35, 0x90, 0xe6, 0x81, 0x3a, 0x26, 0x4c,
  0x3c, 0x28, 0x52, 0xbb, 0x91, 0xc3, 0x00, 0xcb, 0x88, 0xd0, 0x65, 0x8b, 0x1b, 0x53, 0x2e, 0xa3,
  0x71, 0x64, 0x48, 0x97, 0xa2, 0x0d, 0xf9, 0x4e, 0x38, 0x19, 0xef, 0x46, 0xa9, 0xde, 0xac, 0xd8,
  0xa8, 0xfa, 0x76, 0x3f, 0xe3, 0x9c, 0x34, 0x3f, 0xf9, 0xdc, 0xbb, 0xc7, 0xc7, 0x0b, 0x4f, 0x1d,
  0x8a, 0x51, 0xe0, 0x4b, 0xcd, 0xb4, 0x59, 0x31, 0xc8, 0x9f, 0x7e, 0xc9, 0xd9, 0x78, 0x73, 0x64,
  0xea, 0xc5, 0xac, 0x83, 0x34, 0xd3, 0xeb, 0xc3, 0xc5, 0x81, 0xa0, 0xff, 0xfa, 0x13, 0x63, 0xeb,
  0x17, 0x0d, 0xdd, 0x51, 0xb7, 0xf0, 0xda, 0x49, 0xd3, 0x16, 0x55, 0x26, 0x29, 0xd4, 0x68, 0x9e,
  0x2b, 0x16, 0xbe, 0x58, 0x7d, 0x47, 0xa1, 0xfc, 0x8f, 0xf8, 0xb8, 0xd1, 0x7a, 0xd0, 0x31, 0xce,
  0x45, 0xcb, 0x3a, 0x8f, 0x95, 0x16, 0x04, 0x28, 0xaf, 0xd7, 0xfb, 0xca, 0xbb, 0x4b, 0x40, 0x7e]

/-- The word of the secret that starts at a byte. -/
def secretWord (i : Nat) : UInt64 := word64 (secret.drop i)

/-- The last step of most rules. -/
def avalanche (h : UInt64) : UInt64 := xorShift (xorShift h 37 * 0x165667919E3779F9) 32

/-! ## Up to sixteen bytes -/

/-- The hash of no bytes. -/
def hashEmpty : Wide :=
  ⟨XXH64.avalanche (secretWord 80 ^^^ secretWord 88),
    XXH64.avalanche (secretWord 64 ^^^ secretWord 72)⟩

/-- The hash of one to three bytes: the first, the middle, the last and the length make one word
of 32 bits. -/
def hashUpTo3 (bytes : List UInt8) : Wide :=
  let n := bytes.length
  let byte (i : Nat) := word64 ((bytes.drop i).take 1)
  let low := byte 0 <<< 16 ||| byte (n / 2) <<< 24 ||| byte (n - 1) ||| UInt64.ofNat n <<< 8
  let swapped := swap32 low
  let high := lower32 (swapped <<< 13 ||| swapped >>> 19)
  let keyLow := word32 secret ^^^ word32 (secret.drop 4)
  let keyHigh := word32 (secret.drop 8) ^^^ word32 (secret.drop 12)
  ⟨XXH64.avalanche (high ^^^ keyHigh), XXH64.avalanche (low ^^^ keyLow)⟩

/-- The hash of four to eight bytes: the first four and the last four make one word. -/
def hashUpTo8 (bytes : List UInt8) : Wide :=
  let n := bytes.length
  let input := word32 bytes + word32 (bytes.drop (n - 4)) <<< 32
  let keyed := input ^^^ (secretWord 16 ^^^ secretWord 24)
  let p := Wide.product keyed (prime1 + UInt64.ofNat n <<< 2)
  let high := p.high + p.low <<< 1
  let low := p.low ^^^ high >>> 3
  ⟨avalanche high, xorShift (xorShift low 35 * 0x9FB21C651E98DF25) 28⟩

/-- The hash of nine to sixteen bytes: the first eight and the last eight make two words. -/
def hashUpTo16 (bytes : List UInt8) : Wide :=
  let n := bytes.length
  let first := word64 bytes
  let last := word64 (bytes.drop (n - 8))
  let p := Wide.product (first ^^^ last ^^^ (secretWord 32 ^^^ secretWord 40)) prime1
  let keyed := last ^^^ (secretWord 48 ^^^ secretWord 56)
  let low := p.low + UInt64.ofNat (n - 1) <<< 54
  let high := p.high + (keyed + lower32 keyed * (shortPrime2 - 1))
  let q := Wide.product (low ^^^ swap64 high) prime2
  ⟨avalanche (q.high + high * prime2), avalanche q.low⟩

/-! ## Up to 240 bytes -/

/-- Sixteen bytes of input mixed with the secret from a byte on. -/
def mix16 (bytes : List UInt8) (i : Nat) : UInt64 :=
  foldedProduct (word64 bytes ^^^ secretWord i) (word64 (bytes.drop 8) ^^^ secretWord (i + 8))

/-- The sum of the first two words. -/
def sum16 (bytes : List UInt8) : UInt64 := word64 bytes + word64 (bytes.drop 8)

/-- Both accumulators after two blocks of sixteen bytes. -/
def mix32 (acc : Wide) (one two : List UInt8) (i : Nat) : Wide :=
  ⟨acc.high + mix16 two (i + 16) ^^^ sum16 one, acc.low + mix16 one i ^^^ sum16 two⟩

/-- The hash that two accumulators give for an input of some length. -/
def finish (n : Nat) (acc : Wide) : Wide :=
  ⟨0 - avalanche (acc.low * prime1 + acc.high * prime4 + UInt64.ofNat n * prime2),
    avalanche (acc.low + acc.high)⟩

/-- The accumulators before the first block. -/
def start (n : Nat) : Wide := ⟨0, UInt64.ofNat n * prime1⟩

/-- The hash of seventeen to 128 bytes: pairs of blocks, one from each end, from the inside
out. -/
def hashUpTo128 (bytes : List UInt8) : Wide :=
  let n := bytes.length
  let pair (i : Nat) (acc : Wide) : Wide :=
    if i = 0 ∨ 32 * i < n then
      mix32 acc (bytes.drop (16 * i)) (bytes.drop (n - 16 * (i + 1))) (32 * i)
    else
      acc
  finish n (pair 0 (pair 1 (pair 2 (pair 3 (start n)))))

/-- The hash of 129 to 240 bytes: blocks of thirty-two from the front, the first four of them set
apart, and at last the final thirty-two. -/
def hashUpTo240 (bytes : List UInt8) : Wide :=
  let n := bytes.length
  let block (secretAt : Nat → Nat) (acc : Wide) (i : Nat) : Wide :=
    mix32 acc (bytes.drop (32 * i)) (bytes.drop (32 * i + 16)) (secretAt i)
  let early := (List.range 4).foldl (block fun i => 32 * i) (start n)
  let between := ⟨avalanche early.high, avalanche early.low⟩
  -- from the fifth block on, the secret is read from its fourth byte again
  let late := (List.range' 4 (n / 32 - 4)).foldl (block fun i => 32 * (i - 4) + 3) between
  finish n (mix32 late (bytes.drop (n - 16)) (bytes.drop (n - 32)) 103)

/-! ## More than 240 bytes -/

/-- Every two neighbours in opposite order. -/
def swapPairs {α : Type} : List α → List α
  | a :: b :: rest => b :: a :: swapPairs rest
  | rest => rest

/-- The eight accumulators before the first stripe. -/
def startLanes : List UInt64 :=
  [shortPrime3, prime1, prime2, prime3, prime4, shortPrime2, prime5, shortPrime1]

/-- The accumulators after a stripe of sixty-four bytes, mixed with the secret from a byte on. -/
def absorbStripe (lanes : List UInt64) (stripe : List UInt8) (i : Nat) : List UInt64 :=
  let data := words 8 stripe
  let keyed := List.zipWith (· ^^^ ·) data (words 8 (secret.drop i))
  let products := keyed.map fun k => lower32 k * k >>> 32
  List.zipWith (· + ·) (List.zipWith (· + ·) lanes (swapPairs data)) products

/-- The accumulators after the stripes of a block, for each of which the secret moves on by eight
bytes. -/
def absorbStripes (lanes : List UInt64) (bytes : List UInt8) (count : Nat) : List UInt64 :=
  (List.range count).foldl
    (fun lanes k => absorbStripe lanes (bytes.drop (64 * k)) (8 * k)) lanes

/-- The accumulators after the end of a block. -/
def scramble (lanes : List UInt64) : List UInt64 :=
  List.zipWith (fun l k => (xorShift l 47 ^^^ k) * shortPrime1) lanes (words 8 (secret.drop 128))

/-- The accumulators after some blocks of 1024 bytes, and the bytes that follow them. -/
def absorbBlocks : Nat → List UInt64 → List UInt8 → List UInt64 × List UInt8
  | 0, lanes, bytes => (lanes, bytes)
  | count + 1, lanes, bytes =>
    absorbBlocks count (scramble (absorbStripes lanes bytes 16)) (bytes.drop 1024)

/-- The folded products of every two neighbours, added up. -/
def sumProducts : List UInt64 → UInt64
  | a :: b :: rest => foldedProduct a b + sumProducts rest
  | _ => 0

/-- One word made of the accumulators and the secret from a byte on. -/
def mergeLanes (lanes : List UInt64) (i : Nat) (start : UInt64) : UInt64 :=
  avalanche (start + sumProducts (List.zipWith (· ^^^ ·) lanes (words 8 (secret.drop i))))

/-- The hash of more than 240 bytes: all blocks of sixteen stripes that something follows, the whole
stripes that are left, and at last the final sixty-four bytes once more. -/
def hashLong (bytes : List UInt8) : Wide :=
  let n := bytes.length
  let (lanes, rest) := absorbBlocks ((n - 1) / 1024) startLanes bytes
  let lanes := absorbStripes lanes rest ((rest.length - 1) / 64)
  let lanes := absorbStripe lanes (bytes.drop (n - 64)) 121
  let size := UInt64.ofNat n
  ⟨mergeLanes lanes 117 (~~~(size * prime2)), mergeLanes lanes 11 (size * prime1)⟩

/-! ## All lengths -/

/-- The hash of some bytes. -/
def hash (bytes : List UInt8) : Wide :=
  let n := bytes.length
  if n = 0 then hashEmpty
  else if n ≤ 3 then hashUpTo3 bytes
  else if n ≤ 8 then hashUpTo8 bytes
  else if n ≤ 16 then hashUpTo16 bytes
  else if n ≤ 128 then hashUpTo128 bytes
  else if n ≤ 240 then hashUpTo240 bytes
  else hashLong bytes

end SegmentIndex.Hash.XXH3
