import SegmentIndex.Offset
import SegmentIndex.Text

/-!
# Keys and their hashes

The keys of a table are strings of bytes, ordered byte by byte. Most of them are text, and then
they are shown as text.

Keys are spread over buckets by a hash of 127 bits. The 128th bit is not part of a hash: as an
attribute id it separates the buckets from every other kind of attribute.
-/

namespace SegmentIndex

/-- A key of a table. -/
@[ext] structure TableKey where
  bytes : List UInt8
  deriving DecidableEq

namespace TableKey

instance : Ord TableKey := ⟨compareOn bytes⟩

instance : Std.TransOrd TableKey := inferInstanceAs (Std.TransCmp (compareOn bytes))

instance : Std.LawfulEqOrd TableKey := lawfulEqCmp_compareOn bytes fun _ _ => TableKey.ext

/-- The key spelled by a text. -/
def ofString (s : String) : TableKey := ⟨s.toUTF8.toList⟩

/-- The number of bytes. -/
def length (k : TableKey) : Nat := k.bytes.length

/-- Whether the key has no bytes. -/
def isEmpty (k : TableKey) : Bool := k.bytes.isEmpty

/-- The text that the key spells, if its bytes are well-formed text. -/
def text? (k : TableKey) : Option String := String.fromUTF8? ⟨k.bytes.toArray⟩

/-- A key for human eyes: quoted text where it spells one, and a list of bytes otherwise. -/
def describe (k : TableKey) : String :=
  match k.text? with
  | some text => "TableKey(" ++ Text.Quoted.encode text ++ ")"
  | none =>
    "TableKey([" ++ ", ".intercalate (k.bytes.map fun b => Text.Hex.fixed 2 b.toNat) ++ "])"

end TableKey

/-- The hash that names a bucket. -/
@[ext] structure KeyHash where
  bits : BitVec 127
  deriving DecidableEq

namespace KeyHash

instance : Inhabited KeyHash := ⟨⟨0⟩⟩

instance : Ord KeyHash := ⟨compareOn bits⟩

instance : Std.TransOrd KeyHash := inferInstanceAs (Std.TransCmp (compareOn bits))

instance : Std.LawfulEqOrd KeyHash := lawfulEqCmp_compareOn bits fun _ _ => KeyHash.ext

/-- The hash in the low 127 bits of a 128-bit number. -/
def ofBits (raw : BitVec 128) : KeyHash := ⟨raw.setWidth 127⟩

/-- The hash as a 128-bit number, its top bit clear. -/
def toBits (h : KeyHash) : BitVec 128 := h.bits.setWidth 128

/-- The upper 64 bits of the 128-bit number. -/
def high (h : KeyHash) : BitVec 64 := h.toBits.extractLsb' 64 64

/-- The lower 64 bits of the 128-bit number. -/
def low (h : KeyHash) : BitVec 64 := h.toBits.extractLsb' 0 64

instance : ToString KeyHash := ⟨fun h => Text.Hex.fixed 32 h.bits.toNat⟩

/-- A hash as error texts name it. -/
def describe (h : KeyHash) : String := s!"KeyHash({h})"

end KeyHash

end SegmentIndex
