import Std.Data.ExtTreeMap

/-!
# Offsets

An offset names the place in a segment's log where an entry starts. Offsets share their range with
the non-negative 64-bit attribute values, so each one can be stored as an attribute, and one
negative value is left over to say "no offset".

Reading an attribute value is lenient here: every negative value means "no offset". A reader that
must tell the agreed absent value from garbage has a stricter rule of its own.

Like most types here, offsets are ordered by one number that tells them apart. Such an order is
equality where it says "equal", so a map over it has one entry for each value.
-/

namespace SegmentIndex

/-- Comparing by a key that tells all values apart says "equal" of equal values only. -/
theorem lawfulEqCmp_compareOn {α β : Type} [Ord β] [Std.LawfulEqOrd β] (key : α → β)
    (injective : ∀ a b, key a = key b → a = b) : Std.LawfulEqCmp (compareOn key) where
  compare_self {a} := (Std.ReflCmp.compare_self : compare (key a) (key a) = .eq)
  eq_of_compare {a b} h := by
    have h : compare (key a) (key b) = .eq := h
    exact injective a b (Std.LawfulEqCmp.eq_of_compare h)

/-- A place in a segment's log. -/
@[ext] structure Offset where
  /-- Bytes from the start of the log. -/
  val : Nat
  /-- Every offset fits in a non-negative attribute value. -/
  val_lt : val < 0x8000000000000000
  deriving DecidableEq

/-- The number that an attribute physically holds. -/
abbrev AttributeValue := Int64

/-- The attribute value that stands for "no offset". -/
def AttributeValue.absent : AttributeValue := Int64.minValue

namespace Offset

/-- The first offset of every segment. -/
def zero : Offset := ⟨0, by decide⟩

/-- The largest offset there is. -/
def top : Offset := ⟨0x7fffffffffffffff, by decide⟩

instance : Inhabited Offset := ⟨zero⟩

instance : LT Offset := ⟨fun a b => a.val < b.val⟩

instance : LE Offset := ⟨fun a b => a.val ≤ b.val⟩

instance (a b : Offset) : Decidable (a < b) := inferInstanceAs (Decidable (a.val < b.val))

instance (a b : Offset) : Decidable (a ≤ b) := inferInstanceAs (Decidable (a.val ≤ b.val))

instance : Max Offset := maxOfLe

instance : Ord Offset := ⟨compareOn val⟩

instance : Std.TransOrd Offset := inferInstanceAs (Std.TransCmp (compareOn val))

instance : Std.LawfulEqOrd Offset := lawfulEqCmp_compareOn val fun _ _ => Offset.ext

/-- The offset with value `n`, if there is one. -/
def ofNat? (n : Nat) : Option Offset :=
  if h : n < 0x8000000000000000 then some ⟨n, h⟩ else none

/-- The offset with value `n`, or the largest offset if `n` is past it. -/
def clamp (n : Nat) : Offset := (ofNat? n).getD top

/-- The offset `n` bytes further on, if there is one. -/
def add? (a : Offset) (n : Nat) : Option Offset := ofNat? (a.val + n)

/-- The number of bytes from `b` up to `a`, if `b` does not lie beyond `a`. -/
def distance? (a b : Offset) : Option Nat :=
  if b ≤ a then some (a.val - b.val) else none

/-- The attribute value that stands for an offset. -/
def toValue (a : Offset) : AttributeValue := Int64.ofNat a.val

/-- The offset that an attribute value stands for: none for every negative value. -/
def ofValue? (v : AttributeValue) : Option Offset :=
  if 0 ≤ v.toInt then ofNat? v.toInt.toNat else none

/-- The attribute value for an offset that may be missing. -/
def encode : Option Offset → AttributeValue
  | some a => a.toValue
  | none => .absent

instance : ToString Offset := ⟨fun a => toString a.val⟩

/-- The offset as error texts name it. -/
def describe (a : Offset) : String := s!"Offset({a})"

/-- An offset that may be missing, as error texts name it. -/
def describe? : Option Offset → String
  | some a => s!"Some({a.describe})"
  | none => "None"

end Offset

end SegmentIndex
