import SegmentIndex.Attribute
import SegmentIndex.Proofs.Offset

/-!
# Attribute ids are exact names

The ids of the three kinds of attribute share 128 bits without ever meeting. As numbers they are
easy to tell apart: buckets lie below `2 ^ 127`, the checkpoint sits right there, and the
backpointers start `2 ^ 64` further up. So no write to one attribute can be taken for a write to
another, and what is stored can be read back as what it is about.
-/

namespace SegmentIndex.AttributeKey

/-- The number that the id of an attribute spells. -/
def idNumber : AttributeKey → Nat
  | tableIndexOffset => 0x80000000000000000000000000000000
  | bucket hash => hash.bits.toNat
  | backpointer offset => 0x80000000000000010000000000000000 + offset.val

theorem toNat_toId (key : AttributeKey) : key.toId.bits.toNat = key.idNumber := by
  cases key with
  | tableIndexOffset => rfl
  | bucket hash =>
      have := hash.bits.isLt
      simp only [toId, KeyHash.toBits, idNumber, BitVec.toNat_setWidth]
      omega
  | backpointer offset =>
      have := offset.val_lt
      simp only [toId, AttributeId.ofHalves, AttributeId.backpointerPart, idNumber,
        BitVec.toNat_append, BitVec.toNat_ofNat]
      rw [Nat.mod_eq_of_lt (a := offset.val) (by omega)]
      exact (Nat.shiftLeft_add_eq_or_of_lt (by omega) _).symm.trans
        (congrArg (· + offset.val) (by decide))

theorem idNumber_injective {a b : AttributeKey} (h : a.idNumber = b.idNumber) : a = b := by
  -- the numbers of the three kinds lie in ranges that do not meet
  cases a with
  | tableIndexOffset =>
      cases b with
      | tableIndexOffset => rfl
      | bucket y => have := y.bits.isLt; simp only [idNumber] at h; omega
      | backpointer y => simp only [idNumber] at h; omega
  | bucket x =>
      have := x.bits.isLt
      cases b with
      | tableIndexOffset => simp only [idNumber] at h; omega
      | bucket y => exact congrArg bucket (KeyHash.ext (BitVec.eq_of_toNat_eq h))
      | backpointer y => simp only [idNumber] at h; omega
  | backpointer x =>
      cases b with
      | tableIndexOffset => simp only [idNumber] at h; omega
      | bucket y => have := y.bits.isLt; simp only [idNumber] at h; omega
      | backpointer y =>
          simp only [idNumber] at h
          exact congrArg backpointer (Offset.ext (by omega))

theorem toId_eq_iff_idNumber {key : AttributeKey} {i : AttributeId} :
    key.toId = i ↔ key.idNumber = i.bits.toNat := by
  rw [← toNat_toId]
  exact ⟨fun h => by rw [h], fun h => AttributeId.ext (BitVec.eq_of_toNat_eq h)⟩

/-- **No two attributes share an id.** -/
theorem toId_inj {a b : AttributeKey} : a.toId = b.toId ↔ a = b := by
  refine ⟨fun h => idNumber_injective ?_, fun h => by rw [h]⟩
  rw [← toNat_toId, ← toNat_toId, h]

/-! ## What an id is about -/

theorem high_eq_backpointerPart_iff {i : AttributeId} :
    i.high = AttributeId.backpointerPart ↔ i.bits.toNat >>> 64 = 0x8000000000000001 := by
  have hi := i.bits.isLt
  have h : i.high.toNat = i.bits.toNat >>> 64 := by
    rw [AttributeId.high, BitVec.extractLsb'_toNat]
    omega
  rw [← h]
  exact ⟨fun h => by rw [h]; rfl, fun h => BitVec.eq_of_toNat_eq h⟩

theorem toNat_low (i : AttributeId) : i.low.toNat = i.bits.toNat % 0x10000000000000000 := by
  rw [AttributeId.low, BitVec.extractLsb'_toNat, Nat.shiftRight_zero]

/-- **An id is about an attribute exactly if it is the attribute's id.** -/
theorem ofId?_eq_some_iff {i : AttributeId} {key : AttributeKey} :
    ofId? i = some key ↔ key.toId = i := by
  have hi := i.bits.isLt
  have hmsb : i.bits.msb = false ↔ i.bits.toNat < 2 ^ 127 := by
    rw [BitVec.msb_eq_decide]; simp
  have hcheckpoint : i = AttributeId.checkpoint ↔ tableIndexOffset.idNumber = i.bits.toNat := by
    rw [← toId_eq_iff_idNumber]
    exact eq_comm
  rw [toId_eq_iff_idNumber]
  unfold ofId?
  split
  · rename_i h
    rw [hmsb] at h
    rw [Option.some.injEq]
    have hbucket : (bucket (.ofBits i.bits)).idNumber = i.bits.toNat := by
      simp only [idNumber, KeyHash.ofBits, BitVec.toNat_setWidth]
      omega
    exact ⟨fun h => h ▸ hbucket, fun h => idNumber_injective (hbucket.trans h.symm)⟩
  · rename_i hm
    rw [hmsb] at hm
    split
    · rename_i h
      rw [hcheckpoint] at h
      rw [Option.some.injEq]
      exact ⟨fun hk => hk ▸ h, fun hk => idNumber_injective (h.trans hk.symm)⟩
    · rename_i hc
      rw [hcheckpoint] at hc
      split
      · rename_i h
        rw [high_eq_backpointerPart_iff] at h
        rw [toNat_low, Offset.ofNat?]
        split
        · rename_i hlt
          rw [Option.map_some, Option.some.injEq]
          have hlink : (backpointer ⟨_, hlt⟩).idNumber = i.bits.toNat := by
            simp only [idNumber]; omega
          exact ⟨fun h => h ▸ hlink, fun h => idNumber_injective (hlink.trans h.symm)⟩
        · rename_i hge
          -- an id as far up as this is past the last offset
          rw [Option.map_none]
          refine ⟨fun h => absurd h (by simp), fun hk => ?_⟩
          cases key with
          | tableIndexOffset => exact absurd hk hc
          | bucket x => have := x.bits.isLt; simp only [idNumber] at hk; omega
          | backpointer x => have := x.val_lt; simp only [idNumber] at hk; omega
      · rename_i h
        rw [high_eq_backpointerPart_iff] at h
        refine ⟨fun h => absurd h (by simp), fun hk => ?_⟩
        cases key with
        | tableIndexOffset => exact absurd hk hc
        | bucket x => have := x.bits.isLt; simp only [idNumber] at hk; omega
        | backpointer x => have := x.val_lt; simp only [idNumber] at hk; omega

/-- **An id is about nothing exactly if** it lies outside the buckets, is not the checkpoint's, and
is not made of the mark of the backpointers and an offset. -/
theorem ofId?_eq_none_iff {i : AttributeId} :
    ofId? i = none ↔ i.bits.msb = true ∧ i ≠ .checkpoint ∧
      ¬(i.high = AttributeId.backpointerPart ∧ i.low.toNat ≤ Offset.top.val) := by
  unfold ofId?
  by_cases hmsb : i.bits.msb = false
  · simp [hmsb]
  · rw [if_neg hmsb, and_iff_right (Bool.not_eq_false _ ▸ hmsb)]
    by_cases hcheckpoint : i = .checkpoint
    · rw [if_pos hcheckpoint]
      simp [hcheckpoint]
    · rw [if_neg hcheckpoint, and_iff_right hcheckpoint]
      by_cases hhigh : i.high = AttributeId.backpointerPart
      · rw [if_pos hhigh, Option.map_eq_none_iff, Offset.ofNat?_eq_none_iff]
        exact ⟨fun hlow h => absurd h.2 (not_le.mpr hlow),
          fun h => not_le.mp fun hle => h ⟨hhigh, hle⟩⟩
      · rw [if_neg hhigh]
        exact iff_of_true rfl fun h => hhigh h.1

/-! ## Masked hashes -/

/-- A hash is a 128-bit number without its top bit. -/
theorem toBits_ofBits (raw : BitVec 128) :
    (KeyHash.ofBits raw).toBits = raw &&& 0x7fffffffffffffffffffffffffffffff#128 := by
  have hraw := raw.isLt
  refine BitVec.eq_of_toNat_eq ?_
  have hmask : raw.toNat &&& 2 ^ 127 - 1 = raw.toNat % 2 ^ 127 :=
    Nat.and_two_pow_sub_one_eq_mod raw.toNat 127
  rw [KeyHash.toBits, KeyHash.ofBits, BitVec.toNat_and, BitVec.toNat_setWidth,
    BitVec.toNat_setWidth]
  exact (Nat.mod_eq_of_lt (by omega)).trans hmask.symm

end SegmentIndex.AttributeKey
