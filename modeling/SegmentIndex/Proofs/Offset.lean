import Mathlib.Data.List.Sort
import Mathlib.Order.MinMax
import SegmentIndex.Offset

/-!
# The order of offsets, and what they look like as attribute values

Offsets are ordered by their numbers, and a list of offsets that only ever steps down is determined
by its members. That is how two ways to compute a chain are compared below: nobody has to follow the
computations, only to say which offsets come out.

An optional offset survives the trip through an attribute value. The absent value is the one
negative number that is ever written.
-/

namespace SegmentIndex.Offset

theorem lt_iff_val {a b : Offset} : a < b ↔ a.val < b.val := Iff.rfl

theorem eq_iff_val {a b : Offset} : a = b ↔ a.val = b.val := Offset.ext_iff

instance : LinearOrder Offset where
  le_refl a := Nat.le_refl a.val
  le_trans _ _ _ h₁ h₂ := Nat.le_trans h₁ h₂
  le_antisymm _ _ h₁ h₂ := Offset.ext (Nat.le_antisymm h₁ h₂)
  le_total a b := Nat.le_total a.val b.val
  lt_iff_le_not_ge a b := Nat.lt_iff_le_and_not_ge
  toDecidableLE := inferInstance
  toDecidableLT := inferInstance
  toDecidableEq := inferInstance
  max := max
  min a b := if a ≤ b then a else b
  compare := compare
  compare_eq_compareOfLessAndEq a b := by
    show compareOfLessAndEq a.val b.val = compareOfLessAndEq a b
    unfold compareOfLessAndEq
    simp only [lt_iff_val, eq_iff_val]

instance : Std.LawfulOrderMax Offset where
  max_eq_or := max_choice
  max_le_iff _ _ _ := max_le_iff

theorem compare_eq_lt {a b : Offset} : compare a b = .lt ↔ a < b := by
  show compare a.val b.val = .lt ↔ _
  rw [Nat.compare_eq_lt, lt_iff_val]

/-! ## Lists that step down -/

/-- A list of offsets in which each is older than the one before it. -/
def Descending (l : List Offset) : Prop := l.Pairwise fun a b => b < a

/-- **A descending list is determined by its members.** -/
theorem Descending.ext {l₁ l₂ : List Offset} (h₁ : Descending l₁) (h₂ : Descending l₂)
    (h : ∀ o, o ∈ l₁ ↔ o ∈ l₂) : l₁ = l₂ := by
  have : Std.Irrefl fun a b : Offset => b < a := ⟨fun a => lt_irrefl a⟩
  have : Std.Antisymm fun a b : Offset => b < a := ⟨fun _ _ hab hba => (lt_asymm hab hba).elim⟩
  exact List.Pairwise.eq_of_mem_iff h₁ h₂ h

theorem Descending.nodup {l : List Offset} (h : Descending l) : l.Nodup :=
  h.imp fun hab => (ne_of_lt hab).symm

theorem Descending.cons {o older : Offset} {rest : List Offset} (h : Descending (older :: rest))
    (hlt : older < o) : Descending (o :: older :: rest) := by
  refine List.pairwise_cons.mpr ⟨fun x hx => ?_, h⟩
  rcases List.mem_cons.mp hx with rfl | hx
  · exact hlt
  · exact lt_trans ((List.pairwise_cons.mp h).1 x hx) hlt

theorem Descending.head?_eq_some_iff {l : List Offset} (h : Descending l) {o : Offset} :
    l.head? = some o ↔ o ∈ l ∧ ∀ o' ∈ l, o' ≤ o := by
  cases l with
  | nil => simp
  | cons a rest =>
      have hlt := (List.pairwise_cons.mp h).1
      rw [List.head?_cons, Option.some.injEq]
      constructor
      · intro heq
        subst heq
        refine ⟨List.mem_cons_self, fun o' ho' => ?_⟩
        rcases List.mem_cons.mp ho' with rfl | ho'
        · exact le_refl _
        · exact le_of_lt (hlt o' ho')
      · intro hgreatest
        obtain ⟨hmem, hmax⟩ := hgreatest
        rcases List.mem_cons.mp hmem with rfl | hmem
        · rfl
        · exact absurd (hlt o hmem) (not_lt.mpr (hmax a List.mem_cons_self))

/-! ## Attribute values -/

theorem ofNat?_eq_some_iff {n : Nat} {a : Offset} : ofNat? n = some a ↔ a.val = n := by
  unfold ofNat?
  split
  · rw [Option.some.injEq, Offset.ext_iff]
    exact eq_comm
  · rename_i h
    exact iff_of_false (by simp) fun heq => h (heq ▸ a.val_lt)

theorem ofNat?_eq_none_iff {n : Nat} : ofNat? n = none ↔ top.val < n := by
  unfold ofNat?
  split
  · rename_i h
    exact iff_of_false (by simp) (not_lt.mpr (Nat.le_of_lt_succ h))
  · rename_i h
    exact iff_of_true rfl (not_lt.mp h)

theorem ofValue?_toValue (a : Offset) : ofValue? a.toValue = some a := by
  have h : a.toValue.toInt = a.val := Int64.toInt_ofNat_of_lt a.val_lt
  unfold ofValue? ofNat?
  rw [h, if_pos (Int.natCast_nonneg _), Int.toNat_natCast, dif_pos a.val_lt]

theorem ofValue?_absent : ofValue? .absent = none := by decide

/-- Negative values stand for no offset, and no others. -/
theorem ofValue?_eq_none_iff {v : AttributeValue} : ofValue? v = none ↔ v.toInt < 0 := by
  have hlt : v.toInt < 0x8000000000000000 := v.toInt_lt
  unfold ofValue? ofNat?
  by_cases hneg : v.toInt < 0
  · rw [if_neg (not_le.mpr hneg)]
    exact iff_of_true rfl hneg
  · rw [if_pos (not_lt.mp hneg), dif_pos (by omega)]
    exact iff_of_false (by simp) hneg

/-- **An optional offset survives its encoding.** -/
@[simp] theorem ofValue?_encode (x : Option Offset) : ofValue? (encode x) = x := by
  cases x with
  | none => exact ofValue?_absent
  | some a => exact ofValue?_toValue a

theorem toValue_ne_absent (a : Offset) : a.toValue ≠ .absent := by
  intro heq
  have hvalue := ofValue?_toValue a
  rw [heq, ofValue?_absent] at hvalue
  exact absurd hvalue (by simp)

/-- An attribute value survives being read if it is no garbage. -/
theorem encode_ofValue?_eq_iff {v : AttributeValue} :
    encode (ofValue? v) = v ↔ 0 ≤ v.toInt ∨ v = .absent := by
  have hlt : v.toInt < 0x8000000000000000 := v.toInt_lt
  by_cases hneg : v.toInt < 0
  · rw [ofValue?_eq_none_iff.mpr hneg, or_iff_right (not_le.mpr hneg)]
    exact eq_comm
  · have hread : ofValue? v = some ⟨v.toInt.toNat, by omega⟩ := by
      unfold ofValue? ofNat?
      rw [if_pos (not_lt.mp hneg), dif_pos]
    rw [hread]
    refine iff_of_true (Int64.toInt_inj.mp ?_) (.inl (not_lt.mp hneg))
    show (Int64.ofNat v.toInt.toNat).toInt = v.toInt
    rw [Int64.toInt_ofNat_of_lt (by omega)]
    exact Int.toNat_of_nonneg (not_lt.mp hneg)

end SegmentIndex.Offset
