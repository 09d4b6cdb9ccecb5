import Std.Data.ExtTreeMap

/-!
# Maps whose order tells all keys apart

The library states what a map holds after a change in terms of the order of its keys. All orders
here say "equal" of equal keys only, so the same facts can be told with equality.
-/

namespace SegmentIndex.Maps

variable {α β : Type} [Ord α] [Std.TransOrd α] [Std.LawfulEqOrd α] [DecidableEq α]

theorem getElem?_insert (m : Std.ExtTreeMap α β) (k k' : α) (v : β) :
    (m.insert k v)[k']? = if k = k' then some v else m[k']? := by
  simp only [Std.ExtTreeMap.getElem?_insert, Std.compare_eq_iff_eq]

theorem getElem?_alter (m : Std.ExtTreeMap α β) (k k' : α) (f : Option β → Option β) :
    (m.alter k f)[k']? = if k = k' then f m[k]? else m[k']? := by
  simp only [Std.ExtTreeMap.getElem?_alter, Std.compare_eq_iff_eq]

theorem getElem?_erase (m : Std.ExtTreeMap α β) (k k' : α) :
    (m.erase k)[k']? = if k = k' then none else m[k']? := by
  simp only [Std.ExtTreeMap.getElem?_erase, Std.compare_eq_iff_eq]

omit [DecidableEq α] in
theorem pairwise_toList_ne (m : Std.ExtTreeMap α β) : m.toList.Pairwise fun p q => p.1 ≠ q.1 :=
  Std.ExtTreeMap.distinct_keys_toList.imp fun h => by
    rwa [Std.compare_eq_iff_eq] at h

omit [DecidableEq α] in
theorem mem_keys {m : Std.ExtTreeMap α β} {k : α} : k ∈ m.keys ↔ (m[k]?).isSome := by
  rw [Std.ExtTreeMap.mem_keys, Std.ExtTreeMap.mem_iff_isSome_getElem?]

omit [DecidableEq α] in
theorem isEmpty_eq_false_iff {m : Std.ExtTreeMap α β} :
    m.isEmpty = false ↔ ∃ (k : α) (v : β), m[k]? = some v := by
  rw [← Bool.not_eq_true, Std.ExtTreeMap.isEmpty_iff]
  constructor
  · intro hne
    refine Classical.byContradiction fun hno => hne (Std.ExtTreeMap.ext_getElem? fun k => ?_)
    rw [Std.ExtTreeMap.getElem?_empty, Option.eq_none_iff_forall_ne_some]
    exact fun v hv => hno ⟨k, v, hv⟩
  · intro ⟨k, v, hv⟩ hempty
    rw [hempty, Std.ExtTreeMap.getElem?_empty] at hv
    exact absurd hv (by simp)

omit [Std.LawfulEqOrd α] [DecidableEq α] in
theorem values_eq_foldr (m : Std.ExtTreeMap α β) : m.values = m.foldr (fun _ v l => v :: l) [] := by
  rcases m with ⟨⟨q⟩⟩
  induction q using Quotient.inductionOn with
  | h m => rfl

omit [Std.LawfulEqOrd α] [DecidableEq α] in
theorem values_eq_map_toList (m : Std.ExtTreeMap α β) : m.values = m.toList.map (·.2) := by
  rw [values_eq_foldr, Std.ExtTreeMap.foldr_eq_foldr_toList]
  induction m.toList with
  | nil => rfl
  | cons p rest ih => rw [List.foldr_cons, ih, List.map_cons]

omit [DecidableEq α] in
theorem mem_values {m : Std.ExtTreeMap α β} {v : β} : v ∈ m.values ↔ ∃ k : α, m[k]? = some v := by
  rw [values_eq_map_toList, List.mem_map]
  constructor
  · intro h
    obtain ⟨p, hp, rfl⟩ := h
    exact ⟨p.1, Std.ExtTreeMap.mem_toList_iff_getElem?_eq_some.mp hp⟩
  · intro h
    obtain ⟨k, hk⟩ := h
    exact ⟨(k, v), Std.ExtTreeMap.mem_toList_iff_getElem?_eq_some.mpr hk, rfl⟩

end SegmentIndex.Maps
