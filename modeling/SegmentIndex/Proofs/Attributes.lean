import SegmentIndex.Proofs.AttributeKey
import SegmentIndex.Proofs.Maps
import SegmentIndex.Proofs.Offset
import SegmentIndex.Segment

/-!
# What a batch does to the attributes

A segment stages a batch and writes it at the end. Seen from outside that is the same as writing one
mutation after another and forgetting everything if one of them fails: `apply_eq_foldlM` trades the
staged map for a fold of `write`, and nothing below looks at staging again.

Attributes are mostly looked at through `offset?`, the offset that an attribute holds if it holds
one. A write changes it for one attribute (`offset?_set`), and a batch without conditions changes
it to what the batch writes last (`foldlM_write_unconditional`). The same is true of the values
themselves (`get?_foldlM_write`), for readers who refuse values that stand for nothing.
-/

namespace SegmentIndex

namespace Attributes

def set (a : Attributes) (key : AttributeKey) (x : Option Offset) : Attributes :=
  a.insert key.toId (Offset.encode x)

/-- Writes one mutation on its own, or says why not. -/
def write (a : Attributes) (m : Mutation) : Except ApplyError Attributes :=
  match m.condition with
  | .absent => .ok (if (a.offset? m.key).isSome then a else a.set m.key m.value)
  | .always => .ok (a.set m.key m.value)
  | .holds expected =>
    if a.offset? m.key = expected then .ok (a.set m.key m.value)
    else .error (.conflict m.key expected (a.offset? m.key))

/-! ## Staging is writing one by one -/

theorem current_eq_offset?_union (a staged : Attributes) (key : AttributeKey) :
    a.current staged key = offset? (a ∪ staged) key := by
  unfold current offset? get?
  rw [Std.ExtTreeMap.getElem?_union]

theorem map_union_stage (a staged : Attributes) (m : Mutation) :
    (a.stage staged m).map (a ∪ ·) = write (a ∪ staged) m := by
  have hinsert : a ∪ staged.insert m.key.toId m.physicalValue = set (a ∪ staged) m.key m.value :=
    Std.ExtTreeMap.union_insert_right_eq_insert_union (p := ⟨m.key.toId, m.physicalValue⟩)
  unfold stage write
  rw [current_eq_offset?_union]
  cases m.condition with
  | absent =>
      show Except.ok (a ∪ ite _ _ _) = _
      dsimp only
      split
      · rfl
      · rw [hinsert]
  | always => exact congrArg Except.ok hinsert
  | holds expected =>
      dsimp only
      split
      · exact congrArg Except.ok hinsert
      · rfl

theorem map_union_foldlM_stage (a : Attributes) (batch : List Mutation) (staged : Attributes) :
    (batch.foldlM a.stage staged).map (a ∪ ·) = batch.foldlM write (a ∪ staged) := by
  -- every mutation sees what those before it have staged
  induction batch generalizing staged with
  | nil => rfl
  | cons m rest ih =>
      rw [List.foldlM_cons, List.foldlM_cons, ← map_union_stage]
      cases a.stage staged m with
      | error e => rfl
      | ok staged' => exact ih staged'

/-- **A batch is as good as its mutations one by one**, except that a failure undoes all of it. -/
theorem apply_eq_foldlM (a : Attributes) (batch : List Mutation) :
    a.apply batch = batch.foldlM write a := by
  have hempty : a ∪ (∅ : Attributes) = a :=
    Std.ExtTreeMap.ext_getElem? fun k => by simp [Std.ExtTreeMap.getElem?_union]
  have h := map_union_foldlM_stage a batch ∅
  rw [hempty] at h
  rw [← h]
  unfold apply
  cases batch.foldlM a.stage ∅ <;> rfl

/-! ## The offsets after a write -/

theorem get?_set (a : Attributes) (key key' : AttributeKey) (x : Option Offset) :
    (a.set key x).get? key' = if key = key' then some (Offset.encode x) else a.get? key' := by
  unfold get? set
  rw [Maps.getElem?_insert]
  simp only [AttributeKey.toId_inj]

theorem offset?_set (a : Attributes) (key key' : AttributeKey) (x : Option Offset) :
    (a.set key x).offset? key' = if key = key' then x else a.offset? key' := by
  unfold offset?
  rw [get?_set]
  split
  · exact Offset.ofValue?_encode x
  · rfl

/-- A mutation that does not fail sets its attribute or does nothing. -/
theorem eq_or_eq_set_of_write {a a' : Attributes} {m : Mutation} (h : a.write m = .ok a') :
    a' = a ∨ a' = a.set m.key m.value := by
  unfold write at h
  cases hm : m.condition with
  | absent =>
      rw [hm] at h
      dsimp only at h
      split at h
      · exact .inl (Except.ok.inj h).symm
      · exact .inr (Except.ok.inj h).symm
  | always =>
      rw [hm] at h
      exact .inr (Except.ok.inj h).symm
  | holds expected =>
      rw [hm] at h
      dsimp only at h
      split at h
      · exact .inr (Except.ok.inj h).symm
      · exact absurd h (by simp)

/-- What a batch writes to an attribute last, if it writes it at all. -/
def lastWrite : List Mutation → AttributeKey → Option (Option Offset)
  | [], _ => none
  | m :: rest, key => (lastWrite rest key).or (if m.key = key then some m.value else none)

theorem lastWrite_append (l₁ l₂ : List Mutation) (key : AttributeKey) :
    lastWrite (l₁ ++ l₂) key = (lastWrite l₂ key).or (lastWrite l₁ key) := by
  induction l₁ with
  | nil => simp [lastWrite]
  | cons m rest ih => rw [List.cons_append, lastWrite, lastWrite, ih, Option.or_assoc]

/-- The mutations of a batch that write an attribute. -/
def writesTo (batch : List Mutation) (key : AttributeKey) : List Mutation :=
  batch.filter (·.key = key)

theorem mem_writesTo {batch : List Mutation} {key : AttributeKey} {m : Mutation} :
    m ∈ writesTo batch key ↔ m ∈ batch ∧ m.key = key := by
  unfold writesTo
  rw [List.mem_filter, decide_eq_true_eq]

theorem writesTo_append (l₁ l₂ : List Mutation) (key : AttributeKey) :
    writesTo (l₁ ++ l₂) key = writesTo l₁ key ++ writesTo l₂ key :=
  List.filter_append l₁ l₂

theorem writesTo_eq_nil {batch : List Mutation} {key : AttributeKey}
    (h : ∀ m ∈ batch, m.key ≠ key) : writesTo batch key = [] :=
  List.filter_eq_nil_iff.mpr fun m hm => by simpa using h m hm

theorem lastWrite_writesTo (batch : List Mutation) (key : AttributeKey) :
    lastWrite (writesTo batch key) key = lastWrite batch key := by
  induction batch with
  | nil => rfl
  | cons m rest ih =>
      unfold writesTo at ih ⊢
      rw [List.filter_cons]
      by_cases hm : m.key = key
      · rw [if_pos (decide_eq_true hm), lastWrite, lastWrite, ih]
      · rw [if_neg (by simpa using hm), lastWrite, if_neg hm, ih, Option.or_none]

theorem lastWrite_eq_none {batch : List Mutation} {key : AttributeKey}
    (h : ∀ m ∈ batch, m.key ≠ key) : lastWrite batch key = none := by
  induction batch with
  | nil => rfl
  | cons m rest ih =>
      rw [lastWrite, if_neg (h m List.mem_cons_self),
        ih fun m hm => h m (List.mem_cons_of_mem _ hm)]
      rfl

/-- Parts of a batch that agree on what to write to an attribute: so does the batch. -/
theorem lastWrite_flatten {parts : List (List Mutation)} {key : AttributeKey} {x : Option Offset}
    (h : ∀ part ∈ parts, lastWrite part key = none ∨ lastWrite part key = some x) :
    (lastWrite parts.flatten key = none ∧ ∀ part ∈ parts, lastWrite part key = none) ∨
      lastWrite parts.flatten key = some x := by
  induction parts with
  | nil => exact .inl ⟨rfl, by simp⟩
  | cons part rest ih =>
      rw [List.flatten_cons, lastWrite_append]
      rcases ih fun p hp => h p (List.mem_cons_of_mem _ hp) with ⟨hnone, hall⟩ | hsome
      · rw [hnone, Option.none_or]
        rcases h part List.mem_cons_self with hpart | hpart
        · refine .inl ⟨hpart, fun p hp => ?_⟩
          rcases List.mem_cons.mp hp with rfl | hp
          · exact hpart
          · exact hall p hp
        · exact .inr hpart
      · exact .inr (by rw [hsome, Option.some_or])

theorem eq_set_of_write {a a' : Attributes} {m : Mutation} (h : a.write m = .ok a')
    (hm : m.condition ≠ .absent) : a' = a.set m.key m.value := by
  unfold write at h
  split at h
  · rename_i habsent
    exact absurd habsent hm
  · exact (Except.ok.inj h).symm
  · split at h
    · exact (Except.ok.inj h).symm
    · exact absurd h (by simp)

/-- **What a batch has written is there**, down to the value that stands for it, and everything else
is as it was. -/
theorem get?_foldlM_write {batch : List Mutation} {a a' : Attributes}
    (h : ∀ m ∈ batch, m.condition ≠ .absent) (hrun : batch.foldlM write a = .ok a')
    (key : AttributeKey) :
    a'.get? key = ((lastWrite batch key).map Offset.encode).or (a.get? key) := by
  induction batch generalizing a with
  | nil =>
      rw [← Except.ok.inj hrun]
      rfl
  | cons m rest ih =>
      rw [List.foldlM_cons] at hrun
      cases hm : a.write m with
      | error e =>
          rw [hm] at hrun
          exact absurd hrun (by simp [bind, Except.bind])
      | ok a₁ =>
          rw [hm] at hrun
          obtain rfl := eq_set_of_write hm (h m List.mem_cons_self)
          rw [ih (fun m hm => h m (List.mem_cons_of_mem _ hm)) hrun, get?_set, lastWrite]
          -- the rest of the batch comes later, so what it writes counts
          cases lastWrite rest key with
          | some x => rfl
          | none => split <;> rfl

/-- **A batch without conditions succeeds, and each attribute holds what the batch writes last.** -/
theorem foldlM_write_unconditional {batch : List Mutation}
    (h : ∀ m ∈ batch, m.condition = .always) (a : Attributes) :
    ∃ a', batch.foldlM write a = .ok a' ∧
      ∀ key, a'.offset? key = (lastWrite batch key).getD (a.offset? key) := by
  have hsucceeds : ∃ a', batch.foldlM write a = .ok a' := by
    induction batch generalizing a with
    | nil => exact ⟨a, rfl⟩
    | cons m rest ih =>
        have hm : a.write m = .ok (a.set m.key m.value) := by
          rw [write, h m List.mem_cons_self]
        rw [List.foldlM_cons, hm]
        exact ih (fun m hm => h m (List.mem_cons_of_mem _ hm)) (a.set m.key m.value)
  obtain ⟨a', hrun⟩ := hsucceeds
  have habsent : ∀ m ∈ batch, m.condition ≠ .absent := fun m hm => by
    rw [h m hm]
    simp
  refine ⟨a', hrun, fun key => ?_⟩
  unfold offset?
  rw [get?_foldlM_write habsent hrun]
  cases lastWrite batch key with
  | some x => exact Offset.ofValue?_encode x
  | none => rfl

/-! ## Only encodings are ever written -/

/-- Everything that is kept is the encoding of an optional offset, under the id of an attribute. -/
def Encoded (a : Attributes) : Prop :=
  ∀ (i : AttributeId) (v : AttributeValue), a[i]? = some v →
    ∃ (key : AttributeKey) (x : Option Offset), key.toId = i ∧ Offset.encode x = v

theorem encoded_empty : Encoded ∅ := by
  intro i v h
  simp at h

theorem Encoded.set {a : Attributes} (h : a.Encoded) (key : AttributeKey) (x : Option Offset) :
    (a.set key x).Encoded := by
  intro i v hi
  rw [Attributes.set, Maps.getElem?_insert] at hi
  split at hi
  · rename_i hkey
    exact ⟨key, x, hkey, Option.some.inj hi⟩
  · exact h i v hi

theorem Encoded.write {a a' : Attributes} (h : a.Encoded) {m : Mutation}
    (hm : a.write m = .ok a') : a'.Encoded := by
  rcases eq_or_eq_set_of_write hm with rfl | rfl
  · exact h
  · exact h.set m.key m.value

theorem Encoded.foldlM_write {batch : List Mutation} {a a' : Attributes} (h : a.Encoded)
    (hb : batch.foldlM Attributes.write a = .ok a') : a'.Encoded := by
  induction batch generalizing a with
  | nil =>
      injection hb with hb
      exact hb ▸ h
  | cons m rest ih =>
      rw [List.foldlM_cons] at hb
      cases hm : a.write m with
      | error e => rw [hm] at hb; exact absurd hb (by simp [bind, Except.bind])
      | ok a₁ =>
          rw [hm] at hb
          exact ih (h.write hm) hb

/-! ## The snapshot of live attributes -/

theorem getElem?_addLive (live : Std.ExtTreeMap AttributeKey Offset)
    (p : AttributeId × AttributeValue) (key : AttributeKey) :
    (addLive live p)[key]? =
      if p.1 = key.toId then (Offset.ofValue? p.2).or live[key]? else live[key]? := by
  unfold addLive
  split
  · rename_i key' o hkey' ho
    rw [AttributeKey.ofId?_eq_some_iff] at hkey'
    rw [Maps.getElem?_insert, ← hkey', ho]
    by_cases h : key' = key
    · rw [if_pos h, if_pos (AttributeKey.toId_inj.mpr h), Option.some_or]
    · rw [if_neg h, if_neg fun hid => h (AttributeKey.toId_inj.mp hid)]
  · rename_i hno
    split
    · rename_i hid
      cases ho : Offset.ofValue? p.2 with
      | none => rw [Option.none_or]
      | some o => exact absurd ho (hno key o (AttributeKey.ofId?_eq_some_iff.mpr hid.symm))
    · rfl

theorem getElem?_foldl_addLive {l : List (AttributeId × AttributeValue)}
    (hl : l.Pairwise fun p q => p.1 ≠ q.1) (live : Std.ExtTreeMap AttributeKey Offset)
    (key : AttributeKey) :
    (l.foldl addLive live)[key]?
      = ((l.find? (·.1 = key.toId)).bind (Offset.ofValue? ·.2)).or live[key]? := by
  induction l generalizing live with
  | nil => rfl
  | cons p rest ih =>
      obtain ⟨hne, hrest⟩ := List.pairwise_cons.mp hl
      rw [List.foldl_cons, ih hrest, List.find?_cons, getElem?_addLive]
      by_cases hp : p.1 = key.toId
      · -- the attribute itself: its id does not come again
        have hnone : rest.find? (·.1 = key.toId) = none := by
          rw [List.find?_eq_none]
          intro q hq
          simpa [← hp] using fun h => hne q hq h.symm
        simp [hnone, hp]
      · simp [hp]

/-- **The snapshot shows each attribute with the offset that it holds.** -/
theorem getElem?_live (a : Attributes) (key : AttributeKey) : a.live[key]? = a.offset? key := by
  unfold live
  rw [getElem?_foldl_addLive (Maps.pairwise_toList_ne a), Std.ExtTreeMap.getElem?_empty,
    Option.or_none]
  unfold offset? get?
  cases hf : a.toList.find? (·.1 = key.toId) with
  | none =>
      rw [List.find?_eq_none] at hf
      cases hk : a[key.toId]? with
      | none => rfl
      | some v =>
          have := hf _ (Std.ExtTreeMap.mem_toList_iff_getElem?_eq_some.mpr hk)
          simp at this
  | some p =>
      have hkept : a[p.1]? = some p.2 :=
        Std.ExtTreeMap.mem_toList_iff_getElem?_eq_some.mp (List.mem_of_find?_eq_some hf)
      have hid : p.1 = key.toId := by simpa using List.find?_some hf
      rw [Option.bind_some, ← hid, hkept, Option.bind_some]

end Attributes

end SegmentIndex
