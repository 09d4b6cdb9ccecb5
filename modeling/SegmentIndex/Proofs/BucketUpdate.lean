import SegmentIndex.Plan
import SegmentIndex.Proofs.Maps
import SegmentIndex.Proofs.Offset

/-!
# A bucket before and after its update

What a bucket update says about the bucket is two chains, newest entry first: the one it was found
with (`oldChain`) and the one it is to have (`newChain`). Both are determined by their members, so
this module says which entries they hold.

That takes entries which can be told apart by their offsets and changes that are newer than
everything indexed, which is what `Layered` asks for.
-/

namespace SegmentIndex.BucketUpdate

variable {u : BucketUpdate}

/-! ## The keys and the changes, one by one -/

theorem mem_existingKeys {info : KeyInfo} :
    info ∈ u.existingKeys ↔ u.existing[info.key]? = some info.offset := by
  unfold existingKeys
  rw [List.mem_map]
  constructor
  · intro hex
    obtain ⟨p, hp, rfl⟩ := hex
    exact Std.ExtTreeMap.mem_toList_iff_getElem?_eq_some.mp hp
  · intro h
    exact ⟨(info.key, info.offset), Std.ExtTreeMap.mem_toList_iff_getElem?_eq_some.mpr h, rfl⟩

theorem mem_keyUpdates {update : KeyUpdate} :
    update ∈ u.keyUpdates ↔ u.changes[update.key]? = some update.toChange := by
  unfold keyUpdates
  rw [List.mem_map]
  constructor
  · intro hex
    obtain ⟨p, hp, rfl⟩ := hex
    exact Std.ExtTreeMap.mem_toList_iff_getElem?_eq_some.mp hp
  · intro h
    exact ⟨(update.key, update.toChange), Std.ExtTreeMap.mem_toList_iff_getElem?_eq_some.mpr h, rfl⟩

theorem hasUpdates_iff :
    u.hasUpdates ↔ ∃ (key : TableKey) (ch : Change), u.changes[key]? = some ch := by
  unfold hasUpdates
  rw [Bool.not_eq_true']
  exact Maps.isEmpty_eq_false_iff

theorem isKeyUpdated_iff {key : TableKey} :
    u.isKeyUpdated key ↔ ∃ ch, u.changes[key]? = some ch := by
  unfold isKeyUpdated
  rw [Std.ExtTreeMap.contains_eq_isSome_getElem?, Option.isSome_iff_exists]

theorem isKeyUpdated_iff_mem {key : TableKey} :
    u.isKeyUpdated key ↔ ∃ update ∈ u.keyUpdates, update.key = key := by
  rw [isKeyUpdated_iff]
  constructor
  · intro ⟨ch, hch⟩
    exact ⟨⟨ch, key⟩, mem_keyUpdates.mpr hch, rfl⟩
  · intro ⟨update, hupdate, hkey⟩
    exact ⟨update.toChange, hkey ▸ mem_keyUpdates.mp hupdate⟩

theorem isKeyUpdated_eq_false_iff {key : TableKey} :
    u.isKeyUpdated key = false ↔ u.changes[key]? = none := by
  rw [← Bool.not_eq_true, isKeyUpdated_iff, Option.eq_none_iff_forall_ne_some]
  exact not_exists

theorem mem_surviving {update : KeyUpdate} :
    update ∈ u.surviving ↔
      u.changes[update.key]? = some update.toChange ∧ update.deleted = false := by
  unfold surviving
  rw [List.mem_filter, mem_keyUpdates, Bool.not_eq_true']

/-- Every key is there once. -/
theorem pairwise_existingKeys (u : BucketUpdate) :
    u.existingKeys.Pairwise fun a b => a.key ≠ b.key :=
  List.pairwise_map.mpr (Maps.pairwise_toList_ne u.existing)

/-- Every key is changed once. -/
theorem pairwise_keyUpdates (u : BucketUpdate) :
    u.keyUpdates.Pairwise fun a b => a.key ≠ b.key :=
  List.pairwise_map.mpr (Maps.pairwise_toList_ne u.changes)

/-- **An update is determined** by its bucket, and what it says of each key. -/
theorem eq_of_getElem? {v : BucketUpdate} (hbucket : u.bucket = v.bucket)
    (hexisting : ∀ key : TableKey, u.existing[key]? = v.existing[key]?)
    (hchanges : ∀ key : TableKey, u.changes[key]? = v.changes[key]?) : u = v := by
  have hexisting : u.existing = v.existing := Std.ExtTreeMap.ext_getElem? fun key => hexisting key
  have hchanges : u.changes = v.changes := Std.ExtTreeMap.ext_getElem? fun key => hchanges key
  obtain ⟨bucket, existing, changes⟩ := u
  obtain rfl : bucket = v.bucket := hbucket
  obtain rfl : existing = v.existing := hexisting
  obtain rfl : changes = v.changes := hchanges
  rfl

/-! ## Sorting by offset -/

theorem mem_existingByOffset {info : KeyInfo} :
    info ∈ u.existingByOffset ↔ u.existing[info.key]? = some info.offset := by
  rw [existingByOffset, List.mem_mergeSort, mem_existingKeys]

theorem mem_survivingByOffset {update : KeyUpdate} :
    update ∈ u.survivingByOffset ↔
      u.changes[update.key]? = some update.toChange ∧ update.deleted = false := by
  rw [survivingByOffset, List.mem_mergeSort, mem_surviving]

theorem pairwise_mergeSort_offset {α : Type} (offset : α → Offset) (l : List α) :
    (l.mergeSort fun a b => offset a ≤ offset b).Pairwise fun a b => offset a ≤ offset b := by
  refine (List.pairwise_mergeSort ?_ ?_ l).imp fun h => of_decide_eq_true h
  · intro a b c hab hbc
    rw [decide_eq_true_eq] at hab hbc ⊢
    exact le_trans hab hbc
  · intro a b
    rw [Bool.or_eq_true, decide_eq_true_eq, decide_eq_true_eq]
    exact le_total _ _

theorem pairwise_lt_of_le {α : Type} {offset : α → Offset} {l : List α}
    (hle : l.Pairwise fun a b => offset a ≤ offset b)
    (hne : l.Pairwise fun a b => offset a ≠ offset b) :
    l.Pairwise fun a b => offset a < offset b :=
  (hle.and hne).imp fun ⟨hab, hne⟩ => lt_of_le_of_ne hab hne

/-! ## The two chains -/

/-- The entries of the chain as it was found, newest first. -/
def oldChain (u : BucketUpdate) : List Offset := (u.markedChain.map (·.1)).reverse

/-- The entries of the chain that the batch leaves in place, newest first. -/
def keptChain (u : BucketUpdate) : List Offset :=
  ((u.markedChain.filter (!·.2)).map (·.1)).reverse

/-- The entries of the chain as it is to be, newest first. -/
def newChain (u : BucketUpdate) : List Offset :=
  (u.survivingByOffset.map (·.offset)).reverse ++ u.keptChain

/-- Entries can be told apart by their offsets, and changes are newer than what is indexed. -/
structure Layered (u : BucketUpdate) : Prop where
  existing_inj : ∀ {k k' : TableKey} {o : Offset},
    u.existing[k]? = some o → u.existing[k']? = some o → k = k'
  changes_inj : ∀ {k k' : TableKey} {ch ch' : Change},
    u.changes[k]? = some ch → u.changes[k']? = some ch' → ch.offset = ch'.offset → k = k'
  above : ∀ {k k' : TableKey} {o : Offset} {ch : Change},
    u.existing[k]? = some o → u.changes[k']? = some ch → o < ch.offset

theorem layered_iff :
    u.Layered ↔
      (∀ a ∈ u.existingKeys, ∀ b ∈ u.existingKeys, a.offset = b.offset → a.key = b.key) ∧
      (∀ a ∈ u.keyUpdates, ∀ b ∈ u.keyUpdates, a.offset = b.offset → a.key = b.key) ∧
      ∀ a ∈ u.existingKeys, ∀ b ∈ u.keyUpdates, a.offset < b.offset := by
  constructor
  · intro h
    refine ⟨fun a ha b hb heq => ?_, fun a ha b hb heq => ?_, fun a ha b hb => ?_⟩
    · exact h.existing_inj (mem_existingKeys.mp ha) (heq ▸ mem_existingKeys.mp hb)
    · exact h.changes_inj (mem_keyUpdates.mp ha) (mem_keyUpdates.mp hb) heq
    · exact h.above (mem_existingKeys.mp ha) (mem_keyUpdates.mp hb)
  · intro ⟨hexisting, hchanges, habove⟩
    constructor
    · intro k k' o hk hk'
      exact hexisting ⟨k, o⟩ (mem_existingKeys.mpr hk) ⟨k', o⟩ (mem_existingKeys.mpr hk') rfl
    · intro k k' ch ch' hk hk' heq
      exact hchanges ⟨ch, k⟩ (mem_keyUpdates.mpr hk) ⟨ch', k'⟩ (mem_keyUpdates.mpr hk') heq
    · intro k k' o ch hk hk'
      exact habove ⟨k, o⟩ (mem_existingKeys.mpr hk) ⟨ch, k'⟩ (mem_keyUpdates.mpr hk')

/-- Whether a bucket is layered can be found out entry by entry. -/
instance : Decidable u.Layered := decidable_of_iff _ layered_iff.symm

theorem mem_markedChain {p : Offset × Bool} :
    p ∈ u.markedChain ↔ ∃ k : TableKey, u.existing[k]? = some p.1 ∧ u.isKeyUpdated k = p.2 := by
  unfold markedChain
  rw [List.mem_map]
  constructor
  · intro h
    obtain ⟨info, hinfo, rfl⟩ := h
    exact ⟨info.key, mem_existingByOffset.mp hinfo, rfl⟩
  · intro h
    obtain ⟨k, hk, hup⟩ := h
    exact ⟨⟨k, p.1⟩, mem_existingByOffset.mpr hk, by rw [hup]⟩

theorem mem_oldChain {o : Offset} : o ∈ u.oldChain ↔ ∃ k : TableKey, u.existing[k]? = some o := by
  unfold oldChain
  rw [List.mem_reverse, List.mem_map]
  constructor
  · intro h
    obtain ⟨p, hp, rfl⟩ := h
    obtain ⟨k, hk, _⟩ := mem_markedChain.mp hp
    exact ⟨k, hk⟩
  · intro h
    obtain ⟨k, hk⟩ := h
    exact ⟨(o, u.isKeyUpdated k), mem_markedChain.mpr ⟨k, hk, rfl⟩, rfl⟩

theorem mem_keptChain {o : Offset} :
    o ∈ u.keptChain ↔ ∃ k : TableKey, u.existing[k]? = some o ∧ u.changes[k]? = none := by
  unfold keptChain
  rw [List.mem_reverse, List.mem_map]
  constructor
  · intro h
    obtain ⟨p, hp, rfl⟩ := h
    obtain ⟨hp, hmark⟩ := List.mem_filter.mp hp
    obtain ⟨k, hk, hup⟩ := mem_markedChain.mp hp
    exact ⟨k, hk, isKeyUpdated_eq_false_iff.mp (by rw [hup]; simpa using hmark)⟩
  · intro h
    obtain ⟨k, hk, hno⟩ := h
    refine ⟨(o, false), List.mem_filter.mpr ⟨?_, rfl⟩, rfl⟩
    exact mem_markedChain.mpr ⟨k, hk, isKeyUpdated_eq_false_iff.mpr hno⟩

theorem mem_newChain {o : Offset} :
    o ∈ u.newChain ↔
      (∃ k : TableKey, u.changes[k]? = some ⟨o, false⟩) ∨
        ∃ k : TableKey, u.existing[k]? = some o ∧ u.changes[k]? = none := by
  unfold newChain
  rw [List.mem_append, mem_keptChain, List.mem_reverse, List.mem_map]
  refine or_congr_left ⟨?_, ?_⟩
  · intro h
    obtain ⟨update, hupdate, rfl⟩ := h
    obtain ⟨hch, hdel⟩ := mem_survivingByOffset.mp hupdate
    exact ⟨update.key, by rw [hch, ← hdel]⟩
  · intro h
    obtain ⟨k, hk⟩ := h
    exact ⟨⟨⟨o, false⟩, k⟩, mem_survivingByOffset.mpr ⟨hk, rfl⟩, rfl⟩

theorem Layered.pairwise_markedChain (h : u.Layered) :
    u.markedChain.Pairwise fun a b => a.1 < b.1 := by
  have hne : u.existingByOffset.Pairwise fun a b => a.offset ≠ b.offset := by
    -- different keys, and so different entries
    have hsort := u.pairwise_existingKeys.perm
      (List.mergeSort_perm u.existingKeys fun a b => a.offset ≤ b.offset).symm
      (fun hab => Ne.symm hab)
    refine hsort.imp_of_mem fun {a b} ha hb hab heq => hab ?_
    exact h.existing_inj (mem_existingByOffset.mp ha) (heq ▸ mem_existingByOffset.mp hb)
  exact List.pairwise_map.mpr
    (pairwise_lt_of_le (pairwise_mergeSort_offset KeyInfo.offset u.existingKeys) hne)

theorem Layered.pairwise_survivingByOffset (h : u.Layered) :
    u.survivingByOffset.Pairwise fun a b => a.offset < b.offset := by
  have hne : u.survivingByOffset.Pairwise fun a b => a.offset ≠ b.offset := by
    have hkeys : u.surviving.Pairwise fun a b => a.key ≠ b.key := u.pairwise_keyUpdates.filter _
    have hsort := hkeys.perm
      (List.mergeSort_perm u.surviving fun a b => a.offset ≤ b.offset).symm
      (fun hab => Ne.symm hab)
    refine hsort.imp_of_mem fun {a b} ha hb hab heq => hab ?_
    exact h.changes_inj (mem_survivingByOffset.mp ha).1 (mem_survivingByOffset.mp hb).1 heq
  exact pairwise_lt_of_le
    (pairwise_mergeSort_offset (fun update : KeyUpdate => update.offset) u.surviving) hne

theorem Layered.descending_oldChain (h : u.Layered) : Offset.Descending u.oldChain := by
  unfold oldChain Offset.Descending
  rw [List.pairwise_reverse, List.pairwise_map]
  exact h.pairwise_markedChain

theorem Layered.descending_newChain (h : u.Layered) : Offset.Descending u.newChain := by
  unfold newChain Offset.Descending
  rw [List.pairwise_append]
  refine ⟨?_, ?_, ?_⟩
  · rw [List.pairwise_reverse, List.pairwise_map]
    exact h.pairwise_survivingByOffset
  · unfold keptChain
    rw [List.pairwise_reverse, List.pairwise_map]
    exact h.pairwise_markedChain.filter _
  · -- what the batch brings lies above what was there
    intro o ho o' ho'
    rw [List.mem_reverse, List.mem_map] at ho
    obtain ⟨update, hupdate, rfl⟩ := ho
    obtain ⟨k, hk, _⟩ := mem_keptChain.mp ho'
    exact h.above hk (mem_survivingByOffset.mp hupdate).1

/-! ## The newest entry after the batch -/

/-- There is none if every key is changed, and every change is a removal. -/
theorem newest_eq_none_iff :
    u.newest = none ↔ (∀ info ∈ u.existingKeys, u.isKeyUpdated info.key) ∧
      ∀ update ∈ u.keyUpdates, update.deleted := by
  unfold newest surviving
  rw [List.max?_eq_none_iff, List.append_eq_nil_iff, List.map_eq_nil_iff, List.map_eq_nil_iff,
    List.filter_eq_nil_iff, List.filter_eq_nil_iff]
  simp

theorem newest_eq_some_iff {o : Offset} :
    u.newest = some o ↔ o ∈ u.newChain ∧ ∀ o' ∈ u.newChain, o' ≤ o := by
  have hmem : ∀ o, o ∈ (u.existingKeys.filter fun info => !u.isKeyUpdated info.key).map (·.offset)
      ++ u.surviving.map (·.offset) ↔ o ∈ u.newChain := by
    intro o
    rw [mem_newChain, List.mem_append, List.mem_map, List.mem_map, or_comm]
    refine or_congr ⟨?_, ?_⟩ ⟨?_, ?_⟩
    · intro hex
      obtain ⟨update, hupdate, rfl⟩ := hex
      obtain ⟨hch, hdel⟩ := mem_surviving.mp hupdate
      exact ⟨update.key, by rw [hch, ← hdel]⟩
    · intro hex
      obtain ⟨k, hk⟩ := hex
      exact ⟨⟨⟨o, false⟩, k⟩, mem_surviving.mpr ⟨hk, rfl⟩, rfl⟩
    · intro hex
      obtain ⟨info, hinfo, rfl⟩ := hex
      obtain ⟨hinfo, hup⟩ := List.mem_filter.mp hinfo
      rw [Bool.not_eq_true'] at hup
      exact ⟨info.key, mem_existingKeys.mp hinfo, isKeyUpdated_eq_false_iff.mp hup⟩
    · intro hex
      obtain ⟨k, hk, hno⟩ := hex
      refine ⟨⟨k, o⟩, List.mem_filter.mpr ⟨mem_existingKeys.mpr hk, ?_⟩, rfl⟩
      rw [Bool.not_eq_true']
      exact isKeyUpdated_eq_false_iff.mpr hno
  refine List.max?_eq_some_iff.trans (and_congr (hmem o) ?_)
  exact forall_congr' fun o' => by rw [hmem o']

/-- **The newest entry after the batch is the first of the new chain.** -/
theorem Layered.newest_eq_head? (h : u.Layered) : u.newest = u.newChain.head? :=
  Option.ext fun _ => newest_eq_some_iff.trans h.descending_newChain.head?_eq_some_iff.symm

end SegmentIndex.BucketUpdate
