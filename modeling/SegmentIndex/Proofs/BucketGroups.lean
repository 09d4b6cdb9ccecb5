import SegmentIndex.Proofs.Grouping
import SegmentIndex.Proofs.Records
import SegmentIndex.Segment

/-!
# Grouping by bucket

The buckets of a batch are asked for once, by the hashes that occur in it. Whatever the answer is,
it decides what becomes of the batch (`Writer.run_groupByBucket`): if a hash has no bucket, the
least such hash is to blame; otherwise there is one group for each bucket that was located for a
hash of the batch, in the order of the buckets, and it holds the newest change to each key that was
located there. Buckets that nobody asked for are ignored. Only if the hashes cannot be had, since
another thread was to find them and its task was cancelled, is nobody asked.

The answer is a map, and its entries may come in any order. Going through them one after another,
and taking the changes with each hash out of those that are left, comes to the same
(`gatherInOrder_eq`).
-/

namespace SegmentIndex

variable {hash : TableKey → KeyHash} {updates : List KeyUpdate} {hashed : HashedUpdates}
  {located : Std.ExtTreeMap KeyHash Bucket}

/-! ## The order of hashes and buckets -/

theorem KeyHash.compare_eq_lt {a b : KeyHash} : compare a b = .lt ↔ a.bits < b.bits :=
  compareOfLessAndEq_eq_lt

theorem Bucket.compare_eq_lt {a b : Bucket} :
    compare a b = .lt ↔ a.hash.bits < b.hash.bits ∨ a.hash = b.hash ∧ a.head < b.head := by
  have hhead : compare a.head b.head = .lt ↔ a.head < b.head := by
    cases a.head with
    | none => cases b.head <;> simp [compare]
    | some o =>
        cases b.head with
        | none => simp [compare]
        | some o' => exact Offset.compare_eq_lt.trans Option.some_lt_some.symm
  show (compare a.hash b.hash).then (compare a.head b.head) = .lt ↔ _
  rw [Ordering.then_eq_lt, KeyHash.compare_eq_lt, Std.compare_eq_iff_eq, hhead]

/-! ## What the answer decides -/

/-- The least hash of the batch for which no bucket was located. -/
structure IsLeastMissing (hash : TableKey → KeyHash) (updates : List KeyUpdate)
    (located : Std.ExtTreeMap KeyHash Bucket) (b : KeyHash) : Prop where
  requested : ∃ update ∈ updates, hash update.key = b
  missing : located[b]? = none
  least : ∀ update ∈ updates, located[hash update.key]? = none → b.bits ≤ (hash update.key).bits

/-- What becomes of a batch, once buckets have been located for its hashes. -/
inductive IsGrouping (hash : TableKey → KeyHash) (updates : List KeyUpdate)
    (located : Std.ExtTreeMap KeyHash Bucket) :
    Except ContractViolation (Std.ExtTreeMap Bucket BucketUpdate) → Prop
  | missing {b : KeyHash} : IsLeastMissing hash updates located b →
      IsGrouping hash updates located (.error (.missingBucket b))
  | gathered {groups : Std.ExtTreeMap Bucket BucketUpdate} :
      (∀ update ∈ updates, located[hash update.key]? ≠ none) →
      Gathered hash updates located groups → IsGrouping hash updates located (.ok groups)

theorem IsLeastMissing.eq {b b' : KeyHash} (h : IsLeastMissing hash updates located b)
    (h' : IsLeastMissing hash updates located b') : b = b' := by
  obtain ⟨update, hmem, rfl⟩ := h.requested
  obtain ⟨update', hmem', rfl⟩ := h'.requested
  exact KeyHash.ext (BitVec.le_antisymm (h.least update' hmem' h'.missing)
    (h'.least update hmem h.missing))

/-- **The groups are determined** by what they are to hold. -/
theorem Gathered.eq {groups groups' : Std.ExtTreeMap Bucket BucketUpdate}
    (h : Gathered hash updates located groups) (h' : Gathered hash updates located groups') :
    groups = groups' := by
  refine Std.ExtTreeMap.ext_getElem? fun b => ?_
  have hsome : (groups[b]?).isSome ↔ (groups'[b]?).isSome :=
    (h.isSome_iff b).trans (h'.isSome_iff b).symm
  cases hu : groups[b]? with
  | none =>
      rw [hu] at hsome
      cases hu' : groups'[b]? with
      | none => rfl
      | some u' => exact absurd (hsome.mpr (by rw [hu']; rfl)) (by simp)
  | some u =>
      obtain ⟨u', hu'⟩ := Option.isSome_iff_exists.mp (hsome.mp (by rw [hu]; rfl))
      rw [hu']
      refine congrArg some (BucketUpdate.eq_of_getElem? ?_ (fun key => ?_) fun key => ?_)
      · rw [h.bucket_eq hu, h'.bucket_eq hu']
      · rw [h.existing_eq hu, h'.existing_eq hu']
      · rw [h.changes_eq hu, h'.changes_eq hu']

/-- **What becomes of a batch is determined** by the buckets that were located. -/
theorem IsGrouping.eq {r r' : Except ContractViolation (Std.ExtTreeMap Bucket BucketUpdate)}
    (h : IsGrouping hash updates located r) (h' : IsGrouping hash updates located r') : r = r' := by
  cases h with
  | missing h =>
      cases h' with
      | missing h' => rw [h.eq h']
      | gathered hall _ =>
          obtain ⟨update, hmem, rfl⟩ := h.requested
          exact absurd h.missing (hall update hmem)
  | gathered hall h =>
      cases h' with
      | missing h' =>
          obtain ⟨update, hmem, rfl⟩ := h'.requested
          exact absurd h'.missing (hall update hmem)
      | gathered _ h' => rw [h.eq h']

/-! ## In the order of the hashes -/

/-- **Parts in the order of their hashes**: the first one without a bucket ends the gathering. -/
theorem foldlM_gather_of_missing {parts : List (KeyHash × List KeyUpdate)}
    (hparts : parts.Pairwise fun p q => p.1.bits < q.1.bits)
    (h : ∃ part ∈ parts, located[part.1]? = none)
    (groups : Std.ExtTreeMap Bucket BucketUpdate) :
    ∃ part ∈ parts, located[part.1]? = none ∧
      (∀ p ∈ parts, located[p.1]? = none → part.1.bits ≤ p.1.bits) ∧
      parts.foldlM (gather located) groups = .error (.missingBucket part.1) := by
  induction parts generalizing groups with
  | nil => exact absurd h (by simp)
  | cons part rest ih =>
      obtain ⟨hpart, hrest⟩ := List.pairwise_cons.mp hparts
      cases hb : located[part.1]? with
      | none =>
          refine ⟨part, List.mem_cons_self, hb, fun p hp _ => ?_, ?_⟩
          · rcases List.mem_cons.mp hp with rfl | hp
            · exact BitVec.le_refl _
            · exact BitVec.le_of_lt (hpart p hp)
          · rw [List.foldlM_cons]
            unfold gather
            rw [hb]
            rfl
      | some b =>
          have hlater : ∃ part ∈ rest, located[part.1]? = none := by
            obtain ⟨p, hp, hnone⟩ := h
            rcases List.mem_cons.mp hp with rfl | hp
            · rw [hb] at hnone
              exact absurd hnone (by simp)
            · exact ⟨p, hp, hnone⟩
          obtain ⟨first, hmem, hnone, hleast, hrun⟩ := ih hrest hlater (addToGroup groups b part.2)
          refine ⟨first, List.mem_cons_of_mem _ hmem, hnone, fun p hp hmissing => ?_, ?_⟩
          · rcases List.mem_cons.mp hp with rfl | hp
            · rw [hb] at hmissing
              exact absurd hmissing (by simp)
            · exact hleast p hp hmissing
          · rw [List.foldlM_cons, gather_of_located hb]
            exact hrun

theorem isGrouping_assembleGroups (h : hashUpdates (.total hash) updates = some hashed) :
    IsGrouping hash updates located (assembleGroups hashed located) := by
  have hdivision := isDivision_toList h
  by_cases hall : ∃ part ∈ hashed.toList, located[part.1]? = none
  · have hsorted : hashed.toList.Pairwise fun p q => p.1.bits < q.1.bits :=
      Std.ExtTreeMap.ordered_keys_toList.imp fun hlt => KeyHash.compare_eq_lt.mp hlt
    obtain ⟨part, hmem, hnone, hleast, hrun⟩ := foldlM_gather_of_missing hsorted hall ∅
    have hrun : assembleGroups hashed located = .error (.missingBucket part.1) := hrun
    rw [hrun]
    refine .missing ⟨(hdivision.exists_iff _).mp ⟨part, hmem, rfl⟩, hnone, fun update hupdate => ?_⟩
    obtain ⟨p, hp, hhash⟩ := (hdivision.exists_iff _).mpr ⟨update, hupdate, rfl⟩
    rw [← hhash]
    exact hleast p hp
  · have hsome : ∀ part ∈ hashed.toList, (located[part.1]?).isSome := fun part hpart =>
      Option.isSome_iff_ne_none.mpr fun hnone => hall ⟨part, hpart, hnone⟩
    obtain ⟨groups, hrun, hgroups⟩ := hdivision.foldlM_gather hsome
    have hrun : assembleGroups hashed located = .ok groups := hrun
    rw [hrun]
    refine .gathered (fun update hupdate => ?_) hgroups
    obtain ⟨p, hp, hhash⟩ := (hdivision.exists_iff _).mpr ⟨update, hupdate, rfl⟩
    rw [← hhash]
    exact Option.isSome_iff_ne_none.mp (hsome p hp)

/-! ## In any order -/

/-- A located bucket takes the changes with its hash out of those that are left. -/
def takeLocated (state : HashedUpdates × Std.ExtTreeMap Bucket BucketUpdate)
    (entry : KeyHash × Bucket) : HashedUpdates × Std.ExtTreeMap Bucket BucketUpdate :=
  match state.1[entry.1]? with
  | some updates => (state.1.erase entry.1, addToGroup state.2 entry.2 updates)
  | none => state

/-- The groups, made by going through the located buckets in the order in which they come. In the
end no changes may be left. -/
def gatherInOrder (hashed : HashedUpdates) (entries : List (KeyHash × Bucket)) :
    Except ContractViolation (Std.ExtTreeMap Bucket BucketUpdate) :=
  let (left, groups) := entries.foldl takeLocated (hashed, ∅)
  match left.keys with
  | [] => .ok groups
  | b :: _ => .error (.missingBucket b)

/-- The parts that some located buckets take, one after another. -/
def partsTaken (left : HashedUpdates) (entries : List (KeyHash × Bucket)) :
    List (KeyHash × List KeyUpdate) :=
  entries.filterMap fun entry => left[entry.1]?.map (entry.1, ·)

theorem mem_partsTaken {left : HashedUpdates} {entries : List (KeyHash × Bucket)}
    {part : KeyHash × List KeyUpdate} :
    part ∈ partsTaken left entries ↔
      left[part.1]? = some part.2 ∧ ∃ entry ∈ entries, entry.1 = part.1 := by
  unfold partsTaken
  rw [List.mem_filterMap]
  constructor
  · intro ⟨entry, hmem, hpart⟩
    obtain ⟨updates, hupdates, rfl⟩ := Option.map_eq_some_iff.mp hpart
    exact ⟨hupdates, entry, hmem, rfl⟩
  · intro ⟨hupdates, entry, hmem, hentry⟩
    exact ⟨entry, hmem, by rw [hentry, hupdates]; rfl⟩

theorem pairwise_partsTaken {left : HashedUpdates} {entries : List (KeyHash × Bucket)}
    (h : entries.Pairwise fun e f => e.1 ≠ f.1) :
    (partsTaken left entries).Pairwise fun p q => p.1 ≠ q.1 := by
  refine h.filterMap _ fun e f hne p hp q hq => ?_
  obtain ⟨_, _, rfl⟩ := Option.map_eq_some_iff.mp hp
  obtain ⟨_, _, rfl⟩ := Option.map_eq_some_iff.mp hq
  exact hne

/-- **Taking parts in any order**: what is left are the parts that nobody has taken, and those that
were taken have been gathered. -/
theorem foldl_takeLocated {entries : List (KeyHash × Bucket)}
    (hdistinct : entries.Pairwise fun e f => e.1 ≠ f.1)
    (hlocated : ∀ e ∈ entries, located[e.1]? = some e.2) (left : HashedUpdates)
    (groups : Std.ExtTreeMap Bucket BucketUpdate) :
    (∀ b : KeyHash, (entries.foldl takeLocated (left, groups)).1[b]?
      = if ∃ e ∈ entries, e.1 = b then none else left[b]?) ∧
    (partsTaken left entries).foldlM (gather located) groups
      = .ok (entries.foldl takeLocated (left, groups)).2 := by
  induction entries generalizing left groups with
  | nil => exact ⟨fun b => by simp, rfl⟩
  | cons entry rest ih =>
      obtain ⟨hentry, hrest⟩ := List.pairwise_cons.mp hdistinct
      have hlater := ih hrest fun e he => hlocated e (List.mem_cons_of_mem _ he)
      rw [List.foldl_cons]
      unfold partsTaken
      cases htaken : left[entry.1]? with
      | none =>
          have htake : takeLocated (left, groups) entry = (left, groups) := by
            unfold takeLocated
            rw [htaken]
          obtain ⟨hleft, hrun⟩ := hlater left groups
          rw [htake, List.filterMap_cons_none (by rw [htaken]; rfl)]
          refine ⟨fun b => ?_, hrun⟩
          rw [hleft]
          by_cases hb : entry.1 = b
          · simp [← hb, htaken]
          · refine if_congr ?_ rfl rfl
            simp [hb]
      | some updates =>
          have htake : takeLocated (left, groups) entry
              = (left.erase entry.1, addToGroup groups entry.2 updates) := by
            unfold takeLocated
            rw [htaken]
          obtain ⟨hleft, hrun⟩ := hlater (left.erase entry.1) (addToGroup groups entry.2 updates)
          -- the others take from what is left what they would have taken before
          have hsame : partsTaken (left.erase entry.1) rest = partsTaken left rest := by
            refine List.filterMap_congr fun e he => ?_
            rw [Maps.getElem?_erase, if_neg (hentry e he)]
          rw [htake, List.filterMap_cons_some (by rw [htaken]; rfl), List.foldlM_cons,
            gather_of_located (hlocated entry List.mem_cons_self)]
          refine ⟨fun b => ?_, ?_⟩
          · rw [hleft, Maps.getElem?_erase]
            by_cases hb : entry.1 = b
            · simp [hb]
            · rw [if_neg hb]
              refine if_congr ?_ rfl rfl
              simp [hb]
          · rw [hsame] at hrun
            exact hrun

theorem isGrouping_gatherInOrder (h : hashUpdates (.total hash) updates = some hashed)
    {entries : List (KeyHash × Bucket)} (hperm : entries.Perm located.toList) :
    IsGrouping hash updates located (gatherInOrder hashed entries) := by
  have hdivision := isDivision_toList h
  have hdistinct : entries.Pairwise fun e f => e.1 ≠ f.1 :=
    (Maps.pairwise_toList_ne located).perm hperm.symm fun hne => Ne.symm hne
  have hlocated : ∀ e, e ∈ entries ↔ located[e.1]? = some e.2 := fun e =>
    hperm.mem_iff.trans Std.ExtTreeMap.mem_toList_iff_getElem?_eq_some
  have hentry : ∀ b : KeyHash, (∃ e ∈ entries, e.1 = b) ↔ located[b]? ≠ none := by
    intro b
    rw [← Option.isSome_iff_ne_none, Option.isSome_iff_exists]
    constructor
    · intro ⟨e, he, hb⟩
      exact ⟨e.2, hb ▸ (hlocated e).mp he⟩
    · intro ⟨bucket, hbucket⟩
      exact ⟨(b, bucket), (hlocated _).mpr hbucket, rfl⟩
  obtain ⟨hleft, hrun⟩ := foldl_takeLocated hdistinct (fun e he => (hlocated e).mp he) hashed ∅
  -- what is left are the hashes without a bucket
  have hmissing : ∀ b : KeyHash, b ∈ (entries.foldl takeLocated (hashed, ∅)).1.keys ↔
      b ∈ hashed.keys ∧ located[b]? = none := by
    intro b
    rw [Maps.mem_keys, hleft, Maps.mem_keys]
    split
    · rename_i hfound
      simp [(hentry b).mp hfound]
    · rename_i hno
      exact (and_iff_left (not_not.mp (mt (hentry b).mpr hno))).symm
  have hsorted := (entries.foldl takeLocated (hashed, ∅)).1.ordered_keys
  unfold gatherInOrder
  dsimp only
  split
  · rename_i hnone
    rw [hnone] at hmissing
    have hall : ∀ b ∈ hashed.keys, located[b]? ≠ none := fun b hb hno =>
      absurd ((hmissing b).mpr ⟨hb, hno⟩) List.not_mem_nil
    have htaken : ∀ {part}, part ∈ partsTaken hashed entries ↔ part ∈ hashed.toList := by
      intro part
      rw [mem_partsTaken, Std.ExtTreeMap.mem_toList_iff_getElem?_eq_some, hentry]
      refine and_iff_left_of_imp fun hpart => hall _ (Maps.mem_keys.mpr ?_)
      rw [hpart]
      rfl
    have hparts : IsDivision hash updates (partsTaken hashed entries) :=
      ⟨pairwise_partsTaken hdistinct, fun p hp => hdivision.part_eq p (htaken.mp hp),
        fun b => by simpa only [htaken] using hdivision.exists_iff b⟩
    obtain ⟨groups, hrun', hgroups⟩ := hparts.foldlM_gather fun part hpart =>
      Option.isSome_iff_ne_none.mpr ((hentry _).mp (mem_partsTaken.mp hpart).2)
    obtain rfl := Except.ok.inj (hrun.symm.trans hrun')
    refine .gathered (fun update hupdate => ?_) hgroups
    exact hall _ ((mem_keys_hashUpdates h).mpr ⟨update, hupdate, rfl⟩)
  · rename_i b rest hkeys
    rw [hkeys] at hmissing hsorted
    obtain ⟨hb, hnone⟩ := (hmissing b).mp List.mem_cons_self
    refine .missing ⟨(mem_keys_hashUpdates h).mp hb, hnone, fun update hupdate hno => ?_⟩
    have hmem := (hmissing _).mpr ⟨(mem_keys_hashUpdates h).mpr ⟨update, hupdate, rfl⟩, hno⟩
    rcases List.mem_cons.mp hmem with heq | hmem
    · exact BitVec.le_of_eq (congrArg KeyHash.bits heq.symm)
    · exact BitVec.le_of_lt (KeyHash.compare_eq_lt.mp ((List.pairwise_cons.mp hsorted).1 _ hmem))

/-- **The order of the answer does not matter.** -/
theorem gatherInOrder_eq (h : hashUpdates (.total hash) updates = some hashed)
    {entries : List (KeyHash × Bucket)} (hperm : entries.Perm located.toList) :
    gatherInOrder hashed entries = assembleGroups hashed located :=
  (isGrouping_gatherInOrder h hperm).eq (isGrouping_assembleGroups h)

/-! ## The newest change -/

/-- The change is the newest one to a key in a batch, and of equally new ones the first. -/
def IsNewestChange (updates : List KeyUpdate) (key : TableKey) (ch : Change) : Prop :=
  ∃ before after, updates = before ++ ⟨ch, key⟩ :: after ∧
    (∀ update ∈ before, update.key = key → update.offset < ch.offset) ∧
    ∀ update ∈ after, update.key = key → update.offset ≤ ch.offset

theorem isNewestChange_iff {key : TableKey} {ch : Change} :
    IsNewestChange updates key ch ↔ IsNewestOf KeyUpdate.key (·.offset) updates ⟨ch, key⟩ := Iff.rfl

theorem isNewestChange_concat {update : KeyUpdate} {key : TableKey} {ch : Change} :
    IsNewestChange (updates ++ [update]) key ch ↔
      (update = ⟨ch, key⟩ ∧ ∀ u ∈ updates, u.key = key → u.offset < ch.offset) ∨
        IsNewestChange updates key ch ∧ (update.key = key → update.offset ≤ ch.offset) :=
  isNewestChange_iff.trans IsNewestOf.concat_iff

theorem newestChange_eq_some_iff {key : TableKey} {ch : Change} :
    newestChange updates key = some ch ↔ IsNewestChange updates key ch := by
  induction updates using List.reverseRecOn generalizing ch with
  | nil => simp [newestChange, IsNewestChange]
  | append_singleton updates update ih =>
      rw [newestChange_concat, isNewestChange_concat, ← ih]
      split
      · -- the last change is newer than all changes to its key before it
        rename_i hnew
        obtain ⟨rfl, hnew⟩ := hnew
        constructor
        · intro hch
          obtain rfl := Option.some.inj hch
          refine .inl ⟨rfl, fun u hu hkey => ?_⟩
          obtain ⟨ch, hch, hle⟩ := exists_newestChange hu
          rw [hkey] at hch
          rw [hch] at hnew
          exact lt_of_le_of_lt hle (of_decide_eq_true hnew)
        · rintro (⟨heq, _⟩ | ⟨hch, hle⟩)
          · exact congrArg (some ·.toChange) heq
          · rw [hch] at hnew
            exact absurd (of_decide_eq_true hnew) (not_lt.mpr (hle rfl))
      · rename_i hold
        constructor
        · intro hch
          refine .inr ⟨hch, fun hkey => not_lt.mp fun hlt => hold ⟨hkey, ?_⟩⟩
          rw [hch]
          exact decide_eq_true hlt
        · rintro (⟨rfl, hall⟩ | ⟨hch, _⟩)
          · refine absurd ⟨rfl, ?_⟩ hold
            cases hch : newestChange updates key with
            | none => rfl
            | some c => exact decide_eq_true (hall _ (mem_of_newestChange hch) rfl)
          · exact hch

/-! ## What the writer makes of it -/

/-- The groups of a batch: one for each bucket that was located for a hash of the batch, in the
order of the buckets, and in each the newest change to each key that was located there. -/
structure GroupedByBucket (hash : TableKey → KeyHash) (updates : List KeyUpdate)
    (located : Std.ExtTreeMap KeyHash Bucket) (groups : List BucketUpdate) : Prop where
  ascending : groups.Pairwise fun u v => u.bucket.hash.bits < v.bucket.hash.bits ∨
    u.bucket.hash = v.bucket.hash ∧ u.bucket.head < v.bucket.head
  exists_iff : ∀ b : Bucket,
    (∃ u ∈ groups, u.bucket = b) ↔ ∃ update ∈ updates, located[hash update.key]? = some b
  existing_eq : ∀ u ∈ groups, u.existing = ∅
  changes_iff : ∀ u ∈ groups, ∀ (key : TableKey) (ch : Change), u.changes[key]? = some ch ↔
    located[hash key]? = some u.bucket ∧ IsNewestChange updates key ch

theorem Gathered.groupedByBucket {groups : Std.ExtTreeMap Bucket BucketUpdate}
    (h : Gathered hash updates located groups) :
    GroupedByBucket hash updates located groups.values where
  ascending := by
    rw [Maps.values_eq_map_toList, List.pairwise_map]
    refine groups.ordered_keys_toList.imp_of_mem fun {p q} hp hq hlt => ?_
    have hp := Std.ExtTreeMap.mem_toList_iff_getElem?_eq_some.mp hp
    have hq := Std.ExtTreeMap.mem_toList_iff_getElem?_eq_some.mp hq
    rw [h.bucket_eq hp, h.bucket_eq hq]
    exact Bucket.compare_eq_lt.mp hlt
  exists_iff b := by
    rw [← h.isSome_iff, Option.isSome_iff_exists]
    constructor
    · intro ⟨u, hu, hb⟩
      obtain ⟨b', hb'⟩ := Maps.mem_values.mp hu
      rw [← hb, h.bucket_eq hb']
      exact ⟨u, hb'⟩
    · intro ⟨u, hu⟩
      exact ⟨u, Maps.mem_values.mpr ⟨b, hu⟩, h.bucket_eq hu⟩
  existing_eq u hu := by
    obtain ⟨b, hb⟩ := Maps.mem_values.mp hu
    exact h.existing_eq hb
  changes_iff u hu key ch := by
    obtain ⟨b, hb⟩ := Maps.mem_values.mp hu
    rw [h.changes_eq hb, h.bucket_eq hb, ← newestChange_eq_some_iff]
    split <;> simp [*]

/-- What the writer returns for the groups of a batch, or for what is wrong with it. -/
def groupingResult :
    Except ContractViolation (Std.ExtTreeMap Bucket BucketUpdate) →
      Except IndexError (List BucketUpdate)
  | .ok groups => .ok groups.values
  | .error cause => .error (.contractViolation cause)

theorem IsGrouping.result_eq_error_iff
    {r : Except ContractViolation (Std.ExtTreeMap Bucket BucketUpdate)}
    (h : IsGrouping hash updates located r) :
    (∃ update ∈ updates, located[hash update.key]? = none) ↔
      ∃ b, IsLeastMissing hash updates located b ∧
        groupingResult r = .error (.contractViolation (.missingBucket b)) := by
  constructor
  · intro ⟨update, hmem, hnone⟩
    cases h with
    | missing h => exact ⟨_, h, rfl⟩
    | gathered hall _ => exact absurd hnone (hall update hmem)
  · intro ⟨b, hb, _⟩
    obtain ⟨update, hmem, rfl⟩ := hb.requested
    exact ⟨update, hmem, hb.missing⟩

theorem IsGrouping.result_eq_ok_iff
    {r : Except ContractViolation (Std.ExtTreeMap Bucket BucketUpdate)}
    (h : IsGrouping hash updates located r) :
    (∀ update ∈ updates, located[hash update.key]? ≠ none) ↔
      ∃ groups, groupingResult r = .ok groups ∧ GroupedByBucket hash updates located groups := by
  cases h with
  | missing h =>
      obtain ⟨update, hmem, rfl⟩ := h.requested
      constructor
      · intro hall
        exact absurd h.missing (hall update hmem)
      · intro ⟨groups, hresult, _⟩
        exact absurd hresult (by simp [groupingResult])
  | gathered hall h => exact ⟨fun _ => ⟨_, rfl, h.groupedByBucket⟩, fun _ => hall⟩

namespace Writer

open Attempt

variable {w : Writer} {σ : Type}

/-- A program that only goes on to compute something. -/
theorem run_bind_done {α β : Type} (p : Program α) (f : α → β) (server : Program.Server σ) (s : σ) :
    (p.bind fun a => .done (f a)).run server s
      = ⟨(p.run server s).value.map f, (p.run server s).events, (p.run server s).state⟩ := by
  induction p generalizing s with
  | done a => rfl
  | crash => rfl
  | note e p ih => simp only [Program.bind, Program.run, ih]
  | call c k ih => exact ih _ _

theorem run_ofStore_bind {α β : Type} (x : Attempt StoreError α) (f : α → Attempt IndexError β) :
    (ofStore x >>= f).run = x.run.bind fun
      | .ok a => (f a).run
      | .error e => .done (.error (.store e)) := by
  show (x.run.bind _).bind _ = _
  rw [Program.bind_assoc]
  refine congrArg _ (funext fun r => ?_)
  cases r <;> rfl

/-- The outcome of a program that reports an event before it starts. -/
def noting {α : Type} (e : Event) (o : Program.Outcome σ α) : Program.Outcome σ α :=
  { o with events := e :: o.events }

/-- What the writer returns, once the store has answered. -/
def answered (hashed : HashedUpdates) :
    Except StoreError (Std.ExtTreeMap KeyHash Bucket) → Except IndexError (List BucketUpdate)
  | .ok located => groupingResult (assembleGroups hashed located)
  | .error e => .error (.store e)

theorem run_locateGroups (locate : BucketLocator) (hashed : HashedUpdates) :
    (locateGroups locate hashed).run
      = (locate hashed.keys).run.bind fun r => .done (answered hashed r) := by
  unfold locateGroups
  rw [run_ofStore_bind]
  refine congrArg _ (funext fun r => ?_)
  cases r with
  | error e => rfl
  | ok located =>
      dsimp only [answered]
      cases assembleGroups hashed located <;> rfl

/-- What is reported before the store is asked. -/
def groupingEvents (w : Writer) (updates : List KeyUpdate) (hashed : HashedUpdates) : List Event :=
  (if w.offloads updates then [.offloading updates.length] else [])
    ++ [.grouping updates.length hashed.size]

/-- **If its hashing is cancelled**, a batch fails at once, and the store is not asked. -/
theorem run_groupByBucket_of_cancelled (hne : updates ≠ []) (hoff : w.offloads updates = true)
    (htask : w.hashingTask = .cancelled) (locate : BucketLocator) (server : Program.Server σ)
    (s : σ) :
    (w.groupByBucket locate updates).run.run server s
      = ⟨some (.error hashingCancelled), [.offloading updates.length], s⟩ := by
  unfold groupByBucket
  rw [if_neg (by simpa using hne), hashBatch_of_cancelled hoff htask]
  rfl

/-- **Otherwise the store is asked once**, and the rest follows from its answer. -/
theorem run_groupByBucket_of_completed (hne : updates ≠ [])
    (htask : w.offloads updates = true → w.hashingTask = .completed)
    (h : hashUpdates w.hash updates = some hashed) (locate : BucketLocator)
    (server : Program.Server σ) (s : σ) :
    (w.groupByBucket locate updates).run.run server s
      = ⟨((locate hashed.keys).run.run server s).value.map (answered hashed),
        w.groupingEvents updates hashed ++ ((locate hashed.keys).run.run server s).events,
        ((locate hashed.keys).run.run server s).state⟩ := by
  have hrun := run_bind_done (locate hashed.keys).run (answered hashed) server s
  rw [← run_locateGroups] at hrun
  unfold groupByBucket groupingEvents
  rw [if_neg (by simpa using hne), hashBatch_of_completed htask h]
  split
  · exact congrArg (noting (.offloading updates.length))
      (congrArg (noting (.grouping updates.length hashed.size)) hrun)
  · exact congrArg (noting (.grouping updates.length hashed.size)) hrun

/-- **Grouping by bucket** loses nothing, and puts nothing in the wrong place. For a batch without
changes nobody is asked. Nor is anybody asked if the hashing was handed to another thread and was
cancelled there: then the batch fails for that. Otherwise the store is asked once, for the buckets
with the hashes that occur in the batch. If it fails, so does the grouping. If it leaves out a hash
that it was asked for, the least such hash is to blame. If it leaves out none, the groups are as
they are to be.

However the entries of the answer are ordered, going through them in that order comes to the
same. -/
theorem run_groupByBucket (hw : w.hash = .total hash) (locate : BucketLocator)
    (updates : List KeyUpdate) (server : Program.Server σ) (s : σ) :
    (updates = [] → (w.groupByBucket locate updates).run.run server s = ⟨some (.ok []), [], s⟩) ∧
    (updates ≠ [] → w.offloads updates = true → w.hashingTask = .cancelled →
      (w.groupByBucket locate updates).run.run server s
        = ⟨some (.error (.store (.unavailable "key hashing task was cancelled"))),
          [.offloading updates.length], s⟩) ∧
    (updates ≠ [] → (w.offloads updates = true → w.hashingTask = .completed) →
      ∃ hashed, hashUpdates w.hash updates = some hashed ∧
      hashed.keys.Pairwise (fun a b => a.bits < b.bits) ∧
      (∀ b, b ∈ hashed.keys ↔ ∃ update ∈ updates, hash update.key = b) ∧
      ∀ answer outcome, (locate hashed.keys).run.run server s = answer →
        (w.groupByBucket locate updates).run.run server s = outcome →
        outcome.state = answer.state ∧
        outcome.events = w.groupingEvents updates hashed ++ answer.events ∧
        (answer.value = none → outcome.value = none) ∧
        (∀ e, answer.value = some (.error e) → outcome.value = some (.error (.store e))) ∧
        ∀ located, answer.value = some (.ok located) →
          ((∃ update ∈ updates, located[hash update.key]? = none) ↔
            ∃ b, IsLeastMissing hash updates located b ∧
              outcome.value = some (.error (.contractViolation (.missingBucket b)))) ∧
          ((∀ update ∈ updates, located[hash update.key]? ≠ none) ↔
            ∃ groups, outcome.value = some (.ok groups) ∧
              GroupedByBucket hash updates located groups) ∧
          ∀ entries : List (KeyHash × Bucket), entries.Perm located.toList →
            outcome.value = some (groupingResult (gatherInOrder hashed entries))) := by
  refine ⟨?_, ?_, ?_⟩
  · intro hempty
    subst hempty
    rfl
  · intro hne hoff htask
    exact run_groupByBucket_of_cancelled hne hoff htask locate server s
  · intro hne htask
    obtain ⟨hashed, hhashed, _⟩ := hashUpdates_total hash updates
    have hrun := run_groupByBucket_of_completed hne htask (hw ▸ hhashed) locate server s
    refine ⟨hashed, hw ▸ hhashed, hashed.ordered_keys.imp fun hlt => KeyHash.compare_eq_lt.mp hlt,
      fun b => mem_keys_hashUpdates hhashed, fun answer outcome hanswer houtcome => ?_⟩
    subst hanswer houtcome
    rw [hrun]
    refine ⟨rfl, rfl, fun hnone => ?_, fun e herror => ?_, fun located hlocated => ?_⟩
    · rw [hnone]
      rfl
    · rw [herror]
      rfl
    · have hgrouping : IsGrouping hash updates located (assembleGroups hashed located) :=
        isGrouping_assembleGroups hhashed
      rw [hlocated]
      refine ⟨?_, ?_, fun entries hperm => ?_⟩
      · simpa [answered] using hgrouping.result_eq_error_iff
      · simpa [answered] using hgrouping.result_eq_ok_iff
      · rw [gatherInOrder_eq hhashed hperm]
        rfl

/-- A writer that hashes a key to its first byte, and hands two keys or more to another thread. -/
def firstByte (task : TaskOutcome) : Writer where
  hash := .total fun key => ⟨.ofNat 127 (key.bytes.headD 0).toNat⟩
  config := { offloadThreshold := 2 }
  hashingTask := task

/-- One bucket for the keys with either of two hashes, and a bucket that nobody asks for. -/
def sampleLocated : Std.ExtTreeMap KeyHash Bucket :=
  Std.ExtTreeMap.insert ∅ ⟨1⟩ ⟨⟨1⟩, some (.clamp 7)⟩
    |>.insert ⟨2⟩ ⟨⟨1⟩, some (.clamp 7)⟩
    |>.insert ⟨3⟩ (.vacant ⟨3⟩)

/-- Two equally new changes to one key, and a change to another one. -/
def sampleUpdates : List KeyUpdate :=
  [⟨⟨.clamp 20, false⟩, ⟨[1]⟩⟩, ⟨⟨.clamp 10, false⟩, ⟨[2]⟩⟩, ⟨⟨.clamp 20, true⟩, ⟨[1]⟩⟩]

/-- The keys with both hashes come into one group, and of the equally new changes the first one
counts. If the hashing is cancelled, there are no groups. -/
theorem run_groupByBucket_sample :
    (∃ groups, (((firstByte .completed).groupByBucket (fun _ => pure sampleLocated)
        sampleUpdates).run.run Segment.serve (.empty 1)).value = some (.ok groups) ∧
      ∃ u ∈ groups, u.bucket = ⟨⟨1⟩, some (.clamp 7)⟩ ∧
        u.changes[TableKey.mk [1]]? = some ⟨.clamp 20, false⟩ ∧
        u.changes[TableKey.mk [2]]? = some ⟨.clamp 10, false⟩) ∧
    (((firstByte .cancelled).groupByBucket (fun _ => pure sampleLocated)
      sampleUpdates).run.run Segment.serve (.empty 1)).value
        = some (.error (.store (.unavailable "key hashing task was cancelled"))) := by
  have hne : sampleUpdates ≠ [] := by simp [sampleUpdates]
  constructor
  · obtain ⟨_, _, hcompleted⟩ := run_groupByBucket (w := firstByte .completed) rfl
      (fun _ => pure sampleLocated) sampleUpdates Segment.serve (.empty 1)
    obtain ⟨hashed, _, _, _, hanswer⟩ := hcompleted hne fun _ => rfl
    obtain ⟨_, _, _, _, hlocated⟩ := hanswer _ _ rfl rfl
    obtain ⟨_, hok, _⟩ := hlocated sampleLocated rfl
    obtain ⟨groups, hgroups, hgrouped⟩ := hok.mp (by decide +kernel)
    refine ⟨groups, hgroups, ?_⟩
    obtain ⟨u, hu, hbucket⟩ := (hgrouped.exists_iff ⟨⟨1⟩, some (.clamp 7)⟩).mpr (by decide +kernel)
    refine ⟨u, hu, hbucket, (hgrouped.changes_iff u hu _ _).mpr ⟨?_, ?_⟩,
      (hgrouped.changes_iff u hu _ _).mpr ⟨?_, ?_⟩⟩
    · rw [hbucket]
      decide +kernel
    · exact ⟨[], sampleUpdates.tail, rfl, by simp, by decide +kernel⟩
    · rw [hbucket]
      decide +kernel
    · exact ⟨sampleUpdates.take 1, sampleUpdates.drop 2, rfl, by decide +kernel, by decide +kernel⟩
  · obtain ⟨_, hcancelled, _⟩ := run_groupByBucket (w := firstByte .cancelled) rfl
      (fun _ => pure sampleLocated) sampleUpdates Segment.serve (.empty 1)
    rw [hcancelled hne (by decide) rfl]

end Writer

end SegmentIndex
