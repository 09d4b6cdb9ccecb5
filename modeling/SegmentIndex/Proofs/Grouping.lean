import Mathlib.Data.List.MinMax
import Mathlib.Data.List.Perm.Basic
import SegmentIndex.Program.Pass
import SegmentIndex.Proofs.BucketUpdate
import SegmentIndex.Proofs.Log

/-!
# What the groups of a batch hold

Dividing changes by the hash of their key and gathering them bucket by bucket loses nothing and
mixes nothing up: the group of a bucket holds, for each key whose hash led there, the newest change
to it in the batch (`Gathered`). It does so in whatever order the parts are gathered
(`IsDivision.foldlM_gather`), because all changes to one key are in one part. For a stretch of the
log the newest change is the latest one in the log (`Log.IsStretch.newestChange_eq_some_iff`).
-/

namespace SegmentIndex

/-! ## Changes to one bucket -/

namespace BucketUpdate

theorem getElem?_changes_withKeyUpdate (u : BucketUpdate) (update : KeyUpdate) (key : TableKey) :
    (u.withKeyUpdate update).changes[key]?
      = if update.key = key ∧ u.changes[key]?.all (·.offset < update.offset) then
          some update.toChange
        else u.changes[key]? := by
  unfold withKeyUpdate
  by_cases hnew : u.changes[update.key]?.all (·.offset < update.offset)
  · rw [if_pos hnew, Maps.getElem?_insert]
    by_cases hkey : update.key = key
    · subst hkey
      rw [if_pos rfl, if_pos ⟨rfl, hnew⟩]
    · rw [if_neg hkey, if_neg fun h => hkey h.1]
  · rw [if_neg hnew, if_neg]
    intro hcond
    obtain ⟨rfl, h⟩ := hcond
    exact hnew h

theorem bucket_withKeyUpdate (u : BucketUpdate) (update : KeyUpdate) :
    (u.withKeyUpdate update).bucket = u.bucket := by
  unfold withKeyUpdate
  split <;> rfl

theorem existing_withKeyUpdate (u : BucketUpdate) (update : KeyUpdate) :
    (u.withKeyUpdate update).existing = u.existing := by
  unfold withKeyUpdate
  split <;> rfl

theorem foldl_withKeyUpdate (updates : List KeyUpdate) (u : BucketUpdate) :
    (updates.foldl withKeyUpdate u).bucket = u.bucket ∧
      (updates.foldl withKeyUpdate u).existing = u.existing := by
  induction updates generalizing u with
  | nil => exact ⟨rfl, rfl⟩
  | cons update rest ih =>
      obtain ⟨hbucket, hexisting⟩ := ih (u.withKeyUpdate update)
      exact ⟨hbucket.trans (bucket_withKeyUpdate u update),
        hexisting.trans (existing_withKeyUpdate u update)⟩

end BucketUpdate

/-- The newest change to a key, and of equally new ones the first. -/
def newestChange (updates : List KeyUpdate) (key : TableKey) : Option Change :=
  ((updates.filter (·.key = key)).map (·.toChange)).argmax Change.offset

theorem newestChange_concat (updates : List KeyUpdate) (update : KeyUpdate) (key : TableKey) :
    newestChange (updates ++ [update]) key
      = if update.key = key ∧ (newestChange updates key).all (·.offset < update.offset) then
          some update.toChange
        else newestChange updates key := by
  unfold newestChange
  rw [List.filter_append, List.map_append]
  by_cases hkey : update.key = key
  · have hown : [update].filter (·.key = key) = [update] := by simp [hkey]
    rw [hown, List.map_singleton, List.argmax_concat]
    cases ((updates.filter (·.key = key)).map (·.toChange)).argmax Change.offset with
    | none => simp [hkey]
    | some ch => simp [hkey]
  · have hother : [update].filter (·.key = key) = [] := by simp [hkey]
    rw [hother, List.map_nil, List.append_nil, if_neg fun h => hkey h.1]

/-- **Of the changes to a key a group keeps the newest.** -/
theorem BucketUpdate.getElem?_changes_foldl {u : BucketUpdate} (hu : u.changes = ∅)
    (updates : List KeyUpdate) (key : TableKey) :
    (updates.foldl withKeyUpdate u).changes[key]? = newestChange updates key := by
  induction updates using List.reverseRecOn with
  | nil =>
      show u.changes[key]? = none
      rw [hu, Std.ExtTreeMap.getElem?_empty]
  | append_singleton updates update ih =>
      rw [List.foldl_append, List.foldl_cons, List.foldl_nil, getElem?_changes_withKeyUpdate, ih,
        newestChange_concat]

theorem mem_of_newestChange {updates : List KeyUpdate} {key : TableKey} {ch : Change}
    (h : newestChange updates key = some ch) : ⟨ch, key⟩ ∈ updates := by
  obtain ⟨update, hfilter, rfl⟩ := List.mem_map.mp (List.argmax_mem h)
  obtain ⟨hmem, hkey⟩ := List.mem_filter.mp hfilter
  rwa [← of_decide_eq_true hkey]

theorem exists_newestChange {updates : List KeyUpdate} {update : KeyUpdate} (h : update ∈ updates) :
    ∃ ch, newestChange updates update.key = some ch ∧ update.offset ≤ ch.offset := by
  have hmem : update.toChange ∈ (updates.filter (·.key = update.key)).map (·.toChange) :=
    List.mem_map_of_mem (List.mem_filter.mpr ⟨h, decide_eq_true rfl⟩)
  cases hch : newestChange updates update.key with
  | none =>
      rw [List.argmax_eq_none.mp hch] at hmem
      exact absurd hmem (by simp)
  | some ch => exact ⟨ch, rfl, List.le_of_mem_argmax hmem hch⟩

/-- **In a stretch of the log** the newest change to a key is the latest one in the log. -/
theorem Log.IsStretch.newestChange_eq_some_iff {log : Log} {first last : Offset}
    {updates : List KeyUpdate} (h : log.IsStretch first last updates) {key : TableKey}
    {ch : Change} :
    newestChange updates key = some ch ↔ first ≤ ch.offset ∧ log.Latest last key ch := by
  constructor
  · intro hch
    obtain ⟨hfirst, hlast, hentry⟩ := h.mem_iff.mp (mem_of_newestChange hch)
    refine ⟨hfirst, hentry, hlast, fun o removal hafter hbelow he => ?_⟩
    -- a later entry would be a newer change
    have hmem : (⟨⟨o, removal⟩, key⟩ : KeyUpdate) ∈ updates :=
      h.mem_iff.mpr ⟨le_trans hfirst (le_of_lt hafter), hbelow, he⟩
    obtain ⟨ch', hch', hle⟩ := exists_newestChange hmem
    obtain rfl : ch = ch' := Option.some.inj (hch.symm.trans hch')
    exact absurd hafter (not_lt.mpr hle)
  · intro hlatest
    obtain ⟨hfirst, hentry, hlast, hlatest⟩ := hlatest
    have hmem : (⟨ch, key⟩ : KeyUpdate) ∈ updates := h.mem_iff.mpr ⟨hfirst, hlast, hentry⟩
    obtain ⟨ch', hch', hle⟩ := exists_newestChange hmem
    -- the newest change comes from the stretch as well, and is no older than the latest
    have hmem' := mem_of_newestChange hch'
    obtain ⟨_, hlast', hentry'⟩ := h.mem_iff.mp hmem'
    have hsame : ch.offset = ch'.offset :=
      le_antisymm hle (not_lt.mp fun hlt => hlatest _ _ hlt hlast' hentry')
    rw [hch', show ch = ch' from congrArg KeyUpdate.toChange (h.inj hmem hmem' hsame)]

/-! ## Dividing by hash -/

/-- A hasher that never gives up. -/
abbrev KeyHasher.total (hash : TableKey → KeyHash) : KeyHasher := fun key => some (hash key)

theorem mapM_total (hash : TableKey → KeyHash) (updates : List KeyUpdate) :
    updates.mapM (fun update => ((KeyHasher.total hash) update.key).map (·, update))
      = some (updates.map fun update => (hash update.key, update)) := by
  rw [← List.mapM'_eq_mapM]
  induction updates with
  | nil => rfl
  | cons update rest ih => rw [List.mapM'_cons, ih]; rfl

/-- **Dividing changes by hash** keeps all of them, in their order. -/
theorem hashUpdates_total (hash : TableKey → KeyHash) (updates : List KeyUpdate) :
    ∃ hashed, hashUpdates (.total hash) updates = some hashed ∧ ∀ b : KeyHash,
      hashed[b]? = if ∃ update ∈ updates, hash update.key = b then
          some (updates.filter (hash ·.key = b)) else none := by
  unfold hashUpdates
  rw [mapM_total]
  refine ⟨_, rfl, fun b => ?_⟩
  induction updates with
  | nil => simp
  | cons update rest ih =>
      rw [List.map_cons, List.foldr_cons, Maps.getElem?_alter]
      by_cases hb : hash update.key = b
      · subst hb
        rw [if_pos rfl, if_pos ⟨update, List.mem_cons_self, rfl⟩, ih,
          List.filter_cons_of_pos (by simp)]
        split
        · rfl
        · rename_i hno
          have hnil : rest.filter (hash ·.key = hash update.key) = [] := by
            rw [List.filter_eq_nil_iff]
            intro update' hmem heq
            exact hno ⟨update', hmem, of_decide_eq_true heq⟩
          rw [hnil]
          rfl
      · rw [if_neg hb, ih, List.filter_cons_of_neg (by simpa using hb)]
        refine if_congr ?_ rfl rfl
        simp [hb]

/-! ## Handing the hashing to another thread -/

namespace Writer

variable {w : Writer} {updates : List KeyUpdate} {hashed : HashedUpdates}

/-- The writer hashes all keys by a function, and its hashing is not cancelled. -/
structure HashesBy (w : Writer) (hash : TableKey → KeyHash) : Prop where
  hash_eq : w.hash = .total hash
  completed : w.hashingTask = .completed

/-- The writer's hashing may be cancelled, and this is how a batch fails then. -/
def Cancels (w : Writer) (e : IndexError) : Prop :=
  w.hashingTask = .cancelled ∧ e = hashingCancelled

theorem HashesBy.not_cancels {hash : TableKey → KeyHash} (h : w.HashesBy hash) (e : IndexError) :
    ¬w.Cancels e := by
  intro hcancels
  exact absurd (h.completed.symm.trans hcancels.1) (by decide)

/-- **A task that is cancelled** has hashed nothing, whatever the hasher would have done. -/
theorem hashBatch_of_cancelled (hoff : w.offloads updates = true)
    (htask : w.hashingTask = .cancelled) :
    w.hashBatch updates
      = Program.note (.offloading updates.length) (.done (.error hashingCancelled)) := by
  unfold hashBatch
  rw [if_pos hoff, htask]
  rfl

/-- **Otherwise it makes no difference who hashes**, but in what is reported. -/
theorem hashBatch_of_completed (htask : w.offloads updates = true → w.hashingTask = .completed)
    (h : hashUpdates w.hash updates = some hashed) :
    w.hashBatch updates = if w.offloads updates = true then
        Program.note (.offloading updates.length) (.done (.ok hashed))
      else Program.done (.ok hashed) := by
  unfold hashBatch hashByKey
  rw [h]
  split
  · rename_i hoff
    rw [htask hoff]
    rfl
  · rfl

end Writer

/-! ## Gathering by bucket -/

theorem getElem?_addToGroup (groups : Std.ExtTreeMap Bucket BucketUpdate) (b b' : Bucket)
    (updates : List KeyUpdate) :
    (addToGroup groups b updates)[b']? = if b = b' then
        some (updates.foldl BucketUpdate.withKeyUpdate (groups[b']?.getD (.empty b')))
      else groups[b']? := by
  unfold addToGroup
  rw [Maps.getElem?_alter]
  by_cases hb : b = b'
  · rw [if_pos hb, if_pos hb, hb]
  · rw [if_neg hb, if_neg hb]

/-- The changes in some parts that belong to the bucket `b`. -/
def changesFor (located : Std.ExtTreeMap KeyHash Bucket) (b : Bucket)
    (parts : List (KeyHash × List KeyUpdate)) : List KeyUpdate :=
  (parts.filter fun part => located[part.1]? = some b).flatMap (·.2)

theorem gather_of_located {located : Std.ExtTreeMap KeyHash Bucket}
    {groups : Std.ExtTreeMap Bucket BucketUpdate} {part : KeyHash × List KeyUpdate} {b : Bucket}
    (h : located[part.1]? = some b) :
    gather located groups part = .ok (addToGroup groups b part.2) := by
  unfold gather
  rw [h]

/-- **Gathering**: a bucket gets the changes of all parts whose hash it was located for. -/
theorem foldlM_addToGroup {located : Std.ExtTreeMap KeyHash Bucket}
    {parts : List (KeyHash × List KeyUpdate)} (h : ∀ part ∈ parts, (located[part.1]?).isSome)
    (groups : Std.ExtTreeMap Bucket BucketUpdate) :
    ∃ groups', parts.foldlM (gather located) groups = .ok groups' ∧
      ∀ b : Bucket, groups'[b]? = if ∃ part ∈ parts, located[part.1]? = some b then
          some ((changesFor located b parts).foldl BucketUpdate.withKeyUpdate
            (groups[b]?.getD (.empty b)))
        else groups[b]? := by
  induction parts generalizing groups with
  | nil => exact ⟨groups, rfl, fun b => by simp⟩
  | cons part rest ih =>
      obtain ⟨b₀, hb₀⟩ := Option.isSome_iff_exists.mp (h part List.mem_cons_self)
      obtain ⟨groups', hrun, hgroups'⟩ :=
        ih (fun part hpart => h part (List.mem_cons_of_mem _ hpart)) (addToGroup groups b₀ part.2)
      refine ⟨groups', ?_, fun b => ?_⟩
      · rw [List.foldlM_cons, gather_of_located hb₀]
        exact hrun
      · rw [hgroups', getElem?_addToGroup]
        unfold changesFor
        -- the part comes before the rest, in its own bucket and in no other
        by_cases hb : b₀ = b
        · subst hb
          have hpos : ∃ p ∈ part :: rest, located[p.1]? = some b₀ :=
            ⟨part, List.mem_cons_self, hb₀⟩
          rw [if_pos rfl, Option.getD_some, if_pos hpos,
            List.filter_cons_of_pos (by simpa using hb₀), List.flatMap_cons, List.foldl_append]
          split
          · rfl
          · rename_i hno
            have hnil : rest.filter (fun part => located[part.1]? = some b₀) = [] := by
              rw [List.filter_eq_nil_iff]
              intro part hpart heq
              exact hno ⟨part, hpart, of_decide_eq_true heq⟩
            rw [hnil]
            rfl
        · have hne : located[part.1]? ≠ some b := by
            rw [hb₀]
            exact fun heq => hb (Option.some.inj heq)
          rw [if_neg hb, List.filter_cons_of_neg (by simpa using hne)]
          refine if_congr ?_ rfl rfl
          simp [hne]

/-- Some parts of a batch, each under the hash of its changes: nothing is lost, and nothing is there
twice. -/
structure IsDivision (hash : TableKey → KeyHash) (updates : List KeyUpdate)
    (parts : List (KeyHash × List KeyUpdate)) : Prop where
  distinct : parts.Pairwise fun p q => p.1 ≠ q.1
  part_eq : ∀ p ∈ parts, p.2 = updates.filter (hash ·.key = p.1)
  exists_iff : ∀ b : KeyHash, (∃ p ∈ parts, p.1 = b) ↔ ∃ update ∈ updates, hash update.key = b

/-- What groups hold that are made of all parts of a batch: there is one for each bucket that a
change was located in, and in it the newest change to each key that was. -/
structure Gathered (hash : TableKey → KeyHash) (updates : List KeyUpdate)
    (located : Std.ExtTreeMap KeyHash Bucket) (groups : Std.ExtTreeMap Bucket BucketUpdate) :
    Prop where
  isSome_iff : ∀ b : Bucket,
    (groups[b]?).isSome ↔ ∃ update ∈ updates, located[hash update.key]? = some b
  bucket_eq : ∀ {b : Bucket} {u : BucketUpdate}, groups[b]? = some u → u.bucket = b
  existing_eq : ∀ {b : Bucket} {u : BucketUpdate}, groups[b]? = some u → u.existing = ∅
  changes_eq : ∀ {b : Bucket} {u : BucketUpdate}, groups[b]? = some u → ∀ key : TableKey,
    u.changes[key]? = if located[hash key]? = some b then newestChange updates key else none

section Division

variable {hash : TableKey → KeyHash} {updates : List KeyUpdate}
  {located : Std.ExtTreeMap KeyHash Bucket} {parts parts' : List (KeyHash × List KeyUpdate)}

theorem isDivision_toList {hashed : HashedUpdates}
    (h : hashUpdates (.total hash) updates = some hashed) :
    IsDivision hash updates hashed.toList := by
  obtain ⟨hashed', hhashed', hparts⟩ := hashUpdates_total hash updates
  obtain rfl : hashed = hashed' := Option.some.inj (h.symm.trans hhashed')
  refine ⟨Maps.pairwise_toList_ne hashed, fun p hp => ?_, fun b => ?_⟩
  · have hp := Std.ExtTreeMap.mem_toList_iff_getElem?_eq_some.mp hp
    rw [hparts] at hp
    split at hp
    · exact (Option.some.inj hp).symm
    · exact absurd hp (by simp)
  · have hexists : (∃ p ∈ hashed.toList, p.1 = b) ↔ ∃ part, hashed[b]? = some part := by
      constructor
      · intro ⟨p, hp, hb⟩
        exact ⟨p.2, hb ▸ Std.ExtTreeMap.mem_toList_iff_getElem?_eq_some.mp hp⟩
      · intro ⟨part, hpart⟩
        exact ⟨(b, part), Std.ExtTreeMap.mem_toList_iff_getElem?_eq_some.mpr hpart, rfl⟩
    rw [hexists, hparts]
    split <;> simp_all

theorem mem_keys_hashUpdates {hashed : HashedUpdates}
    (h : hashUpdates (.total hash) updates = some hashed) {b : KeyHash} :
    b ∈ hashed.keys ↔ ∃ update ∈ updates, hash update.key = b := by
  rw [← Std.ExtTreeMap.map_fst_toList_eq_keys, List.mem_map]
  exact (isDivision_toList h).exists_iff b

/-- At most one part has a hash. -/
theorem flatMap_ite_eq {β γ : Type} {l : List (KeyHash × β)} (hl : l.Pairwise fun p q => p.1 ≠ q.1)
    (b : KeyHash) (xs : List γ) :
    l.flatMap (fun p => if p.1 = b then xs else []) = if ∃ p ∈ l, p.1 = b then xs else [] := by
  induction l with
  | nil => simp
  | cons p rest ih =>
      obtain ⟨hp, hrest⟩ := List.pairwise_cons.mp hl
      rw [List.flatMap_cons, ih hrest]
      by_cases hb : p.1 = b
      · have hno : ¬∃ q ∈ rest, q.1 = b := fun ⟨q, hq, hqb⟩ => hp q hq (hb.trans hqb.symm)
        simp [hb, hno]
      · rw [if_neg hb, List.nil_append]
        refine if_congr ?_ rfl rfl
        simp [hb]

/-- **All changes to a key are gathered in the bucket that its hash was located for.** -/
theorem IsDivision.filter_changesFor (h : IsDivision hash updates parts) (b : Bucket)
    (key : TableKey) :
    (changesFor located b parts).filter (·.key = key)
      = if located[hash key]? = some b then updates.filter (·.key = key) else [] := by
  have hpart : ∀ p ∈ parts.filter fun part => located[part.1]? = some b,
      p.2.filter (·.key = key) = if p.1 = hash key then updates.filter (·.key = key) else [] := by
    intro p hp
    rw [h.part_eq p (List.mem_filter.mp hp).1, List.filter_filter]
    split
    · rename_i hhash
      refine List.filter_congr fun update _ => ?_
      by_cases hkey : update.key = key <;> simp [hkey, hhash]
    · rename_i hhash
      refine List.filter_eq_nil_iff.mpr fun update _ => ?_
      simp only [Bool.and_eq_true, decide_eq_true_eq, not_and]
      exact fun hkey hown => hhash (hown ▸ congrArg hash hkey)
  unfold changesFor
  rw [List.filter_flatMap, List.flatMap_congr hpart, flatMap_ite_eq (h.distinct.filter _)]
  by_cases hb : located[hash key]? = some b
  · rw [if_pos hb]
    split
    · rfl
    · rename_i hno
      refine (List.filter_eq_nil_iff.mpr fun update hmem hkey => hno ?_).symm
      obtain rfl := of_decide_eq_true hkey
      obtain ⟨p, hp, hhash⟩ := (h.exists_iff _).mpr ⟨update, hmem, rfl⟩
      exact ⟨p, List.mem_filter.mpr ⟨hp, by simp [hhash, hb]⟩, hhash⟩
  · rw [if_neg hb, if_neg]
    intro ⟨p, hp, hhash⟩
    exact hb (hhash ▸ of_decide_eq_true (List.mem_filter.mp hp).2)

/-- **Gathering all parts of a batch**, in whatever order they come. -/
theorem IsDivision.foldlM_gather (h : IsDivision hash updates parts)
    (hlocated : ∀ p ∈ parts, (located[p.1]?).isSome) :
    ∃ groups, parts.foldlM (gather located) ∅ = .ok groups ∧
      Gathered hash updates located groups := by
  obtain ⟨groups, hrun, hgroups⟩ := foldlM_addToGroup hlocated ∅
  have hgroup : ∀ {b u}, groups[b]? = some u →
      u = (changesFor located b parts).foldl BucketUpdate.withKeyUpdate (.empty b) := by
    intro b u hu
    rw [hgroups, Std.ExtTreeMap.getElem?_empty] at hu
    split at hu
    · exact (Option.some.inj hu).symm
    · exact absurd hu (by simp)
  refine ⟨groups, hrun, fun b => ?_, fun hu => ?_, fun hu => ?_, fun {b u} hu key => ?_⟩
  · have hsome : (groups[b]?).isSome ↔ ∃ part ∈ parts, located[part.1]? = some b := by
      rw [hgroups, Std.ExtTreeMap.getElem?_empty]
      split
      · exact ⟨fun _ => ‹_›, fun _ => rfl⟩
      · rename_i hno
        exact ⟨fun hsome => absurd hsome (by simp), fun hex => absurd hex hno⟩
    rw [hsome]
    constructor
    · intro ⟨part, hpart, hb⟩
      obtain ⟨update, hmem, hhash⟩ := (h.exists_iff _).mp ⟨part, hpart, rfl⟩
      exact ⟨update, hmem, hhash ▸ hb⟩
    · intro ⟨update, hmem, hb⟩
      obtain ⟨part, hpart, hhash⟩ := (h.exists_iff _).mpr ⟨update, hmem, rfl⟩
      exact ⟨part, hpart, hhash ▸ hb⟩
  · rw [hgroup hu]
    exact (BucketUpdate.foldl_withKeyUpdate _ _).1
  · rw [hgroup hu]
    exact (BucketUpdate.foldl_withKeyUpdate _ _).2
  · rw [hgroup hu, BucketUpdate.getElem?_changes_foldl rfl]
    unfold newestChange
    rw [h.filter_changesFor]
    split
    · rfl
    · rfl

end Division

/-! ## Groups of a stretch of the log -/

/-- The groups hold the changes in a stretch of the log, each group those of one bucket. -/
structure GroupsOf (hash : TableKey → KeyHash) (log : Log) (first last : Offset)
    (groups : List BucketUpdate) : Prop where
  distinct : groups.Pairwise fun u v => u.bucket.hash ≠ v.bucket.hash
  /-- The latest change in the stretch to each key of the bucket. -/
  changes_iff : ∀ u ∈ groups, ∀ (key : TableKey) (ch : Change), u.changes[key]? = some ch ↔
    hash key = u.bucket.hash ∧ first ≤ ch.offset ∧ log.Latest last key ch
  hasUpdates : ∀ u ∈ groups, u.hasUpdates
  /-- Every key that an entry of the stretch changes is in a group. -/
  exists_group : ∀ (key : TableKey) (o : Offset) (removal : Bool), first ≤ o → o < last →
    log.entries[o]? = some ⟨key, removal⟩ → ∃ u ∈ groups, ∃ ch, u.changes[key]? = some ch

theorem GroupsOf.congr {hash : TableKey → KeyHash} {log log' : Log} {first last : Offset}
    {groups : List BucketUpdate} (h : GroupsOf hash log first last groups)
    (hagree : Log.AgreeBelow last log log') : GroupsOf hash log' first last groups where
  distinct := h.distinct
  changes_iff u hu key ch := (h.changes_iff u hu key ch).trans
    (and_congr_right fun _ => and_congr_right fun _ =>
      Log.latest_congr hagree)
  hasUpdates := h.hasUpdates
  exists_group key o removal hfirst hlast he :=
    h.exists_group key o removal hfirst hlast ((hagree o hlast).trans he)

/-- What a batch asks for in a bucket, whatever is indexed there. -/
def BucketUpdate.request (u : BucketUpdate) : Bucket × Std.ExtTreeMap TableKey Change :=
  (u.bucket, u.changes)

theorem exists_of_map_request {groups groups' : List BucketUpdate}
    (h : groups'.map BucketUpdate.request = groups.map BucketUpdate.request)
    {u : BucketUpdate} (hu : u ∈ groups') :
    ∃ v ∈ groups, v.bucket = u.bucket ∧ v.changes = u.changes := by
  have hmem := List.mem_map_of_mem (f := BucketUpdate.request) hu
  rw [h, List.mem_map] at hmem
  obtain ⟨v, hv, hvu⟩ := hmem
  exact ⟨v, hv, congrArg Prod.fst hvu, congrArg Prod.snd hvu⟩

theorem GroupsOf.of_map_request {hash : TableKey → KeyHash} {log : Log} {first last : Offset}
    {groups groups' : List BucketUpdate} (h : GroupsOf hash log first last groups)
    (heq : groups'.map BucketUpdate.request = groups.map BucketUpdate.request) :
    GroupsOf hash log first last groups' where
  distinct := by
    have hpairs : (groups.map BucketUpdate.request).Pairwise fun p q => p.1.hash ≠ q.1.hash :=
      List.pairwise_map.mpr h.distinct
    rw [← heq, List.pairwise_map] at hpairs
    exact hpairs
  changes_iff u hu key ch := by
    obtain ⟨v, hv, hbucket, hchanges⟩ := exists_of_map_request heq hu
    rw [← hbucket, ← hchanges]
    exact h.changes_iff v hv key ch
  hasUpdates u hu := by
    obtain ⟨v, hv, _, hchanges⟩ := exists_of_map_request heq hu
    have := h.hasUpdates v hv
    unfold BucketUpdate.hasUpdates at this ⊢
    rwa [← hchanges]
  exists_group key o removal hfirst hlast he := by
    obtain ⟨u, hu, ch, hch⟩ := h.exists_group key o removal hfirst hlast he
    obtain ⟨v, hv, _, hchanges⟩ := exists_of_map_request heq.symm hu
    exact ⟨v, hv, ch, hchanges ▸ hch⟩

/-- **Dividing and gathering the changes of a stretch** gives its groups, with the buckets as they
were located. -/
theorem groupsOf_assembleGroups {log : Log} {hash : TableKey → KeyHash} {first last : Offset}
    {updates : List KeyUpdate} (h : log.IsStretch first last updates) {hashed : HashedUpdates}
    (hhashed : hashUpdates (.total hash) updates = some hashed)
    {located : Std.ExtTreeMap KeyHash Bucket} {heads : KeyHash → Option Offset}
    (hlocated : ∀ b : KeyHash, located[b]?
      = if b ∈ hashed.keys then some (Bucket.mk b (heads b)) else none) :
    ∃ groups, assembleGroups hashed located = .ok groups ∧
      GroupsOf hash log first last groups.values ∧
      ∀ u ∈ groups.values, u.existing = ∅ ∧ u.bucket.head = heads u.bucket.hash := by
  have hdivision := isDivision_toList hhashed
  -- every bucket is located for its own hash
  have hown : ∀ {update}, update ∈ updates →
      located[hash update.key]? = some ⟨hash update.key, heads (hash update.key)⟩ := by
    intro update hmem
    rw [hlocated, if_pos ((mem_keys_hashUpdates hhashed).mpr ⟨update, hmem, rfl⟩)]
  have hsome : ∀ part ∈ hashed.toList, (located[part.1]?).isSome := by
    intro part hpart
    obtain ⟨update, hmem, hhash⟩ := (hdivision.exists_iff _).mp ⟨part, hpart, rfl⟩
    rw [← hhash, hown hmem]
    rfl
  obtain ⟨groups, hrun, hgroups⟩ := hdivision.foldlM_gather hsome
  have hbucket : ∀ {b : Bucket} {u : BucketUpdate}, groups[b]? = some u →
      ∃ update ∈ updates, b = ⟨hash update.key, heads (hash update.key)⟩ := by
    intro b u hu
    obtain ⟨update, hmem, hb⟩ := (hgroups.isSome_iff b).mp (by rw [hu]; rfl)
    exact ⟨update, hmem, Option.some.inj (hb.symm.trans (hown hmem))⟩
  refine ⟨groups, hrun, ⟨?_, ?_, ?_, ?_⟩, ?_⟩
  -- buckets with one hash would have been located with one head
  · rw [Maps.values_eq_map_toList, List.pairwise_map]
    refine (Maps.pairwise_toList_ne groups).imp_of_mem fun {p q} hp hq hne heq => hne ?_
    have hp := Std.ExtTreeMap.mem_toList_iff_getElem?_eq_some.mp hp
    have hq := Std.ExtTreeMap.mem_toList_iff_getElem?_eq_some.mp hq
    rw [hgroups.bucket_eq hp, hgroups.bucket_eq hq] at heq
    obtain ⟨_, _, hb⟩ := hbucket hp
    obtain ⟨_, _, hb'⟩ := hbucket hq
    rw [hb, hb'] at heq ⊢
    dsimp only at heq
    rw [heq]
  · intro u hu key ch
    obtain ⟨b, hb⟩ := Maps.mem_values.mp hu
    obtain ⟨update, hmem, heq⟩ := hbucket hb
    rw [hgroups.bucket_eq hb, hgroups.changes_eq hb, ← h.newestChange_eq_some_iff, heq]
    constructor
    · intro hch
      split at hch
      · rename_i hlocated
        have hsame := (hown (mem_of_newestChange hch)).symm.trans hlocated
        exact ⟨congrArg Bucket.hash (Option.some.inj hsame), hch⟩
      · exact absurd hch (by simp)
    · intro ⟨hhash, hch⟩
      have hhash : hash key = hash update.key := hhash
      rw [hhash, hown hmem, if_pos rfl, hch]
  · intro u hu
    obtain ⟨b, hb⟩ := Maps.mem_values.mp hu
    obtain ⟨update, hmem, heq⟩ := hbucket hb
    obtain ⟨ch, hch, _⟩ := exists_newestChange hmem
    refine BucketUpdate.hasUpdates_iff.mpr ⟨update.key, ch, ?_⟩
    rw [hgroups.changes_eq hb, hown hmem, heq, if_pos rfl, hch]
  · intro key o removal hfirst hlast he
    have hmem : (⟨⟨o, removal⟩, key⟩ : KeyUpdate) ∈ updates := h.mem_iff.mpr ⟨hfirst, hlast, he⟩
    obtain ⟨u, hu⟩ := Option.isSome_iff_exists.mp
      ((hgroups.isSome_iff _).mpr ⟨_, hmem, hown hmem⟩)
    obtain ⟨ch, hch, _⟩ := exists_newestChange hmem
    refine ⟨u, Maps.mem_values.mpr ⟨_, hu⟩, ch, ?_⟩
    rw [hgroups.changes_eq hu, hown hmem, if_pos rfl, hch]
  · intro u hu
    obtain ⟨b, hb⟩ := Maps.mem_values.mp hu
    obtain ⟨_, _, heq⟩ := hbucket hb
    exact ⟨hgroups.existing_eq hb, by rw [hgroups.bucket_eq hb, heq]⟩

end SegmentIndex
