import SegmentIndex.Proofs.Collect

/-!
# What a plan says

A plan is made from many reads, and others may index between any two of them. Its groups hold the
changes of its stretch of the log in any case, as the log there cannot change (`GroupsOf`), and
every group is consistent. What the plan takes to be indexed already may come from several states;
it is right if the checkpoint has not moved until the plan is made (`givesUnless_planRange`).
Nothing can go wrong on the way, unless there are changes, they are hashed by another thread, and
that is cancelled.
-/

namespace SegmentIndex

open Attempt Segment

variable {hash : TableKey → KeyHash} {log log' : Log} {s s' : Segment} {c c' first last : Offset}
  {groups groups' : List BucketUpdate} {updates : List KeyUpdate}

/-! ## Locating buckets -/

theorem foldlM_addLocated {values : AttributeValues} {heads : KeyHash → Option Offset}
    {hashes : List KeyHash}
    (h : ∀ b ∈ hashes,
      decodeAttribute (.bucket b) values[AttributeKey.bucket b]? = .ok (heads b))
    (located : Std.ExtTreeMap KeyHash Bucket) :
    ∃ located', hashes.foldlM (addLocated values) located = .ok located' ∧
      ∀ b : KeyHash, located'[b]?
        = if b ∈ hashes then some (Bucket.mk b (heads b)) else located[b]? := by
  induction hashes generalizing located with
  | nil => exact ⟨located, rfl, fun b => by simp⟩
  | cons b₀ rest ih =>
      have hadd : addLocated values located b₀ = .ok (located.insert b₀ ⟨b₀, heads b₀⟩) := by
        unfold addLocated
        rw [h b₀ List.mem_cons_self]
        rfl
      obtain ⟨located', hrun, hlocated'⟩ := ih (fun b hb => h b (List.mem_cons_of_mem _ hb))
        (located.insert b₀ ⟨b₀, heads b₀⟩)
      refine ⟨located', ?_, fun b => ?_⟩
      · rw [List.foldlM_cons, hadd]
        exact hrun
      · rw [hlocated', Maps.getElem?_insert]
        by_cases hb : b₀ = b
        · subst hb
          simp
        · have hb' : b ≠ b₀ := fun heq => hb heq.symm
          simp [hb, hb']

theorem decodeBuckets_eq_ok {values : AttributeValues} {heads : KeyHash → Option Offset}
    {hashes : List KeyHash}
    (h : ∀ b ∈ hashes,
      decodeAttribute (.bucket b) values[AttributeKey.bucket b]? = .ok (heads b)) :
    ∃ located, decodeBuckets values hashes = .ok located ∧
      ∀ b : KeyHash, located[b]? = if b ∈ hashes then some (Bucket.mk b (heads b)) else none := by
  obtain ⟨located, hrun, hlocated⟩ := foldlM_addLocated h ∅
  refine ⟨located, hrun, fun b => ?_⟩
  rw [hlocated, Std.ExtTreeMap.getElem?_empty]

/-- The buckets that attributes show, where all of these can be read. -/
theorem decodeBuckets_select {a : Attributes} {heads : KeyHash → Option Offset}
    {hashes : List KeyHash}
    (h : ∀ b ∈ hashes, decodeAttribute (.bucket b) (a.get? (.bucket b)) = .ok (heads b)) :
    ∃ located, decodeBuckets (.select a.get? (hashes.map .bucket)) hashes = .ok located ∧
      ∀ b : KeyHash, located[b]? = if b ∈ hashes then some (Bucket.mk b (heads b)) else none := by
  refine decodeBuckets_eq_ok fun b hb => ?_
  rw [AttributeValues.getElem?_select, if_pos (List.mem_map_of_mem hb)]
  exact h b hb

/-- **Locating buckets**: their heads as of one moment. -/
theorem gives_locateBuckets (h : s.Indexed hash c) (hashes : List KeyHash) :
    Gives (Evolves hash)
      (fun located s' => ∃ c', Since hash s c s' c' ∧ ∀ b : KeyHash, located[b]?
        = if b ∈ hashes then some (Bucket.mk b (s'.log.indexed hash c' (.bucket b))) else none)
      (locateBuckets hashes) s := by
  refine (gives_readAttributes h _).bind ?_
  intro values s' hpost
  obtain ⟨c', hsince, hvalues⟩ := hpost
  obtain ⟨located, hrun, hlocated⟩ :=
    decodeBuckets_eq_ok fun b hb => hvalues _ (List.mem_map_of_mem hb)
  exact .ofExcept hrun ⟨c', hsince, hlocated⟩

/-! ## Grouping -/

/-- The groups of a stretch of the log, and the heads of their buckets as of this moment. -/
def GroupedAt (hash : TableKey → KeyHash) (s : Segment) (c first last : Offset)
    (groups : List BucketUpdate) (s' : Segment) : Prop :=
  ∃ c', Since hash s c s' c' ∧ GroupsOf hash s.log first last groups ∧
    ∀ u ∈ groups, u.existing = ∅ ∧
      u.bucket.head = s'.log.indexed hash c' (.bucket u.bucket.hash)

theorem gives_locateGroups (h : s.Indexed hash c) (hstretch : s.log.IsStretch first last updates)
    {hashed : HashedUpdates} (hhashed : hashUpdates (.total hash) updates = some hashed) :
    Gives (Evolves hash) (GroupedAt hash s c first last) (locateGroups locateBuckets hashed) s := by
  refine (gives_locateBuckets h hashed.keys).ofStore.bind ?_
  intro located s' hpost
  obtain ⟨c', hsince, hlocated⟩ := hpost
  obtain ⟨groups, hrun, hgroups, hheads⟩ := groupsOf_assembleGroups hstretch hhashed hlocated
  rw [hrun]
  exact .pure ⟨c', hsince, hgroups, hheads⟩

theorem givesUnless_hashBatch {w : Writer} {hashed : HashedUpdates}
    (h : hashUpdates w.hash updates = some hashed) :
    GivesUnless (Evolves hash) w.Cancels (fun hashed' s' => hashed' = hashed ∧ s' = s)
      (w.hashBatch updates) s := by
  by_cases hcancelled : w.offloads updates = true ∧ w.hashingTask = .cancelled
  · obtain ⟨hoff, htask⟩ := hcancelled
    rw [Writer.hashBatch_of_cancelled hoff htask]
    exact ⟨htask, rfl⟩
  · have htask : w.offloads updates = true → w.hashingTask = .completed := by
      intro hoff
      cases htask : w.hashingTask with
      | completed => rfl
      | cancelled => exact absurd ⟨hoff, htask⟩ hcancelled
    rw [Writer.hashBatch_of_completed htask h]
    split <;> exact ⟨rfl, rfl⟩

/-- **Grouping by bucket** fails only if there is something to hash and that is cancelled. -/
theorem givesUnless_groupByBucket {w : Writer} (hw : w.hash = .total hash) (h : s.Indexed hash c)
    (hstretch : s.log.IsStretch first last updates) :
    GivesUnless (Evolves hash) (fun e => first < last ∧ w.Cancels e)
      (GroupedAt hash s c first last) (w.groupByBucket locateBuckets updates) s := by
  unfold Writer.groupByBucket
  by_cases hempty : updates.isEmpty
  · rw [if_pos hempty]
    obtain rfl := List.isEmpty_iff.mp hempty
    refine (Gives.pure ⟨c, .refl h, ⟨.nil, by simp, by simp, ?_⟩, by simp⟩).unless
    intro key o removal hfirst hlast he
    have hmem : (⟨⟨o, removal⟩, key⟩ : KeyUpdate) ∈ ([] : List KeyUpdate) :=
      hstretch.mem_iff.mpr ⟨hfirst, hlast, he⟩
    exact absurd hmem (by simp)
  · obtain ⟨hashed, hhashed, _⟩ := hashUpdates_total hash updates
    have hlt : first < last := by
      obtain ⟨update, hmem⟩ := List.exists_mem_of_ne_nil updates (by simpa using hempty)
      obtain ⟨hfirst, hlast, _⟩ := hstretch.mem_iff.mp hmem
      exact lt_of_le_of_lt hfirst hlast
    rw [if_neg hempty]
    refine ((givesUnless_hashBatch (hw ▸ hhashed)).weaken fun e he => ⟨hlt, he⟩).bind ?_
    intro hashed' s' hpost
    obtain ⟨rfl, rfl⟩ := hpost
    exact (Gives.note (gives_locateGroups h hstretch hhashed)).unless

theorem gives_mapM_withIndexedKeys (h : s.Indexed hash c)
    (hgroups : ∀ u ∈ groups, u.existing = ∅ ∧
      u.bucket.head = s.log.indexed hash c (.bucket u.bucket.hash)) :
    Gives (Evolves hash)
      (fun groups' s' => ∃ c', Since hash s c s' c' ∧
        groups'.map BucketUpdate.request = groups.map BucketUpdate.request ∧
        ∀ u ∈ groups', u.isConsistent ∧ (c' = c → ∀ (key : TableKey) (o : Offset),
          u.existing[key]? = some o ↔ hash key = u.bucket.hash ∧ s.log.IsLive c key o))
      (groups.mapM (withIndexedKeys (.total hash))) s := by
  -- each group has been attached its keys in some state up to now
  refine Gives.mapM (fun done groups' s' => ∃ c', Since hash s c s' c' ∧
    groups'.map BucketUpdate.request = done.map BucketUpdate.request ∧
    ∀ u ∈ groups', u.isConsistent ∧ (c' = c → ∀ (key : TableKey) (o : Offset),
      u.existing[key]? = some o ↔ hash key = u.bucket.hash ∧ s.log.IsLive c key o))
    ⟨c, .refl h, rfl, by simp⟩ ?_
  intro done u rest given s' heq hpost
  subst heq
  obtain ⟨c', hsince, hmap, hgiven⟩ := hpost
  obtain ⟨hempty, hhead⟩ := hgroups u (by simp)
  refine (gives_withIndexedKeys h hsince hhead hempty).mono ?_
  intro u' s'' hpost
  obtain ⟨c'', hsince', hbucket, hchanges, hconsistent, hfresh⟩ := hpost
  have hmap' : (given ++ [u']).map BucketUpdate.request
      = (done ++ [u]).map BucketUpdate.request := by
    simp [hmap, BucketUpdate.request, hbucket, hchanges]
  refine ⟨c'', hsince.trans hsince', hmap', fun v hv => ?_⟩
  rcases List.mem_append.mp hv with hv | hv
  · -- nothing has moved before, if nothing has moved by now
    obtain ⟨hv, hfresh⟩ := hgiven v hv
    exact ⟨hv, fun hc => hfresh (le_antisymm (hc ▸ hsince'.le) hsince.le)⟩
  · rw [List.mem_singleton.mp hv, hbucket]
    exact ⟨hconsistent, hfresh⟩

/-! ## Planning -/

/-- The groups of the plan hold the changes in its stretch of the log, and none of them can be
refused. -/
structure Plan.Describes (p : Plan) (hash : TableKey → KeyHash) (log : Log) : Prop where
  le : p.first ≤ p.last
  groups : GroupsOf hash log p.first p.last p.groups
  isConsistent : ∀ u ∈ p.groups, u.isConsistent

/-- The plan knows the keys that are live where its stretch of the log starts. -/
def Plan.Knows (p : Plan) (hash : TableKey → KeyHash) (log : Log) : Prop :=
  ∀ u ∈ p.groups, ∀ (key : TableKey) (o : Offset), u.existing[key]? = some o ↔
    hash key = u.bucket.hash ∧ log.IsLive p.first key o

/-- What planning a stretch of the log comes to: the plan describes the stretch, and if it starts
where the segment has been indexed to, and the segment is still indexed up to there, it knows what
is live. -/
def PlannedAt (hash : TableKey → KeyHash) (s : Segment) (c first last : Offset) (p : Plan)
    (s' : Segment) : Prop :=
  ∃ c', Since hash s c s' c' ∧ p.first = first ∧ p.last = last ∧ p.Describes hash s'.log ∧
    (first = c → c' = c → p.Knows hash s'.log)

/-- **Planning a stretch of the log** fails only if the stretch is not empty and hashing is
cancelled. -/
theorem givesUnless_planRange {w : Writer} (hw : w.hash = .total hash) (h : s.Indexed hash c)
    (hle : first ≤ last) (hlast : last ≤ s.log.length) :
    GivesUnless (Evolves hash) (fun e => first < last ∧ w.Cancels e)
      (PlannedAt hash s c first last) (w.planRange first last true) s := by
  unfold Writer.planRange
  refine (gives_readUpdates h hle).unless.bind ?_
  intro updates s₁ hpost
  obtain ⟨⟨c₁, hsince₁⟩, hstretch⟩ := hpost
  refine (givesUnless_groupByBucket hw hsince₁.indexed hstretch).bind ?_
  intro groups s₂ hpost
  obtain ⟨c₂, hsince₂, hgroups, hheads⟩ := hpost
  rw [if_pos rfl, hw]
  refine (gives_mapM_withIndexedKeys hsince₂.indexed hheads).unless.bind ?_
  intro groups' s₃ hpost
  obtain ⟨c₃, hsince₃, hmap, hgroups'⟩ := hpost
  have hsince := hsince₁.trans (hsince₂.trans hsince₃)
  have hagree : Log.AgreeBelow last s₁.log s₃.log :=
    (hsince₂.trans hsince₃).extends_log.agreeBelow
      (le_trans hlast hsince₁.extends_log.length_le)
  refine (Gives.pure ⟨c₃, hsince, rfl, rfl,
    ⟨hle, (hgroups.of_map_request hmap).congr hagree, fun u hu => (hgroups' u hu).1⟩, ?_⟩).unless
  intro heq hc u hu key o
  subst heq
  have hc₂ : c₂ = first :=
    le_antisymm (hc ▸ hsince₃.le) (le_trans hsince₁.le hsince₂.le)
  have hagree₂ : Log.AgreeBelow first s₂.log s₃.log := by
    rw [← hc₂]
    exact hsince₃.extends_log.agreeBelow hsince₂.indexed.le_length
  rw [(hgroups' u hu).2 (hc.trans hc₂.symm) key o, hc₂]
  exact and_congr_right fun _ => Log.isLive_congr hagree₂

end SegmentIndex
