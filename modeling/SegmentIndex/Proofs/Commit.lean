import Mathlib.Data.List.Pairwise
import SegmentIndex.Proofs.Batch
import SegmentIndex.Proofs.Planning

/-!
# A fresh plan moves the index on

Where a plan describes a stretch of the log and knows what is live at its start, its groups turn the
chain of every bucket from what it is there into what it is at the end (`IsFresh.oldChain_eq`,
`IsFresh.newChain_eq`), and the chains of all other buckets stay as they are. As relinking writes
exactly what changes, a segment that is indexed up to the start of the stretch is indexed up to its
end after the batch (`IsFresh.apply`).
-/

namespace SegmentIndex

open Attributes Segment

variable {p : Plan} {hash : TableKey → KeyHash} {log : Log} {s : Segment} {u : BucketUpdate}
  {b : KeyHash}

/-- The plan describes its stretch of the log and knows what is live where it starts. -/
structure Plan.IsFresh (p : Plan) (hash : TableKey → KeyHash) (log : Log) : Prop where
  describes : p.Describes hash log
  knows : p.Knows hash log

namespace Plan.IsFresh

theorem changes_iff (h : p.IsFresh hash log) (hu : u ∈ p.groups) {key : TableKey} {ch : Change} :
    u.changes[key]? = some ch ↔
      hash key = u.bucket.hash ∧ p.first ≤ ch.offset ∧ log.Latest p.last key ch :=
  h.describes.groups.changes_iff u hu key ch

theorem eq_of_hash_eq (h : p.IsFresh hash log) {v : BucketUpdate} (hu : u ∈ p.groups)
    (hv : v ∈ p.groups) (heq : u.bucket.hash = v.bucket.hash) : u = v := by
  have : Std.Symm fun u v : BucketUpdate => u.bucket.hash ≠ v.bucket.hash := ⟨fun _ _ h => h.symm⟩
  by_contra hne
  exact h.describes.groups.distinct.forall hu hv hne heq

/-- A key of the bucket that the group does not change is not touched in the stretch. -/
theorem changes_eq_none_iff (h : p.IsFresh hash log) (hu : u ∈ p.groups) {key : TableKey}
    (hhash : hash key = u.bucket.hash) :
    u.changes[key]? = none ↔ ∀ (o : Offset) (removal : Bool), p.first ≤ o → o < p.last →
      log.entries[o]? ≠ some ⟨key, removal⟩ := by
  constructor
  · intro hnone o removal hfirst hlast he
    obtain ⟨v, hv, ch, hch⟩ := h.describes.groups.exists_group key o removal hfirst hlast he
    have hvhash := ((h.changes_iff hv).mp hch).1
    -- the entry would be in the group of its bucket, and that is this one
    obtain rfl := h.eq_of_hash_eq hu hv (hhash.symm.trans hvhash)
    rw [hnone] at hch
    exact absurd hch (by simp)
  · intro hno
    refine Option.eq_none_iff_forall_ne_some.mpr fun ch hch => ?_
    obtain ⟨_, hfirst, he, hlast, _⟩ := (h.changes_iff hu).mp hch
    exact hno _ _ hfirst hlast he

theorem layered (h : p.IsFresh hash log) (hu : u ∈ p.groups) : u.Layered where
  existing_inj hk hk' :=
    ((h.knows u hu _ _).mp hk).2.key_unique ((h.knows u hu _ _).mp hk').2
  changes_inj hk hk' heq := by
    obtain ⟨_, _, he, _⟩ := (h.changes_iff hu).mp hk
    obtain ⟨_, _, he', _⟩ := (h.changes_iff hu).mp hk'
    rw [heq, he'] at he
    exact (LogEntry.mk.inj (Option.some.inj he)).1.symm
  above hk hk' :=
    lt_of_lt_of_le ((h.knows u hu _ _).mp hk).2.2.1 ((h.changes_iff hu).mp hk').2.1

/-- **The old chain of a group** is the chain of its bucket at the start of the stretch. -/
theorem oldChain_eq (h : p.IsFresh hash log) (hu : u ∈ p.groups) :
    u.oldChain = log.chain hash p.first u.bucket.hash := by
  refine (h.layered hu).descending_oldChain.ext Log.descending_chain fun o => ?_
  rw [BucketUpdate.mem_oldChain, Log.mem_chain]
  exact exists_congr fun key => h.knows u hu key o

/-- **The new chain of a group** is the chain of its bucket at the end of the stretch. -/
theorem newChain_eq (h : p.IsFresh hash log) (hu : u ∈ p.groups) :
    u.newChain = log.chain hash p.last u.bucket.hash := by
  refine (h.layered hu).descending_newChain.ext Log.descending_chain fun o => ?_
  rw [BucketUpdate.mem_newChain, Log.mem_chain, ← exists_or]
  refine exists_congr fun key => ?_
  -- live at the end: put in place in the stretch, or live before and not touched in it
  rw [h.changes_iff hu, h.knows u hu, Log.isLive_iff h.describes.le, and_or_left]
  refine or_congr_right ?_
  rw [and_assoc]
  refine and_congr_right fun hhash => and_congr_right fun _ => ?_
  exact h.changes_eq_none_iff hu hhash

/-- **A bucket without a group keeps its chain.** -/
theorem chain_eq (h : p.IsFresh hash log) (hno : ∀ u ∈ p.groups, u.bucket.hash ≠ b) :
    log.chain hash p.last b = log.chain hash p.first b := by
  refine Log.descending_chain.ext Log.descending_chain fun o => ?_
  rw [Log.mem_chain, Log.mem_chain]
  refine exists_congr fun key => and_congr_right fun hhash => ?_
  have hquiet : ∀ (o : Offset) (removal : Bool), p.first ≤ o → o < p.last →
      log.entries[o]? ≠ some ⟨key, removal⟩ := by
    intro o removal hfirst hlast he
    obtain ⟨u, hu, ch, hch⟩ := h.describes.groups.exists_group key o removal hfirst hlast he
    exact hno u hu (((h.changes_iff hu).mp hch).1.symm.trans hhash)
  rw [Log.isLive_iff h.describes.le]
  constructor
  · intro hor
    rcases hor with ⟨hfirst, he, hlast, _⟩ | ⟨hlive, _⟩
    · exact absurd he (hquiet o false hfirst hlast)
    · exact hlive
  · exact fun hlive => .inr ⟨hlive, hquiet⟩

/-! ## What the writes amount to -/

/-- **Every write is right**: it writes what the log calls for at the end of the stretch. -/
theorem lastWrite_group (h : p.IsFresh hash log) (hu : u ∈ p.groups) (key : AttributeKey) :
    lastWrite u.writes key = none ∨
      lastWrite u.writes key = some (log.indexed hash p.last key) := by
  have hupdates := h.describes.groups.hasUpdates u hu
  cases key with
  | tableIndexOffset =>
      refine .inl (lastWrite_eq_none fun m hm => ?_)
      rcases (BucketUpdate.mem_writes hm).2 with hkey | ⟨o, _, hkey⟩ <;> rw [hkey] <;> simp
  | bucket b =>
      by_cases hb : b = u.bucket.hash
      · subst hb
        right
        rw [BucketUpdate.lastWrite_writes_bucket hupdates, (h.layered hu).newest_eq_head?,
          h.newChain_eq hu, Log.indexed]
      · refine .inl (lastWrite_eq_none fun m hm => ?_)
        rcases (BucketUpdate.mem_writes hm).2 with hkey | ⟨o, _, hkey⟩
        · rw [hkey]
          exact fun heq => hb (AttributeKey.bucket.inj heq).symm
        · rw [hkey]
          simp
  | backpointer o =>
      rw [BucketUpdate.lastWrite_writes_backpointer hupdates,
        BucketUpdate.lastWrite_linkMutations (h.layered hu), h.oldChain_eq hu, h.newChain_eq hu]
      split
      · exact .inl rfl
      · rename_i hne
        -- a link that changes belongs to an entry of one of the two chains
        have hupsert : log.HasUpsert hash u.bucket.hash o := by
          by_contra hno
          refine hne ?_
          rw [nextOlder_eq_none fun hmem => hno (Log.hasUpsert_of_mem_chain hmem),
            nextOlder_eq_none fun hmem => hno (Log.hasUpsert_of_mem_chain hmem)]
        obtain ⟨key, hhash, he⟩ := hupsert
        exact .inr (by rw [Log.indexed_backpointer he hhash])

/-- **Nothing is left out**: what no group writes does not change from the start of the stretch to
its end. -/
theorem indexed_eq_of_lastWrite (h : p.IsFresh hash log) {key : AttributeKey}
    (hkey : key ≠ .tableIndexOffset) (hno : ∀ u ∈ p.groups, lastWrite u.writes key = none) :
    log.indexed hash p.last key = log.indexed hash p.first key := by
  cases key with
  | tableIndexOffset => exact absurd rfl hkey
  | bucket b =>
      rw [Log.indexed, Log.indexed, h.chain_eq]
      intro u hu heq
      subst heq
      have hnone := hno u hu
      rw [BucketUpdate.lastWrite_writes_bucket (h.describes.groups.hasUpdates u hu)] at hnone
      exact absurd hnone (by simp)
  | backpointer o =>
      cases he : log.entries[o]? with
      | none => rw [Log.indexed, Log.indexed, he]; rfl
      | some e =>
          rw [Log.indexed_backpointer he rfl, Log.indexed_backpointer he rfl]
          by_cases hgroup : ∃ u ∈ p.groups, u.bucket.hash = hash e.key
          · obtain ⟨u, hu, hhash⟩ := hgroup
            have hnone := hno u hu
            rw [BucketUpdate.lastWrite_writes_backpointer (h.describes.groups.hasUpdates u hu),
              BucketUpdate.lastWrite_linkMutations (h.layered hu), h.oldChain_eq hu,
              h.newChain_eq hu, hhash] at hnone
            split at hnone
            · exact ‹_ = _›.symm
            · exact absurd hnone (by simp)
          · rw [h.chain_eq fun u hu hhash => hgroup ⟨u, hu, hhash⟩]

/-- **The writes of a fresh plan turn what is indexed at its start into what is indexed at its
end.** -/
theorem getD_lastWrite (h : p.IsFresh hash log) {key : AttributeKey}
    (hkey : key ≠ .tableIndexOffset) :
    (lastWrite p.writes key).getD (log.indexed hash p.first key) = log.indexed hash p.last key := by
  have hparts : ∀ part ∈ p.groups.map BucketUpdate.writes, lastWrite part key = none ∨
      lastWrite part key = some (log.indexed hash p.last key) := by
    intro part hpart
    obtain ⟨u, hu, rfl⟩ := List.mem_map.mp hpart
    exact h.lastWrite_group hu key
  unfold Plan.writes
  rcases lastWrite_flatten hparts with ⟨hnone, hall⟩ | hsome
  · rw [hnone, Option.getD_none, h.indexed_eq_of_lastWrite hkey]
    exact fun u hu => hall _ (List.mem_map_of_mem hu)
  · rw [hsome, Option.getD_some]

/-- **The batch of a fresh plan** succeeds on a segment that is indexed up to its start, and leaves
it indexed up to its end. -/
theorem apply (h : p.IsFresh hash s.log) (hs : s.Indexed hash p.first) :
    ∃ attributes, s.attributes.apply (p.writes ++ p.advance) = .ok attributes ∧
      attributes.Encoded ∧
      ∀ key, attributes.offset? key = s.log.indexed hash p.last key := by
  rw [apply_eq_foldlM]
  by_cases hlt : p.first < p.last
  · obtain ⟨a, hrun, hcheckpoint, ha⟩ := Plan.foldlM_write_of_lt hlt (hs.offset?_eq _)
    refine ⟨a, hrun, hs.encoded.foldlM_write hrun, fun key => ?_⟩
    by_cases hkey : key = .tableIndexOffset
    · rw [hkey, hcheckpoint, Log.indexed]
    · rw [ha key hkey, hs.offset?_eq, h.getD_lastWrite hkey]
  · obtain ⟨a, hrun, ha, hcheckpoint⟩ := Plan.foldlM_write_of_not_lt hlt s.attributes
    refine ⟨a, hrun, hs.encoded.foldlM_write hrun, fun key => ?_⟩
    by_cases hkey : key = .tableIndexOffset
    · have hsame : p.first = p.last := le_antisymm h.describes.le (not_lt.mp hlt)
      rw [hkey, hcheckpoint, hs.offset?_eq, Log.indexed, Log.indexed, hsame]
    · rw [ha key, hs.offset?_eq, h.getD_lastWrite hkey]

theorem mutations_eq_ok (h : p.IsFresh hash log) : p.mutations = .ok (p.writes ++ p.advance) :=
  Plan.mutations_eq_ok h.describes.le h.describes.isConsistent

theorem writeAttributes (h : p.IsFresh hash s.log) (hs : s.Indexed hash p.first)
    (hlast : p.last ≤ s.log.length) :
    (s.writeAttributes (p.writes ++ p.advance)).1 = .ok () ∧
      Since hash s p.first (s.writeAttributes (p.writes ++ p.advance)).2 p.last := by
  obtain ⟨attributes, happly, hencoded, hoffset⟩ := h.apply hs
  rw [hs.isWritable.writeAttributes_of_ok happly]
  exact ⟨rfl, { hs with encoded := hencoded, le_length := hlast, offset?_eq := hoffset },
    .refl _, h.describes.le⟩

/-- **Applying a fresh plan**, with nobody else there, indexes its stretch of the log. -/
theorem runApply (h : p.IsFresh hash s.log) (hs : s.Indexed hash p.first)
    (hlast : p.last ≤ s.log.length) (id : SegmentId) :
    (∃ n, (p.runApply id s).value = some (.ok n)) ∧
      Since hash s p.first (p.runApply id s).state p.last := by
  by_cases hne : p.writes ++ p.advance = []
  · -- an empty batch comes of an empty stretch
    have hsame : p.last = p.first :=
      le_antisymm (not_lt.mp fun hlt => Plan.ne_nil_of_lt hlt hne) h.describes.le
    obtain ⟨hvalue, hstate⟩ := Plan.runApply_of_mutations_nil id s (by rw [h.mutations_eq_ok, hne])
    rw [hvalue, hstate, hsame]
    exact ⟨⟨0, rfl⟩, .refl hs⟩
  · obtain ⟨hstate, hvalue⟩ := Plan.runApply_of_mutations_ok id s h.mutations_eq_ok hne
    obtain ⟨hreply, hsince⟩ := h.writeAttributes hs hlast
    rw [hvalue, hstate, hreply]
    exact ⟨⟨_, rfl⟩, hsince⟩

end Plan.IsFresh

end SegmentIndex
