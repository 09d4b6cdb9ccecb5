import Mathlib
import SegmentIndex.Proofs.Outcomes

/-!
# The order of the buckets does not matter

The attributes that a batch may write are the heads of its buckets, the links of the entries that
they speak of, and the checkpoint (`Plan.attributes`). If the buckets are different ones and no
entry is spoken of twice, each of these attributes is written at most once, whatever kept and
replaced entries a bucket mixes: the mutations of a bucket run through its entries
(`BucketUpdate.keys_writes_subperm`). So batches for the same buckets in another order are the same
mutations in another order, and no two of them get in each other's way
(`Plan.mutations_of_perm`).
-/

namespace SegmentIndex

open Attributes

/-! ## Different attributes are written independently -/

namespace Attributes

theorem set_comm (a : Attributes) {key key' : AttributeKey} (hne : key ≠ key')
    (x x' : Option Offset) : (a.set key x).set key' x' = (a.set key' x').set key x := by
  refine Std.ExtTreeMap.ext_getElem? fun i => ?_
  unfold set
  simp only [Maps.getElem?_insert]
  by_cases hi : key.toId = i
  · have hi' : key'.toId ≠ i := fun h => hne (AttributeKey.toId_inj.mp (hi.trans h.symm))
    simp only [if_pos hi, if_neg hi']
  · simp only [if_neg hi]

variable {batch batch' : List Mutation}

theorem foldlM_write_eq_foldl (h : ∀ m ∈ batch, m.condition = .always) (a : Attributes) :
    batch.foldlM write a = .ok (batch.foldl (fun a m => a.set m.key m.value) a) := by
  induction batch generalizing a with
  | nil => rfl
  | cons m rest ih =>
      have hm : a.write m = .ok (a.set m.key m.value) := by
        rw [write, h m List.mem_cons_self]
      rw [List.foldlM_cons, hm, List.foldl_cons]
      exact ih (fun m hm => h m (List.mem_cons_of_mem _ hm)) _

/-- **Writes without conditions to different attributes** can be made in any order. -/
theorem foldlM_write_perm (h : ∀ m ∈ batch, m.condition = .always)
    (hkeys : (batch.map (·.key)).Nodup) (hperm : batch.Perm batch') (a : Attributes) :
    batch.foldlM write a = batch'.foldlM write a := by
  have h' : ∀ m ∈ batch', m.condition = .always := fun m hm => h m (hperm.mem_iff.mpr hm)
  rw [foldlM_write_eq_foldl h, foldlM_write_eq_foldl h']
  refine congrArg Except.ok (hperm.foldl_eq' (fun m hm m' hm' a => ?_) a)
  by_cases hkey : m.key = m'.key
  · rw [List.inj_on_of_nodup_map hkeys hm hm' hkey]
  · exact a.set_comm hkey _ _

end Attributes

/-! ## The attributes that a batch may write -/

/-- The links that the walk writes are links of its entries, in their order. -/
theorem keys_relinkChain_sublist (below : Option Bool) (kept : Option Offset)
    (l : List (Offset × Bool)) :
    ((relinkChain below kept l).map (·.key)).Sublist (l.map fun p => .backpointer p.1) := by
  induction l generalizing below kept with
  | nil => exact .refl _
  | cons p rest ih =>
      obtain ⟨entry, replaced⟩ := p
      have hentry : ((entryWrites below kept entry replaced).map (·.key)).Sublist
          [.backpointer entry] := by
        unfold entryWrites
        split
        · exact List.nil_sublist _
        · exact .refl _
        · exact .refl _
        · exact List.nil_sublist _
      rw [relinkChain_cons, List.map_append]
      exact hentry.append (ih _ _)

theorem keys_linkNew_sublist (older : Option Offset) (l : List Offset) :
    ((linkNew older l).map (·.key)).Sublist (l.map .backpointer) := by
  induction l generalizing older with
  | nil => cases older <;> exact .refl _
  | cons entry rest ih =>
      cases older with
      | none => exact (ih (some entry)).cons _
      | some below => exact (ih (some entry)).cons_cons _

namespace BucketUpdate

variable {u : BucketUpdate}

/-- The entries that an update speaks of: those of the keys that are indexed, and those of all
changes, removals included. -/
def entries (u : BucketUpdate) : List Offset :=
  u.existingKeys.map (·.offset) ++ u.keyUpdates.map (·.offset)

/-- **The mutations for a bucket** write its head and links of entries that the update speaks of,
none of them more often than it speaks of the entry. -/
theorem keys_writes_subperm (u : BucketUpdate) :
    (u.writes.map (·.key)).Subperm (u.entries.map .backpointer ++ [.bucket u.bucket.hash]) := by
  have hold : (u.markedChain.map (·.1)).Perm (u.existingKeys.map (·.offset)) := by
    unfold markedChain existingByOffset
    rw [List.map_map]
    exact (List.mergeSort_perm _ _).map _
  have hnew : (u.survivingByOffset.map (·.offset)).Subperm (u.keyUpdates.map (·.offset)) := by
    have hperm : (u.survivingByOffset.map (·.offset)).Perm (u.surviving.map (·.offset)) :=
      (List.mergeSort_perm _ _).map _
    exact hperm.subperm.trans (List.filter_sublist.map _).subperm
  have hlinks : (u.linkMutations.map (·.key)).Subperm (u.entries.map .backpointer) := by
    unfold linkMutations entries
    rw [List.map_append, List.map_append]
    refine List.Subperm.append ?_ ?_
    · have hsub := (keys_relinkChain_sublist none none u.markedChain).subperm
      have hmap := (hold.map AttributeKey.backpointer).subperm
      rw [List.map_map] at hmap
      exact hsub.trans hmap
    · have hmap := List.Subperm.map (fun _ _ => AttributeKey.backpointer.inj) hnew
      exact (keys_linkNew_sublist _ _).subperm.trans hmap
  unfold writes
  split
  · rw [List.map_append]
    exact hlinks.append (.refl _)
  · exact List.nil_subperm

end BucketUpdate

/-- What holds of each part holds of the whole. -/
theorem flatMap_subperm {α β : Type} {f g : α → List β} {l : List α}
    (h : ∀ a ∈ l, (f a).Subperm (g a)) : (l.flatMap f).Subperm (l.flatMap g) := by
  induction l with
  | nil => exact .refl _
  | cons a rest ih =>
      rw [List.flatMap_cons, List.flatMap_cons]
      exact (h a List.mem_cons_self).append (ih fun b hb => h b (List.mem_cons_of_mem _ hb))

namespace Plan

/-- Different buckets, and no entry that is spoken of twice. -/
structure AreSeparate (groups : List BucketUpdate) : Prop where
  buckets : (groups.map (·.bucket.hash)).Nodup
  entries : (groups.flatMap BucketUpdate.entries).Nodup

variable {p : Plan} {groups gs gs' : List BucketUpdate} {first last : Offset}
  {batch batch' : List Mutation}

/-- The attributes that a plan may write: the links of the entries that it speaks of, the heads of
its buckets, and the checkpoint. -/
def attributes (p : Plan) : List AttributeKey :=
  (p.groups.flatMap BucketUpdate.entries).map .backpointer
    ++ p.groups.map (.bucket ·.bucket.hash) ++ [.tableIndexOffset]

theorem nodup_attributes (h : AreSeparate p.groups) : p.attributes.Nodup := by
  have hlinks : ((p.groups.flatMap BucketUpdate.entries).map AttributeKey.backpointer).Nodup :=
    h.entries.map fun _ _ => AttributeKey.backpointer.inj
  have hheads : (p.groups.map fun u => AttributeKey.bucket u.bucket.hash).Nodup := by
    have hmap := h.buckets.map (f := AttributeKey.bucket) fun _ _ => AttributeKey.bucket.inj
    rwa [List.map_map] at hmap
  unfold attributes
  rw [List.nodup_append, List.nodup_append]
  refine ⟨⟨hlinks, hheads, ?_⟩, List.nodup_singleton _, ?_⟩
  · intro key hkey key' hkey'
    obtain ⟨o, _, rfl⟩ := List.mem_map.mp hkey
    obtain ⟨u, _, rfl⟩ := List.mem_map.mp hkey'
    simp
  · intro key hkey key' hkey'
    obtain rfl := List.mem_singleton.mp hkey'
    rcases List.mem_append.mp hkey with hkey | hkey
    · obtain ⟨o, _, rfl⟩ := List.mem_map.mp hkey
      simp
    · obtain ⟨u, _, rfl⟩ := List.mem_map.mp hkey
      simp

/-- **A batch writes attributes of its plan**, each of them as often as the plan has it. -/
theorem keys_mutations_subperm (h : p.mutations = .ok batch) :
    (batch.map (·.key)).Subperm p.attributes := by
  obtain ⟨_, rfl⟩ := eq_of_mutations h
  have hwrites : (p.writes.map (·.key)).Subperm
      ((p.groups.flatMap BucketUpdate.entries).map .backpointer
        ++ p.groups.map (.bucket ·.bucket.hash)) := by
    have heach := flatMap_subperm (l := p.groups) fun u _ => u.keys_writes_subperm
    have hperm := List.flatMap_append_perm p.groups
      (fun u => u.entries.map AttributeKey.backpointer) fun u => [.bucket u.bucket.hash]
    have hkeys : p.writes.map (·.key) = p.groups.flatMap fun u => u.writes.map (·.key) := by
      rw [Plan.writes, List.map_flatten, List.map_map]
      rfl
    rw [hkeys, List.map_flatMap, List.map_eq_flatMap (l := p.groups)]
    exact heach.trans hperm.symm.subperm
  have hadvance : (p.advance.map (·.key)).Sublist [.tableIndexOffset] := by
    unfold advance
    split
    · exact .refl _
    · exact List.nil_sublist _
  rw [List.map_append]
  exact hwrites.append hadvance.subperm

theorem nodup_keys_mutations (h : AreSeparate p.groups) (hbatch : p.mutations = .ok batch) :
    (batch.map (·.key)).Nodup := by
  obtain ⟨keys, hperm, hsub⟩ := keys_mutations_subperm hbatch
  exact hperm.nodup_iff.mp ((nodup_attributes h).sublist hsub)

/-! ## The same buckets in another order -/

theorem AreSeparate.perm (h : AreSeparate groups) (hperm : groups.Perm gs) : AreSeparate gs where
  buckets := (hperm.map _).nodup_iff.mp h.buckets
  entries := (hperm.flatMap_right _).nodup_iff.mp h.entries

theorem attributes_perm (hperm : groups.Perm gs) :
    (Plan.mk first last groups).attributes.Perm (Plan.mk first last gs).attributes :=
  (((hperm.flatMap_right _).map _).append (hperm.map _)).append_right _

theorem isRefused_perm (hperm : groups.Perm gs) :
    (Plan.mk first last groups).IsRefused ↔ (Plan.mk first last gs).IsRefused := by
  unfold IsRefused
  exact or_congr_right (exists_congr fun u => and_congr_left fun _ => hperm.mem_iff)

theorem writes_perm (hperm : gs.Perm gs') :
    (Plan.mk first last gs).writes.Perm (Plan.mk first last gs').writes := by
  unfold Plan.writes
  rw [← List.flatMap_def, ← List.flatMap_def]
  exact hperm.flatMap_right _

/-- Batches for the same buckets do the same to all attributes: what they write without condition
is written to different attributes, and the checkpoint comes last in both. -/
theorem apply_perm (h : AreSeparate gs) (hperm : gs.Perm gs')
    (hbatch : (Plan.mk first last gs).mutations = .ok batch)
    (hbatch' : (Plan.mk first last gs').mutations = .ok batch') (a : Attributes) :
    a.apply batch = a.apply batch' := by
  have hkeys := nodup_keys_mutations h hbatch
  obtain ⟨_, rfl⟩ := eq_of_mutations hbatch
  obtain ⟨_, rfl⟩ := eq_of_mutations hbatch'
  rw [List.map_append] at hkeys
  have hwrites := foldlM_write_perm (fun m hm => (mem_writes hm).1) hkeys.of_append_left
    (writes_perm hperm) a
  rw [apply_eq_foldlM, apply_eq_foldlM, List.foldlM_append, List.foldlM_append, hwrites]
  rfl

end Plan

theorem Segment.writeAttributes_congr {s : Segment} {batch batch' : List Mutation}
    (h : s.attributes.apply batch = s.attributes.apply batch') :
    s.writeAttributes batch = s.writeAttributes batch' := by
  unfold writeAttributes
  rw [h]

theorem Segment.getElem?_writeAttributes_of_not_mem (s : Segment) {batch : List Mutation}
    {i : AttributeId} (h : ∀ m ∈ batch, m.key.toId ≠ i) :
    (s.writeAttributes batch).2.attributes[i]? = s.attributes[i]? := by
  rcases s.writeAttributes_cases batch with ⟨a, happly, heq⟩ | ⟨_, _, hunaltered⟩
  · rw [apply_eq_foldlM] at happly
    rw [heq]
    exact getElem?_foldlM_write_of_not_mem happly h
  · rw [hunaltered.attributes]

namespace Plan

variable {groups : List BucketUpdate}

/-- **The order of the buckets does not matter**, if they are different ones and no entry is spoken
of twice. The buckets are refused in every order or in none. If they are not, each batch writes
every attribute at most once, and none but links of the entries that are spoken of, the heads of
the buckets, and the checkpoint; and in all orders the batch has the same result and leaves the same
segment. -/
theorem mutations_of_perm (h : AreSeparate groups) (first last : Offset) :
    ((∀ gs, groups.Perm gs → ∃ cause, (Plan.mk first last gs).mutations = .error cause) ∨
      ∀ gs, groups.Perm gs → ∃ batch, (Plan.mk first last gs).mutations = .ok batch) ∧
    ∀ gs gs' batch batch', groups.Perm gs → groups.Perm gs' →
      (Plan.mk first last gs).mutations = .ok batch →
      (Plan.mk first last gs').mutations = .ok batch' →
      (batch.map (·.key)).Nodup ∧
      ∀ s : Segment, s.writeAttributes batch = s.writeAttributes batch' ∧
        ∀ i : AttributeId, (∀ key ∈ (Plan.mk first last groups).attributes, key.toId ≠ i) →
          (s.writeAttributes batch).2.attributes[i]? = s.attributes[i]? := by
  constructor
  · by_cases hrefused : (Plan.mk first last groups).IsRefused
    · exact .inl fun gs hperm =>
        exists_mutations_eq_error_iff.mpr ((isRefused_perm hperm).mp hrefused)
    · exact .inr fun gs hperm => exists_mutations_eq_ok ((isRefused_perm hperm).not.mp hrefused)
  · intro gs gs' batch batch' hperm hperm' hbatch hbatch'
    have hgs := h.perm hperm
    have hsame := apply_perm hgs (hperm.symm.trans hperm') hbatch hbatch'
    refine ⟨nodup_keys_mutations hgs hbatch, fun s => ⟨Segment.writeAttributes_congr (hsame _), ?_⟩⟩
    intro i hi
    refine s.getElem?_writeAttributes_of_not_mem fun m hm => hi m.key ?_
    exact (attributes_perm hperm).mem_iff.mpr
      ((keys_mutations_subperm hbatch).subset (List.mem_map_of_mem hm))

/-- A second bucket, with one entry that is removed and one that is new. -/
def otherBucket : BucketUpdate :=
  [⟨⟨.clamp 52, false⟩, ⟨[98]⟩⟩, ⟨⟨.clamp 56, true⟩, ⟨[100]⟩⟩].foldl BucketUpdate.withKeyUpdate
    ((BucketUpdate.empty ⟨⟨1⟩, some (.clamp 45)⟩).withExistingKey ⟨⟨[100]⟩, .clamp 45⟩)

/-- The two buckets give two different batches, which do the same. -/
theorem mutations_of_perm_sample :
    AreSeparate [sampleBucket, otherBucket] ∧ ∃ batch batch',
      (Plan.mk (.clamp 50) (.clamp 70) [sampleBucket, otherBucket]).mutations = .ok batch ∧
      (Plan.mk (.clamp 50) (.clamp 70) [otherBucket, sampleBucket]).mutations = .ok batch' ∧
      batch ≠ batch' ∧
      ∀ s : Segment, s.writeAttributes batch = s.writeAttributes batch' := by
  have hseparate : AreSeparate [sampleBucket, otherBucket] := ⟨by decide +kernel, by decide +kernel⟩
  have hle : Offset.clamp 50 ≤ .clamp 70 := by decide
  have hbatch := mutations_eq_ok (p := ⟨_, _, [sampleBucket, otherBucket]⟩) hle (by decide +kernel)
  have hbatch' := mutations_eq_ok (p := ⟨_, _, [otherBucket, sampleBucket]⟩) hle (by decide +kernel)
  obtain ⟨_, hsame⟩ := mutations_of_perm hseparate (.clamp 50) (.clamp 70)
  have hboth := hsame _ _ _ _ (.refl _) (.swap _ _ _) hbatch hbatch'
  exact ⟨hseparate, _, _, hbatch, hbatch', by decide_cbv, fun s => (hboth.2 s).1⟩

end Plan

end SegmentIndex
