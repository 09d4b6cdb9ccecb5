import Mathlib.Data.List.Perm.Subperm
import SegmentIndex.Proofs.Batch

/-!
# The links that a batch writes

The batch of one bucket writes a link exactly if it leads elsewhere in the new chain, and writes it
once (`Plan.writesTo_backpointer`). So the links that are taken away number as many as the replaced
entries, but for the oldest entry of the chain, which had none; and where two entries that stay are
neighbours, the link between them is left alone (`Plan.mutations_eq_ok_changed_links`).
-/

namespace SegmentIndex

open Attributes

/-! ## Links among entries -/

/-- Each of some entries leads to the next older one among them, and no other entry leads
anywhere. -/
def LinksAmong (entries : Offset → Prop) (link : Offset → Option Offset) : Prop :=
  ∀ o o', link o = some o' ↔
    entries o ∧ entries o' ∧ o' < o ∧ ∀ x, entries x → x < o → x ≤ o'

namespace BucketUpdate

variable {u : BucketUpdate}

/-- An entry of a key that is indexed in the bucket. -/
def IsIndexed (u : BucketUpdate) (o : Offset) : Prop := ∃ key : TableKey, u.existing[key]? = some o

/-- An entry that the bucket has after the batch: it is new and leaves its key in place, or it is
indexed and the batch does not change its key. -/
def Survives (u : BucketUpdate) (o : Offset) : Prop :=
  (∃ key : TableKey, u.changes[key]? = some ⟨o, false⟩) ∨
    ∃ key : TableKey, u.existing[key]? = some o ∧ u.changes[key]? = none

theorem isConsistent_iff_isIndexed :
    u.isConsistent ↔ (u.bucket.isOccupied ↔ ∃ o, u.IsIndexed o) := by
  have hindexed : (∃ o, u.IsIndexed o) ↔ u.existing.isEmpty = false :=
    exists_comm.trans Maps.isEmpty_eq_false_iff.symm
  unfold isConsistent
  rw [hindexed, bne_iff_ne]
  cases u.bucket.isOccupied <;> cases u.existing.isEmpty <;> simp

/-- What is indexed and stays is what the batch does not change. -/
theorem Layered.mem_keptChain_of_survives (h : u.Layered) {o : Offset} (ho : u.IsIndexed o)
    (hsurvives : u.Survives o) : o ∈ u.keptChain := by
  obtain ⟨k, hk⟩ := ho
  rcases hsurvives with ⟨k', hk'⟩ | hkept
  · exact absurd (h.above hk hk') (lt_irrefl o)
  · exact mem_keptChain.mpr hkept

end BucketUpdate

/-! ## The batch of one bucket -/

namespace Plan

/-- The plan that changes one bucket. -/
def ofBucket (u : BucketUpdate) (first last : Offset) : Plan := ⟨first, last, [u]⟩

variable {u : BucketUpdate} {first last : Offset}

theorem writes_ofBucket : (ofBucket u first last).writes = u.writes := by
  unfold Plan.writes ofBucket
  rw [List.map_singleton, List.flatten_singleton]

theorem mutations_ofBucket (hle : first ≤ last) (hu : u.isConsistent) :
    (ofBucket u first last).mutations = .ok (u.writes ++ (ofBucket u first last).advance) := by
  rw [mutations_eq_ok hle fun v hv => by rwa [List.mem_singleton.mp hv], writes_ofBucket]

/-- **Each link is written once if it changes, and not at all otherwise.** -/
theorem writesTo_backpointer (h : u.Layered) (hupdates : u.hasUpdates) (first last o : Offset) :
    writesTo (u.writes ++ (ofBucket u first last).advance) (.backpointer o)
      = if nextOlder u.oldChain o = nextOlder u.newChain o then []
        else [relink o (nextOlder u.newChain o)] := by
  have hadvance : writesTo (ofBucket u first last).advance (.backpointer o) = [] :=
    writesTo_eq_nil fun m hm => by simp [mem_advance hm, Mutation.replaceIfEquals]
  rw [writesTo_append, hadvance, List.append_nil, BucketUpdate.writesTo_writes_backpointer hupdates,
    BucketUpdate.writesTo_linkMutations h]

end Plan

/-! ## Entries that are replaced, and entries that stay -/

namespace BucketUpdate

variable {u : BucketUpdate}

/-- The keys that are indexed already and that the batch changes. -/
def replaced (u : BucketUpdate) : List KeyInfo :=
  u.existingKeys.filter fun info => u.isKeyUpdated info.key

theorem mem_replaced {info : KeyInfo} :
    info ∈ u.replaced ↔ info ∈ u.existingKeys ∧ u.isKeyUpdated info.key :=
  List.mem_filter

theorem offset_mem_oldChain {info : KeyInfo} (h : info ∈ u.existingKeys) :
    info.offset ∈ u.oldChain :=
  mem_oldChain.mpr ⟨info.key, mem_existingKeys.mp h⟩

/-- Replaced keys can be told apart by their entries. -/
theorem Layered.nodup_replaced (h : u.Layered) : (u.replaced.map (·.offset)).Nodup := by
  have hreplaced : u.replaced.Pairwise fun a b => a.key ≠ b.key :=
    u.pairwise_existingKeys.filter _
  refine List.pairwise_map.mpr (hreplaced.imp_of_mem fun {a b} ha hb hne heq => hne ?_)
  have ha := mem_existingKeys.mp (mem_replaced.mp ha).1
  have hb := mem_existingKeys.mp (mem_replaced.mp hb).1
  exact h.existing_inj ha (heq ▸ hb)

/-- A replaced entry is in no chain any more. -/
theorem Layered.nextOlder_newChain_of_replaced (h : u.Layered) {info : KeyInfo}
    (hinfo : info ∈ u.replaced) : nextOlder u.newChain info.offset = none := by
  obtain ⟨hexisting, hupdated⟩ := mem_replaced.mp hinfo
  have hexisting := mem_existingKeys.mp hexisting
  obtain ⟨ch, hch⟩ := isKeyUpdated_iff.mp hupdated
  refine nextOlder_eq_none fun hmem => ?_
  rcases mem_newChain.mp hmem with ⟨k, hk⟩ | ⟨k, hk, hno⟩
  · exact lt_irrefl _ (h.above hexisting hk)
  · rw [h.existing_inj hexisting hk, hno] at hch
    exact absurd hch (by simp)

/-- Two neighbours that stay are neighbours in the new chain. -/
theorem Layered.nextOlder_newChain_of_kept (h : u.Layered) {o o' : Offset}
    (ho : o ∈ u.keptChain) (ho' : o' ∈ u.keptChain) (hlink : nextOlder u.oldChain o = some o') :
    nextOlder u.newChain o = some o' := by
  obtain ⟨_, _, hlt, hgreatest⟩ := (nextOlder_eq_some_iff h.descending_oldChain).mp hlink
  rw [nextOlder_eq_some_iff h.descending_newChain]
  refine ⟨List.mem_append_right _ ho, List.mem_append_right _ ho', hlt, fun x hx hxo => ?_⟩
  rcases mem_newChain.mp hx with ⟨k, hk⟩ | ⟨k, hk, _⟩
  · -- what the batch brings lies above all entries of the old chain
    obtain ⟨k', hk', _⟩ := mem_keptChain.mp ho
    exact absurd hxo (lt_asymm (h.above hk' hk))
  · exact hgreatest x (mem_oldChain.mpr ⟨k, hk⟩) hxo

/-- An entry of the old chain has no link exactly if it is the oldest. -/
theorem Layered.nextOlder_oldChain_eq_none_iff (h : u.Layered) {info : KeyInfo}
    (hinfo : info ∈ u.existingKeys) :
    nextOlder u.oldChain info.offset = none ↔
      ∀ other ∈ u.existingKeys, info.offset ≤ other.offset := by
  constructor
  · intro hnone other hother
    exact le_of_nextOlder_eq_none h.descending_oldChain (offset_mem_oldChain hinfo)
      (offset_mem_oldChain hother) hnone
  · intro holdest
    rw [Option.eq_none_iff_forall_ne_some]
    intro o' ho'
    obtain ⟨_, hmem, hlt, _⟩ := (nextOlder_eq_some_iff h.descending_oldChain).mp ho'
    obtain ⟨k, hk⟩ := mem_oldChain.mp hmem
    exact absurd hlt (not_lt.mpr (holdest ⟨k, o'⟩ (mem_existingKeys.mpr hk)))

/-- A property that tells no two members apart holds of one of them or of none. -/
theorem countP_of_nodup_map {α β : Type} {f : α → β} {p : α → Prop} [DecidablePred p] {l : List α}
    (hl : (l.map f).Nodup) (hp : ∀ a ∈ l, ∀ b ∈ l, p a → p b → f a = f b) :
    l.countP p = if ∃ a ∈ l, p a then 1 else 0 := by
  induction l with
  | nil => rfl
  | cons a rest ih =>
      rw [List.map_cons, List.nodup_cons] at hl
      have ih := ih hl.2 fun b hb c hc =>
        hp b (List.mem_cons_of_mem _ hb) c (List.mem_cons_of_mem _ hc)
      rw [List.countP_cons, ih]
      by_cases ha : p a
      · have hrest : ¬∃ b ∈ rest, p b := by
          intro hex
          obtain ⟨b, hb, hpb⟩ := hex
          have heq := hp a List.mem_cons_self b (List.mem_cons_of_mem _ hb) ha hpb
          exact hl.1 (heq ▸ List.mem_map_of_mem hb)
        simp [ha, hrest]
      · simp [ha]

/-- The replaced entries with a link are all of them but the oldest entry of the chain. -/
theorem Layered.countP_nextOlder_replaced (h : u.Layered) :
    u.replaced.countP (fun info => nextOlder u.oldChain info.offset ≠ none)
      = u.replaced.length
        - if ∃ info ∈ u.replaced, ∀ other ∈ u.existingKeys, info.offset ≤ other.offset
          then 1 else 0 := by
  have holdest := countP_of_nodup_map h.nodup_replaced
    (p := fun info => ∀ other ∈ u.existingKeys, info.offset ≤ other.offset)
    fun a ha b hb hpa hpb =>
      le_antisymm (hpa b (mem_replaced.mp hb).1) (hpb a (mem_replaced.mp ha).1)
  have hcongr : u.replaced.countP (fun info => nextOlder u.oldChain info.offset ≠ none)
      = u.replaced.countP fun info =>
          ¬decide (∀ other ∈ u.existingKeys, info.offset ≤ other.offset) := by
    refine List.countP_congr fun info hinfo => ?_
    rw [decide_eq_true_eq, decide_eq_true_eq, decide_eq_true_eq, ne_eq,
      h.nextOlder_oldChain_eq_none_iff (mem_replaced.mp hinfo).1]
  have hsplit := List.length_eq_countP_add_countP (l := u.replaced)
    fun info => decide (∀ other ∈ u.existingKeys, info.offset ≤ other.offset)
  omega

/-! ## The links of a bucket before and after -/

theorem Layered.linksAmong_oldChain (h : u.Layered) :
    LinksAmong u.IsIndexed (nextOlder u.oldChain) := by
  intro o o'
  rw [nextOlder_eq_some_iff h.descending_oldChain]
  simp only [mem_oldChain, IsIndexed]

theorem Layered.linksAmong_newChain (h : u.Layered) :
    LinksAmong u.Survives (nextOlder u.newChain) := by
  intro o o'
  rw [nextOlder_eq_some_iff h.descending_newChain]
  simp only [mem_newChain, Survives]

end BucketUpdate

/-! ## The batch -/

namespace Plan

variable {u : BucketUpdate} {first last : Offset} {batch : List Mutation}

/-- Common members can be counted in either list, if they occur in neither of them twice. -/
theorem countP_mem_comm {α : Type} [DecidableEq α] {l₁ l₂ : List α}
    (h₁ : ∀ a ∈ l₂, l₁.count a ≤ 1) (h₂ : l₂.Nodup) :
    l₁.countP (· ∈ l₂) = l₂.countP (· ∈ l₁) := by
  have hnodup : (l₁.filter (· ∈ l₂)).Nodup := by
    refine List.nodup_iff_count_le_one.mpr fun a => ?_
    by_cases ha : a ∈ l₂
    · exact (List.filter_sublist.count_le a).trans (h₁ a ha)
    · have hnot : a ∉ l₁.filter (· ∈ l₂) := fun hmem =>
        ha (of_decide_eq_true (List.mem_filter.mp hmem).2)
      exact (List.count_eq_zero.mpr hnot).trans_le (Nat.zero_le 1)
  have hperm : (l₁.filter (· ∈ l₂)).Perm (l₂.filter (· ∈ l₁)) := by
    refine (List.perm_ext_iff_of_nodup hnodup (h₂.filter _)).mpr fun a => ?_
    rw [List.mem_filter, List.mem_filter, decide_eq_true_eq, decide_eq_true_eq, and_comm]
  rw [List.countP_eq_length_filter, List.countP_eq_length_filter, hperm.length_eq]

/-- **The links of replaced entries are taken away**, as far as they had any. -/
theorem countP_removals (h : u.Layered)
    (hbatch : ∀ o, writesTo batch (.backpointer o)
      = if nextOlder u.oldChain o = nextOlder u.newChain o then []
        else [relink o (nextOlder u.newChain o)]) :
    batch.countP (· ∈ u.replaced.map fun info => relink info.offset none)
      = u.replaced.countP fun info => nextOlder u.oldChain info.offset ≠ none := by
  have hwrites : ∀ info ∈ u.replaced, writesTo batch (.backpointer info.offset)
      = if nextOlder u.oldChain info.offset = none then [] else [relink info.offset none] := by
    intro info hinfo
    rw [hbatch, h.nextOlder_newChain_of_replaced hinfo]
  have honce : ∀ m ∈ u.replaced.map fun info => relink info.offset none, batch.count m ≤ 1 := by
    intro m hm
    obtain ⟨info, hinfo, rfl⟩ := List.mem_map.mp hm
    have hcount : (writesTo batch (.backpointer info.offset)).count (relink info.offset none)
        = batch.count (relink info.offset none) := List.count_filter (decide_eq_true rfl)
    refine hcount.symm.trans_le (List.count_le_length.trans ?_)
    rw [hwrites info hinfo]
    split
    · exact Nat.zero_le 1
    · exact le_refl 1
  have hnodup : (u.replaced.map fun info => relink info.offset none).Nodup := by
    refine List.pairwise_map.mpr ((List.pairwise_map.mp h.nodup_replaced).imp fun hne heq => hne ?_)
    exact AttributeKey.backpointer.inj (congrArg Mutation.key heq)
  rw [countP_mem_comm honce hnodup, List.countP_map]
  refine List.countP_congr fun info hinfo => ?_
  have hmem : relink info.offset none ∈ batch ↔
      relink info.offset none ∈ writesTo batch (.backpointer info.offset) :=
    (mem_writesTo.trans (and_iff_left rfl)).symm
  rw [Function.comp_apply, decide_eq_true_eq, decide_eq_true_eq, hmem, hwrites info hinfo]
  by_cases hlink : nextOlder u.oldChain info.offset = none <;> simp [hlink]

/-- **A batch writes exactly the links that change.** An entry whose link is to lead elsewhere gets
one write, which says where, and no other entry gets any. So the replaced entries lose one link
each, but for the oldest entry of the bucket, which has none to lose; and an entry that stays right
above another one that stays keeps its link without a write. -/
theorem mutations_eq_ok_changed_links (h : u.Layered) (hupdates : u.hasUpdates)
    (hbucket : u.bucket.isOccupied ↔ ∃ o, u.IsIndexed o) (hle : first ≤ last) :
    ∃ (batch : List Mutation) (old new : Offset → Option Offset),
      (ofBucket u first last).mutations = .ok batch ∧
      LinksAmong u.IsIndexed old ∧ LinksAmong u.Survives new ∧
      (∀ o, writesTo batch (.backpointer o)
        = if old o = new o then [] else [.replace (.backpointer o) (new o)]) ∧
      batch.countP (· ∈ u.replaced.map fun info => .replace (.backpointer info.offset) none)
        = u.replaced.length
          - (if ∃ info ∈ u.replaced, ∀ other ∈ u.existingKeys, info.offset ≤ other.offset
            then 1 else 0) ∧
      ∀ o o', u.IsIndexed o ∧ u.Survives o → u.IsIndexed o' ∧ u.Survives o' → old o = some o' →
        writesTo batch (.backpointer o) = [] := by
  have hconsistent := BucketUpdate.isConsistent_iff_isIndexed.mpr hbucket
  have hwrites := writesTo_backpointer h hupdates first last
  refine ⟨_, _, _, mutations_ofBucket hle hconsistent, h.linksAmong_oldChain, h.linksAmong_newChain,
    hwrites, (countP_removals h hwrites).trans h.countP_nextOlder_replaced, ?_⟩
  intro o o' ho ho' hlink
  have ho := h.mem_keptChain_of_survives ho.1 ho.2
  have ho' := h.mem_keptChain_of_survives ho'.1 ho'.2
  rw [hwrites, hlink, h.nextOlder_newChain_of_kept ho ho' hlink, if_pos rfl]

/-- A bucket with four entries, of which the batch replaces the oldest and removes the third. -/
def sampleBucket : BucketUpdate :=
  [⟨⟨.clamp 50, false⟩, ⟨[97]⟩⟩, ⟨⟨.clamp 60, true⟩, ⟨[99]⟩⟩].foldl BucketUpdate.withKeyUpdate
    ([⟨⟨[97]⟩, .clamp 10⟩, ⟨⟨[98]⟩, .clamp 20⟩, ⟨⟨[99]⟩, .clamp 30⟩, ⟨⟨[100]⟩, .clamp 40⟩].foldl
      BucketUpdate.withExistingKey (.empty ⟨default, some (.clamp 40)⟩))

theorem layered_sampleBucket : sampleBucket.Layered := by decide +kernel

theorem hasUpdates_sampleBucket : sampleBucket.hasUpdates := by decide +kernel

theorem isOccupied_sampleBucket :
    sampleBucket.bucket.isOccupied ↔ ∃ o, sampleBucket.IsIndexed o := by
  have hindexed : sampleBucket.IsIndexed (.clamp 10) := ⟨⟨[97]⟩, by decide +kernel⟩
  exact ⟨fun _ => ⟨_, hindexed⟩, fun _ => by decide +kernel⟩

/-- Of the two replaced entries only one had a link to lose. -/
theorem mutations_eq_ok_changed_links_sample :
    (sampleBucket.Layered ∧ sampleBucket.hasUpdates ∧
      (sampleBucket.bucket.isOccupied ↔ ∃ o, sampleBucket.IsIndexed o)) ∧
    ∃ batch, (ofBucket sampleBucket (.clamp 50) (.clamp 61)).mutations = .ok batch ∧
      batch.countP (· ∈ [.replace (.backpointer (.clamp 10)) none,
        .replace (.backpointer (.clamp 30)) none]) = 1 := by
  obtain ⟨batch, _, _, hok, _, _, _, hcount, _⟩ :=
    mutations_eq_ok_changed_links layered_sampleBucket hasUpdates_sampleBucket
      isOccupied_sampleBucket (show Offset.clamp 50 ≤ .clamp 61 by decide)
  refine ⟨⟨layered_sampleBucket, hasUpdates_sampleBucket, isOccupied_sampleBucket⟩, batch, hok, ?_⟩
  have hreplaced : sampleBucket.replaced = [⟨⟨[97]⟩, .clamp 10⟩, ⟨⟨[99]⟩, .clamp 30⟩] := by
    decide +kernel
  have holdest : ∃ info ∈ sampleBucket.replaced,
      ∀ other ∈ sampleBucket.existingKeys, info.offset ≤ other.offset := by
    decide +kernel
  rw [if_pos holdest, hreplaced] at hcount
  exact hcount

end Plan

end SegmentIndex
