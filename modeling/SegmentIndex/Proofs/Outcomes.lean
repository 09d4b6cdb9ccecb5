import SegmentIndex.Proofs.LinkChanges
import SegmentIndex.Proofs.OneByOne
import SegmentIndex.Proofs.Serving

/-!
# All that can come of applying a plan

A plan is refused for what it says (`Plan.IsRefused`), and then nobody is called, not even a segment
that is about to fail. A plan that says nothing (`Plan.IsIdle`) calls nobody either. Every other
plan is one batch, and from there on the segment decides: it fails as ordered, or it is sealed, or
the checkpoint has moved, or the batch goes through. These are all the cases there are
(`Plan.runApply_outcomes`).
-/

namespace SegmentIndex

open Attributes

/-! ## Refused plans and idle plans -/

/-- The batch changes something in the bucket, and the bucket has a head but no known keys, or known
keys but no head. -/
def BucketUpdate.IsMismatched (u : BucketUpdate) : Prop :=
  u.hasUpdates ∧ (u.bucket.isOccupied ↔ u.existing.size = 0)

/-- The plan goes backwards, or gets a bucket wrong that it changes. -/
def Plan.IsRefused (p : Plan) : Prop :=
  p.last < p.first ∨ ∃ u ∈ p.groups, u.IsMismatched

/-- The plan changes no bucket, and the checkpoint is to stay. -/
def Plan.IsIdle (p : Plan) : Prop :=
  (∀ u ∈ p.groups, ¬u.hasUpdates) ∧ p.first = p.last

namespace BucketUpdate

variable {u : BucketUpdate}

theorem isMismatched_iff : u.IsMismatched ↔ u.hasUpdates ∧ u.isConsistent = false := by
  have hsize : u.existing.size = 0 ↔ u.existing.isEmpty := by
    rw [Std.ExtTreeMap.isEmpty_eq_size_beq_zero, beq_iff_eq]
  unfold IsMismatched isConsistent
  rw [hsize]
  cases u.bucket.isOccupied <;> cases u.existing.isEmpty <;> simp

theorem exists_mutations_eq_error_iff :
    (∃ cause, u.mutations = .error cause) ↔ u.IsMismatched := by
  rw [isMismatched_iff]
  unfold mutations
  cases u.hasUpdates with
  | false => simp
  | true => cases u.isConsistent <;> simp

theorem writes_ne_nil (h : u.hasUpdates) : u.writes ≠ [] := by
  unfold writes
  rw [if_pos h]
  simp

end BucketUpdate

/-- Going through a list fails exactly if it fails for a member. -/
theorem exists_mapM_eq_error_iff {ε α β : Type} {f : α → Except ε β} {l : List α} :
    (∃ e, l.mapM f = .error e) ↔ ∃ a ∈ l, ∃ e, f a = .error e := by
  rw [← List.mapM'_eq_mapM]
  induction l with
  | nil => simp [pure, Except.pure]
  | cons a rest ih =>
      rw [List.mapM'_cons, List.exists_mem_cons_iff, ← ih]
      cases f a with
      | error e => simp [bind, Except.bind]
      | ok b => cases rest.mapM' f <;> simp [bind, Except.bind, pure, Except.pure]

namespace Plan

variable {p : Plan} {s : Segment} {batch : List Mutation}

theorem exists_mutations_eq_error_iff : (∃ cause, p.mutations = .error cause) ↔ p.IsRefused := by
  have hgroups : (∃ cause, p.groups.mapM BucketUpdate.mutations = .error cause) ↔
      ∃ u ∈ p.groups, u.IsMismatched :=
    exists_mapM_eq_error_iff.trans
      (exists_congr fun _ => and_congr_right fun _ => BucketUpdate.exists_mutations_eq_error_iff)
  unfold IsRefused mutations
  rw [← hgroups]
  split
  · rename_i hlt
    exact ⟨fun _ => .inl hlt, fun _ => ⟨_, rfl⟩⟩
  · rename_i hle
    rw [or_iff_right hle]
    cases p.groups.mapM BucketUpdate.mutations <;> simp [bind, Except.bind, pure, Except.pure]

theorem exists_mutations_eq_ok (h : ¬p.IsRefused) : ∃ batch, p.mutations = .ok batch := by
  cases hbatch : p.mutations with
  | error cause => exact absurd (exists_mutations_eq_error_iff.mp ⟨cause, hbatch⟩) h
  | ok batch => exact ⟨batch, rfl⟩

theorem eq_nil_iff_isIdle (h : p.mutations = .ok batch) : batch = [] ↔ p.IsIdle := by
  obtain ⟨hle, rfl⟩ := eq_of_mutations h
  rw [List.append_eq_nil_iff, Plan.writes, List.flatten_eq_nil_iff]
  refine and_congr ⟨?_, ?_⟩ ?_
  · intro hnil u hu hupdates
    exact BucketUpdate.writes_ne_nil hupdates (hnil _ (List.mem_map_of_mem hu))
  · intro hidle ms hms
    obtain ⟨u, hu, rfl⟩ := List.mem_map.mp hms
    exact if_neg (hidle u hu)
  · unfold advance
    split
    · rename_i hlt
      simp [hlt.ne]
    · rename_i hnot
      simp [le_antisymm hle (not_lt.mp hnot)]

/-! ## The calls of applying a plan -/

theorem calls_apply_of_mutations_error (id : SegmentId) {cause : ContractViolation}
    (h : p.mutations = .error cause) : (p.apply id).run.calls Segment.serve s = [] := by
  rw [apply_of_mutations_error id h]
  rfl

theorem calls_apply_of_mutations_nil (id : SegmentId) (h : p.mutations = .ok []) :
    (p.apply id).run.calls Segment.serve s = [] := by
  rw [apply_of_mutations_nil id h]
  rfl

theorem calls_apply_of_mutations_ok (id : SegmentId) (h : p.mutations = .ok batch)
    (hne : batch ≠ []) :
    (p.apply id).run.calls Segment.serve s = [.writeAttributes batch] := by
  have hfinish : ∀ reply s', (p.finish id batch.length reply).calls Segment.serve s' = [] := by
    intro reply s'
    cases reply with
    | ok u => rfl
    | error e =>
        unfold finish
        dsimp only
        split <;> rfl
  rw [apply_of_mutations_ok id h hne]
  exact congrArg (_ :: ·) (hfinish _ _)

end Plan

/-! ## What a batch leaves behind -/

namespace Attributes

variable {a a' : Attributes} {batch : List Mutation}

/-- The attributes after a batch that has gone through: each attribute that it names holds what it
is given last, and under all other ids nothing has changed. -/
structure AfterBatch (a : Attributes) (batch : List Mutation) (a' : Attributes) : Prop where
  named : ∀ before m after, batch = before ++ m :: after → (∀ m' ∈ after, m'.key ≠ m.key) →
    a'.get? m.key = some (Offset.encode m.value)
  others : ∀ i : AttributeId, (∀ m ∈ batch, m.key.toId ≠ i) → a'[i]? = a[i]?

/-- **A batch writes nothing that none of its mutations names**, whatever the id stands for. -/
theorem getElem?_foldlM_write_of_not_mem (hrun : batch.foldlM write a = .ok a') {i : AttributeId}
    (h : ∀ m ∈ batch, m.key.toId ≠ i) : a'[i]? = a[i]? := by
  induction batch generalizing a with
  | nil => rw [← Except.ok.inj hrun]
  | cons m rest ih =>
      rw [List.foldlM_cons] at hrun
      cases hm : a.write m with
      | error e =>
          rw [hm] at hrun
          exact absurd hrun (by simp [bind, Except.bind])
      | ok a₁ =>
          rw [hm] at hrun
          rw [ih hrun fun m' hm' => h m' (List.mem_cons_of_mem _ hm')]
          rcases eq_or_eq_set_of_write hm with rfl | rfl
          · rfl
          · rw [set, Maps.getElem?_insert, if_neg (h m List.mem_cons_self)]

theorem afterBatch_of_foldlM_write (h : ∀ m ∈ batch, m.condition ≠ .absent)
    (hrun : batch.foldlM write a = .ok a') : a.AfterBatch batch a' where
  named before m after hsplit hlast := by
    have hwrite : lastWrite batch m.key = some m.value := by
      rw [hsplit, lastWrite_append, lastWrite, lastWrite_eq_none hlast, if_pos rfl]
      rfl
    rw [get?_foldlM_write h hrun, hwrite]
    rfl
  others _ hi := getElem?_foldlM_write_of_not_mem hrun hi

end Attributes

/-! ## The outcomes -/

namespace Plan

/-- The checkpoint is where the plan needs it, if the plan is to move it. -/
def Fits (p : Plan) (s : Segment) : Prop := p.first < p.last → s.checkpoint = some p.first

/-- The plan comes to a batch with something in it. -/
structure Submits (p : Plan) (batch : List Mutation) : Prop where
  not_isRefused : ¬p.IsRefused
  not_isIdle : ¬p.IsIdle
  mutations : p.mutations = .ok batch
  ne_nil : batch ≠ []

/-- What applying a plan to a segment comes to: the calls, the result, and the segment after it. -/
inductive Outcome (p : Plan) (s : Segment) :
    List Call → Except IndexError Nat → Segment → Prop where
  /-- The plan is refused for what it says, and nobody is called. -/
  | refused {cause : ContractViolation} :
      p.IsRefused → p.Outcome s [] (.error (.contractViolation cause)) s
  /-- The plan says nothing, and nobody is called. -/
  | idle : ¬p.IsRefused → p.IsIdle → p.Outcome s [] (.ok 0) s
  /-- The segment fails as ordered, sealed or not. -/
  | failed {batch : List Mutation} {e : StoreError} : p.Submits batch →
      s.pendingWriteFailure = some e →
      p.Outcome s [.writeAttributes batch] (.error (.store e))
        { s with pendingWriteFailure := none }
  | sealed {batch : List Mutation} : p.Submits batch → s.pendingWriteFailure = none → s.isSealed →
      p.Outcome s [.writeAttributes batch] (.error (.store (.segmentSealed s.id))) s
  | stale {batch : List Mutation} : p.Submits batch → s.IsWritable →
      p.first < p.last → s.checkpoint ≠ some p.first →
      p.Outcome s [.writeAttributes batch]
        (.error (.checkpointConflict p.first s.checkpoint)) s
  | applied {batch : List Mutation} {a : Attributes} : p.Submits batch → s.IsWritable → p.Fits s →
      s.attributes.AfterBatch batch a →
      p.Outcome s [.writeAttributes batch] (.ok batch.length)
        { s with attributes := a, appliedBatches := s.appliedBatches + 1 }

variable {p : Plan} {s : Segment} {batch : List Mutation}

/-- **The segment decides about a batch that is submitted.** -/
theorem Submits.outcome_writeAttributes (h : p.Submits batch) (s : Segment) :
    p.Outcome s [.writeAttributes batch]
      (match (s.writeAttributes batch).1 with
        | .ok () => .ok batch.length
        | .error e => .error (IndexError.ofApplyError e))
      (s.writeAttributes batch).2 := by
  have hbatch := (eq_of_mutations h.mutations).2
  cases hpending : s.pendingWriteFailure with
  | some e =>
      rw [Segment.writeAttributes_of_pending hpending]
      exact .failed h hpending
  | none =>
      by_cases hsealed : s.isSealed
      · rw [Segment.writeAttributes_of_isSealed hpending hsealed]
        exact .sealed h hpending hsealed
      · have hs : s.IsWritable := ⟨by simpa using hsealed, hpending⟩
        by_cases hfits : p.Fits s
        · obtain ⟨a, hrun⟩ := exists_foldlM_write hfits
          rw [← hbatch] at hrun
          have hafter := afterBatch_of_foldlM_write
            (fun m hm => condition_ne_absent (hbatch ▸ hm)) hrun
          rw [hs.writeAttributes_of_foldlM hrun]
          exact .applied h hs hfits hafter
        · obtain ⟨hlt, hstale⟩ := Classical.not_imp.mp hfits
          have hfails := foldlM_write_of_stale hlt hstale
          rw [← hbatch, ← apply_eq_foldlM] at hfails
          rw [hs.writeAttributes_of_error hfails]
          exact .stale h hs hlt hstale

/-- Only a refused plan is reported as a broken contract. -/
theorem Outcome.isRefused_iff {calls : List Call} {result : Except IndexError Nat} {s' : Segment}
    (h : p.Outcome s calls result s') :
    (∃ cause, result = .error (.contractViolation cause)) ↔ p.IsRefused := by
  cases h with
  | refused hp => exact iff_of_true ⟨_, rfl⟩ hp
  | idle hp _ => exact iff_of_false (by simp) hp
  | failed hp _ => exact iff_of_false (by simp) hp.not_isRefused
  | sealed hp _ _ => exact iff_of_false (by simp) hp.not_isRefused
  | stale hp _ _ _ => exact iff_of_false (by simp) hp.not_isRefused
  | applied hp _ _ _ => exact iff_of_false (by simp) hp.not_isRefused

/-- A refusal comes before any call. -/
theorem Outcome.eq_of_isRefused {calls : List Call} {result : Except IndexError Nat} {s' : Segment}
    (h : p.Outcome s calls result s') (hp : p.IsRefused) : calls = [] ∧ s' = s := by
  cases h with
  | refused _ => exact ⟨rfl, rfl⟩
  | idle hnot _ => exact absurd hp hnot
  | failed hsubmits _ => exact absurd hp hsubmits.not_isRefused
  | sealed hsubmits _ _ => exact absurd hp hsubmits.not_isRefused
  | stale hsubmits _ _ _ => exact absurd hp hsubmits.not_isRefused
  | applied hsubmits _ _ _ => exact absurd hp hsubmits.not_isRefused

/-- **Every outcome of applying a plan**, to any segment. It is reported as a broken contract
exactly if the plan goes backwards or gets a bucket wrong that it changes, however many it gets
right; then nobody is called, and a failure that was ordered still stands. A plan that says nothing
succeeds, and nobody is called either. Otherwise one batch is submitted. A failure that was ordered,
a sealed segment or a checkpoint that has moved is reported, and no attribute has changed then. In
the remaining case the batch has gone through. -/
theorem outcome_runApply (p : Plan) (id : SegmentId) (s : Segment) :
    ∃ result, (p.runApply id s).value = some result ∧
      p.Outcome s ((p.apply id).run.calls Segment.serve s) result (p.runApply id s).state ∧
      ((∃ cause, result = .error (.contractViolation cause)) ↔ p.IsRefused) := by
  suffices hex : ∃ result, (p.runApply id s).value = some result ∧
      p.Outcome s ((p.apply id).run.calls Segment.serve s) result (p.runApply id s).state by
    obtain ⟨result, hvalue, houtcome⟩ := hex
    exact ⟨result, hvalue, houtcome, houtcome.isRefused_iff⟩
  by_cases hrefused : p.IsRefused
  · obtain ⟨cause, hcause⟩ := exists_mutations_eq_error_iff.mpr hrefused
    obtain ⟨hvalue, hstate⟩ := runApply_of_mutations_error id s hcause
    refine ⟨_, hvalue, ?_⟩
    rw [calls_apply_of_mutations_error id hcause, hstate]
    exact .refused hrefused
  · obtain ⟨batch, hbatch⟩ := exists_mutations_eq_ok hrefused
    by_cases hidle : p.IsIdle
    · obtain rfl := (eq_nil_iff_isIdle hbatch).mpr hidle
      obtain ⟨hvalue, hstate⟩ := runApply_of_mutations_nil id s hbatch
      refine ⟨_, hvalue, ?_⟩
      rw [calls_apply_of_mutations_nil id hbatch, hstate]
      exact .idle hrefused hidle
    · have hne : batch ≠ [] := fun hnil => hidle ((eq_nil_iff_isIdle hbatch).mp hnil)
      obtain ⟨hstate, hvalue⟩ := runApply_of_mutations_ok id s hbatch hne
      refine ⟨_, hvalue, ?_⟩
      rw [calls_apply_of_mutations_ok id hbatch hne, hstate]
      exact Submits.outcome_writeAttributes ⟨hrefused, hidle, hbatch, hne⟩ s

/-- A bucket that has a head although none of its keys is known. -/
def headless : BucketUpdate :=
  ⟨⟨⟨1⟩, some (.clamp 3)⟩, ∅, Std.ExtTreeMap.empty.insert ⟨[1]⟩ ⟨.clamp 55, false⟩⟩

/-- A plan that gets its first bucket right and its second one wrong. -/
def misfit : Plan := ⟨.clamp 50, .clamp 61, [sampleBucket, headless]⟩

/-- The failure that was ordered is not used up. -/
theorem outcome_runApply_misfit :
    misfit.IsRefused ∧
    ∃ cause, (misfit.runApply 1 ((Segment.fresh 1).failNextWrite (.io "down"))).value
        = some (.error (.contractViolation cause)) ∧
      (misfit.runApply 1 ((Segment.fresh 1).failNextWrite (.io "down"))).state
        = (Segment.fresh 1).failNextWrite (.io "down") := by
  have hrefused : misfit.IsRefused := .inr
    ⟨headless, by simp [misfit], by decide +kernel, by decide +kernel⟩
  obtain ⟨result, hvalue, houtcome, hiff⟩ :=
    outcome_runApply misfit 1 ((Segment.fresh 1).failNextWrite (.io "down"))
  obtain ⟨cause, rfl⟩ := hiff.mpr hrefused
  exact ⟨hrefused, cause, hvalue, (houtcome.eq_of_isRefused hrefused).2⟩

end Plan

end SegmentIndex
