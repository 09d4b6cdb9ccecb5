import SegmentIndex.Program.Pass
import SegmentIndex.Proofs.Batch
import SegmentIndex.Proofs.Reads

/-!
# Applying a plan

Applying a plan is at most one call: nothing is asked if the plan is refused or changes nothing, and
otherwise its batch is written at once. So the segment changes if and only if the batch goes
through, and what that takes is said for every segment and every plan, however stale or senseless
(`Plan.runApply_checkpoint`).

A plan for an empty stretch of the log moves no checkpoint and puts no condition on it: such a batch
goes through wherever the checkpoint is.
-/

namespace SegmentIndex

open Attributes

/-- How far a segment has been indexed, if it has been prepared for indexing. -/
def Segment.checkpoint (s : Segment) : Option Offset := s.attributes.offset? .tableIndexOffset

/-! ## The answers to an append and to a batch -/

namespace Segment

variable {s s' s'' : Segment} {batch : List Mutation}

/-- Nothing has changed that a client of the index may change. -/
structure Unaltered (s s' : Segment) : Prop where
  log : s'.log = s.log
  attributes : s'.attributes = s.attributes
  appliedBatches : s'.appliedBatches = s.appliedBatches

theorem Unaltered.refl (s : Segment) : s.Unaltered s := ⟨rfl, rfl, rfl⟩

theorem Unaltered.trans (h : s.Unaltered s') (h' : s'.Unaltered s'') : s.Unaltered s'' where
  log := h'.log.trans h.log
  attributes := h'.attributes.trans h.attributes
  appliedBatches := h'.appliedBatches.trans h.appliedBatches

theorem Undisturbed.unaltered (h : s.Undisturbed s') : s.Unaltered s' :=
  ⟨h.log, h.attributes, h.appliedBatches⟩

/-- **All that can come of an append**: the entry is at the end of the log, or nothing has
happened. -/
theorem append_cases (s : Segment) (key : TableKey) (removal : Bool) :
    (∃ log, s.isSealed = false ∧ s.log.append? key removal = some log ∧
      s.append key removal = (.ok s.log.length, { s with log := log })) ∨
    ((s.isSealed = true ∨ s.log.append? key removal = none) ∧
      ∃ e, s.append key removal = (.error e, s)) := by
  unfold append
  cases hsealed : s.isSealed with
  | true => exact .inr ⟨.inl rfl, _, rfl⟩
  | false =>
      cases s.log.append? key removal with
      | none => exact .inr ⟨.inr rfl, _, rfl⟩
      | some log => exact .inl ⟨log, rfl, rfl, rfl⟩

def applied (s : Segment) (attributes : Attributes) : Segment :=
  { s with attributes := attributes, appliedBatches := s.appliedBatches + 1 }

/-- **All that can come of a batch**: it goes through, and then it was applied to the attributes and
changed nothing else of the index; or it does not, and alters nothing. -/
theorem writeAttributes_cases (s : Segment) (batch : List Mutation) :
    (∃ attributes, s.attributes.apply batch = .ok attributes ∧
      s.writeAttributes batch = (.ok (), s.applied attributes)) ∨
    ∃ e, (s.writeAttributes batch).1 = .error e ∧ s.Unaltered (s.writeAttributes batch).2 := by
  unfold writeAttributes applied
  cases s.pendingWriteFailure with
  | some e => exact .inr ⟨_, rfl, rfl, rfl, rfl⟩
  | none =>
      dsimp only
      split
      · exact .inr ⟨_, rfl, .refl s⟩
      · cases s.attributes.apply batch with
        | error e => exact .inr ⟨e, rfl, .refl s⟩
        | ok attributes => exact .inl ⟨attributes, rfl, rfl⟩

theorem apply_eq_ok_of_writeAttributes (h : (s.writeAttributes batch).1 = .ok ()) :
    s.attributes.apply batch = .ok (s.writeAttributes batch).2.attributes := by
  rcases s.writeAttributes_cases batch with ⟨attributes, happly, heq⟩ | ⟨e, herror, _⟩
  · rw [happly, heq]
    rfl
  · rw [herror] at h
    exact absurd h (by simp)

/-- Nothing stands in the way of writing. -/
structure IsWritable (s : Segment) : Prop where
  isSealed : s.isSealed = false
  pendingWriteFailure : s.pendingWriteFailure = none

theorem IsWritable.writeAttributes_eq (h : s.IsWritable) (batch : List Mutation) :
    s.writeAttributes batch = match s.attributes.apply batch with
      | .ok attributes => (.ok (), s.applied attributes)
      | .error e => (.error e, s) := by
  have hsealed : ¬s.isSealed := by simp [h.isSealed]
  unfold writeAttributes applied
  rw [h.pendingWriteFailure]
  exact if_neg hsealed

theorem IsWritable.writeAttributes_of_ok (h : s.IsWritable) {attributes : Attributes}
    (happly : s.attributes.apply batch = .ok attributes) :
    s.writeAttributes batch = (.ok (), s.applied attributes) := by
  rw [h.writeAttributes_eq, happly]

theorem IsWritable.writeAttributes_of_error (h : s.IsWritable) {e : ApplyError}
    (happly : s.attributes.apply batch = .error e) :
    s.writeAttributes batch = (.error e, s) := by
  rw [h.writeAttributes_eq, happly]

end Segment

/-! ## One call at most -/

namespace Plan

variable {p : Plan} {s : Segment} {batch : List Mutation}

/-- How applying a plan goes on once its batch has been answered. -/
def finish (p : Plan) (id : SegmentId) (mutations : Nat) :
    Except ApplyError Unit → Program (Except IndexError Nat)
  | .ok () => .done (.ok mutations)
  | .error e =>
    let e := IndexError.ofApplyError e
    if e.isCheckpointConflict then .note (.stale id p.first e) (.done (.error e))
    else .done (.error e)

theorem apply_of_mutations_error (id : SegmentId) {cause : ContractViolation}
    (h : p.mutations = .error cause) :
    p.apply id = Program.done (.error (.contractViolation cause)) := by
  unfold apply
  rw [h]
  rfl

theorem apply_of_mutations_nil (id : SegmentId) (h : p.mutations = .ok []) :
    p.apply id = Program.note (.unchanged id p.first p.last) (.done (.ok 0)) := by
  unfold apply
  rw [h]
  rfl

/-- **A plan with mutations is one call**, and an answer that is passed on. -/
theorem apply_of_mutations_ok (id : SegmentId) (h : p.mutations = .ok batch) (hne : batch ≠ []) :
    p.apply id = Program.note (.applying id p.first p.last batch.length)
      (.call (.writeAttributes batch) (p.finish id batch.length)) := by
  unfold apply
  rw [h]
  cases batch with
  | nil => exact absurd rfl hne
  | cons m rest =>
      show Program.note _ (Program.call _ _) = Program.note _ (Program.call _ _)
      refine congrArg _ (congrArg _ (funext fun reply => ?_))
      cases reply with
      | ok u => rfl
      | error e =>
          show ExceptT.run (ite _ _ _) = ite _ _ _
          split <;> rfl

/-- A plan is applied to a segment, and nobody else is there. -/
def runApply (p : Plan) (id : SegmentId) (s : Segment) :
    Program.Outcome Segment (Except IndexError Nat) :=
  (p.apply id).runAlone s

theorem runApply_of_mutations_error (id : SegmentId) (s : Segment) {cause : ContractViolation}
    (h : p.mutations = .error cause) :
    (p.runApply id s).value = some (.error (.contractViolation cause)) ∧
      (p.runApply id s).state = s := by
  unfold runApply Attempt.runAlone
  rw [apply_of_mutations_error id h]
  exact ⟨rfl, rfl⟩

theorem runApply_of_mutations_nil (id : SegmentId) (s : Segment) (h : p.mutations = .ok []) :
    (p.runApply id s).value = some (.ok 0) ∧ (p.runApply id s).state = s := by
  unfold runApply Attempt.runAlone
  rw [apply_of_mutations_nil id h]
  exact ⟨rfl, rfl⟩

theorem runApply_of_mutations_ok (id : SegmentId) (s : Segment) (h : p.mutations = .ok batch)
    (hne : batch ≠ []) :
    (p.runApply id s).state = (s.writeAttributes batch).2 ∧
      (p.runApply id s).value = some (match (s.writeAttributes batch).1 with
        | .ok () => .ok batch.length
        | .error e => .error (IndexError.ofApplyError e)) := by
  unfold runApply Attempt.runAlone
  rw [apply_of_mutations_ok id h hne]
  show (Program.run Segment.serve (p.finish id batch.length (s.writeAttributes batch).1)
      (s.writeAttributes batch).2).state = _ ∧
    (Program.run Segment.serve (p.finish id batch.length (s.writeAttributes batch).1)
      (s.writeAttributes batch).2).value = _
  cases (s.writeAttributes batch).1 with
  | ok u => exact ⟨rfl, rfl⟩
  | error e =>
      unfold finish
      dsimp only
      split <;> exact ⟨rfl, rfl⟩

theorem ne_nil_of_lt (hlt : p.first < p.last) : p.writes ++ p.advance ≠ [] := by
  unfold advance
  rw [if_pos hlt]
  simp

/-- **Success means that the whole batch went through.** -/
theorem apply_of_runApply_eq_ok {id : SegmentId} {n : Nat}
    (h : (p.runApply id s).value = some (.ok n)) :
    ∃ batch, p.mutations = .ok batch ∧ n = batch.length ∧
      s.attributes.apply batch = .ok (p.runApply id s).state.attributes := by
  cases hbatch : p.mutations with
  | error cause =>
      rw [(runApply_of_mutations_error id s hbatch).1] at h
      exact absurd h (by simp)
  | ok batch =>
      refine ⟨batch, rfl, ?_⟩
      by_cases hne : batch = []
      · subst hne
        obtain ⟨hvalue, hstate⟩ := runApply_of_mutations_nil id s hbatch
        rw [hvalue] at h
        rw [hstate, apply_eq_foldlM]
        exact ⟨(Except.ok.inj (Option.some.inj h)).symm, rfl⟩
      · obtain ⟨hstate, hvalue⟩ := runApply_of_mutations_ok id s hbatch hne
        rw [hvalue] at h
        cases hreply : (s.writeAttributes batch).1 with
        | error e =>
            rw [hreply] at h
            exact absurd h (by simp)
        | ok u =>
            rw [hreply] at h
            rw [hstate]
            exact ⟨(Except.ok.inj (Option.some.inj h)).symm,
              Segment.apply_eq_ok_of_writeAttributes hreply⟩

/-- **Where nothing stands in the way of writing**, the attributes alone decide. -/
theorem runApply_of_isWritable (id : SegmentId) (hs : s.IsWritable)
    (hbatch : p.mutations = .ok batch) :
    (∀ attributes, s.attributes.apply batch = .ok attributes →
      (p.runApply id s).value = some (.ok batch.length) ∧
        (p.runApply id s).state.attributes = attributes) ∧
    (∀ e, s.attributes.apply batch = .error e →
      (p.runApply id s).value = some (.error (IndexError.ofApplyError e)) ∧
        (p.runApply id s).state = s) := by
  by_cases hne : batch = []
  · subst hne
    obtain ⟨hvalue, hstate⟩ := runApply_of_mutations_nil id s hbatch
    have hnil : s.attributes.apply [] = .ok s.attributes := apply_eq_foldlM _ _
    refine ⟨fun attributes happly => ?_, fun e happly => ?_⟩
    · rw [hnil] at happly
      exact ⟨hvalue, by rw [hstate, Except.ok.inj happly]⟩
    · rw [hnil] at happly
      exact absurd happly (by simp)
  · obtain ⟨hstate, hvalue⟩ := runApply_of_mutations_ok id s hbatch hne
    refine ⟨fun attributes happly => ?_, fun e happly => ?_⟩
    · rw [hstate, hvalue, hs.writeAttributes_of_ok happly]
      exact ⟨rfl, rfl⟩
    · rw [hstate, hvalue, hs.writeAttributes_of_error happly]
      exact ⟨rfl, rfl⟩

/-! ## What the checkpoint has to do with it -/

/-- **No stale batch moves the checkpoint.** A plan for a stretch that is not empty goes through
only where the checkpoint is at the start of the stretch, and takes it to the end; where nothing
stands in the way but the checkpoint, it is refused for that and changes nothing. A plan for an
empty stretch leaves the checkpoint alone and does not care where it is. -/
theorem runApply_checkpoint (p : Plan) (id : SegmentId) (s : Segment) :
    (p.first < p.last →
      (∀ n, (p.runApply id s).value = some (.ok n) →
        0 < n ∧ s.checkpoint = some p.first ∧
          (p.runApply id s).state.checkpoint = some p.last) ∧
      (s.IsWritable → ∀ batch, p.mutations = .ok batch → s.checkpoint ≠ some p.first →
        (p.runApply id s).value = some (.error (.checkpointConflict p.first s.checkpoint)) ∧
          (p.runApply id s).state.attributes = s.attributes)) ∧
    (p.first = p.last →
      (∀ n, (p.runApply id s).value = some (.ok n) →
        (p.runApply id s).state.checkpoint = s.checkpoint) ∧
      (s.IsWritable → ∀ batch, p.mutations = .ok batch →
        (p.runApply id s).value = some (.ok batch.length))) := by
  refine ⟨fun hlt => ⟨fun n hvalue => ?_, fun hs batch hbatch hstale => ?_⟩,
    fun hsame => ⟨fun n hvalue => ?_, fun hs batch hbatch => ?_⟩⟩
  · obtain ⟨batch, hbatch, rfl, happly⟩ := apply_of_runApply_eq_ok hvalue
    obtain ⟨_, rfl⟩ := eq_of_mutations hbatch
    rw [apply_eq_foldlM] at happly
    refine ⟨?_, ?_⟩
    · unfold advance
      rw [if_pos hlt, List.length_append]
      exact Nat.succ_pos _
    · by_cases hfirst : s.checkpoint = some p.first
      · obtain ⟨a, hrun, hlast, _⟩ := foldlM_write_of_lt hlt hfirst
        rw [happly] at hrun
        rw [← Except.ok.inj hrun] at hlast
        exact ⟨hfirst, hlast⟩
      · rw [foldlM_write_of_stale hlt hfirst] at happly
        exact absurd happly (by simp)
  · obtain ⟨_, rfl⟩ := eq_of_mutations hbatch
    have happly := foldlM_write_of_stale hlt hstale
    rw [← apply_eq_foldlM] at happly
    obtain ⟨hvalue, hstate⟩ := (runApply_of_isWritable id hs hbatch).2 _ happly
    rw [hvalue, hstate]
    exact ⟨rfl, rfl⟩
  · obtain ⟨batch, hbatch, _, happly⟩ := apply_of_runApply_eq_ok hvalue
    obtain ⟨_, rfl⟩ := eq_of_mutations hbatch
    obtain ⟨a, hrun, _, hcheckpoint⟩ := foldlM_write_of_not_lt (not_lt.mpr hsame.ge) s.attributes
    rw [← apply_eq_foldlM, happly] at hrun
    rw [← Except.ok.inj hrun] at hcheckpoint
    exact hcheckpoint
  · obtain ⟨_, rfl⟩ := eq_of_mutations hbatch
    obtain ⟨a, hrun, _⟩ := foldlM_write_of_not_lt (not_lt.mpr hsame.ge) s.attributes
    rw [← apply_eq_foldlM] at hrun
    exact ((runApply_of_isWritable id hs hbatch).1 a hrun).1

end Plan

/-- A new segment, prepared for indexing. -/
def Segment.fresh (id : SegmentId) : Segment :=
  ((Segment.empty id).writeAttributes initialMutations).2

namespace Plan

/-- A plan that puts a key into an empty bucket, for any stretch of the log. -/
def oneKey (first last : Offset) : Plan where
  first := first
  last := last
  groups := [⟨.vacant default, ∅, Std.ExtTreeMap.empty.insert ⟨[]⟩ ⟨⟨100, by decide⟩, false⟩⟩]

/-- The plan that starts at the checkpoint sets the head of the bucket and moves the checkpoint. The
one that starts elsewhere would set the head too, but it is refused. The one for an empty stretch
goes through and leaves the checkpoint where it is. -/
theorem runApply_checkpoint_oneKey :
    (0 < 2 ∧ (Segment.fresh 1).checkpoint = some .zero ∧
      ((oneKey .zero .top).runApply 1 (.fresh 1)).state.checkpoint = some .top ∧
      ((oneKey .zero .top).runApply 1 (.fresh 1)).state.attributes.offset? (.bucket default)
        = some ⟨100, by decide⟩) ∧
    (((oneKey ⟨5, by decide⟩ .top).runApply 1 (.fresh 1)).value
        = some (.error (.checkpointConflict ⟨5, by decide⟩ (some .zero))) ∧
      ((oneKey ⟨5, by decide⟩ .top).runApply 1 (.fresh 1)).state.attributes
        = (Segment.fresh 1).attributes) ∧
    ((oneKey ⟨5, by decide⟩ ⟨5, by decide⟩).runApply 1 (.fresh 1)).value = some (.ok 1) ∧
      ((oneKey ⟨5, by decide⟩ ⟨5, by decide⟩).runApply 1 (.fresh 1)).state.checkpoint
        = (Segment.fresh 1).checkpoint := by
  have hconsistent : ∀ first last, ∀ u ∈ (oneKey first last).groups, u.isConsistent := by
    intro first last u hu
    obtain rfl := List.mem_singleton.mp hu
    decide +kernel
  obtain ⟨hmoves, _⟩ := runApply_checkpoint (oneKey .zero .top) 1 (.fresh 1)
  obtain ⟨hstale, _⟩ := runApply_checkpoint (oneKey ⟨5, by decide⟩ .top) 1 (.fresh 1)
  obtain ⟨_, hstays⟩ :=
    runApply_checkpoint (oneKey ⟨5, by decide⟩ ⟨5, by decide⟩) 1 (.fresh 1)
  obtain ⟨hpos, hfirst, hlast⟩ := (hmoves (by decide)).1 2 (by decide +kernel)
  have hvalue := (hstays rfl).2 ⟨rfl, rfl⟩ _ (mutations_eq_ok (by decide) (hconsistent _ _))
  exact ⟨⟨hpos, hfirst, hlast, by decide +kernel⟩,
    (hstale (by decide)).2 ⟨rfl, rfl⟩ _ (mutations_eq_ok (by decide) (hconsistent _ _))
      (by decide +kernel),
    hvalue.trans (by decide +kernel), (hstays rfl).1 _ hvalue⟩

/-- **The condition on the checkpoint is missing where the checkpoint is not to move**: the batch of
a plan for an empty stretch of the log goes through although the checkpoint is somewhere else. -/
theorem not_forall_runApply_checkpoint :
    ¬∀ (s : Segment) (p : Plan) (id : SegmentId) (n : Nat), p.first ≤ p.last →
      (p.runApply id s).value = some (.ok n) → 0 < n →
        s.checkpoint = some p.first ∧ (p.runApply id s).state.checkpoint = some p.last := by
  intro h
  have := (h (.fresh 1) (oneKey ⟨5, by decide⟩ ⟨5, by decide⟩) 1 1 (by decide) (by decide +kernel)
    (by decide)).1
  exact absurd this (by decide +kernel)

end Plan

end SegmentIndex
