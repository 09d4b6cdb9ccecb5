import SegmentIndex.Proofs.Apply

/-!
# A batch is its mutations one by one, or nothing

What a segment makes of a batch can be told without the map it stages in: the mutations are written
one after another, each on what the ones before it have left, and the first one whose condition does
not hold undoes everything (`Segment.writeAttributes_one_by_one`). So a batch can be cut anywhere,
and the two parts come to the same as the whole, except that the whole undoes its first part if the
second fails.
-/

namespace SegmentIndex

namespace Attributes

variable {a : Attributes} {batch : List Mutation} {e : ApplyError}

/-- Only a condition that does not hold makes a mutation fail. -/
theorem write_eq_error_iff {m : Mutation} :
    a.write m = .error e ↔ ∃ expected, m.condition = .holds expected ∧
      a.offset? m.key ≠ expected ∧ e = .conflict m.key expected (a.offset? m.key) := by
  unfold write
  cases m.condition with
  | absent => simp
  | always => simp
  | holds expected =>
      dsimp only
      by_cases h : a.offset? m.key = expected
      · simp [h]
      · rw [if_neg h, Except.error.injEq, eq_comm]
        simp [h]

/-- Written one after another, the mutations come to one whose condition does not hold, and `e` says
which one it is, and what its attribute holds by then. -/
def FailsWith (a : Attributes) (batch : List Mutation) (e : ApplyError) : Prop :=
  ∃ done m rest a' expected, batch = done ++ m :: rest ∧ done.foldlM write a = .ok a' ∧
    m.condition = .holds expected ∧ a'.offset? m.key ≠ expected ∧
      e = .conflict m.key expected (a'.offset? m.key)

theorem FailsWith.foldlM_write (h : a.FailsWith batch e) :
    batch.foldlM write a = .error e := by
  obtain ⟨done, m, rest, a', expected, rfl, hdone, hm⟩ := h
  have hfails : a'.write m = .error e := write_eq_error_iff.mpr ⟨expected, hm⟩
  rw [List.foldlM_append, hdone]
  show (m :: rest).foldlM write a' = _
  rw [List.foldlM_cons, hfails]
  rfl

/-- **The mutations fail where the first of them does.** -/
theorem foldlM_write_eq_error_iff :
    batch.foldlM write a = .error e ↔ a.FailsWith batch e := by
  refine ⟨fun h => ?_, FailsWith.foldlM_write⟩
  induction batch generalizing a with
  | nil => exact absurd h (by simp [pure, Except.pure])
  | cons m rest ih =>
      rw [List.foldlM_cons] at h
      cases hm : a.write m with
      | error e' =>
          rw [hm] at h
          obtain rfl : e' = e := Except.error.inj h
          obtain ⟨expected, hfails⟩ := write_eq_error_iff.mp hm
          exact ⟨[], m, rest, a, expected, rfl, rfl, hfails⟩
      | ok a₁ =>
          rw [hm] at h
          obtain ⟨done, m', rest', a', expected, rfl, hdone, hfails⟩ := ih h
          refine ⟨m :: done, m', rest', a', expected, rfl, ?_, hfails⟩
          rw [List.foldlM_cons, hm]
          exact hdone

end Attributes

namespace Segment

open Attributes

variable {s : Segment}

/-! ## What stands in the way of writing -/

theorem writeAttributes_of_pending {e : StoreError} (h : s.pendingWriteFailure = some e)
    (batch : List Mutation) :
    s.writeAttributes batch = (.error (.store e), { s with pendingWriteFailure := none }) := by
  unfold writeAttributes
  rw [h]

theorem writeAttributes_of_isSealed (hpending : s.pendingWriteFailure = none) (h : s.isSealed)
    (batch : List Mutation) :
    s.writeAttributes batch = (.error (.store (.segmentSealed s.id)), s) := by
  unfold writeAttributes
  rw [hpending]
  exact if_pos h

/-- **Where nothing stands in the way**, the mutations one by one decide. -/
theorem IsWritable.writeAttributes_of_foldlM (h : s.IsWritable) {batch : List Mutation}
    {a : Attributes} (hrun : batch.foldlM write s.attributes = .ok a) :
    s.writeAttributes batch = (.ok (), s.applied a) :=
  h.writeAttributes_of_ok (by rw [apply_eq_foldlM, hrun])

theorem IsWritable.writeAttributes_of_failsWith (h : s.IsWritable) {batch : List Mutation}
    {e : ApplyError} (hfails : s.attributes.FailsWith batch e) :
    s.writeAttributes batch = (.error e, s) :=
  h.writeAttributes_of_error (by rw [apply_eq_foldlM, hfails.foldlM_write])

theorem isWritable_of_writeAttributes {s' : Segment} {batch : List Mutation}
    (h : s.writeAttributes batch = (.ok (), s')) : s.IsWritable := by
  cases hpending : s.pendingWriteFailure with
  | some e =>
      rw [writeAttributes_of_pending hpending] at h
      exact absurd h (by simp)
  | none =>
      by_cases hsealed : s.isSealed
      · rw [writeAttributes_of_isSealed hpending hsealed] at h
        exact absurd h (by simp)
      · exact ⟨by simpa using hsealed, hpending⟩

/-- **All that success takes.** -/
theorem writeAttributes_eq_ok_iff {s' : Segment} {batch : List Mutation} :
    s.writeAttributes batch = (.ok (), s') ↔
      s.IsWritable ∧ ∃ a, batch.foldlM write s.attributes = .ok a ∧ s' = s.applied a := by
  constructor
  · intro h
    have hs := isWritable_of_writeAttributes h
    refine ⟨hs, ?_⟩
    cases hrun : batch.foldlM write s.attributes with
    | error e =>
        rw [hs.writeAttributes_of_failsWith (foldlM_write_eq_error_iff.mp hrun)] at h
        exact absurd h (by simp)
    | ok a =>
        rw [hs.writeAttributes_of_foldlM hrun] at h
        exact ⟨a, rfl, (congrArg Prod.snd h).symm⟩
  · intro h
    obtain ⟨hs, a, hrun, rfl⟩ := h
    exact hs.writeAttributes_of_foldlM hrun

theorem IsWritable.applied (h : s.IsWritable) (a : Attributes) : (s.applied a).IsWritable :=
  ⟨h.isSealed, h.pendingWriteFailure⟩

/-! ## Cutting a batch -/

variable {s' s'' : Segment} {xs ys : List Mutation} {e : ApplyError}

/-- If the first part of a batch fails, so does the whole, in the same way. -/
theorem writeAttributes_append_of_error (h : s.writeAttributes xs = (.error e, s')) :
    s.writeAttributes (xs ++ ys) = (.error e, s') := by
  cases hpending : s.pendingWriteFailure with
  | some e =>
      rw [writeAttributes_of_pending hpending] at h ⊢
      exact h
  | none =>
      by_cases hsealed : s.isSealed
      · rw [writeAttributes_of_isSealed hpending hsealed] at h ⊢
        exact h
      · have hs : s.IsWritable := ⟨by simpa using hsealed, hpending⟩
        cases hrun : xs.foldlM write s.attributes with
        | ok a =>
            rw [hs.writeAttributes_of_foldlM hrun] at h
            exact absurd h (by simp)
        | error e' =>
            rw [hs.writeAttributes_of_failsWith (foldlM_write_eq_error_iff.mp hrun)] at h
            have hwhole : (xs ++ ys).foldlM write s.attributes = .error e' := by
              rw [List.foldlM_append, hrun]
              rfl
            rw [hs.writeAttributes_of_failsWith (foldlM_write_eq_error_iff.mp hwhole), h]

/-- If the first part goes through and the second fails, so does the whole, in the same way, and
nothing is left of the first part. -/
theorem writeAttributes_append_of_ok_of_error (h : s.writeAttributes xs = (.ok (), s'))
    (h' : s'.writeAttributes ys = (.error e, s'')) :
    s.writeAttributes (xs ++ ys) = (.error e, s) := by
  obtain ⟨hs, a, hrun, rfl⟩ := writeAttributes_eq_ok_iff.mp h
  cases hrest : ys.foldlM write a with
  | ok a' =>
      rw [(hs.applied a).writeAttributes_of_foldlM hrest] at h'
      exact absurd h' (by simp)
  | error e' =>
      have hfails := foldlM_write_eq_error_iff.mp hrest
      rw [(hs.applied a).writeAttributes_of_failsWith hfails] at h'
      have hwhole : (xs ++ ys).foldlM write s.attributes = .error e' := by
        rw [List.foldlM_append, hrun]
        exact hrest
      rw [hs.writeAttributes_of_failsWith (foldlM_write_eq_error_iff.mp hwhole),
        Except.error.inj (congrArg Prod.fst h')]

/-- If both parts go through, one after the other, so does the whole, and leaves the same
attributes. -/
theorem writeAttributes_append_of_ok (h : s.writeAttributes xs = (.ok (), s'))
    (h' : s'.writeAttributes ys = (.ok (), s'')) :
    s.writeAttributes (xs ++ ys) = (.ok (), s.applied s''.attributes) := by
  obtain ⟨hs, a, hrun, rfl⟩ := writeAttributes_eq_ok_iff.mp h
  obtain ⟨_, a', hrest, rfl⟩ := writeAttributes_eq_ok_iff.mp h'
  refine hs.writeAttributes_of_foldlM ?_
  rw [List.foldlM_append, hrun]
  exact hrest

/-- **A batch in two parts** goes through exactly if the first part does, and then the second. -/
theorem writeAttributes_append_eq_ok_iff :
    (s.writeAttributes (xs ++ ys)).1 = .ok () ↔
      ∃ s' s'', s.writeAttributes xs = (.ok (), s') ∧ s'.writeAttributes ys = (.ok (), s'') := by
  constructor
  · intro h
    rcases hxs : s.writeAttributes xs with ⟨e | u, s'⟩
    · rw [writeAttributes_append_of_error hxs] at h
      exact absurd h (by simp)
    · rcases hys : s'.writeAttributes ys with ⟨e | u, s''⟩
      · rw [writeAttributes_append_of_ok_of_error hxs hys] at h
        exact absurd h (by simp)
      · exact ⟨s', s'', rfl, hys⟩
  · intro h
    obtain ⟨s', s'', hxs, hys⟩ := h
    rw [writeAttributes_append_of_ok hxs hys]

/-! ## One by one -/

/-- **What becomes of a batch**, on any segment. A failure that was ordered comes first and is used
up, and then the seal. Otherwise the batch is its mutations one by one: if all of them go through,
the attributes are as they leave them, and one more batch has been applied; if one of them fails,
the first such is reported with what its attribute held by then, and the segment is as it was.

A batch in two parts goes through exactly if the first part does, and then the second, and leaves
the same attributes; if it fails, then for the part that fails. -/
theorem writeAttributes_one_by_one (s : Segment) (batch : List Mutation) :
    (∀ e, s.pendingWriteFailure = some e →
      s.writeAttributes batch = (.error (.store e), { s with pendingWriteFailure := none })) ∧
    (s.pendingWriteFailure = none → s.isSealed →
      s.writeAttributes batch = (.error (.store (.segmentSealed s.id)), s)) ∧
    (s.pendingWriteFailure = none → s.isSealed = false →
      (∃ a, batch.foldlM write s.attributes = .ok a ∧ s.writeAttributes batch =
        (.ok (), { s with attributes := a, appliedBatches := s.appliedBatches + 1 })) ∨
      ∃ e, s.attributes.FailsWith batch e ∧ s.writeAttributes batch = (.error e, s)) ∧
    ∀ xs ys, batch = xs ++ ys →
      ((s.writeAttributes batch).1 = .ok () ↔ ∃ s' s'',
        s.writeAttributes xs = (.ok (), s') ∧ s'.writeAttributes ys = (.ok (), s'')) ∧
      (∀ s' s'', s.writeAttributes xs = (.ok (), s') → s'.writeAttributes ys = (.ok (), s'') →
        (s.writeAttributes batch).2.attributes = s''.attributes) ∧
      (∀ e s', s.writeAttributes xs = (.error e, s') →
        s.writeAttributes batch = (.error e, s')) ∧
      ∀ e s' s'', s.writeAttributes xs = (.ok (), s') → s'.writeAttributes ys = (.error e, s'') →
        s.writeAttributes batch = (.error e, s) := by
  refine ⟨fun e he => writeAttributes_of_pending he batch,
    fun hpending hsealed => writeAttributes_of_isSealed hpending hsealed batch,
    fun hpending hsealed => ?_, fun xs ys hbatch => ?_⟩
  · have hs : s.IsWritable := ⟨hsealed, hpending⟩
    cases hrun : batch.foldlM write s.attributes with
    | ok a => exact .inl ⟨a, rfl, hs.writeAttributes_of_foldlM hrun⟩
    | error e =>
        have hfails := foldlM_write_eq_error_iff.mp hrun
        exact .inr ⟨e, hfails, hs.writeAttributes_of_failsWith hfails⟩
  · subst hbatch
    refine ⟨writeAttributes_append_eq_ok_iff, fun s' s'' hxs hys => ?_,
      fun e s' hxs => writeAttributes_append_of_error hxs,
      fun e s' s'' hxs hys => writeAttributes_append_of_ok_of_error hxs hys⟩
    rw [writeAttributes_append_of_ok hxs hys]
    rfl

/-- A link is set, then left alone because it is set, and then cleared if it holds what is
expected. -/
def setAndClear (expected : Offset) : List Mutation :=
  [.replace (.backpointer (.clamp 5)) (some (.clamp 3)),
    .setIfAbsent (.backpointer (.clamp 5)) (some (.clamp 4)),
    .replaceIfEquals (.backpointer (.clamp 5)) none (some expected)]

/-- The last mutation goes by what the first one has set. -/
theorem writeAttributes_one_by_one_link :
    (∃ a, (fresh 1).writeAttributes (setAndClear (.clamp 3))
        = (.ok (), { fresh 1 with attributes := a, appliedBatches := 2 }) ∧
      a.get? (.backpointer (.clamp 5)) = some .absent) ∧
    (fresh 1).writeAttributes (setAndClear (.clamp 4))
      = (.error (.conflict (.backpointer (.clamp 5)) (some (.clamp 4)) (some (.clamp 3))),
          fresh 1) := by
  constructor
  · obtain ⟨a, hrun, h⟩ | ⟨e, hfails, _⟩ :=
      (writeAttributes_one_by_one (fresh 1) (setAndClear (.clamp 3))).2.2.1 rfl rfl
    · obtain rfl := Except.ok.inj hrun
      exact ⟨_, h, by decide +kernel⟩
    · cases hfails.foldlM_write
  · obtain ⟨a, hrun, _⟩ | ⟨e, hfails, h⟩ :=
      (writeAttributes_one_by_one (fresh 1) (setAndClear (.clamp 4))).2.2.1 rfl rfl
    · cases hrun
    · obtain rfl := Except.error.inj hfails.foldlM_write
      exact h

end Segment

end SegmentIndex
