import SegmentIndex.Proofs.Relink

/-!
# The batch of a plan

A batch is made of writes without conditions, none of which touches the checkpoint, and of the move
of the checkpoint at the end if the plan has one. So what a batch comes to is decided by the
checkpoint alone: if it is not where the plan starts, the move fails and takes everything with it
(`foldlM_write_of_lt`, `foldlM_write_of_stale`).
-/

namespace SegmentIndex.Plan

open Attributes

variable {p : Plan} {batch : List Mutation}

/-- The writes of the plan to buckets and links. -/
def writes (p : Plan) : List Mutation := (p.groups.map BucketUpdate.writes).flatten

theorem mapM_mutations {groups : List BucketUpdate} {batches : List (List Mutation)}
    (h : groups.mapM BucketUpdate.mutations = .ok batches) :
    batches = groups.map BucketUpdate.writes := by
  rw [← List.mapM'_eq_mapM] at h
  induction groups generalizing batches with
  | nil => exact (Except.ok.inj h).symm
  | cons u rest ih =>
      rw [List.mapM'_cons] at h
      cases hu : u.mutations with
      | error e =>
          rw [hu] at h
          exact absurd h (by simp [bind, Except.bind])
      | ok ms =>
          rw [hu] at h
          cases hrest : rest.mapM' BucketUpdate.mutations with
          | error e =>
              rw [hrest] at h
              exact absurd h (by simp [bind, Except.bind])
          | ok batches' =>
              rw [hrest] at h
              obtain rfl := Except.ok.inj h
              rw [ih hrest, BucketUpdate.eq_writes_of_mutations hu, List.map_cons]

theorem mapM_mutations_of_isConsistent {groups : List BucketUpdate}
    (h : ∀ u ∈ groups, u.isConsistent) :
    groups.mapM BucketUpdate.mutations = .ok (groups.map BucketUpdate.writes) := by
  rw [← List.mapM'_eq_mapM]
  induction groups with
  | nil => rfl
  | cons u rest ih =>
      rw [List.mapM'_cons, BucketUpdate.mutations_eq_ok (h u List.mem_cons_self),
        ih fun v hv => h v (List.mem_cons_of_mem _ hv)]
      rfl

theorem mutations_eq_ok (hle : p.first ≤ p.last) (h : ∀ u ∈ p.groups, u.isConsistent) :
    p.mutations = .ok (p.writes ++ p.advance) := by
  unfold mutations
  rw [if_neg (not_lt.mpr hle), mapM_mutations_of_isConsistent h]
  rfl

theorem eq_of_mutations (h : p.mutations = .ok batch) :
    p.first ≤ p.last ∧ batch = p.writes ++ p.advance := by
  unfold mutations at h
  split at h
  · exact absurd h (by simp)
  · rename_i hle
    cases hbatches : p.groups.mapM BucketUpdate.mutations with
    | error e =>
        rw [hbatches] at h
        exact absurd h (by simp [bind, Except.bind])
    | ok batches =>
        rw [hbatches] at h
        refine ⟨not_lt.mp hle, ?_⟩
        rw [← Except.ok.inj h, mapM_mutations hbatches]
        rfl

theorem mem_writes {m : Mutation} (h : m ∈ p.writes) :
    m.condition = .always ∧ m.key ≠ .tableIndexOffset := by
  obtain ⟨ms, hms, hm⟩ := List.mem_flatten.mp h
  obtain ⟨u, _, rfl⟩ := List.mem_map.mp hms
  obtain ⟨hcondition, hkey | ⟨o, _, hkey⟩⟩ := BucketUpdate.mem_writes hm
  · exact ⟨hcondition, by rw [hkey]; simp⟩
  · exact ⟨hcondition, by rw [hkey]; simp⟩

theorem mem_advance {m : Mutation} (h : m ∈ p.advance) :
    m = .replaceIfEquals .tableIndexOffset (some p.last) (some p.first) := by
  unfold advance at h
  split at h
  · exact List.mem_singleton.mp h
  · exact absurd h (by simp)

/-- No mutation of a plan depends on an attribute being absent. -/
theorem condition_ne_absent {m : Mutation} (h : m ∈ p.writes ++ p.advance) :
    m.condition ≠ .absent := by
  rcases List.mem_append.mp h with h | h
  · rw [(mem_writes h).1]
    simp
  · rw [mem_advance h]
    simp [Mutation.replaceIfEquals]

/-- **The writes succeed anywhere**, and leave the checkpoint alone. -/
theorem foldlM_write_writes (p : Plan) (a : Attributes) :
    ∃ a', p.writes.foldlM write a = .ok a' ∧
      (∀ key, a'.offset? key = (lastWrite p.writes key).getD (a.offset? key)) ∧
      a'.offset? .tableIndexOffset = a.offset? .tableIndexOffset := by
  obtain ⟨a', hrun, ha'⟩ := foldlM_write_unconditional (fun m hm => (mem_writes hm).1) a
  refine ⟨a', hrun, ha', ?_⟩
  rw [ha', lastWrite_eq_none fun m hm => (mem_writes hm).2]
  rfl

theorem write_advance {a : Attributes} {first last : Offset} :
    a.write (.replaceIfEquals .tableIndexOffset (some last) (some first))
      = if a.offset? .tableIndexOffset = some first then
          .ok (a.set .tableIndexOffset (some last))
        else .error (.conflict .tableIndexOffset (some first) (a.offset? .tableIndexOffset)) := rfl

/-- **A batch that does not move the checkpoint succeeds anywhere.** -/
theorem foldlM_write_of_not_lt (hle : ¬p.first < p.last) (a : Attributes) :
    ∃ a', (p.writes ++ p.advance).foldlM write a = .ok a' ∧
      (∀ key, a'.offset? key = (lastWrite p.writes key).getD (a.offset? key)) ∧
      a'.offset? .tableIndexOffset = a.offset? .tableIndexOffset := by
  unfold advance
  rw [if_neg hle, List.append_nil]
  exact foldlM_write_writes p a

/-- **A batch that moves the checkpoint** succeeds if the checkpoint is where the plan starts. -/
theorem foldlM_write_of_lt (hlt : p.first < p.last) {a : Attributes}
    (ha : a.offset? .tableIndexOffset = some p.first) :
    ∃ a', (p.writes ++ p.advance).foldlM write a = .ok a' ∧
      a'.offset? .tableIndexOffset = some p.last ∧
      ∀ key, key ≠ .tableIndexOffset →
        a'.offset? key = (lastWrite p.writes key).getD (a.offset? key) := by
  obtain ⟨a', hrun, ha', hcheckpoint⟩ := foldlM_write_writes p a
  refine ⟨a'.set .tableIndexOffset (some p.last), ?_, ?_, fun key hkey => ?_⟩
  · unfold advance
    rw [if_pos hlt, List.foldlM_append, hrun]
    show [Mutation.replaceIfEquals _ _ _].foldlM write a' = _
    rw [List.foldlM_cons, write_advance, hcheckpoint, if_pos ha]
    rfl
  · rw [offset?_set, if_pos rfl]
  · rw [offset?_set, if_neg fun h => hkey h.symm, ha']

/-- A batch succeeds if the checkpoint is where the plan starts, or need not move. -/
theorem exists_foldlM_write {a : Attributes}
    (h : p.first < p.last → a.offset? .tableIndexOffset = some p.first) :
    ∃ a', (p.writes ++ p.advance).foldlM write a = .ok a' := by
  by_cases hlt : p.first < p.last
  · obtain ⟨a', hrun, _⟩ := foldlM_write_of_lt hlt (h hlt)
    exact ⟨a', hrun⟩
  · obtain ⟨a', hrun, _⟩ := foldlM_write_of_not_lt hlt a
    exact ⟨a', hrun⟩

/-- **Anywhere else it fails**, and says what the checkpoint is. -/
theorem foldlM_write_of_stale (hlt : p.first < p.last) {a : Attributes}
    (ha : a.offset? .tableIndexOffset ≠ some p.first) :
    (p.writes ++ p.advance).foldlM write a
      = .error (.conflict .tableIndexOffset (some p.first) (a.offset? .tableIndexOffset)) := by
  obtain ⟨a', hrun, _, hcheckpoint⟩ := foldlM_write_writes p a
  unfold advance
  rw [if_pos hlt, List.foldlM_append, hrun]
  show [Mutation.replaceIfEquals _ _ _].foldlM write a' = _
  rw [List.foldlM_cons, write_advance, hcheckpoint, if_neg ha]
  rfl

end SegmentIndex.Plan
