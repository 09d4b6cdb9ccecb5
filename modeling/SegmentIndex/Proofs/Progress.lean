import SegmentIndex.Proofs.Exchanges
import SegmentIndex.Proofs.Runs
import SegmentIndex.Proofs.Transaction

/-!
# No pass fails without cause

A pass has many ways to fail: the log may refuse to answer, the reader may find values or links that
make no sense, a group may be inconsistent, the batch may be refused. None of them comes up as long
as one client works alone on a segment that was prepared for indexing, since the segment is indexed
up to its checkpoint all the time (`Segment.Reachable.exists_indexed`). What can fail is outside:
hashing that is handed to another thread may be cancelled there, so the pass is told of a writer
whose hashing is not (`Writer.HashesBy`).

What the pass has done it leaves alone: a second pass to the same offset plans an empty stretch of
the log, and writes nothing (`runAlone_indexTo_again`).
-/

namespace SegmentIndex

open Attempt

/-! ## Passes to the end of the log -/

theorem Program.run_bind_congr {σ α β : Type} {server : Program.Server σ} {p : Program α}
    {f g : α → Program β} {s : σ}
    (h : ∀ a, (f a).run server (p.run server s).state = (g a).run server (p.run server s).state) :
    (p.bind f).run server s = (p.bind g).run server s := by
  induction p generalizing s with
  | done a => exact h a
  | crash => rfl
  | note e p ih =>
      show { (p.bind f).run server s with events := e :: ((p.bind f).run server s).events } = _
      rw [ih h]
      rfl
  | call c k ih => exact ih _ h

/-- **A pass over the whole log** is the pass to where the log ends at the start: nothing is
appended to it before its length is read. -/
theorem runAlone_pass (w : Writer) (segment : SegmentId) (s : Segment) :
    (w.pass segment).runAlone s = (w.indexTo segment s.log.length).runAlone s := by
  unfold Writer.pass Writer.plan Writer.indexTo Writer.planTo
  rw [bind_assoc, bind_assoc]
  refine Program.run_bind_congr fun first => ?_
  have hund := (heeds_lastIndexedOffset segment).undisturbed s
  cases first with
  | error e => rfl
  | ok first =>
      show Program.run _ (Program.bind _ _) _ = Program.run _ (Program.bind _ _) _
      rw [← hund.log]
      rfl

/-! ## A second pass -/

variable {hash : TableKey → KeyHash} {s : Segment} {c last : Offset} {w : Writer}
  {u : BucketUpdate}

/-- **A pass to the checkpoint itself** changes nothing. It has nothing to hash, so its hashing
cannot be cancelled. -/
theorem runAlone_indexTo_again (h : s.Indexed hash c) (hw : w.hash = .total hash)
    (segment : SegmentId) :
    ((w.indexTo segment c).runAlone s).value = some (.ok 0) ∧
      s.Undisturbed ((w.indexTo segment c).runAlone s).state := by
  obtain ⟨hund, hplan⟩ := runAlone_planTo_cases h hw (le_refl c) h.le_length segment
  obtain ⟨p, hp, hfirst, hlast, hfresh⟩ :=
    hplan.resolve_right fun ⟨_, _, hlt, _⟩ => lt_irrefl c hlt
  obtain ⟨hvalue, hstate⟩ := runAlone_bind (f := fun p => p.apply segment) hp
  have hempty : p.writes ++ p.advance = [] := by
    by_contra hne
    exact absurd (hfresh.describes.lt_of_ne_nil hne) (by rw [hfirst, hlast]; exact lt_irrefl c)
  obtain ⟨hvalue', hstate'⟩ := Plan.runApply_of_mutations_nil segment
    ((w.planTo segment c).runAlone s).state (by rw [hfresh.mutations_eq_ok, hempty])
  refine ⟨hvalue.trans hvalue', ?_⟩
  have hs : ((w.indexTo segment c).runAlone s).state = ((w.planTo segment c).runAlone s).state :=
    hstate.trans hstate'
  rw [hs]
  exact hund

/-! ## Whatever one client has done before -/

/-- A group is consistent if its bucket has a head exactly when some of its keys are known. -/
theorem BucketUpdate.isConsistent_iff :
    u.isConsistent ↔ (u.bucket.isOccupied ↔ 0 < u.existing.size) := by
  have hempty : u.existing.isEmpty = true ↔ ¬0 < u.existing.size := by
    rw [Std.ExtTreeMap.isEmpty_eq_size_beq_zero, beq_iff_eq, Nat.not_lt, Nat.le_zero]
  unfold isConsistent
  rw [bne_iff_ne, ne_eq, Bool.eq_iff_iff, hempty]
  by_cases hsize : 0 < u.existing.size <;> simp [hsize]

namespace Segment

/-- **The next pass succeeds**, wherever it is told to stop between the checkpoint and the end of
the log, if its hashing is not cancelled. The log answers; the reader finds nothing wrong, and every
group has known keys exactly if its bucket has a head, so there is a batch; the batch goes through
and takes the checkpoint to where it was to go. Another pass to the same place finds nothing to do
and leaves everything as it is. -/
theorem pass_ok_reachable (h : Reachable hash s) (hw : w.HashesBy hash) :
    ∃ first, s.checkpoint = some first ∧ first ≤ s.log.length ∧
      (w.pass s.id).runAlone s = (w.indexTo s.id s.log.length).runAlone s ∧
      ∀ last, first ≤ last → last ≤ s.log.length →
        (∃ updates, s.log.updatesIn? first last = some updates) ∧
        (∃ p batch, ((w.planTo s.id last).runAlone s).value = some (.ok p) ∧
          p.mutations = .ok batch ∧
          ∀ u ∈ p.groups, (u.bucket.isOccupied ↔ 0 < u.existing.size)) ∧
        ∃ n s', ((w.indexTo s.id last).runAlone s).value = some (.ok n) ∧
          ((w.indexTo s.id last).runAlone s).state = s' ∧ s'.checkpoint = some last ∧
          ∀ w' : Writer, w'.hash = .total hash →
            ((w'.indexTo s.id last).runAlone s').value = some (.ok 0) ∧
              ((w'.indexTo s.id last).runAlone s').state.attributes = s'.attributes ∧
              ((w'.indexTo s.id last).runAlone s').state.appliedBatches = s'.appliedBatches := by
  obtain ⟨first, hfirst⟩ := h.exists_indexed
  refine ⟨first, hfirst.checkpoint_eq, hfirst.le_length, runAlone_pass w s.id s, ?_⟩
  intro last hle hlast
  obtain ⟨p, hp, _, _, _, hfresh⟩ := runAlone_planTo hfirst hw hle hlast s.id
  obtain ⟨⟨n, hn⟩, hindexed, _⟩ := runAlone_indexTo hfirst hw hle hlast s.id
  obtain ⟨updates, hupdates, _⟩ := s.log.updatesIn?_eq_some hle
  refine ⟨⟨updates, hupdates⟩, ⟨p, _, hp, hfresh.mutations_eq_ok, fun u hu => ?_⟩,
    n, _, hn, rfl, hindexed.checkpoint_eq, fun w' hw' => ?_⟩
  · exact BucketUpdate.isConsistent_iff.mp (hfresh.describes.isConsistent u hu)
  · obtain ⟨hagain, hund⟩ := runAlone_indexTo_again hindexed hw' s.id
    exact ⟨hagain, hund.attributes, hund.appliedBatches⟩

/-- The pass over the sample sets a head and moves the checkpoint. The next one writes nothing. -/
theorem pass_ok_sample :
    ((oneBucket.pass sample.id).runAlone sample).value = some (.ok 2) ∧
      (sample.indexedTo 51).checkpoint = some (.clamp 51) ∧
      ((oneBucket.indexTo sample.id (.clamp 51)).runAlone (sample.indexedTo 51)).value
        = some (.ok 0) := by
  obtain ⟨first, hfirst, _, hpass, hok⟩ :=
    pass_ok_reachable reachable_sample (w := oneBucket) ⟨rfl, rfl⟩
  obtain rfl : first = .zero := Option.some.inj (hfirst.symm.trans checkpoint_sample)
  rw [hpass, length_sample]
  obtain ⟨_, _, n, s', hn, rfl, hcheckpoint, hagain⟩ :=
    hok (.clamp 51) (by decide) length_sample.ge
  exact ⟨by cbv, hcheckpoint, (hagain oneBucket rfl).1⟩

end Segment

end SegmentIndex
