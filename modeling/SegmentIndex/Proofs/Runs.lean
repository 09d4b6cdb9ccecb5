import Mathlib
import SegmentIndex.Proofs.Commit

/-!
# Runs of one client

One client appends entries and runs index passes, to whatever offset it likes, on a segment that was
prepared for indexing. However it cuts the log, the segment is indexed up to the checkpoint in every
state on the way (`Segment.Reachable.exists_indexed`). A pass whose hashing is cancelled is no
exception: it moves nothing.

Two things are read off this invariant. The chains of the index hold exactly the live keys
(`Segment.chainLaw_reachable`), and the attributes depend on the log and the checkpoint alone, so it
makes no difference how the log was cut (`Segment.live_attributes_reachable`).
-/

namespace SegmentIndex

open Attempt Attributes

/-! ## A pass with nobody else there -/

section Pass

variable {hash : TableKey → KeyHash} {s : Segment} {c last : Offset} {w : Writer}

/-- **Planning, with nobody else there**, gives a fresh plan, unless there is something to hash and
that is cancelled. -/
theorem runAlone_planTo_cases (h : s.Indexed hash c) (hw : w.hash = .total hash) (hle : c ≤ last)
    (hlast : last ≤ s.log.length) (id : SegmentId) :
    s.Undisturbed ((w.planTo id last).runAlone s).state ∧
      ((∃ p, ((w.planTo id last).runAlone s).value = some (.ok p) ∧
          p.first = c ∧ p.last = last ∧ p.IsFresh hash s.log) ∨
        ∃ e, ((w.planTo id last).runAlone s).value = some (.error e) ∧ c < last ∧
          w.Cancels e) := by
  obtain ⟨first, hfirst, hsince, hund⟩ := (gives_lastIndexedOffset h id).runAlone .refl
  -- nobody else is there, so nothing moves while the pass reads
  obtain rfl : first = c := hsince.indexed.unique (h.undisturbed hund)
  obtain ⟨hvalue, hstate⟩ := runAlone_bind (f := fun first => w.planRange first last true) hfirst
  obtain ⟨hund', hplan⟩ :=
    (givesUnless_planRange hw hsince.indexed hle (hund.log ▸ hlast)).runAlone .refl
  have hund := hund.trans hund'
  refine ⟨hstate ▸ hund, ?_⟩
  rcases hplan with ⟨p, hp, c', hsince', rfl, rfl, hdescribes, hknows⟩ | ⟨e, he, hcancels⟩
  · have hfresh := hknows rfl (hsince'.indexed.unique (h.undisturbed hund))
    rw [hund.log] at hdescribes hfresh
    exact .inl ⟨p, hvalue.trans hp, rfl, rfl, hdescribes, hfresh⟩
  · exact .inr ⟨e, hvalue.trans he, hcancels⟩

theorem runAlone_planTo (h : s.Indexed hash c) (hw : w.HashesBy hash) (hle : c ≤ last)
    (hlast : last ≤ s.log.length) (id : SegmentId) :
    ∃ p, ((w.planTo id last).runAlone s).value = some (.ok p) ∧
      s.Undisturbed ((w.planTo id last).runAlone s).state ∧
      p.first = c ∧ p.last = last ∧ p.IsFresh hash s.log := by
  obtain ⟨hund, ⟨p, hp, hfresh⟩ | ⟨e, _, _, hcancels⟩⟩ :=
    runAlone_planTo_cases h hw.hash_eq hle hlast id
  · exact ⟨p, hp, hund, hfresh⟩
  · exact absurd hcancels (hw.not_cancels e)

/-- **An index pass, with nobody else there**, succeeds and indexes the log up to where it was told
to. Only if there is something to hash and that is cancelled does it fail, and then it leaves the
segment as it was. -/
theorem runAlone_indexTo_cases (h : s.Indexed hash c) (hw : w.hash = .total hash) (hle : c ≤ last)
    (hlast : last ≤ s.log.length) (id : SegmentId) :
    (∃ n, ((w.indexTo id last).runAlone s).value = some (.ok n)) ∧
        ((w.indexTo id last).runAlone s).state.Indexed hash last ∧
        s.log.Extends ((w.indexTo id last).runAlone s).state.log ∨
      (∃ e, ((w.indexTo id last).runAlone s).value = some (.error e) ∧ c < last ∧ w.Cancels e) ∧
        s.Undisturbed ((w.indexTo id last).runAlone s).state := by
  obtain ⟨hund, ⟨p, hp, rfl, rfl, hfresh⟩ | ⟨e, he, hcancels⟩⟩ :=
    runAlone_planTo_cases h hw hle hlast id
  · obtain ⟨hvalue, hstate⟩ := runAlone_bind (f := fun p => p.apply id) hp
    rw [← hund.log] at hfresh hlast
    obtain ⟨⟨n, hn⟩, hsince⟩ := hfresh.runApply (h.undisturbed hund) hlast id
    exact .inl ⟨⟨n, hvalue.trans hn⟩, hstate ▸ hsince.indexed,
      hstate ▸ hund.log ▸ hsince.extends_log⟩
  · obtain ⟨hvalue, hstate⟩ := runAlone_bind_of_error (f := fun p : Plan => p.apply id) he
    exact .inr ⟨⟨e, hvalue, hcancels⟩, hstate.symm ▸ hund⟩

theorem runAlone_indexTo (h : s.Indexed hash c) (hw : w.HashesBy hash) (hle : c ≤ last)
    (hlast : last ≤ s.log.length) (id : SegmentId) :
    (∃ n, ((w.indexTo id last).runAlone s).value = some (.ok n)) ∧
      ((w.indexTo id last).runAlone s).state.Indexed hash last ∧
      s.log.Extends ((w.indexTo id last).runAlone s).state.log := by
  rcases runAlone_indexTo_cases h hw.hash_eq hle hlast id with
    hindexed | ⟨⟨e, _, _, hcancels⟩, _⟩
  · exact hindexed
  · exact absurd hcancels (hw.not_cancels e)

end Pass

/-! ## Reading a chain -/

/-- The entries of a bucket: it is located, and its chain is walked. -/
def readChain (b : KeyHash) : Attempt IndexError (List Offset) := do
  let located ← ofStore (locateBuckets [b])
  match located[b]? with
  | some bucket => bucketOffsets bucket
  | none => crash

theorem gives_readChain {hash : TableKey → KeyHash} {s : Segment} {c : Offset}
    (h : s.Indexed hash c) (b : KeyHash) :
    Gives (Segment.Evolves hash)
      (fun l s' => ∃ c', Segment.Since hash s c s' c' ∧ IsDescent hash s'.log b l ∧
        (c' = c → l = s'.log.chain hash c b))
      (readChain b) s := by
  refine (gives_locateBuckets h [b]).ofStore.bind ?_
  intro located s₁ hpost
  obtain ⟨c₁, hsince, hlocated⟩ := hpost
  rw [hlocated, if_pos List.mem_cons_self]
  refine (gives_bucketOffsets hsince.indexed (.refl hsince.indexed) rfl).mono ?_
  intro l s₂ hpost
  obtain ⟨c₂, hsince₂, hdescent, _, hfresh⟩ := hpost
  refine ⟨c₂, hsince.trans hsince₂, hdescent, fun hc => ?_⟩
  have hc₁ : c₁ = c := le_antisymm (hc ▸ hsince₂.le) hsince.le
  rw [hfresh (hc.trans hc₁.symm), hc₁]
  exact Log.chain_congr (hsince₂.extends_log.agreeBelow (hc₁ ▸ hsince.indexed.le_length))

/-- **The chain law**: every bucket reads as the live entries of its hash below the checkpoint,
newest first, and the key that is read for an entry is the key that is live there. -/
def ChainLaw (hash : TableKey → KeyHash) (s : Segment) : Prop :=
  ∃ c, s.checkpoint = some c ∧ ∀ b : KeyHash, ∃ l,
    ((readChain b).runAlone s).value = some (.ok l) ∧ Offset.Descending l ∧
      (∀ o, o ∈ l ↔ s.log.LiveIn hash c b o) ∧
      ∀ o ∈ l, ∀ key, s.log.IsLive c key o →
        ((readKey o).runAlone s).value = some (.ok (some key))

theorem Segment.Indexed.chainLaw {hash : TableKey → KeyHash} {s : Segment} {c : Offset}
    (h : s.Indexed hash c) : ChainLaw hash s := by
  refine ⟨c, h.checkpoint_eq, fun b => ?_⟩
  obtain ⟨l, hvalue, ⟨c', hsince, _, hl⟩, hund⟩ := (gives_readChain h b).runAlone .refl
  obtain rfl := hl (hsince.indexed.unique (h.undisturbed hund))
  rw [hund.log] at hvalue
  refine ⟨_, hvalue, Log.descending_chain, fun o => Log.mem_chain, fun o _ key hlive => ?_⟩
  obtain ⟨k, hk, ⟨_, rfl⟩, _⟩ := (gives_readKey h hlive.1).runAlone .refl
  exact hk

/-! ## The runs -/

namespace Segment

/-- A segment with some entries that nobody has prepared for indexing. -/
inductive Unprepared : Segment → Prop where
  | empty (id : SegmentId) : Unprepared (.empty id)
  | append {s : Segment} (key : TableKey) (removal : Bool) :
      Unprepared s → Unprepared (s.append key removal).2

/-- What one client can come to that appends entries, removals among them, and indexes the log up to
any offset between the checkpoint and its end, on a segment prepared for indexing. -/
inductive Reachable (hash : TableKey → KeyHash) : Segment → Prop where
  | prepare {s : Segment} :
      Unprepared s → Reachable hash (s.writeAttributes initialMutations).2
  | append {s : Segment} (key : TableKey) (removal : Bool) :
      Reachable hash s → Reachable hash (s.append key removal).2
  | index {s : Segment} (w : Writer) (first last : Offset) :
      Reachable hash s → w.hash = .total hash → s.checkpoint = some first → first ≤ last →
        last ≤ s.log.length → Reachable hash ((w.indexTo s.id last).runAlone s).state

variable {hash : TableKey → KeyHash} {s s₁ s₂ : Segment} {c : Offset}

theorem Unprepared.spec (h : Unprepared s) :
    s.isSealed = false ∧ s.pendingReadFailure = none ∧ s.pendingWriteFailure = none ∧
      s.attributes = ∅ ∧ s.log.Bounded := by
  induction h with
  | empty id => exact ⟨rfl, rfl, rfl, rfl, Log.bounded_empty⟩
  | @append s key removal _ ih =>
      obtain ⟨hsealed, hread, hwrite, hattributes, hbounded⟩ := ih
      rcases s.append_cases key removal with ⟨log, _, happend, heq⟩ | ⟨_, e, heq⟩
      · rw [heq]
        exact ⟨hsealed, hread, hwrite, hattributes, hbounded.append? happend⟩
      · rw [heq]
        exact ⟨hsealed, hread, hwrite, hattributes, hbounded⟩

/-- **A segment prepared for indexing** is indexed up to its start. -/
theorem Unprepared.indexed_prepare (h : Unprepared s) :
    (s.writeAttributes initialMutations).2.Indexed hash .zero := by
  obtain ⟨hsealed, hread, hwrite, hattributes, hbounded⟩ := h.spec
  have happly : s.attributes.apply initialMutations
      = .ok (s.attributes.set .tableIndexOffset (some .zero)) := by
    rw [apply_eq_foldlM, hattributes]
    rfl
  rw [IsWritable.writeAttributes_of_ok ⟨hsealed, hwrite⟩ happly, hattributes]
  refine ⟨hsealed, hread, hwrite, hbounded, encoded_empty.set _ _, Nat.zero_le _, fun key => ?_⟩
  show (Attributes.set ∅ .tableIndexOffset (some .zero)).offset? key = s.log.indexed hash .zero key
  rw [offset?_set]
  have hchain : ∀ b, s.log.chain hash .zero b = [] := fun b =>
    List.eq_nil_iff_forall_not_mem.mpr fun o ho => Nat.not_lt_zero _ (Log.lt_of_mem_chain ho)
  cases key with
  | tableIndexOffset => rfl
  | bucket b =>
      rw [Log.indexed, hchain]
      rfl
  | backpointer o =>
      rw [Log.indexed_backpointer_of_le (Nat.zero_le _)]
      rfl

/-- **Whatever one client does, the segment stays indexed up to its checkpoint.** -/
theorem Reachable.exists_indexed (h : Reachable hash s) : ∃ c, s.Indexed hash c := by
  induction h with
  | prepare hs => exact ⟨.zero, hs.indexed_prepare⟩
  | append key removal _ ih =>
      obtain ⟨c, hc⟩ := ih
      exact ⟨c, (hc.append key removal).1⟩
  | @index s w first last _ hw hfirst hle hlast ih =>
      obtain ⟨c, hc⟩ := ih
      obtain rfl : c = first := Option.some.inj (hc.checkpoint_eq.symm.trans hfirst)
      rcases runAlone_indexTo_cases hc hw hle hlast s.id with ⟨_, hindexed, _⟩ | ⟨_, hund⟩
      · exact ⟨last, hindexed⟩
      · -- a pass whose hashing was cancelled has not moved the index
        exact ⟨c, hc.undisturbed hund⟩

theorem Reachable.indexed (h : Reachable hash s) (hc : s.checkpoint = some c) :
    s.Indexed hash c := by
  obtain ⟨c', hc'⟩ := h.exists_indexed
  rwa [Option.some.inj (hc.symm.trans hc'.checkpoint_eq)]

/-- **Chains hold exactly the live keys, over whole runs.** -/
theorem chainLaw_reachable (h : Reachable hash s) : ChainLaw hash s := by
  obtain ⟨c, hc⟩ := h.exists_indexed
  exact hc.chainLaw

/-- A writer that puts all keys into one bucket. -/
def oneBucket : Writer := { hash := .total fun _ => default, config := {} }

/-- A log of 51 bytes: two keys are put in place and the first one is removed again. -/
def sample : Segment :=
  ((((fresh 1).append ⟨[97]⟩ false).2.append ⟨[98]⟩ false).2.append ⟨[97]⟩ true).2

def indexedTo (s : Segment) (n : Nat) : Segment :=
  ((oneBucket.indexTo s.id (.clamp n)).runAlone s).state

theorem Reachable.indexedTo (h : Reachable (fun _ => default) s) (hc : s.checkpoint = some c)
    {n : Nat} (hle : c ≤ .clamp n) (hlast : .clamp n ≤ s.log.length) :
    Reachable (fun _ => default) (s.indexedTo n) ∧
      (s.indexedTo n).checkpoint = some (.clamp n) ∧ s.log.Extends (s.indexedTo n).log := by
  obtain ⟨_, hindexed, hext⟩ :=
    runAlone_indexTo (h.indexed hc) (w := oneBucket) ⟨rfl, rfl⟩ hle hlast s.id
  exact ⟨.index oneBucket c (.clamp n) h rfl hc hle hlast, hindexed.checkpoint_eq, hext⟩

theorem reachable_sample : Reachable (fun _ => default) sample :=
  .append _ _ (.append _ _ (.append _ _ (.prepare (.empty 1))))

theorem checkpoint_sample : sample.checkpoint = some .zero := by decide +kernel

theorem length_sample : sample.log.length = .clamp 51 := by decide +kernel

/-- The second key is live, and the first one is not. -/
theorem chainLaw_sample : ChainLaw (fun _ => default) (sample.indexedTo 51) ∧
    ((readChain default).runAlone (sample.indexedTo 51)).value = some (.ok [.clamp 17]) := by
  obtain ⟨hreach, _⟩ := reachable_sample.indexedTo (n := 51) checkpoint_sample (by decide)
    length_sample.ge
  exact ⟨chainLaw_reachable hreach, by cbv⟩

/-- **However the log is cut, the index comes out the same**, and it is this: the checkpoint, the
newest live entry of each bucket that has one, and for each live entry that is not the oldest of its
bucket the next older one. So nothing is kept for entries that are superseded or removed, nor for
the oldest entry of a bucket, nor for a bucket without entries. -/
theorem live_attributes_reachable (h₁ : Reachable hash s₁) (h₂ : Reachable hash s₂)
    (hc₁ : s₁.checkpoint = some c) (hc₂ : s₂.checkpoint = some c)
    (hlog : Log.AgreeBelow c s₁.log s₂.log) :
    s₁.attributes.live = s₂.attributes.live ∧
      ∀ key o, s₁.attributes.live[key]? = some o ↔ s₁.log.Shows hash c key o := by
  have hlive₁ : ∀ key, s₁.attributes.live[key]? = s₁.log.indexed hash c key := fun key => by
    rw [getElem?_live, (h₁.indexed hc₁).offset?_eq]
  have hlive₂ : ∀ key, s₂.attributes.live[key]? = s₂.log.indexed hash c key := fun key => by
    rw [getElem?_live, (h₂.indexed hc₂).offset?_eq]
  constructor
  · refine Std.ExtTreeMap.ext_getElem? fun key => ?_
    rw [hlive₁, hlive₂, Log.indexed_congr hlog]
  · intro key o
    rw [hlive₁, Log.indexed_eq_some_iff]

/-- The same log in one pass and in two, the first of which ends in the middle of an entry. -/
theorem live_attributes_sample :
    (sample.indexedTo 51).attributes.live
        = ((sample.indexedTo 20).indexedTo 51).attributes.live ∧
      ∀ key o, (sample.indexedTo 51).attributes.live[key]? = some o ↔
        (sample.indexedTo 51).log.Shows (fun _ => default) (.clamp 51) key o := by
  obtain ⟨honce, hc₁, hext₁⟩ := reachable_sample.indexedTo (n := 51) checkpoint_sample
    (by decide) length_sample.ge
  obtain ⟨hhalf, hc, hext⟩ := reachable_sample.indexedTo (n := 20) checkpoint_sample
    (by decide) (by rw [length_sample]; decide)
  obtain ⟨htwice, hc₂, hext₂⟩ := hhalf.indexedTo (n := 51) hc (by decide)
    (le_trans length_sample.ge hext.length_le)
  refine live_attributes_reachable honce htwice hc₁ hc₂ fun o ho => ?_
  rw [← hext₁.agreeBelow length_sample.ge o ho,
    ← (hext.trans hext₂).agreeBelow length_sample.ge o ho]

end Segment

end SegmentIndex
