import Mathlib.Data.List.Find
import SegmentIndex.Program.Pass
import SegmentIndex.Proofs.Grouping
import SegmentIndex.Proofs.Walk

/-!
# Collecting the keys of a bucket

The entries that a walk gives are upserts of the bucket, and entries of a log never change, so the
keys that are read for them do not depend on when they are read. A bucket update comes out of it
consistent, whatever the walk has seen, and if the checkpoint has not moved it knows exactly the
keys that are live in the bucket (`gives_withIndexedKeys`).
-/

namespace SegmentIndex

open Attempt Segment

variable {hash : TableKey → KeyHash} {s s' : Segment} {c c' : Offset} {b : KeyHash}

/-- Whether a key is what an entry puts in place. -/
def Log.upserts (log : Log) (key : TableKey) (o : Offset) : Bool :=
  log.entries[o]? = some ⟨key, false⟩

theorem BucketUpdate.withExistingKey_of_none {u : BucketUpdate} {info : KeyInfo}
    (h : u.existing[info.key]? = none) :
    u.withExistingKey info = { u with existing := u.existing.insert info.key info.offset } := by
  unfold withExistingKey
  rw [h]
  rfl

/-- **Attaching keys**: each key of the entries is attached at the newest of them, and nothing else
about the update changes. -/
theorem reads_attachKeys (h : s.Indexed hash c) {l : List Offset} {seen : Std.ExtTreeSet TableKey}
    {u : BucketUpdate} (hl : ∀ o ∈ l, s.log.HasUpsert hash u.bucket.hash o)
    (hseen : ∀ key, key ∈ seen ↔ (u.existing[key]?).isSome) :
    (attachKeys (.total hash) seen u l).Reads (Evolves hash)
      (fun r s' => (∃ c', Since hash s c s' c') ∧ ∃ n u', r = (.ok n, u') ∧
        u'.bucket = u.bucket ∧ u'.changes = u.changes ∧
        ∀ key, u'.existing[key]? = u.existing[key]?.or (l.find? (s.log.upserts key))) s := by
  -- `seen` holds the keys that are attached, all the way down the list
  induction l generalizing s c seen u with
  | nil => exact ⟨⟨c, .refl h⟩, seen.size, u, rfl, rfl, rfl, fun key => by simp⟩
  | cons entry rest ih =>
      obtain ⟨key, hhash, he⟩ := hl entry List.mem_cons_self
      rw [attachKeys]
      refine Program.Reads.bind (gives_readKey h he) ?_
      intro result s₁ hpost
      obtain ⟨_, rfl, ⟨c₁, hsince⟩, rfl⟩ := hpost
      have hrest : ∀ o ∈ rest, s₁.log.HasUpsert hash u.bucket.hash o := fun o ho =>
        hsince.extends_log.hasUpsert h.bounded (hl o (List.mem_cons_of_mem _ ho))
      -- the entries that follow are the same in the log as it is now
      have hfind : ∀ k, rest.find? (s₁.log.upserts k) = rest.find? (s.log.upserts k) := by
        intro k
        refine List.find?_congr fun o ho => ?_
        obtain ⟨_, _, heo⟩ := hl o (List.mem_cons_of_mem _ ho)
        unfold Log.upserts
        rw [hsince.extends_log.entry h.bounded heo, heo]
      have hcons : ∀ k, (entry :: rest).find? (s.log.upserts k)
          = if key = k then some entry else rest.find? (s.log.upserts k) := by
        intro k
        rw [List.find?_cons]
        unfold Log.upserts
        by_cases hk : key = k <;> simp [he, hk]
      dsimp only
      rw [if_neg (not_not.mpr hhash)]
      -- a key that has been seen keeps its newer entry
      by_cases hin : key ∈ seen
      · rw [if_pos hin]
        refine (ih hsince.indexed hrest hseen).mono ?_
        intro result s₂ hpost
        obtain ⟨⟨c₂, hsince₂⟩, n, u', rfl, hbucket, hchanges, hexisting⟩ := hpost
        refine ⟨⟨c₂, hsince.trans hsince₂⟩, n, u', rfl, hbucket, hchanges, fun k => ?_⟩
        rw [hexisting, hfind, hcons]
        by_cases hk : key = k
        · subst hk
          obtain ⟨o, ho⟩ := Option.isSome_iff_exists.mp ((hseen key).mp hin)
          rw [ho, Option.some_or, Option.some_or]
        · rw [if_neg hk]
      · rw [if_neg hin]
        have hnone : u.existing[key]? = none := by
          rw [← Option.not_isSome_iff_eq_none, ← hseen]
          exact hin
        have hattach : u.withExistingKey ⟨key, entry⟩
            = { u with existing := u.existing.insert key entry } :=
          BucketUpdate.withExistingKey_of_none hnone
        have hseen' : ∀ k, k ∈ seen.insert key
            ↔ ((u.withExistingKey ⟨key, entry⟩).existing[k]?).isSome := by
          intro k
          rw [Std.ExtTreeSet.mem_insert, Std.compare_eq_iff_eq, hattach, Maps.getElem?_insert,
            hseen]
          by_cases hk : key = k <;> simp [hk]
        refine (ih hsince.indexed (by rw [hattach]; exact hrest) hseen').mono ?_
        intro result s₂ hpost
        obtain ⟨⟨c₂, hsince₂⟩, n, u', rfl, hbucket, hchanges, hexisting⟩ := hpost
        rw [hattach] at hbucket hchanges
        refine ⟨⟨c₂, hsince.trans hsince₂⟩, n, u', rfl, hbucket, hchanges, fun k => ?_⟩
        rw [hexisting, hattach, Maps.getElem?_insert, hfind, hcons]
        by_cases hk : key = k
        · subst hk
          rw [if_pos rfl, if_pos rfl, hnone, Option.some_or, Option.none_or]
        · rw [if_neg hk, if_neg hk]

/-- In a chain, each live key is found at its entry. -/
theorem Log.find?_chain_eq_some_iff {log : Log} {key : TableKey} {o : Offset} :
    (log.chain hash c b).find? (log.upserts key) = some o
      ↔ hash key = b ∧ log.IsLive c key o := by
  have hlive : ∀ {o'}, o' ∈ log.chain hash c b → log.upserts key o' →
      hash key = b ∧ log.IsLive c key o' := by
    intro o' hmem hup
    obtain ⟨key', hhash, hlive⟩ := Log.mem_chain.mp hmem
    have hkey := of_decide_eq_true hup
    rw [hlive.1] at hkey
    obtain rfl : key' = key := (LogEntry.mk.inj (Option.some.inj hkey)).1
    exact ⟨hhash, hlive⟩
  constructor
  · intro hfind
    exact hlive (List.mem_of_find?_eq_some hfind) (List.find?_some hfind)
  · intro h
    obtain ⟨hhash, ho⟩ := h
    have hup : log.upserts key o := decide_eq_true ho.1
    have hmem : o ∈ log.chain hash c b := Log.mem_chain.mpr ⟨key, hhash, ho⟩
    obtain ⟨o', ho'⟩ := Option.isSome_iff_exists.mp (List.find?_isSome.mpr ⟨o, hmem, hup⟩)
    have hlive' := (hlive (List.mem_of_find?_eq_some ho') (List.find?_some ho')).2
    rw [ho', (Change.mk.inj (hlive'.unique ho)).1]

/-- **Collecting the keys of a bucket.** The bucket may have been located earlier, but by somebody
who saw it right. -/
theorem reads_collectExistingKeys (h : s.Indexed hash c) (hs : Since hash s c s' c')
    {u : BucketUpdate} (hhead : u.bucket.head = s.log.indexed hash c (.bucket u.bucket.hash))
    (hempty : u.existing = ∅) :
    (collectExistingKeys (.total hash) u).Reads (Evolves hash)
      (fun r s'' => ∃ c'', Since hash s' c' s'' c'' ∧ ∃ n u', r = (.ok n, u') ∧
        u'.bucket = u.bucket ∧ u'.changes = u.changes ∧ u'.isConsistent ∧
        (c'' = c → ∀ key o, u'.existing[key]? = some o ↔
          hash key = u.bucket.hash ∧ s.log.IsLive c key o)) s' := by
  unfold collectExistingKeys
  refine Program.Reads.bind (gives_bucketOffsets h hs hhead) ?_
  intro result s₁ hpost
  obtain ⟨l, rfl, c₁, hsince, hdescent, hl, hfresh⟩ := hpost
  have hseen : ∀ key, key ∈ (∅ : Std.ExtTreeSet TableKey) ↔ (u.existing[key]?).isSome := by
    intro key
    simp [hempty]
  refine (reads_attachKeys hsince.indexed hdescent.hasUpsert hseen).mono ?_
  intro result s₂ hpost
  obtain ⟨⟨c₂, hsince₂⟩, n, u', rfl, hbucket, hchanges, hexisting⟩ := hpost
  have hexisting : ∀ key, u'.existing[key]? = l.find? (s₁.log.upserts key) := by
    intro key
    rw [hexisting, hempty, Std.ExtTreeMap.getElem?_empty, Option.none_or]
  refine ⟨c₂, hsince.trans hsince₂, n, u', rfl, hbucket, hchanges, ?_, fun hc key o => ?_⟩
  -- the walk starts at the head, and finds nothing only if there is none
  · unfold BucketUpdate.isConsistent Bucket.isOccupied
    rw [hbucket, ← hl]
    cases l with
    | nil =>
        have : u'.existing = ∅ := Std.ExtTreeMap.ext_getElem? fun key => by simp [hexisting]
        simp [this]
    | cons o rest =>
        obtain ⟨key, _, he⟩ := hdescent.hasUpsert o List.mem_cons_self
        have hkey : u'.existing[key]? = some o := by
          rw [hexisting, List.find?_cons, Log.upserts, decide_eq_true he]
        have hne : u'.existing.isEmpty = false := Maps.isEmpty_eq_false_iff.mpr ⟨key, o, hkey⟩
        simp [hne]
  · have hc₁ : c₁ = c := le_antisymm (hc ▸ hsince₂.le) (le_trans hs.le hsince.le)
    have hagree := (hs.trans hsince).extends_log.agreeBelow h.le_length
    rw [hexisting, hfresh hc₁, Log.chain_congr hagree, Log.find?_chain_eq_some_iff]
    exact and_congr_right fun _ => Log.isLive_congr hagree.symm

theorem gives_withIndexedKeys (h : s.Indexed hash c) (hs : Since hash s c s' c')
    {u : BucketUpdate} (hhead : u.bucket.head = s.log.indexed hash c (.bucket u.bucket.hash))
    (hempty : u.existing = ∅) :
    Gives (Evolves hash)
      (fun u' s'' => ∃ c'', Since hash s' c' s'' c'' ∧
        u'.bucket = u.bucket ∧ u'.changes = u.changes ∧ u'.isConsistent ∧
        (c'' = c → ∀ key o, u'.existing[key]? = some o ↔
          hash key = u.bucket.hash ∧ s.log.IsLive c key o))
      (withIndexedKeys (.total hash) u) s' := by
  refine (Gives.lift (reads_collectExistingKeys h hs hhead hempty)).bind ?_
  intro r s'' hpost
  obtain ⟨c'', hsince, n, u', rfl, hu'⟩ := hpost
  exact .pure ⟨c'', hsince, hu'⟩

end SegmentIndex
