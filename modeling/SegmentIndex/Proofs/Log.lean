import SegmentIndex.Proofs.Maps
import SegmentIndex.Proofs.Offset
import SegmentIndex.Segment

/-!
# What a log says about its keys

Below an offset of the log, each key has at most one latest change (`Log.Latest`), and a key is
live where its latest change is an upsert (`Log.IsLive`). Everything the index holds is to be
explained by these two, so what is said of a checkpoint depends on the entries below it only.

A log only grows: appending puts an entry at the end, where no offset below the end can see it
(`Log.append?_extends`).
-/

namespace SegmentIndex

namespace Log

variable {log log' log'' : Log} {c c' : Offset} {key : TableKey}

theorem pairwise_entries (log : Log) : log.entries.toList.Pairwise fun p q => p.1 < q.1 :=
  Std.ExtTreeMap.ordered_keys_toList.imp fun hlt => Offset.compare_eq_lt.mp hlt

/-! ## Logs that grow -/

/-- Every entry starts before the end of the log. -/
def Bounded (log : Log) : Prop :=
  ∀ (o : Offset) (e : LogEntry), log.entries[o]? = some e → o < log.length

/-- Two logs have the same entries below an offset. -/
def AgreeBelow (c : Offset) (log log' : Log) : Prop :=
  ∀ o : Offset, o < c → log.entries[o]? = log'.entries[o]?

theorem AgreeBelow.symm (h : AgreeBelow c log log') : AgreeBelow c log' log :=
  fun o ho => (h o ho).symm

/-- A log has got longer, if anything. -/
structure Extends (log log' : Log) : Prop where
  length_le : log.length ≤ log'.length
  agree : AgreeBelow log.length log log'

theorem Extends.refl (log : Log) : Extends log log := ⟨le_refl _, fun _ _ => rfl⟩

theorem Extends.trans (h : Extends log log') (h' : Extends log' log'') : Extends log log'' where
  length_le := le_trans h.length_le h'.length_le
  agree o ho := (h.agree o ho).trans (h'.agree o (lt_of_lt_of_le ho h.length_le))

theorem Extends.agreeBelow (h : Extends log log') (hc : c ≤ log.length) : AgreeBelow c log log' :=
  fun o ho => h.agree o (lt_of_lt_of_le ho hc)

theorem append?_eq_map (log : Log) (key : TableKey) (removal : Bool) :
    log.append? key removal = (log.length.add? (LogEntry.sizeFor key)).map
      fun length => ⟨log.entries.insert log.length ⟨key, removal⟩, length⟩ := by
  unfold append?
  cases log.length.add? (LogEntry.sizeFor key) <;> rfl

/-- **Appending puts the entry where the log has ended**, and the log ends behind it. -/
theorem append?_eq_some_iff {removal : Bool} :
    log.append? key removal = some log' ↔
      log'.length.val = log.length.val + LogEntry.sizeFor key ∧
        log'.entries = log.entries.insert log.length ⟨key, removal⟩ := by
  rw [append?_eq_map, Option.map_eq_some_iff]
  constructor
  · intro h
    obtain ⟨length, hadd, rfl⟩ := h
    exact ⟨Offset.ofNat?_eq_some_iff.mp hadd, rfl⟩
  · intro h
    obtain ⟨hlength, hentries⟩ := h
    exact ⟨log'.length, Offset.ofNat?_eq_some_iff.mpr hlength, by rw [← hentries]⟩

theorem length_lt_of_append? {removal : Bool} (h : log.append? key removal = some log') :
    log.length < log'.length ∧
      log'.entries = log.entries.insert log.length ⟨key, removal⟩ := by
  obtain ⟨hlength, hentries⟩ := append?_eq_some_iff.mp h
  have hsize : 0 < LogEntry.sizeFor key := Nat.add_pos_left (by decide) _
  exact ⟨by rw [Offset.lt_iff_val, hlength]; exact Nat.lt_add_of_pos_right hsize, hentries⟩

/-- **Appending only adds.** -/
theorem append?_extends {removal : Bool} (h : log.append? key removal = some log') :
    Extends log log' := by
  obtain ⟨hlength, hentries⟩ := length_lt_of_append? h
  refine ⟨le_of_lt hlength, fun o ho => ?_⟩
  rw [hentries, Maps.getElem?_insert, if_neg (ne_of_gt ho)]

theorem Bounded.append? {removal : Bool} (hb : log.Bounded)
    (h : log.append? key removal = some log') : log'.Bounded := by
  obtain ⟨hlength, hentries⟩ := length_lt_of_append? h
  intro o e he
  rw [hentries, Maps.getElem?_insert] at he
  split at he
  · rename_i ho
    exact ho ▸ hlength
  · exact lt_trans (hb o e he) hlength

theorem bounded_empty : Log.empty.Bounded := by
  intro o e he
  exact absurd he (by simp [Log.empty])

theorem Extends.entry {o : Offset} {e : LogEntry} (h : Extends log log') (hb : log.Bounded)
    (he : log.entries[o]? = some e) : log'.entries[o]? = some e := by
  rw [← h.agree o (hb o e he), he]

/-! ## The latest change to a key -/

/-- The newest entry for a key below an offset makes this change. -/
def Latest (log : Log) (c : Offset) (key : TableKey) (change : Change) : Prop :=
  log.entries[change.offset]? = some ⟨key, change.deleted⟩ ∧ change.offset < c ∧
    ∀ (o : Offset) (removal : Bool), change.offset < o → o < c →
      log.entries[o]? ≠ some ⟨key, removal⟩

/-- An entry puts a key in place, and no other entry for the key starts after it and below an
offset. -/
def IsLive (log : Log) (c : Offset) (key : TableKey) (o : Offset) : Prop :=
  log.Latest c key ⟨o, false⟩

theorem Latest.unique {change change' : Change} (h : log.Latest c key change)
    (h' : log.Latest c key change') : change = change' := by
  have hoffset : change.offset = change'.offset := by
    -- an older one of the two would not be the latest
    refine le_antisymm (le_of_not_gt fun hlt => ?_) (le_of_not_gt fun hlt => ?_)
    · exact h'.2.2 _ _ hlt h.2.1 h.1
    · exact h.2.2 _ _ hlt h'.2.1 h'.1
  have hentry := h.1
  rw [hoffset, h'.1] at hentry
  obtain ⟨o, deleted⟩ := change
  obtain ⟨o', deleted'⟩ := change'
  simp_all

theorem IsLive.key_unique {key' : TableKey} {o : Offset} (h : log.IsLive c key o)
    (h' : log.IsLive c key' o) : key = key' := by
  have hentry := h.1
  rw [h'.1] at hentry
  exact (LogEntry.mk.inj (Option.some.inj hentry)).1.symm

theorem Latest.congr {change : Change} (h : log.Latest c key change)
    (hagree : AgreeBelow c log log') : log'.Latest c key change := by
  obtain ⟨hentry, hlt, hlast⟩ := h
  refine ⟨by rw [← hagree _ hlt, hentry], hlt, fun o removal hafter hbelow => ?_⟩
  rw [← hagree o hbelow]
  exact hlast o removal hafter hbelow

/-- What is said of an offset depends on the entries below it only. -/
theorem latest_congr {change : Change} (hagree : AgreeBelow c log log') :
    log.Latest c key change ↔ log'.Latest c key change :=
  ⟨fun h => h.congr hagree, fun h => h.congr hagree.symm⟩

theorem isLive_congr {o : Offset} (hagree : AgreeBelow c log log') :
    log.IsLive c key o ↔ log'.IsLive c key o := latest_congr hagree

/-- **What is live further up**: what came in between, and what was live before and has not been
touched since. -/
theorem isLive_iff (hc : c ≤ c') {o : Offset} :
    log.IsLive c' key o ↔
      (c ≤ o ∧ log.IsLive c' key o) ∨
        (log.IsLive c key o ∧ ∀ (o' : Offset) (removal : Bool), c ≤ o' → o' < c' →
          log.entries[o']? ≠ some ⟨key, removal⟩) := by
  constructor
  · intro hlive
    obtain ⟨hentry, hlt, hlast⟩ := hlive
    -- the entry lies on one side of `c` or the other
    by_cases hco : c ≤ o
    · exact .inl ⟨hco, hentry, hlt, hlast⟩
    · have hoc : o < c := lt_of_not_ge hco
      refine .inr ⟨⟨hentry, hoc, ?_⟩, ?_⟩
      · exact fun o' removal ho hc' => hlast o' removal ho (lt_of_lt_of_le hc' hc)
      · exact fun o' removal ho hc' => hlast o' removal (lt_of_lt_of_le hoc ho) hc'
  · intro hor
    rcases hor with ⟨_, h⟩ | ⟨⟨hentry, hlt, hlast⟩, hrest⟩
    · exact h
    · refine ⟨hentry, lt_of_lt_of_le hlt hc, fun o' removal ho hc' => ?_⟩
      by_cases hco : c ≤ o'
      · exact hrest o' removal hco hc'
      · exact hlast o' removal ho (lt_of_not_ge hco)

/-! ## A stretch of the log -/

/-- The changes in a stretch of the log, in the order of the log. -/
structure IsStretch (log : Log) (first last : Offset) (updates : List KeyUpdate) : Prop where
  /-- The changes of the entries that start in the stretch, and no others. -/
  mem_iff : ∀ {update : KeyUpdate}, update ∈ updates ↔
    first ≤ update.offset ∧ update.offset < last ∧
      log.entries[update.offset]? = some ⟨update.key, update.deleted⟩
  ascending : updates.Pairwise fun a b => a.offset < b.offset

/-- **A log answers for every stretch that does not end before it starts.** -/
theorem updatesIn?_eq_some (log : Log) {first last : Offset} (h : first ≤ last) :
    ∃ updates, log.updatesIn? first last = some updates ∧ log.IsStretch first last updates := by
  unfold updatesIn?
  by_cases hempty : log.entries.isEmpty
  · refine ⟨[], if_pos hempty, ⟨?_, .nil⟩⟩
    intro update
    have hnone : log.entries[update.offset]? = none := by
      rw [Std.ExtTreeMap.isEmpty_iff.mp hempty, Std.ExtTreeMap.getElem?_empty]
    simp [hnone]
  · rw [if_neg hempty, if_neg (not_lt.mpr h)]
    refine ⟨_, rfl, ⟨?_, ?_⟩⟩
    · intro update
      rw [List.mem_map]
      constructor
      · intro hex
        obtain ⟨⟨start, e⟩, hp, rfl⟩ := hex
        obtain ⟨hmem, hrange⟩ := List.mem_filter.mp hp
        rw [Bool.and_eq_true, decide_eq_true_eq, decide_eq_true_eq] at hrange
        exact ⟨hrange.1, hrange.2, Std.ExtTreeMap.mem_toList_iff_getElem?_eq_some.mp hmem⟩
      · intro hstart
        obtain ⟨hfirst, hlast, hentry⟩ := hstart
        refine ⟨(update.offset, ⟨update.key, update.deleted⟩), List.mem_filter.mpr ⟨?_, ?_⟩, rfl⟩
        · exact Std.ExtTreeMap.mem_toList_iff_getElem?_eq_some.mpr hentry
        · rw [Bool.and_eq_true, decide_eq_true_eq, decide_eq_true_eq]
          exact ⟨hfirst, hlast⟩
    · rw [List.pairwise_map]
      exact log.pairwise_entries.filter _

theorem IsStretch.inj {first last : Offset} {updates : List KeyUpdate}
    (h : log.IsStretch first last updates) {a b : KeyUpdate} (ha : a ∈ updates) (hb : b ∈ updates)
    (hab : a.offset = b.offset) : a = b := by
  have hentry := (h.mem_iff.mp ha).2.2
  rw [hab, (h.mem_iff.mp hb).2.2] at hentry
  obtain ⟨⟨o, deleted⟩, key⟩ := a
  obtain ⟨⟨o', deleted'⟩, key'⟩ := b
  simp_all

end Log

end SegmentIndex
