import SegmentIndex.Proofs.Log
import SegmentIndex.Proofs.Operations

/-!
# A log keeps every entry once

The appends that succeed put their entries one behind another (`Tiles`): the first entry starts
where the log starts, each next one starts where the one before it ends, and the log ends with the
last. Whatever else is done to a segment, its log consists of these entries (`Log.ConsistsOf`).

Reading a stretch of the log gives the entries that *start* in it. So it makes no difference whether
a stretch is cut between two entries or in the middle of one: stretches one behind another give what
the whole gives, each entry once and in the order of the appends.
-/

namespace SegmentIndex

/-- Changes whose entries lie one behind another, from one place to another and without a gap. -/
def Tiles : Nat → List KeyUpdate → Nat → Prop
  | start, [], stop => start = stop
  | start, u :: rest, stop =>
    u.offset.val = start ∧ Tiles (start + LogEntry.sizeFor u.key) rest stop

namespace Tiles

variable {start stop : Nat} {entries : List KeyUpdate} {u : KeyUpdate}

theorem concat (h : Tiles start entries stop) (hu : u.offset.val = stop) :
    Tiles start (entries ++ [u]) (stop + LogEntry.sizeFor u.key) := by
  induction entries generalizing start with
  | nil =>
      obtain rfl : start = stop := h
      exact ⟨hu, rfl⟩
  | cons v rest ih => exact ⟨h.1, ih h.2⟩

theorem le (h : Tiles start entries stop) : start ≤ stop := by
  induction entries generalizing start with
  | nil => exact Nat.le_of_eq h
  | cons v rest ih => exact Nat.le_trans (Nat.le_add_right _ _) (ih h.2)

/-- Every entry lies between the two places. -/
theorem offset_mem (h : Tiles start entries stop) (hu : u ∈ entries) :
    start ≤ u.offset.val ∧ u.offset.val < stop := by
  induction entries generalizing start with
  | nil => exact absurd hu List.not_mem_nil
  | cons v rest ih =>
      obtain ⟨hv, hrest⟩ := h
      have hsize : 0 < LogEntry.sizeFor v.key := Nat.add_pos_left (by decide) _
      rcases List.mem_cons.mp hu with rfl | hu
      · have hle := hrest.le
        omega
      · have hbounds := ih hrest hu
        omega

theorem ascending (h : Tiles start entries stop) :
    entries.Pairwise fun a b => a.offset < b.offset := by
  induction entries generalizing start with
  | nil => exact .nil
  | cons v rest ih =>
      obtain ⟨hv, hrest⟩ := h
      refine List.pairwise_cons.mpr ⟨fun w hw => ?_, ih hrest⟩
      have hsize : 0 < LogEntry.sizeFor v.key := Nat.add_pos_left (by decide) _
      have hbounds := hrest.offset_mem hw
      rw [Offset.lt_iff_val]
      omega

end Tiles

/-! ## Logs as rows of entries -/

namespace Log

variable {log log' : Log} {first middle last : Offset} {entries l l' : List KeyUpdate}
  {key : TableKey} {removal : Bool} {o : Offset}

/-- The log is the row of the entries that make these changes, in this order. -/
structure ConsistsOf (log : Log) (entries : List KeyUpdate) : Prop where
  tiles : Tiles 0 entries log.length.val
  mem_iff : ∀ {u : KeyUpdate}, u ∈ entries ↔ log.entries[u.offset]? = some ⟨u.key, u.deleted⟩

theorem consistsOf_empty : Log.empty.ConsistsOf [] where
  tiles := rfl
  mem_iff := by simp [Log.empty]

/-- **An append adds its entry to the row.** -/
theorem ConsistsOf.append? (h : log.ConsistsOf entries)
    (happend : log.append? key removal = some log') :
    log'.ConsistsOf (entries ++ [⟨⟨log.length, removal⟩, key⟩]) := by
  obtain ⟨hlength, hentries⟩ := append?_eq_some_iff.mp happend
  refine ⟨hlength ▸ h.tiles.concat rfl, fun {u} => ?_⟩
  rw [hentries, Maps.getElem?_insert, List.mem_append, List.mem_singleton]
  split
  · -- the entries before it all start below the old end
    rename_i hu
    have hnot : u ∉ entries := fun hmem =>
      absurd (h.tiles.offset_mem hmem).2 (Nat.not_lt.mpr (congrArg Offset.val hu).le)
    obtain ⟨⟨o, deleted⟩, k⟩ := u
    obtain rfl : log.length = o := hu
    simp [hnot, eq_comm, and_comm]
  · rename_i hu
    rw [h.mem_iff, or_iff_left]
    rintro rfl
    exact hu rfl

/-- **There is room for an entry** up to the largest offset, and not beyond. -/
theorem append?_eq_none_iff :
    log.append? key removal = none ↔
      Offset.top.val < log.length.val + LogEntry.sizeFor key := by
  rw [append?_eq_map, Option.map_eq_none_iff]
  exact Offset.ofNat?_eq_none_iff

/-! ## Reading a stretch -/

theorem IsStretch.eq (h : log.IsStretch first last l) (h' : log.IsStretch first last l') :
    l = l' := by
  have : Std.Irrefl fun a b : KeyUpdate => a.offset < b.offset := ⟨fun a => lt_irrefl a.offset⟩
  have : Std.Antisymm fun a b : KeyUpdate => a.offset < b.offset :=
    ⟨fun _ _ hab hba => (lt_asymm hab hba).elim⟩
  exact List.Pairwise.eq_of_mem_iff h.ascending h'.ascending fun _ =>
    h.mem_iff.trans h'.mem_iff.symm

/-- A stretch and the one behind it. -/
theorem IsStretch.append (h : log.IsStretch first middle l) (h' : log.IsStretch middle last l')
    (hfirst : first ≤ middle) (hlast : middle ≤ last) : log.IsStretch first last (l ++ l') where
  mem_iff {u} := by
    rw [List.mem_append, h.mem_iff, h'.mem_iff]
    constructor
    · intro hu
      rcases hu with ⟨hle, hlt, hentry⟩ | ⟨hle, hlt, hentry⟩
      · exact ⟨hle, lt_of_lt_of_le hlt hlast, hentry⟩
      · exact ⟨le_trans hfirst hle, hlt, hentry⟩
    · intro hu
      obtain ⟨hle, hlt, hentry⟩ := hu
      rcases lt_or_ge u.offset middle with hbelow | habove
      · exact .inl ⟨hle, hbelow, hentry⟩
      · exact .inr ⟨habove, hlt, hentry⟩
  ascending := List.pairwise_append.mpr ⟨h.ascending, h'.ascending, fun _ ha _ hb =>
    lt_of_lt_of_le (h.mem_iff.mp ha).2.1 (h'.mem_iff.mp hb).1⟩

/-- **Stretches one behind another** are read one by one, wherever they are cut. -/
theorem updatesIn?_append (log : Log) (hfirst : first ≤ middle) (hlast : middle ≤ last) :
    ∃ l l', log.updatesIn? first middle = some l ∧ log.updatesIn? middle last = some l' ∧
      log.updatesIn? first last = some (l ++ l') := by
  obtain ⟨l, hl, hstretch⟩ := log.updatesIn?_eq_some hfirst
  obtain ⟨l', hl', hstretch'⟩ := log.updatesIn?_eq_some hlast
  obtain ⟨whole, hwhole, hboth⟩ := log.updatesIn?_eq_some (le_trans hfirst hlast)
  refine ⟨l, l', hl, hl', ?_⟩
  rw [hwhole, hboth.eq (hstretch.append hstretch' hfirst hlast)]

theorem ConsistsOf.updatesIn?_eq (h : log.ConsistsOf entries) (hle : first ≤ last) :
    log.updatesIn? first last
      = some (entries.filter fun u => first ≤ u.offset && u.offset < last) := by
  obtain ⟨l, hl, hstretch⟩ := log.updatesIn?_eq_some hle
  rw [hl]
  refine congrArg some (hstretch.eq ⟨fun {u} => ?_, h.tiles.ascending.filter _⟩)
  rw [List.mem_filter, h.mem_iff, Bool.and_eq_true, decide_eq_true_eq, decide_eq_true_eq]
  exact ⟨fun ⟨hentry, hfirst, hlast⟩ => ⟨hfirst, hlast, hentry⟩,
    fun ⟨hfirst, hlast, hentry⟩ => ⟨hentry, hfirst, hlast⟩⟩

/-- **A key is read** where an entry starts that puts it in place. -/
theorem liveKeyAt?_eq_some_iff :
    log.liveKeyAt? o = some key ↔ log.entries[o]? = some ⟨key, false⟩ := by
  unfold liveKeyAt?
  cases log.entries[o]? with
  | none => simp
  | some e =>
      obtain ⟨k, r⟩ := e
      cases r <;> simp [Option.filter]

end Log

/-! ## Histories -/

namespace Segment

/-- What an operation adds to the log: the change that the entry makes, at the offset that the
append has returned. -/
def added (s : Segment) : Operation → List KeyUpdate
  | .append key removal =>
    match (s.append key removal).1 with
    | .ok o => [LogEntry.toUpdate o ⟨key, removal⟩]
    | .error _ => []
  | _ => []

/-- What the appends among some operations add to the log, those that succeed, in order. -/
def appended (s : Segment) : List Operation → List KeyUpdate
  | [] => []
  | operation :: rest => s.added operation ++ (s.undergo operation).appended rest

variable {s : Segment} {entries : List KeyUpdate}

/-- Only an append changes the log. -/
theorem log_undergo {operation : Operation}
    (h : ∀ key removal, operation ≠ .append key removal) :
    (s.undergo operation).log = s.log := by
  rcases s.undergo_cases operation with ⟨key, removal, _, heq, _⟩ | ⟨_, _, _, _, heq⟩ | hsame
  · exact absurd heq (h key removal)
  · rw [heq]
    rfl
  · exact hsame.log

theorem consistsOf_undergo (h : s.log.ConsistsOf entries) (operation : Operation) :
    (s.undergo operation).log.ConsistsOf (entries ++ s.added operation) := by
  by_cases happends : ∃ key removal, operation = .append key removal
  · obtain ⟨key, removal, rfl⟩ := happends
    rcases s.append_cases key removal with ⟨log, _, happend, heq⟩ | ⟨_, e, heq⟩
    · rw [added, undergo, heq]
      exact h.append? happend
    · rw [added, undergo, heq]
      exact (List.append_nil entries).symm ▸ h
  · have hno : ∀ key removal, operation ≠ .append key removal := fun key removal heq =>
      happends ⟨key, removal, heq⟩
    have hnone : s.added operation = [] := by
      cases operation with
      | append key removal => exact absurd rfl (hno key removal)
      | _ => rfl
    rw [log_undergo hno, hnone, List.append_nil]
    exact h

/-- **The log consists of what has been appended to it.** -/
theorem consistsOf_foldl (h : s.log.ConsistsOf entries) (l : List Operation) :
    (l.foldl undergo s).log.ConsistsOf (entries ++ s.appended l) := by
  induction l generalizing s entries with
  | nil => exact (List.append_nil entries).symm ▸ h
  | cons operation rest ih =>
      have hrest := ih (consistsOf_undergo h operation)
      rwa [List.append_assoc] at hrest

/-- **An append succeeds** if the segment is not sealed and there is room for the entry. -/
theorem append_eq_ok_iff (s : Segment) (key : TableKey) (removal : Bool) :
    (∃ o, (s.append key removal).1 = .ok o) ↔
      s.isSealed = false ∧ s.log.length.val + LogEntry.sizeFor key ≤ Offset.top.val := by
  have hroom : s.log.append? key removal = none ↔
      Offset.top.val < s.log.length.val + LogEntry.sizeFor key := Log.append?_eq_none_iff
  rw [← not_lt, ← hroom]
  rcases s.append_cases key removal with ⟨log, hsealed, happend, heq⟩ | ⟨hcause, e, heq⟩
  · rw [heq, hsealed, happend]
    simp
  · rw [heq]
    rcases hcause with hsealed | hfull
    · simp [hsealed]
    · simp [hfull]

/-- **The log keeps every entry exactly once, and what is read from it composes.** After any history
of a segment, with the entries that its successful appends have returned the offsets of:

* the entries lie one behind another, from the start of the log to its end;
* an append succeeds if the segment is not sealed and the entry does not go past the largest offset,
  and one that fails changes nothing; nothing else changes the log;
* reading a stretch gives exactly the entries that start in it, in the order of the appends;
* reading it in two parts, cut anywhere, gives the same;
* a key is read at an offset if and only if an entry that puts that key in place starts there. -/
theorem entries_history (id : SegmentId) (l : List Operation) :
    Tiles 0 (appended (.empty id) l) (history id l).log.length.val ∧
    (∀ key removal,
      ((∃ o, ((history id l).append key removal).1 = .ok o) ↔ (history id l).isSealed = false ∧
        (history id l).log.length.val + LogEntry.sizeFor key ≤ Offset.top.val) ∧
      ∀ e, ((history id l).append key removal).1 = .error e →
        ((history id l).append key removal).2 = history id l) ∧
    (∀ operation, (∀ key removal, operation ≠ .append key removal) →
      ((history id l).undergo operation).log = (history id l).log) ∧
    (∀ first last, first ≤ last → (serve (.readUpdates first last) (history id l)).1
      = some ((appended (.empty id) l).filter fun u => first ≤ u.offset && u.offset < last)) ∧
    (∀ first middle last, first ≤ middle → middle ≤ last → ∃ updates updates',
      (serve (.readUpdates first middle) (history id l)).1 = some updates ∧
      (serve (.readUpdates middle last) (history id l)).1 = some updates' ∧
      (serve (.readUpdates first last) (history id l)).1 = some (updates ++ updates')) ∧
    (∀ o key, (serve (.readKey o) (history id l)).1 = .ok (some key) ↔
      KeyUpdate.mk ⟨o, false⟩ key ∈ appended (.empty id) l) := by
  have hlog : (history id l).log.ConsistsOf (appended (.empty id) l) :=
    consistsOf_foldl (s := .empty id) Log.consistsOf_empty l
  refine ⟨hlog.tiles, fun key removal => ⟨append_eq_ok_iff _ key removal, fun e he => ?_⟩,
    fun operation => log_undergo, fun first last hle => hlog.updatesIn?_eq hle,
    fun first middle last hfirst hlast => (history id l).log.updatesIn?_append hfirst hlast,
    fun o key => ?_⟩
  · rcases (history id l).append_cases key removal with ⟨log, _, _, heq⟩ | ⟨_, _, heq⟩
    · rw [heq] at he
      exact absurd he (by simp)
    · rw [heq]
  · rw [hlog.mem_iff, ← Log.liveKeyAt?_eq_some_iff]
    exact ⟨Except.ok.inj, congrArg Except.ok⟩

/-- Three entries, at 0, 17 and 33, the second of them with a key of no bytes; an append to the
sealed segment adds none. -/
def threeEntries : List Operation :=
  [.append ⟨[97]⟩ false, .append ⟨[]⟩ false, .append ⟨[97]⟩ true, .sealOff, .append ⟨[98]⟩ false]

/-- A stretch that is cut in the middle of the first and the second entry. -/
theorem entries_history_threeEntries :
    Offset.clamp 5 ≤ Offset.clamp 20 ∧
    (serve (.readUpdates (.clamp 5) (.clamp 20)) (history 1 threeEntries)).1
      = some [⟨⟨.clamp 17, false⟩, ⟨[]⟩⟩] ∧
    ((history 1 threeEntries).append ⟨[98]⟩ false).1 = .error (.segmentSealed 1) ∧
    ((history 1 threeEntries).append ⟨[98]⟩ false).2 = history 1 threeEntries := by
  obtain ⟨_, happend, _, hread, _⟩ := entries_history 1 threeEntries
  have hle : Offset.clamp 5 ≤ Offset.clamp 20 := by decide
  have hsealed : ((history 1 threeEntries).append ⟨[98]⟩ false).1 = .error (.segmentSealed 1) := rfl
  exact ⟨hle, (hread _ _ hle).trans (by decide +kernel), hsealed, (happend _ _).2 _ hsealed⟩

end Segment

end SegmentIndex
