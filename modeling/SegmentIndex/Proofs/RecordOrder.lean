import Mathlib.Order.Bounds.Basic
import SegmentIndex.Proofs.Grouping
import SegmentIndex.Proofs.LinkChanges
import SegmentIndex.Proofs.Records

/-!
# Only the newest records count

A bucket update is told two kinds of things about a key: where it is indexed, and what the batch
makes of it. Such records may come in any order, the two kinds mixed. At any time the update goes
by one record on each subject, the newest one so far, and of equally new ones the first
(`BucketUpdate.holds_ofRecords`).

So a change that arrives late and is older than one that is known already neither brings a key back
nor takes it away: neither the order of the records nor what is older makes a difference to the
update (`BucketUpdate.ofRecords_eq`), nor to what is read off it (`BucketUpdate.ofRecords_newest`).
-/

namespace SegmentIndex

/-- What an update is told about a key. -/
inductive Record where
  /-- The key is indexed already, at this entry. -/
  | indexed (info : KeyInfo)
  /-- The batch changes the key. -/
  | changed (update : KeyUpdate)
  deriving DecidableEq

namespace Record

/-- A key on the side of the index, or on the side of the batch. -/
abbrev Subject := TableKey ⊕ TableKey

def subject : Record → Subject
  | indexed info => .inl info.key
  | changed update => .inr update.key

def offset : Record → Offset
  | indexed info => info.offset
  | changed update => update.offset

theorem exists_indexed_iff {p : Record → Prop} {key : TableKey} :
    (∃ r, p r ∧ r.subject = .inl key) ↔ ∃ info, p (.indexed info) ∧ info.key = key := by
  constructor
  · intro ⟨r, hr, hsubject⟩
    cases r with
    | indexed info => exact ⟨info, hr, Sum.inl.inj hsubject⟩
    | changed update => exact absurd hsubject Sum.inr_ne_inl
  · intro ⟨info, hinfo, hkey⟩
    exact ⟨.indexed info, hinfo, congrArg Sum.inl hkey⟩

theorem exists_changed_iff {p : Record → Prop} {key : TableKey} :
    (∃ r, p r ∧ r.subject = .inr key) ↔ ∃ update, p (.changed update) ∧ update.key = key := by
  constructor
  · intro ⟨r, hr, hsubject⟩
    cases r with
    | indexed info => exact absurd hsubject Sum.inl_ne_inr
    | changed update => exact ⟨update, hr, Sum.inr.inj hsubject⟩
  · intro ⟨update, hupdate, hkey⟩
    exact ⟨.changed update, hupdate, congrArg Sum.inr hkey⟩

end Record

namespace BucketUpdate

variable {u v : BucketUpdate} {b : Bucket} {r r' : Record} {records records' : List Record}
  {s : Record.Subject}

/-- The update with one more record. -/
def withRecord (u : BucketUpdate) : Record → BucketUpdate
  | .indexed info => u.withExistingKey info
  | .changed update => u.withKeyUpdate update

/-- The update for a bucket after some records. -/
def ofRecords (b : Bucket) (records : List Record) : BucketUpdate :=
  records.foldl withRecord (.empty b)

/-! ## The records that an update goes by -/

/-- The record on a subject that the update goes by, if it has been told of one. -/
def recordOn (u : BucketUpdate) : Record.Subject → Option Record
  | .inl key => u.existing[key]?.map fun o => .indexed ⟨key, o⟩
  | .inr key => u.changes[key]?.map fun ch => .changed ⟨ch, key⟩

/-- The update goes by this record. -/
def Holds (u : BucketUpdate) (r : Record) : Prop := u.recordOn r.subject = some r

theorem holds_indexed {info : KeyInfo} : u.Holds (.indexed info) ↔ info ∈ u.existingKeys := by
  rw [mem_existingKeys]
  obtain ⟨key, o⟩ := info
  simp [Holds, Record.subject, recordOn]

theorem holds_changed {update : KeyUpdate} :
    u.Holds (.changed update) ↔ update ∈ u.keyUpdates := by
  rw [mem_keyUpdates]
  obtain ⟨ch, key⟩ := update
  simp [Holds, Record.subject, recordOn]

theorem subject_of_recordOn (h : u.recordOn s = some r) : r.subject = s := by
  cases s with
  | inl key =>
      obtain ⟨o, _, rfl⟩ := Option.map_eq_some_iff.mp h
      rfl
  | inr key =>
      obtain ⟨ch, _, rfl⟩ := Option.map_eq_some_iff.mp h
      rfl

theorem recordOn_eq_some_iff : u.recordOn s = some r ↔ r.subject = s ∧ u.Holds r := by
  constructor
  · intro h
    obtain rfl := subject_of_recordOn h
    exact ⟨rfl, h⟩
  · rintro ⟨rfl, h⟩
    exact h

/-- There is one record on each subject. -/
theorem Holds.eq (h : u.Holds r) (h' : u.Holds r') (hsubject : r.subject = r'.subject) : r = r' :=
  Option.some.inj (h.symm.trans (hsubject ▸ h'))

/-- **An update is determined** by its bucket and the records it goes by. -/
theorem eq_of_holds (hbucket : u.bucket = v.bucket) (h : ∀ r, u.Holds r ↔ v.Holds r) : u = v := by
  have hrecord : ∀ s, u.recordOn s = v.recordOn s := fun s => Option.ext fun r => by
    rw [recordOn_eq_some_iff, recordOn_eq_some_iff, h]
  refine eq_of_getElem? hbucket (fun key => ?_) fun key => ?_
  · exact Option.map_injective (fun _ _ heq => by simpa using heq) (hrecord (.inl key))
  · exact Option.map_injective (fun _ _ heq => by simpa using heq) (hrecord (.inr key))

/-! ## One more record -/

theorem bucket_withRecord (u : BucketUpdate) (r : Record) : (u.withRecord r).bucket = u.bucket := by
  cases r with
  | indexed info => exact bucket_withExistingKey u info
  | changed update => exact bucket_withKeyUpdate u update

/-- **What one record does**: it takes its place if it is newer than the one that was there, and it
does nothing to the other subjects. -/
theorem recordOn_withRecord (u : BucketUpdate) (r : Record) (s : Record.Subject) :
    (u.withRecord r).recordOn s
      = if r.subject = s ∧ (u.recordOn s).all (·.offset < r.offset) then some r
        else u.recordOn s := by
  cases r with
  | indexed info =>
      cases s with
      | inl key =>
          unfold recordOn withRecord
          dsimp only
          rw [getElem?_existing_withExistingKey, apply_ite (Option.map _), Option.all_map]
          by_cases hkey : info.key = key
          · subst hkey
            exact if_congr (and_congr_left fun _ => iff_of_true rfl rfl) rfl rfl
          · simp [Record.subject, hkey]
      | inr key => simp [recordOn, withRecord, Record.subject]
  | changed update =>
      cases s with
      | inl key => simp [recordOn, withRecord, Record.subject, existing_withKeyUpdate]
      | inr key =>
          unfold recordOn withRecord
          dsimp only
          rw [getElem?_changes_withKeyUpdate, apply_ite (Option.map _), Option.all_map]
          by_cases hkey : update.key = key
          · subst hkey
            exact if_congr (and_congr_left fun _ => iff_of_true rfl rfl) rfl rfl
          · simp [Record.subject, hkey]

theorem holds_withRecord :
    (u.withRecord r).Holds r' ↔
      (r = r' ∧ ∀ x, u.recordOn r'.subject = some x → x.offset < r'.offset) ∨
        u.Holds r' ∧ (r.subject = r'.subject → r.offset ≤ r'.offset) := by
  unfold Holds
  rw [recordOn_withRecord]
  by_cases hsubject : r.subject = r'.subject
  · cases hknown : u.recordOn r'.subject with
    | none => grind
    | some x => grind
  · grind

/-! ## All records -/

theorem ofRecords_concat (b : Bucket) (records : List Record) (r : Record) :
    ofRecords b (records ++ [r]) = (ofRecords b records).withRecord r := by
  rw [ofRecords, List.foldl_append]
  rfl

theorem bucket_ofRecords (b : Bucket) (records : List Record) :
    (ofRecords b records).bucket = b := by
  induction records using List.reverseRecOn with
  | nil => rfl
  | append_singleton records r ih => rw [ofRecords_concat, bucket_withRecord, ih]

/-- **After all records** the update goes by the newest one on each subject. -/
theorem holds_ofRecords :
    (ofRecords b records).Holds r ↔ IsNewestOf Record.subject Record.offset records r := by
  induction records using List.reverseRecOn generalizing r with
  | nil =>
      have hnone : (ofRecords b []).recordOn r.subject = none := by cases r <;> rfl
      unfold Holds
      rw [hnone]
      exact ⟨nofun, fun h => absurd h.mem List.not_mem_nil⟩
  | append_singleton records last ih =>
      rw [ofRecords_concat, holds_withRecord, IsNewestOf.concat_iff]
      refine or_congr (and_congr_right fun _ => ?_) (and_congr_left fun _ => ih)
      constructor
      · -- none of the records is newer than the one that the update goes by
        intro hknown x hx hsubject
        obtain ⟨a, ha, hax⟩ := IsNewestOf.exists_of_mem Record.subject Record.offset hx
        have hheld := recordOn_eq_some_iff.mpr ⟨hax.trans hsubject, ih.mpr ha⟩
        exact lt_of_le_of_lt (ha.le hx hax.symm) (hknown a hheld)
      · intro hall x hx
        obtain ⟨hsubject, hheld⟩ := recordOn_eq_some_iff.mp hx
        exact hall x (ih.mp hheld).mem hsubject

/-- The subjects that the update goes by a record on are those that it has been told about. -/
theorem exists_holds_iff :
    (∃ r, (ofRecords b records).Holds r ∧ r.subject = s) ↔ ∃ r ∈ records, r.subject = s := by
  constructor
  · intro ⟨r, hr, hsubject⟩
    exact ⟨r, (holds_ofRecords.mp hr).mem, hsubject⟩
  · intro ⟨x, hx, hsubject⟩
    obtain ⟨r, hr, hrx⟩ := IsNewestOf.exists_of_mem Record.subject Record.offset hx
    exact ⟨r, holds_ofRecords.mpr hr, hrx.trans hsubject⟩

/-- **Neither the order of the records nor what is older makes a difference**, if equally new
records on one subject are the same. -/
theorem ofRecords_eq (b : Bucket)
    (hsame : ∀ r ∈ records, ∀ r' ∈ records,
      r.subject = r'.subject → r.offset = r'.offset → r = r')
    (hall : records ⊆ records')
    (holder : ∀ r ∈ records', r ∈ records ∨
      ∃ newer ∈ records, r.subject = newer.subject ∧ r.offset < newer.offset) :
    ofRecords b records' = ofRecords b records := by
  refine eq_of_holds (by rw [bucket_ofRecords, bucket_ofRecords]) fun r => ?_
  have hkeeps : ∀ {r}, (ofRecords b records).Holds r → (ofRecords b records').Holds r :=
    fun hr => holds_ofRecords.mpr ((holds_ofRecords.mp hr).of_subset hsame hall holder)
  refine ⟨fun hr => ?_, hkeeps⟩
  -- the few records are on its subject too, and what they come to is kept
  have hsubject : ∃ x ∈ records, x.subject = r.subject := by
    rcases holder r (holds_ofRecords.mp hr).mem with hmem | ⟨x, hx, hsubject, _⟩
    · exact ⟨r, hmem, rfl⟩
    · exact ⟨x, hx, hsubject.symm⟩
  obtain ⟨x, hx, hsubject⟩ := exists_holds_iff.mpr hsubject
  rwa [hr.eq (hkeeps hx) hsubject.symm]

theorem exists_existingKeys_iff {key : TableKey} :
    (∃ info ∈ (ofRecords b records).existingKeys, info.key = key) ↔
      ∃ info, .indexed info ∈ records ∧ info.key = key := by
  simp only [← holds_indexed]
  exact Record.exists_indexed_iff.symm.trans (exists_holds_iff.trans Record.exists_indexed_iff)

/-- A key counts as changed as soon as there is any change to it, whichever it goes by. -/
theorem isKeyUpdated_ofRecords_iff {key : TableKey} :
    (ofRecords b records).isKeyUpdated key ↔
      ∃ update, .changed update ∈ records ∧ update.key = key := by
  rw [isKeyUpdated_iff_mem]
  simp only [← holds_changed]
  exact Record.exists_changed_iff.symm.trans (exists_holds_iff.trans Record.exists_changed_iff)

/-! ## What is read off the update -/

theorem newest_eq_some_iff_isGreatest {o : Offset} :
    u.newest = some o ↔ IsGreatest {o | u.Survives o} o := by
  rw [newest_eq_some_iff]
  exact and_congr mem_newChain (forall_congr' fun o' => imp_congr_left mem_newChain)

/-- **Only the newest records count**, whatever an update has been told, and in whatever order. Of
the records of each kind it keeps the newest one for each key, and of equally new ones the first,
and nothing else. So records in another order come to the same update, and so do more records that
are older than some that are there, if equally new records of one kind for one key are the same; in
particular if no key is recorded twice at one offset.

In every such state the indexed keys and the changes that leave their key in place can be listed by
offset. The newest entry that the bucket is to have is the greatest one that survives: the entry of
an indexed key without a change, or of a change that leaves its key in place. There is none if there
are none of either. -/
theorem ofRecords_newest (b : Bucket) (records : List Record) :
    ∃ u, ofRecords b records = u ∧ u.bucket = b ∧
      -- the newest record of each kind for each key
      (∀ info, info ∈ u.existingKeys ↔
        IsNewestOf Record.subject Record.offset records (.indexed info)) ∧
      (∀ update, update ∈ u.keyUpdates ↔
        IsNewestOf Record.subject Record.offset records (.changed update)) ∧
      (u.existingKeys.Pairwise fun info other => info.key ≠ other.key) ∧
      (u.keyUpdates.Pairwise fun update other => update.key ≠ other.key) ∧
      (∀ key, (∃ info ∈ u.existingKeys, info.key = key) ↔
        ∃ info, .indexed info ∈ records ∧ info.key = key) ∧
      (∀ key, u.isKeyUpdated key ↔ ∃ update, .changed update ∈ records ∧ update.key = key) ∧
      -- the records in any order, with any older ones
      ((∀ r ∈ records, ∀ r' ∈ records,
          r.subject = r'.subject → r.offset = r'.offset → r = r') →
        ∀ records', records ⊆ records' →
          (∀ r ∈ records', r ∈ records ∨
            ∃ newer ∈ records, r.subject = newer.subject ∧ r.offset < newer.offset) →
          ofRecords b records' = u) ∧
      -- the lists by offset
      u.existingByOffset.Perm u.existingKeys ∧
      (u.existingByOffset.Pairwise fun info next => info.offset ≤ next.offset) ∧
      u.survivingByOffset.Perm (u.keyUpdates.filter (!·.deleted)) ∧
      (u.survivingByOffset.Pairwise fun update next => update.offset ≤ next.offset) ∧
      -- the newest entry after the batch
      (u.newest = none ↔ (∀ info ∈ u.existingKeys, u.isKeyUpdated info.key) ∧
        ∀ update ∈ u.keyUpdates, update.deleted) ∧
      ∀ o, u.newest = some o ↔ IsGreatest {o | u.Survives o} o := by
  refine ⟨_, rfl, bucket_ofRecords b records, fun info => ?_, fun update => ?_,
    pairwise_existingKeys _, pairwise_keyUpdates _, fun key => exists_existingKeys_iff,
    fun key => isKeyUpdated_ofRecords_iff, fun hsame records' hall holder => ?_,
    List.mergeSort_perm _ _, pairwise_mergeSort_offset KeyInfo.offset _, List.mergeSort_perm _ _,
    pairwise_mergeSort_offset (fun update : KeyUpdate => update.offset) _, newest_eq_none_iff,
    fun o => newest_eq_some_iff_isGreatest⟩
  · rw [← holds_indexed, holds_ofRecords]
  · rw [← holds_changed, holds_ofRecords]
  · exact ofRecords_eq b hsame hall holder

/-- One key stays and another one goes. -/
def mixedRecords : List Record :=
  [.changed ⟨⟨.clamp 60, false⟩, ⟨[97]⟩⟩, .indexed ⟨⟨[97]⟩, .clamp 30⟩,
    .changed ⟨⟨.clamp 70, true⟩, ⟨[98]⟩⟩, .indexed ⟨⟨[98]⟩, .clamp 40⟩,
    .changed ⟨⟨.clamp 50, true⟩, ⟨[97]⟩⟩]

/-- Older changes, which would have it the other way round. -/
def lateRecords : List Record :=
  [.changed ⟨⟨.clamp 55, true⟩, ⟨[97]⟩⟩, .changed ⟨⟨.clamp 65, false⟩, ⟨[98]⟩⟩,
    .indexed ⟨⟨[97]⟩, .clamp 20⟩]

/-- Changes that arrive too late neither take the one key away nor bring the other one back. -/
theorem ofRecords_newest_late :
    ((∀ r ∈ mixedRecords, ∀ r' ∈ mixedRecords,
        r.subject = r'.subject → r.offset = r'.offset → r = r') ∧
      mixedRecords ⊆ mixedRecords.reverse ++ lateRecords ∧
      ∀ r ∈ mixedRecords.reverse ++ lateRecords, r ∈ mixedRecords ∨
        ∃ newer ∈ mixedRecords, r.subject = newer.subject ∧ r.offset < newer.offset) ∧
    ofRecords (.vacant default) (mixedRecords.reverse ++ lateRecords)
      = ofRecords (.vacant default) mixedRecords ∧
    (ofRecords (.vacant default) mixedRecords).newest = some (.clamp 60) := by
  have hsame : ∀ r ∈ mixedRecords, ∀ r' ∈ mixedRecords,
      r.subject = r'.subject → r.offset = r'.offset → r = r' := by decide +kernel
  have hall : mixedRecords ⊆ mixedRecords.reverse ++ lateRecords := by decide +kernel
  have holder : ∀ r ∈ mixedRecords.reverse ++ lateRecords, r ∈ mixedRecords ∨
      ∃ newer ∈ mixedRecords, r.subject = newer.subject ∧ r.offset < newer.offset := by
    decide +kernel
  obtain ⟨u, rfl, _, _, _, _, _, _, _, horder, _⟩ :=
    ofRecords_newest (.vacant default) mixedRecords
  exact ⟨⟨hsame, hall, holder⟩, horder hsame _ hall holder, by decide +kernel⟩

end BucketUpdate

end SegmentIndex
