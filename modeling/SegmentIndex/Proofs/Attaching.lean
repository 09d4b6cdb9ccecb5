import SegmentIndex.Proofs.Grouping
import SegmentIndex.Proofs.LinkPath
import SegmentIndex.Proofs.Records
import SegmentIndex.Proofs.Retry

/-!
# Attaching keys, and trying again

Whoever collects the keys of a bucket walks its chain and visits the entries, newest first. A visit
may find an entry at fault, and what has been attached until then stays attached. So it matters in
which state an update is left: it knows the newest entry that the visited ones have for each key
(`Collects`), and nothing else has changed.

That is why collecting can be repeated on the same update after a failure. What the failed calls
have attached are records of the same chain, which the call that succeeds attaches again
(`AfterFailures.spec`), and records that are told twice make no difference.
-/

namespace SegmentIndex

open Attempt Program

/-! ## Visiting entries -/

/-- What is wrong with an entry of a bucket, as far as the reply to the read of its key tells. -/
inductive Fault (hash : TableKey → KeyHash) (b : KeyHash) (o : Offset) :
    Except StoreError (Option TableKey) → IndexError → Prop where
  | unreadable {e : StoreError} : Fault hash b o (.error e) (.store e)
  | dead : Fault hash b o (.ok none) (.corruption (.deadEntry b o))
  | foreign {key : TableKey} : hash key ≠ b →
      Fault hash b o (.ok (some key)) (.corruption (.foreignEntry o b))

/-- Which of some entries have been visited, in order: those of the records, which have been
attached, and that is all of them, or the next one is at fault. -/
inductive Visits (allowed : Offset → Except StoreError (Option TableKey) → Prop)
    (hash : TableKey → KeyHash) (b : KeyHash) (records : List KeyInfo) :
    List Offset → List Offset → Option IndexError → Prop where
  | all : Visits allowed hash b records (records.map (·.offset)) (records.map (·.offset)) none
  | stopped {o : Offset} {rest : List Offset} {reply : Except StoreError (Option TableKey)}
      {e : IndexError} : allowed o reply → Fault hash b o reply e →
      Visits allowed hash b records (records.map (·.offset) ++ o :: rest)
        (records.map (·.offset) ++ [o]) (some e)

section Visiting

variable {σ : Type} {server : Server σ} {within : σ → Prop} {s : σ}
  {allowed : Offset → Except StoreError (Option TableKey) → Prop} {hash : TableKey → KeyHash}
  {b : KeyHash} {records : List KeyInfo} {l visited : List Offset} {ending : Option IndexError}
  {u : BucketUpdate} {seen : Std.ExtTreeSet TableKey} {o : Offset}

theorem Visits.cons (h : Visits allowed hash b records l visited ending) (info : KeyInfo) :
    Visits allowed hash b (info :: records) (info.offset :: l) (info.offset :: visited) ending := by
  cases h with
  | all => exact .all
  | stopped hallowed hfault => exact .stopped hallowed hfault

/-- The keys of some records along with others. -/
def keysSeen (seen : Std.ExtTreeSet TableKey) (records : List KeyInfo) :
    Std.ExtTreeSet TableKey :=
  records.foldl (fun seen info => seen.insert info.key) seen

theorem attachKeys_cons (hash : TableKey → KeyHash) (seen : Std.ExtTreeSet TableKey)
    (u : BucketUpdate) (o : Offset) (rest : List Offset) :
    attachKeys (.total hash) seen u (o :: rest) = .call (.readKey o) fun
      | .error e => .done (.error (.store e), u)
      | .ok none => .done (.error (.corruption (.deadEntry u.bucket.hash o)), u)
      | .ok (some key) =>
        if hash key ≠ u.bucket.hash then
          .done (.error (.corruption (.foreignEntry o u.bucket.hash)), u)
        else if key ∈ seen then attachKeys (.total hash) seen u rest
        else attachKeys (.total hash) (seen.insert key) (u.withExistingKey ⟨key, o⟩) rest := by
  rw [attachKeys]
  refine congrArg (Program.call _) (funext fun reply => ?_)
  cases reply with
  | error e => rfl
  | ok k => cases k <;> rfl

/-- Each key that has been seen is known at an entry newer than all those to come. -/
def IsAhead (seen : Std.ExtTreeSet TableKey) (u : BucketUpdate) (l : List Offset) : Prop :=
  ∀ key ∈ seen, ∃ o, u.existing[key]? = some o ∧ ∀ o' ∈ l, o' < o

/-- Visiting an entry of a key that has been seen comes to attaching it, which changes nothing. -/
theorem IsAhead.attachKeys_eq {rest : List Offset} (h : IsAhead seen u (o :: rest))
    (key : TableKey) :
    (if key ∈ seen then attachKeys (.total hash) seen u rest
      else attachKeys (.total hash) (seen.insert key) (u.withExistingKey ⟨key, o⟩) rest)
      = attachKeys (.total hash) (seen.insert key) (u.withExistingKey ⟨key, o⟩) rest := by
  by_cases hin : key ∈ seen
  · obtain ⟨o', hknown, hnewer⟩ := h key hin
    have hlt : o < o' := hnewer o List.mem_cons_self
    have hinsert : seen.insert key = seen := by
      refine Std.ExtTreeSet.ext_mem fun k => ?_
      rw [Std.ExtTreeSet.mem_insert, Std.compare_eq_iff_eq]
      exact or_iff_right_of_imp fun hk => hk ▸ hin
    rw [if_pos hin, hinsert, BucketUpdate.withExistingKey_of_le hknown (le_of_lt hlt)]
  · rw [if_neg hin]

theorem IsAhead.insert (h : IsAhead seen u (o :: l)) (hlt : ∀ o' ∈ l, o' < o) (key : TableKey) :
    IsAhead (seen.insert key) (u.withExistingKey ⟨key, o⟩) l := by
  intro k hk
  by_cases hsame : key = k
  · subst hsame
    obtain ⟨o₁, hknown, hle⟩ := u.exists_le_of_withExistingKey ⟨key, o⟩
    exact ⟨o₁, hknown, fun o' ho' => lt_of_lt_of_le (hlt o' ho') hle⟩
  · rw [Std.ExtTreeSet.mem_insert, Std.compare_eq_iff_eq] at hk
    obtain ⟨o₁, hknown, hnewer⟩ := h k (hk.resolve_left hsame)
    rw [BucketUpdate.getElem?_existing_withExistingKey, if_neg fun hcond => hsame hcond.1]
    exact ⟨o₁, hknown, fun o' ho' => hnewer o' (List.mem_cons_of_mem _ ho')⟩

/-- **Visiting entries, newest first**, attaches the records of all entries before the first one at
fault. -/
theorem attachKeys_spec (h : AnswersKeys server within allowed) (hs : within s)
    (hdesc : Offset.Descending l) (hseen : IsAhead seen u l) :
    ∃ records visited ending,
      (∀ info ∈ records, allowed info.offset (.ok (some info.key)) ∧
        hash info.key = u.bucket.hash) ∧
      Visits allowed hash u.bucket.hash records l visited ending ∧
      (attachKeys (.total hash) seen u l).calls server s = visited.map .readKey ∧
      ((attachKeys (.total hash) seen u l).run server s).value
        = some (ending.elim (.ok (keysSeen seen records).size) .error,
          records.foldl BucketUpdate.withExistingKey u) := by
  -- the keys seen so far stay ahead, all the way down the list
  induction l generalizing s seen u with
  | nil => exact ⟨[], [], none, by simp, .all, rfl, rfl⟩
  | cons o rest ih =>
      have hallowed := h.reply o s hs
      have hstays := h.stays (.readKey o) s trivial hs
      rw [attachKeys_cons, Program.run_call, Program.calls]
      cases hreply : (server (.readKey o) s).1 with
      | error e =>
          rw [hreply] at hallowed
          exact ⟨[], [o], _, by simp, .stopped hallowed .unreadable, rfl, rfl⟩
      | ok k =>
          rw [hreply] at hallowed
          cases k with
          | none => exact ⟨[], [o], _, by simp, .stopped hallowed .dead, rfl, rfl⟩
          | some key =>
              dsimp only
              by_cases hhash : hash key = u.bucket.hash
              · obtain ⟨hlt, hdesc⟩ := List.pairwise_cons.mp hdesc
                rw [if_neg (not_not.mpr hhash), hseen.attachKeys_eq key]
                obtain ⟨records, visited, ending, hsound, hvisits, hcalls, hvalue⟩ :=
                  ih hstays hdesc (hseen.insert hlt key)
                rw [BucketUpdate.bucket_withExistingKey] at hsound hvisits
                refine ⟨⟨key, o⟩ :: records, o :: visited, ending, ?_, hvisits.cons ⟨key, o⟩,
                  congrArg (_ :: ·) hcalls, hvalue⟩
                exact List.forall_mem_cons.mpr ⟨⟨hallowed, hhash⟩, hsound⟩
              · rw [if_pos hhash]
                exact ⟨[], [o], _, by simp, .stopped hallowed (.foreign hhash), rfl, rfl⟩

theorem mem_keysSeen {key : TableKey} :
    key ∈ keysSeen seen records ↔ key ∈ seen ∨ key ∈ records.map (·.key) := by
  unfold keysSeen
  induction records generalizing seen with
  | nil => simp
  | cons info rest ih =>
      rw [List.foldl_cons, ih, Std.ExtTreeSet.mem_insert, Std.compare_eq_iff_eq, List.map_cons,
        List.mem_cons, eq_comm, or_assoc, or_left_comm]

/-- Each key counts once. -/
theorem size_keysSeen_empty (records : List KeyInfo) :
    (keysSeen ∅ records).size = (records.map (·.key)).dedup.length := by
  have hdistinct : (keysSeen ∅ records).toList.Nodup :=
    Std.ExtTreeSet.distinct_toList.imp fun h heq => h (Std.compare_eq_iff_eq.mpr heq)
  have hperm : (keysSeen ∅ records).toList.Perm (records.map (·.key)).dedup := by
    refine (List.perm_ext_iff_of_nodup hdistinct (List.nodup_dedup _)).mpr fun key => ?_
    rw [Std.ExtTreeSet.mem_toList, mem_keysSeen, List.mem_dedup]
    exact or_iff_right (by simp)
  rw [← Std.ExtTreeSet.length_toList, hperm.length_eq]

end Visiting

/-! ## Collecting keys -/

/-- The records are entries of the bucket in the log, and the update that has come of them. -/
structure Attached (hash : TableKey → KeyHash)
    (log : Offset → Except StoreError (Option TableKey)) (u : BucketUpdate)
    (records : List KeyInfo) (u' : BucketUpdate) : Prop where
  sound : ∀ info ∈ records,
    log info.offset = .ok (some info.key) ∧ hash info.key = u.bucket.hash
  bucket : u'.bucket = u.bucket
  changes : u'.changes = u.changes
  newest : ∀ key, NewestEntry records key u'.existing[key]?

/-- What collecting the keys of a bucket comes to, given what the walk through it has come to: the
entries whose keys are read, the result, and the update after it. -/
inductive Collects (hash : TableKey → KeyHash)
    (log : Offset → Except StoreError (Option TableKey)) (u : BucketUpdate) :
    Except IndexError (List Offset) → List Offset → Except IndexError Nat → BucketUpdate →
      Prop where
  | lost {e : IndexError} : Collects hash log u (.error e) [] (.error e) u
  | all {records : List KeyInfo} {u' : BucketUpdate} :
      Offset.Descending (records.map (·.offset)) → Attached hash log u records u' →
      Collects hash log u (.ok (records.map (·.offset))) (records.map (·.offset))
        (.ok (records.map (·.key)).dedup.length) u'
  | stopped {records : List KeyInfo} {o : Offset} {rest : List Offset} {e : IndexError}
      {u' : BucketUpdate} :
      Offset.Descending (records.map (·.offset) ++ o :: rest) → Attached hash log u records u' →
      Fault hash u.bucket.hash o (log o) e →
      Collects hash log u (.ok (records.map (·.offset) ++ o :: rest))
        (records.map (·.offset) ++ [o]) (.error e) u'

section Collecting

variable {σ : Type} {server : Server σ} {within : σ → Prop} {s : σ}
  {allowed : Offset → Except StoreError (Option TableKey) → Prop} {hash : TableKey → KeyHash}
  {u : BucketUpdate}

/-- **Collecting the keys of a bucket** is a walk, and then a visit to the entries that it gives. -/
theorem collectExistingKeys_cases (h : AnswersKeys server within allowed) (hs : within s)
    (hash : TableKey → KeyHash) (u : BucketUpdate) :
    (∃ e, ((bucketOffsets u.bucket).run.run server s).value = some (.error e) ∧
      (collectExistingKeys (.total hash) u).calls server s
        = (bucketOffsets u.bucket).run.calls server s ∧
      ((collectExistingKeys (.total hash) u).run server s).value = some (.error e, u)) ∨
    ∃ l records visited ending, Offset.Descending l ∧
      ((bucketOffsets u.bucket).run.run server s).value = some (.ok l) ∧
      (∀ info ∈ records, allowed info.offset (.ok (some info.key)) ∧
        hash info.key = u.bucket.hash) ∧
      Visits allowed hash u.bucket.hash records l visited ending ∧
      (collectExistingKeys (.total hash) u).calls server s
        = (bucketOffsets u.bucket).run.calls server s ++ visited.map .readKey ∧
      ((collectExistingKeys (.total hash) u).run server s).value
        = some (ending.elim (.ok (records.map (·.key)).dedup.length) .error,
          records.foldl BucketUpdate.withExistingKey u) := by
  obtain ⟨walk, hwalk, hdesc, hwithin⟩ := (always_bucketOffsets u.bucket).run h.stays hs
  obtain ⟨rest, hcollect, herror, hok⟩ : ∃ rest,
      collectExistingKeys (.total hash) u = (bucketOffsets u.bucket).run.bind rest ∧
      (∀ e, rest (.error e) = .done (.error e, u)) ∧
      ∀ l, rest (.ok l) = attachKeys (.total hash) ∅ u l :=
    ⟨_, rfl, fun _ => rfl, fun _ => rfl⟩
  rw [hcollect, calls_bind hwalk, (run_bind hwalk).1]
  cases walk with
  | error e =>
      rw [herror]
      exact .inl ⟨e, hwalk, List.append_nil _, rfl⟩
  | ok l =>
      rw [hok]
      have hseen : IsAhead ∅ u l := by simp [IsAhead]
      obtain ⟨records, visited, ending, hsound, hvisits, hcalls, hvalue⟩ :=
        attachKeys_spec h hwithin (hdesc l rfl) hseen
      refine .inr ⟨l, records, visited, ending, hdesc l rfl, hwalk, hsound, hvisits, ?_, ?_⟩
      · rw [hcalls]
      · rw [hvalue, size_keysSeen_empty]

theorem exists_collects {log : Offset → Except StoreError (Option TableKey)}
    (h : AnswersKeys server within fun o reply => reply = log o) (hs : within s)
    (hempty : u.existing = ∅) :
    ∃ walk visited result u',
      ((bucketOffsets u.bucket).run.run server s).value = some walk ∧
      ((collectExistingKeys (.total hash) u).run server s).value = some (result, u') ∧
      (collectExistingKeys (.total hash) u).calls server s
        = (bucketOffsets u.bucket).run.calls server s ++ visited.map .readKey ∧
      Collects hash log u walk visited result u' := by
  rcases collectExistingKeys_cases h hs hash u with ⟨e, hwalk, hcalls, hvalue⟩ |
    ⟨l, records, visited, ending, hdesc, hwalk, hsound, hvisits, hcalls, hvalue⟩
  · exact ⟨_, [], _, _, hwalk, hvalue, by rw [hcalls]; simp, .lost⟩
  · have hattached : Attached hash log u records (records.foldl BucketUpdate.withExistingKey u) :=
      { sound := fun info hinfo => ⟨(hsound info hinfo).1.symm, (hsound info hinfo).2⟩
        bucket := u.bucket_foldl_withExistingKey records
        changes := u.changes_foldl_withExistingKey records
        newest := fun key => BucketUpdate.newestEntry_foldl
          (BucketUpdate.newestEntry_of_existing_eq_empty hempty) records key }
    refine ⟨_, visited, _, _, hwalk, hvalue, hcalls, ?_⟩
    cases hvisits with
    | all => exact .all hdesc hattached
    | stopped hreply hfault => exact .stopped hdesc hattached (hreply ▸ hfault)

end Collecting

/-! ## Trying again -/

/-- The update after some calls that have failed, each of them on what the last one has left. The
servers fail as they like, but reply for the same contents when they do not. -/
inductive AfterFailures (hash : TableKey → KeyHash) (contents : Contents) (u : BucketUpdate) :
    BucketUpdate → Prop where
  | none : AfterFailures hash contents u u
  | failed {σ : Type} {server : Server σ} {within : σ → Prop} {s : σ} {v v' : BucketUpdate}
      {e : IndexError} : AfterFailures hash contents u v → ServesOrFails server within contents →
      within s →
      ((collectExistingKeys (.total hash) v).run server s).value = some (.error e, v') →
      AfterFailures hash contents u v'

section Again

variable {σ σ' : Type} {server : Server σ} {server' : Server σ'} {within : σ → Prop}
  {within' : σ' → Prop} {s : σ} {s' : σ'} {hash : TableKey → KeyHash} {contents : Contents}
  {u v v' : BucketUpdate} {records records' : List KeyInfo} {b : KeyHash}

/-- The record is of an entry of the bucket. -/
def Program.Contents.HasRecord (contents : Contents) (hash : TableKey → KeyHash) (b : KeyHash)
    (info : KeyInfo) : Prop :=
  contents.keyAt info.offset = some info.key ∧ hash info.key = b

theorem Program.Contents.HasRecord.mem {info : KeyInfo} (h : contents.HasRecord hash b info)
    (hrecords : ∀ info ∈ records, contents.HasRecord hash b info)
    (hmem : info.offset ∈ records.map (·.offset)) : info ∈ records := by
  obtain ⟨other, hother, hoffset⟩ := List.mem_map.mp hmem
  have hkey : some other.key = some info.key := by
    rw [← (hrecords other hother).1, hoffset, h.1]
  have hsame : other = info := by
    obtain ⟨key, o⟩ := info
    obtain ⟨key', o'⟩ := other
    obtain rfl : o' = o := hoffset
    obtain rfl : key' = key := Option.some.inj hkey
    rfl
  rwa [← hsame]

theorem Program.Contents.HasRecord.not_fault {info : KeyInfo} {e : IndexError}
    (h : contents.HasRecord hash b info) :
    ¬Fault hash b info.offset (.ok (contents.keyAt info.offset)) e := by
  intro hfault
  rw [h.1] at hfault
  cases hfault with
  | foreign hne => exact hne h.2

/-- Records are determined by their offsets. -/
theorem eq_of_map_offset_eq (h : ∀ info ∈ records, contents.HasRecord hash b info)
    (h' : ∀ info ∈ records', contents.HasRecord hash b info)
    (hoffsets : records.map (·.offset) = records'.map (·.offset)) : records = records' := by
  have hsome : ∀ l : List KeyInfo, (∀ info ∈ l, contents.HasRecord hash b info) →
      l.map some = (l.map (·.offset)).map fun o => (contents.keyAt o).map (KeyInfo.mk · o) := by
    intro l hl
    rw [List.map_map]
    refine List.map_congr_left fun info hinfo => ?_
    simp [(hl info hinfo).1]
  have hmap : records.map some = records'.map some := by
    rw [hsome records h, hsome records' h', hoffsets]
  exact List.map_injective_iff.mpr (Option.some_injective _) hmap

/-- **One call** attaches records of entries in the bucket's chain, and all of them if it
succeeds. -/
theorem exists_records (h : ServesOrFails server within contents) (hs : within s)
    {r : Except IndexError Nat}
    (hvalue : ((collectExistingKeys (.total hash) v).run server s).value = some (r, v')) :
    ∃ records : List KeyInfo, v' = records.foldl BucketUpdate.withExistingKey v ∧
      (∀ info ∈ records, contents.HasRecord hash v.bucket.hash info) ∧
      (∀ l, IsWholePath contents.values v.bucket.head l → ∀ info ∈ records, info.offset ∈ l) ∧
      ∀ n, r = .ok n → IsWholePath contents.values v.bucket.head (records.map (·.offset)) ∧
        n = (records.map (·.key)).dedup.length := by
  rcases collectExistingKeys_cases h.keys hs hash v with ⟨e, _, _, hcase⟩ |
    ⟨l, records, visited, ending, _, hwalk, hsound, hvisits, _, hcase⟩
  · obtain ⟨rfl, rfl⟩ := Prod.mk.inj (Option.some.inj (hvalue.symm.trans hcase))
    exact ⟨[], rfl, by simp, by simp, by simp⟩
  · obtain ⟨rfl, rfl⟩ := Prod.mk.inj (Option.some.inj (hvalue.symm.trans hcase))
    have hpath := isWholePath_of_bucketOffsets h.attributes hs hwalk
    refine ⟨records, rfl, fun info hinfo => ?_, fun l' hl' info hinfo => ?_, fun n hn => ?_⟩
    · exact ⟨((hsound info hinfo).1 _ rfl).symm, (hsound info hinfo).2⟩
    · obtain rfl := hpath.unique hl'
      cases hvisits with
      | all => exact List.mem_map_of_mem hinfo
      | stopped _ _ => exact List.mem_append_left _ (List.mem_map_of_mem hinfo)
    · cases hvisits with
      | all => exact ⟨hpath, (Except.ok.inj hn).symm⟩
      | stopped _ _ => exact absurd hn (by simp)

/-- **What failures leave behind** is part of what there is to attach. -/
theorem AfterFailures.spec (h : AfterFailures hash contents u v) (hempty : u.existing = ∅) :
    v.bucket = u.bucket ∧ v.changes = u.changes ∧
      ∀ l, IsWholePath contents.values u.bucket.head l → ∀ info ∈ v.existingKeys,
        info.offset ∈ l ∧ contents.HasRecord hash u.bucket.hash info := by
  induction h with
  | none =>
      refine ⟨rfl, rfl, fun l _ info hinfo => ?_⟩
      rw [BucketUpdate.mem_existingKeys, hempty, Std.ExtTreeMap.getElem?_empty] at hinfo
      exact absurd hinfo (by simp)
  | @failed _ _ _ _ v v' e _ hserver hs hvalue ih =>
      obtain ⟨hbucket, hchanges, hknown⟩ := ih
      obtain ⟨records, rfl, hrecords, hmem, _⟩ := exists_records hserver hs hvalue
      rw [hbucket] at hrecords hmem
      refine ⟨?_, ?_, fun l hl info hinfo => ?_⟩
      · rw [BucketUpdate.bucket_foldl_withExistingKey, hbucket]
      · rw [BucketUpdate.changes_foldl_withExistingKey, hchanges]
      · have hnewest := BucketUpdate.newestEntry_foldl v.newestEntry_existingKeys records info.key
        rw [BucketUpdate.mem_existingKeys.mp hinfo] at hnewest
        rcases List.mem_append.mp hnewest.1 with hold | hnew
        · exact hknown l hl info hold
        · exact ⟨hmem l hl info hnew, hrecords info hnew⟩

/-- **A call that succeeds after others have failed** comes to what the first call would have come
to, had nothing failed. -/
theorem AfterFailures.collectExistingKeys_eq (h : AfterFailures hash contents u v)
    (hempty : u.existing = ∅) (hserver : ServesOrFails server within contents) (hs : within s)
    {n : Nat}
    (hvalue : ((collectExistingKeys (.total hash) v).run server s).value = some (.ok n, v'))
    (hserver' : Serves server' within' contents) (hs' : within' s') :
    ((collectExistingKeys (.total hash) u).run server' s').value = some (.ok n, v') := by
  obtain ⟨hbucket, hchanges, hknown⟩ := h.spec hempty
  obtain ⟨records, rfl, hrecords, _, hall⟩ := exists_records hserver hs hvalue
  obtain ⟨hpath, rfl⟩ := hall n rfl
  rw [hbucket] at hrecords hpath
  -- what the first call would have come to
  have hwalk := bucketOffsets_of_isWholePath hserver'.attributes hs' hpath
  rcases collectExistingKeys_cases hserver'.keys hs' hash u with ⟨e, hwalk', _, _⟩ |
    ⟨l, records', visited, ending, _, hwalk', hsound, hvisits, _, hfirst⟩
  · exact absurd (Option.some.inj (hwalk.symm.trans hwalk')) (by simp)
  · have hl : records.map (·.offset) = l :=
      Except.ok.inj (Option.some.inj (hwalk.symm.trans hwalk'))
    have hrecords' : ∀ info ∈ records', contents.HasRecord hash u.bucket.hash info :=
      fun info hinfo => ⟨(Except.ok.inj (hsound info hinfo).1).symm, (hsound info hinfo).2⟩
    rw [hfirst]
    cases hvisits with
    | all =>
        obtain rfl := eq_of_map_offset_eq hrecords hrecords' hl
        have hknown' : ∀ info ∈ v.existingKeys, info ∈ records := fun info hinfo =>
          (hknown _ hpath info hinfo).2.mem hrecords (hknown _ hpath info hinfo).1
        rw [BucketUpdate.foldl_withExistingKey_eq hbucket hchanges hempty hknown']
        rfl
    | @stopped o rest reply e hreply hfault =>
        -- the entry at fault would be one that has just been attached
        have ho : o ∈ records.map (·.offset) := by rw [hl]; simp
        obtain ⟨info, hinfo, rfl⟩ := List.mem_map.mp ho
        rw [hreply] at hfault
        exact absurd hfault (hrecords info hinfo).not_fault

end Again

/-- **Every way in which collecting keys can go.** The bucket and the changes of the update stay as
they are. If the walk fails, so does the collecting, and the update is what it was. Otherwise the
entries of the chain are visited, newest first, up to the first one whose key cannot be read, or is
missing, or belongs elsewhere: that is the error then, and what has been attached are the keys
of the entries before it. If there is no such entry, the result is the number of different keys,
each of which is attached at its newest entry.

Calls that fail can be repeated: when one succeeds, its result and the update are what the first
call would have given. -/
theorem outcome_collectExistingKeys (hash : TableKey → KeyHash) {u : BucketUpdate}
    (hempty : u.existing = ∅) :
    (∀ (σ : Type) (server : Server σ) (within : σ → Prop) (s : σ)
      (log : Offset → Except StoreError (Option TableKey)),
      AnswersKeys server within (fun o reply => reply = log o) → within s →
      ∃ walk visited result u',
        ((bucketOffsets u.bucket).run.run server s).value = some walk ∧
        ((collectExistingKeys (.total hash) u).run server s).value = some (result, u') ∧
        (collectExistingKeys (.total hash) u).calls server s
          = (bucketOffsets u.bucket).run.calls server s ++ visited.map .readKey ∧
        Collects hash log u walk visited result u') ∧
    ∀ (contents : Contents) (v : BucketUpdate), AfterFailures hash contents u v →
      v.bucket = u.bucket ∧ v.changes = u.changes ∧
      ∀ (σ : Type) (server : Server σ) (within : σ → Prop) (s : σ) (n : Nat) (v' : BucketUpdate),
        ServesOrFails server within contents → within s →
        ((collectExistingKeys (.total hash) v).run server s).value = some (.ok n, v') →
        ∀ (σ' : Type) (server' : Server σ') (within' : σ' → Prop) (s' : σ'),
          Serves server' within' contents → within' s' →
          ((collectExistingKeys (.total hash) u).run server' s').value = some (.ok n, v') := by
  constructor
  · intro σ server within s log hserver hs
    exact exists_collects hserver hs hempty
  · intro contents v h
    obtain ⟨hbucket, hchanges, _⟩ := h.spec hempty
    refine ⟨hbucket, hchanges, ?_⟩
    intro σ server within s n v' hserver hs hvalue σ' server' within' s' hserver' hs'
    exact h.collectExistingKeys_eq hempty hserver hs hvalue hserver' hs'

/-! ## Segments -/

/-- What a segment holds, as far as readers of chains see it. -/
def Segment.contents (s : Segment) : Contents := ⟨s.attributes.get?, s.log.liveKeyAt?⟩

theorem Segment.Unaltered.contents_eq {s s' : Segment} (h : s.Unaltered s') :
    s'.contents = s.contents := by
  unfold Segment.contents
  rw [h.log, h.attributes]

/-- Attributes that are read are those of the segment, unless the read fails. -/
theorem Segment.eq_of_readAttributes_eq_ok {s : Segment} {failure : Option StoreError}
    {keys : List AttributeKey} {found : AttributeValues}
    (h : (Segment.serveOrFail failure (.readAttributes keys) s).1 = .ok found) :
    found = .select s.contents.values keys := by
  have hread : ∀ s' : Segment, s'.attributes = s.attributes →
      (s'.readAttributes keys).1 = .ok found → found = .select s.contents.values keys := by
    intro s' hsame hfound
    unfold Segment.readAttributes at hfound
    cases hpending : s'.pendingReadFailure with
    | none =>
        rw [hpending, hsame] at hfound
        exact (Except.ok.inj hfound).symm
    | some e =>
        rw [hpending] at hfound
        exact absurd hfound (by simp)
  cases failure with
  | none => exact hread s rfl h
  | some e => exact hread (s.failNextRead e) rfl h

/-- A key that is read is the one in the log, unless the read fails. -/
theorem Segment.eq_of_readKey_eq_ok {s : Segment} {failure : Option StoreError} {o : Offset}
    {key : Option TableKey} (h : (Segment.serveOrFail failure (.readKey o) s).1 = .ok key) :
    key = s.contents.keyAt o := by
  cases failure with
  | none => exact (Except.ok.inj h).symm
  | some e => cases h

theorem Segment.contents_undisturbed {s : Segment} {contents : Contents} {c : Call}
    (h : s.contents = contents ∧ s.pendingReadFailure = none) (hc : c.isRead) :
    (Segment.serve c s).2.contents = contents ∧
      (Segment.serve c s).2.pendingReadFailure = none := by
  have hund := Segment.undisturbed_serve hc s
  exact ⟨hund.unaltered.contents_eq.trans h.1, hund.pendingReadFailure h.2⟩

/-- A segment that is left alone serves what it holds. -/
theorem Segment.serves (contents : Contents) :
    Serves Segment.serve (fun s => s.contents = contents ∧ s.pendingReadFailure = none)
      contents where
  attributes :=
    { reply := by
        rintro keys s ⟨rfl, hpending⟩
        exact (Segment.Answers.mk rfl hpending).reply keys
      stays := fun keys _ hs =>
        Segment.contents_undisturbed (c := .readAttributes keys) hs trivial }
  keys :=
    { reply := by
        rintro o s ⟨rfl, _⟩
        rfl
      stays := fun _ _ hc hs => Segment.contents_undisturbed hs hc }

theorem Trial.contents_serve {t : Trial} {contents : Contents} {c : Call}
    (h : t.segment.contents = contents ∧ t.OthersStandBy) (hc : c.isRead) :
    (Trial.serve c t).2.segment.contents = contents ∧ (Trial.serve c t).2.OthersStandBy := by
  obtain ⟨_, _, _, hread⟩ := exists_encounter c t
  have hsegment := (hread (.inl hc)).2 h.2
  exact ⟨hsegment.contents_eq.trans h.1, fun i hi => h.2 i (List.mem_of_mem_tail hi)⟩

/-- A segment in trouble that others leave alone serves what it holds, or fails. -/
theorem Trial.servesOrFails (contents : Contents) :
    ServesOrFails Trial.serve (fun t => t.segment.contents = contents ∧ t.OthersStandBy)
      contents where
  attributes :=
    { reply := by
        rintro keys t found ⟨rfl, hothers⟩ hfound
        rw [← hothers.unaltered.contents_eq]
        exact Segment.eq_of_readAttributes_eq_ok hfound
      stays := fun keys _ hs => Trial.contents_serve (c := .readAttributes keys) hs trivial }
  keys :=
    { reply := by
        rintro o t ⟨rfl, hothers⟩ key hkey
        rw [← hothers.unaltered.contents_eq]
        exact Segment.eq_of_readKey_eq_ok hkey
      stays := fun _ _ hc hs => Trial.contents_serve hs hc }

/-- A segment whose chain leads to one key twice, at 34 and at 0, and to another one in between. -/
def doubledSegment : Segment :=
  { Segment.fresh 1 with
    log := ⟨((Std.ExtTreeMap.empty.insert .zero ⟨⟨[97]⟩, false⟩).insert (.clamp 17)
      ⟨⟨[98]⟩, false⟩).insert (.clamp 34) ⟨⟨[97]⟩, false⟩, .clamp 51⟩
    attributes := (Attributes.set ∅ (.backpointer (.clamp 34)) (some (.clamp 17))).set
      (.backpointer (.clamp 17)) (some .zero) }

/-- The bucket of that chain, before anything is known of its keys. -/
def doubledBucket : BucketUpdate := .empty ⟨default, some (.clamp 34)⟩

/-- The trial in which the fifth call fails, the read of the second key. -/
def doubledTrial : Trial :=
  .start doubledSegment (List.replicate 4 ⟨id, none⟩ ++ [⟨id, some (.io "down")⟩])

theorem othersStandBy_doubledTrial : doubledTrial.OthersStandBy := by
  intro i hi s
  have hothers : i.others = id := by
    rcases List.mem_append.mp hi with hi | hi
    · rw [List.eq_of_mem_replicate hi]
    · rw [List.mem_singleton.mp hi]
  rw [hothers]
  exact .refl s

/-- After a failure that leaves the first of three entries attached, the next call succeeds. -/
theorem outcome_collectExistingKeys_doubled :
    doubledBucket.existing = ∅ ∧
    (∃ walk visited result u', Collects (fun _ => default)
      (fun o => .ok (doubledSegment.contents.keyAt o)) doubledBucket walk visited result u') ∧
    AfterFailures (fun _ => default) doubledSegment.contents doubledBucket
      (doubledBucket.withExistingKey ⟨⟨[97]⟩, .clamp 34⟩) ∧
    ((collectExistingKeys (.total fun _ => default) doubledBucket).run Segment.serve
      doubledSegment).value = some (.ok 2,
        (doubledBucket.withExistingKey ⟨⟨[97]⟩, .clamp 34⟩).withExistingKey
          ⟨⟨[98]⟩, .clamp 17⟩) := by
  obtain ⟨hfirst, hagain⟩ := outcome_collectExistingKeys (fun _ => default) (u := doubledBucket) rfl
  have hserves := Segment.serves doubledSegment.contents
  have hwithin : doubledSegment.contents = doubledSegment.contents ∧
      doubledSegment.pendingReadFailure = none := ⟨rfl, rfl⟩
  have hfailed : AfterFailures (fun _ => default) doubledSegment.contents doubledBucket
      (doubledBucket.withExistingKey ⟨⟨[97]⟩, .clamp 34⟩) :=
    .failed (e := .store (.io "down")) .none (Trial.servesOrFails _)
      (show doubledTrial.segment.contents = _ ∧ _ from ⟨rfl, othersStandBy_doubledTrial⟩) (by cbv)
  obtain ⟨walk, visited, result, u', _, _, _, hcollects⟩ :=
    hfirst _ Segment.serve _ doubledSegment _ hserves.keys hwithin
  obtain ⟨_, _, hlast⟩ := hagain _ _ hfailed
  exact ⟨rfl, ⟨walk, visited, result, u', hcollects⟩, hfailed,
    hlast _ Segment.serve _ doubledSegment 2 _ hserves.servesOrFails hwithin (by cbv)
      _ Segment.serve _ doubledSegment hserves hwithin⟩

end SegmentIndex
