import SegmentIndex.Proofs.Apply

/-!
# A pass is a transaction

A pass reads all it needs, writes once, and is done. If any of its calls fails, the pass ends there
with that failure, whatever the call was for. Both are matters of how the program is built, so they
are said of the program itself, for all replies that anybody could give (`Program.IsTransaction`),
and hold on every segment, sound or not.

Nothing has to be undone, therefore: the only call of a pass that may change anything is the last
one, and it changes nothing if it fails.
-/

namespace SegmentIndex

open Attempt

/-- The failure that a reply reports, as an operation of the index passes it on. -/
def Call.failure? : (c : Call) → c.Reply → Option IndexError
  | .readAttributes _, .error e => some (.store e)
  | .writeAttributes _, .error e => some (.ofApplyError e)
  | .readKey _, .error e => some (.store e)
  | _, _ => none

namespace Program

variable {α β : Type}

/-! ## Reading with care -/

/-- The program only reads, and the first call that fails is its last: what it then gives is a
failure, and the same one. `failure` tells which failure a result is, if it is one. -/
def Heeds (failure : α → Option IndexError) : Program α → Prop
  | done _ => True
  | crash => True
  | note _ p => p.Heeds failure
  | call c k => c.isRead ∧ ∀ reply, (k reply).Heeds failure ∧
      ∀ e, c.failure? reply = some e → ∃ a, k reply = done a ∧ failure a = some e

variable {failure : α → Option IndexError} {failure' : β → Option IndexError}

theorem Heeds.bind {p : Program α} {f : α → Program β} (h : p.Heeds failure)
    (hfailure : ∀ a e, failure a = some e → ∃ b, f a = done b ∧ failure' b = some e)
    (hf : ∀ a, (f a).Heeds failure') : (p.bind f).Heeds failure' := by
  induction p with
  | done a => exact hf a
  | crash => trivial
  | note e p ih => exact ih h
  | call c k ih =>
      refine ⟨h.1, fun reply => ⟨ih reply (h.2 reply).1, fun e he => ?_⟩⟩
      obtain ⟨a, hk, ha⟩ := (h.2 reply).2 e he
      obtain ⟨b, hb, hb'⟩ := hfailure a e ha
      refine ⟨b, ?_, hb'⟩
      show (k reply).bind f = done b
      rw [hk, Program.bind, hb]

/-- **Reading leaves no trace** but in what counts reads. -/
theorem Heeds.undisturbed {p : Program α} (h : p.Heeds failure) (s : Segment) :
    s.Undisturbed (p.run Segment.serve s).state := by
  induction p generalizing s with
  | done a => exact .refl s
  | crash => exact .refl s
  | note e p ih => exact ih h s
  | call c k ih =>
      exact (Segment.undisturbed_serve h.1 s).trans (ih _ (h.2 _).1 (Segment.serve c s).2)

/-! ## Reading first, and then one write -/

/-- The program makes no more calls and gives this. -/
def EndsIn (a : α) : Program α → Prop
  | done b => b = a
  | crash => False
  | note _ p => p.EndsIn a
  | call .. => False

theorem EndsIn.run {σ : Type} {p : Program α} {a : α} (h : p.EndsIn a) (server : Server σ)
    (s : σ) : (p.run server s).value = some a ∧ (p.run server s).state = s := by
  induction p with
  | done b => exact ⟨congrArg some h, rfl⟩
  | crash => exact h.elim
  | note e p ih => exact ih h
  | call c k ih => exact h.elim

/-- The program ends with the first call that fails, and gives its failure. A call that changes
something is the last one too, and if it does not fail, the program succeeds. -/
def IsTransaction : Program (Except IndexError α) → Prop
  | done _ => True
  | crash => True
  | note _ p => p.IsTransaction
  | call c k => ∀ reply,
    match c.failure? reply with
    | some e => (k reply).EndsIn (.error e)
    | none => c.isRead ∧ (k reply).IsTransaction ∨ ∃ a, (k reply).EndsIn (.ok a)

/-- **First read, then go on**, unless there was a failure. -/
theorem Heeds.isTransaction_bind {p : Program α} {f : α → Program (Except IndexError β)}
    (h : p.Heeds failure)
    (hfailure : ∀ a e, failure a = some e → f a = done (.error e))
    (hf : ∀ a, (f a).IsTransaction) : (p.bind f).IsTransaction := by
  induction p with
  | done a => exact hf a
  | crash => trivial
  | note e p ih => exact ih h
  | call c k ih =>
      intro reply
      obtain ⟨hrest, hfails⟩ := h.2 reply
      split
      · rename_i e he
        obtain ⟨a, hk, ha⟩ := hfails e he
        show ((k reply).bind f).EndsIn (.error e)
        rw [hk, Program.bind, hfailure a e ha]
        rfl
      · exact .inl ⟨h.1, ih reply hrest⟩

end Program

/-! ## Attempts -/

namespace Attempt

variable {ε α β : Type} {wrap : ε → IndexError}

/-- The failure that an attempt has ended in. -/
def failure? (wrap : ε → IndexError) : Except ε α → Option IndexError
  | .ok _ => none
  | .error e => some (wrap e)

/-- The attempt only reads, and ends with the first call that fails, in its failure. -/
def Heeds (wrap : ε → IndexError) (x : Attempt ε α) : Prop := x.run.Heeds (failure? wrap)

theorem failure?_eq_some_iff {r : Except ε α} {e : IndexError} :
    failure? wrap r = some e ↔ ∃ cause, r = .error cause ∧ wrap cause = e := by
  cases r with
  | ok a => simp [failure?]
  | error cause => simp [failure?]

theorem heeds_ofExcept (r : Except ε α) : Heeds wrap (liftM r : Attempt ε α) := trivial

theorem Heeds.bind {x : Attempt ε α} {f : α → Attempt ε β} (h : Heeds wrap x)
    (hf : ∀ a, Heeds wrap (f a)) : Heeds wrap (x >>= f) := by
  refine Program.Heeds.bind h (fun r e hr => ?_) fun r => ?_
  · obtain ⟨cause, rfl, rfl⟩ := failure?_eq_some_iff.mp hr
    exact ⟨.error cause, rfl, rfl⟩
  · cases r with
    | ok a => exact hf a
    | error cause => trivial

theorem Heeds.note {e : Event} {f : Unit → Attempt ε α} (h : Heeds wrap (f ())) :
    Heeds wrap (Attempt.note e >>= f) := h

theorem Heeds.ofStore {x : Attempt StoreError α} (h : Heeds .store x) :
    Heeds id (ofStore x) := by
  refine Program.Heeds.bind h (fun r e hr => ?_) fun r => trivial
  obtain ⟨cause, rfl, rfl⟩ := failure?_eq_some_iff.mp hr
  exact ⟨.error (.store cause), rfl, rfl⟩

theorem Heeds.mapM {f : α → Attempt ε β} {l : List α} (h : ∀ a, Heeds wrap (f a)) :
    Heeds wrap (l.mapM f) := by
  rw [← List.mapM'_eq_mapM]
  induction l with
  | nil => trivial
  | cons a rest ih =>
      rw [List.mapM'_cons]
      exact (h a).bind fun b => ih.bind fun bs => trivial

theorem Heeds.isTransaction_bind {x : Attempt IndexError α} {f : α → Attempt IndexError β}
    (h : Heeds id x) (hf : ∀ a, (f a).run.IsTransaction) : (x >>= f).run.IsTransaction := by
  refine Program.Heeds.isTransaction_bind h (fun r e hr => ?_) fun r => ?_
  · obtain ⟨cause, rfl, rfl⟩ := failure?_eq_some_iff.mp hr
    rfl
  · cases r with
    | ok a => exact hf a
    | error cause => trivial

theorem run_lift_bind (p : Program α) (f : α → Attempt ε β) :
    (ExceptT.lift p >>= f : Attempt ε β).run = p.bind fun a => (f a).run :=
  Program.bind_assoc p _ _

/-! ## The calls that read -/

theorem heeds_readAttributes (keys : List AttributeKey) :
    Heeds .store (readAttributes keys) := by
  refine ⟨trivial, fun reply => ⟨trivial, fun e he => ⟨reply, rfl, ?_⟩⟩⟩
  cases reply with
  | ok values => exact absurd he (by simp [Call.failure?])
  | error cause => exact he

theorem heeds_readKey (o : Offset) : Heeds .store (readKey o) := by
  refine ⟨trivial, fun reply => ⟨trivial, fun e he => ⟨reply, rfl, ?_⟩⟩⟩
  cases reply with
  | ok key => exact absurd he (by simp [Call.failure?])
  | error cause => exact he

theorem heeds_readLength : Heeds wrap (readLength : Attempt ε Offset) :=
  ⟨trivial, fun _ => ⟨trivial, fun _ he => absurd he (by simp [Call.failure?])⟩⟩

theorem heeds_readUpdates (first last : Offset) :
    Heeds wrap (readUpdates first last : Attempt ε (List KeyUpdate)) := by
  refine ⟨trivial, fun reply => ⟨?_, fun _ he => absurd he (by simp [Call.failure?])⟩⟩
  cases reply with
  | some updates => trivial
  | none => trivial

end Attempt

/-! ## The reader -/

theorem heeds_readOffset (key : AttributeKey) : Heeds .store (readOffset key) :=
  (heeds_readAttributes [key]).bind fun _ => heeds_ofExcept _

theorem heeds_locateBuckets (hashes : List KeyHash) : Heeds .store (locateBuckets hashes) :=
  (heeds_readAttributes _).bind fun _ => heeds_ofExcept _

theorem heeds_lastIndexedOffset (segment : SegmentId) :
    Heeds id (lastIndexedOffset segment) := by
  refine (heeds_readOffset _).ofStore.bind fun first => ?_
  cases first with
  | some o => trivial
  | none => trivial

theorem heeds_chainFrom (b : KeyHash) (newer : List Offset) (entry : Offset) :
    Heeds id (chainFrom b newer entry) := by
  -- every link leads down
  induction hn : entry.val using Nat.strong_induction_on generalizing entry newer with
  | h n ih =>
      subst hn
      rw [chainFrom]
      refine (heeds_readOffset _).ofStore.bind fun link => ?_
      cases link with
      | none => trivial
      | some older =>
          show Heeds id (if older < entry then _ else _)
          split
          · exact ih older.val ‹_› _ older rfl
          · trivial

theorem heeds_bucketOffsets (b : Bucket) : Heeds id (bucketOffsets b) := by
  unfold bucketOffsets
  cases b.head with
  | none => trivial
  | some head => exact heeds_chainFrom b.hash [] head

/-- How collecting the keys of a chain has failed. -/
def Collected.failure? (r : Collected) : Option IndexError := Attempt.failure? id r.1

theorem heeds_attachKeys (hash : KeyHasher) (seen : Std.ExtTreeSet TableKey) (u : BucketUpdate)
    (l : List Offset) : (attachKeys hash seen u l).Heeds Collected.failure? := by
  induction l generalizing seen u with
  | nil => trivial
  | cons entry rest ih =>
      rw [attachKeys]
      refine Program.Heeds.bind (heeds_readKey entry) (fun r e hr => ?_) fun r => ?_
      · obtain ⟨cause, rfl, rfl⟩ := failure?_eq_some_iff.mp hr
        exact ⟨_, rfl, rfl⟩
      · cases r with
        | error cause => trivial
        | ok key =>
            cases key with
            | none => trivial
            | some key =>
                dsimp only
                cases hash key with
                | none => trivial
                | some h =>
                    dsimp only
                    split
                    · trivial
                    · split
                      · exact ih seen u
                      · exact ih _ _

theorem heeds_withIndexedKeys (hash : KeyHasher) (u : BucketUpdate) :
    Heeds id (withIndexedKeys hash u) := by
  have hcollect : (collectExistingKeys hash u).Heeds Collected.failure? := by
    refine Program.Heeds.bind (heeds_bucketOffsets u.bucket) (fun r e hr => ?_) fun r => ?_
    · obtain ⟨cause, rfl, rfl⟩ := failure?_eq_some_iff.mp hr
      exact ⟨_, rfl, rfl⟩
    · cases r with
      | error cause => trivial
      | ok entries => exact heeds_attachKeys hash ∅ u entries
  unfold Heeds withIndexedKeys
  rw [run_lift_bind]
  refine hcollect.bind (fun r e hr => ?_) fun r => ?_
  · obtain ⟨result, u'⟩ := r
    obtain ⟨cause, rfl, rfl⟩ := failure?_eq_some_iff.mp hr
    exact ⟨_, rfl, rfl⟩
  · obtain ⟨result, u'⟩ := r
    cases result with
    | error cause => trivial
    | ok n => trivial

/-! ## Passes -/

theorem heeds_locateGroups (hashed : HashedUpdates) :
    Heeds id (locateGroups locateBuckets hashed) := by
  refine (heeds_locateBuckets _).ofStore.bind ?_
  intro located
  cases assembleGroups hashed located with
  | ok groups => trivial
  | error cause => trivial

theorem heeds_hashBatch (w : Writer) (updates : List KeyUpdate) :
    Heeds id (w.hashBatch updates) := by
  have hhere : Heeds id (w.hashByKey updates) := by
    unfold Writer.hashByKey
    cases hashUpdates w.hash updates <;> trivial
  unfold Writer.hashBatch
  split
  · cases w.hashingTask with
    | completed => exact .note hhere
    | cancelled => trivial
  · exact hhere

theorem heeds_groupByBucket (w : Writer) (updates : List KeyUpdate) :
    Heeds id (w.groupByBucket locateBuckets updates) := by
  unfold Writer.groupByBucket
  split
  · trivial
  · exact (heeds_hashBatch w updates).bind fun hashed => .note (heeds_locateGroups hashed)

theorem heeds_planRange (w : Writer) (first last : Offset) (collect : Bool) :
    Heeds id (w.planRange first last collect) := by
  refine (heeds_readUpdates first last).bind fun updates => ?_
  refine (heeds_groupByBucket w updates).bind fun groups => ?_
  cases collect with
  | false => trivial
  | true => exact (Heeds.mapM fun u => heeds_withIndexedKeys w.hash u).bind fun _ => trivial

theorem Plan.isTransaction_apply (p : Plan) (segment : SegmentId) :
    (p.apply segment).run.IsTransaction := by
  cases hbatch : p.mutations with
  | error cause =>
      rw [apply_of_mutations_error segment hbatch]
      trivial
  | ok batch =>
      by_cases hne : batch = []
      · subst hne
        rw [apply_of_mutations_nil segment hbatch]
        trivial
      · rw [apply_of_mutations_ok segment hbatch hne]
        intro reply
        cases reply with
        | ok u => exact .inr ⟨batch.length, rfl⟩
        | error e =>
            show Program.EndsIn (Except.error (IndexError.ofApplyError e)) (ite _ _ _)
            split <;> rfl

/-- **A pass is a transaction**, whether it is told where to stop or goes to the end of the log. -/
theorem Writer.isTransaction_indexTo (w : Writer) (segment : SegmentId) (last : Offset) :
    (w.indexTo segment last).run.IsTransaction :=
  ((heeds_lastIndexedOffset segment).bind fun first =>
    heeds_planRange w first last true).isTransaction_bind fun p => p.isTransaction_apply segment

theorem Writer.isTransaction_pass (w : Writer) (segment : SegmentId) :
    (w.pass segment).run.IsTransaction :=
  ((heeds_lastIndexedOffset segment).bind fun first => heeds_readLength.bind fun last =>
    heeds_planRange w first last true).isTransaction_bind fun p => p.isTransaction_apply segment

end SegmentIndex
