import SegmentIndex.Proofs.Progress

/-!
# Passes that fail, and are repeated

Before each call of a pass others may do to the segment whatever they like, and the call itself may
be made to fail. A trial runs a program through such incidents and keeps a record of its calls.

A pass is a transaction (`Writer.isTransaction_passTo`), so it gives back every failure that it
meets, and a pass that has failed has changed nothing (`Trial.exists_unwinds`). If there is nobody
else, all that a failed pass leaves behind is a count of reads: it can be repeated as if it
had never been tried, and a run in which every failed pass is repeated until it succeeds comes to
the same as a run without failures (`Trial.Completes.eq`).
-/

namespace SegmentIndex

open Attempt

/-! ## Calls that fail -/

namespace Segment

variable {s : Segment} {c : Call}

/-- Answers a call, or lets it fail if it is a call that can. -/
def serveOrFail (failure : Option StoreError) : Program.Server Segment
  | .readAttributes keys, s => (failure.elim s s.failNextRead).readAttributes keys
  | .writeAttributes batch, s => (failure.elim s s.failNextWrite).writeAttributes batch
  | .readKey o, s => (failure.elim (.ok (s.log.liveKeyAt? o)) .error, s)
  | c, s => serve c s

theorem serveOrFail_none (c : Call) (s : Segment) : serveOrFail none c s = serve c s := by
  cases c <;> rfl

/-- **A call that reads, or fails, alters nothing.** -/
theorem unaltered_serveOrFail (failure : Option StoreError) (s : Segment)
    (h : c.isRead ∨ ∃ e, c.failure? (serveOrFail failure c s).1 = some e) :
    s.Unaltered (serveOrFail failure c s).2 := by
  cases c with
  | readAttributes keys =>
      have hread := (undisturbed_serve (c := .readAttributes keys) trivial
        (failure.elim s s.failNextRead)).unaltered
      cases failure with
      | none => exact hread
      | some e => exact ⟨hread.log, hread.attributes, hread.appliedBatches⟩
  | writeAttributes batch =>
      obtain ⟨e, he⟩ := h.resolve_left fun hread => hread
      have hwrite := (failure.elim s s.failNextWrite).writeAttributes_cases batch
      rcases hwrite with ⟨attributes, _, heq⟩ | ⟨_, _, hsame⟩
      · rw [show serveOrFail failure (.writeAttributes batch) s = _ from heq] at he
        exact absurd he (by simp [Call.failure?])
      · cases failure with
        | none => exact hsame
        | some e => exact ⟨hsame.log, hsame.attributes, hsame.appliedBatches⟩
  | readKey o => exact .refl s
  | readLength => exact .refl s
  | readUpdates first last => exact .refl s

end Segment

/-! ## Trials -/

/-- What happens just before a call. -/
structure Incident where
  /-- What others do to the segment. -/
  others : Segment → Segment
  /-- The failure of the call, if it is to fail. -/
  failure : Option StoreError

/-- A call as it went: the segment when it came, the failure that it met, and the segment after
it. -/
structure Encounter where
  before : Segment
  failure : Option IndexError
  after : Segment

/-- A segment in trouble. -/
structure Trial where
  segment : Segment
  /-- What happens before the next calls. After that nothing more happens. -/
  ahead : List Incident
  /-- The calls so far. -/
  encounters : List Encounter

/-- The pass that stops where it is told to, or else at the end of the log. -/
def Writer.passTo (w : Writer) (segment : SegmentId) : Option Offset → Attempt IndexError Nat
  | some last => w.indexTo segment last
  | none => w.pass segment

theorem Writer.isTransaction_passTo (w : Writer) (segment : SegmentId) (upTo : Option Offset) :
    (w.passTo segment upTo).run.IsTransaction := by
  cases upTo with
  | some last => exact w.isTransaction_indexTo segment last
  | none => exact w.isTransaction_pass segment

namespace Trial

variable {α : Type} {p : Program (Except IndexError α)} {s s' : Segment} {t t' : Trial}

def start (s : Segment) (ahead : List Incident) : Trial := ⟨s, ahead, []⟩

/-- What happens before the next call. -/
def next (t : Trial) : Incident := t.ahead.headD ⟨id, none⟩

def serve : Program.Server Trial := fun c t =>
  let before := t.next.others t.segment
  let answer := Segment.serveOrFail t.next.failure c before
  (answer.1, ⟨answer.2, t.ahead.tail, t.encounters ++ [⟨before, c.failure? answer.1, answer.2⟩]⟩)

theorem mem_next {P : Incident → Prop} (h : ∀ i ∈ t.ahead, P i) (hquiet : P ⟨id, none⟩) :
    P t.next := by
  unfold next
  cases hahead : t.ahead with
  | nil => exact hquiet
  | cons i rest => exact h i (hahead ▸ List.mem_cons_self)

/-- What others do before the calls changes nothing that a pass may change. -/
def OthersStandBy (t : Trial) : Prop := ∀ i ∈ t.ahead, ∀ s : Segment, s.Unaltered (i.others s)

theorem OthersStandBy.unaltered (h : t.OthersStandBy) :
    t.segment.Unaltered (t.next.others t.segment) :=
  mem_next (P := fun i => t.segment.Unaltered (i.others t.segment))
    (fun i hi => h i hi t.segment) (.refl _)

/-- What a transaction comes to with some calls: it gives back every failure that it meets, and
unless it succeeds it has changed nothing. -/
structure Unwinds (t : Trial) (calls : List Encounter)
    (o : Program.Outcome Trial (Except IndexError α)) : Prop where
  encounters : o.state.encounters = t.encounters ++ calls
  failure : ∀ x ∈ calls, ∀ e, x.failure = some e → o.value = some (.error e)
  unaltered : (∀ a, o.value ≠ some (.ok a)) → ∀ x ∈ calls, x.before.Unaltered x.after
  segment : (∀ a, o.value ≠ some (.ok a)) → t.OthersStandBy → t.segment.Unaltered o.state.segment

variable {o : Program.Outcome Trial (Except IndexError α)}

theorem unwinds_nil (h : o.state = t) : t.Unwinds [] o where
  encounters := by rw [h, List.append_nil]
  failure := by simp
  unaltered := by simp
  segment _ _ := h ▸ .refl t.segment

/-- The record of the next call, and what it takes to alter nothing. -/
theorem exists_encounter (c : Call) (t : Trial) :
    ∃ x : Encounter, (serve c t).2.encounters = t.encounters ++ [x] ∧
      x.failure = c.failure? (serve c t).1 ∧
      (c.isRead ∨ (∃ e, x.failure = some e) → x.before.Unaltered x.after ∧
        (t.OthersStandBy → t.segment.Unaltered (serve c t).2.segment)) := by
  refine ⟨⟨t.next.others t.segment, c.failure? (serve c t).1, (serve c t).2.segment⟩, rfl, rfl, ?_⟩
  intro h
  have hcall := Segment.unaltered_serveOrFail t.next.failure (t.next.others t.segment) h
  refine ⟨hcall, ?_⟩
  intro hothers
  exact hothers.unaltered.trans hcall

/-- The call fails, and with it the program. -/
theorem exists_unwinds_of_failure {c : Call} {e : IndexError}
    (he : c.failure? (serve c t).1 = some e) (h : p.EndsIn (.error e)) :
    ∃ calls, t.Unwinds calls (p.run serve (serve c t).2) := by
  obtain ⟨x, hx, hfailure, hunaltered⟩ := exists_encounter c t
  obtain ⟨hvalue, hstate⟩ := h.run serve (serve c t).2
  obtain ⟨hcall, hsegment⟩ := hunaltered (.inr ⟨e, hfailure.trans he⟩)
  refine ⟨[x], by rw [hstate, hx], ?_, ?_, ?_⟩
  · intro y hy e' he'
    rw [List.mem_singleton.mp hy, hfailure, he] at he'
    rw [hvalue, Option.some.inj he']
  · intro _ y hy
    rw [List.mem_singleton.mp hy]
    exact hcall
  · intro _
    rw [hstate]
    exact hsegment

/-- The call reads, and the program goes on. -/
theorem Unwinds.exists_of_isRead {c : Call} {calls : List Encounter}
    (h : (serve c t).2.Unwinds calls o) (hread : c.isRead)
    (hnone : c.failure? (serve c t).1 = none) : ∃ calls', t.Unwinds calls' o := by
  obtain ⟨x, hx, hfailure, hunaltered⟩ := exists_encounter c t
  obtain ⟨hcall, hsegment⟩ := hunaltered (.inl hread)
  refine ⟨x :: calls, ?_, ?_, ?_, ?_⟩
  · rw [h.encounters, hx, List.append_assoc, List.singleton_append]
  · intro y hy e he
    rcases List.mem_cons.mp hy with rfl | hy
    · rw [hfailure, hnone] at he
      exact absurd he (by simp)
    · exact h.failure y hy e he
  · intro hno y hy
    rcases List.mem_cons.mp hy with rfl | hy
    · exact hcall
    · exact h.unaltered hno y hy
  · intro hno hothers
    exact (hsegment hothers).trans (h.segment hno fun i hi => hothers i (List.mem_of_mem_tail hi))

/-- The call may change something, and the program succeeds. -/
theorem exists_unwinds_of_success {c : Call} {a : α} (hnone : c.failure? (serve c t).1 = none)
    (h : p.EndsIn (.ok a)) : ∃ calls, t.Unwinds calls (p.run serve (serve c t).2) := by
  obtain ⟨x, hx, hfailure, _⟩ := exists_encounter c t
  obtain ⟨hvalue, hstate⟩ := h.run serve (serve c t).2
  refine ⟨[x], by rw [hstate, hx], ?_, fun hno => absurd hvalue (hno a),
    fun hno => absurd hvalue (hno a)⟩
  intro y hy e he
  rw [List.mem_singleton.mp hy, hfailure, hnone] at he
  exact absurd he (by simp)

/-- **A transaction unwinds**, whatever happens to it. -/
theorem exists_unwinds (h : p.IsTransaction) (t : Trial) :
    ∃ calls, t.Unwinds calls (p.run serve t) := by
  induction p generalizing t with
  | done a => exact ⟨[], unwinds_nil rfl⟩
  | crash => exact ⟨[], unwinds_nil rfl⟩
  | note e p ih =>
      obtain ⟨calls, hcalls⟩ := ih h t
      exact ⟨calls, hcalls.encounters, hcalls.failure, hcalls.unaltered, hcalls.segment⟩
  | call c k ih =>
      have hreply := h (serve c t).1
      show ∃ calls, t.Unwinds calls ((k (serve c t).1).run serve (serve c t).2)
      split at hreply
      · rename_i e he
        exact exists_unwinds_of_failure he hreply
      · rename_i hnone
        rcases hreply with ⟨hread, hrest⟩ | ⟨a, hends⟩
        · obtain ⟨calls, hcalls⟩ := ih _ hrest (serve c t).2
          exact hcalls.exists_of_isRead hread hnone
        · exact exists_unwinds_of_success hnone hends

end Trial

/-! ## Trying again -/

namespace Segment

variable {s : Segment} {n : UInt64}

/-- The segment with another count of reads. -/
def withReads (s : Segment) (n : UInt64) : Segment := { s with attributeReads := n }

/-- No failure was ordered. -/
structure IsUntroubled (s : Segment) : Prop where
  pendingReadFailure : s.pendingReadFailure = none
  pendingWriteFailure : s.pendingWriteFailure = none

theorem IsUntroubled.withReads (h : s.IsUntroubled) (n : UInt64) : (s.withReads n).IsUntroubled :=
  ⟨h.pendingReadFailure, h.pendingWriteFailure⟩

theorem append_withReads (s : Segment) (n : UInt64) (key : TableKey) (removal : Bool) :
    ((s.withReads n).append key removal).2 = (s.append key removal).2.withReads n := by
  unfold append withReads
  dsimp only
  split
  · rfl
  · cases s.log.append? key removal <;> rfl

theorem IsUntroubled.append (h : s.IsUntroubled) (key : TableKey) (removal : Bool) :
    (s.append key removal).2.IsUntroubled := by
  rcases s.append_cases key removal with ⟨log, _, _, heq⟩ | ⟨_, e, heq⟩
  · rw [heq]
    exact ⟨h.pendingReadFailure, h.pendingWriteFailure⟩
  · rw [heq]
    exact h

theorem IsUntroubled.readAttributes_eq (h : s.IsUntroubled) (keys : List AttributeKey) :
    s.readAttributes keys
      = (.ok (.select s.attributes.get? keys), s.withReads (s.attributeReads + 1)) := by
  unfold readAttributes
  split
  · rename_i e he
    exact absurd (he.symm.trans h.pendingReadFailure) (by simp)
  · rfl

theorem IsUntroubled.writeAttributes_eq (h : s.IsUntroubled) (batch : List Mutation) :
    s.writeAttributes batch =
      if s.isSealed then (.error (.store (.segmentSealed s.id)), s)
      else match s.attributes.apply batch with
        | .ok attributes => (.ok (), s.applied attributes)
        | .error e => (.error e, s) := by
  unfold writeAttributes
  split
  · rename_i e he
    exact absurd (he.symm.trans h.pendingWriteFailure) (by simp)
  · rfl

/-- **The count of reads has no influence** on any answer. -/
theorem IsUntroubled.serve_withReads (h : s.IsUntroubled) (c : Call) (n : UInt64) :
    (serve c (s.withReads n)).1 = (serve c s).1 ∧
      ∃ m, (serve c (s.withReads n)).2 = (serve c s).2.withReads m := by
  cases c with
  | readAttributes keys =>
      show ((s.withReads n).readAttributes keys).1 = (s.readAttributes keys).1 ∧
        ∃ m, ((s.withReads n).readAttributes keys).2 = (s.readAttributes keys).2.withReads m
      rw [(h.withReads n).readAttributes_eq, h.readAttributes_eq]
      exact ⟨rfl, n + 1, rfl⟩
  | writeAttributes batch =>
      show ((s.withReads n).writeAttributes batch).1 = (s.writeAttributes batch).1 ∧
        ∃ m, ((s.withReads n).writeAttributes batch).2 = (s.writeAttributes batch).2.withReads m
      rw [(h.withReads n).writeAttributes_eq, h.writeAttributes_eq]
      have hsealed : (s.withReads n).isSealed = s.isSealed := rfl
      have happly : (s.withReads n).attributes.apply batch = s.attributes.apply batch := rfl
      rw [hsealed, happly]
      split
      · exact ⟨rfl, n, rfl⟩
      · cases s.attributes.apply batch <;> exact ⟨rfl, n, rfl⟩
  | readKey o => exact ⟨rfl, n, rfl⟩
  | readLength => exact ⟨rfl, n, rfl⟩
  | readUpdates first last => exact ⟨rfl, n, rfl⟩

theorem IsUntroubled.serve (h : s.IsUntroubled) (c : Call) :
    (Segment.serve c s).2.IsUntroubled := by
  cases c with
  | readAttributes keys =>
      show (s.readAttributes keys).2.IsUntroubled
      rw [h.readAttributes_eq]
      exact h.withReads _
  | writeAttributes batch =>
      show (s.writeAttributes batch).2.IsUntroubled
      rw [h.writeAttributes_eq]
      split
      · exact h
      · cases s.attributes.apply batch with
        | ok attributes => exact ⟨h.pendingReadFailure, h.pendingWriteFailure⟩
        | error e => exact h
  | readKey o => exact h
  | readLength => exact h
  | readUpdates first last => exact h

theorem IsUntroubled.run {α : Type} (h : s.IsUntroubled) (p : Program α) :
    (p.run Segment.serve s).state.IsUntroubled := by
  induction p generalizing s with
  | done a => exact h
  | crash => exact h
  | note e p ih => exact ih h
  | call c k ih => exact ih _ (h.serve c)

/-- A read that is answered changes the count of reads at most. -/
theorem IsUntroubled.serve_of_isRead (h : s.IsUntroubled) {c : Call} (hc : c.isRead) :
    ∃ m, (Segment.serve c s).2 = s.withReads m := by
  cases c with
  | readAttributes keys => exact ⟨_, congrArg Prod.snd (h.readAttributes_eq keys)⟩
  | writeAttributes batch => exact hc.elim
  | readKey o => exact ⟨s.attributeReads, rfl⟩
  | readLength => exact ⟨s.attributeReads, rfl⟩
  | readUpdates first last => exact ⟨s.attributeReads, rfl⟩

/-- **A call that is to fail** leaves everything as it is, unless it is one that cannot fail. -/
theorem IsUntroubled.serveOrFail (h : s.IsUntroubled) (e : StoreError) (c : Call) :
    Segment.serveOrFail (some e) c s = Segment.serve c s ∨
      (∃ e', c.failure? (Segment.serveOrFail (some e) c s).1 = some e') ∧
        (Segment.serveOrFail (some e) c s).2 = s := by
  obtain ⟨hread, hwrite⟩ := h
  cases c with
  | readAttributes keys =>
      refine .inr ⟨⟨_, rfl⟩, ?_⟩
      show { s with pendingReadFailure := none } = s
      rw [← hread]
  | writeAttributes batch =>
      refine .inr ⟨⟨_, rfl⟩, ?_⟩
      show { s with pendingWriteFailure := none } = s
      rw [← hwrite]
  | readKey o => exact .inr ⟨⟨_, rfl⟩, rfl⟩
  | readLength => exact .inl rfl
  | readUpdates first last => exact .inl rfl

end Segment

/-- What a client does to a segment: it appends an entry, or runs a pass. -/
inductive Task where
  | append (key : TableKey) (removal : Bool)
  | pass (w : Writer) (upTo : Option Offset)

/-- A run without failures, and what its passes give. -/
inductive Segment.Performs : Segment → List Task → List Nat → Segment → Prop where
  | nil (s : Segment) : Performs s [] [] s
  | append {s s' : Segment} {key : TableKey} {removal : Bool} {tasks : List Task}
      {results : List Nat} :
      Performs (s.append key removal).2 tasks results s' →
        Performs s (.append key removal :: tasks) results s'
  | pass {s s' : Segment} {w : Writer} {upTo : Option Offset} {n : Nat} {tasks : List Task}
      {results : List Nat} :
      ((w.passTo s.id upTo).runAlone s).value = some (.ok n) →
        Performs ((w.passTo s.id upTo).runAlone s).state tasks results s' →
          Performs s (.pass w upTo :: tasks) (n :: results) s'

/-- What a run without failures comes to is determined. -/
theorem Segment.Performs.unique {s s' s'' : Segment} {tasks : List Task}
    {results results' : List Nat}
    (h : s.Performs tasks results s') (h' : s.Performs tasks results' s'') :
    results = results' ∧ s' = s'' := by
  induction h generalizing results' with
  | nil s =>
      cases h'
      exact ⟨rfl, rfl⟩
  | append _ ih =>
      cases h' with
      | append h' => exact ih h'
  | pass hok _ ih =>
      cases h' with
      | pass hok' h' =>
          obtain ⟨rfl, rfl⟩ := ih h'
          rw [hok] at hok'
          exact ⟨congrArg (· :: _) (Except.ok.inj (Option.some.inj hok')), rfl⟩

namespace Trial

variable {α : Type} {p : Program (Except IndexError α)} {s s' : Segment} {t t' t'' : Trial}
  {x : Attempt IndexError Nat} {n m : Nat} {reads : UInt64} {tasks : List Task}
  {results results' : List Nat}

/-- Nobody else is there: all that happens is that calls fail. -/
def IsAlone (t : Trial) : Prop := ∀ i ∈ t.ahead, i.others = id

theorem isAlone_start (s : Segment) (failures : List (Option StoreError)) :
    (start s (failures.map (⟨id, ·⟩))).IsAlone := by
  intro i hi
  obtain ⟨failure, _, rfl⟩ := List.mem_map.mp hi
  rfl

theorem isAlone_run (h : t.IsAlone) (p : Program α) : (p.run serve t).state.IsAlone := by
  induction p generalizing t with
  | done a => exact h
  | crash => exact h
  | note e p ih => exact ih h
  | call c k ih => exact ih _ fun i hi => h i (List.mem_of_mem_tail hi)

/-- **A call with nobody else there** is answered as it would be without failures, or it fails, and
then there is one failure less to come. -/
theorem serve_of_isAlone (ht : t.IsAlone) (hs : s.IsUntroubled)
    (hseg : t.segment = s.withReads reads) (c : Call) :
    ((serve c t).1 = (Segment.serve c s).1 ∧
      ∃ m, (serve c t).2.segment = (Segment.serve c s).2.withReads m) ∨
    (∃ e, c.failure? (serve c t).1 = some e) ∧ (serve c t).2.segment = s.withReads reads ∧
      (serve c t).2.ahead.length < t.ahead.length := by
  have hothers : t.next.others = id := mem_next (P := fun i => i.others = id) ht rfl
  have hcall : ∀ failure, t.next.failure = failure →
      (serve c t).1 = (Segment.serveOrFail failure c (s.withReads reads)).1 ∧
        (serve c t).2.segment = (Segment.serveOrFail failure c (s.withReads reads)).2 := by
    intro failure hfailure
    rw [← hfailure, ← hseg]
    unfold serve
    rw [hothers]
    exact ⟨rfl, rfl⟩
  cases hfailure : t.next.failure with
  | none =>
      obtain ⟨hreply, hstate⟩ := hcall none hfailure
      rw [hreply, hstate, Segment.serveOrFail_none]
      exact .inl (hs.serve_withReads c reads)
  | some e =>
      obtain ⟨hreply, hstate⟩ := hcall (some e) hfailure
      rw [hreply, hstate]
      rcases (hs.withReads reads).serveOrFail e c with heq | ⟨hfails, hsame⟩
      · rw [heq]
        exact .inl (hs.serve_withReads c reads)
      · refine .inr ⟨hfails, hsame, ?_⟩
        show t.ahead.tail.length < t.ahead.length
        cases hahead : t.ahead with
        | nil =>
            unfold next at hfailure
            rw [hahead] at hfailure
            exact absurd hfailure (by simp)
        | cons i rest => exact Nat.lt_succ_self _

/-- A program has ended as it would have without failures, but for the count of reads. -/
def EndsAs (o : Program.Outcome Trial α) (plain : Program.Outcome Segment α) : Prop :=
  o.value = plain.value ∧ ∃ n, o.state.segment = plain.state.withReads n

/-- A program has failed and left the segment as it was, with fewer failures to come. -/
structure GivesUp (t : Trial) (s : Segment)
    (o : Program.Outcome Trial (Except IndexError α)) : Prop where
  value : ∃ e, o.value = some (.error e)
  segment : ∃ n, o.state.segment = s.withReads n
  ahead : o.state.ahead.length < t.ahead.length

theorem endsAs_of_endsIn {p : Program α} {a : α} (h : p.EndsIn a)
    (hseg : t.segment = s.withReads reads) : EndsAs (p.run serve t) (p.run Segment.serve s) := by
  obtain ⟨hvalue, hstate⟩ := h.run serve t
  obtain ⟨hvalue', hstate'⟩ := h.run Segment.serve s
  rw [EndsAs, hvalue, hvalue', hstate, hstate']
  exact ⟨rfl, reads, hseg⟩

/-- **A transaction with nobody else there** ends as it would have without failures, or gives up. -/
theorem endsAs_or_givesUp (hp : p.IsTransaction) (ht : t.IsAlone) (hs : s.IsUntroubled)
    (hseg : t.segment = s.withReads reads) :
    EndsAs (p.run serve t) (p.run Segment.serve s) ∨ GivesUp t s (p.run serve t) := by
  induction p generalizing s t reads with
  | done a => exact .inl ⟨rfl, reads, hseg⟩
  | crash => exact .inl ⟨rfl, reads, hseg⟩
  | note e p ih =>
      rcases ih hp ht hs hseg with hsame | hgivesUp
      · exact .inl hsame
      · exact .inr ⟨hgivesUp.value, hgivesUp.segment, hgivesUp.ahead⟩
  | call c k ih =>
      have hrest : (serve c t).2.IsAlone := fun i hi => ht i (List.mem_of_mem_tail hi)
      show EndsAs ((k (serve c t).1).run serve (serve c t).2)
          ((k (Segment.serve c s).1).run Segment.serve (Segment.serve c s).2) ∨
        GivesUp t s ((k (serve c t).1).run serve (serve c t).2)
      rcases serve_of_isAlone ht hs hseg c with ⟨hreply, m, hsegment⟩ | ⟨⟨e, he⟩, hsegment, hless⟩
      · -- the call is answered as it would be without failures
        rw [hreply]
        have hgoes := hp (Segment.serve c s).1
        split at hgoes
        · exact .inl (endsAs_of_endsIn hgoes hsegment)
        · rcases hgoes with ⟨hread, hgoes⟩ | ⟨a, hends⟩
          · rcases ih _ hgoes hrest (hs.serve c) hsegment with hsame | ⟨hvalue, ⟨m', hm'⟩, hless⟩
            · exact .inl hsame
            · obtain ⟨m₀, hm₀⟩ := hs.serve_of_isRead hread
              refine .inr ⟨hvalue, ⟨m', by rw [hm', hm₀]; rfl⟩, lt_of_lt_of_le hless ?_⟩
              show t.ahead.tail.length ≤ t.ahead.length
              rw [List.length_tail]
              exact Nat.sub_le _ _
          · exact .inl (endsAs_of_endsIn hends hsegment)
      · have hends := hp (serve c t).1
        rw [he] at hends
        obtain ⟨hvalue, hstate⟩ := Program.EndsIn.run hends serve (serve c t).2
        refine .inr ⟨⟨e, hvalue⟩, ⟨reads, ?_⟩, ?_⟩
        · rw [hstate, hsegment]
        · rw [hstate]
          exact hless

/-- An attempt is repeated until it succeeds. -/
inductive Repeats (x : Attempt IndexError Nat) : Trial → Nat → Trial → Prop where
  | success {t : Trial} {n : Nat} :
      (x.run.run serve t).value = some (.ok n) → Repeats x t n (x.run.run serve t).state
  | again {t t' : Trial} {n : Nat} {e : IndexError} :
      (x.run.run serve t).value = some (.error e) →
        Repeats x (x.run.run serve t).state n t' → Repeats x t n t'

/-- A run in which every pass is repeated until it succeeds, and what its passes then give. -/
inductive Completes : Trial → List Task → List Nat → Trial → Prop where
  | nil (t : Trial) : Completes t [] [] t
  | append {t t' : Trial} {key : TableKey} {removal : Bool} {tasks : List Task}
      {results : List Nat} :
      Completes { t with segment := (t.segment.append key removal).2 } tasks results t' →
        Completes t (.append key removal :: tasks) results t'
  | pass {t t' t'' : Trial} {w : Writer} {upTo : Option Offset} {n : Nat} {tasks : List Task}
      {results : List Nat} :
      Repeats (w.passTo t.segment.id upTo) t n t' → Completes t' tasks results t'' →
        Completes t (.pass w upTo :: tasks) (n :: results) t''

/-- The segment is as it would be without failures, but for the count of reads. -/
structure Matches (t : Trial) (s : Segment) : Prop where
  isAlone : t.IsAlone
  isUntroubled : s.IsUntroubled
  segment : ∃ n, t.segment = s.withReads n

theorem Matches.append (h : t.Matches s) (key : TableKey) (removal : Bool) :
    Matches { t with segment := (t.segment.append key removal).2 } (s.append key removal).2 := by
  obtain ⟨n, hn⟩ := h.segment
  exact ⟨h.isAlone, h.isUntroubled.append key removal, n, by rw [hn, s.append_withReads]⟩

/-- **One attempt** either succeeds as it would without failures, or leaves everything as it was. -/
theorem Matches.attempt (h : t.Matches s) (hx : x.run.IsTransaction)
    (hok : (x.runAlone s).value = some (.ok n)) :
    ((x.run.run serve t).value = some (.ok n) ∧
      (x.run.run serve t).state.Matches (x.runAlone s).state) ∨
    (∃ e, (x.run.run serve t).value = some (.error e)) ∧
      (x.run.run serve t).state.Matches s ∧
        (x.run.run serve t).state.ahead.length < t.ahead.length := by
  obtain ⟨k, hk⟩ := h.segment
  have hrest := isAlone_run h.isAlone x.run
  rcases endsAs_or_givesUp hx h.isAlone h.isUntroubled hk with ⟨hvalue, hsegment⟩ | hgivesUp
  · exact .inl ⟨hvalue.trans hok, hrest, h.isUntroubled.run x.run, hsegment⟩
  · exact .inr ⟨hgivesUp.value, ⟨hrest, h.isUntroubled, hgivesUp.segment⟩, hgivesUp.ahead⟩

theorem Matches.exists_repeats (h : t.Matches s) (hx : x.run.IsTransaction)
    (hok : (x.runAlone s).value = some (.ok n)) : ∃ t', Repeats x t n t' := by
  -- every failure is used up
  induction hlength : t.ahead.length using Nat.strong_induction_on generalizing t with
  | h k ih =>
      subst hlength
      rcases h.attempt hx hok with ⟨hvalue, _⟩ | ⟨⟨e, hvalue⟩, hstate, hless⟩
      · exact ⟨_, .success hvalue⟩
      · obtain ⟨t', ht'⟩ := ih _ hless hstate rfl
        exact ⟨t', .again hvalue ht'⟩

theorem Repeats.eq (hrep : Repeats x t m t') (h : t.Matches s) (hx : x.run.IsTransaction)
    (hok : (x.runAlone s).value = some (.ok n)) : m = n ∧ t'.Matches (x.runAlone s).state := by
  induction hrep with
  | success hvalue =>
      rcases h.attempt hx hok with ⟨hvalue', hstate⟩ | ⟨⟨e, hvalue'⟩, _⟩
      · rw [hvalue] at hvalue'
        exact ⟨Except.ok.inj (Option.some.inj hvalue'), hstate⟩
      · rw [hvalue] at hvalue'
        exact absurd hvalue' (by simp)
  | again hvalue _ ih =>
      rcases h.attempt hx hok with ⟨hvalue', _⟩ | ⟨_, hstate, _⟩
      · rw [hvalue] at hvalue'
        exact absurd hvalue' (by simp)
      · exact ih hstate

/-- **A run with failures can be completed**, whatever the failures. -/
theorem Matches.exists_completes (h : t.Matches s) (hs : s.Performs tasks results s') :
    ∃ t', Completes t tasks results t' := by
  induction hs generalizing t with
  | nil s => exact ⟨t, .nil t⟩
  | append _ ih =>
      obtain ⟨t', ht'⟩ := ih (h.append _ _)
      exact ⟨t', .append ht'⟩
  | @pass s s' w upTo n tasks results hok _ ih =>
      have hx := w.isTransaction_passTo s.id upTo
      obtain ⟨t₁, ht₁⟩ := h.exists_repeats hx hok
      obtain ⟨_, hmatches⟩ := ht₁.eq h hx hok
      obtain ⟨t', ht'⟩ := ih hmatches
      obtain ⟨k, hk⟩ := h.segment
      have hid : t.segment.id = s.id := by rw [hk]; rfl
      exact ⟨t', .pass (hid ▸ ht₁) ht'⟩

/-- **However it is completed, it comes to the same** as without failures. -/
theorem Completes.eq (hcomp : Completes t tasks results' t') (h : t.Matches s)
    (hs : s.Performs tasks results s') : results' = results ∧ t'.Matches s' := by
  induction hcomp generalizing s results with
  | nil t =>
      cases hs
      exact ⟨rfl, h⟩
  | append _ ih =>
      cases hs with
      | append hs => exact ih (h.append _ _) hs
  | @pass t t₁ t' w upTo m tasks results' hrep _ ih =>
      cases hs with
      | pass hok hs =>
          obtain ⟨k, hk⟩ := h.segment
          have hid : t.segment.id = s.id := by rw [hk]; rfl
          rw [hid] at hrep
          obtain ⟨rfl, hmatches⟩ := hrep.eq h (w.isTransaction_passTo s.id upTo) hok
          obtain ⟨rfl, hend⟩ := ih hmatches hs
          exact ⟨rfl, hend⟩

end Trial

/-! ## What one client comes to -/

namespace Segment

variable {hash : TableKey → KeyHash} {s : Segment} {w : Writer} {upTo : Option Offset}
  {tasks : List Task}

/-- The pass may be told to stop there: between the checkpoint and the end of the log. -/
def CanIndexTo (s : Segment) (upTo : Option Offset) : Prop :=
  ∀ last, upTo = some last → ∃ first, s.checkpoint = some first ∧ first ≤ last ∧
    last ≤ s.log.length

/-- Tasks for one client: all passes hash keys in the same way, no hashing is cancelled, and all
passes stop where they may. -/
def Feasible (hash : TableKey → KeyHash) : List Task → Segment → Prop
  | [], _ => True
  | .append key removal :: tasks, s => Feasible hash tasks (s.append key removal).2
  | .pass w upTo :: tasks, s => w.HashesBy hash ∧ s.CanIndexTo upTo ∧
      Feasible hash tasks ((w.passTo s.id upTo).runAlone s).state

theorem Reachable.isUntroubled (h : Reachable hash s) : s.IsUntroubled := by
  obtain ⟨c, hc⟩ := h.exists_indexed
  exact ⟨hc.pendingReadFailure, hc.pendingWriteFailure⟩

theorem Reachable.passTo (h : Reachable hash s) (hw : w.HashesBy hash)
    (hupTo : s.CanIndexTo upTo) :
    (∃ n, ((w.passTo s.id upTo).runAlone s).value = some (.ok n)) ∧
      Reachable hash ((w.passTo s.id upTo).runAlone s).state := by
  obtain ⟨c, hc⟩ := h.exists_indexed
  have hindex : ∀ last, c ≤ last → last ≤ s.log.length →
      (∃ n, ((w.indexTo s.id last).runAlone s).value = some (.ok n)) ∧
        Reachable hash ((w.indexTo s.id last).runAlone s).state := fun last hle hlast =>
    ⟨(runAlone_indexTo hc hw hle hlast s.id).1,
      .index w c last h hw.hash_eq hc.checkpoint_eq hle hlast⟩
  cases upTo with
  | some last =>
      obtain ⟨first, hfirst, hle, hlast⟩ := hupTo last rfl
      obtain rfl := Option.some.inj (hc.checkpoint_eq.symm.trans hfirst)
      exact hindex last hle hlast
  | none =>
      show (∃ n, ((w.pass s.id).runAlone s).value = _) ∧
        Reachable hash ((w.pass s.id).runAlone s).state
      rw [runAlone_pass]
      exact hindex s.log.length hc.le_length (le_refl _)

/-- **Without failures every task can be done.** -/
theorem Reachable.exists_performs (h : Reachable hash s) (htasks : Feasible hash tasks s) :
    ∃ results s', s.Performs tasks results s' := by
  induction tasks generalizing s with
  | nil => exact ⟨[], s, .nil s⟩
  | cons task tasks ih =>
      cases task with
      | append key removal =>
          obtain ⟨results, s', hs'⟩ := ih (h.append key removal) htasks
          exact ⟨results, s', .append hs'⟩
      | pass w upTo =>
          obtain ⟨hw, hupTo, htasks⟩ := htasks
          obtain ⟨⟨n, hn⟩, hreach⟩ := h.passTo hw hupTo
          obtain ⟨results, s', hs'⟩ := ih hreach htasks
          exact ⟨n :: results, s', .pass hn hs'⟩

end Segment

namespace Trial

/-- The segment of one client, with calls that are to fail. -/
def failing (s : Segment) (failures : List (Option StoreError)) : Trial :=
  start s (failures.map (⟨id, ·⟩))

theorem matches_failing {s : Segment} (hs : s.IsUntroubled) (failures : List (Option StoreError)) :
    (failing s failures).Matches s :=
  ⟨isAlone_start s failures, hs, s.attributeReads, rfl⟩

/-- **A failed pass leaves no trace, and can be repeated.** Whatever happens before its calls: if a
call of a pass fails, the pass gives back that failure; and unless the pass succeeds, none of its
calls has changed the log, an attribute or the number of batches applied, so none of these changes
at all if nobody else changes them.

So whatever one client does on a segment prepared for indexing, and whichever calls of its passes
fail: with each failed pass repeated until it succeeds, everything can be done, and the passes give
the same and leave the same behind as without failures. -/
theorem leaves_no_trace :
    (∀ (s : Segment) (ahead : List Incident) (w : Writer) (id : SegmentId) (upTo : Option Offset),
      (∀ x ∈ ((w.passTo id upTo).run.run serve (start s ahead)).state.encounters, ∀ e,
        x.failure = some e →
          ((w.passTo id upTo).run.run serve (start s ahead)).value = some (.error e)) ∧
      ((∀ n, ((w.passTo id upTo).run.run serve (start s ahead)).value ≠ some (.ok n)) →
        (∀ x ∈ ((w.passTo id upTo).run.run serve (start s ahead)).state.encounters,
          x.before.Unaltered x.after) ∧
        ((start s ahead).OthersStandBy →
          s.Unaltered ((w.passTo id upTo).run.run serve (start s ahead)).state.segment))) ∧
    ∀ (hash : TableKey → KeyHash) (s : Segment) (tasks : List Task), s.Reachable hash →
      Segment.Feasible hash tasks s →
        ∃ results s', s.Performs tasks results s' ∧ ∀ failures : List (Option StoreError),
          (∃ t, Completes (failing s failures) tasks results t) ∧
          ∀ results' t, Completes (failing s failures) tasks results' t →
            results' = results ∧ t.segment.attributes = s'.attributes ∧
              t.segment.checkpoint = s'.checkpoint ∧ t.segment.log = s'.log ∧
              t.segment.appliedBatches = s'.appliedBatches := by
  constructor
  · intro s ahead w id upTo
    obtain ⟨calls, hcalls⟩ := exists_unwinds (w.isTransaction_passTo id upTo) (start s ahead)
    have hencounters := hcalls.encounters
    rw [show (start s ahead).encounters = [] from rfl, List.nil_append] at hencounters
    rw [hencounters]
    exact ⟨hcalls.failure, fun hno => ⟨hcalls.unaltered hno, hcalls.segment hno⟩⟩
  · intro hash s tasks hreach htasks
    obtain ⟨results, s', hs'⟩ := hreach.exists_performs htasks
    refine ⟨results, s', hs', ?_⟩
    intro failures
    have hstart := matches_failing hreach.isUntroubled failures
    refine ⟨hstart.exists_completes hs', ?_⟩
    intro results' t ht
    obtain ⟨rfl, hend⟩ := ht.eq hstart hs'
    obtain ⟨n, hn⟩ := hend.segment
    rw [hn]
    exact ⟨rfl, rfl, rfl, rfl, rfl⟩

/-- The sample with two of its three entries indexed. -/
def halfway : Segment := Segment.sample.indexedTo 34

theorem reachable_halfway : halfway.Reachable (fun _ => default) :=
  (Segment.reachable_sample.indexedTo Segment.checkpoint_sample (by decide)
    (by rw [Segment.length_sample]; decide)).1

/-- Some calls to which nothing happens. -/
def calm (n : Nat) : List (Option StoreError) := List.replicate n none

/-- Passes in trouble, and what they give back: a link cannot be read, a key cannot be read, the
batch fails, the segment is sealed before the batch, another pass moves the checkpoint before the
batch, or the hashing is cancelled. -/
def troubles : List (Writer × List Incident × IndexError) :=
  let before (n : Nat) (i : Incident) : List Incident := (calm n).map (⟨id, ·⟩) ++ [i]
  [(Segment.oneBucket, before 4 ⟨id, some (.unavailable "link")⟩, .store (.unavailable "link")),
    (Segment.oneBucket, before 6 ⟨id, some (.io "key")⟩, .store (.io "key")),
    (Segment.oneBucket, before 8 ⟨id, some (.io "batch")⟩, .store (.io "batch")),
    (Segment.oneBucket, before 8 ⟨Segment.sealOff, none⟩, .store (.segmentSealed 1)),
    (Segment.oneBucket, before 8 ⟨(·.indexedTo 51), none⟩,
      .checkpointConflict (.clamp 34) (some (.clamp 51))),
    ({ Segment.oneBucket with config := { offloadThreshold := 1 }, hashingTask := .cancelled }, [],
      .store (.unavailable "key hashing task was cancelled"))]

/-- A pass, the removal of the key that is left, and a pass again. -/
def sampleTasks : List Task :=
  [.pass Segment.oneBucket none, .append ⟨[98]⟩ true, .pass Segment.oneBucket none]

/-- The first pass fails when it reads a key, and again when it writes its batch. The second one
fails when it reads the checkpoint. -/
def sampleFailures : List (Option StoreError) :=
  calm 6 ++ [some (.io "key")] ++ calm 8 ++ [some (.io "batch")] ++ calm 9 ++
    [some (.unavailable "checkpoint")]

/-- What the sample comes to without failures. -/
def sampleEnd : Segment :=
  let passed (s : Segment) : Segment := ((Segment.oneBucket.passTo s.id none).runAlone s).state
  passed ((passed halfway).append ⟨[98]⟩ true).2

/-- Each of the passes in trouble tells what has happened to it, and none of its calls has changed
anything. And the run with three failures comes to the end that it has without them. -/
theorem leaves_no_trace_sample :
    (∀ x ∈ troubles,
      ((x.1.passTo 1 none).run.run serve (start halfway x.2.1)).value = some (.error x.2.2) ∧
      ∀ y ∈ ((x.1.passTo 1 none).run.run serve (start halfway x.2.1)).state.encounters,
        y.before.Unaltered y.after) ∧
    (∃ t, Completes (failing halfway sampleFailures) sampleTasks [3, 2] t) ∧
    ∀ results t, Completes (failing halfway sampleFailures) sampleTasks results t →
      results = [3, 2] ∧ t.segment.attributes = sampleEnd.attributes ∧
        t.segment.checkpoint = some (.clamp 68) ∧ t.segment.appliedBatches = 4 := by
  obtain ⟨hpass, hrun⟩ := leaves_no_trace
  constructor
  · intro x hx
    have hvalue : ((x.1.passTo 1 none).run.run serve (start halfway x.2.1)).value
        = some (.error x.2.2) := by
      unfold troubles at hx
      simp only [List.mem_cons, List.not_mem_nil, or_false] at hx
      rcases hx with rfl | rfl | rfl | rfl | rfl | rfl <;> cbv
    have hno : ∀ n, ((x.1.passTo 1 none).run.run serve (start halfway x.2.1)).value
        ≠ some (.ok n) := by
      intro n hn
      rw [hvalue] at hn
      exact absurd hn (by simp)
    exact ⟨hvalue, ((hpass halfway x.2.1 x.1 1 none).2 hno).1⟩
  · have hfeasible : Segment.Feasible (fun _ => default) sampleTasks halfway :=
      ⟨⟨rfl, rfl⟩, fun _ h => absurd h (by simp),
        ⟨rfl, rfl⟩, fun _ h => absurd h (by simp), trivial⟩
    have hplain : halfway.Performs sampleTasks [3, 2] sampleEnd :=
      .pass (by cbv) (.append (.pass (by cbv) (.nil _)))
    obtain ⟨results, s', hs', hfailures⟩ := hrun _ _ _ reachable_halfway hfeasible
    obtain ⟨rfl, rfl⟩ := hs'.unique hplain
    obtain ⟨hcompletes, hsame⟩ := hfailures sampleFailures
    refine ⟨hcompletes, fun results t ht => ?_⟩
    obtain ⟨hresults, hattributes, hcheckpoint, _, hbatches⟩ := hsame results t ht
    exact ⟨hresults, hattributes, hcheckpoint.trans (by cbv), hbatches.trans (by cbv)⟩

end Trial

end SegmentIndex
