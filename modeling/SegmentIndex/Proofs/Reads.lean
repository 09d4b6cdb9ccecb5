import SegmentIndex.Proofs.Attributes
import SegmentIndex.Segment

/-!
# Reading while others write

A program that reads makes several calls, and others may change the segment before each of them.
`Program.Reads` says what such a program comes to when all that is known of the others is a relation
`env`: before each call the segment may have gone from the state after the last call to any state
that `env` allows. The rules below go through a program call by call, so every reader has one lemma
that says what it gives, and whoever calls it uses that lemma.

Run on its own a program meets the same promise, as nobody else is a special case of somebody
(`Program.Reads.run`).
-/

namespace SegmentIndex

/-- The calls that change nothing. -/
def Call.isRead : Call → Prop
  | .writeAttributes _ => False
  | _ => True

/-- A call that only reads leaves everything as it is, except for what counts reads. -/
structure Segment.Undisturbed (s s' : Segment) : Prop where
  id : s'.id = s.id
  log : s'.log = s.log
  attributes : s'.attributes = s.attributes
  isSealed : s'.isSealed = s.isSealed
  pendingReadFailure : s.pendingReadFailure = none → s'.pendingReadFailure = none
  pendingWriteFailure : s'.pendingWriteFailure = s.pendingWriteFailure
  appliedBatches : s'.appliedBatches = s.appliedBatches

theorem Segment.Undisturbed.refl (s : Segment) : s.Undisturbed s :=
  ⟨rfl, rfl, rfl, rfl, fun h => h, rfl, rfl⟩

theorem Segment.Undisturbed.trans {s s' s'' : Segment} (h : s.Undisturbed s')
    (h' : s'.Undisturbed s'') : s.Undisturbed s'' where
  id := h'.id.trans h.id
  log := h'.log.trans h.log
  attributes := h'.attributes.trans h.attributes
  isSealed := h'.isSealed.trans h.isSealed
  pendingReadFailure hs := h'.pendingReadFailure (h.pendingReadFailure hs)
  pendingWriteFailure := h'.pendingWriteFailure.trans h.pendingWriteFailure
  appliedBatches := h'.appliedBatches.trans h.appliedBatches

theorem Segment.undisturbed_serve {c : Call} (hc : c.isRead) (s : Segment) :
    s.Undisturbed (Segment.serve c s).2 := by
  cases c with
  | readAttributes keys =>
      show s.Undisturbed (s.readAttributes keys).2
      unfold Segment.readAttributes
      cases hpending : s.pendingReadFailure with
      | none => exact ⟨rfl, rfl, rfl, rfl, fun _ => rfl, rfl, rfl⟩
      | some e => exact ⟨rfl, rfl, rfl, rfl, fun _ => rfl, rfl, rfl⟩
  | writeAttributes batch => exact hc.elim
  | readKey o => exact .refl s
  | readLength => exact .refl s
  | readUpdates first last => exact .refl s

namespace Program

variable {α β : Type} {env : Segment → Segment → Prop} {s : Segment}

/-- Started in a state of the segment, the program only reads and does not crash, and `post` holds
of what it gives and the state after its last call, whatever others do along `env` before each
call. -/
def Reads (env : Segment → Segment → Prop) (post : α → Segment → Prop) :
    Program α → Segment → Prop
  | done a, s => post a s
  | crash, _ => False
  | note _ p, s => p.Reads env post s
  | call c k, s =>
    c.isRead ∧ ∀ s', env s s' → (k (Segment.serve c s').1).Reads env post (Segment.serve c s').2

variable {post : α → Segment → Prop} {post' : β → Segment → Prop}

theorem Reads.mono {p : Program α} {post₂ : α → Segment → Prop} (h : p.Reads env post s)
    (himp : ∀ a s', post a s' → post₂ a s') : p.Reads env post₂ s := by
  induction p generalizing s with
  | done a => exact himp a s h
  | crash => exact h.elim
  | note e p ih => exact ih h
  | call c k ih => exact ⟨h.1, fun s' hs => ih _ (h.2 s' hs)⟩

theorem Reads.bind {p : Program α} {f : α → Program β} (h : p.Reads env post s)
    (hf : ∀ a s', post a s' → (f a).Reads env post' s') : (p.bind f).Reads env post' s := by
  induction p generalizing s with
  | done a => exact hf a s h
  | crash => exact h.elim
  | note e p ih => exact ih h
  | call c k ih => exact ⟨h.1, fun s' hs => ih _ (h.2 s' hs)⟩

/-- **Left alone, a reading program ends as promised**, and the segment is as it was. -/
theorem Reads.run {p : Program α} (h : p.Reads env post s) (henv : ∀ s, env s s) :
    ∃ a, (p.run Segment.serve s).value = some a ∧ post a (p.run Segment.serve s).state ∧
      s.Undisturbed (p.run Segment.serve s).state := by
  induction p generalizing s with
  | done a => exact ⟨a, rfl, h, .refl s⟩
  | crash => exact h.elim
  | note e p ih => exact ih h
  | call c k ih =>
      obtain ⟨a, hvalue, hpost, hstate⟩ := ih _ (h.2 s (henv s))
      exact ⟨a, hvalue, hpost, (Segment.undisturbed_serve h.1 s).trans hstate⟩

theorem run_bind {σ : Type} {server : Server σ} {p : Program α} {f : α → Program β} {s : σ} {a : α}
    (h : (p.run server s).value = some a) :
    ((p.bind f).run server s).value = ((f a).run server (p.run server s).state).value ∧
      ((p.bind f).run server s).state = ((f a).run server (p.run server s).state).state := by
  induction p generalizing s with
  | done b =>
      obtain rfl := Option.some.inj h
      exact ⟨rfl, rfl⟩
  | crash => exact absurd h (by simp [Program.run])
  | note e p ih => exact ih h
  | call c k ih => exact ih _ h

end Program

/-! ## Attempts -/

namespace Attempt

variable {ε ε' α β : Type} {env : Segment → Segment → Prop} {s : Segment}
  {post : α → Segment → Prop} {post' : β → Segment → Prop}

/-- The attempt succeeds, and `post` holds of what it gives and the state after its last call. -/
def Gives (env : Segment → Segment → Prop) (post : α → Segment → Prop) (x : Attempt ε α)
    (s : Segment) : Prop :=
  x.run.Reads env (fun result s' => ∃ a, result = .ok a ∧ post a s') s

theorem Gives.pure {a : α} (h : post a s) : Gives env post (Pure.pure a : Attempt ε α) s :=
  ⟨a, rfl, h⟩

theorem Gives.mono {x : Attempt ε α} {post₂ : α → Segment → Prop} (h : Gives env post x s)
    (himp : ∀ a s', post a s' → post₂ a s') : Gives env post₂ x s :=
  Program.Reads.mono h fun _ s' ⟨a, ha, hpost⟩ => ⟨a, ha, himp a s' hpost⟩

theorem Gives.bind {x : Attempt ε α} {f : α → Attempt ε β} (h : Gives env post x s)
    (hf : ∀ a s', post a s' → Gives env post' (f a) s') : Gives env post' (x >>= f) s := by
  refine Program.Reads.bind h ?_
  intro r s' hgiven
  obtain ⟨a, rfl, hpost⟩ := hgiven
  exact hf a s' hpost

theorem Gives.lift {p : Program α} (h : p.Reads env post s) :
    Gives env post (ExceptT.lift p : Attempt ε α) s :=
  Program.Reads.bind h fun a _ hpost => ⟨a, rfl, hpost⟩

theorem Gives.ofStore {x : Attempt StoreError α} (h : Gives env post x s) :
    Gives env post (ofStore x) s := by
  refine Program.Reads.bind h ?_
  intro r s' hgiven
  obtain ⟨a, rfl, hpost⟩ := hgiven
  exact ⟨a, rfl, hpost⟩

theorem Gives.ofExcept {r : Except ε α} {a : α} (hr : r = .ok a) (h : post a s) :
    Gives env post (liftM r : Attempt ε α) s :=
  ⟨a, hr, h⟩

theorem Gives.note {e : Event} {f : Unit → Attempt ε α} (h : Gives env post (f ()) s) :
    Gives env post (Attempt.note e >>= f) s := h

/-- An attempt on a segment, and nobody else is there. -/
def runAlone (x : Attempt ε α) (s : Segment) : Program.Outcome Segment (Except ε α) :=
  x.run.run Segment.serve s

/-- **Left alone, a reading attempt succeeds as promised**, and the segment is as it was. -/
theorem Gives.runAlone {x : Attempt ε α} (h : Gives env post x s) (henv : ∀ s, env s s) :
    ∃ a, (x.runAlone s).value = some (.ok a) ∧ post a (x.runAlone s).state ∧
      s.Undisturbed (x.runAlone s).state := by
  obtain ⟨_, hvalue, ⟨a, rfl, hpost⟩, hund⟩ := Program.Reads.run h henv
  exact ⟨a, hvalue, hpost, hund⟩

theorem runAlone_bind {x : Attempt ε α} {f : α → Attempt ε β} {a : α}
    (h : (x.runAlone s).value = some (.ok a)) :
    ((x >>= f).runAlone s).value = ((f a).runAlone (x.runAlone s).state).value ∧
      ((x >>= f).runAlone s).state = ((f a).runAlone (x.runAlone s).state).state :=
  Program.run_bind h

theorem runAlone_bind_of_error {x : Attempt ε α} {f : α → Attempt ε β} {e : ε}
    (h : (x.runAlone s).value = some (.error e)) :
    ((x >>= f).runAlone s).value = some (.error e) ∧
      ((x >>= f).runAlone s).state = (x.runAlone s).state :=
  Program.run_bind h

/-- One attempt after another for each element of a list. -/
theorem Gives.mapM {f : α → Attempt ε β} {l : List α} (inv : List α → List β → Segment → Prop)
    (hnil : inv [] [] s)
    (hstep : ∀ (done : List α) (a : α) (rest : List α) (given : List β) (s' : Segment),
      l = done ++ a :: rest → inv done given s' →
        Gives env (fun b s'' => inv (done ++ [a]) (given ++ [b]) s'') (f a) s') :
    Gives env (fun bs s' => inv l bs s') (l.mapM f) s := by
  rw [← List.mapM'_eq_mapM]
  -- from the middle of the list, with a part of it done
  suffices h : ∀ (rest done : List α) (given : List β) (s' : Segment), l = done ++ rest →
      inv done given s' → Gives env (fun bs s'' => inv l (given ++ bs) s'') (rest.mapM' f) s' by
    exact h l [] [] s rfl hnil
  intro rest
  induction rest with
  | nil =>
      intro done given s' hl hinv
      rw [List.append_nil] at hl
      exact .pure (by rwa [hl, List.append_nil])
  | cons a rest ih =>
      intro done given s' hl hinv
      rw [List.mapM'_cons]
      refine (hstep done a rest given s' hl hinv).bind fun b s'' hinv' => ?_
      have := ih (done ++ [a]) (given ++ [b]) s'' (by rw [hl]; simp) hinv'
      refine this.bind fun bs s₃ hinv₃ => .pure ?_
      rwa [List.append_assoc] at hinv₃

/-! ## Attempts that may fail -/

variable {fails fails' : ε → Prop}

/-- The attempt succeeds as `Gives` says, or it ends in a failure that `fails` allows. -/
def GivesUnless (env : Segment → Segment → Prop) (fails : ε → Prop) (post : α → Segment → Prop)
    (x : Attempt ε α) (s : Segment) : Prop :=
  x.run.Reads env (fun
    | .ok a, s' => post a s'
    | .error e, _ => fails e) s

theorem Gives.unless {x : Attempt ε α} (h : Gives env post x s) :
    GivesUnless env fails post x s := by
  refine Program.Reads.mono h ?_
  intro r s' hgiven
  obtain ⟨a, rfl, hpost⟩ := hgiven
  exact hpost

theorem GivesUnless.weaken {x : Attempt ε α} (h : GivesUnless env fails post x s)
    (hfails : ∀ e, fails e → fails' e) : GivesUnless env fails' post x s := by
  refine Program.Reads.mono h ?_
  intro r s' hpost
  cases r with
  | ok a => exact hpost
  | error e => exact hfails e hpost

/-- An attempt that may fail for no reason does not fail. -/
theorem GivesUnless.gives {x : Attempt ε α} (h : GivesUnless env fails post x s)
    (hno : ∀ e, ¬fails e) : Gives env post x s := by
  refine Program.Reads.mono h ?_
  intro r s' hpost
  cases r with
  | ok a => exact ⟨a, rfl, hpost⟩
  | error e => exact absurd hpost (hno e)

theorem GivesUnless.bind {x : Attempt ε α} {f : α → Attempt ε β}
    (h : GivesUnless env fails post x s)
    (hf : ∀ a s', post a s' → GivesUnless env fails post' (f a) s') :
    GivesUnless env fails post' (x >>= f) s := by
  refine Program.Reads.bind h ?_
  intro r s' hpost
  cases r with
  | ok a => exact hf a s' hpost
  | error e => exact hpost

/-- **Left alone, such an attempt ends in one of the two ways**, and the segment is as it was. -/
theorem GivesUnless.runAlone {x : Attempt ε α} (h : GivesUnless env fails post x s)
    (henv : ∀ s, env s s) :
    s.Undisturbed (x.runAlone s).state ∧
      ((∃ a, (x.runAlone s).value = some (.ok a) ∧ post a (x.runAlone s).state) ∨
        ∃ e, (x.runAlone s).value = some (.error e) ∧ fails e) := by
  obtain ⟨r, hvalue, hpost, hund⟩ := Program.Reads.run h henv
  refine ⟨hund, ?_⟩
  cases r with
  | ok a => exact .inl ⟨a, hvalue, hpost⟩
  | error e => exact .inr ⟨e, hvalue, hpost⟩

end Attempt

end SegmentIndex
