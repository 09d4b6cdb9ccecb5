import Mathlib.Data.List.Induction
import SegmentIndex.Proofs.Apply

/-!
# The checkpoint only moves forward

Callers may do to a segment what they like: apply plans that are out of date or make no sense, write
the first batch again and again, append, seal, and order failures. The checkpoint stands all of
this, and one reason is enough: it is moved by exactly two kinds of batch (`checkpoint_perform`).
The first batch sets it if it is missing, and the batch of a plan takes it from where the plan
starts to where it ends, which is further on.

So it never goes back, and it never comes to the same place twice: two plans that start from the
same place cannot both go through.
-/

namespace SegmentIndex

open Attributes

/-- What callers can do to a segment. Plans may be anything. -/
inductive Action where
  | append (key : TableKey) (removal : Bool)
  /-- Writes the batch that prepares a new segment. -/
  | prepare
  | update (p : Plan)
  | sealOff
  | failNextRead (e : StoreError)
  | failNextWrite (e : StoreError)
  | read (keys : List AttributeKey)

namespace Segment

def perform (s : Segment) : Action → Segment
  | .append key removal => (s.append key removal).2
  | .prepare => (s.writeAttributes initialMutations).2
  | .update p => (p.runApply s.id s).state
  | .sealOff => s.sealOff
  | .failNextRead e => s.failNextRead e
  | .failNextWrite e => s.failNextWrite e
  | .read keys => (s.readAttributes keys).2

/-- A new segment after some actions. -/
def after (id : SegmentId) (actions : List Action) : Segment := actions.foldl perform (.empty id)

/-- The first batch goes through. -/
def Prepares (s : Segment) : Prop := (s.writeAttributes initialMutations).1 = .ok ()

/-- Applying the plan succeeds. -/
def Takes (s : Segment) (p : Plan) : Prop := ∃ n, (p.runApply s.id s).value = some (.ok n)

variable {s : Segment} {p q : Plan} {id : SegmentId} {a : Action}

theorem after_append (id : SegmentId) (l l' : List Action) :
    after id (l ++ l') = l'.foldl perform (after id l) := List.foldl_append

/-! ## One action -/

theorem foldlM_write_initialMutations (a : Attributes) :
    ∃ a', initialMutations.foldlM write a = .ok a' ∧
      a'.offset? .tableIndexOffset = some ((a.offset? .tableIndexOffset).getD .zero) := by
  cases hoffset : a.offset? .tableIndexOffset with
  | none =>
      refine ⟨a.set .tableIndexOffset (some .zero), ?_, offset?_set a _ _ _⟩
      show Except.ok (if (a.offset? .tableIndexOffset).isSome then a else _) = _
      rw [hoffset]
      rfl
  | some o =>
      refine ⟨a, ?_, hoffset⟩
      show Except.ok (if (a.offset? .tableIndexOffset).isSome then a else _) = _
      rw [hoffset]
      rfl

/-- **The first batch** sets the checkpoint if it is missing. -/
theorem Prepares.checkpoint_perform (h : s.Prepares) :
    (s.perform .prepare).checkpoint = some (s.checkpoint.getD .zero) := by
  have happly := apply_eq_ok_of_writeAttributes h
  obtain ⟨attributes, hrun, hcheckpoint⟩ := foldlM_write_initialMutations s.attributes
  rw [apply_eq_foldlM, hrun] at happly
  rw [Except.ok.inj happly] at hcheckpoint
  exact hcheckpoint

/-- **A plan that starts before it ends** is taken only where it starts, to where it ends. -/
theorem Takes.checkpoint_of_lt (h : s.Takes p) (hlt : p.first < p.last) :
    s.checkpoint = some p.first ∧ (s.perform (.update p)).checkpoint = some p.last := by
  obtain ⟨n, hn⟩ := h
  obtain ⟨batch, hbatch, _, happly⟩ := Plan.apply_of_runApply_eq_ok hn
  obtain ⟨_, rfl⟩ := Plan.eq_of_mutations hbatch
  rw [apply_eq_foldlM] at happly
  by_cases hfirst : s.checkpoint = some p.first
  · obtain ⟨a, hrun, hlast, _⟩ := Plan.foldlM_write_of_lt hlt hfirst
    rw [happly] at hrun
    rw [← Except.ok.inj hrun] at hlast
    exact ⟨hfirst, hlast⟩
  · rw [Plan.foldlM_write_of_stale hlt hfirst] at happly
    exact absurd happly (by simp)

/-- Any other plan leaves the checkpoint alone. -/
theorem Takes.checkpoint_of_not_lt (h : s.Takes p) (hlt : ¬p.first < p.last) :
    (s.perform (.update p)).checkpoint = s.checkpoint := by
  obtain ⟨n, hn⟩ := h
  obtain ⟨batch, hbatch, _, happly⟩ := Plan.apply_of_runApply_eq_ok hn
  obtain ⟨_, rfl⟩ := Plan.eq_of_mutations hbatch
  obtain ⟨a, hrun, _, hcheckpoint⟩ := Plan.foldlM_write_of_not_lt hlt s.attributes
  rw [← apply_eq_foldlM, happly] at hrun
  rw [← Except.ok.inj hrun] at hcheckpoint
  exact hcheckpoint

/-- **A plan that is refused changes nothing.** -/
theorem attributes_perform_of_not_takes (h : ¬s.Takes p) :
    (s.perform (.update p)).attributes = s.attributes := by
  show (p.runApply s.id s).state.attributes = s.attributes
  cases hbatch : p.mutations with
  | error cause => rw [(Plan.runApply_of_mutations_error s.id s hbatch).2]
  | ok batch =>
      by_cases hne : batch = []
      · subst hne
        rw [(Plan.runApply_of_mutations_nil s.id s hbatch).2]
      · obtain ⟨hstate, hvalue⟩ := Plan.runApply_of_mutations_ok s.id s hbatch hne
        rcases s.writeAttributes_cases batch with ⟨attributes, _, heq⟩ | ⟨_, _, hsame⟩
        · rw [heq] at hvalue
          exact absurd ⟨batch.length, hvalue⟩ h
        · rw [hstate, hsame.attributes]

theorem attributes_append (s : Segment) (key : TableKey) (removal : Bool) :
    (s.append key removal).2.attributes = s.attributes := by
  rcases s.append_cases key removal with ⟨log, _, _, heq⟩ | ⟨_, e, heq⟩
  · rw [heq]
  · rw [heq]

/-- **What one action does to the checkpoint**: nothing; or it is the first batch, and there was no
checkpoint; or it is a plan, and the checkpoint goes from its start to its end. -/
theorem checkpoint_perform (s : Segment) (a : Action) :
    (s.perform a).checkpoint = s.checkpoint ∨
      (a = .prepare ∧ s.Prepares ∧ s.checkpoint = none ∧
        (s.perform a).checkpoint = some .zero) ∨
      ∃ p, a = .update p ∧ s.Takes p ∧ p.first < p.last ∧ s.checkpoint = some p.first ∧
        (s.perform a).checkpoint = some p.last := by
  cases a with
  | append key removal =>
      exact .inl (congrArg (·.offset? .tableIndexOffset) (s.attributes_append key removal))
  | prepare =>
      rcases s.writeAttributes_cases initialMutations with ⟨attributes, _, heq⟩ | ⟨_, _, hsame⟩
      · have hprepares : s.Prepares := by
          unfold Prepares
          rw [heq]
        have hafter := hprepares.checkpoint_perform
        cases hcheckpoint : s.checkpoint with
        | none =>
            rw [hcheckpoint] at hafter
            exact .inr (.inl ⟨rfl, hprepares, rfl, hafter⟩)
        | some c =>
            rw [hcheckpoint] at hafter
            exact .inl hafter
      · exact .inl (congrArg (·.offset? .tableIndexOffset) hsame.attributes)
  | update p =>
      by_cases htakes : s.Takes p
      · by_cases hlt : p.first < p.last
        · obtain ⟨hfirst, hlast⟩ := htakes.checkpoint_of_lt hlt
          exact .inr (.inr ⟨p, rfl, htakes, hlt, hfirst, hlast⟩)
        · exact .inl (htakes.checkpoint_of_not_lt hlt)
      · exact .inl (congrArg (·.offset? .tableIndexOffset) (attributes_perform_of_not_takes htakes))
  | sealOff => exact .inl rfl
  | failNextRead e => exact .inl rfl
  | failNextWrite e => exact .inl rfl
  | read keys =>
      have hund := undisturbed_serve (c := .readAttributes keys) trivial s
      exact .inl (congrArg (·.offset? .tableIndexOffset) hund.attributes)

theorem le_checkpoint_perform {c : Offset} (h : s.checkpoint = some c) (a : Action) :
    ∃ c', (s.perform a).checkpoint = some c' ∧ c ≤ c' := by
  rcases s.checkpoint_perform a with hsame | ⟨_, _, hnone, _⟩ | ⟨p, _, _, hlt, hfirst, hlast⟩
  · exact ⟨c, hsame.trans h, le_refl c⟩
  · rw [h] at hnone
    exact absurd hnone (by simp)
  · obtain rfl := Option.some.inj (h.symm.trans hfirst)
    exact ⟨p.last, hlast, hlt.le⟩

/-! ## Many actions -/

/-- **The checkpoint stays, and never goes back.** -/
theorem le_checkpoint_foldl {c : Offset} (h : s.checkpoint = some c) (l : List Action) :
    ∃ c', (l.foldl perform s).checkpoint = some c' ∧ c ≤ c' := by
  induction l generalizing s c with
  | nil => exact ⟨c, h, le_refl c⟩
  | cons a l ih =>
      obtain ⟨c₁, h₁, hle₁⟩ := le_checkpoint_perform h a
      obtain ⟨c', h', hle'⟩ := ih h₁
      exact ⟨c', h', le_trans hle₁ hle'⟩

/-- **There is no checkpoint as long as the first batch has not gone through.** -/
theorem checkpoint_after_eq_none_iff (id : SegmentId) (l : List Action) :
    (after id l).checkpoint = none ↔
      ∀ l₁ l₂, l = l₁ ++ .prepare :: l₂ → ¬(after id l₁).Prepares := by
  constructor
  · intro hnone l₁ l₂ heq hprepares
    obtain ⟨c, hc, _⟩ := le_checkpoint_foldl hprepares.checkpoint_perform l₂
    rw [heq, after_append, List.foldl_cons, hc] at hnone
    exact absurd hnone (by simp)
  · intro hno
    induction l using List.reverseRecOn with
    | nil => rfl
    | append_singleton l a ih =>
        have hnone := ih fun l₁ l₂ heq => hno l₁ (l₂ ++ [a]) (by rw [heq]; simp)
        rw [after_append]
        show ((after id l).perform a).checkpoint = none
        rcases (after id l).checkpoint_perform a with
          hsame | ⟨rfl, hprepares, _⟩ | ⟨p, _, _, _, hfirst, _⟩
        · exact hsame.trans hnone
        · exact absurd hprepares (hno l [] rfl)
        · rw [hnone] at hfirst
          exact absurd hfirst (by simp)

/-- **A plan that is taken after another** starts further on. -/
theorem Takes.first_lt_of_takes (h : s.Takes p) (hp : p.first < p.last) (l : List Action)
    (h' : (l.foldl perform (s.perform (.update p))).Takes q) (hq : q.first < q.last) :
    p.first < q.first := by
  obtain ⟨_, hlast⟩ := h.checkpoint_of_lt hp
  obtain ⟨c, hc, hle⟩ := le_checkpoint_foldl hlast l
  obtain rfl := Option.some.inj (hc.symm.trans (h'.checkpoint_of_lt hq).1)
  exact lt_of_lt_of_le hp hle

/-- **The checkpoint only moves forward, whoever calls.** After any actions on a new segment:

* there is a checkpoint if and only if the first batch has gone through at some time, and that batch
  sets it to the start of the log if there is none and leaves it alone otherwise;
* from then on it is always there and never goes back, whatever is done next;
* an action changes it only as that first batch, or as a plan that succeeds and starts before it
  ends, from exactly its start to exactly its end;
* without a checkpoint no such plan succeeds;
* if such a plan succeeds, no later one from the same place does. -/
theorem checkpoint_after (id : SegmentId) (l : List Action) :
    ((after id l).checkpoint = none ↔
      ∀ l₁ l₂, l = l₁ ++ .prepare :: l₂ → ¬(after id l₁).Prepares) ∧
    ((after id l).Prepares →
      (after id (l ++ [.prepare])).checkpoint = some ((after id l).checkpoint.getD .zero)) ∧
    (∀ c, (after id l).checkpoint = some c →
      ∀ l', ∃ c', (after id (l ++ l')).checkpoint = some c' ∧ c ≤ c') ∧
    (∀ a, (after id (l ++ [a])).checkpoint ≠ (after id l).checkpoint →
      (a = .prepare ∧ (after id l).Prepares ∧ (after id l).checkpoint = none ∧
        (after id (l ++ [a])).checkpoint = some .zero) ∨
      ∃ p, a = .update p ∧ (after id l).Takes p ∧ p.first < p.last ∧
        (after id l).checkpoint = some p.first ∧
        (after id (l ++ [a])).checkpoint = some p.last) ∧
    (∀ p, (after id l).checkpoint = none → p.first < p.last → ¬(after id l).Takes p) ∧
    ∀ p q l', p.first < p.last → q.first < q.last → (after id l).Takes p →
      (after id (l ++ .update p :: l')).Takes q → p.first ≠ q.first := by
  have hstep : ∀ a, after id (l ++ [a]) = (after id l).perform a := fun a => after_append id l [a]
  refine ⟨checkpoint_after_eq_none_iff id l, ?_, ?_, ?_, ?_, ?_⟩
  · intro hprepares
    rw [hstep]
    exact hprepares.checkpoint_perform
  · intro c hc l'
    rw [after_append]
    exact le_checkpoint_foldl hc l'
  · intro a hne
    rw [hstep] at hne ⊢
    exact (checkpoint_perform _ a).resolve_left hne
  · intro p hnone hlt htakes
    have hfirst := (htakes.checkpoint_of_lt hlt).1
    rw [hnone] at hfirst
    exact absurd hfirst (by simp)
  · intro p q l' hp hq htakes htakes'
    rw [after_append] at htakes'
    exact ne_of_lt (htakes.first_lt_of_takes hp l' htakes' hq)

/-- Before the first batch no plan is taken. Of two plans from the start of the log the second is
refused, although it would set the head of a bucket too, and the first batch, written once more,
changes nothing. -/
theorem checkpoint_after_oneKey :
    ¬(after 1 []).Takes (.oneKey .zero .top) ∧
      ¬(after 1 [.prepare, .update (.oneKey .zero ⟨5, by decide⟩)]).Takes (.oneKey .zero .top) ∧
      (after 1 [.prepare, .update (.oneKey .zero ⟨5, by decide⟩), .prepare]).checkpoint
        = some ⟨5, by decide⟩ := by
  obtain ⟨_, _, _, _, hunprepared, _⟩ := checkpoint_after 1 []
  obtain ⟨_, _, _, _, _, htwice⟩ := checkpoint_after 1 [.prepare]
  obtain ⟨_, hagain, _⟩ := checkpoint_after 1 [.prepare, .update (.oneKey .zero ⟨5, by decide⟩)]
  have hprepares : (after 1 [.prepare, .update (.oneKey .zero ⟨5, by decide⟩)]).Prepares := by
    unfold Prepares
    decide +kernel
  refine ⟨?_, fun htakes => ?_, ?_⟩
  · exact hunprepared (.oneKey .zero .top) (by decide +kernel) (by decide)
  · exact htwice (.oneKey .zero ⟨5, by decide⟩) (.oneKey .zero .top) [] (by decide) (by decide)
      ⟨2, by decide +kernel⟩ htakes rfl
  · exact (hagain hprepares).trans (by decide +kernel)

end Segment

end SegmentIndex
