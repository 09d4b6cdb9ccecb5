import SegmentIndex.Proofs.Exchanges
import SegmentIndex.Proofs.Runs

/-!
# Many clients on one segment

Any number of passes run on one segment while others append to its log, and their calls take turns
in any order (`World.Step`). All passes agree on the hash of a key and on nothing else, and no pass
has its hashing cancelled.

The invariant (`World.Coherent`) has three parts:

* the segment is indexed up to its checkpoint;
* every pass will make right calls only and end right, whatever the others do, and if it has written
  its batch, the checkpoint has moved on from where the pass has read it;
* of the passes that have read the same checkpoint, one at most has written its batch.

The third part follows from the second: a pass that writes its batch finds the checkpoint where it
has read it, so no pass that has read the same has written before.
-/

namespace SegmentIndex

/-- A pass under way: its calls so far, and what is left of it. -/
structure Indexer where
  trace : List Exchange
  rest : Program (Except IndexError Nat)

namespace Indexer

/-- The checkpoint that the pass starts from, once it has read it. -/
def first? (a : Indexer) : Option Offset := firstRead a.trace

/-- The pass has written its batch. -/
def HasApplied (a : Indexer) : Prop := ∃ x ∈ a.trace, x.Applies

/-- The pass goes on by one event or one call, if there is anything left of it. -/
def turn (s : Segment) : Indexer → Indexer × Segment
  | ⟨t, .note _ p⟩ => (⟨t, p⟩, s)
  | ⟨t, .call c k⟩ =>
    let x : Exchange := ⟨c, s⟩
    (⟨t ++ [x], k x.reply⟩, x.after)
  | a => (a, s)

end Indexer

structure World where
  segment : Segment
  indexers : List Indexer

namespace World

def start (w : World) (writer : Writer) : World :=
  ⟨w.segment, w.indexers ++ [⟨[], (writer.pass w.segment.id).run⟩]⟩

def turn (w : World) (i : Nat) : World :=
  match w.indexers[i]? with
  | none => w
  | some a => ⟨(a.turn w.segment).2, w.indexers.set i (a.turn w.segment).1⟩

/-- What can happen next: an entry is appended, a pass begins, or a pass takes a turn. -/
inductive Step (hash : TableKey → KeyHash) : World → World → Prop where
  | append (w : World) (key : TableKey) (removal : Bool) :
      Step hash w ⟨(w.segment.append key removal).2, w.indexers⟩
  | start (w : World) (writer : Writer) :
      writer.HashesBy hash → Step hash w (w.start writer)
  | turn (w : World) (i : Nat) : Step hash w (w.turn i)

/-- What can come of a segment that one client has prepared and perhaps used, once there are
others. -/
inductive Reachable (hash : TableKey → KeyHash) : World → Prop where
  | alone {s : Segment} : s.Reachable hash → Reachable hash ⟨s, []⟩
  | step {w w' : World} : Reachable hash w → Step hash w w' → Reachable hash w'

end World

variable {hash : TableKey → KeyHash} {s s' : Segment} {c c' : Offset} {a a' : Indexer}
  {w w' : World} {i : Nat}

/-! ## One pass -/

theorem firstRead_append {t : List Exchange} {first : Offset} (h : firstRead t = some first)
    (x : Exchange) : firstRead (t ++ [x]) = some first := by
  cases t with
  | nil => exact absurd h (by simp [firstRead])
  | cons y t => exact h

namespace Indexer

/-- A pass will do right on a segment that is indexed up to an offset, and if it has written its
batch, it has started from an earlier one. -/
structure Sound (hash : TableKey → KeyHash) (s : Segment) (c : Offset) (a : Indexer) : Prop where
  meets : a.rest.Meets (Segment.Evolves hash) (Exchange.IsRight hash) EndsRight a.trace s
  first_lt : a.HasApplied → ∃ first, a.first? = some first ∧ first < c

theorem not_hasApplied_start (p : Program (Except IndexError Nat)) :
    ¬(Indexer.mk [] p).HasApplied := by
  intro h
  obtain ⟨x, hx, _⟩ := h
  exact absurd hx List.not_mem_nil

theorem sound_start {writer : Writer} (hw : writer.HashesBy hash) (hs : s.Indexed hash c)
    (id : SegmentId) : Sound hash s c ⟨[], (writer.pass id).run⟩ :=
  ⟨meets_pass hw hs id, fun happ => absurd happ (not_hasApplied_start _)⟩

theorem Sound.later (h : a.Sound hash s c) (hs : Segment.Evolves hash s s') (hle : c ≤ c') :
    a.Sound hash s' c' where
  meets := h.meets.later Segment.Evolves.trans hs
  first_lt happ := by
    obtain ⟨first, hfirst, hlt⟩ := h.first_lt happ
    exact ⟨first, hfirst, lt_of_lt_of_le hlt hle⟩

/-- A turn of a pass, from one checkpoint to another: if the pass has now written its batch, then it
had before, or it has started from the checkpoint that was in place until now. -/
structure Advances (hash : TableKey → KeyHash) (s : Segment) (c : Offset) (a : Indexer)
    (s' : Segment) (c' : Offset) (a' : Indexer) : Prop where
  evolves : Segment.Evolves hash s s'
  indexed : s'.Indexed hash c'
  le : c ≤ c'
  sound : a'.Sound hash s' c'
  hasApplied : a'.HasApplied → a.HasApplied ∧ a'.first? = a.first? ∨ a'.first? = some c

/-- **A call of a pass.** -/
theorem Sound.call {t : List Exchange} {call : Call}
    {k : call.Reply → Program (Except IndexError Nat)}
    (h : Sound hash s c ⟨t, .call call k⟩) (hs : s.Indexed hash c) :
    ∃ c', Advances hash s c ⟨t, .call call k⟩ (Exchange.mk call s).after c'
      ⟨t ++ [⟨call, s⟩], k (Exchange.mk call s).reply⟩ := by
  let x : Exchange := ⟨call, s⟩
  have hright : x.IsRight hash t := (h.meets s (.refl s)).1
  have hmeets := (h.meets s (.refl s)).2
  by_cases happ : x.Applies
  · -- the pass writes its batch, so the checkpoint is where the pass has read it
    obtain ⟨c₀, c', hread, hbefore, hafter, hlt⟩ := hright.advances happ
    obtain rfl : c₀ = c := hbefore.unique hs
    have hread' : firstRead (t ++ [x]) = some c₀ := firstRead_append hread x
    exact ⟨c', hright.evolves, hafter, hlt.le, ⟨hmeets, fun _ => ⟨c₀, hread', hlt⟩⟩,
      fun _ => Or.inr hread'⟩
  · obtain ⟨c', hsince⟩ := hright.evolves c hs
    have hbefore : (Indexer.mk (t ++ [x]) (k x.reply)).HasApplied → (Indexer.mk t
        (.call call k)).HasApplied ∧ firstRead (t ++ [x]) = firstRead t := by
      intro hex
      obtain ⟨y, hy, happ'⟩ := hex
      rcases List.mem_append.mp hy with hy | hy
      · obtain ⟨first, hfirst, _⟩ := h.first_lt ⟨y, hy, happ'⟩
        exact ⟨⟨y, hy, happ'⟩, (firstRead_append hfirst x).trans hfirst.symm⟩
      · exact absurd (List.mem_singleton.mp hy ▸ happ') happ
    refine ⟨c', hright.evolves, hsince.indexed, hsince.le, ⟨hmeets, fun happ' => ?_⟩,
      fun happ' => Or.inl (hbefore happ')⟩
    obtain ⟨hold, hread⟩ := hbefore happ'
    obtain ⟨first, hfirst, hlt⟩ := h.first_lt hold
    exact ⟨first, hread.trans hfirst, lt_of_lt_of_le hlt hsince.le⟩

theorem Sound.turn (h : a.Sound hash s c) (hs : s.Indexed hash c) :
    ∃ c', a.Advances hash s c (a.turn s).2 c' (a.turn s).1 := by
  obtain ⟨t, p⟩ := a
  cases p with
  | done r => exact ⟨c, .refl s, hs, le_refl c, h, fun happ => Or.inl ⟨happ, rfl⟩⟩
  | crash => exact h.meets.elim
  | note e p =>
      exact ⟨c, .refl s, hs, le_refl c, ⟨h.meets, h.first_lt⟩, fun happ => Or.inl ⟨happ, rfl⟩⟩
  | call call k => exact h.call hs

end Indexer

/-! ## The invariant -/

namespace World

structure Coherent (hash : TableKey → KeyHash) (w : World) (c : Offset) : Prop where
  indexed : w.segment.Indexed hash c
  sound : ∀ (i : Nat) (a : Indexer), w.indexers[i]? = some a → a.Sound hash w.segment c
  atMostOne : ∀ (i j : Nat) (a b : Indexer), i ≠ j → w.indexers[i]? = some a →
    w.indexers[j]? = some b → a.first? = b.first? → a.HasApplied → ¬b.HasApplied

theorem getElem?_set_cases {l : List Indexer} {j : Nat} {b : Indexer}
    (h : (l.set i a')[j]? = some b) : i = j ∧ b = a' ∨ i ≠ j ∧ l[j]? = some b := by
  rw [List.getElem?_set] at h
  by_cases hij : i = j
  · rw [if_pos hij] at h
    split at h
    · exact Or.inl ⟨hij, (Option.some.inj h).symm⟩
    · exact absurd h (by simp)
  · rw [if_neg hij] at h
    exact Or.inr ⟨hij, h⟩

/-- **One pass goes on**, and the others stand by. -/
theorem Coherent.set (h : w.Coherent hash c) (ha : w.indexers[i]? = some a)
    (hadv : a.Advances hash w.segment c s' c' a') :
    Coherent hash ⟨s', w.indexers.set i a'⟩ c' := by
  -- if the pass has just written its batch, those that had before have started earlier
  have hone : a'.HasApplied → ∀ (j : Nat) (b : Indexer), i ≠ j → w.indexers[j]? = some b →
      a'.first? = b.first? → ¬b.HasApplied := by
    intro happ j b hij hb hfirst happ'
    rcases hadv.hasApplied happ with ⟨hold, hsame⟩ | hread
    · exact h.atMostOne i j a b hij ha hb (hsame.symm.trans hfirst) hold happ'
    · obtain ⟨first, hfirst', hlt⟩ := (h.sound j b hb).first_lt happ'
      have : c = first := Option.some.inj (hread.symm.trans (hfirst.trans hfirst'))
      exact absurd (this ▸ hlt) (lt_irrefl c)
  refine ⟨hadv.indexed, fun j b hb => ?_, fun j k b d hjk hb hd hfirst happ happ' => ?_⟩
  · rcases getElem?_set_cases hb with ⟨_, rfl⟩ | ⟨_, hb⟩
    · exact hadv.sound
    · exact (h.sound j b hb).later hadv.evolves hadv.le
  · rcases getElem?_set_cases hb with ⟨rfl, rfl⟩ | ⟨hij, hb'⟩
    · rcases getElem?_set_cases hd with ⟨hik, _⟩ | ⟨hik, hd⟩
      · exact hjk hik
      · exact hone happ k d hik hd hfirst happ'
    · rcases getElem?_set_cases hd with ⟨rfl, rfl⟩ | ⟨_, hd⟩
      · exact hone happ' j b hij hb' hfirst.symm happ
      · exact h.atMostOne j k b d hjk hb' hd hfirst happ happ'

theorem Coherent.turn (h : w.Coherent hash c) (i : Nat) : ∃ c', (w.turn i).Coherent hash c' := by
  unfold World.turn
  cases ha : w.indexers[i]? with
  | none => exact ⟨c, h⟩
  | some a =>
      obtain ⟨c', hadv⟩ := (h.sound i a ha).turn h.indexed
      exact ⟨c', h.set ha hadv⟩

theorem Coherent.start (h : w.Coherent hash c) {writer : Writer}
    (hw : writer.HashesBy hash) : (w.start writer).Coherent hash c := by
  -- the pass that begins is none of the others, and has written nothing yet
  have hcases : ∀ {j : Nat} {b : Indexer}, (w.start writer).indexers[j]? = some b →
      w.indexers[j]? = some b ∨ b = ⟨[], (writer.pass w.segment.id).run⟩ := by
    intro j b hb
    unfold World.start at hb
    rcases lt_or_ge j w.indexers.length with hj | hj
    · exact Or.inl (by rwa [List.getElem?_append_left hj] at hb)
    · rw [List.getElem?_append_right hj] at hb
      exact Or.inr (List.mem_singleton.mp (List.mem_of_getElem? hb))
  refine ⟨h.indexed, fun j b hb => ?_, fun j k b d hjk hb hd hfirst happ happ' => ?_⟩
  · rcases hcases hb with hb | rfl
    · exact h.sound j b hb
    · exact Indexer.sound_start hw h.indexed w.segment.id
  · rcases hcases hb with hb | rfl
    · rcases hcases hd with hd | rfl
      · exact h.atMostOne j k b d hjk hb hd hfirst happ happ'
      · exact Indexer.not_hasApplied_start _ happ'
    · exact Indexer.not_hasApplied_start _ happ

/-- **Every step keeps the invariant.** -/
theorem Coherent.step (h : w.Coherent hash c) (hstep : Step hash w w') :
    ∃ c', w'.Coherent hash c' := by
  cases hstep with
  | append key removal =>
      refine ⟨c, (h.indexed.append key removal).1, fun i a ha => ?_, h.atMostOne⟩
      exact (h.sound i a ha).later (.append w.segment key removal) (le_refl c)
  | start writer hw => exact ⟨c, h.start hw⟩
  | turn i => exact h.turn i

/-- **No step undoes what is indexed.** -/
theorem Coherent.evolves (h : w.Coherent hash c) (hstep : Step hash w w') :
    Segment.Evolves hash w.segment w'.segment := by
  cases hstep with
  | append key removal => exact .append w.segment key removal
  | start writer _ => exact .refl _
  | turn i =>
      unfold World.turn
      cases ha : w.indexers[i]? with
      | none => exact .refl _
      | some a =>
          obtain ⟨c', hadv⟩ := (h.sound i a ha).turn h.indexed
          exact hadv.evolves

/-- A client that only reads disturbs nobody. -/
theorem Coherent.undisturbed (h : w.Coherent hash c) (hs : w.segment.Undisturbed s) :
    Coherent hash ⟨s, w.indexers⟩ c where
  indexed := h.indexed.undisturbed hs
  sound i a ha := (h.sound i a ha).later (.undisturbed hs) (le_refl c)
  atMostOne := h.atMostOne

theorem Reachable.exists_coherent (h : Reachable hash w) : ∃ c, w.Coherent hash c := by
  induction h with
  | alone hs =>
      obtain ⟨c, hc⟩ := hs.exists_indexed
      exact ⟨c, hc, by simp, by simp⟩
  | step _ hstep ih =>
      obtain ⟨c, hc⟩ := ih
      exact hc.step hstep

theorem Reachable.endsRight (h : Reachable hash w) (ha : w.indexers[i]? = some a) :
    a.rest ≠ .crash ∧ ∀ r, a.rest = .done r → EndsRight a.trace r := by
  obtain ⟨c, hc⟩ := h.exists_coherent
  have hmeets := (hc.sound i a ha).meets
  exact ⟨fun heq => by rwa [heq] at hmeets, fun r heq => by rwa [heq] at hmeets⟩

/-! ## Every pass ends -/

/-- What one step does to a pass: nothing, or the pass takes a turn. -/
theorem Step.indexer (hstep : Step hash w w') (ha : w.indexers[i]? = some a) :
    w'.indexers[i]? = some a ∨ w'.indexers[i]? = some (a.turn w.segment).1 := by
  have hlt : i < w.indexers.length := (List.getElem?_eq_some_iff.mp ha).1
  cases hstep with
  | append key removal => exact Or.inl ha
  | start writer _ =>
      unfold World.start
      exact Or.inl (by rw [List.getElem?_append_left hlt, ha])
  | turn j =>
      unfold World.turn
      cases hb : w.indexers[j]? with
      | none => exact Or.inl ha
      | some b =>
          by_cases hji : j = i
          · subst hji
            obtain rfl := Option.some.inj (ha.symm.trans hb)
            exact Or.inr (List.getElem?_set_self hlt)
          · exact Or.inl (by rw [List.getElem?_set_ne hji, ha])

theorem indexers_turn (ha : w.indexers[i]? = some a) :
    (w.turn i).indexers[i]? = some (a.turn w.segment).1 := by
  unfold World.turn
  rw [ha]
  exact List.getElem?_set_self (List.getElem?_eq_some_iff.mp ha).1

/-- A run without end that gives a pass a turn again and again. -/
structure IsFairRun (hash : TableKey → KeyHash) (i : Nat) (run : Nat → World) : Prop where
  step : ∀ n, Step hash (run n) (run (n + 1))
  turn : ∀ n, ∃ m, n ≤ m ∧ run (m + 1) = (run m).turn i

variable {run : Nat → World}

theorem Reachable.of_run (h : Reachable hash (run 0))
    (hrun : ∀ n, Step hash (run n) (run (n + 1))) (n : Nat) : Reachable hash (run n) := by
  induction n with
  | zero => exact h
  | succ n ih => exact ih.step (hrun n)

/-- The next turn of a pass comes, and until then the pass stays as it is. -/
theorem IsFairRun.exists_turn (h : IsFairRun hash i run) {n : Nat}
    (ha : (run n).indexers[i]? = some a) :
    ∃ m s, (run m).indexers[i]? = some (a.turn s).1 := by
  -- otherwise the pass would stay as it is for ever, and miss its turn
  by_contra hno
  have hstay : ∀ k, (run (n + k)).indexers[i]? = some a := by
    intro k
    induction k with
    | zero => exact ha
    | succ k ih => exact ((h.step (n + k)).indexer ih).resolve_right fun hm => hno ⟨_, _, hm⟩
  obtain ⟨m, hle, hturn⟩ := h.turn n
  have hm := hstay (m - n)
  rw [Nat.add_sub_cancel' hle] at hm
  exact hno ⟨m + 1, (run m).segment, hturn ▸ indexers_turn hm⟩

/-- **A pass that is given its turns ends**, whatever happens between them. -/
theorem IsFairRun.exists_done (h : IsFairRun hash i run) (hreach : Reachable hash (run 0)) {n : Nat}
    (ha : (run n).indexers[i]? = some a) :
    ∃ m t r, (run m).indexers[i]? = some ⟨t, .done r⟩ := by
  obtain ⟨t, p⟩ := a
  -- every turn leaves less of the pass
  induction p generalizing n t with
  | done r => exact ⟨n, t, r, ha⟩
  | crash => exact absurd rfl ((hreach.of_run h.step n).endsRight ha).1
  | note e p ih =>
      obtain ⟨m, s, hm⟩ := h.exists_turn ha
      exact ih t hm
  | call c k ih =>
      obtain ⟨m, s, hm⟩ := h.exists_turn ha
      exact ih _ _ hm

/-! ## What many clients come to -/

/-- **Many clients do each other no harm.** Whatever has happened: the chains hold exactly the live
keys below the checkpoint; of the passes that have read the same checkpoint one at most has written
its batch; and every pass ends, if it is only given its turns, in success or in a conflict that has
changed nothing. -/
theorem safe_reachable (h : Reachable hash w) :
    ChainLaw hash w.segment ∧
      (∀ (i j : Nat) (a b : Indexer), i ≠ j → w.indexers[i]? = some a →
        w.indexers[j]? = some b → a.first? = b.first? → a.HasApplied → ¬b.HasApplied) ∧
      ∀ (i : Nat) (a : Indexer), w.indexers[i]? = some a →
        a.rest ≠ .crash ∧ (∀ r, a.rest = .done r → EndsRight a.trace r) ∧
          ∀ run, run 0 = w → IsFairRun hash i run →
            ∃ m t r, (run m).indexers[i]? = some ⟨t, .done r⟩ ∧ EndsRight t r := by
  obtain ⟨c, hc⟩ := h.exists_coherent
  refine ⟨hc.indexed.chainLaw, hc.atMostOne, fun i a ha => ?_⟩
  obtain ⟨hcrash, hends⟩ := h.endsRight ha
  refine ⟨hcrash, hends, fun run hzero hrun => ?_⟩
  have hreach : Reachable hash (run 0) := hzero ▸ h
  obtain ⟨m, t, r, hm⟩ := hrun.exists_done hreach (hzero ▸ ha)
  exact ⟨m, t, r, hm, ((hreach.of_run hrun.step m).endsRight hm).2 r rfl⟩

theorem Reachable.turns (h : Reachable hash w) (turns : List Nat) :
    Reachable hash (turns.foldl World.turn w) := by
  induction turns generalizing w with
  | nil => exact h
  | cons i turns ih => exact ih (h.step (.turn w i))

/-- Two passes on a log with one entry that take turns until both have ended. -/
def rivals : World :=
  let alone : World := ⟨((Segment.fresh 1).append ⟨[97]⟩ false).2, []⟩
  [0, 1, 0, 1, 0, 1, 0, 1, 0, 1, 0, 1, 0, 1, 0, 1].foldl turn
    ((alone.start Segment.oneBucket).start Segment.oneBucket)

def rival (i : Nat) : Indexer := rivals.indexers[i]?.getD ⟨[], .crash⟩

theorem reachable_rivals : Reachable (fun _ => default) rivals :=
  (((Reachable.alone (.append _ _ (.prepare (.empty 1)))).step
    (.start _ Segment.oneBucket ⟨rfl, rfl⟩)).step
      (.start _ Segment.oneBucket ⟨rfl, rfl⟩)).turns _

/-- Both start from the same checkpoint. The first one is done before the second one writes. -/
theorem safe_rivals :
    ChainLaw (fun _ => default) rivals.segment ∧
      (rival 0).first? = (rival 1).first? ∧ (rival 0).HasApplied ∧ ¬(rival 1).HasApplied ∧
      (rival 0).rest = .done (.ok 2) ∧
      (rival 1).rest = .done (.error (.checkpointConflict .zero (some (.clamp 17)))) ∧
      ∀ x ∈ (rival 1).trace, x.after.attributes = x.before.attributes := by
  obtain ⟨hlaw, hone, hends⟩ := safe_reachable reachable_rivals
  have hrun : (rivals.indexers.length, (rival 0).trace.length, (rival 0).first?, (rival 1).first?,
      (rival 0).rest, (rival 1).rest) = (2, 5, some .zero, some .zero, .done (.ok 2),
        .done (.error (.checkpointConflict .zero (some (.clamp 17))))) := by cbv
  simp only [Prod.mk.injEq] at hrun
  obtain ⟨hlength, htrace, hfirst₀, hfirst₁, hrest₀, hrest₁⟩ := hrun
  have hrival : ∀ i < 2, rivals.indexers[i]? = some (rival i) := fun i hi => by
    unfold rival
    rw [List.getElem?_eq_getElem (by omega)]
    rfl
  have h₀ := hrival 0 (by decide)
  have h₁ := hrival 1 (by decide)
  have hfirst : (rival 0).first? = (rival 1).first? := hfirst₀.trans hfirst₁.symm
  have htrace : 4 < (rival 0).trace.length := by omega
  have happ : (rival 0).HasApplied :=
    ⟨(rival 0).trace[4], List.getElem_mem htrace, by cbv⟩
  exact ⟨hlaw, hfirst, happ, hone 0 1 _ _ (by decide) h₀ h₁ hfirst happ, hrest₀, hrest₁,
    ((hends 1 _ h₁).2.1 _ hrest₁).2⟩

end World

end SegmentIndex
