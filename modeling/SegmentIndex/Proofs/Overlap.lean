import SegmentIndex.Proofs.World

/-!
# Reading a chain while others commit

One client reads a chain, attribute by attribute, while others append and index. Every link that it
reads is right at that moment, so the walk never passes over an entry that has been in the chain all
the time: a link that leads from an entry of the chain leads to the next one there is.

But the entry where the walk stands may leave the chain. Its link is cleared then, and the walk ends
as if it had come to the oldest entry, with everything below missing
(`Scene.not_forall_mem_of_inChain`). This is the only way to miss an entry: whenever one is missing,
the last entry that the reader gives was no longer in the chain when its link was read
(`Scene.mem_or_cut_off`). The walk only ever leads down, so it ends whatever the others do
(`Scene.IsFair.exists_done`).
-/

namespace SegmentIndex

open Attempt Segment

/-- The entry is in the chain of a bucket, as somebody would find who read it with nobody else
there. -/
def InChain (b : KeyHash) (s : Segment) (o : Offset) : Prop :=
  ∃ l, ((readChain b).runAlone s).value = some (.ok l) ∧ o ∈ l

variable {hash : TableKey → KeyHash} {s s' : Segment} {c c' : Offset} {b : KeyHash}
  {w w' : World} {t : List Exchange}

theorem Segment.Indexed.inChain_iff (h : s.Indexed hash c) {o : Offset} :
    InChain b s o ↔ o ∈ s.log.chain hash c b := by
  obtain ⟨l, hvalue, ⟨c', hsince, _, hl⟩, hund⟩ := (gives_readChain h b).runAlone .refl
  have hchain := hl (hsince.indexed.unique (h.undisturbed hund))
  rw [hund.log] at hchain
  constructor
  · intro hin
    obtain ⟨l', hvalue', ho⟩ := hin
    rw [hvalue] at hvalue'
    rw [← hchain, Except.ok.inj (Option.some.inj hvalue')]
    exact ho
  · intro ho
    exact ⟨l, hvalue, hchain ▸ ho⟩

/-! ## One read at a time -/

/-- **A read of attributes among others**, and how the reader goes on with what it makes of them. -/
theorem Attempt.meets_readAttributes_bind {α β : Type} {right : List Exchange → Exchange → Prop}
    {ends : List Exchange → Except IndexError β → Prop}
    {decode : AttributeValues → Except StoreError α} {f : α → Attempt IndexError β}
    (h : s.Indexed hash c) (keys : List AttributeKey)
    (hright : ∀ t x, x.call.isRead → right t x)
    (hf : ∀ s' c', Since hash s c s' c' →
      ∃ a, decode (.select s'.attributes.get? keys) = .ok a ∧ ∀ s'', s'.Undisturbed s'' →
        (f a).run.Meets (Evolves hash) right ends (t ++ [⟨.readAttributes keys, s'⟩]) s'') :
    (ofStore (do let values ← readAttributes keys; liftM (decode values)) >>= f).run.Meets
      (Evolves hash) right ends t s := by
  obtain ⟨k, hrun, hk⟩ : ∃ k,
      (ofStore (do let values ← readAttributes keys; liftM (decode values)) >>= f).run
        = .call (.readAttributes keys) k ∧
      ∀ values a, decode values = .ok a → k (.ok values) = (f a).run := by
    refine ⟨_, rfl, fun values a ha => ?_⟩
    show Program.bind (Program.bind (Program.bind
      (liftM (decode values) : Attempt StoreError α) _) _) _ = _
    rw [ha]
    rfl
  rw [hrun]
  intro s' henv
  obtain ⟨c', hsince⟩ := henv c h
  obtain ⟨a, ha, hrest⟩ := hf s' c' hsince
  refine ⟨hright _ _ trivial, ?_⟩
  rw [hsince.indexed.serve_readAttributes, hk _ a ha]
  exact hrest _ (undisturbed_serve (c := .readAttributes keys) trivial s')

/-- An entry that has been in the chain whenever the reader has read. -/
def Tracked (b : KeyHash) (t : List Exchange) (o : Offset) : Prop :=
  ∀ x ∈ t, InChain b x.before o

/-- The reader succeeds. If it misses an entry that has been in the chain whenever it has read, then
the last entry that it gives was out of the chain when its link was read. -/
def EndsCutOff (b : KeyHash) (t : List Exchange) (r : Except IndexError (List Offset)) : Prop :=
  ∃ l, r = .ok l ∧ ∀ o, Tracked b t o → o ∈ l ∨
    ∃ e x, l.getLast? = some e ∧ o < e ∧ t.getLast? = some x ∧ ¬InChain b x.before e

theorem Tracked.of_append {x : Exchange} {o : Offset} (h : Tracked b (t ++ [x]) o) :
    Tracked b t o ∧ InChain b x.before o := by
  refine ⟨?_, ?_⟩
  · intro y hy
    exact h y (List.mem_append_left _ hy)
  · exact h x (List.mem_append_right _ List.mem_cons_self)

/-- **The walk from an entry downwards**, where no tracked entry has been passed over so far. -/
theorem meets_chainFrom (h : s.Indexed hash c) {newer : List Offset} {entry : Offset}
    (hentry : s.log.HasUpsert hash b entry)
    (htracked : ∀ o, Tracked b t o → o ∈ newer ∨ o ≤ entry) :
    (chainFrom b newer entry).run.Meets (Evolves hash) (fun _ x => x.call.isRead)
      (EndsCutOff b) t s := by
  -- every link leads down, and not past an entry of the chain
  induction hn : entry.val using Nat.strong_induction_on generalizing entry newer s c t with
  | h n ih =>
      subst hn
      rw [chainFrom]
      refine meets_readAttributes_bind h [.backpointer entry] (fun _ _ hread => hread) ?_
      intro s' c' hsince
      have hentry' := hsince.extends_log.hasUpsert h.bounded hentry
      obtain ⟨key, hhash, he⟩ := hentry'
      have hlink := Log.indexed_backpointer (c := c') he hhash
      refine ⟨nextOlder (s'.log.chain hash c' b) entry, ?_, ?_⟩
      · rw [AttributeValues.getElem?_select, if_pos List.mem_cons_self,
          hsince.indexed.encoded.decodeAttribute, hsince.indexed.offset?_eq, hlink]
      · intro s'' hund
        let x : Exchange := ⟨.readAttributes [.backpointer entry], s'⟩
        have hin : ∀ o, InChain b x.before o ↔ o ∈ s'.log.chain hash c' b := fun o =>
          hsince.indexed.inChain_iff
        cases hnext : nextOlder (s'.log.chain hash c' b) entry with
        | none =>
            refine ⟨(entry :: newer).reverse, rfl, ?_⟩
            intro o ho
            obtain ⟨hbefore, hnow⟩ := ho.of_append
            rcases htracked o hbefore with hnewer | hle
            · left
              rw [List.mem_reverse]
              exact List.mem_cons_of_mem _ hnewer
            · rcases eq_or_lt_of_le hle with rfl | hlt
              · left
                rw [List.mem_reverse]
                exact List.mem_cons_self
              · right
                refine ⟨entry, x, by simp, hlt, List.getLast?_concat, ?_⟩
                intro hstill
                have := le_of_nextOlder_eq_none Log.descending_chain ((hin entry).mp hstill)
                  ((hin o).mp hnow) hnext
                exact absurd hlt (not_lt.mpr this)
        | some older =>
            obtain ⟨hlt, holder⟩ :=
              Log.hasUpsert_of_indexed_backpointer ⟨key, hhash, he⟩ (hlink.trans hnext)
            obtain ⟨_, _, _, hmax⟩ := (nextOlder_eq_some_iff Log.descending_chain).mp hnext
            show Program.Meets _ _ _ (ExceptT.run (if older < entry then _ else _)) _ _
            rw [if_pos hlt]
            refine ih older.val hlt (hsince.indexed.undisturbed hund) (hund.log ▸ holder) ?_ rfl
            intro o ho
            obtain ⟨hbefore, hnow⟩ := ho.of_append
            rcases htracked o hbefore with hnewer | hle
            · exact .inl (List.mem_cons_of_mem _ hnewer)
            · rcases eq_or_lt_of_le hle with rfl | hlt
              · exact .inl List.mem_cons_self
              · exact .inr (hmax o ((hin o).mp hnow) hlt)

/-- **Reading a chain among others.** -/
theorem meets_readChain (h : s.Indexed hash c) (b : KeyHash) :
    (readChain b).run.Meets (Evolves hash) (fun _ x => x.call.isRead) (EndsCutOff b) [] s := by
  unfold readChain
  refine meets_readAttributes_bind h _ (fun _ _ hread => hread) ?_
  intro s' c' hsince
  have hheads : ∀ b' ∈ [b], decodeAttribute (.bucket b') (s'.attributes.get? (.bucket b'))
      = .ok (s'.log.indexed hash c' (.bucket b')) := by
    intro b' _
    rw [hsince.indexed.encoded.decodeAttribute, hsince.indexed.offset?_eq]
  obtain ⟨located, hrun, hlocated⟩ := decodeBuckets_select hheads
  refine ⟨located, hrun, ?_⟩
  intro s'' hund
  rw [hlocated, if_pos List.mem_cons_self]
  let x : Exchange := ⟨.readAttributes ([b].map .bucket), s'⟩
  have hin : ∀ o, Tracked b ([] ++ [x]) o → o ∈ s'.log.chain hash c' b := by
    intro o ho
    exact hsince.indexed.inChain_iff.mp ho.of_append.2
  show (bucketOffsets ⟨b, s'.log.indexed hash c' (.bucket b)⟩).run.Meets _ _ _ ([] ++ [x]) s''
  unfold bucketOffsets
  cases hhead : s'.log.indexed hash c' (.bucket b) with
  | none =>
      refine ⟨[], rfl, ?_⟩
      intro o ho
      have hempty : s'.log.chain hash c' b = [] := List.head?_eq_none_iff.mp hhead
      exact absurd (hin o ho) (by simp [hempty])
  | some head =>
      have hupsert := Log.hasUpsert_of_indexed_bucket hhead
      refine meets_chainFrom (hsince.indexed.undisturbed hund) (hund.log ▸ hupsert) ?_
      intro o ho
      exact .inr ((Log.descending_chain.head?_eq_some_iff.mp hhead).2 o (hin o ho))

/-! ## The reader among others -/

/-- A client that reads a chain: its calls so far, and what is left of it. -/
structure Reader where
  trace : List Exchange
  rest : Program (Except IndexError (List Offset))

/-- A reader, and the world that it reads in. -/
structure Scene where
  world : World
  reader : Reader

/-- What can happen next: others append, begin a pass or take a turn, or the reader does. -/
inductive Move where
  | append (key : TableKey) (removal : Bool)
  | start (writer : Writer)
  | turn (i : Nat)
  | read

/-- All passes hash keys in the same way, and no hashing is cancelled. -/
def Move.Allowed (hash : TableKey → KeyHash) : Move → Prop
  | .start writer => writer.HashesBy hash
  | _ => True

namespace Scene

def move (sc : Scene) : Move → Scene
  | .append key removal =>
    { sc with world := ⟨(sc.world.segment.append key removal).2, sc.world.indexers⟩ }
  | .start writer => { sc with world := sc.world.start writer }
  | .turn i => { sc with world := sc.world.turn i }
  | .read =>
    match sc.reader with
    | ⟨t, .note _ p⟩ => { sc with reader := ⟨t, p⟩ }
    | ⟨t, .call c k⟩ =>
      let x : Exchange := ⟨c, sc.world.segment⟩
      ⟨⟨x.after, sc.world.indexers⟩, ⟨t ++ [x], k x.reply⟩⟩
    | _ => sc

/-- Somebody is about to read the chain of a bucket, and then all this happens. -/
def play (w : World) (b : KeyHash) (moves : List Move) : Scene :=
  moves.foldl move ⟨w, ⟨[], (readChain b).run⟩⟩

end Scene

namespace Scene

variable {sc : Scene} {m : Move}

/-- The world is coherent, and the reader will end as it may. -/
structure Sound (hash : TableKey → KeyHash) (b : KeyHash) (sc : Scene) : Prop where
  coherent : ∃ c, sc.world.Coherent hash c
  meets : sc.reader.rest.Meets (Evolves hash) (fun _ x => x.call.isRead) (EndsCutOff b)
    sc.reader.trace sc.world.segment

theorem sound_start (hw : w.Reachable hash) (b : KeyHash) :
    Sound hash b ⟨w, ⟨[], (readChain b).run⟩⟩ := by
  obtain ⟨c, hc⟩ := hw.exists_coherent
  exact ⟨⟨c, hc⟩, meets_readChain hc.indexed b⟩

theorem Sound.step (h : sc.Sound hash b) (hstep : World.Step hash sc.world w') :
    Sound hash b { sc with world := w' } := by
  obtain ⟨c, hc⟩ := h.coherent
  exact ⟨hc.step hstep, h.meets.later Evolves.trans (hc.evolves hstep)⟩

theorem Sound.read (h : sc.Sound hash b) : (sc.move .read).Sound hash b := by
  obtain ⟨world, t, p⟩ := sc
  obtain ⟨c, hc⟩ := h.coherent
  cases p with
  | done r => exact h
  | crash => exact h
  | note e p => exact ⟨h.coherent, h.meets⟩
  | call call k =>
      obtain ⟨hread, hrest⟩ := h.meets world.segment (.refl _)
      exact ⟨⟨c, hc.undisturbed (undisturbed_serve hread world.segment)⟩, hrest⟩

theorem Sound.move (h : sc.Sound hash b) (hm : m.Allowed hash) : (sc.move m).Sound hash b := by
  cases m with
  | append key removal => exact h.step (.append sc.world key removal)
  | start writer => exact h.step (.start sc.world writer hm)
  | turn i => exact h.step (.turn sc.world i)
  | read => exact h.read

theorem sound_play (hw : w.Reachable hash) (b : KeyHash) {moves : List Move}
    (hmoves : ∀ m ∈ moves, m.Allowed hash) : (play w b moves).Sound hash b := by
  suffices h : ∀ sc : Scene, sc.Sound hash b → (moves.foldl Scene.move sc).Sound hash b by
    exact h _ (sound_start hw b)
  induction moves with
  | nil => exact fun _ hsc => hsc
  | cons m moves ih =>
      intro sc hsc
      have hm := hmoves m List.mem_cons_self
      exact ih (fun m' hm' => hmoves m' (List.mem_cons_of_mem _ hm')) _ (hsc.move hm)

/-! ## Every read of a chain ends -/

/-- Moves without end that let the reader go on again and again. -/
structure IsFair (hash : TableKey → KeyHash) (moves : Nat → Move) : Prop where
  allowed : ∀ n, (moves n).Allowed hash
  read : ∀ n, ∃ m, n ≤ m ∧ moves m = .read

/-- The scene after the first of many moves. -/
def playTo (w : World) (b : KeyHash) (moves : Nat → Move) (n : Nat) : Scene :=
  play w b ((List.range n).map moves)

variable {moves : Nat → Move}

theorem playTo_succ (w : World) (b : KeyHash) (moves : Nat → Move) (n : Nat) :
    playTo w b moves (n + 1) = (playTo w b moves n).move (moves n) := by
  unfold playTo play
  rw [List.range_succ, List.map_append, List.foldl_append]
  rfl

theorem IsFair.sound_playTo (h : IsFair hash moves) (hw : w.Reachable hash) (b : KeyHash)
    (n : Nat) : (playTo w b moves n).Sound hash b := by
  refine sound_play hw b ?_
  intro m hm
  obtain ⟨i, _, rfl⟩ := List.mem_map.mp hm
  exact h.allowed i

theorem reader_move_of_ne (hm : m ≠ .read) : (sc.move m).reader = sc.reader := by
  cases m with
  | append key removal => rfl
  | start writer => rfl
  | turn i => rfl
  | read => exact absurd rfl hm

/-- The reader goes on, and until then it stays as it is. -/
theorem IsFair.exists_read (h : IsFair hash moves) (w : World) (b : KeyHash) (n : Nat) :
    ∃ m sc, playTo w b moves m = move sc .read ∧ sc.reader = (playTo w b moves n).reader := by
  by_contra hno
  have hstay : ∀ k, (playTo w b moves (n + k)).reader = (playTo w b moves n).reader := by
    intro k
    induction k with
    | zero => rfl
    | succ k ih =>
        have hother : moves (n + k) ≠ .read := by
          intro hread
          exact hno ⟨n + k + 1, playTo w b moves (n + k), by rw [playTo_succ, hread], ih⟩
        rw [← Nat.add_assoc, playTo_succ, reader_move_of_ne hother, ih]
  obtain ⟨m, hle, hread⟩ := h.read n
  have hm := hstay (m - n)
  rw [Nat.add_sub_cancel' hle] at hm
  exact hno ⟨m + 1, playTo w b moves m, by rw [playTo_succ, hread], hm⟩

theorem rest_read_of_note {e : Event} {p : Program (Except IndexError (List Offset))}
    (h : sc.reader.rest = .note e p) : (sc.move .read).reader.rest = p := by
  obtain ⟨world, t, q⟩ := sc
  obtain rfl : q = .note e p := h
  rfl

theorem exists_rest_read_of_call {call : Call}
    {k : call.Reply → Program (Except IndexError (List Offset))}
    (h : sc.reader.rest = .call call k) : ∃ reply, (sc.move .read).reader.rest = k reply := by
  obtain ⟨world, t, q⟩ := sc
  obtain rfl : q = .call call k := h
  exact ⟨_, rfl⟩

/-- **A reader that is let go on ends**, whatever happens between its reads. -/
theorem IsFair.exists_done (h : IsFair hash moves) (hw : w.Reachable hash) (b : KeyHash) :
    ∃ n r, (playTo w b moves n).reader.rest = .done r := by
  suffices hfrom : ∀ p n, (playTo w b moves n).reader.rest = p →
      ∃ n r, (playTo w b moves n).reader.rest = .done r by
    exact hfrom _ 0 rfl
  intro p
  -- every read leaves less of the reader
  induction p with
  | done r => exact fun n hp => ⟨n, r, hp⟩
  | crash =>
      intro n hp
      have hmeets := (h.sound_playTo hw b n).meets
      rw [hp] at hmeets
      exact hmeets.elim
  | note e p ih =>
      intro n hp
      obtain ⟨m, sc, hm, hreader⟩ := h.exists_read w b n
      refine ih m ?_
      rw [hm]
      exact rest_read_of_note (hreader ▸ hp)
  | call c k ih =>
      intro n hp
      obtain ⟨m, sc, hm, hreader⟩ := h.exists_read w b n
      have hsc : sc.reader.rest = .call c k := hreader ▸ hp
      obtain ⟨reply, hreply⟩ := exists_rest_read_of_call hsc
      exact ih reply m (hm ▸ hreply)

/-- **What a reader misses while others commit.** It never fails and never crashes, and an entry
that has been in the chain whenever it has read is among those that it gives, unless the walk was
cut off: then the last entry that it gives is newer, and was no longer in the chain when its link
was read. And it ends, if only it can go on. -/
theorem mem_or_cut_off (hw : w.Reachable hash) (b : KeyHash) :
    (∀ moves : List Move, (∀ m ∈ moves, m.Allowed hash) →
      (play w b moves).reader.rest ≠ .crash ∧
        ∀ r, (play w b moves).reader.rest = .done r → ∃ l, r = .ok l ∧
          ∀ o, (∀ x ∈ (play w b moves).reader.trace, InChain b x.before o) →
            o ∈ l ∨ ∃ e x, l.getLast? = some e ∧ o < e ∧
              (play w b moves).reader.trace.getLast? = some x ∧ ¬InChain b x.before e) ∧
    ∀ moves : Nat → Move, IsFair hash moves →
      ∃ n r, (playTo w b moves n).reader.rest = .done r := by
  constructor
  · intro moves hmoves
    have hmeets := (sound_play hw b hmoves).meets
    constructor
    · intro hcrash
      rwa [hcrash] at hmeets
    · intro r hdone
      rwa [hdone] at hmeets
  · intro moves hfair
    exact hfair.exists_done hw b

end Scene

/-! ## A walk that is cut off -/

/-- Two entries of one bucket are indexed, the newer one has been replaced in the log since, and a
pass is about to write the batch that says so. -/
def World.poised : World :=
  let indexed := (((fresh 1).append ⟨[97]⟩ false).2.append ⟨[98]⟩ false).2.indexedTo 34
  (List.replicate 10 0).foldl World.turn
    (World.start ⟨(indexed.append ⟨[98]⟩ false).2, []⟩ oneBucket)

theorem World.reachable_poised : World.poised.Reachable (fun _ => default) := by
  have htwo : Segment.Reachable (fun _ => default)
      (((fresh 1).append ⟨[97]⟩ false).2.append ⟨[98]⟩ false).2 :=
    .append _ _ (.append _ _ (.prepare (.empty 1)))
  obtain ⟨hindexed, _⟩ := htwo.indexedTo (n := 34) (c := .zero) (by decide +kernel) (by decide)
    (by decide +kernel)
  refine World.Reachable.turns ?_ _
  exact (World.Reachable.alone (.append _ _ hindexed)).step (.start _ oneBucket ⟨rfl, rfl⟩)

namespace Scene

/-- The reader locates the bucket, the pass writes its batch, and the reader goes on. -/
def cutOff : List Move := [.read, .turn 0, .read]

theorem allowed_cutOff : ∀ m ∈ cutOff, m.Allowed (fun _ => default) := by
  intro m hm
  simp only [cutOff, List.mem_cons, List.not_mem_nil, or_false] at hm
  rcases hm with rfl | rfl | rfl <;> trivial

theorem done_cutOff : (play .poised default cutOff).reader.rest = .done (.ok [.clamp 17]) := by
  cbv

/-- The entry that the reader gives was out of the chain at its second read. Without the others the
reader ends as well. -/
theorem mem_or_cut_off_poised :
    ((play .poised default cutOff).reader.rest = .done (.ok [.clamp 17]) ∧
      ∃ x, (play .poised default cutOff).reader.trace.getLast? = some x ∧
        InChain default x.before .zero ∧ ¬InChain default x.before (.clamp 17)) ∧
    ∃ n r, (playTo .poised default (fun _ => .read) n).reader.rest = .done r := by
  have hchains : (play .poised default cutOff).reader.trace.map
      (fun x => ((readChain default).runAlone x.before).value)
        = [some (.ok [.clamp 17, .zero]), some (.ok [.clamp 34, .zero])] := by cbv
  have htracked : ∀ x ∈ (play .poised default cutOff).reader.trace,
      InChain default x.before .zero := by
    intro x hx
    have hvalue : ((readChain default).runAlone x.before).value
        ∈ [some (.ok [.clamp 17, .zero]), some (.ok [.clamp 34, .zero])] := by
      rw [← hchains]
      exact List.mem_map_of_mem hx
    rcases List.mem_cons.mp hvalue with hvalue | hvalue
    · exact ⟨_, hvalue, by simp⟩
    · exact ⟨_, List.mem_singleton.mp hvalue, by simp⟩
  obtain ⟨hplay, hfair⟩ := mem_or_cut_off World.reachable_poised default
  obtain ⟨_, hends⟩ := hplay cutOff allowed_cutOff
  obtain ⟨l, hl, hmem⟩ := hends _ done_cutOff
  obtain rfl := Except.ok.inj hl
  refine ⟨⟨done_cutOff, ?_⟩, hfair _ ⟨fun _ => trivial, fun n => ⟨n, le_refl n, rfl⟩⟩⟩
  rcases hmem .zero htracked with hin | ⟨e, x, he, _, hx, hout⟩
  · exact absurd (List.mem_singleton.mp hin) (by decide)
  · obtain rfl := Option.some.inj he
    exact ⟨x, hx, htracked x (List.mem_of_getLast? hx), hout⟩

/-- **A reader can miss an entry that has been in the chain all the time**, although all that others
do in the meantime is to finish their passes with success. -/
theorem not_forall_mem_of_inChain :
    ¬∀ (hash : TableKey → KeyHash) (w : World) (b : KeyHash) (moves : List Move)
      (l : List Offset) (o : Offset), w.Reachable hash → (∀ m ∈ moves, m.Allowed hash) →
        (play w b moves).reader.rest = .done (.ok l) →
          (∀ a ∈ (play w b moves).world.indexers, ∃ n, a.rest = .done (.ok n)) →
            (∀ n, InChain b (play w b (moves.take n)).world.segment o) → o ∈ l := by
  intro h
  have hpasses : (play .poised default cutOff).world.indexers.map (·.rest) = [.done (.ok 4)] := by
    cbv
  have hdone : ∀ a ∈ (play .poised default cutOff).world.indexers,
      ∃ n, a.rest = .done (.ok n) := by
    intro a ha
    have hrest : a.rest ∈ [Program.done (.ok 4)] := hpasses ▸ List.mem_map_of_mem ha
    exact ⟨4, List.mem_singleton.mp hrest⟩
  -- the chain is first the one and then the other, and its oldest entry stays
  have hin : ∀ n, InChain default (play .poised default (cutOff.take n)).world.segment .zero := by
    intro n
    have hlate : InChain default (play .poised default cutOff).world.segment .zero :=
      ⟨[.clamp 34, .zero], by cbv, by simp⟩
    rcases n with _ | _ | _ | n
    · exact ⟨[.clamp 17, .zero], by cbv, by simp⟩
    · exact ⟨[.clamp 17, .zero], by cbv, by simp⟩
    · exact ⟨[.clamp 34, .zero], by cbv, by simp⟩
    · rw [List.take_of_length_le (by simp [cutOff])]
      exact hlate
  have hmem := h (fun _ => default) .poised default cutOff [.clamp 17] .zero
    World.reachable_poised allowed_cutOff done_cutOff hdone hin
  exact absurd (List.mem_singleton.mp hmem) (by decide)

end Scene

end SegmentIndex
