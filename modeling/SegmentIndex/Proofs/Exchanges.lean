import SegmentIndex.Proofs.Commit

/-!
# A pass among others

To say what a pass has done, one must know what it was told: its calls, and for each of them the
segment as it was then. `Program.Meets` follows a program through all that can happen to it while
others move the segment along, and keeps account of its calls. The account decides which calls are
right (`Exchange.IsRight`) and which ends (`EndsRight`).

A pass reads, makes a plan, and writes once. If the checkpoint has moved since it was read, the
write is refused; if it has not, nothing has, and the plan is fresh (`meets_pass`).
-/

namespace SegmentIndex

open Attributes Attempt Segment

/-- A call, and the segment as it was when the call was served. -/
structure Exchange where
  call : Call
  before : Segment

namespace Exchange

def reply (x : Exchange) : x.call.Reply := (Segment.serve x.call x.before).1

def after (x : Exchange) : Segment := (Segment.serve x.call x.before).2

/-- The call is a batch, and the batch goes through. -/
def Applies : Exchange → Prop
  | ⟨.writeAttributes batch, before⟩ => (before.writeAttributes batch).1 = .ok ()
  | _ => False

theorem not_applies_of_isRead {x : Exchange} (h : x.call.isRead) : ¬x.Applies := by
  obtain ⟨c, before⟩ := x
  cases c with
  | writeAttributes batch => exact h.elim
  | readAttributes keys => exact id
  | readKey o => exact id
  | readLength => exact id
  | readUpdates first last => exact id

end Exchange

/-- The checkpoint as a pass has read it: that is what its first call is for. -/
def firstRead (trace : List Exchange) : Option Offset :=
  trace.head?.bind (·.before.checkpoint)

/-! ## Programs that keep account -/

namespace Program

variable {α β : Type} {env : Segment → Segment → Prop} {s : Segment} {t : List Exchange}
  {right : List Exchange → Exchange → Prop} {ends : List Exchange → α → Prop}
  {ends' : List Exchange → β → Prop}

/-- With some calls behind it, the program makes only calls that are right after those before them,
does not crash, and ends as it may after its calls, whatever others do along `env` before each
call. -/
def Meets (env : Segment → Segment → Prop) (right : List Exchange → Exchange → Prop)
    (ends : List Exchange → α → Prop) : Program α → List Exchange → Segment → Prop
  | done a, t, _ => ends t a
  | crash, _, _ => False
  | note _ p, t, s => p.Meets env right ends t s
  | call c k, t, s => ∀ s', env s s' → right t ⟨c, s'⟩ ∧
      (k (Segment.serve c s').1).Meets env right ends (t ++ [⟨c, s'⟩]) (Segment.serve c s').2

theorem Meets.later {p : Program α} (h : p.Meets env right ends t s)
    (htrans : ∀ {s₁ s₂ s₃}, env s₁ s₂ → env s₂ s₃ → env s₁ s₃) {s' : Segment} (hs : env s s') :
    p.Meets env right ends t s' := by
  induction p generalizing t with
  | done a => exact h
  | crash => exact h
  | note e p ih => exact ih h
  | call c k _ => exact fun s'' hs'' => h s'' (htrans hs hs'')

/-- **First read, then go on**: reading is right at any time. -/
theorem Reads.meets_bind {p : Program α} {f : α → Program β} {post : α → Segment → Prop}
    (h : p.Reads env post s) (hright : ∀ t x, x.call.isRead → right t x)
    (hf : ∀ a s' t', (∀ x ∈ t', x.call.isRead) → post a s' →
      (f a).Meets env right ends' (t ++ t') s') :
    (p.bind f).Meets env right ends' t s := by
  -- the calls of `p` add up behind those before it
  suffices hbind : ∀ t', (∀ x ∈ t', x.call.isRead) →
      (p.bind f).Meets env right ends' (t ++ t') s by
    have := hbind [] (by simp)
    rwa [List.append_nil] at this
  induction p generalizing s with
  | done a => exact fun t' ht' => hf a s t' ht' h
  | crash => exact h.elim
  | note e p ih => exact ih h
  | call c k ih =>
      intro t' ht' s' hs
      refine ⟨hright _ _ h.1, ?_⟩
      rw [List.append_assoc]
      refine ih _ (h.2 s' hs) (t' ++ [⟨c, s'⟩]) fun x hx => ?_
      rcases List.mem_append.mp hx with hx | hx
      · exact ht' x hx
      · rw [List.mem_singleton.mp hx]
        exact h.1

end Program

theorem Attempt.Gives.meets_bind {ε α β : Type} {env : Segment → Segment → Prop} {s : Segment}
    {t : List Exchange} {right : List Exchange → Exchange → Prop}
    {ends : List Exchange → Except ε β → Prop} {x : Attempt ε α} {f : α → Attempt ε β}
    {post : α → Segment → Prop} (h : Gives env post x s)
    (hright : ∀ t x, x.call.isRead → right t x)
    (hf : ∀ a s' t', (∀ x ∈ t', x.call.isRead) → post a s' →
      (f a).run.Meets env right ends (t ++ t') s') :
    (x >>= f).run.Meets env right ends t s := by
  refine Program.Reads.meets_bind h hright ?_
  intro r s' t' ht' hgiven
  obtain ⟨a, rfl, hpost⟩ := hgiven
  exact hf a s' t' ht' hpost

/-! ## Passes -/

variable {hash : TableKey → KeyHash} {s : Segment} {c : Offset} {t : List Exchange} {p : Plan}

/-- A call of a pass that has made some calls before. The index stays right, and a batch that goes
through takes the checkpoint on from where the pass has read it. -/
structure Exchange.IsRight (hash : TableKey → KeyHash) (t : List Exchange) (x : Exchange) :
    Prop where
  evolves : Evolves hash x.before x.after
  advances : x.Applies → ∃ c c', firstRead t = some c ∧ x.before.Indexed hash c ∧
    x.after.Indexed hash c' ∧ c < c'

theorem Exchange.isRight_of_isRead (t : List Exchange) {x : Exchange} (h : x.call.isRead) :
    x.IsRight hash t where
  evolves := .undisturbed (undisturbed_serve h x.before)
  advances hx := absurd hx (x.not_applies_of_isRead h)

/-- A pass may end in success, or in a conflict over the checkpoint if none of its calls has changed
an attribute. -/
def EndsRight (t : List Exchange) : Except IndexError Nat → Prop
  | .ok _ => True
  | .error e => (∃ first actual, e = .checkpointConflict first actual) ∧
      ∀ x ∈ t, x.after.attributes = x.before.attributes

theorem Plan.Describes.congr {log log' : Log} (h : p.Describes hash log)
    (hagree : Log.AgreeBelow p.last log log') : p.Describes hash log' :=
  ⟨h.le, h.groups.congr hagree, h.isConsistent⟩

theorem Plan.Knows.congr {log log' : Log} (h : p.Knows hash log)
    (hagree : Log.AgreeBelow p.first log log') : p.Knows hash log' :=
  fun u hu key o => (h u hu key o).trans (and_congr_right fun _ =>
    Log.isLive_congr hagree)

/-- A plan for an empty stretch of the log writes nothing. -/
theorem Plan.Describes.lt_of_ne_nil {log : Log} (h : p.Describes hash log)
    (hne : p.writes ++ p.advance ≠ []) : p.first < p.last := by
  by_contra hlt
  have hgroups : p.groups = [] := by
    rw [List.eq_nil_iff_forall_not_mem]
    intro u hu
    obtain ⟨key, ch, hch⟩ := BucketUpdate.hasUpdates_iff.mp (h.groups.hasUpdates u hu)
    obtain ⟨_, hfirst, _, hlast, _⟩ := (h.groups.changes_iff u hu key ch).mp hch
    exact hlt (lt_of_le_of_lt hfirst hlast)
  refine hne ?_
  unfold Plan.writes Plan.advance
  rw [hgroups, if_neg hlt]
  rfl

/-- A stale batch is refused, and tells where the checkpoint is. -/
theorem writeAttributes_of_stale (hs : s.Indexed hash c) (hlt : p.first < p.last)
    (hc : c ≠ p.first) :
    s.writeAttributes (p.writes ++ p.advance)
      = (.error (.conflict .tableIndexOffset (some p.first) (some c)), s) := by
  have hstale : s.attributes.offset? .tableIndexOffset ≠ some p.first := by
    rw [hs.offset?_eq]
    exact fun heq => hc (Option.some.inj heq)
  have happly := Plan.foldlM_write_of_stale hlt hstale
  rw [← apply_eq_foldlM, hs.offset?_eq] at happly
  exact hs.isWritable.writeAttributes_of_error happly

/-- **Applying a plan among others.** All that matters is whether the checkpoint is still where the
plan starts. -/
theorem meets_apply (h : s.Indexed hash c) (hdescribes : p.Describes hash s.log)
    (hlast : p.last ≤ s.log.length) (hfirst : p.first ≤ c)
    (hknows : c = p.first → p.Knows hash s.log) (hread : firstRead t = some p.first)
    (ht : ∀ x ∈ t, x.call.isRead) (id : SegmentId) :
    (p.apply id).run.Meets (Evolves hash) (Exchange.IsRight hash) EndsRight t s := by
  have hmutations := Plan.mutations_eq_ok hdescribes.le hdescribes.isConsistent
  by_cases hne : p.writes ++ p.advance = []
  · rw [Plan.apply_of_mutations_nil id (by rw [hmutations, hne])]
    trivial
  · have hlt := hdescribes.lt_of_ne_nil hne
    rw [Plan.apply_of_mutations_ok id hmutations hne]
    intro s' henv
    obtain ⟨c', hsince⟩ := henv c h
    let x : Exchange := ⟨.writeAttributes (p.writes ++ p.advance), s'⟩
    show x.IsRight hash t ∧ (p.finish id _ (s'.writeAttributes _).1).Meets _ _ _ (t ++ [x])
      (s'.writeAttributes _).2
    by_cases hc : c' = p.first
    · -- nothing has been indexed since the checkpoint was read
      have hc₀ : c = p.first := le_antisymm (hc ▸ hsince.le) hfirst
      have hfresh : p.IsFresh hash s'.log :=
        ⟨hdescribes.congr (hsince.extends_log.agreeBelow hlast),
          (hknows hc₀).congr (hsince.extends_log.agreeBelow (hc₀ ▸ h.le_length))⟩
      have hs' : s'.Indexed hash p.first := hc ▸ hsince.indexed
      obtain ⟨hreply, hafter⟩ :=
        hfresh.writeAttributes hs' (le_trans hlast hsince.extends_log.length_le)
      refine ⟨⟨fun c₀ hc₀ => ?_,
        fun _ => ⟨p.first, p.last, hread, hs', hafter.indexed, hlt⟩⟩, ?_⟩
      · obtain rfl := hc₀.unique hs'
        exact ⟨p.last, hafter⟩
      · rw [hreply]
        trivial
    · have hstale := writeAttributes_of_stale hsince.indexed hlt hc
      have hafter : x.after = s' := congrArg Prod.snd hstale
      have happlies : ¬x.Applies := by
        show (s'.writeAttributes (p.writes ++ p.advance)).1 ≠ .ok ()
        rw [hstale]
        simp
      refine ⟨⟨hafter ▸ .refl s', fun happ => absurd happ happlies⟩, ?_⟩
      rw [hstale]
      refine ⟨⟨_, _, rfl⟩, fun y hy => ?_⟩
      rcases List.mem_append.mp hy with hy | hy
      · exact (undisturbed_serve (ht y hy) y.before).attributes
      · rw [List.mem_singleton.mp hy, hafter]

/-- The first call of a pass, and how the pass goes on if there is a checkpoint. -/
theorem lastIndexedOffset_bind_run {β : Type} (id : SegmentId)
    (f : Offset → Attempt IndexError β) :
    ∃ k, (lastIndexedOffset id >>= f).run = .call (.readAttributes [.tableIndexOffset]) k ∧
      ∀ (values : AttributeValues) (first : Offset), decodeAttribute .tableIndexOffset
          values[AttributeKey.tableIndexOffset]? = .ok (some first) →
        k (.ok values) = (f first).run := by
  refine ⟨_, rfl, fun values first h => ?_⟩
  show Program.bind (Program.bind (Program.bind
    (liftM (decodeAttribute _ _) : Attempt StoreError (Option Offset)) _) _) _ = _
  rw [h]
  rfl

/-- **A pass among others** makes right calls only and ends right. -/
theorem meets_pass {w : Writer} (hw : w.HashesBy hash) (h : s.Indexed hash c) (id : SegmentId) :
    (w.pass id).run.Meets (Evolves hash) (Exchange.IsRight hash) EndsRight [] s := by
  have hright : ∀ t x, x.call.isRead → Exchange.IsRight hash t x := fun t x =>
    Exchange.isRight_of_isRead t
  -- the first call reads the checkpoint, and what follows up to the batch only reads
  unfold Writer.pass Writer.plan
  rw [bind_assoc]
  obtain ⟨k, hrun, hk⟩ := lastIndexedOffset_bind_run id fun first =>
    (do let last ← readLength; w.planRange first last true) >>= fun p => p.apply id
  rw [hrun]
  intro s₀ henv
  obtain ⟨first, hsince⟩ := henv c h
  let x : Exchange := ⟨.readAttributes [.tableIndexOffset], s₀⟩
  refine ⟨hright [] x trivial, ?_⟩
  have hs := hsince.indexed.undisturbed (undisturbed_serve (c := x.call) trivial s₀)
  have hdecode : decodeAttribute .tableIndexOffset (AttributeValues.select s₀.attributes.get?
      [.tableIndexOffset])[AttributeKey.tableIndexOffset]? = .ok (some first) := by
    rw [AttributeValues.getElem?_select, if_pos List.mem_cons_self,
      hsince.indexed.encoded.decodeAttribute, hsince.indexed.offset?_eq, Log.indexed]
  rw [hsince.indexed.serve_readAttributes, hk _ _ hdecode, bind_assoc]
  refine (gives_readLength hs).meets_bind hright ?_
  intro last s₁ t₁ ht₁ hpost
  obtain ⟨⟨c₁, hsince₁⟩, rfl⟩ := hpost
  have hle : first ≤ s₁.log.length := le_trans hsince₁.le hsince₁.indexed.le_length
  have hplan := givesUnless_planRange hw.hash_eq hsince₁.indexed hle (le_refl s₁.log.length)
  refine (hplan.gives fun e he => hw.not_cancels e he.2).meets_bind hright ?_
  intro p s₂ t₂ ht₂ hpost
  obtain ⟨c₂, hsince₂, hfirst, hlast, hdescribes, hknows⟩ := hpost
  refine meets_apply hsince₂.indexed hdescribes (hlast ▸ hsince₂.extends_log.length_le)
    (hfirst ▸ le_trans hsince₁.le hsince₂.le) (fun hc => ?_) ?_ (fun y hy => ?_) id
  · have hc₁ : first = c₁ :=
      le_antisymm hsince₁.le (by rw [← hfirst, ← hc]; exact hsince₂.le)
    exact hknows hc₁ (hc.trans (hfirst.trans hc₁))
  · rw [hfirst]
    exact hsince.indexed.checkpoint_eq
  · rcases List.mem_append.mp hy with hy | hy
    · rcases List.mem_append.mp hy with hy | hy
      · rw [List.mem_singleton.mp hy]
        trivial
      · exact ht₁ y hy
    · exact ht₂ y hy

end SegmentIndex
