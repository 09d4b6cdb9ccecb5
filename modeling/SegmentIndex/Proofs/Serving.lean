import SegmentIndex.Proofs.Reads

/-!
# The calls of a run, and servers that can be relied on

What a program gives does not say what it has asked for. `Program.calls` lists the calls of a run in
the order in which they were made, so that it can be said that nobody was called, or who was called
how often.

A reader need not talk to a segment, and need not be the only one to ask. `Program.Always` says what
a reading program gives whatever is replied. `Program.Serves` says of a server that its replies are
right for some contents as long as it is only read, and `Program.ServesOrFails` that they are right
unless they are failures.
-/

namespace SegmentIndex.Program

variable {σ α β : Type} {server : Server σ} {s : σ}

/-- The calls that a run makes, in order. -/
def calls (server : Server σ) : Program α → σ → List Call
  | done _, _ => []
  | crash, _ => []
  | note _ p, s => p.calls server s
  | call c k, s => c :: (k (server c s).1).calls server (server c s).2

theorem run_call (c : Call) (k : c.Reply → Program α) :
    (call c k).run server s = (k (server c s).1).run server (server c s).2 := rfl

/-- **One program after another** makes the calls of both. -/
theorem calls_bind {p : Program α} {f : α → Program β} {a : α}
    (h : (p.run server s).value = some a) :
    (p.bind f).calls server s
      = p.calls server s ++ (f a).calls server (p.run server s).state := by
  induction p generalizing s with
  | done b =>
      obtain rfl := Option.some.inj h
      rfl
  | crash => exact absurd h (by simp [run])
  | note e p ih => exact ih h
  | call c k ih => exact congrArg (c :: ·) (ih _ h)

/-! ## Programs that read -/

/-- Whatever is replied, the program only reads, does not crash, and gives something that `post`
holds of. -/
def Always (post : α → Prop) : Program α → Prop
  | done a => post a
  | crash => False
  | note _ p => p.Always post
  | call c k => c.isRead ∧ ∀ reply, (k reply).Always post

variable {within : σ → Prop} {post : α → Prop}

theorem Always.mono {p : Program α} {post₂ : α → Prop} (h : p.Always post)
    (himp : ∀ a, post a → post₂ a) : p.Always post₂ := by
  induction p with
  | done a => exact himp a h
  | crash => exact h.elim
  | note e p ih => exact ih h
  | call c k ih => exact ⟨h.1, fun reply => ih reply (h.2 reply)⟩

/-- **Whoever answers**, the run ends as promised, in a state that reading can lead to. -/
theorem Always.run {p : Program α} (h : p.Always post)
    (hstays : ∀ (c : Call) (s : σ), c.isRead → within s → within (server c s).2) (hs : within s) :
    ∃ a, (p.run server s).value = some a ∧ post a ∧ within (p.run server s).state := by
  induction p generalizing s with
  | done a => exact ⟨a, rfl, h, hs⟩
  | crash => exact h.elim
  | note e p ih => exact ih h hs
  | call c k ih => exact ih _ (h.2 _) (hstays c s h.1 hs)

/-! ## Servers that can be relied on -/

/-- In the states `within`, which reading attributes does not leave, an answer shows the values,
if the server gives one. -/
structure Truthful (server : Server σ) (within : σ → Prop)
    (values : AttributeKey → Option AttributeValue) : Prop where
  reply : ∀ keys s found, within s → (server (.readAttributes keys) s).1 = .ok found →
    found = .select values keys
  stays : ∀ keys s, within s → within (server (.readAttributes keys) s).2

/-- In the states `within`, which reading attributes does not leave, the server answers for
attributes that hold the values. -/
structure Shows (server : Server σ) (within : σ → Prop)
    (values : AttributeKey → Option AttributeValue) : Prop where
  reply : ∀ keys s, within s → (server (.readAttributes keys) s).1 = .ok (.select values keys)
  stays : ∀ keys s, within s → within (server (.readAttributes keys) s).2

theorem Shows.truthful {values : AttributeKey → Option AttributeValue}
    (h : Shows server within values) : Truthful server within values where
  reply keys s found hs hfound := by
    rw [h.reply keys s hs] at hfound
    exact (Except.ok.inj hfound).symm
  stays := h.stays

/-- In the states `within`, which reading does not leave, the server replies to the read of a key
only what `allowed` says it may. -/
structure AnswersKeys (server : Server σ) (within : σ → Prop)
    (allowed : Offset → Except StoreError (Option TableKey) → Prop) : Prop where
  reply : ∀ o s, within s → allowed o (server (.readKey o) s).1
  stays : ∀ (c : Call) (s : σ), c.isRead → within s → within (server c s).2

/-- What attributes and a log hold, as far as readers of chains see it. -/
structure Contents where
  values : AttributeKey → Option AttributeValue
  /-- The key of the live entry that starts at an offset. -/
  keyAt : Offset → Option TableKey

/-- In the states `within`, which reading does not leave, the server replies for the contents, or
fails. -/
structure ServesOrFails (server : Server σ) (within : σ → Prop) (contents : Contents) : Prop where
  attributes : Truthful server within contents.values
  keys : AnswersKeys server within fun o reply =>
    ∀ key, reply = .ok key → key = contents.keyAt o

/-- In the states `within`, which reading does not leave, the server replies for the contents. -/
structure Serves (server : Server σ) (within : σ → Prop) (contents : Contents) : Prop where
  attributes : Shows server within contents.values
  keys : AnswersKeys server within fun o reply => reply = .ok (contents.keyAt o)

theorem Serves.servesOrFails {contents : Contents} (h : Serves server within contents) :
    ServesOrFails server within contents where
  attributes := h.attributes.truthful
  keys :=
    { reply := fun o s hs _ hkey => Except.ok.inj (hkey.symm.trans (h.keys.reply o s hs))
      stays := h.keys.stays }

end SegmentIndex.Program
