import SegmentIndex.Proofs.Apply

/-!
# Everything that can be done to a segment

Whatever clients do, in whatever order, the segment sees one operation after another: an append, a
call, the seal, or a failure that is ordered. A program is nothing but a series of calls, so the
histories of a segment (`Segment.history`) include all interleavings of all programs.

An operation touches the log or the attributes, never both, and only if it succeeds
(`Segment.undergo_cases`). So what is to hold of every history is checked for one append that
succeeds and for one batch that goes through.
-/

namespace SegmentIndex

/-- What can be done to a segment. -/
inductive Operation where
  | append (key : TableKey) (removal : Bool)
  /-- Any call that a program can make: the read of something, or a batch. -/
  | call (c : Call)
  | sealOff
  | failNextRead (e : StoreError)
  | failNextWrite (e : StoreError)

namespace Segment

def undergo (s : Segment) : Operation → Segment
  | .append key removal => (s.append key removal).2
  | .call c => (serve c s).2
  | .sealOff => s.sealOff
  | .failNextRead e => s.failNextRead e
  | .failNextWrite e => s.failNextWrite e

/-- A new segment after some operations. -/
def history (id : SegmentId) (operations : List Operation) : Segment :=
  operations.foldl undergo (.empty id)

theorem history_append (id : SegmentId) (l l' : List Operation) :
    history id (l ++ l') = l'.foldl undergo (history id l) := List.foldl_append

/-- **What one operation does**: it adds an entry to the log, or a batch goes through, or nothing
changes that a client of the index could see. -/
theorem undergo_cases (s : Segment) (operation : Operation) :
    (∃ key removal log, operation = .append key removal ∧
      s.log.append? key removal = some log ∧ s.undergo operation = { s with log := log }) ∨
    (∃ batch attributes, operation = .call (.writeAttributes batch) ∧
      s.attributes.apply batch = .ok attributes ∧
      s.undergo operation = s.applied attributes) ∨
    s.Unaltered (s.undergo operation) := by
  cases operation with
  | append key removal =>
      rcases s.append_cases key removal with ⟨log, _, happend, heq⟩ | ⟨_, e, heq⟩
      · exact .inl ⟨key, removal, log, rfl, happend, congrArg Prod.snd heq⟩
      · refine .inr (.inr ?_)
        rw [undergo, heq]
        exact .refl s
  | call c =>
      cases c with
      | writeAttributes batch =>
          rcases s.writeAttributes_cases batch with ⟨attributes, happly, heq⟩ | ⟨e, _, hsame⟩
          · exact .inr (.inl ⟨batch, attributes, rfl, happly, congrArg Prod.snd heq⟩)
          · exact .inr (.inr hsame)
      | readAttributes keys =>
          exact .inr (.inr (undisturbed_serve (c := .readAttributes keys) trivial s).unaltered)
      | readKey o => exact .inr (.inr (.refl s))
      | readLength => exact .inr (.inr (.refl s))
      | readUpdates first last => exact .inr (.inr (.refl s))
  | sealOff => exact .inr (.inr ⟨rfl, rfl, rfl⟩)
  | failNextRead e => exact .inr (.inr ⟨rfl, rfl, rfl⟩)
  | failNextWrite e => exact .inr (.inr ⟨rfl, rfl, rfl⟩)

/-- **What every batch that goes through preserves**, every history preserves. -/
theorem attributes_foldl_undergo {P : Attributes → Prop} {s : Segment} (h : P s.attributes)
    (hstep : ∀ a batch a', P a → Attributes.apply a batch = .ok a' → P a')
    (l : List Operation) : P (l.foldl undergo s).attributes := by
  induction l generalizing s with
  | nil => exact h
  | cons operation rest ih =>
      refine ih ?_
      rcases s.undergo_cases operation with
        ⟨_, _, _, _, _, heq⟩ | ⟨_, _, _, happly, heq⟩ | hsame
      · rw [heq]
        exact h
      · rw [heq]
        exact hstep _ _ _ h happly
      · rw [hsame.attributes]
        exact h

end Segment

end SegmentIndex
