import SegmentIndex.Program.Read
import SegmentIndex.Proofs.Apply

/-!
# Segments whose index is right

A segment is indexed up to an offset if every attribute holds what the log calls for there
(`Segment.Indexed`). This is the invariant of everything that follows: an append keeps it, because
what the attributes are to hold does not depend on what comes later, and a batch moves the offset.

Others may do both while a program reads, and then the segment is indexed up to an offset further on
(`Segment.Evolves`). What one read gives is therefore right for *some* offset, from the one that the
program knows of upwards.
-/

namespace SegmentIndex

theorem AttributeValues.getElem?_select (f : AttributeKey → Option AttributeValue)
    (keys : List AttributeKey) (key : AttributeKey) :
    (AttributeValues.select f keys)[key]? = if key ∈ keys then f key else none := by
  have hfold : ∀ values : AttributeValues,
      (keys.foldl (fun values key => values.alter key fun _ => f key) values)[key]?
        = if key ∈ keys then f key else values[key]? := by
    induction keys with
    | nil => intro values; simp
    | cons k rest ih =>
        intro values
        rw [List.foldl_cons, ih, Maps.getElem?_alter]
        by_cases hk : k = key
        · subst hk
          simp
        · have : key ≠ k := fun h => hk h.symm
          simp [hk, this]
  exact hfold ∅

theorem decodeAttribute_encode (key : AttributeKey) (x : Option Offset) :
    decodeAttribute key (some (Offset.encode x)) = .ok x := by
  unfold decodeAttribute
  cases x with
  | none => rfl
  | some o =>
      have hne : Offset.encode (some o) ≠ .absent := fun heq => by
        have := Offset.ofValue?_encode (some o)
        rw [heq, Offset.ofValue?_absent] at this
        exact absurd this (by simp)
      dsimp only
      rw [if_neg hne, Offset.ofValue?_encode]

/-- **Whatever was written can be read back.** -/
theorem Attributes.Encoded.decodeAttribute {a : Attributes} (h : a.Encoded) (key : AttributeKey) :
    decodeAttribute key (a.get? key) = .ok (a.offset? key) := by
  unfold offset?
  cases hv : a.get? key with
  | none => rfl
  | some v =>
      obtain ⟨key', x, _, rfl⟩ := h key.toId v hv
      rw [decodeAttribute_encode, Option.bind_some, Offset.ofValue?_encode]

namespace Segment

variable {hash : TableKey → KeyHash} {s s' s'' : Segment} {c c' c'' : Offset}


/-- **The segment is indexed up to an offset**: every attribute holds what the log calls for, and
nothing stands in the way of reading or writing. -/
structure Indexed (hash : TableKey → KeyHash) (s : Segment) (c : Offset) : Prop where
  isSealed : s.isSealed = false
  pendingReadFailure : s.pendingReadFailure = none
  pendingWriteFailure : s.pendingWriteFailure = none
  bounded : s.log.Bounded
  encoded : s.attributes.Encoded
  le_length : c ≤ s.log.length
  offset?_eq : ∀ key, s.attributes.offset? key = s.log.indexed hash c key

theorem Indexed.checkpoint_eq (h : s.Indexed hash c) : s.checkpoint = some c :=
  h.offset?_eq .tableIndexOffset

theorem Indexed.isWritable (h : s.Indexed hash c) : s.IsWritable :=
  ⟨h.isSealed, h.pendingWriteFailure⟩

theorem Indexed.unique (h : s.Indexed hash c) (h' : s.Indexed hash c') : c = c' :=
  Option.some.inj (h.checkpoint_eq.symm.trans h'.checkpoint_eq)

theorem Indexed.undisturbed (h : s.Indexed hash c) (hs : s.Undisturbed s') :
    s'.Indexed hash c where
  isSealed := hs.isSealed.trans h.isSealed
  pendingReadFailure := hs.pendingReadFailure h.pendingReadFailure
  pendingWriteFailure := hs.pendingWriteFailure.trans h.pendingWriteFailure
  bounded := hs.log ▸ h.bounded
  encoded := hs.attributes ▸ h.encoded
  le_length := hs.log ▸ h.le_length
  offset?_eq key := by rw [hs.attributes, hs.log, h.offset?_eq]

/-- **Appending disturbs nothing that is indexed.** -/
theorem Indexed.append (h : s.Indexed hash c) (key : TableKey) (removal : Bool) :
    (s.append key removal).2.Indexed hash c ∧ s.log.Extends (s.append key removal).2.log := by
  rcases s.append_cases key removal with ⟨log, _, happend, heq⟩ | ⟨_, e, heq⟩
  · rw [heq]
    have hext := Log.append?_extends happend
    refine ⟨{ h with
      bounded := h.bounded.append? happend
      le_length := le_trans h.le_length hext.length_le
      offset?_eq := fun key => ?_ }, hext⟩
    rw [← Log.indexed_congr (hext.agreeBelow h.le_length)]
    exact h.offset?_eq key
  · rw [heq]
    exact ⟨h, .refl _⟩

/-- A segment that was indexed up to one offset is later indexed up to another. -/
structure Since (hash : TableKey → KeyHash) (s : Segment) (c : Offset) (s' : Segment)
    (c' : Offset) : Prop where
  indexed : s'.Indexed hash c'
  extends_log : s.log.Extends s'.log
  le : c ≤ c'

theorem Since.refl (h : s.Indexed hash c) : Since hash s c s c := ⟨h, .refl _, le_refl _⟩

theorem Since.trans (h : Since hash s c s' c') (h' : Since hash s' c' s'' c'') :
    Since hash s c s'' c'' :=
  ⟨h'.indexed, h.extends_log.trans h'.extends_log, le_trans h.le h'.le⟩

theorem Since.undisturbed (h : Since hash s c s' c') (hs : s'.Undisturbed s'') :
    Since hash s c s'' c' :=
  ⟨h.indexed.undisturbed hs, hs.log ▸ h.extends_log, h.le⟩

/-- What may happen to a segment while somebody reads: if its index was right, it is right. -/
def Evolves (hash : TableKey → KeyHash) (s s' : Segment) : Prop :=
  ∀ c, s.Indexed hash c → ∃ c', Since hash s c s' c'

theorem Evolves.refl (s : Segment) : Evolves hash s s := fun c h => ⟨c, .refl h⟩

theorem Evolves.trans (h : Evolves hash s s') (h' : Evolves hash s' s'') :
    Evolves hash s s'' := by
  intro c hc
  obtain ⟨c', hsince⟩ := h c hc
  obtain ⟨c'', hsince'⟩ := h' c' hsince.indexed
  exact ⟨c'', hsince.trans hsince'⟩

theorem Evolves.undisturbed (h : s.Undisturbed s') : Evolves hash s s' :=
  fun c hc => ⟨c, (Since.refl hc).undisturbed h⟩

theorem Evolves.append (s : Segment) (key : TableKey) (removal : Bool) :
    Evolves hash s (s.append key removal).2 := by
  intro c hc
  obtain ⟨hindexed, hext⟩ := hc.append key removal
  exact ⟨c, hindexed, hext, le_refl _⟩

theorem Indexed.serve_readAttributes (h : s.Indexed hash c) (keys : List AttributeKey) :
    (Segment.serve (.readAttributes keys) s).1 = .ok (.select s.attributes.get? keys) := by
  show (s.readAttributes keys).1 = _
  unfold readAttributes
  rw [h.pendingReadFailure]

end Segment

/-! ## Reading one attribute -/

namespace Attempt

open Segment

variable {hash : TableKey → KeyHash} {s : Segment} {c : Offset}

/-- **One read of attributes**: all of them as of one moment. -/
theorem gives_readAttributes (h : s.Indexed hash c) (keys : List AttributeKey) :
    Gives (Evolves hash)
      (fun values s' => ∃ c', Since hash s c s' c' ∧ ∀ key ∈ keys,
        decodeAttribute key values[key]? = .ok (s'.log.indexed hash c' key))
      (readAttributes keys) s := by
  refine ⟨trivial, fun s₁ henv => ?_⟩
  obtain ⟨c', hsince⟩ := henv c h
  have hund := undisturbed_serve (c := .readAttributes keys) trivial s₁
  refine ⟨_, hsince.indexed.serve_readAttributes keys, c', hsince.undisturbed hund, ?_⟩
  intro key hkey
  rw [AttributeValues.getElem?_select, if_pos hkey, hsince.indexed.encoded.decodeAttribute,
    hsince.indexed.offset?_eq, hund.log]

theorem gives_readOffset (h : s.Indexed hash c) (key : AttributeKey) :
    Gives (Evolves hash)
      (fun x s' => ∃ c', Since hash s c s' c' ∧ x = s'.log.indexed hash c' key)
      (readOffset key) s := by
  refine (gives_readAttributes h [key]).bind ?_
  intro values s' hpost
  obtain ⟨c', hsince, hvalues⟩ := hpost
  exact .ofExcept (hvalues key List.mem_cons_self) ⟨c', hsince, rfl⟩

theorem gives_lastIndexedOffset (h : s.Indexed hash c) (id : SegmentId) :
    Gives (Evolves hash) (fun first s' => Since hash s c s' first) (lastIndexedOffset id) s := by
  refine (gives_readOffset h .tableIndexOffset).ofStore.bind ?_
  intro r s' hpost
  obtain ⟨c', hsince, rfl⟩ := hpost
  exact .pure hsince

theorem gives_readKey (h : s.Indexed hash c) {o : Offset} {key : TableKey}
    (he : s.log.entries[o]? = some ⟨key, false⟩) :
    Gives (Evolves hash)
      (fun k s' => (∃ c', Since hash s c s' c') ∧ k = some key) (readKey o) s := by
  refine ⟨trivial, fun s₁ henv => ?_⟩
  obtain ⟨c', hsince⟩ := henv c h
  refine ⟨_, rfl, ⟨c', hsince⟩, ?_⟩
  show (s₁.log.entries[o]?.filter (!·.removal)).map (·.key) = some key
  rw [hsince.extends_log.entry h.bounded he]
  rfl

theorem gives_readLength {ε : Type} (h : s.Indexed hash c) :
    Gives (Evolves hash) (fun last s' => (∃ c', Since hash s c s' c') ∧ last = s'.log.length)
      (readLength : Attempt ε Offset) s := by
  refine ⟨trivial, fun s₁ henv => ?_⟩
  obtain ⟨c', hsince⟩ := henv c h
  exact ⟨_, rfl, ⟨c', hsince⟩, rfl⟩

/-- **Reading a stretch of the log** that does not end before it starts. -/
theorem gives_readUpdates {ε : Type} (h : s.Indexed hash c) {first last : Offset}
    (hle : first ≤ last) :
    Gives (Evolves hash)
      (fun updates s' => (∃ c', Since hash s c s' c') ∧ s'.log.IsStretch first last updates)
      (readUpdates first last : Attempt ε (List KeyUpdate)) s := by
  refine ⟨trivial, fun s₁ henv => ?_⟩
  obtain ⟨c', hsince⟩ := henv c h
  obtain ⟨updates, hanswer, hstretch⟩ := s₁.log.updatesIn?_eq_some hle
  show Program.Reads _ _ (Program.bind _ _) _
  rw [show (Segment.serve (.readUpdates first last) s₁).1 = some updates from hanswer]
  exact ⟨updates, rfl, ⟨c', hsince⟩, hstretch⟩

end Attempt

end SegmentIndex
