import SegmentIndex.Proofs.LinkPath
import SegmentIndex.Proofs.Operations
import SegmentIndex.Proofs.Planning

/-!
# What a segment stores is what is meant

A segment keeps numbers under numbers. What is meant by them is a map from attributes to optional
offsets, and the translation is exact both ways (`encodings_exact`): no two attributes share an id,
no two optional offsets share a value, and an id or a value that nothing stands for is told apart.

So it is enough that only encodings are ever written. After any history of a segment, the lenient
view of its attributes and the reader, which is strict about values that stand for nothing, agree on
every attribute (`Segment.attributes_history`).
-/

namespace SegmentIndex

/-! ## The encodings -/

/-- **The storage encodings are exact in both directions.**

* An id is about an attribute if and only if it is the id of that attribute, so different attributes
  have different ids; the id of a bucket is its hash as a number without the top bit.
* An id is about nothing if and only if its top bit is set and it is neither the id of the
  checkpoint nor made of the mark of the backpointers and an offset.
* An optional offset is read back from its value; the absent value is not that of any offset; and a
  value is written back as it was read if and only if it is not negative, or is the absent value. -/
theorem encodings_exact :
    (∀ (i : AttributeId) (key : AttributeKey),
      AttributeKey.ofId? i = some key ↔ key.toId = i) ∧
    (∀ a b : AttributeKey, a.toId = b.toId ↔ a = b) ∧
    (∀ raw : BitVec 128, (AttributeKey.bucket (.ofBits raw)).toId
      = ⟨raw &&& 0x7fffffffffffffffffffffffffffffff#128⟩) ∧
    (∀ i : AttributeId, AttributeKey.ofId? i = none ↔
      i.bits.msb = true ∧ i ≠ .checkpoint ∧
        ¬(i.high = AttributeId.backpointerPart ∧ i.low.toNat ≤ Offset.top.val)) ∧
    (∀ x : Option Offset, Offset.ofValue? (Offset.encode x) = x) ∧
    (∀ o : Offset, Offset.encode (some o) ≠ .absent) ∧
    (∀ v : AttributeValue, Offset.encode (Offset.ofValue? v) = v ↔ 0 ≤ v.toInt ∨ v = .absent) :=
  ⟨fun _ _ => AttributeKey.ofId?_eq_some_iff, fun _ _ => AttributeKey.toId_inj,
    fun raw => AttributeId.ext (AttributeKey.toBits_ofBits raw),
    fun _ => AttributeKey.ofId?_eq_none_iff, Offset.ofValue?_encode, Offset.toValue_ne_absent,
    fun _ => Offset.encode_ofValue?_eq_iff⟩

/-! ## What batches leave behind -/

namespace Attributes

variable {a a' a'' : Attributes} {batch : List Mutation}

theorem Encoded.apply (h : a.Encoded) (happly : a.apply batch = .ok a') : a'.Encoded := by
  rw [apply_eq_foldlM] at happly
  exact h.foldlM_write happly

/-- Whatever the first attributes physically hold something for, the others do as well. -/
structure Covers (a' a : Attributes) : Prop where
  mem : ∀ i ∈ a, i ∈ a'
  size_le : a.size ≤ a'.size

theorem Covers.refl (a : Attributes) : a.Covers a := ⟨fun _ h => h, Nat.le_refl _⟩

theorem Covers.trans (h : a''.Covers a') (h' : a'.Covers a) : a''.Covers a where
  mem i hi := h.mem i (h'.mem i hi)
  size_le := Nat.le_trans h'.size_le h.size_le

/-- **A batch takes nothing away**: what it clears stays there with the absent value. -/
theorem covers_of_apply (h : a.apply batch = .ok a') : a'.Covers a := by
  unfold Attributes.apply at h
  cases hstaged : batch.foldlM a.stage ∅ with
  | error e =>
      rw [hstaged] at h
      exact absurd h (by simp [bind, Except.bind])
  | ok staged =>
      rw [hstaged] at h
      obtain rfl := Except.ok.inj h
      exact ⟨fun i hi => Std.ExtTreeMap.mem_union_iff.mpr (.inl hi),
        Std.ExtTreeMap.size_left_le_size_union⟩

theorem Encoded.value_cases (h : a.Encoded) {i : AttributeId} {v : AttributeValue}
    (hv : a[i]? = some v) : 0 ≤ v.toInt ∨ v = .absent := by
  obtain ⟨_, x, _, rfl⟩ := h i v hv
  exact Offset.encode_ofValue?_eq_iff.mp (by rw [Offset.ofValue?_encode])

theorem Encoded.existsUnique_key (h : a.Encoded) {i : AttributeId} {v : AttributeValue}
    (hv : a[i]? = some v) : ∃! key : AttributeKey, key.toId = i := by
  obtain ⟨key, _, rfl, _⟩ := h i v hv
  exact ⟨key, rfl, fun _ hkey => AttributeKey.toId_inj.mp hkey⟩

end Attributes

/-! ## Readers of encodings -/

namespace Attempt

open Attributes

variable {s : Segment} {a : Attributes}

theorem runAlone_readOffset (h : s.Answers a) (henc : a.Encoded) (key : AttributeKey) :
    ((readOffset key).runAlone s).value = some (.ok (a.offset? key)) := by
  obtain ⟨x, hvalue, ⟨rfl, _⟩, _⟩ :=
    (gives_readOffset_of_holds h (henc.holds_iff.mpr rfl)).runAlone (fun _ => rfl)
  exact hvalue

theorem gives_locateBuckets_of_answers (h : s.Answers a) (henc : a.Encoded)
    (hashes : List KeyHash) :
    Gives Eq (fun located _ => ∀ b : KeyHash, located[b]?
      = if b ∈ hashes then some (Bucket.mk b (a.offset? (.bucket b))) else none)
      (locateBuckets hashes) s := by
  refine (gives_readAttributes_of_answers h _).bind fun values s' hpost => ?_
  obtain ⟨rfl, _⟩ := hpost
  obtain ⟨located, hrun, hlocated⟩ :=
    decodeBuckets_select fun b (_ : b ∈ hashes) => henc.decodeAttribute (.bucket b)
  exact .ofExcept hrun hlocated

theorem runAlone_lastIndexedOffset (h : s.Answers a) (henc : a.Encoded) (segment : SegmentId) :
    ((lastIndexedOffset segment).runAlone s).value = some (match a.offset? .tableIndexOffset with
      | some o => .ok o
      | none => .error (.contractViolation (.uninitialized segment))) := by
  unfold lastIndexedOffset runAlone
  rw [run_readOffset_bind, Program.run_call, h.reply]
  dsimp only
  rw [AttributeValues.getElem?_select, if_pos List.mem_cons_self, henc.decodeAttribute]
  cases a.offset? .tableIndexOffset <;> rfl

/-- A walk may find a link that leads up, but no value that stands for nothing. -/
theorem runAlone_bucketOffsets_ne_store (h : s.Answers a) (henc : a.Encoded) (b : Bucket)
    (e : StoreError) : ((bucketOffsets b).runAlone s).value ≠ some (.error (.store e)) := by
  obtain ⟨l, _, _, hvalue, _⟩ := bucketOffsets_of_shows (shows_serve a) h b
  intro herror
  obtain ⟨o, _, hlink⟩ := pathResult_eq_store_iff.mp (Option.some.inj (hvalue.symm.trans herror))
  rw [linkOf, henc.decodeAttribute] at hlink
  exact absurd hlink (by simp)

end Attempt

/-! ## Histories -/

namespace Segment

open Attempt

theorem encoded_history (id : SegmentId) (l : List Operation) :
    (history id l).attributes.Encoded :=
  attributes_foldl_undergo (s := .empty id) Attributes.encoded_empty
    (fun _ _ _ henc happly => henc.apply happly) l

/-- Whatever is done to a segment, no attribute vanishes from it. -/
theorem covers_foldl (s : Segment) (l : List Operation) :
    (l.foldl undergo s).attributes.Covers s.attributes :=
  attributes_foldl_undergo (P := (·.Covers s.attributes)) (.refl _)
    (fun _ _ _ hcovers happly => (Attributes.covers_of_apply happly).trans hcovers) l

/-- **The physical attributes faithfully represent the logical ones.** After any history of a
segment:

* every value that is kept is not negative or is the absent value, and every id under which one is
  kept is the id of exactly one attribute;
* whatever is done next, what is kept under an id is never taken away, and the number of attributes
  that are kept never goes down;
* an attribute shows in the snapshot of live attributes with the offset that it holds;
* with no read failure ordered, readers agree with this: locating buckets finds each bucket asked
  for, with the head that its attribute holds, and no others; the backpointer of an entry is read as
  the offset that it holds; so is the checkpoint, and if there is none the caller is told so; and no
  walk through a bucket ever finds a value that stands for nothing. -/
theorem attributes_history (id : SegmentId) (l : List Operation) :
    (∀ (i : AttributeId) (v : AttributeValue), (history id l).attributes[i]? = some v →
      (0 ≤ v.toInt ∨ v = .absent) ∧ ∃! key : AttributeKey, key.toId = i) ∧
    (∀ l', (∀ i ∈ (history id l).attributes, i ∈ (history id (l ++ l')).attributes) ∧
      (history id l).attributes.size ≤ (history id (l ++ l')).attributes.size) ∧
    (∀ (key : AttributeKey) (o : Offset), (history id l).attributes.live[key]? = some o ↔
      (history id l).attributes.offset? key = some o) ∧
    ((history id l).pendingReadFailure = none →
      (∀ hashes, ∃ located,
        ((locateBuckets hashes).runAlone (history id l)).value = some (.ok located) ∧
        ∀ b : KeyHash, located[b]? = if b ∈ hashes
          then some ⟨b, (history id l).attributes.offset? (.bucket b)⟩ else none) ∧
      (∀ o, ((backpointerOffset o).runAlone (history id l)).value
        = some (.ok ((history id l).attributes.offset? (.backpointer o)))) ∧
      (∀ segment, ((lastIndexedOffset segment).runAlone (history id l)).value
        = some (match (history id l).attributes.offset? .tableIndexOffset with
          | some o => .ok o
          | none => .error (.contractViolation (.uninitialized segment)))) ∧
      ∀ b e, ((bucketOffsets b).runAlone (history id l)).value ≠ some (.error (.store e))) := by
  have henc := encoded_history id l
  refine ⟨fun i v hv => ⟨henc.value_cases hv, henc.existsUnique_key hv⟩, fun l' => ?_,
    fun key o => ?_, fun hpending => ?_⟩
  · rw [history_append]
    have hcovers := covers_foldl (history id l) l'
    exact ⟨hcovers.mem, hcovers.size_le⟩
  · rw [Attributes.getElem?_live]
  · have hanswers : (history id l).Answers (history id l).attributes := ⟨rfl, hpending⟩
    refine ⟨fun hashes => ?_, fun o => ?_, fun segment => ?_, fun b e => ?_⟩
    · obtain ⟨located, hvalue, hlocated, _⟩ :=
        (gives_locateBuckets_of_answers hanswers henc hashes).runAlone (fun _ => rfl)
      exact ⟨located, hvalue, hlocated⟩
    · exact runAlone_readOffset hanswers henc (.backpointer o)
    · exact runAlone_lastIndexedOffset hanswers henc segment
    · exact runAlone_bucketOffsets_ne_store hanswers henc b e

/-- A link that is set, and cleared at the second try. -/
def clearedLink : List Operation :=
  [.call (.writeAttributes [.replace (.backpointer (.clamp 40)) (some (.clamp 20))]),
    .failNextWrite (.io "down"),
    .call (.writeAttributes [.replace (.backpointer (.clamp 40)) none]),
    .call (.writeAttributes [.replace (.backpointer (.clamp 40)) none])]

theorem attributes_history_clearedLink :
    (history 1 clearedLink).attributes[(AttributeKey.backpointer (.clamp 40)).toId]?
      = some .absent ∧
    (∃! key : AttributeKey, key.toId = (AttributeKey.backpointer (.clamp 40)).toId) ∧
    (history 1 clearedLink).pendingReadFailure = none ∧
    ((backpointerOffset (.clamp 40)).runAlone (history 1 clearedLink)).value = some (.ok none) := by
  obtain ⟨hkept, _, _, hreaders⟩ := attributes_history 1 clearedLink
  have hcleared : (history 1 clearedLink).attributes[(AttributeKey.backpointer (.clamp 40)).toId]?
      = some .absent := by decide +kernel
  have hpending : (history 1 clearedLink).pendingReadFailure = none := by decide +kernel
  obtain ⟨_, hlink, _⟩ := hreaders hpending
  refine ⟨hcleared, (hkept _ _ hcleared).2, hpending, ?_⟩
  rw [hlink]
  decide +kernel

end Segment

end SegmentIndex
