import SegmentIndex.Proofs.LinkChanges
import SegmentIndex.Proofs.Runs

/-!
# The batch of a bucket makes its new chain

If the attributes show the links of the chain that a bucket update was made for
(`Attributes.ShowsLinks`), then they show the new chain once its batch has been applied: whoever
locates the bucket and walks it finds the entries that survive, newest first, and replaced entries
lead nowhere (`Plan.readChain_ofBucket`).

Here attributes are looked at as a reader does, who refuses values that stand for nothing. So what
attributes hold (`Attributes.Holds`) says more than what offset they hold. The two differ only where
something else than encodings was written (`Attributes.Encoded.holds_iff`), and no batch writes
anything else (`Attributes.Encoded.foldlM_write`). So for attributes that batches have made, links
are shown if and only if the snapshot of live attributes has them
(`Attributes.Encoded.showsLinks_iff`).
-/

namespace SegmentIndex

open Attributes Attempt

/-! ## What a reader finds in an attribute -/

namespace Attributes

variable {a a' : Attributes} {key : AttributeKey} {x : Option Offset}

/-- A reader finds an offset in an attribute, or finds that it holds none. Of a value that stands
for nothing neither is true. -/
def Holds (a : Attributes) (key : AttributeKey) (x : Option Offset) : Prop :=
  decodeAttribute key (a.get? key) = .ok x

instance : Decidable (a.Holds key x) :=
  decidable_of_iff (decodeAttribute key (a.get? key) = .ok x) Iff.rfl

/-- Where only encodings were ever written, a reader finds whatever offset is there. -/
theorem Encoded.holds_iff (h : a.Encoded) : a.Holds key x ↔ a.offset? key = x := by
  unfold Holds
  rw [h.decodeAttribute, Except.ok.injEq]

theorem Encoded.holds_iff_live (h : a.Encoded) : a.Holds key x ↔ a.live[key]? = x := by
  rw [h.holds_iff, getElem?_live]

theorem holds_foldlM_write {batch : List Mutation} (h : ∀ m ∈ batch, m.condition ≠ .absent)
    (hrun : batch.foldlM write a = .ok a')
    (hkey : lastWrite batch key = some x ∨ lastWrite batch key = none ∧ a.Holds key x) :
    a'.Holds key x := by
  unfold Holds
  rw [get?_foldlM_write h hrun]
  rcases hkey with hkey | ⟨hkey, hx⟩
  · rw [hkey]
    exact decodeAttribute_encode key x
  · rw [hkey]
    exact hx

end Attributes

/-! ## Reading attributes that nobody changes -/

/-- Whoever reads the attributes of the segment gets an answer. -/
structure Segment.Answers (s : Segment) (a : Attributes) : Prop where
  attributes : s.attributes = a
  pendingReadFailure : s.pendingReadFailure = none

namespace Segment.Answers

variable {s : Segment} {a : Attributes}

theorem reply (h : s.Answers a) (keys : List AttributeKey) :
    (Segment.serve (.readAttributes keys) s).1 = .ok (.select a.get? keys) := by
  show (s.readAttributes keys).1 = _
  unfold Segment.readAttributes
  rw [h.pendingReadFailure, h.attributes]

theorem stays (h : s.Answers a) (keys : List AttributeKey) :
    (Segment.serve (.readAttributes keys) s).2.Answers a := by
  have hund := Segment.undisturbed_serve (c := .readAttributes keys) trivial s
  exact ⟨hund.attributes.trans h.attributes, hund.pendingReadFailure h.pendingReadFailure⟩

end Segment.Answers

namespace Attempt

variable {s : Segment} {a : Attributes}

theorem gives_readAttributes_of_answers (h : s.Answers a) (keys : List AttributeKey) :
    Gives Eq (fun values s' => values = .select a.get? keys ∧ s'.Answers a)
      (readAttributes keys) s := by
  refine ⟨trivial, fun s' hs => ?_⟩
  subst hs
  exact ⟨_, h.reply keys, rfl, h.stays keys⟩

theorem gives_readOffset_of_holds (h : s.Answers a) {key : AttributeKey} {x : Option Offset}
    (hx : a.Holds key x) :
    Gives Eq (fun y s' => y = x ∧ s'.Answers a) (readOffset key) s := by
  refine (gives_readAttributes_of_answers h [key]).bind fun values s' hpost => ?_
  obtain ⟨rfl, hs'⟩ := hpost
  refine .ofExcept ?_ ⟨rfl, hs'⟩
  rw [AttributeValues.getElem?_select, if_pos List.mem_cons_self]
  exact hx

theorem gives_locateBuckets_of_holds (h : s.Answers a) {b : KeyHash} {head : Option Offset}
    (hhead : a.Holds (.bucket b) head) :
    Gives Eq (fun located s' => located[b]? = some ⟨b, head⟩ ∧ s'.Answers a)
      (locateBuckets [b]) s := by
  refine (gives_readAttributes_of_answers h [.bucket b]).bind fun values s' hpost => ?_
  obtain ⟨rfl, hs'⟩ := hpost
  have hheads : ∀ b' ∈ [b], decodeAttribute (.bucket b') (a.get? (.bucket b')) = .ok head := by
    intro b' hb'
    rw [List.mem_singleton.mp hb']
    exact hhead
  obtain ⟨located, hrun, hlocated⟩ := decodeBuckets_select hheads
  refine .ofExcept hrun ⟨?_, hs'⟩
  rw [hlocated, if_pos List.mem_cons_self]

/-- **The walk from an entry downwards**, where the links lead from each entry to the next. -/
theorem gives_chainFrom_of_holds (h : s.Answers a) (b : KeyHash) (newer : List Offset)
    {entry : Offset} {rest : List Offset} (hdesc : Offset.Descending (entry :: rest))
    (hlinks : ∀ o ∈ entry :: rest, a.Holds (.backpointer o) (nextOlder (entry :: rest) o)) :
    Gives Eq (fun l s' => l = newer.reverse ++ entry :: rest ∧ s'.Answers a)
      (chainFrom b newer entry) s := by
  induction rest generalizing s newer entry with
  | nil =>
      have hlink := hlinks entry List.mem_cons_self
      rw [nextOlder, if_pos rfl] at hlink
      rw [chainFrom]
      refine (gives_readOffset_of_holds h hlink).ofStore.bind fun link s' hpost => ?_
      obtain ⟨rfl, hs'⟩ := hpost
      exact .pure ⟨by simp, hs'⟩
  | cons older rest ih =>
      have hlink := hlinks entry List.mem_cons_self
      rw [nextOlder, if_pos rfl] at hlink
      obtain ⟨hbelow, hdesc⟩ := List.pairwise_cons.mp hdesc
      rw [chainFrom]
      refine (gives_readOffset_of_holds h hlink).ofStore.bind fun link s' hpost => ?_
      obtain ⟨rfl, hs'⟩ := hpost
      show Gives _ _ (if older < entry then _ else _) _
      rw [if_pos (hbelow older List.mem_cons_self)]
      refine (ih hs' (entry :: newer) hdesc fun o ho => ?_).mono fun l s'' hpost => ?_
      · have hne : entry ≠ o := (hbelow o ho).ne'
        have hlink := hlinks o (List.mem_cons_of_mem _ ho)
        rwa [nextOlder, if_neg hne] at hlink
      · obtain ⟨rfl, hs''⟩ := hpost
        exact ⟨by simp, hs''⟩

/-- **The walk through a bucket** whose head leads to the first entry of a linked chain. -/
theorem gives_bucketOffsets_of_holds (h : s.Answers a) (b : KeyHash) {l : List Offset}
    (hdesc : Offset.Descending l)
    (hlinks : ∀ o ∈ l, a.Holds (.backpointer o) (nextOlder l o)) :
    Gives Eq (fun l' s' => l' = l ∧ s'.Answers a) (bucketOffsets ⟨b, l.head?⟩) s := by
  cases l with
  | nil => exact .pure ⟨rfl, h⟩
  | cons entry rest => exact gives_chainFrom_of_holds h b [] hdesc hlinks

theorem gives_readChain_of_holds (h : s.Answers a) {b : KeyHash} {l : List Offset}
    (hhead : a.Holds (.bucket b) l.head?) (hdesc : Offset.Descending l)
    (hlinks : ∀ o ∈ l, a.Holds (.backpointer o) (nextOlder l o)) :
    Gives Eq (fun l' s' => l' = l ∧ s'.Answers a) (readChain b) s := by
  refine (gives_locateBuckets_of_holds h hhead).ofStore.bind fun located s' hpost => ?_
  obtain ⟨hlocated, hs'⟩ := hpost
  rw [hlocated]
  exact gives_bucketOffsets_of_holds hs' b hdesc hlinks

end Attempt

/-! ## The chain that attributes show -/

variable {u : BucketUpdate} {first last : Offset} {a a' : Attributes}

/-- The attributes show the links of the chain that the update was made for, and none of an entry
that the update brings. What they show as the head does not matter: the batch sets it anyway.

A link is what a reader finds, so no value among these stands for nothing. Batches write no such
value; where they have made the attributes, the links are those of the snapshot of live attributes
(`Encoded.showsLinks_iff`). -/
structure Attributes.ShowsLinks (a : Attributes) (u : BucketUpdate) : Prop where
  indexed : ∃ old, LinksAmong u.IsIndexed old ∧
    ∀ o, u.IsIndexed o → a.Holds (.backpointer o) (old o)
  new : ∀ (key : TableKey) (o : Offset), u.changes[key]? = some ⟨o, false⟩ →
    a.Holds (.backpointer o) none

/-- **For attributes that only batches have written**, showing the links of a chain is about which
backpointers are live, and with which offsets. -/
theorem Attributes.Encoded.showsLinks_iff (h : a.Encoded) : a.ShowsLinks u ↔
    (∃ old, LinksAmong u.IsIndexed old ∧
      ∀ o, u.IsIndexed o → a.live[AttributeKey.backpointer o]? = old o) ∧
    ∀ (key : TableKey) (o : Offset), u.changes[key]? = some ⟨o, false⟩ →
      a.live[AttributeKey.backpointer o]? = none := by
  constructor
  · rintro ⟨⟨old, hold, hlinks⟩, hnew⟩
    exact ⟨⟨old, hold, fun o ho => h.holds_iff_live.mp (hlinks o ho)⟩,
      fun key o hkey => h.holds_iff_live.mp (hnew key o hkey)⟩
  · rintro ⟨⟨old, hold, hlinks⟩, hnew⟩
    exact ⟨⟨old, hold, fun o ho => h.holds_iff_live.mpr (hlinks o ho)⟩,
      fun key o hkey => h.holds_iff_live.mpr (hnew key o hkey)⟩

theorem LinksAmong.eq {entries : Offset → Prop} {link link' : Offset → Option Offset}
    (h : LinksAmong entries link) (h' : LinksAmong entries link') : link = link' :=
  funext fun o => Option.ext fun o' => (h o o').trans (h' o o').symm

/-- Before the batch, the links of all entries that there are and will be are those of the old
chain. -/
theorem Attributes.ShowsLinks.holds_backpointer (h : a.ShowsLinks u) (hu : u.Layered) {o : Offset}
    (ho : u.IsIndexed o ∨ u.Survives o) : a.Holds (.backpointer o) (nextOlder u.oldChain o) := by
  obtain ⟨old, hold, hlinks⟩ := h.indexed
  obtain rfl := hold.eq hu.linksAmong_oldChain
  rcases ho with ho | ⟨key, hnew⟩ | ⟨key, hkey, _⟩
  · exact hlinks o ho
  · -- a new entry was in no chain
    rw [nextOlder_eq_none fun hmem => ?_]
    · exact h.new key o hnew
    · obtain ⟨k, hk⟩ := BucketUpdate.mem_oldChain.mp hmem
      exact lt_irrefl o (hu.above hk hnew)
  · exact hlinks o ⟨key, hkey⟩

theorem Attributes.showsLinks_of_forall (hu : u.Layered)
    (hindexed : ∀ info ∈ u.existingKeys,
      a.Holds (.backpointer info.offset) (nextOlder u.oldChain info.offset))
    (hnew : ∀ update ∈ u.surviving, a.Holds (.backpointer update.offset) none) :
    a.ShowsLinks u where
  indexed := ⟨_, hu.linksAmong_oldChain, fun o ⟨key, hkey⟩ =>
    hindexed ⟨key, o⟩ (BucketUpdate.mem_existingKeys.mpr hkey)⟩
  new key o hkey := hnew ⟨⟨o, false⟩, key⟩ (BucketUpdate.mem_surviving.mpr ⟨hkey, rfl⟩)

namespace Plan

/-- **After the batch the attributes show the new chain.** -/
theorem holds_newChain (h : u.Layered) (hupdates : u.hasUpdates) (hshows : a.ShowsLinks u)
    (hrun : (u.writes ++ (ofBucket u first last).advance).foldlM write a = .ok a') :
    a'.Holds (.bucket u.bucket.hash) u.newChain.head? ∧
      ∀ o, u.IsIndexed o ∨ u.Survives o → a'.Holds (.backpointer o) (nextOlder u.newChain o) := by
  have hcondition : ∀ m ∈ u.writes ++ (ofBucket u first last).advance, m.condition ≠ .absent := by
    rw [← writes_ofBucket]
    exact fun m hm => condition_ne_absent hm
  constructor
  · have hadvance : lastWrite (ofBucket u first last).advance (.bucket u.bucket.hash) = none :=
      lastWrite_eq_none fun m hm => by simp [mem_advance hm, Mutation.replaceIfEquals]
    refine holds_foldlM_write hcondition hrun (.inl ?_)
    rw [lastWrite_append, hadvance, Option.none_or, BucketUpdate.lastWrite_writes_bucket hupdates,
      h.newest_eq_head?]
  · intro o ho
    refine holds_foldlM_write hcondition hrun ?_
    rw [← lastWrite_writesTo, writesTo_backpointer h hupdates]
    split
    · rename_i hsame
      exact .inr ⟨rfl, hsame ▸ hshows.holds_backpointer h ho⟩
    · exact .inl (if_pos rfl)

/-- **The batch of a bucket makes its new chain.** Let the attributes show the chain for which the
update was made. Then there is a batch, and it goes through; and whoever locates the bucket and
walks it finds the entries that survive, newest first. The entries that do not survive lead
nowhere: a reader finds no offset there, and if only batches have written the attributes, the
snapshot of live attributes has nothing there (`Encoded.holds_iff_live`). -/
theorem readChain_ofBucket {s : Segment} (h : u.Layered) (hupdates : u.hasUpdates)
    (hbucket : u.bucket.isOccupied ↔ ∃ o, u.IsIndexed o) (hle : first ≤ last)
    (hs : s.IsWritable) (hread : s.pendingReadFailure = none)
    (hshows : s.attributes.ShowsLinks u) (hcheckpoint : first < last → s.checkpoint = some first) :
    ∃ batch s' l, (ofBucket u first last).mutations = .ok batch ∧
      s.writeAttributes batch = (.ok (), s') ∧
      Offset.Descending l ∧ (∀ o, o ∈ l ↔ u.Survives o) ∧ (l = [] ↔ ∀ o, ¬u.Survives o) ∧
      (∃ located, ((locateBuckets [u.bucket.hash]).runAlone s').value = some (.ok located) ∧
        located[u.bucket.hash]? = some ⟨u.bucket.hash, l.head?⟩) ∧
      ((bucketOffsets ⟨u.bucket.hash, l.head?⟩).runAlone s').value = some (.ok l) ∧
      ((readChain u.bucket.hash).runAlone s').value = some (.ok l) ∧
      ∀ info ∈ u.replaced, s'.attributes.Holds (.backpointer info.offset) none := by
  obtain ⟨a, hrun⟩ : ∃ a, (u.writes ++ (ofBucket u first last).advance).foldlM write s.attributes
      = .ok a := by
    rw [← writes_ofBucket]
    exact exists_foldlM_write hcheckpoint
  obtain ⟨hhead, hlinks⟩ := holds_newChain h hupdates hshows hrun
  have hanswers : (s.applied a).Answers a := ⟨rfl, hread⟩
  have hwalk : ∀ o ∈ u.newChain, a.Holds (.backpointer o) (nextOlder u.newChain o) :=
    fun o ho => hlinks o (.inr (BucketUpdate.mem_newChain.mp ho))
  refine ⟨_, _, u.newChain,
    mutations_ofBucket hle (BucketUpdate.isConsistent_iff_isIndexed.mpr hbucket),
    hs.writeAttributes_of_ok (by rw [apply_eq_foldlM, hrun]), h.descending_newChain,
    fun o => BucketUpdate.mem_newChain, ?_, ?_, ?_, ?_, fun info hinfo => ?_⟩
  · rw [List.eq_nil_iff_forall_not_mem]
    exact forall_congr' fun o => not_congr BucketUpdate.mem_newChain
  · obtain ⟨located, hvalue, ⟨hlocated, _⟩, _⟩ :=
      (gives_locateBuckets_of_holds hanswers hhead).runAlone fun _ => rfl
    exact ⟨located, hvalue, hlocated⟩
  · obtain ⟨_, hvalue, ⟨rfl, _⟩, _⟩ := (gives_bucketOffsets_of_holds hanswers u.bucket.hash
      h.descending_newChain hwalk).runAlone fun _ => rfl
    exact hvalue
  · obtain ⟨_, hvalue, ⟨rfl, _⟩, _⟩ :=
      (gives_readChain_of_holds hanswers hhead h.descending_newChain hwalk).runAlone fun _ => rfl
    exact hvalue
  · have hindexed : u.IsIndexed info.offset :=
      ⟨info.key, BucketUpdate.mem_existingKeys.mp (BucketUpdate.mem_replaced.mp hinfo).1⟩
    rw [← h.nextOlder_newChain_of_replaced hinfo]
    exact hlinks info.offset (.inl hindexed)

/-- A segment whose index has a bucket with four entries. -/
def sampleSegment : Segment :=
  { Segment.empty 1 with
    attributes := Attributes.set ∅ .tableIndexOffset (some (.clamp 50))
      |>.set (.bucket default) (some (.clamp 40))
      |>.set (.backpointer (.clamp 40)) (some (.clamp 30))
      |>.set (.backpointer (.clamp 30)) (some (.clamp 20))
      |>.set (.backpointer (.clamp 20)) (some (.clamp 10)) }

/-- Two of the four entries stay, below the one that is new. -/
theorem readChain_ofBucket_sample :
    (sampleBucket.Layered ∧ sampleBucket.hasUpdates ∧
      (sampleBucket.bucket.isOccupied ↔ ∃ o, sampleBucket.IsIndexed o) ∧
      sampleSegment.attributes.ShowsLinks sampleBucket ∧
      sampleSegment.checkpoint = some (.clamp 50)) ∧
    ∃ batch s', (ofBucket sampleBucket (.clamp 50) (.clamp 61)).mutations = .ok batch ∧
      sampleSegment.writeAttributes batch = (.ok (), s') ∧
      ((readChain default).runAlone s').value
        = some (.ok [.clamp 50, .clamp 40, .clamp 20]) ∧
      s'.attributes.Holds (.backpointer (.clamp 30)) none := by
  have hold : sampleBucket.oldChain = [.clamp 40, .clamp 30, .clamp 20, .clamp 10] := by cbv
  have hshows : sampleSegment.attributes.ShowsLinks sampleBucket :=
    showsLinks_of_forall layered_sampleBucket (by rw [hold]; decide +kernel) (by decide +kernel)
  have hcheckpoint : sampleSegment.checkpoint = some (.clamp 50) := by decide +kernel
  have hchain : sampleBucket.newChain = [.clamp 50, .clamp 40, .clamp 20] := by cbv
  have hreplaced : ⟨⟨[99]⟩, .clamp 30⟩ ∈ sampleBucket.replaced := by decide +kernel
  obtain ⟨batch, s', l, hok, hwrite, hdesc, hmem, _, _, _, hread, hremoved⟩ :=
    readChain_ofBucket layered_sampleBucket hasUpdates_sampleBucket isOccupied_sampleBucket
      (show Offset.clamp 50 ≤ .clamp 61 by decide) ⟨rfl, rfl⟩ rfl hshows fun _ => hcheckpoint
  refine ⟨⟨layered_sampleBucket, hasUpdates_sampleBucket, isOccupied_sampleBucket, hshows,
    hcheckpoint⟩, batch, s', hok, hwrite, ?_, hremoved ⟨⟨[99]⟩, .clamp 30⟩ hreplaced⟩
  have hl : l = sampleBucket.newChain :=
    hdesc.ext layered_sampleBucket.descending_newChain fun o =>
      (hmem o).trans BucketUpdate.mem_newChain.symm
  rw [← hchain, ← hl]
  exact hread

end Plan

end SegmentIndex
