import SegmentIndex.Proofs.NewChain
import SegmentIndex.Proofs.Serving

/-!
# Walking links that lead anywhere

Nothing is known here of who has written the attributes. A link may lead in a circle, to a newer
entry, to an entry of another bucket, or hold a value that stands for nothing. The walk through a
bucket still ends, since it follows a link only downwards, and what it gives says how far the path
of links is in order (`Attempt.bucketOffsets_spec`): the whole path, or the first thing that is
wrong with it.

The path of links that lead down from a head (`IsPath`) is the same for everybody up to where it
cannot be followed further, which is where the walk stops.
-/

namespace SegmentIndex

open Attempt

variable {values : AttributeKey → Option AttributeValue} {key : AttributeKey}
  {value : Option AttributeValue} {o o' : Offset}

/-! ## What a reader makes of a value -/

theorem decodeAttribute_eq_none_iff :
    decodeAttribute key value = .ok none ↔ value = none ∨ value = some .absent := by
  cases value with
  | none => simp [decodeAttribute]
  | some v =>
      unfold decodeAttribute
      by_cases hv : v = .absent
      · simp [hv]
      · dsimp only
        rw [if_neg hv]
        cases Offset.ofValue? v <;> simp [hv]

theorem decodeAttribute_eq_some_iff :
    decodeAttribute key value = .ok (some o) ↔ value.bind Offset.ofValue? = some o := by
  cases value with
  | none => simp [decodeAttribute]
  | some v =>
      unfold decodeAttribute
      by_cases hv : v = .absent
      · simp [hv, Offset.ofValue?_absent]
      · dsimp only
        rw [if_neg hv, Option.bind_some]
        cases Offset.ofValue? v <;> simp

theorem decodeAttribute_eq_error_iff {e : StoreError} :
    decodeAttribute key value = .error e ↔
      ∃ v, value = some v ∧ v.toInt < 0 ∧ v ≠ .absent ∧ e = .invalidAttributeValue key v := by
  cases value with
  | none => simp [decodeAttribute]
  | some v =>
      simp only [Option.some.injEq, exists_eq_left', ← Offset.ofValue?_eq_none_iff]
      unfold decodeAttribute
      by_cases hv : v = .absent
      · simp [hv]
      · dsimp only
        rw [if_neg hv]
        cases Offset.ofValue? v <;> simp [hv, eq_comm]

/-! ## Paths of links -/

/-- The link of an entry leads to another. -/
def LeadsTo (values : AttributeKey → Option AttributeValue) (o o' : Offset) : Prop :=
  (values (.backpointer o)).bind Offset.ofValue? = some o'

/-- The link of an entry says that there is nothing below it. -/
def EndsAt (values : AttributeKey → Option AttributeValue) (o : Offset) : Prop :=
  values (.backpointer o) = none ∨ values (.backpointer o) = some .absent

/-- What a reader makes of the link of an entry. -/
def linkOf (values : AttributeKey → Option AttributeValue) (o : Offset) :
    Except StoreError (Option Offset) :=
  decodeAttribute (.backpointer o) (values (.backpointer o))

theorem linkOf_eq_none_iff : linkOf values o = .ok none ↔ EndsAt values o :=
  decodeAttribute_eq_none_iff

theorem linkOf_eq_some_iff : linkOf values o = .ok (some o') ↔ LeadsTo values o o' :=
  decodeAttribute_eq_some_iff

/-- The path from a head as far as some entry, with every step leading down. -/
structure IsPath (values : AttributeKey → Option AttributeValue) (head : Option Offset)
    (l : List Offset) : Prop where
  head : l.head? = head
  steps : l.IsChain fun o o' => LeadsTo values o o' ∧ o' < o

/-- The path from a head leads down to an entry without a link, and this is all of it. -/
structure IsWholePath (values : AttributeKey → Option AttributeValue) (head : Option Offset)
    (l : List Offset) : Prop extends IsPath values head l where
  ends : ∀ o ∈ l.getLast?, EndsAt values o

/-- No step leads down from where the path has come to. -/
def IsStuck (values : AttributeKey → Option AttributeValue) (l : List Offset) : Prop :=
  ∀ o ∈ l.getLast?, ∀ o', LeadsTo values o o' → o ≤ o'

theorem isStuck_singleton (h : ∀ o', o' < o → ¬LeadsTo values o o') : IsStuck values [o] := by
  intro last hlast o' hlink
  obtain rfl : o = last := Option.some.inj hlast
  exact not_lt.mp fun hlt => h o' hlt hlink

theorem isStuck_of_getLast? {l : List Offset} (hlast : l.getLast? = some o)
    (h : ∀ o', LeadsTo values o o' → o ≤ o') : IsStuck values l := by
  intro last ho
  obtain rfl : o = last := Option.some.inj (hlast.symm.trans ho)
  exact h

theorem EndsAt.not_leadsTo (h : EndsAt values o) : ¬LeadsTo values o o' := by
  unfold LeadsTo
  rcases h with h | h
  · rw [h]
    simp
  · rw [h, Option.bind_some, Offset.ofValue?_absent]
    simp

theorem IsWholePath.isStuck {l : List Offset} {head : Option Offset}
    (h : IsWholePath values head l) : IsStuck values l :=
  fun o ho _ hlink => absurd hlink (h.ends o ho).not_leadsTo

theorem isStuck_cons_cons {rest : List Offset} :
    IsStuck values (o :: o' :: rest) ↔ IsStuck values (o' :: rest) := by
  unfold IsStuck
  rw [List.getLast?_cons_cons]

namespace IsPath

variable {l l' : List Offset} {head : Option Offset}

theorem nil : IsPath values none [] := ⟨rfl, .nil⟩

theorem singleton (o : Offset) : IsPath values (some o) [o] := ⟨rfl, .singleton o⟩

theorem cons (h : IsPath values (some o') l) (hlink : LeadsTo values o o') (hlt : o' < o) :
    IsPath values (some o) (o :: l) where
  head := rfl
  steps := by
    obtain ⟨rest, rfl⟩ := List.head?_eq_some_iff.mp h.head
    exact List.isChain_cons_cons.mpr ⟨⟨hlink, hlt⟩, h.steps⟩

/-- What is left of a path after its first step. -/
theorem tail (h : IsPath values head (o :: o' :: l)) :
    LeadsTo values o o' ∧ o' < o ∧ IsPath values (some o') (o' :: l) := by
  obtain ⟨⟨hlink, hlt⟩, hsteps⟩ := List.isChain_cons_cons.mp h.steps
  exact ⟨hlink, hlt, rfl, hsteps⟩

/-- **A head has one path**, up to where it cannot be followed further. -/
theorem eq_of_isStuck (h : IsPath values head l) (h' : IsPath values head l')
    (hstuck : IsStuck values l) (hstuck' : IsStuck values l') : l = l' := by
  induction l generalizing head l' with
  | nil =>
      rw [← h.head] at h'
      exact (List.head?_eq_none_iff.mp h'.head).symm
  | cons o rest ih =>
      obtain rfl := h.head
      obtain ⟨rest', rfl⟩ := List.head?_eq_some_iff.mp h'.head
      cases rest with
      | nil =>
          cases rest' with
          | nil => rfl
          | cons o' _ =>
              obtain ⟨hlink, hlt, _⟩ := h'.tail
              exact absurd hlt (not_lt.mpr (hstuck o rfl o' hlink))
      | cons o₁ rest =>
          obtain ⟨hlink, hlt, hrest⟩ := h.tail
          cases rest' with
          | nil => exact absurd hlt (not_lt.mpr (hstuck' o rfl o₁ hlink))
          | cons o₂ rest' =>
              obtain ⟨hlink', _, hrest'⟩ := h'.tail
              obtain rfl : o₁ = o₂ := Option.some.inj (hlink.symm.trans hlink')
              have htail : o₁ :: rest = o₁ :: rest' := ih hrest hrest' hstuck hstuck'
              rw [htail]

/-- A path is no longer than there are offsets below its head. -/
theorem length_le (h : IsPath values (some o) l) : l.length ≤ o.val + 1 := by
  induction l generalizing o with
  | nil => exact Nat.zero_le _
  | cons a rest ih =>
      obtain rfl : a = o := Option.some.inj h.head
      cases rest with
      | nil => simp
      | cons o' rest =>
          obtain ⟨_, hlt, hrest⟩ := h.tail
          have hlen := ih hrest
          rw [Offset.lt_iff_val] at hlt
          rw [List.length_cons]
          omega

end IsPath

theorem IsWholePath.unique {l l' : List Offset} {head : Option Offset}
    (h : IsWholePath values head l) (h' : IsWholePath values head l') : l = l' :=
  h.toIsPath.eq_of_isStuck h'.toIsPath h.isStuck h'.isStuck

/-- What is to be said of a path that cannot be followed further. -/
def pathResult (values : AttributeKey → Option AttributeValue) (bucket : KeyHash)
    (l : List Offset) : Except IndexError (List Offset) :=
  match l.getLast? with
  | none => .ok l
  | some o =>
    match linkOf values o with
    | .ok none => .ok l
    | .ok (some o') => .error (.corruption (.forwardLink o o' bucket))
    | .error e => .error (.store e)

theorem pathResult_cons (bucket : KeyHash) (o o' : Offset) (rest : List Offset) :
    pathResult values bucket (o :: o' :: rest)
      = (pathResult values bucket (o' :: rest)).map (o :: ·) := by
  unfold pathResult
  rw [List.getLast?_cons_cons, List.getLast?_eq_getLast_of_ne_nil (List.cons_ne_nil o' rest)]
  dsimp only
  split <;> rfl

section PathResult

variable {bucket : KeyHash} {l l' : List Offset}

theorem pathResult_of_getLast? (h : l.getLast? = some o) :
    pathResult values bucket l =
      match linkOf values o with
      | .ok none => .ok l
      | .ok (some o') => .error (.corruption (.forwardLink o o' bucket))
      | .error e => .error (.store e) := by
  unfold pathResult
  rw [h]

theorem pathResult_eq_ok_iff :
    pathResult values bucket l = .ok l' ↔ l = l' ∧ ∀ o ∈ l.getLast?, EndsAt values o := by
  cases hlast : l.getLast? with
  | none => simp [pathResult, hlast]
  | some last =>
      rw [pathResult_of_getLast? hlast]
      simp only [Option.mem_some_iff, forall_eq', ← linkOf_eq_none_iff]
      cases linkOf values last with
      | error e => simp
      | ok x => cases x <;> simp

theorem pathResult_eq_forwardLink_iff {source target : Offset} :
    pathResult values bucket l = .error (.corruption (.forwardLink source target bucket)) ↔
      l.getLast? = some source ∧ LeadsTo values source target := by
  cases hlast : l.getLast? with
  | none => simp [pathResult, hlast]
  | some last =>
      have hsource : last = source ∧ LeadsTo values source target ↔
          last = source ∧ linkOf values last = .ok (some target) :=
        and_congr_right fun heq => heq ▸ linkOf_eq_some_iff.symm
      rw [pathResult_of_getLast? hlast, Option.some.injEq, hsource]
      cases linkOf values last with
      | error e => simp
      | ok x => cases x <;> simp

theorem pathResult_eq_store_iff {e : StoreError} :
    pathResult values bucket l = .error (.store e) ↔
      ∃ o, l.getLast? = some o ∧ linkOf values o = .error e := by
  cases hlast : l.getLast? with
  | none => simp [pathResult, hlast]
  | some last =>
      rw [pathResult_of_getLast? hlast]
      simp only [Option.some.injEq, exists_eq_left']
      cases linkOf values last with
      | error e' => simp
      | ok x => cases x <;> simp

theorem pathResult_eq_invalid_iff {v : AttributeValue} :
    pathResult values bucket l = .error (.store (.invalidAttributeValue (.backpointer o) v)) ↔
      l.getLast? = some o ∧ values (.backpointer o) = some v ∧ v.toInt < 0 ∧ v ≠ .absent := by
  rw [pathResult_eq_store_iff]
  constructor
  · intro h
    obtain ⟨last, hlast, hlink⟩ := h
    obtain ⟨v', hv', hneg, hne, he⟩ := decodeAttribute_eq_error_iff.mp hlink
    obtain ⟨hkey, rfl⟩ := StoreError.invalidAttributeValue.inj he
    obtain rfl := AttributeKey.backpointer.inj hkey
    exact ⟨hlast, hv', hneg, hne⟩
  · intro h
    obtain ⟨hlast, hv, hneg, hne⟩ := h
    exact ⟨o, hlast, decodeAttribute_eq_error_iff.mpr ⟨v, hv, hneg, hne, rfl⟩⟩

/-- There is nothing else to be said of a path. -/
theorem pathResult_cases (values : AttributeKey → Option AttributeValue) (bucket : KeyHash)
    (l : List Offset) :
    pathResult values bucket l = .ok l ∨
      (∃ source target,
        pathResult values bucket l = .error (.corruption (.forwardLink source target bucket))) ∨
      ∃ o v, pathResult values bucket l
        = .error (.store (.invalidAttributeValue (.backpointer o) v)) := by
  cases hlast : l.getLast? with
  | none => exact .inl (by rw [pathResult, hlast])
  | some last =>
      rw [pathResult_of_getLast? hlast]
      cases hlink : linkOf values last with
      | error e =>
          obtain ⟨v, _, _, _, rfl⟩ := decodeAttribute_eq_error_iff.mp hlink
          exact .inr (.inr ⟨last, v, rfl⟩)
      | ok x =>
          cases x with
          | none => exact .inl rfl
          | some older => exact .inr (.inl ⟨last, older, rfl⟩)

end PathResult

/-! ## The walk -/

namespace Attempt

variable {σ α : Type} {server : Program.Server σ} {within : σ → Prop} {s : σ}

/-- The read of one link. -/
def linkRead (o : Offset) : Call := .readAttributes [.backpointer o]

/-- **Reading one attribute**, and going on from what it holds. -/
theorem run_readOffset_bind (key : AttributeKey) (f : Option Offset → Attempt IndexError α) :
    (ofStore (readOffset key) >>= f).run = .call (.readAttributes [key]) fun
      | .error e => .done (.error (.store e))
      | .ok found =>
        match decodeAttribute key found[key]? with
        | .error e => .done (.error (.store e))
        | .ok x => (f x).run := by
  refine congrArg (Program.call _) (funext fun reply => ?_)
  cases reply with
  | error e => rfl
  | ok found =>
      show Program.bind (Program.bind (Program.bind
        (liftM (decodeAttribute _ _) : Attempt StoreError (Option Offset)) _) _) _ = _
      dsimp only
      cases decodeAttribute key found[key]? <;> rfl

theorem always_chainFrom (bucket : KeyHash) (newer : List Offset) (entry : Offset) :
    (chainFrom bucket newer entry).run.Always fun r => ∀ l, r = .ok l →
      ∃ below, l = newer.reverse ++ entry :: below ∧ Offset.Descending (entry :: below) := by
  -- a link that is followed leads down
  induction hn : entry.val using Nat.strong_induction_on generalizing entry newer with
  | h n ih =>
      subst hn
      rw [chainFrom, backpointerOffset, run_readOffset_bind]
      refine ⟨trivial, fun reply => ?_⟩
      cases reply with
      | error e => exact fun l hl => absurd hl (by simp)
      | ok found =>
          dsimp only
          cases decodeAttribute (.backpointer entry) found[AttributeKey.backpointer entry]? with
          | error e => exact fun l hl => absurd hl (by simp)
          | ok link =>
              cases link with
              | none =>
                  intro l hl
                  obtain rfl := Except.ok.inj hl
                  exact ⟨[], by simp, List.pairwise_singleton _ _⟩
              | some older =>
                  dsimp only
                  by_cases hlt : older < entry
                  · rw [if_pos hlt]
                    refine (ih older.val hlt (entry :: newer) older rfl).mono fun r hr l hl => ?_
                    obtain ⟨below, rfl, hdesc⟩ := hr l hl
                    exact ⟨older :: below, by simp, hdesc.cons hlt⟩
                  · rw [if_neg hlt]
                    exact fun l hl => absurd hl (by simp)

/-- **What the walk gives leads down**, whatever is replied. -/
theorem always_bucketOffsets (b : Bucket) :
    (bucketOffsets b).run.Always fun r => ∀ l, r = .ok l → Offset.Descending l := by
  obtain ⟨bucket, head⟩ := b
  cases head with
  | none =>
      intro l hl
      obtain rfl := Except.ok.inj hl
      exact .nil
  | some entry =>
      refine (always_chainFrom bucket [] entry).mono fun r hr l hl => ?_
      obtain ⟨below, rfl, hdesc⟩ := hr l hl
      exact hdesc

/-- The read of the last link of a path is answered with an error. -/
def FailsAt (server : Program.Server σ) (within : σ → Prop) (l : List Offset) (e : StoreError) :
    Prop :=
  ∃ o s, l.getLast? = some o ∧ within s ∧ (server (linkRead o) s).1 = .error e

/-- **The walk from an entry downwards** follows the path as far as it leads, unless a read
fails. -/
theorem chainFrom_spec (h : Program.Truthful server within values) (hs : within s)
    (bucket : KeyHash) (newer : List Offset) (entry : Offset) :
    ∃ l, IsPath values (some entry) l ∧
      (chainFrom bucket newer entry).run.calls server s = l.map linkRead ∧
      within ((chainFrom bucket newer entry).run.run server s).state ∧
      (IsStuck values l ∧ ((chainFrom bucket newer entry).run.run server s).value
          = some ((pathResult values bucket l).map (newer.reverse ++ ·)) ∨
        ∃ e, FailsAt server within l e ∧
          ((chainFrom bucket newer entry).run.run server s).value = some (.error (.store e))) := by
  -- a link that is followed leads down
  induction hn : entry.val using Nat.strong_induction_on generalizing entry newer s with
  | h n ih =>
      subst hn
      have hstays := h.stays [.backpointer entry] s hs
      have hone : IsPath values (some entry) [entry] := .singleton entry
      rw [chainFrom, backpointerOffset, run_readOffset_bind, Program.run_call, Program.calls]
      cases hreply : (server (.readAttributes [.backpointer entry]) s).1 with
      | error e =>
          exact ⟨[entry], hone, rfl, hstays, .inr ⟨e, ⟨entry, s, rfl, hs, hreply⟩, rfl⟩⟩
      | ok found =>
          obtain rfl := h.reply _ s found hs hreply
          dsimp only
          have hlink : decodeAttribute (.backpointer entry)
              (AttributeValues.select values [.backpointer entry])[AttributeKey.backpointer entry]?
                = linkOf values entry := by
            rw [AttributeValues.getElem?_select, if_pos List.mem_cons_self]
            rfl
          have hresult : pathResult values bucket [entry] = _ :=
            pathResult_of_getLast? List.getLast?_singleton
          rw [hlink]
          cases hread : linkOf values entry with
          | error e =>
              rw [hread] at hresult
              have hstuck : IsStuck values [entry] :=
                isStuck_singleton (by simp [← linkOf_eq_some_iff, hread])
              exact ⟨[entry], hone, rfl, hstays, .inl ⟨hstuck, by rw [hresult]; rfl⟩⟩
          | ok link =>
              rw [hread] at hresult
              cases link with
              | none =>
                  have hstuck : IsStuck values [entry] :=
                    isStuck_singleton (by simp [← linkOf_eq_some_iff, hread])
                  refine ⟨[entry], hone, rfl, hstays, .inl ⟨hstuck, ?_⟩⟩
                  rw [hresult, List.reverse_cons]
                  rfl
              | some older =>
                  have hleads : LeadsTo values entry older := linkOf_eq_some_iff.mp hread
                  dsimp only
                  by_cases hlt : older < entry
                  · rw [if_pos hlt]
                    obtain ⟨l, hpath, hcalls, hwithin, hend⟩ :=
                      ih older.val hlt hstays (entry :: newer) older rfl
                    obtain ⟨rest, rfl⟩ := List.head?_eq_some_iff.mp hpath.head
                    refine ⟨_, hpath.cons hleads hlt, by rw [hcalls]; rfl, hwithin, ?_⟩
                    rcases hend with ⟨hstuck, hvalue⟩ | ⟨e, ⟨o, s', ho, hs', hfails⟩, hvalue⟩
                    · refine .inl ⟨isStuck_cons_cons.mpr hstuck, ?_⟩
                      rw [hvalue, pathResult_cons]
                      cases pathResult values bucket (older :: rest) <;> simp [Except.map]
                    · have ho' : (entry :: older :: rest).getLast? = some o := by
                        rw [List.getLast?_cons_cons, ho]
                      exact .inr ⟨e, ⟨o, s', ho', hs', hfails⟩, hvalue⟩
                  · rw [if_neg hlt]
                    have hstuck : IsStuck values [entry] :=
                      isStuck_singleton fun o' hlt' hleads' => by
                        obtain rfl : older = o' := Option.some.inj (hleads.symm.trans hleads')
                        exact hlt hlt'
                    exact ⟨[entry], hone, rfl, hstays, .inl ⟨hstuck, by rw [hresult]; rfl⟩⟩

/-- **The walk through a bucket** follows the path of links from its head as far as it leads,
unless a read fails. -/
theorem bucketOffsets_spec (h : Program.Truthful server within values) (hs : within s)
    (b : Bucket) :
    ∃ l, IsPath values b.head l ∧ (bucketOffsets b).run.calls server s = l.map linkRead ∧
      within ((bucketOffsets b).run.run server s).state ∧
      (IsStuck values l ∧ ((bucketOffsets b).run.run server s).value
          = some (pathResult values b.hash l) ∨
        ∃ e, FailsAt server within l e ∧
          ((bucketOffsets b).run.run server s).value = some (.error (.store e))) := by
  obtain ⟨bucket, head⟩ := b
  cases head with
  | none => exact ⟨[], .nil, rfl, hs, .inl ⟨by simp [IsStuck], rfl⟩⟩
  | some entry =>
      obtain ⟨l, hpath, hcalls, hwithin, hend⟩ := chainFrom_spec h hs bucket [] entry
      refine ⟨l, hpath, hcalls, hwithin, hend.imp_left fun ⟨hstuck, hvalue⟩ => ⟨hstuck, ?_⟩⟩
      refine hvalue.trans ?_
      cases pathResult values bucket l <;> rfl

/-- What the walk gives is a whole path, though not every read need succeed. -/
theorem isWholePath_of_bucketOffsets (h : Program.Truthful server within values) (hs : within s)
    {b : Bucket} {l : List Offset}
    (hvalue : ((bucketOffsets b).run.run server s).value = some (.ok l)) :
    IsWholePath values b.head l := by
  obtain ⟨path, hpath, _, _, ⟨_, hend⟩ | ⟨e, _, hend⟩⟩ := bucketOffsets_spec h hs b
  · obtain ⟨rfl, hends⟩ := pathResult_eq_ok_iff.mp (Option.some.inj (hend.symm.trans hvalue))
    exact ⟨hpath, hends⟩
  · exact absurd (Option.some.inj (hend.symm.trans hvalue)) (by simp)

/-- If every read succeeds, the walk follows the path as far as it leads. -/
theorem bucketOffsets_of_shows (h : Program.Shows server within values) (hs : within s)
    (b : Bucket) :
    ∃ l, IsPath values b.head l ∧ IsStuck values l ∧
      ((bucketOffsets b).run.run server s).value = some (pathResult values b.hash l) ∧
      (bucketOffsets b).run.calls server s = l.map linkRead := by
  obtain ⟨l, hpath, hcalls, _, ⟨hstuck, hvalue⟩ | ⟨e, ⟨o, s', _, hs', hfails⟩, _⟩⟩ :=
    bucketOffsets_spec h.truthful hs b
  · exact ⟨l, hpath, hstuck, hvalue, hcalls⟩
  · have hreply := h.reply [.backpointer o] s' hs'
    exact absurd (hreply.symm.trans hfails) (by simp)

theorem bucketOffsets_of_isWholePath (h : Program.Shows server within values) (hs : within s)
    {b : Bucket} {l : List Offset} (hl : IsWholePath values b.head l) :
    ((bucketOffsets b).run.run server s).value = some (.ok l) := by
  obtain ⟨path, hpath, hstuck, hvalue, _⟩ := bucketOffsets_of_shows h hs b
  obtain rfl := hpath.eq_of_isStuck hl.toIsPath hstuck hl.isStuck
  rw [hvalue, pathResult_eq_ok_iff.mpr ⟨rfl, hl.ends⟩]

/-- **The walk through a bucket ends on all attributes, and reports what it finds.** It gives the
whole path of links if that leads down to an entry without one, and has read each of its links once.
Otherwise it says which link is the first that does not lead down, and where it leads, or what it
holds that stands for nothing. -/
theorem outcome_bucketOffsets (h : Program.Shows server within values) (hs : within s)
    (b : Bucket) :
    ∃ result, ((bucketOffsets b).run.run server s).value = some result ∧
      (∀ l, result = .ok l ↔ IsWholePath values b.head l) ∧
      (∀ l, result = .ok l → (bucketOffsets b).run.calls server s = l.map linkRead) ∧
      (∀ source target, result = .error (.corruption (.forwardLink source target b.hash)) ↔
        ∃ l, IsPath values b.head l ∧ l.getLast? = some source ∧
          LeadsTo values source target ∧ source ≤ target) ∧
      (∀ o v, result = .error (.store (.invalidAttributeValue (.backpointer o) v)) ↔
        ∃ l, IsPath values b.head l ∧ l.getLast? = some o ∧
          values (.backpointer o) = some v ∧ v.toInt < 0 ∧ v ≠ .absent) ∧
      ((∃ l, result = .ok l) ∨
        (∃ source target, result = .error (.corruption (.forwardLink source target b.hash))) ∨
        ∃ o v, result = .error (.store (.invalidAttributeValue (.backpointer o) v))) ∧
      ((bucketOffsets b).run.calls server s).length ≤ b.head.elim 0 (·.val + 1) := by
  obtain ⟨path, hpath, hstuck, hvalue, hcalls⟩ := bucketOffsets_of_shows h hs b
  -- any other path that cannot be followed further is the same one
  have hsame : ∀ l, IsPath values b.head l → IsStuck values l → path = l := fun l hl hl' =>
    hpath.eq_of_isStuck hl hstuck hl'
  refine ⟨_, hvalue, fun l => ?_, fun l hl => ?_, fun source target => ?_, fun o v => ?_, ?_, ?_⟩
  · rw [pathResult_eq_ok_iff]
    constructor
    · intro hl
      obtain ⟨rfl, hends⟩ := hl
      exact ⟨hpath, hends⟩
    · intro hl
      obtain rfl := hsame l hl.toIsPath hl.isStuck
      exact ⟨rfl, hl.ends⟩
  · rw [hcalls, (pathResult_eq_ok_iff.mp hl).1]
  · rw [pathResult_eq_forwardLink_iff]
    constructor
    · intro hlast
      obtain ⟨hlast, hlink⟩ := hlast
      exact ⟨path, hpath, hlast, hlink, hstuck source hlast target hlink⟩
    · intro hl
      obtain ⟨l, hl, hlast, hlink, hle⟩ := hl
      obtain rfl := hsame l hl (isStuck_of_getLast? hlast fun o' hlink' => by
        rwa [← Option.some.inj (hlink.symm.trans hlink')])
      exact ⟨hlast, hlink⟩
  · rw [pathResult_eq_invalid_iff]
    constructor
    · intro hlast
      exact ⟨path, hpath, hlast⟩
    · intro hl
      obtain ⟨l, hl, hlast, hv, hneg, hne⟩ := hl
      obtain rfl := hsame l hl (isStuck_of_getLast? hlast fun o' hlink => by
        rw [LeadsTo, hv, Option.bind_some, Offset.ofValue?_eq_none_iff.mpr hneg] at hlink
        exact absurd hlink (by simp))
      exact ⟨hlast, hv, hneg, hne⟩
  · rcases pathResult_cases values b.hash path with hok | herror
    · exact .inl ⟨path, hok⟩
    · exact .inr herror
  · rw [hcalls, List.length_map]
    cases hhead : b.head with
    | none => simp [List.head?_eq_none_iff.mp (hpath.head.trans hhead)]
    | some o =>
        rw [hhead] at hpath
        exact hpath.length_le

/-- A segment that answers shows its attributes. -/
theorem shows_serve (a : Attributes) : Program.Shows Segment.serve (·.Answers a) a.get? where
  reply keys _ hs := hs.reply keys
  stays keys _ hs := hs.stays keys

/-- A segment with a way down from 40 to 20, from where one turns in a circle. -/
def tangledSegment : Segment :=
  { Segment.fresh 1 with
    attributes := ((Attributes.set ∅ (.backpointer (.clamp 40)) (some (.clamp 20))).set
      (.backpointer (.clamp 20)) (some (.clamp 30))).set
      (.backpointer (.clamp 30)) (some (.clamp 20)) }

/-- The walk stops where the circle is entered. -/
theorem outcome_bucketOffsets_tangled :
    tangledSegment.Answers tangledSegment.attributes ∧
    ((bucketOffsets ⟨⟨1⟩, some (.clamp 40)⟩).run.run Segment.serve tangledSegment).value
      = some (.error (.corruption (.forwardLink (.clamp 20) (.clamp 30) ⟨1⟩))) := by
  have hanswers : tangledSegment.Answers tangledSegment.attributes := ⟨rfl, rfl⟩
  obtain ⟨result, hvalue, _, _, hforward, _⟩ := outcome_bucketOffsets
    (shows_serve tangledSegment.attributes) hanswers ⟨⟨1⟩, some (.clamp 40)⟩
  have hpath : IsPath tangledSegment.attributes.get? (some (.clamp 40)) [.clamp 40, .clamp 20] :=
    (IsPath.singleton _).cons (by unfold LeadsTo; decide +kernel) (by decide)
  rw [hvalue, (hforward (.clamp 20) (.clamp 30)).mpr
    ⟨_, hpath, rfl, by unfold LeadsTo; decide +kernel, by decide⟩]
  exact ⟨hanswers, rfl⟩

end Attempt

end SegmentIndex
