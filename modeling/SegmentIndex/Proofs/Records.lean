import Mathlib.Data.List.Induction
import SegmentIndex.Proofs.BucketUpdate

/-!
# Keys that are recorded more than once

A bucket update is told of indexed keys one record at a time, and may be told of the same key again
and again. What it knows in the end is the newest entry that its records have for each key
(`NewestEntry`), so neither the order of the records nor their repetition matters.

Where equally new records may differ, the first of them counts (`IsNewestOf`).
-/

namespace SegmentIndex

/-! ## The newest of several -/

section Newest

variable {α κ : Type} {subject : α → κ} {offset : α → Offset} {l l' : List α} {a x : α}

/-- The newest of all that concern its subject, and of equally new ones the first. -/
def IsNewestOf (subject : α → κ) (offset : α → Offset) (l : List α) (a : α) : Prop :=
  ∃ before after, l = before ++ a :: after ∧
    (∀ x ∈ before, subject x = subject a → offset x < offset a) ∧
    ∀ x ∈ after, subject x = subject a → offset x ≤ offset a

namespace IsNewestOf

theorem mem (h : IsNewestOf subject offset l a) : a ∈ l := by
  obtain ⟨before, after, rfl, _⟩ := h
  exact List.mem_append_right _ List.mem_cons_self

theorem le (h : IsNewestOf subject offset l a) (hx : x ∈ l) (hsubject : subject x = subject a) :
    offset x ≤ offset a := by
  obtain ⟨before, after, rfl, hbefore, hafter⟩ := h
  rcases List.mem_append.mp hx with hx | hx
  · exact le_of_lt (hbefore x hx hsubject)
  · rcases List.mem_cons.mp hx with rfl | hx
    · exact le_refl _
    · exact hafter x hx hsubject

theorem concat_iff :
    IsNewestOf subject offset (l ++ [x]) a ↔
      (x = a ∧ ∀ y ∈ l, subject y = subject a → offset y < offset a) ∨
        IsNewestOf subject offset l a ∧ (subject x = subject a → offset x ≤ offset a) := by
  constructor
  · intro ⟨before, after, heq, hbefore, hafter⟩
    rcases List.eq_nil_or_concat after with rfl | ⟨after, last, rfl⟩
    · obtain ⟨rfl, rfl⟩ := List.append_singleton_inj.mp heq
      exact .inl ⟨rfl, hbefore⟩
    · rw [List.concat_eq_append, ← List.cons_append, ← List.append_assoc] at heq
      obtain ⟨rfl, rfl⟩ := List.append_singleton_inj.mp heq
      exact .inr ⟨⟨before, after, rfl, hbefore, fun y hy => hafter y (by simp [hy])⟩,
        hafter x (by simp)⟩
  · rintro (⟨rfl, hbefore⟩ | ⟨⟨before, after, rfl, hbefore, hafter⟩, hx⟩)
    · exact ⟨l, [], rfl, hbefore, by simp⟩
    · refine ⟨before, after ++ [x], by simp, hbefore, fun y hy => ?_⟩
      rcases List.mem_append.mp hy with hy | hy
      · exact hafter y hy
      · rw [List.mem_singleton.mp hy]
        exact hx

theorem exists_concat (h : IsNewestOf subject offset l a) (x : α) :
    ∃ b, IsNewestOf subject offset (l ++ [x]) b ∧ subject b = subject a := by
  by_cases hnew : subject x = subject a ∧ offset a < offset x
  · obtain ⟨hsubject, hlt⟩ := hnew
    refine ⟨x, concat_iff.mpr (.inl ⟨rfl, fun y hy hyx => ?_⟩), hsubject⟩
    exact lt_of_le_of_lt (h.le hy (hyx.trans hsubject)) hlt
  · have hle : subject x = subject a → offset x ≤ offset a := fun hsubject =>
      not_lt.mp fun hlt => hnew ⟨hsubject, hlt⟩
    exact ⟨a, concat_iff.mpr (.inr ⟨h, hle⟩), rfl⟩

/-- **On every subject there is a newest one.** -/
theorem exists_of_mem (subject : α → κ) (offset : α → Offset) (hx : x ∈ l) :
    ∃ a, IsNewestOf subject offset l a ∧ subject a = subject x := by
  induction l using List.reverseRecOn generalizing x with
  | nil => exact absurd hx List.not_mem_nil
  | append_singleton l last ih =>
      by_cases hearlier : ∃ y ∈ l, subject y = subject x
      · obtain ⟨y, hy, hyx⟩ := hearlier
        obtain ⟨a, ha, hay⟩ := ih hy
        obtain ⟨b, hb, hba⟩ := ha.exists_concat last
        exact ⟨b, hb, hba.trans (hay.trans hyx)⟩
      · rcases List.mem_append.mp hx with hx | hx
        · exact absurd ⟨x, hx, rfl⟩ hearlier
        · obtain rfl := List.mem_singleton.mp hx
          refine ⟨x, concat_iff.mpr (.inl ⟨rfl, fun y hy hyx => ?_⟩), rfl⟩
          exact absurd ⟨y, hy, hyx⟩ hearlier

/-- **Neither the order nor older ones make a difference**, if equally new ones on one subject are
the same. -/
theorem of_subset (h : IsNewestOf subject offset l a)
    (hsame : ∀ x ∈ l, ∀ y ∈ l, subject x = subject y → offset x = offset y → x = y)
    (hall : l ⊆ l')
    (holder : ∀ x ∈ l', x ∈ l ∨ ∃ y ∈ l, subject x = subject y ∧ offset x < offset y) :
    IsNewestOf subject offset l' a := by
  obtain ⟨before, after, rfl, hfirst⟩ := List.eq_append_cons_of_mem (hall h.mem)
  have hle : ∀ x ∈ before ++ a :: after, subject x = subject a →
      offset x ≤ offset a ∧ (offset x = offset a → x = a) := by
    intro x hx hxa
    rcases holder x hx with hx | ⟨y, hy, hxy, hlt⟩
    · exact ⟨h.le hx hxa, hsame x hx a h.mem hxa⟩
    · have hlt := lt_of_lt_of_le hlt (h.le hy (hxy.symm.trans hxa))
      exact ⟨le_of_lt hlt, fun heq => absurd heq (ne_of_lt hlt)⟩
  refine ⟨before, after, rfl, fun x hx hxa => ?_, fun x hx hxa => ?_⟩
  · -- this is the first place of `a`
    obtain ⟨hle, heq⟩ := hle x (List.mem_append_left _ hx) hxa
    exact lt_of_le_of_ne hle fun hoffset => hfirst (heq hoffset ▸ hx)
  · exact (hle x (List.mem_append_right _ (List.mem_cons_of_mem _ hx)) hxa).1

end IsNewestOf

end Newest

/-! ## Records of entries -/

variable {records records' : List KeyInfo} {key : TableKey} {x y : Option Offset}

/-- The newest entry that some records have for a key, if they have one. -/
def NewestEntry (records : List KeyInfo) (key : TableKey) : Option Offset → Prop
  | none => ∀ info ∈ records, info.key ≠ key
  | some o => ⟨key, o⟩ ∈ records ∧ ∀ info ∈ records, info.key = key → info.offset ≤ o

namespace NewestEntry

/-- **Records have one newest entry for each key.** -/
theorem unique (hx : NewestEntry records key x) (hy : NewestEntry records key y) : x = y := by
  cases x with
  | none =>
      cases y with
      | none => rfl
      | some o => exact absurd rfl (hx _ hy.1)
  | some o =>
      cases y with
      | none => exact absurd rfl (hy _ hx.1)
      | some o' => exact congrArg some (le_antisymm (hy.2 _ hx.1 rfl) (hx.2 _ hy.1 rfl))

/-- It depends only on what has been recorded, not when, nor how often. -/
theorem congr (h : NewestEntry records key x) (hmem : ∀ info, info ∈ records ↔ info ∈ records') :
    NewestEntry records' key x := by
  cases x with
  | none => exact fun info hinfo => h info ((hmem info).mpr hinfo)
  | some o =>
      exact ⟨(hmem _).mp h.1, fun info hinfo => h.2 info ((hmem info).mpr hinfo)⟩

section Concat

variable {info : KeyInfo} {o : Offset}

theorem concat_of_ne (h : NewestEntry records key x) (hkey : info.key ≠ key) :
    NewestEntry (records ++ [info]) key x := by
  cases x with
  | none =>
      intro other hother
      rcases List.mem_append.mp hother with hother | hother
      · exact h other hother
      · rwa [List.mem_singleton.mp hother]
  | some o =>
      refine ⟨List.mem_append_left _ h.1, fun other hother hsame => ?_⟩
      rcases List.mem_append.mp hother with hother | hother
      · exact h.2 other hother hsame
      · exact absurd (List.mem_singleton.mp hother ▸ hsame) hkey

theorem concat_self (h : ∀ other ∈ records, other.key = info.key → other.offset ≤ info.offset) :
    NewestEntry (records ++ [info]) info.key (some info.offset) := by
  refine ⟨List.mem_append_right _ List.mem_cons_self, fun other hother hsame => ?_⟩
  rcases List.mem_append.mp hother with hother | hother
  · exact h other hother hsame
  · rw [List.mem_singleton.mp hother]

theorem concat_of_le (h : NewestEntry records info.key (some o)) (hle : info.offset ≤ o) :
    NewestEntry (records ++ [info]) info.key (some o) := by
  refine ⟨List.mem_append_left _ h.1, fun other hother hsame => ?_⟩
  rcases List.mem_append.mp hother with hother | hother
  · exact h.2 other hother hsame
  · rwa [List.mem_singleton.mp hother]

end Concat

end NewestEntry

namespace BucketUpdate

variable {u : BucketUpdate} {info : KeyInfo}

open NewestEntry

theorem getElem?_existing_withExistingKey (u : BucketUpdate) (info : KeyInfo) (key : TableKey) :
    (u.withExistingKey info).existing[key]?
      = if info.key = key ∧ u.existing[key]?.all (· < info.offset) then some info.offset
        else u.existing[key]? := by
  unfold withExistingKey
  by_cases hnew : u.existing[info.key]?.all (· < info.offset)
  · rw [if_pos hnew, Maps.getElem?_insert]
    by_cases hkey : info.key = key
    · subst hkey
      rw [if_pos rfl, if_pos ⟨rfl, hnew⟩]
    · rw [if_neg hkey, if_neg fun h => hkey h.1]
  · rw [if_neg hnew, if_neg]
    intro hcond
    obtain ⟨rfl, h⟩ := hcond
    exact hnew h

@[simp] theorem bucket_withExistingKey (u : BucketUpdate) (info : KeyInfo) :
    (u.withExistingKey info).bucket = u.bucket := by
  unfold withExistingKey
  split <;> rfl

@[simp] theorem changes_withExistingKey (u : BucketUpdate) (info : KeyInfo) :
    (u.withExistingKey info).changes = u.changes := by
  unfold withExistingKey
  split <;> rfl

/-- A record that says nothing newer leaves the update as it is. -/
theorem withExistingKey_of_le {o : Offset} (h : u.existing[info.key]? = some o)
    (hle : info.offset ≤ o) : u.withExistingKey info = u := by
  unfold withExistingKey
  rw [h, Option.all_some, if_neg]
  simpa using hle

/-- After a record, the key is known at an entry that is no older. -/
theorem exists_le_of_withExistingKey (u : BucketUpdate) (info : KeyInfo) :
    ∃ o, (u.withExistingKey info).existing[info.key]? = some o ∧ info.offset ≤ o := by
  rw [getElem?_existing_withExistingKey]
  cases h : u.existing[info.key]? with
  | none => exact ⟨info.offset, by simp, le_refl _⟩
  | some o =>
      by_cases hlt : o < info.offset
      · exact ⟨info.offset, by simp [hlt], le_refl _⟩
      · exact ⟨o, by simp [hlt], not_lt.mp hlt⟩

theorem newestEntry_withExistingKey (h : NewestEntry records key u.existing[key]?)
    (info : KeyInfo) :
    NewestEntry (records ++ [info]) key (u.withExistingKey info).existing[key]? := by
  rw [getElem?_existing_withExistingKey]
  by_cases hkey : info.key = key
  · subst hkey
    cases hx : u.existing[info.key]? with
    | none =>
        rw [hx] at h
        have hself := concat_self fun other hother hsame => absurd hsame (h other hother)
        simpa using hself
    | some o =>
        rw [hx] at h
        by_cases hlt : o < info.offset
        · have hself := concat_self fun other hother hsame =>
            le_trans (h.2 other hother hsame) (le_of_lt hlt)
          simpa [hlt] using hself
        · simpa [hlt] using h.concat_of_le (not_lt.mp hlt)
  · rw [if_neg fun h => hkey h.1]
    exact h.concat_of_ne hkey

/-- **After all records** the update knows the newest entry for each key. -/
theorem newestEntry_foldl (h : ∀ key, NewestEntry records key u.existing[key]?)
    (more : List KeyInfo) (key : TableKey) :
    NewestEntry (records ++ more) key (more.foldl withExistingKey u).existing[key]? := by
  induction more generalizing u records with
  | nil =>
      rw [List.append_nil]
      exact h key
  | cons info rest ih =>
      rw [← List.singleton_append, ← List.append_assoc]
      exact ih fun key => newestEntry_withExistingKey (h key) info

theorem bucket_foldl_withExistingKey (u : BucketUpdate) (records : List KeyInfo) :
    (records.foldl withExistingKey u).bucket = u.bucket := by
  induction records generalizing u with
  | nil => rfl
  | cons info rest ih => rw [List.foldl_cons, ih, bucket_withExistingKey]

theorem changes_foldl_withExistingKey (u : BucketUpdate) (records : List KeyInfo) :
    (records.foldl withExistingKey u).changes = u.changes := by
  induction records generalizing u with
  | nil => rfl
  | cons info rest ih => rw [List.foldl_cons, ih, changes_withExistingKey]

/-- What an update knows could have been recorded just so. -/
theorem newestEntry_existingKeys (u : BucketUpdate) (key : TableKey) :
    NewestEntry u.existingKeys key u.existing[key]? := by
  cases h : u.existing[key]? with
  | none =>
      intro info hinfo hkey
      rw [mem_existingKeys, hkey, h] at hinfo
      exact absurd hinfo (by simp)
  | some o =>
      refine ⟨mem_existingKeys.mpr h, fun info hinfo hkey => ?_⟩
      rw [mem_existingKeys, hkey, h] at hinfo
      exact le_of_eq (Option.some.inj hinfo).symm

/-- **An update is determined** by its bucket, its changes and the records of its keys. -/
theorem eq_of_newestEntry {v : BucketUpdate} (hbucket : u.bucket = v.bucket)
    (hchanges : u.changes = v.changes)
    (hu : ∀ key, NewestEntry records key u.existing[key]?)
    (hv : ∀ key, NewestEntry records key v.existing[key]?) : u = v :=
  eq_of_getElem? hbucket (fun key => (hu key).unique (hv key)) fun key => by rw [hchanges]

theorem newestEntry_of_existing_eq_empty (h : u.existing = ∅) (key : TableKey) :
    NewestEntry [] key u.existing[key]? := by
  rw [h, Std.ExtTreeMap.getElem?_empty]
  exact fun info hinfo => absurd hinfo (by simp)

/-- What an update has been told before makes no difference if it is told again. -/
theorem foldl_withExistingKey_eq {v : BucketUpdate} (hbucket : v.bucket = u.bucket)
    (hchanges : v.changes = u.changes) (hempty : u.existing = ∅)
    (hknown : ∀ info ∈ v.existingKeys, info ∈ records) :
    records.foldl withExistingKey v = records.foldl withExistingKey u := by
  have hv := newestEntry_foldl v.newestEntry_existingKeys records
  have hu := newestEntry_foldl (newestEntry_of_existing_eq_empty hempty) records
  have hmem : ∀ info, info ∈ v.existingKeys ++ records ↔ info ∈ records := fun info => by
    rw [List.mem_append]
    exact or_iff_right_of_imp (hknown info)
  refine eq_of_newestEntry ?_ ?_ (fun key => (hv key).congr hmem) hu
  · rw [bucket_foldl_withExistingKey, bucket_foldl_withExistingKey, hbucket]
  · rw [changes_foldl_withExistingKey, changes_foldl_withExistingKey, hchanges]

end BucketUpdate

end SegmentIndex
