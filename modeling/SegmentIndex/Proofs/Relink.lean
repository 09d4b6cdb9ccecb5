import SegmentIndex.Plan
import SegmentIndex.Proofs.Attributes
import SegmentIndex.Proofs.BucketUpdate
import SegmentIndex.Proofs.Chain

/-!
# Relinking writes exactly the links that change

A chain is a list of entries, newest first, and the link of an entry leads to the one after it
(`nextOlder`). The mutations for a bucket turn the links of the old chain into those of the new one:
an entry whose link leads elsewhere afterwards gets one write, which says where, and no other entry
gets any (`BucketUpdate.writesTo_linkMutations`).

The walk goes up from the oldest entry. What carries the induction is the part of both chains that
lies below: it says what the old link of the next entry is, and what its new one will be.
-/

namespace SegmentIndex

open Attributes

/-! ## The shape of the mutations -/

theorem relinkChain_cons (below : Option Bool) (kept : Option Offset) (entry : Offset)
    (replaced : Bool) (rest : List (Offset × Bool)) :
    relinkChain below kept ((entry, replaced) :: rest)
      = entryWrites below kept entry replaced
        ++ relinkChain (some replaced) (if replaced then kept else some entry) rest := rfl

theorem mem_entryWrites {below : Option Bool} {kept : Option Offset} {entry : Offset}
    {replaced : Bool} {m : Mutation} (h : m ∈ entryWrites below kept entry replaced) :
    ∃ older, m = relink entry older := by
  unfold entryWrites at h
  split at h
  · exact absurd h (by simp)
  · exact ⟨none, List.mem_singleton.mp h⟩
  · exact ⟨kept, List.mem_singleton.mp h⟩
  · exact absurd h (by simp)

theorem mem_relinkChain {below : Option Bool} {kept : Option Offset} {l : List (Offset × Bool)}
    {m : Mutation} (h : m ∈ relinkChain below kept l) :
    ∃ o ∈ l.map (·.1), ∃ older, m = relink o older := by
  induction l generalizing below kept with
  | nil => exact absurd h (by simp [relinkChain])
  | cons p rest ih =>
      obtain ⟨entry, replaced⟩ := p
      rw [relinkChain_cons] at h
      rcases List.mem_append.mp h with h | h
      · exact ⟨entry, List.mem_cons_self, mem_entryWrites h⟩
      · obtain ⟨o, ho, hm⟩ := ih h
        exact ⟨o, List.mem_cons_of_mem _ ho, hm⟩

theorem mem_linkNew {older : Option Offset} {l : List Offset} {m : Mutation}
    (h : m ∈ linkNew older l) : ∃ o ∈ l, ∃ older, m = relink o older := by
  induction l generalizing older with
  | nil => cases older <;> exact absurd h (by simp [linkNew])
  | cons entry rest ih =>
      cases older with
      | none =>
          obtain ⟨o, ho, hm⟩ := ih h
          exact ⟨o, List.mem_cons_of_mem _ ho, hm⟩
      | some below =>
          rw [linkNew] at h
          rcases List.mem_cons.mp h with h | h
          · exact ⟨entry, List.mem_cons_self, some below, h⟩
          · obtain ⟨o, ho, hm⟩ := ih h
            exact ⟨o, List.mem_cons_of_mem _ ho, hm⟩

theorem writesTo_relinkChain_of_not_mem {below : Option Bool} {kept : Option Offset}
    {l : List (Offset × Bool)} {o : Offset} (h : o ∉ l.map (·.1)) :
    writesTo (relinkChain below kept l) (.backpointer o) = [] := by
  refine writesTo_eq_nil fun m hm => ?_
  obtain ⟨o', ho', older, rfl⟩ := mem_relinkChain hm
  exact fun heq => h (AttributeKey.backpointer.inj heq ▸ ho')

theorem writesTo_linkNew_of_not_mem {older : Option Offset} {l : List Offset} {o : Offset}
    (h : o ∉ l) : writesTo (linkNew older l) (.backpointer o) = [] := by
  refine writesTo_eq_nil fun m hm => ?_
  obtain ⟨o', ho', older', rfl⟩ := mem_linkNew hm
  exact fun heq => h (AttributeKey.backpointer.inj heq ▸ ho')

theorem writesTo_relink (o o' : Offset) (older : Option Offset) :
    writesTo [relink o older] (.backpointer o') = if o = o' then [relink o older] else [] := by
  unfold writesTo relink Mutation.replace
  simp only [List.filter_cons, List.filter_nil, AttributeKey.backpointer.injEq, decide_eq_true_eq]

/-! ## Up the chain -/

/-- What the walk knows of the entries below it: the marks of `below` and the offset `kept` are read
off the top of the old chain and of the kept one. -/
inductive Below : Option Bool → Option Offset → List Offset → List Offset → Prop where
  | nothing : Below none none [] []
  | kept {top : Offset} {old keeps : List Offset} :
      Below (some false) (some top) (top :: old) (top :: keeps)
  | replaced {top : Offset} {old keeps : List Offset} :
      top ∉ keeps → Below (some true) keeps.head? (top :: old) keeps

/-- The link of the next entry is written exactly if it changes. -/
theorem Below.writesTo_entry {below : Option Bool} {kept : Option Offset} {old keeps : List Offset}
    (h : Below below kept old keeps) (entry : Offset) (replaced : Bool) :
    writesTo (entryWrites below kept entry replaced) (.backpointer entry)
      = (let link := if replaced then none else keeps.head?
        if old.head? = link then [] else [relink entry link]) := by
  cases h with
  | nothing => cases replaced <;> rfl
  | kept =>
      cases replaced
      · simp [entryWrites, writesTo]
      · simp [entryWrites, writesTo_relink]
  | replaced hnot =>
      cases replaced
      · have : some _ ≠ keeps.head? := fun heq => hnot (List.mem_of_head? heq.symm)
        simp [entryWrites, writesTo_relink, this]
      · simp [entryWrites, writesTo_relink]

/-- **What the walk writes.** An entry of the chain gets a write exactly if its link changes, and
the write says where it leads. -/
theorem writesTo_relinkChain {below : Option Bool} {kept : Option Offset} {old keeps : List Offset}
    (hb : Below below kept old keeps) (hsub : ∀ o ∈ keeps, o ∈ old) {l : List (Offset × Bool)}
    (hl : (l.map (·.1) ++ old).Nodup) {o : Offset} (ho : o ∈ l.map (·.1)) :
    writesTo (relinkChain below kept l) (.backpointer o)
      = (let link := nextOlder (((l.filter (!·.2)).map (·.1)).reverse ++ keeps) o
        if nextOlder ((l.map (·.1)).reverse ++ old) o = link then [] else [relink o link]) := by
  -- up the chain: what has been passed joins the part below, with what is kept of it
  induction l generalizing below kept old keeps with
  | nil => exact absurd ho (by simp)
  | cons p rest ih =>
      obtain ⟨entry, replaced⟩ := p
      rw [List.map_cons, List.cons_append, List.nodup_cons, List.mem_append, not_or] at hl
      obtain ⟨⟨hentry, hold⟩, hl⟩ := hl
      have hkeeps : entry ∉ keeps := fun h => hold (hsub entry h)
      have hfilter : entry ∉ ((rest.filter (!·.2)).map (·.1)).reverse := fun h => by
        rw [List.mem_reverse, List.mem_map] at h
        obtain ⟨q, hq, hqe⟩ := h
        exact hentry (List.mem_map.mpr ⟨q, (List.mem_filter.mp hq).1, hqe⟩)
      have hrev : entry ∉ (rest.map (·.1)).reverse := fun h => hentry (List.mem_reverse.mp h)
      rw [relinkChain_cons, writesTo_append, List.map_cons, List.reverse_cons, List.append_assoc,
        List.singleton_append]
      by_cases hoe : o = entry
      · -- the entry itself: nothing further up writes it
        subst hoe
        rw [writesTo_relinkChain_of_not_mem hentry, List.append_nil, hb.writesTo_entry,
          nextOlder_append_cons hrev]
        cases replaced with
        | true => simp [nextOlder_append hfilter, nextOlder_eq_none hkeeps]
        | false => simp [nextOlder_append_cons hfilter]
      · have hrest : o ∈ rest.map (·.1) := (List.mem_cons.mp ho).resolve_left hoe
        have hnil : writesTo (entryWrites below kept entry replaced) (.backpointer o) = [] := by
          refine writesTo_eq_nil fun m hm heq => hoe ?_
          obtain ⟨older, rfl⟩ := mem_entryWrites hm
          exact (AttributeKey.backpointer.inj heq).symm
        have hnodup : (rest.map (·.1) ++ entry :: old).Nodup :=
          (List.perm_middle.nodup_iff).mpr (List.nodup_cons.mpr
            ⟨fun h => (List.mem_append.mp h).elim hentry hold, hl⟩)
        rw [hnil, List.nil_append]
        cases replaced with
        | true =>
            rw [if_pos rfl]
            have hb' : Below (some true) kept (entry :: old) keeps := by
              have hkept : kept = keeps.head? := by cases hb <;> rfl
              rw [hkept]
              exact .replaced hkeeps
            exact ih hb' (fun x hx => List.mem_cons_of_mem _ (hsub x hx)) hnodup hrest
        | false =>
            rw [if_neg (by simp)]
            have hb' : Below (some false) (some entry) (entry :: old) (entry :: keeps) := .kept
            have hsub' : ∀ x ∈ entry :: keeps, x ∈ entry :: old := by
              intro x hx
              rcases List.mem_cons.mp hx with rfl | hx
              · exact List.mem_cons_self
              · exact List.mem_cons_of_mem _ (hsub x hx)
            rw [ih hb' hsub' hnodup hrest]
            simp

/-- **What linking new entries writes**: their links, except that the first entry of a chain needs
none. -/
theorem writesTo_linkNew {kept : Option Offset} {keeps : List Offset} (hkept : kept = keeps.head?)
    {l : List Offset} (hl : l.Nodup) {o : Offset} (ho : o ∈ l) :
    writesTo (linkNew kept l) (.backpointer o)
      = (let link := nextOlder (l.reverse ++ keeps) o
        if none = link then [] else [relink o link]) := by
  -- every new entry that has been passed is kept
  induction l generalizing kept keeps with
  | nil => exact absurd ho (by simp)
  | cons entry rest ih =>
      obtain ⟨hentry, hrest⟩ := List.nodup_cons.mp hl
      have hrev : entry ∉ rest.reverse := fun h => hentry (List.mem_reverse.mp h)
      rw [List.reverse_cons, List.append_assoc, List.singleton_append]
      have hsplit : writesTo (linkNew kept (entry :: rest)) (.backpointer o)
          = (if entry = o ∧ kept ≠ none then [relink entry kept] else [])
            ++ writesTo (linkNew (some entry) rest) (.backpointer o) := by
        cases kept with
        | none => simp [linkNew]
        | some below =>
            rw [linkNew, ← List.singleton_append, writesTo_append, writesTo_relink]
            simp
      rw [hsplit]
      by_cases hoe : entry = o
      · subst hoe
        rw [writesTo_linkNew_of_not_mem hentry, List.append_nil, nextOlder_append_cons hrev, hkept]
        cases keeps.head? <;> simp
      · have ho : o ∈ rest := (List.mem_cons.mp ho).resolve_left fun h => hoe h.symm
        rw [if_neg fun h => hoe h.1, List.nil_append]
        exact ih rfl hrest ho

/-! ## One bucket -/

namespace BucketUpdate

variable {u : BucketUpdate}

theorem newestKept_eq_head? (u : BucketUpdate) : u.newestKept = u.keptChain.head? := by
  unfold newestKept keptChain
  rw [List.head?_reverse, List.getLast?_map]

/-- **Relinking writes exactly the links that change**, each of them once. -/
theorem writesTo_linkMutations (h : u.Layered) (o : Offset) :
    writesTo u.linkMutations (.backpointer o)
      = if nextOlder u.oldChain o = nextOlder u.newChain o then []
        else [relink o (nextOlder u.newChain o)] := by
  have hnew : (u.survivingByOffset.map (·.offset)).Nodup :=
    (List.pairwise_map.mpr h.pairwise_survivingByOffset).imp ne_of_lt
  have hold : (u.markedChain.map (·.1)).Nodup := List.nodup_reverse.mp h.descending_oldChain.nodup
  have hdisjoint : ∀ {o}, o ∈ u.survivingByOffset.map (·.offset) → o ∉ u.oldChain := by
    intro o ho hmem
    obtain ⟨update, hupdate, rfl⟩ := List.mem_map.mp ho
    obtain ⟨k, hk⟩ := mem_oldChain.mp hmem
    exact lt_irrefl _ (h.above hk (mem_survivingByOffset.mp hupdate).1)
  unfold linkMutations
  rw [writesTo_append]
  by_cases hn : o ∈ u.survivingByOffset.map (·.offset)
  · -- a new entry had no link before
    have hmarked : o ∉ u.markedChain.map (·.1) := fun hm => hdisjoint hn (List.mem_reverse.mpr hm)
    rw [writesTo_linkNew u.newestKept_eq_head? hnew hn, writesTo_relinkChain_of_not_mem hmarked,
      List.nil_append, nextOlder_eq_none (hdisjoint hn)]
    rfl
  · have hlink : nextOlder u.newChain o = nextOlder u.keptChain o :=
      nextOlder_append fun hm => hn (List.mem_reverse.mp hm)
    rw [writesTo_linkNew_of_not_mem hn, List.append_nil, hlink]
    by_cases ho : o ∈ u.markedChain.map (·.1)
    · have := writesTo_relinkChain .nothing (by simp) (by rwa [List.append_nil]) ho
      rwa [List.append_nil, List.append_nil] at this
    · have hkept : o ∉ u.keptChain := fun hm => by
        obtain ⟨p, hp, rfl⟩ := List.mem_map.mp (List.mem_reverse.mp hm)
        exact ho (List.mem_map_of_mem (List.mem_filter.mp hp).1)
      have hold' : o ∉ u.oldChain := fun hm => ho (List.mem_reverse.mp hm)
      rw [writesTo_relinkChain_of_not_mem ho, nextOlder_eq_none hkept, nextOlder_eq_none hold',
        if_pos rfl]

theorem lastWrite_linkMutations (h : u.Layered) (o : Offset) :
    lastWrite u.linkMutations (.backpointer o)
      = if nextOlder u.oldChain o = nextOlder u.newChain o then none
        else some (nextOlder u.newChain o) := by
  rw [← lastWrite_writesTo, writesTo_linkMutations h]
  split
  · rfl
  · exact if_pos rfl

/-- What the mutations for a bucket are, if there is nothing wrong with it. -/
def writes (u : BucketUpdate) : List Mutation :=
  if u.hasUpdates then u.linkMutations ++ [.replace (.bucket u.bucket.hash) u.newest] else []

theorem mutations_eq_ok (h : u.isConsistent) : u.mutations = .ok u.writes := by
  unfold mutations writes
  rw [h]
  cases u.hasUpdates <;> rfl

theorem eq_writes_of_mutations {ms : List Mutation} (h : u.mutations = .ok ms) : ms = u.writes := by
  unfold mutations at h
  unfold writes
  cases hu : u.hasUpdates with
  | false =>
      rw [hu] at h
      exact (Except.ok.inj h).symm
  | true =>
      rw [hu] at h
      cases hc : u.isConsistent with
      | false =>
          rw [hc] at h
          exact absurd h (by simp)
      | true =>
          rw [hc] at h
          exact (Except.ok.inj h).symm

/-- A batch writes the head of its bucket and links of entries in its chains, and nothing else. -/
theorem mem_writes {m : Mutation} (h : m ∈ u.writes) :
    m.condition = .always ∧
      (m.key = .bucket u.bucket.hash ∨
        ∃ o, (o ∈ u.oldChain ∨ o ∈ u.newChain) ∧ m.key = .backpointer o) := by
  unfold writes at h
  split at h
  · rcases List.mem_append.mp h with h | h
    · rcases List.mem_append.mp h with h | h
      · obtain ⟨o, ho, older, rfl⟩ := mem_relinkChain h
        exact ⟨rfl, .inr ⟨o, .inl (List.mem_reverse.mpr ho), rfl⟩⟩
      · obtain ⟨o, ho, older, rfl⟩ := mem_linkNew h
        exact ⟨rfl, .inr ⟨o, .inr (List.mem_append_left _ (List.mem_reverse.mpr ho)), rfl⟩⟩
    · rw [List.mem_singleton.mp h]
      exact ⟨rfl, .inl rfl⟩
  · exact absurd h (by simp)

theorem lastWrite_writes_bucket (h : u.hasUpdates) :
    lastWrite u.writes (.bucket u.bucket.hash) = some u.newest := by
  unfold writes
  rw [if_pos h, lastWrite_append, lastWrite, lastWrite, Option.none_or]
  exact congrArg (Option.or · _) (if_pos rfl)

theorem writesTo_writes_backpointer (h : u.hasUpdates) (o : Offset) :
    writesTo u.writes (.backpointer o) = writesTo u.linkMutations (.backpointer o) := by
  have hhead : writesTo [.replace (.bucket u.bucket.hash) u.newest] (.backpointer o) = [] :=
    writesTo_eq_nil (by simp [Mutation.replace])
  unfold writes
  rw [if_pos h, writesTo_append, hhead, List.append_nil]

theorem lastWrite_writes_backpointer (h : u.hasUpdates) (o : Offset) :
    lastWrite u.writes (.backpointer o) = lastWrite u.linkMutations (.backpointer o) := by
  rw [← lastWrite_writesTo, writesTo_writes_backpointer h, lastWrite_writesTo]

end BucketUpdate

end SegmentIndex
