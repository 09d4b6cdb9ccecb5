import SegmentIndex.Attribute
import SegmentIndex.Proofs.Log

/-!
# Chains, and what the index is to hold

The chain of a bucket is the list of its live entries, newest first, and the link of an entry leads
to the one after it (`nextOlder`). `Log.indexed` says for every attribute what it is to hold when
the log has been indexed up to an offset: the index has no memory beyond that.

Chains are determined by their members (`Log.mem_chain`), and so is where a link leads
(`nextOlder_eq_some_iff`).
-/

namespace SegmentIndex

/-! ## Links of a chain -/

/-- Where the link of an entry leads in a chain, newest first. -/
def nextOlder : List Offset → Offset → Option Offset
  | [], _ => none
  | a :: rest, o => if a = o then rest.head? else nextOlder rest o

theorem nextOlder_eq_none {l : List Offset} {o : Offset} (h : o ∉ l) : nextOlder l o = none := by
  induction l with
  | nil => rfl
  | cons a rest ih =>
      rw [List.mem_cons, not_or] at h
      rw [nextOlder, if_neg fun ha => h.1 ha.symm, ih h.2]

theorem nextOlder_append {l₁ l₂ : List Offset} {o : Offset} (h : o ∉ l₁) :
    nextOlder (l₁ ++ l₂) o = nextOlder l₂ o := by
  induction l₁ with
  | nil => rfl
  | cons a rest ih =>
      rw [List.mem_cons, not_or] at h
      rw [List.cons_append, nextOlder, if_neg fun ha => h.1 ha.symm, ih h.2]

theorem nextOlder_append_cons {l₁ l₂ : List Offset} {o : Offset} (h : o ∉ l₁) :
    nextOlder (l₁ ++ o :: l₂) o = l₂.head? := by
  rw [nextOlder_append h, nextOlder, if_pos rfl]

/-- **In a descending chain a link leads to the greatest entry below.** -/
theorem nextOlder_eq_some_iff {l : List Offset} (hl : Offset.Descending l) {o o' : Offset} :
    nextOlder l o = some o' ↔ o ∈ l ∧ o' ∈ l ∧ o' < o ∧ ∀ x ∈ l, x < o → x ≤ o' := by
  induction l with
  | nil => simp [nextOlder]
  | cons a rest ih =>
      obtain ⟨ha, hrest⟩ := List.pairwise_cons.mp hl
      have hrest : Offset.Descending rest := hrest
      rw [nextOlder]
      -- the link of the first entry leads to the greatest of the rest
      by_cases hao : a = o
      · subst hao
        rw [if_pos rfl, hrest.head?_eq_some_iff]
        constructor
        · intro hlink
          obtain ⟨hmem, hmax⟩ := hlink
          refine ⟨List.mem_cons_self, List.mem_cons_of_mem _ hmem, ha o' hmem, ?_⟩
          intro x hx hlt
          rcases List.mem_cons.mp hx with rfl | hx
          · exact absurd hlt (lt_irrefl _)
          · exact hmax x hx
        · intro hlink
          obtain ⟨_, hmem, hlt, hmax⟩ := hlink
          rcases List.mem_cons.mp hmem with rfl | hmem
          · exact absurd hlt (lt_irrefl _)
          · exact ⟨hmem, fun x hx => hmax x (List.mem_cons_of_mem _ hx) (ha x hx)⟩
      · rw [if_neg hao, ih hrest]
        constructor
        · intro hlink
          obtain ⟨ho, ho', hlt, hmax⟩ := hlink
          refine ⟨List.mem_cons_of_mem _ ho, List.mem_cons_of_mem _ ho', hlt, ?_⟩
          intro x hx hxo
          rcases List.mem_cons.mp hx with rfl | hx
          · exact absurd hxo (lt_asymm (ha o ho))
          · exact hmax x hx hxo
        · intro hlink
          obtain ⟨ho, ho', hlt, hmax⟩ := hlink
          have ho : o ∈ rest := (List.mem_cons.mp ho).resolve_left fun h => hao h.symm
          have hne : o' ≠ a := fun h => lt_asymm (ha o ho) (h ▸ hlt)
          exact ⟨ho, (List.mem_cons.mp ho').resolve_left hne, hlt,
            fun x hx => hmax x (List.mem_cons_of_mem _ hx)⟩

/-- In a descending chain only the oldest entry has no link. -/
theorem le_of_nextOlder_eq_none {l : List Offset} (hl : Offset.Descending l) {o o' : Offset}
    (ho : o ∈ l) (ho' : o' ∈ l) (hnone : nextOlder l o = none) : o ≤ o' := by
  induction l with
  | nil => exact absurd ho List.not_mem_nil
  | cons a rest ih =>
      obtain ⟨ha, hrest⟩ := List.pairwise_cons.mp hl
      rw [nextOlder] at hnone
      by_cases hao : a = o
      · subst hao
        rw [if_pos rfl, List.head?_eq_none_iff] at hnone
        subst hnone
        rw [List.mem_singleton.mp ho']
      · rw [if_neg hao] at hnone
        have hlater : o ∈ rest := (List.mem_cons.mp ho).resolve_left fun heq => hao heq.symm
        rcases List.mem_cons.mp ho' with rfl | ho'
        · exact le_of_lt (ha o hlater)
        · exact ih hrest hlater ho' hnone

/-! ## The chain of a bucket -/

namespace Log

variable {log log' : Log} {hash : TableKey → KeyHash} {c : Offset} {h : KeyHash}

/-- Whether an entry for a key starts strictly between two offsets. -/
def touches (log : Log) (key : TableKey) (o c : Offset) : Bool :=
  log.entries.toList.any fun (o', e) => e.key = key && o < o' && o' < c

/-- The live entries of a bucket below an offset, newest first. -/
def chain (log : Log) (hash : TableKey → KeyHash) (c : Offset) (h : KeyHash) : List Offset :=
  ((log.entries.toList.filter fun (o, e) =>
    o < c && !e.removal && hash e.key = h && !log.touches e.key o c).map (·.1)).reverse

theorem touches_eq_false_iff {key : TableKey} {o : Offset} :
    log.touches key o c = false ↔
      ∀ (o' : Offset) (removal : Bool), o < o' → o' < c →
        log.entries[o']? ≠ some ⟨key, removal⟩ := by
  unfold touches
  rw [List.any_eq_false]
  constructor
  · intro hno o' removal ho hc hentry
    have := hno _ (Std.ExtTreeMap.mem_toList_iff_getElem?_eq_some.mpr hentry)
    simp [ho, hc] at this
  · intro hno ⟨o', key', removal⟩ hp htouch
    simp only [Bool.and_eq_true, decide_eq_true_eq] at htouch
    obtain ⟨⟨rfl, ho⟩, hc⟩ := htouch
    exact hno o' removal ho hc (Std.ExtTreeMap.mem_toList_iff_getElem?_eq_some.mp hp)

/-- **A chain holds the live entries of its bucket.** -/
theorem mem_chain {o : Offset} :
    o ∈ log.chain hash c h ↔ ∃ key, hash key = h ∧ log.IsLive c key o := by
  unfold chain
  rw [List.mem_reverse, List.mem_map]
  constructor
  · intro hex
    obtain ⟨⟨o', key, removal⟩, hp, rfl⟩ := hex
    obtain ⟨hmem, hp⟩ := List.mem_filter.mp hp
    simp only [Bool.and_eq_true, Bool.not_eq_true', decide_eq_true_eq] at hp
    obtain ⟨⟨⟨hlt, rfl⟩, hhash⟩, htouch⟩ := hp
    exact ⟨key, hhash, Std.ExtTreeMap.mem_toList_iff_getElem?_eq_some.mp hmem, hlt,
      touches_eq_false_iff.mp htouch⟩
  · intro hex
    obtain ⟨key, hhash, hentry, hlt, hlast⟩ := hex
    refine ⟨(o, ⟨key, false⟩), List.mem_filter.mpr ⟨?_, ?_⟩, rfl⟩
    · exact Std.ExtTreeMap.mem_toList_iff_getElem?_eq_some.mpr hentry
    · simp only [Bool.and_eq_true, Bool.not_eq_true', decide_eq_true_eq]
      exact ⟨⟨⟨hlt, trivial⟩, hhash⟩, touches_eq_false_iff.mpr hlast⟩

theorem descending_chain : Offset.Descending (log.chain hash c h) := by
  unfold chain Offset.Descending
  rw [List.pairwise_reverse, List.pairwise_map]
  exact log.pairwise_entries.filter _

theorem chain_congr (hagree : AgreeBelow c log log') :
    log.chain hash c h = log'.chain hash c h := by
  refine descending_chain.ext descending_chain fun o => ?_
  rw [mem_chain, mem_chain]
  exact exists_congr fun key => and_congr_right fun _ => isLive_congr hagree

/-- An entry puts a key of a bucket in place. -/
def HasUpsert (log : Log) (hash : TableKey → KeyHash) (h : KeyHash) (o : Offset) : Prop :=
  ∃ key, hash key = h ∧ log.entries[o]? = some ⟨key, false⟩

theorem Extends.hasUpsert {o : Offset} (hext : Extends log log') (hb : log.Bounded)
    (ho : log.HasUpsert hash h o) : log'.HasUpsert hash h o := by
  obtain ⟨key, hhash, he⟩ := ho
  exact ⟨key, hhash, hext.entry hb he⟩

theorem lt_of_mem_chain {o : Offset} (ho : o ∈ log.chain hash c h) : o < c := by
  obtain ⟨key, _, _, hlt, _⟩ := mem_chain.mp ho
  exact hlt

theorem hasUpsert_of_mem_chain {o : Offset} (ho : o ∈ log.chain hash c h) :
    log.HasUpsert hash h o := by
  obtain ⟨key, hhash, hentry, _⟩ := mem_chain.mp ho
  exact ⟨key, hhash, hentry⟩

/-- An entry is live below an offset, for a key of a bucket. -/
def LiveIn (log : Log) (hash : TableKey → KeyHash) (c : Offset) (h : KeyHash) (o : Offset) : Prop :=
  ∃ key, hash key = h ∧ log.IsLive c key o

/-! ## What the attributes are to hold -/

/-- What an attribute is to hold when the log has been indexed up to an offset. -/
def indexed (log : Log) (hash : TableKey → KeyHash) (c : Offset) : AttributeKey → Option Offset
  | .tableIndexOffset => some c
  | .bucket h => (log.chain hash c h).head?
  | .backpointer o => log.entries[o]?.bind fun e => nextOlder (log.chain hash c (hash e.key)) o

theorem indexed_backpointer {o : Offset} {e : LogEntry} (he : log.entries[o]? = some e)
    (hhash : hash e.key = h) :
    log.indexed hash c (.backpointer o) = nextOlder (log.chain hash c h) o := by
  rw [indexed, he, Option.bind_some, hhash]

theorem indexed_backpointer_of_chain {pre rest : List Offset} {o : Offset}
    (hchain : log.chain hash c h = pre ++ o :: rest) :
    log.indexed hash c (.backpointer o) = rest.head? := by
  have hmem : o ∈ log.chain hash c h := by
    rw [hchain]
    exact List.mem_append_right _ List.mem_cons_self
  obtain ⟨key, hhash, he⟩ := hasUpsert_of_mem_chain hmem
  have hpre : o ∉ pre := fun hin => by
    have hnodup := descending_chain.nodup (l := log.chain hash c h)
    rw [hchain, List.nodup_append] at hnodup
    exact hnodup.2.2 o hin o List.mem_cons_self rfl
  rw [indexed_backpointer he hhash, hchain, nextOlder_append_cons hpre]

theorem indexed_backpointer_of_le {o : Offset} (ho : c ≤ o) :
    log.indexed hash c (.backpointer o) = none := by
  rw [indexed]
  cases log.entries[o]? with
  | none => rfl
  | some e =>
      rw [Option.bind_some]
      exact nextOlder_eq_none fun hmem => absurd (lt_of_mem_chain hmem) (not_lt.mpr ho)

/-- **What the index holds depends on the entries that have been indexed only.** -/
theorem indexed_congr (hagree : AgreeBelow c log log') (key : AttributeKey) :
    log.indexed hash c key = log'.indexed hash c key := by
  cases key with
  | tableIndexOffset => rfl
  | bucket h => rw [indexed, indexed, chain_congr hagree]
  | backpointer o =>
      by_cases ho : o < c
      · rw [indexed, indexed, hagree o ho]
        simp only [chain_congr hagree]
      · rw [indexed_backpointer_of_le (not_lt.mp ho), indexed_backpointer_of_le (not_lt.mp ho)]

/-- What the attributes are to show, in terms of live entries: the offset itself as the checkpoint,
as the head of a bucket its newest live entry, and as the link of a live entry the next older one of
its bucket. -/
def Shows (log : Log) (hash : TableKey → KeyHash) (c : Offset) : AttributeKey → Offset → Prop
  | .tableIndexOffset, o => o = c
  | .bucket h, o => log.LiveIn hash c h o ∧ ∀ o', log.LiveIn hash c h o' → o' ≤ o
  | .backpointer entry, o => ∃ h, log.LiveIn hash c h entry ∧ log.LiveIn hash c h o ∧ o < entry ∧
      ∀ o', log.LiveIn hash c h o' → o' < entry → o' ≤ o

/-- **What the attributes are to hold is what they are to show.** -/
theorem indexed_eq_some_iff {key : AttributeKey} {o : Offset} :
    log.indexed hash c key = some o ↔ log.Shows hash c key o := by
  have hlive : ∀ {h o}, o ∈ log.chain hash c h ↔ log.LiveIn hash c h o := mem_chain
  cases key with
  | tableIndexOffset =>
      rw [indexed, Option.some.injEq]
      exact eq_comm
  | bucket h =>
      rw [indexed, descending_chain.head?_eq_some_iff, hlive]
      exact and_congr_right fun _ => forall_congr' fun o' => by rw [hlive]
  | backpointer entry =>
      have hlink : ∀ {h}, nextOlder (log.chain hash c h) entry = some o ↔
          log.LiveIn hash c h entry ∧ log.LiveIn hash c h o ∧ o < entry ∧
            ∀ o', log.LiveIn hash c h o' → o' < entry → o' ≤ o := by
        intro h
        rw [nextOlder_eq_some_iff descending_chain, hlive, hlive]
        simp only [hlive]
      constructor
      · intro ho
        rw [indexed] at ho
        obtain ⟨e, _, ho⟩ := Option.bind_eq_some_iff.mp ho
        exact ⟨hash e.key, hlink.mp ho⟩
      · intro hlink
        obtain ⟨h, hshows⟩ := hlink
        obtain ⟨key, hhash, hentry, _⟩ := hshows.1
        rw [indexed_backpointer hentry hhash]
        exact hlink.mpr hshows

theorem hasUpsert_of_indexed_bucket {o : Offset}
    (ho : log.indexed hash c (.bucket h) = some o) : log.HasUpsert hash h o :=
  hasUpsert_of_mem_chain (List.mem_of_head? ho)

/-- **A link leads down, and to an entry of the same bucket.** -/
theorem hasUpsert_of_indexed_backpointer {o older : Offset} (ho : log.HasUpsert hash h o)
    (hlink : log.indexed hash c (.backpointer o) = some older) :
    older < o ∧ log.HasUpsert hash h older := by
  obtain ⟨key, hhash, he⟩ := ho
  rw [indexed_backpointer he hhash] at hlink
  obtain ⟨_, hmem, hlt, _⟩ := (nextOlder_eq_some_iff descending_chain).mp hlink
  exact ⟨hlt, hasUpsert_of_mem_chain hmem⟩

end Log

end SegmentIndex
