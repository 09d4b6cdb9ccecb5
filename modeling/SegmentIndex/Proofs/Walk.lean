import SegmentIndex.Proofs.Indexed

/-!
# Walking a chain while others index

Between two steps of a walk others may index more of the log. Heads and links then come from
different states, but each of them leads to an older entry of the same bucket, so whatever mixture
the walk sees, it ends, and it gives entries of that bucket, newest first (`IsDescent`). If the
checkpoint has not moved when it ends, nothing has moved, and what it gives is the chain.
-/

namespace SegmentIndex

open Attempt Segment

variable {hash : TableKey → KeyHash} {s s' : Segment} {c c' : Offset} {b : KeyHash}

/-- A way down through the entries of a bucket. -/
structure IsDescent (hash : TableKey → KeyHash) (log : Log) (b : KeyHash) (l : List Offset) :
    Prop where
  descending : Offset.Descending l
  hasUpsert : ∀ o ∈ l, log.HasUpsert hash b o

theorem IsDescent.cons {log : Log} {o older : Offset} {below : List Offset}
    (h : IsDescent hash log b (older :: below)) (hlt : older < o)
    (ho : log.HasUpsert hash b o) : IsDescent hash log b (o :: older :: below) where
  descending := h.descending.cons hlt
  hasUpsert := by
    intro x hx
    rcases List.mem_cons.mp hx with rfl | hx
    · exact ho
    · exact h.hasUpsert x hx

theorem IsDescent.singleton {log : Log} {o : Offset} (ho : log.HasUpsert hash b o) :
    IsDescent hash log b [o] where
  descending := List.pairwise_singleton _ _
  hasUpsert := by
    intro x hx
    rw [List.mem_singleton.mp hx]
    exact ho

/-- **The walk from an entry downwards.** -/
theorem gives_chainFrom (h : s.Indexed hash c) (newer : List Offset) {entry : Offset}
    (hentry : s.log.HasUpsert hash b entry) :
    Gives (Evolves hash)
      (fun l s' => ∃ c' below, Since hash s c s' c' ∧ l = newer.reverse ++ entry :: below ∧
        IsDescent hash s'.log b (entry :: below) ∧
        (c' = c → ∀ pre rest, s.log.chain hash c b = pre ++ entry :: rest → below = rest))
      (chainFrom b newer entry) s := by
  -- every link leads down, whatever state it is read in
  induction hn : entry.val using Nat.strong_induction_on generalizing entry newer s c with
  | h n ih =>
      subst hn
      rw [chainFrom]
      refine (gives_readOffset h (.backpointer entry)).ofStore.bind ?_
      intro link s₁ hpost
      obtain ⟨c₁, hsince, hlink⟩ := hpost
      have hentry₁ := hsince.extends_log.hasUpsert h.bounded hentry
      -- what a walk in an unchanged index would find next
      have hfresh : c₁ = c → ∀ pre rest, s.log.chain hash c b = pre ++ entry :: rest →
          link = rest.head? ∧ s₁.log.chain hash c b = pre ++ entry :: rest := by
        intro heq pre rest hchain
        subst heq
        have hchain₁ : s₁.log.chain hash c₁ b = pre ++ entry :: rest := by
          rw [← Log.chain_congr (hsince.extends_log.agreeBelow h.le_length), hchain]
        exact ⟨by rw [hlink, Log.indexed_backpointer_of_chain hchain₁], hchain₁⟩
      cases link with
      | none =>
          refine .pure ⟨c₁, [], hsince, by simp, .singleton hentry₁, fun hc pre rest hchain => ?_⟩
          exact (List.head?_eq_none_iff.mp (hfresh hc pre rest hchain).1.symm).symm
      | some older =>
          obtain ⟨hlt, holder⟩ := Log.hasUpsert_of_indexed_backpointer hentry₁ hlink.symm
          show Gives _ _ (if older < entry then _ else _) _
          rw [if_pos hlt]
          refine (ih older.val hlt hsince.indexed (entry :: newer) holder rfl).mono ?_
          intro l s₂ hpost
          obtain ⟨c₂, below, hsince₂, rfl, hdescent, hbelow⟩ := hpost
          have hentry₂ := hsince₂.extends_log.hasUpsert hsince.indexed.bounded hentry₁
          refine ⟨c₂, older :: below, hsince.trans hsince₂, by simp,
            hdescent.cons hlt hentry₂, fun hc pre rest hchain => ?_⟩
          have hc₁ : c₁ = c := le_antisymm (hc ▸ hsince₂.le) hsince.le
          obtain ⟨hhead, hchain₁⟩ := hfresh hc₁ pre rest hchain
          obtain ⟨rest, rfl⟩ : ∃ rest', rest = older :: rest' := by
            cases rest with
            | nil => exact absurd hhead (by simp)
            | cons o rest' => exact ⟨rest', by rw [Option.some.inj hhead]⟩
          rw [hbelow (hc.trans hc₁.symm) (pre ++ [entry]) rest (by rw [hc₁, hchain₁]; simp)]

/-- **The walk through a bucket.** The head may have been read earlier than the links. -/
theorem gives_bucketOffsets (h : s.Indexed hash c) (hs : Since hash s c s' c')
    {head : Option Offset} (hhead : head = s.log.indexed hash c (.bucket b)) :
    Gives (Evolves hash)
      (fun l s'' => ∃ c'', Since hash s' c' s'' c'' ∧ IsDescent hash s''.log b l ∧
        l.head? = head ∧ (c'' = c → l = s.log.chain hash c b))
      (bucketOffsets ⟨b, head⟩) s' := by
  cases head with
  | none =>
      refine .pure ⟨c', .refl hs.indexed, ⟨.nil, by simp⟩, rfl, fun _ => ?_⟩
      exact (List.head?_eq_none_iff.mp hhead.symm).symm
  | some o =>
      have ho := hs.extends_log.hasUpsert h.bounded (Log.hasUpsert_of_indexed_bucket hhead.symm)
      refine (gives_chainFrom hs.indexed [] ho).mono ?_
      intro l s'' hpost
      obtain ⟨c'', below, hsince, rfl, hdescent, hbelow⟩ := hpost
      refine ⟨c'', hsince, hdescent, rfl, fun hc => ?_⟩
      have hc' : c' = c := le_antisymm (hc ▸ hsince.le) hs.le
      obtain ⟨rest, hrest⟩ : ∃ rest, s.log.chain hash c b = o :: rest := by
        rw [Log.indexed] at hhead
        cases hchain : s.log.chain hash c b with
        | nil => rw [hchain] at hhead; exact absurd hhead (by simp)
        | cons o' rest => rw [hchain] at hhead; exact ⟨rest, by rw [Option.some.inj hhead]⟩
      rw [hrest, List.reverse_nil, List.nil_append, hbelow (hc.trans hc'.symm) [] rest ?_]
      rw [hc', ← Log.chain_congr (hs.extends_log.agreeBelow h.le_length), hrest, List.nil_append]

end SegmentIndex
