import TanConsensus.Ibft.Quorum
import Mathlib.Order.Interval.Finset.Nat

/-! What the two counts mean for sets of positions in the roster: two quorums
always share a validator, an honest one only in rosters of 1, 2, 4 or 7. -/

namespace TanConsensus.Ibft
open Finset

private theorem exists_common_outside {n f : ℕ} {A B faulty : Finset ℕ} (inA : A ⊆ range n)
    (inB : B ⊆ range n) (few : faulty.card ≤ f) (sizes : n + f < A.card + B.card) :
    ∃ i ∈ A ∩ B, i ∉ faulty := by
  have union : (A ∪ B).card ≤ n := (card_le_card (union_subset inA inB)).trans (card_range n).le
  have common := card_union_add_card_inter A B
  have remaining := le_card_sdiff faulty (A ∩ B)
  obtain ⟨i, member⟩ := card_pos.mp (show 0 < ((A ∩ B) \ faulty).card by omega)
  exact ⟨i, (mem_sdiff.mp member).1, (mem_sdiff.mp member).2⟩

/-- Any two quorums of a non-empty roster share a validator. -/
theorem quorums_intersect {set : Validators} (nonempty : 0 < set.len) {A B : Finset ℕ}
    (inA : A ⊆ range set.len) (inB : B ⊆ range set.len)
    (quorumA : optimalQuorumSize set ≤ A.card) (quorumB : optimalQuorumSize set ≤ B.card) :
    (A ∩ B).Nonempty := by
  have := lt_two_mul_quorumSize nonempty
  exact inter_nonempty_of_card_lt_card_add_card inA inB (by rw [card_range]; unfold optimalQuorumSize at *; omega)

theorem quorums_intersect_at_four :
    0 < (roster 4 (by norm_num)).len ∧ range 3 ⊆ range (roster 4 (by norm_num)).len ∧
      Ico 1 4 ⊆ range (roster 4 (by norm_num)).len ∧
      optimalQuorumSize (roster 4 (by norm_num)) ≤ (range 3).card ∧
      optimalQuorumSize (roster 4 (by norm_num)) ≤ (Ico 1 4).card ∧ (range 3 ∩ Ico 1 4).Nonempty :=
  ⟨by decide, by decide, by decide, by decide, by decide,
    @quorums_intersect (roster 4 (by norm_num)) (by decide) (range 3) (Ico 1 4)
      (by decide) (by decide) (by decide) (by decide)⟩

/-- Every two quorums share a validator outside every set of at most
`calcMaxFaultyNodes` faulty ones exactly when the roster has 1, 2, 4 or 7
validators. For every other size the first and the last `optimalQuorumSize`
positions overlap in no more than `calcMaxFaultyNodes` positions, which may all
be faulty. -/
theorem honest_quorum_intersection_iff (set : Validators) (nonempty : 0 < set.len) :
    (∀ A B faulty : Finset ℕ, A ⊆ range set.len → B ⊆ range set.len →
      optimalQuorumSize set ≤ A.card → optimalQuorumSize set ≤ B.card →
      faulty.card ≤ calcMaxFaultyNodes set → ∃ i ∈ A ∩ B, i ∉ faulty) ↔ set.len ∈ [1, 2, 4, 7] := by
  rw [← quorumSize_overlap_iff set nonempty]
  have within := quorumSize_le set
  generalize calcMaxFaultyNodes set = f
  unfold optimalQuorumSize
  generalize quorumSize Float.float64Point6 set = q at within ⊢
  constructor
  · intro honest
    by_contra overlap
    obtain ⟨i, common, outside⟩ := honest (range q) (Ico (set.len - q) set.len) (Ico (set.len - q) q)
      (range_subset.mpr within) (fun i member => by simp only [mem_Ico, mem_range] at member ⊢; omega)
      (by rw [card_range]) (by rw [Nat.card_Ico]; omega) (by rw [Nat.card_Ico]; omega)
    simp only [mem_inter, mem_range, mem_Ico] at common outside
    omega
  · intro overlap A B faulty inA inB quorumA quorumB few
    exact exists_common_outside inA inB few (by omega)

theorem honest_quorum_intersection_at_seven :
    0 < (roster 7 (by norm_num)).len ∧
      ((∀ A B faulty : Finset ℕ, A ⊆ range (roster 7 (by norm_num)).len → B ⊆ range (roster 7 (by norm_num)).len →
        optimalQuorumSize (roster 7 (by norm_num)) ≤ A.card → optimalQuorumSize (roster 7 (by norm_num)) ≤ B.card →
        faulty.card ≤ calcMaxFaultyNodes (roster 7 (by norm_num)) → ∃ i ∈ A ∩ B, i ∉ faulty) ↔
        (roster 7 (by norm_num)).len ∈ [1, 2, 4, 7]) :=
  ⟨by decide, honest_quorum_intersection_iff _ (by decide)⟩

end TanConsensus.Ibft
