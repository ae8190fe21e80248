import TanConsensus.Ibft.Validators
import Mathlib.Data.Nat.ModEq
import Mathlib.Data.List.Nodup

/-! The proposer rotation of `calcProposer`: while the `uint64` seed does not wrap,
`N` consecutive rounds pick every position once, and across the wrap they do not. -/

namespace TanConsensus.Ibft

/-- The offset the rotation starts from: the last proposer's position, or zero
for the zero address and for an address that has left the set. -/
def proposerOffset (validators : Validators) (lastProposer : Address) : Nat :=
  if lastProposer = ZeroAddress then 0 else (validators.index lastProposer).toNat

theorem proposerOffset_lt (validators : Validators) (lastProposer : Address) (nonempty : 0 < validators.len) :
    proposerOffset validators lastProposer < validators.len := by
  unfold proposerOffset
  split
  · exact nonempty
  · rcases validators.index_cases lastProposer with absent | ⟨index, found, inside⟩
    · simpa [absent] using nonempty
    · simpa [found] using inside

theorem proposerSeed_toNat (validators : Validators) (round : BitVec 64) (lastProposer : Address) :
    (proposerSeed validators round lastProposer).toNat =
      ((if lastProposer = ZeroAddress then 0 else proposerOffset validators lastProposer + 1) + round.toNat) %
        2 ^ 64 := by
  unfold proposerSeed proposerOffset
  by_cases zero : lastProposer = ZeroAddress
  · simp only [zero, if_true, Nat.zero_add, Nat.mod_eq_of_lt round.isLt]
  simp only [zero, if_false]
  have one : (1 : BitVec 64).toNat = 1 := rfl
  rcases validators.index_cases lastProposer with absent | ⟨index, found, -⟩
  · simp only [absent, ne_eq, not_true_eq_false, if_false, BitVec.toNat_add, BitVec.ofInt_ofNat, one,
      BitVec.toNat_ofNat, Nat.zero_mod, Nat.zero_add, Nat.mod_add_mod, Int.reduceNeg, Int.reduceToNat]
    omega
  · simp only [found, ne_eq, if_true, BitVec.toNat_add, BitVec.ofInt_natCast, BitVec.toNat_ofNat, one,
      show ¬ (index : Int) = -1 by omega, not_false_eq_true, Int.toNat_ofNat]
    omega

/-- What `calcProposer` returns on a non-empty set, in every case of the last proposer. -/
theorem calcProposer_eq (validators : Validators) (nonempty : 0 < validators.len) (round : BitVec 64)
    (lastProposer : Address) :
    calcProposer validators round lastProposer =
      validators.at ((((if lastProposer = ZeroAddress then 0 else proposerOffset validators lastProposer + 1) +
        round.toNat) % 2 ^ 64) % validators.len) := by
  have fits : validators.len < 2 ^ 64 := by have := validators.len_lt; omega
  rw [calcProposer, if_neg (by omega), BitVec.toNat_umod, BitVec.toNat_ofNat, Nat.mod_eq_of_lt fits,
    proposerSeed_toNat]

theorem range_map_add_mod_perm (a n : Nat) : ((List.range n).map fun k => (a + k) % n).Perm (List.range n) := by
  rcases Nat.eq_zero_or_pos n with rfl | positive
  · simp
  refine List.Subperm.perm_of_length_le (List.Nodup.subperm ?_ ?_) (by simp)
  · refine List.Nodup.map_on (fun k member k' member' same => ?_) (List.nodup_range n)
    have := Nat.ModEq.add_left_cancel' a same
    rwa [Nat.ModEq, Nat.mod_eq_of_lt (List.mem_range.mp member), Nat.mod_eq_of_lt (List.mem_range.mp member')]
      at this
  · intro position member
    obtain ⟨k, -, rfl⟩ := List.mem_map.mp member
    exact List.mem_range.mpr (Nat.mod_lt _ positive)

/-- Over any `N` consecutive rounds whose seeds do not wrap, the proposers are
the validators at `N` pairwise distinct positions: every position once. -/
theorem calcProposer_window_perm (validators : Validators) (lastProposer : Address) (r0 : Nat)
    (nonempty : 0 < validators.len)
    (noWrap : proposerOffset validators lastProposer + r0 + validators.len < 2 ^ 64) :
    ∃ positions : List Nat, positions.Perm (List.range validators.len) ∧
      (List.range validators.len).map (fun k => calcProposer validators (BitVec.ofNat 64 (r0 + k)) lastProposer) =
        positions.map validators.at := by
  set base := if lastProposer = ZeroAddress then 0 else proposerOffset validators lastProposer + 1
  have small : base ≤ proposerOffset validators lastProposer + 1 := by
    simp only [base]; split <;> omega
  refine ⟨(List.range validators.len).map fun k => (base + r0 + k) % validators.len,
    range_map_add_mod_perm _ _, ?_⟩
  rw [List.map_map]
  refine List.map_congr_left fun k member => ?_
  have inside := List.mem_range.mp member
  rw [calcProposer_eq validators nonempty, BitVec.toNat_ofNat, Nat.mod_eq_of_lt (by omega : r0 + k < 2 ^ 64),
    Nat.mod_eq_of_lt (by omega : base + (r0 + k) < 2 ^ 64), Function.comp_apply, Nat.add_assoc]

theorem calcProposer_window_from_third :
    0 < (roster 4 (by norm_num)).len ∧ proposerOffset (roster 4 (by norm_num)) 3 + 10 + (roster 4 (by norm_num)).len < 2 ^ 64 ∧
      ∃ positions : List Nat, positions.Perm (List.range (roster 4 (by norm_num)).len) ∧
        (List.range (roster 4 (by norm_num)).len).map
            (fun k => calcProposer (roster 4 (by norm_num)) (BitVec.ofNat 64 (10 + k)) 3) =
          positions.map (roster 4 (by norm_num)).at :=
  ⟨by decide, by decide, calcProposer_window_perm _ _ _ (by decide) (by decide)⟩

/-- Across the wrap of the `uint64` seed the rotation breaks for every set whose
size is not a power of two: whatever the last proposer, the `N` rounds whose
seeds run from `2 ^ 64 - 1` through the wrap pick one validator twice. -/
theorem calcProposer_window_repeats_of_wrap (validators : Validators) (lastProposer : Address)
    (nonempty : 0 < validators.len) (notPow : ¬ validators.len ∣ 2 ^ 64) :
    ∃ r0 : Nat, ¬ ((List.range validators.len).map fun k =>
      calcProposer validators (BitVec.ofNat 64 (r0 + k)) lastProposer).Nodup := by
  set base := if lastProposer = ZeroAddress then 0 else proposerOffset validators lastProposer + 1
  have small : base ≤ validators.len := by
    have := proposerOffset_lt validators lastProposer nonempty
    simp only [base]; split <;> omega
  have fits := validators.len_lt
  have seed (k : Nat) : calcProposer validators (BitVec.ofNat 64 (2 ^ 64 - 1 - base + k)) lastProposer =
      validators.at ((2 ^ 64 - 1 + k) % 2 ^ 64 % validators.len) := by
    rw [calcProposer_eq validators nonempty, BitVec.toNat_ofNat, Nat.add_mod_mod,
      show base + (2 ^ 64 - 1 - base + k) = 2 ^ 64 - 1 + k by omega]
  -- the last seed before the wrap lands where one after it does, unless `N` divides `2 ^ 64`
  set j := (2 ^ 64 - 1) % validators.len
  have below : j + 1 < validators.len := by
    have split := Nat.div_add_mod (2 ^ 64 - 1) validators.len
    have := Nat.mod_lt (2 ^ 64 - 1) nonempty
    refine lt_of_le_of_ne (by omega) fun last => notPow ⟨(2 ^ 64 - 1) / validators.len + 1, ?_⟩
    rw [Nat.mul_succ]; omega
  refine ⟨2 ^ 64 - 1 - base, fun distinct => ?_⟩
  have same := List.inj_on_of_nodup_map distinct (List.mem_range.mpr nonempty) (List.mem_range.mpr below)
    (by rw [seed, seed, show (2 ^ 64 - 1 + (j + 1)) % 2 ^ 64 = j by omega, Nat.mod_eq_of_lt (by omega : j < _)]; rfl)
  omega

theorem calcProposer_window_repeats_at_three :
    0 < (roster 3 (by norm_num)).len ∧ ¬ (roster 3 (by norm_num)).len ∣ 2 ^ 64 ∧
      ∃ r0 : Nat, ¬ ((List.range (roster 3 (by norm_num)).len).map fun k =>
        calcProposer (roster 3 (by norm_num)) (BitVec.ofNat 64 (r0 + k)) 2).Nodup :=
  ⟨by decide, by decide, calcProposer_window_repeats_of_wrap _ _ (by decide) (by decide)⟩

end TanConsensus.Ibft
