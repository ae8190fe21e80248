import TanConsensus.Ibft.Validators
import Mathlib.Tactic.IntervalCases

/-! What the float formulas of `validators.go` compute: exactly `⌈3N/5⌉` and
`⌊2N/5⌋` up to `2 ^ 51` validators, and how far they drift above. -/

namespace TanConsensus.Ibft
open Float

private theorem val_product_of_small (c : Dyadic) {n : Nat} (small : n < 2 ^ 53) :
    (c * float64OfInt n).val = c.val * n := by
  rw [Dyadic.val_mul, val_float64OfInt small]

private theorem abs_round53_sub_le {x : Dyadic} (below : x.val < 2 ^ 51) :
    |(x.round 53).val - x.val| ≤ 1 / 8 := by
  have := Dyadic.abs_round_sub_le 53 x (show x.val < (2 : ℚ) ^ (51 : ℤ) by exact_mod_cast below)
  norm_num at this
  exact this

theorem quorumSize_eq_of_le {set : Validators} (small : set.len ≤ 2 ^ 51) :
    quorumSize float64Point6 set = (3 * set.len + 4) / 5 := by
  unfold quorumSize float64Mul
  have product := val_product_of_small float64Point6 (show set.len < 2 ^ 53 by omega)
  have lower : 3 * set.len ≤ 5 * ((3 * set.len + 4) / 5) := by omega
  have upper : 5 * ((3 * set.len + 4) / 5) ≤ 3 * set.len + 4 := by omega
  generalize (3 * set.len + 4) / 5 = c at lower upper ⊢
  have small : (set.len : ℚ) ≤ 2 ^ 51 := by exact_mod_cast small
  have lower : (3 * set.len : ℚ) ≤ 5 * c := by exact_mod_cast lower
  have upper : (5 * c : ℚ) ≤ 3 * set.len + 4 := by exact_mod_cast upper
  have nonneg : (0 : ℚ) ≤ set.len := Nat.cast_nonneg _
  rw [val_float64Point6] at product
  obtain ⟨err, -⟩ := abs_le.mp (abs_round53_sub_le (show _ < (2 : ℚ) ^ 51 by rw [product]; linarith only [small]))
  have below := Dyadic.round_le_nat (show _ < (2 : ℚ) ^ 53 by rw [product]; linarith only [small])
    (show _ ≤ (c : ℚ) by rw [product]; linarith only [lower, nonneg])
  exact Dyadic.ceil_eq_of_bounds (by rw [product] at err; linarith only [err, upper, small, nonneg]) below

theorem calcMaxFaultyNodes_eq_of_le {s : Validators} (small : s.len ≤ 2 ^ 51) :
    calcMaxFaultyNodes s = 2 * s.len / 5 := by
  unfold calcMaxFaultyNodes float64Mul
  have product := val_product_of_small float64Point4 (show s.len < 2 ^ 53 by omega)
  have lower : 5 * (2 * s.len / 5) ≤ 2 * s.len := by omega
  have upper : 2 * s.len ≤ 5 * (2 * s.len / 5) + 4 := by omega
  generalize 2 * s.len / 5 = f at lower upper ⊢
  have small : (s.len : ℚ) ≤ 2 ^ 51 := by exact_mod_cast small
  have lower : (5 * f : ℚ) ≤ 2 * s.len := by exact_mod_cast lower
  have upper : (2 * s.len : ℚ) ≤ 5 * f + 4 := by exact_mod_cast upper
  have nonneg : (0 : ℚ) ≤ s.len := Nat.cast_nonneg _
  rw [val_float64Point4] at product
  obtain ⟨-, err⟩ := abs_le.mp (abs_round53_sub_le (show _ < (2 : ℚ) ^ 51 by rw [product]; linarith only [small]))
  have above := Dyadic.nat_le_round (show _ < (2 : ℚ) ^ 53 by rw [product]; linarith only [small])
    (show (f : ℚ) ≤ _ by rw [product]; linarith only [lower, nonneg])
  exact Dyadic.floor_eq_of_bounds above (by rw [product] at err; linarith only [err, upper, small, nonneg])

private theorem round53_rel (x : Dyadic) :
    x.val * (1 - 1 / 2 ^ 53) ≤ (x.round 53).val ∧ (x.round 53).val ≤ x.val * (1 + 1 / 2 ^ 53) := by
  obtain ⟨lower, upper⟩ := abs_le.mp (Dyadic.abs_round_sub_le_rel 53 x)
  constructor <;> linarith

private theorem formula_bounds (c : Dyadic) (n : Nat) :
    c.val * n * (1 - 1 / 2 ^ 53) ^ 2 ≤ (float64Mul c (float64OfInt n)).val ∧
      (float64Mul c (float64OfInt n)).val ≤ c.val * n * (1 + 1 / 2 ^ 53) ^ 2 := by
  obtain ⟨convertLow, convertHigh⟩ : (n : ℚ) * (1 - 1 / 2 ^ 53) ≤ (float64OfInt n).val ∧
      (float64OfInt n).val ≤ n * (1 + 1 / 2 ^ 53) := by
    simpa only [Dyadic.val_ofNat] using round53_rel (Dyadic.ofNat n)
  obtain ⟨productLow, productHigh⟩ := round53_rel (c * float64OfInt n)
  rw [Dyadic.val_mul] at productLow productHigh
  have nonneg := c.val_nonneg
  constructor
  · calc c.val * n * (1 - 1 / 2 ^ 53) ^ 2 = c.val * (n * (1 - 1 / 2 ^ 53)) * (1 - 1 / 2 ^ 53) := by ring
      _ ≤ c.val * (float64OfInt n).val * (1 - 1 / 2 ^ 53) :=
        mul_le_mul_of_nonneg_right (mul_le_mul_of_nonneg_left convertLow nonneg) (by norm_num)
      _ ≤ _ := productLow
  · calc _ ≤ c.val * (float64OfInt n).val * (1 + 1 / 2 ^ 53) := productHigh
      _ ≤ c.val * (n * (1 + 1 / 2 ^ 53)) * (1 + 1 / 2 ^ 53) :=
        mul_le_mul_of_nonneg_right (mul_le_mul_of_nonneg_left convertHigh nonneg) (by norm_num)
      _ = _ := by ring

theorem quorumSize_le (set : Validators) : quorumSize float64Point6 set ≤ set.len := by
  have upper := (formula_bounds float64Point6 set.len).2
  rw [val_float64Point6] at upper
  have := Nat.ceil_le.mpr (show (float64Mul float64Point6 (float64OfInt set.len)).val ≤ set.len by
    linarith [(Nat.cast_nonneg set.len : (0 : ℚ) ≤ set.len)])
  rwa [← Dyadic.ceil_eq] at this

theorem lt_two_mul_quorumSize {set : Validators} (nonempty : 0 < set.len) :
    set.len < 2 * quorumSize float64Point6 set := by
  have lower := (formula_bounds float64Point6 set.len).1
  rw [val_float64Point6] at lower
  have ceil := Dyadic.le_ceil (float64Mul float64Point6 (float64OfInt set.len))
  have one : (1 : ℚ) ≤ set.len := by exact_mod_cast nonempty
  have : (set.len : ℚ) < 2 * quorumSize float64Point6 set := by unfold quorumSize; linarith
  exact_mod_cast this

private theorem two_mul_quorumSize_le {set : Validators} (large : 2 ^ 51 < set.len) :
    2 * quorumSize float64Point6 set ≤ calcMaxFaultyNodes set + set.len := by
  have quorum := (formula_bounds float64Point6 set.len).2
  have faulty := (formula_bounds float64Point4 set.len).1
  rw [val_float64Point6] at quorum
  rw [val_float64Point4] at faulty
  have ceil := Dyadic.ceil_lt_add_one (float64Mul float64Point6 (float64OfInt set.len))
  have floor := Dyadic.lt_floor_add_one (float64Mul float64Point4 (float64OfInt set.len))
  have large : (2 ^ 51 : ℚ) < set.len := by exact_mod_cast large
  have : (2 * quorumSize float64Point6 set : ℚ) < calcMaxFaultyNodes set + set.len + 1 := by
    unfold quorumSize calcMaxFaultyNodes; linarith
  exact Nat.lt_succ_iff.mp (by exact_mod_cast this)

theorem quorumSize_overlap_iff (set : Validators) (nonempty : 0 < set.len) :
    calcMaxFaultyNodes set + set.len < 2 * quorumSize float64Point6 set ↔ set.len ∈ [1, 2, 4, 7] := by
  by_cases small : set.len ≤ 2 ^ 51
  · rw [quorumSize_eq_of_le small, calcMaxFaultyNodes_eq_of_le small]
    generalize set.len = n at nonempty ⊢
    rcases lt_or_le n 8 with few | many
    · interval_cases n <;> decide
    · simp only [List.mem_cons, List.mem_singleton, List.not_mem_nil, or_false]
      omega
  · have := two_mul_quorumSize_le (not_le.mp small)
    simp only [List.mem_cons, List.mem_singleton, List.not_mem_nil, or_false]
    omega

/-- Two quorums overlap in more validators than `calcMaxFaultyNodes` exactly
for sets of 1, 2, 4 and 7 validators, with either quorum size; they always
overlap in at least one. -/
theorem quorum_overlap_exceeds_faulty_iff (set : Validators) (nonempty : 0 < set.len) :
    (calcMaxFaultyNodes set + set.len < 2 * optimalQuorumSize set ↔ set.len ∈ [1, 2, 4, 7]) ∧
      (calcMaxFaultyNodes set + set.len < 2 * legacyQuorumSize set ↔ set.len ∈ [1, 2, 4, 7]) ∧
      set.len < 2 * optimalQuorumSize set :=
  ⟨quorumSize_overlap_iff set nonempty, quorumSize_overlap_iff set nonempty, lt_two_mul_quorumSize nonempty⟩

/-- Up to `2 ^ 51` validators the float formulas compute the documented
`⌈0.6 N⌉` and `⌊0.4 N⌋` exactly. -/
theorem counts_eq_of_le {set : Validators} (small : set.len ≤ 2 ^ 51) :
    optimalQuorumSize set = (3 * set.len + 4) / 5 ∧ legacyQuorumSize set = (3 * set.len + 4) / 5 ∧
      calcMaxFaultyNodes set = 2 * set.len / 5 :=
  ⟨quorumSize_eq_of_le small, quorumSize_eq_of_le small, calcMaxFaultyNodes_eq_of_le small⟩

theorem counts_at_ten :
    (roster 10 (by norm_num)).len ≤ 2 ^ 51 ∧
      (optimalQuorumSize (roster 10 (by norm_num)) = (3 * (roster 10 (by norm_num)).len + 4) / 5 ∧
        legacyQuorumSize (roster 10 (by norm_num)) = (3 * (roster 10 (by norm_num)).len + 4) / 5 ∧
        calcMaxFaultyNodes (roster 10 (by norm_num)) = 2 * (roster 10 (by norm_num)).len / 5) :=
  ⟨by decide, counts_eq_of_le (by decide)⟩

theorem quorum_overlap_at_seven :
    0 < (roster 7 (by norm_num)).len ∧
      ((calcMaxFaultyNodes (roster 7 (by norm_num)) + (roster 7 (by norm_num)).len <
          2 * optimalQuorumSize (roster 7 (by norm_num)) ↔ (roster 7 (by norm_num)).len ∈ [1, 2, 4, 7]) ∧
        (calcMaxFaultyNodes (roster 7 (by norm_num)) + (roster 7 (by norm_num)).len <
          2 * legacyQuorumSize (roster 7 (by norm_num)) ↔ (roster 7 (by norm_num)).len ∈ [1, 2, 4, 7]) ∧
        (roster 7 (by norm_num)).len < 2 * optimalQuorumSize (roster 7 (by norm_num))) :=
  ⟨by decide, quorum_overlap_exceeds_faulty_iff _ (by decide)⟩

theorem five_validators_overlap_within_faulty :
    ¬ calcMaxFaultyNodes (roster 5 (by norm_num)) + (roster 5 (by norm_num)).len <
      2 * optimalQuorumSize (roster 5 (by norm_num)) := by
  decide

theorem len_sub_faulty_eq_quorum {set : Validators} (small : set.len ≤ 2 ^ 51) :
    set.len - calcMaxFaultyNodes set = optimalQuorumSize set ∧
      set.len - calcMaxFaultyNodes set = legacyQuorumSize set := by
  have quorum : optimalQuorumSize set = (3 * set.len + 4) / 5 := quorumSize_eq_of_le small
  rw [legacyQuorumSize, ← optimalQuorumSize, quorum, calcMaxFaultyNodes_eq_of_le small]
  omega

theorem len_sub_faulty_at_ten :
    (roster 10 (by norm_num)).len ≤ 2 ^ 51 ∧
      ((roster 10 (by norm_num)).len - calcMaxFaultyNodes (roster 10 (by norm_num)) =
          optimalQuorumSize (roster 10 (by norm_num)) ∧
        (roster 10 (by norm_num)).len - calcMaxFaultyNodes (roster 10 (by norm_num)) =
          legacyQuorumSize (roster 10 (by norm_num))) :=
  ⟨by decide, len_sub_faulty_eq_quorum (by decide)⟩

private theorem float64Mul_mono (c : Dyadic) {m n : Nat} (le : m ≤ n) :
    (float64Mul c (float64OfInt m)).val ≤ (float64Mul c (float64OfInt n)).val := by
  have convert := Dyadic.round_mono (by norm_num : 0 < 53)
    (show (Dyadic.ofNat m).val ≤ (Dyadic.ofNat n).val by simpa using le)
  exact Dyadic.round_mono (by norm_num)
    (by simpa only [Dyadic.val_mul] using mul_le_mul_of_nonneg_left convert c.val_nonneg)

/-- Adding validators never lowers the quorum or the faulty count, at any size:
the conversion, the product and each rounding keep the order of the sizes, also
past `2 ^ 53` where the conversion is no longer exact. -/
theorem counts_mono {s t : Validators} (le : s.len ≤ t.len) :
    optimalQuorumSize s ≤ optimalQuorumSize t ∧ legacyQuorumSize s ≤ legacyQuorumSize t ∧
      calcMaxFaultyNodes s ≤ calcMaxFaultyNodes t := by
  have quorum : quorumSize float64Point6 s ≤ quorumSize float64Point6 t := by
    unfold quorumSize
    rw [Dyadic.ceil_eq, Dyadic.ceil_eq]
    exact Nat.ceil_mono (float64Mul_mono _ le)
  have faulty : calcMaxFaultyNodes s ≤ calcMaxFaultyNodes t := by
    unfold calcMaxFaultyNodes
    rw [Dyadic.floor_eq, Dyadic.floor_eq]
    exact Nat.floor_mono (float64Mul_mono _ le)
  exact ⟨quorum, quorum, faulty⟩

theorem counts_mono_past_2_53 :
    (roster (2 ^ 53 + 6) (by norm_num)).len ≤ (roster (2 ^ 53 + 7) (by norm_num)).len ∧
      (optimalQuorumSize (roster (2 ^ 53 + 6) (by norm_num)) ≤ optimalQuorumSize (roster (2 ^ 53 + 7) (by norm_num)) ∧
        legacyQuorumSize (roster (2 ^ 53 + 6) (by norm_num)) ≤ legacyQuorumSize (roster (2 ^ 53 + 7) (by norm_num)) ∧
        calcMaxFaultyNodes (roster (2 ^ 53 + 6) (by norm_num)) ≤ calcMaxFaultyNodes (roster (2 ^ 53 + 7) (by norm_num))) :=
  ⟨by rw [len_roster, len_roster]; norm_num, counts_mono (by rw [len_roster, len_roster]; norm_num)⟩

/-- The ceiling of one rounding and the floor of the other, for a split `x + y = n`
of an integer, add up to at most `n` unless `x` lies halfway between two points of
its grid: `y`'s binade is no higher than `x`'s, so its rounding cannot make up for `x`'s. -/
private theorem ceil_add_floor_le {x y : Dyadic} {n : ℕ} (sum : x.val + y.val = n) (order : y.val < x.val)
    (below : x.val < 2 ^ 53) (offGrid : ∀ k : ℕ, x.val ≠ k + 2 ^ ((bitLen x.mant : ℤ) + x.exp - 54)) :
    (x.round 53).ceil + (y.round 53).floor ≤ n := by
  obtain ⟨k, kle, klt⟩ : ∃ k : ℕ, (k : ℚ) ≤ x.val ∧ x.val < k + 1 :=
    ⟨⌊x.val⌋₊, Nat.floor_le x.val_nonneg, Nat.lt_floor_add_one _⟩
  have within : k ≤ n := by exact_mod_cast (show (k : ℚ) ≤ n by linarith only [kle, sum, y.val_nonneg])
  have rest : ((n - k : ℕ) : ℚ) = n - k := Nat.cast_sub within
  have quorum : (x.round 53).ceil ≤ k + 1 := by
    rw [Dyadic.ceil_eq, Nat.ceil_le]
    exact_mod_cast Dyadic.round_le_nat below (show x.val ≤ (k + 1 : ℕ) by push_cast; linarith only [klt])
  have faulty : (y.round 53).floor ≤ n - k := by
    rw [Dyadic.floor_eq]
    exact Nat.floor_le_of_le (Dyadic.round_le_nat (order.trans below) (by rw [rest]; linarith only [kle, sum]))
  by_contra! over
  have up : (k : ℚ) < (x.round 53).val :=
    Nat.lt_ceil.mp (show k < ⌈(x.round 53).val⌉₊ by rw [← Dyadic.ceil_eq]; omega)
  have reached : (n - k : ℚ) ≤ (y.round 53).val :=
    rest ▸ (Nat.cast_le.mpr (show n - k ≤ (y.round 53).floor by omega)).trans (y.round 53).floor_le
  have step := Dyadic.nat_add_unit_le_round below up
  have binade := x.val_lt_two_zpow
  have errX := abs_le.mp (Dyadic.abs_round_sub_le 53 x binade)
  generalize (bitLen x.mant : ℤ) + x.exp = E at step errX offGrid binade
  have unit : (0 : ℚ) < 2 ^ (E - 53) := zpow_pos two_pos _
  have half : (2 : ℚ) ^ (E - 54) = 2 ^ (E - 53) / 2 := by
    rw [show E - 54 = E - 53 - 1 by ring, zpow_sub_one₀ two_ne_zero]; ring
  push_cast at step errX
  rcases lt_or_le y.val (2 ^ (E - 1)) with lower | same
  · have errY := abs_le.mp (Dyadic.abs_round_sub_le 53 y lower)
    have quarter : (2 : ℚ) ^ (E - 1 - 53) = 2 ^ (E - 53) / 2 := by
      rw [show E - 1 - 53 = E - 53 - 1 by ring, zpow_sub_one₀ two_ne_zero]; ring
    push_cast at errY
    rw [quarter] at errY
    linarith only [sum, reached, step, errX.2, errY.2, unit]
  · have errY := abs_le.mp (Dyadic.abs_round_sub_le 53 y (order.trans binade))
    push_cast at errY
    exact offGrid k (le_antisymm (by linarith only [sum, reached, errY.2, half]) (by linarith only [step, errX.2, half]))

private theorem quorumSize_add_faulty_le_of_not_dvd {n : ℕ} (large : 2 ^ 51 < n) (small : n < 2 ^ 53)
    (notDvd : ¬ 2 ^ 50 ∣ n) :
    (float64Mul float64Point6 (float64OfInt n)).ceil + (float64Mul float64Point4 (float64OfInt n)).floor ≤ n := by
  have quorum := val_product_of_small float64Point6 small
  have faulty := val_product_of_small float64Point4 small
  rw [val_float64Point6] at quorum
  rw [val_float64Point4] at faulty
  have large : (2 ^ 51 : ℚ) < n := by exact_mod_cast large
  have small : (n : ℚ) < 2 ^ 53 := by exact_mod_cast small
  have xLow : (2 : ℚ) ^ (50 : ℤ) < (float64Point6 * float64OfInt n).val := by
    rw [quorum, zpow_ofNat]; linarith only [large]
  have xHigh : (float64Point6 * float64OfInt n).val < (2 : ℚ) ^ (53 : ℤ) := by
    rw [quorum, zpow_ofNat]; linarith only [large, small]
  refine ceil_add_floor_le (by rw [quorum, faulty]; ring) (by rw [quorum, faulty]; linarith only [large])
    (by rwa [zpow_ofNat] at xHigh) fun k tie => ?_
  generalize float64Point6 * float64OfInt n = x at quorum tie xLow xHigh
  have positive : 0 < x.mant := Nat.pos_of_ne_zero fun zero => by
    have : x.val = 0 := by simp [Dyadic.val, zero]
    exact lt_asymm (this ▸ xLow) (zpow_pos two_pos 50)
  have top := Dyadic.bitLen_add_exp_le x positive xHigh
  have bottom := (zpow_lt_zpow_iff_right₀ one_lt_two).mp (xLow.trans x.val_lt_two_zpow)
  obtain ⟨t, exponent⟩ : ∃ t : ℕ, (bitLen x.mant : ℤ) + x.exp - 54 = t - 3 :=
    ⟨((bitLen x.mant : ℤ) + x.exp - 51).toNat, by omega⟩
  rw [exponent, zpow_sub₀ two_ne_zero, zpow_natCast, quorum] at tie
  have scaled : 3 * 2 ^ 53 * n = 2 ^ 50 * (5 * (8 * k + 2 ^ t)) + n := by
    have : (3 * 2 ^ 53 * n : ℚ) = 2 ^ 50 * (5 * (8 * k + 2 ^ t)) + n := by linarith only [tie]
    exact_mod_cast this
  have divides : 2 ^ 50 ∣ 2 ^ 50 * (5 * (8 * k + 2 ^ t)) + n := scaled ▸ Dvd.intro (24 * n) (by ring)
  exact notDvd ((Nat.dvd_add_right (dvd_mul_right _ _)).mp divides)

/-- Below `2 ^ 53 + 7` validators, removing the faulty count always leaves at
least a quorum. Up to `2 ^ 51` the formulas are exact; above, the roundings
drift but never far enough, and the sizes where the argument does not apply,
the multiples of `2 ^ 50` and the six sizes past `2 ^ 53`, are evaluated. -/
theorem quorum_le_len_sub_faulty {set : Validators} (below : set.len < 2 ^ 53 + 7) :
    optimalQuorumSize set ≤ set.len - calcMaxFaultyNodes set ∧
      legacyQuorumSize set ≤ set.len - calcMaxFaultyNodes set := by
  suffices quorumSize float64Point6 set + calcMaxFaultyNodes set ≤ set.len by
    unfold optimalQuorumSize legacyQuorumSize; omega
  rcases le_or_lt set.len (2 ^ 51) with small | large
  · rw [quorumSize_eq_of_le small, calcMaxFaultyNodes_eq_of_le small]; omega
  unfold quorumSize calcMaxFaultyNodes
  generalize set.len = n at below large ⊢
  by_cases regular : n < 2 ^ 53 ∧ ¬ 2 ^ 50 ∣ n
  · exact quorumSize_add_faulty_le_of_not_dvd large regular.1 regular.2
  rcases not_and_or.mp regular with past | multiple
  · obtain ⟨d, rfl⟩ : ∃ d, n = 2 ^ 53 + d := ⟨n - 2 ^ 53, by omega⟩
    have few : d < 7 := by omega
    interval_cases d <;> set_option maxRecDepth 2000 in decide
  · obtain ⟨c, rfl⟩ := not_not.mp multiple
    obtain ⟨low, high⟩ : 2 < c ∧ c < 9 := ⟨by omega, by omega⟩
    interval_cases c <;> set_option maxRecDepth 2000 in decide

theorem quorum_le_len_sub_faulty_past_2_53 :
    (roster (2 ^ 53 + 6) (by norm_num)).len < 2 ^ 53 + 7 ∧
      (optimalQuorumSize (roster (2 ^ 53 + 6) (by norm_num)) ≤
          (roster (2 ^ 53 + 6) (by norm_num)).len - calcMaxFaultyNodes (roster (2 ^ 53 + 6) (by norm_num)) ∧
        legacyQuorumSize (roster (2 ^ 53 + 6) (by norm_num)) ≤
          (roster (2 ^ 53 + 6) (by norm_num)).len - calcMaxFaultyNodes (roster (2 ^ 53 + 6) (by norm_num))) :=
  ⟨by rw [len_roster]; norm_num, quorum_le_len_sub_faulty (by rw [len_roster]; norm_num)⟩

/-- At `2 ^ 53 + 7` validators `float64(N)` rounds up to `2 ^ 53 + 8`, and both
products round up with it: the validators left after removing the faulty count
are one fewer than a quorum. -/
theorem remaining_below_quorum_past_2_53 :
    (roster (2 ^ 53 + 7) (by norm_num)).len - calcMaxFaultyNodes (roster (2 ^ 53 + 7) (by norm_num)) + 1 =
      optimalQuorumSize (roster (2 ^ 53 + 7) (by norm_num)) := by
  rw [calcMaxFaultyNodes, optimalQuorumSize, quorumSize, len_roster]
  set_option maxRecDepth 2000 in decide

end TanConsensus.Ibft
