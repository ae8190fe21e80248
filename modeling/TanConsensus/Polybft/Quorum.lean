import TanConsensus.Polybft.ValidatorSet

/-! What `getQuorumSize` computes: `0.6 * totalVotingPower`, rounded to the total's
precision and then to `float64`, is `⌈3T/5⌉` only up to `2 ^ 51`. -/

namespace TanConsensus.Polybft
open Float

private theorem quorumFloat_eq (T : Nat) :
    (BigFloat.newFloat float64Point6).mul (BigFloat.setInt T) =
      ⟨(float64Point6 * Dyadic.ofNat T).round (max (bitLen T) 64), max (bitLen T) 64⟩ := by
  simp only [BigFloat.mul, BigFloat.newFloat, BigFloat.setInt]
  rw [max_eq_right (le_max_of_le_right (by norm_num))]

private theorem val_product (T : Nat) :
    (float64Point6 * Dyadic.ofNat T).val = (3 / 5 - 1 / (5 * 2 ^ 53)) * T := by
  rw [Dyadic.val_mul, Dyadic.val_ofNat, val_float64Point6]

private theorem getQuorumSize_eq (blockNumber : BitVec 64) (T : Nat) :
    getQuorumSize blockNumber T =
      ((BigFloat.float64 ⟨(float64Point6 * Dyadic.ofNat T).round (max (bitLen T) 64), max (bitLen T) 64⟩).map
        Dyadic.ceil).getD 0 := by
  unfold getQuorumSize
  dsimp only
  rw [quorumFloat_eq]
  cases BigFloat.float64 _ <;> rfl

/-- Up to `2 ^ 51` of total voting power, `getQuorumSize` is `⌈3T/5⌉`. -/
theorem getQuorumSize_eq_of_le (blockNumber : BitVec 64) {T : Nat} (small : T ≤ 2 ^ 51) :
    getQuorumSize blockNumber T = (3 * T + 4) / 5 := by
  have precision : max (bitLen T) 64 = 64 :=
    max_eq_right (bitLen_le_of_lt_two_pow (by omega : T < 2 ^ 64))
  have lower : 3 * T ≤ 5 * ((3 * T + 4) / 5) := by omega
  have upper : 5 * ((3 * T + 4) / 5) ≤ 3 * T + 4 := by omega
  generalize (3 * T + 4) / 5 = c at lower upper ⊢
  have small : (T : ℚ) ≤ 2 ^ 51 := by exact_mod_cast small
  have lower : (3 * T : ℚ) ≤ 5 * c := by exact_mod_cast lower
  have upper : (5 * c : ℚ) ≤ 3 * T + 4 := by exact_mod_cast upper
  have nonneg : (0 : ℚ) ≤ T := Nat.cast_nonneg T
  have product := val_product T
  set x := float64Point6 * Dyadic.ofNat T
  have wide := Dyadic.round_le_nat (show x.val < 2 ^ 64 by rw [product]; linarith only [small])
    (show x.val ≤ c by rw [product]; linarith only [lower, nonneg])
  obtain ⟨wideError, -⟩ := abs_le.mp (Dyadic.abs_round_sub_le 64 x
    (show x.val < (2 : ℚ) ^ (51 : ℤ) by norm_num [product]; linarith only [small]))
  have narrow := Dyadic.round_le_nat (show (x.round 64).val < 2 ^ 53 by linarith only [wide, upper, small]) wide
  obtain ⟨narrowError, -⟩ := abs_le.mp (Dyadic.abs_round_sub_le 53 (x.round 64)
    (show (x.round 64).val < (2 : ℚ) ^ (51 : ℤ) by norm_num; linarith only [wide, upper, small]))
  norm_num at wideError narrowError
  have finite := @BigFloat.float64_eq_some_of_lt ⟨x.round 64, 64⟩ (show _ < (2 : ℚ) ^ 1024 by
    dsimp only; linarith only [narrow, upper, small])
  rw [getQuorumSize_eq, precision, finite]
  rw [product] at wideError
  exact Dyadic.ceil_eq_of_bounds (by linarith only [wideError, narrowError, upper, small]) narrow

private theorem roundings_bounds (T : Nat) :
    (float64Point6 * Dyadic.ofNat T).val * (1 - 1 / 2 ^ 64) * (1 - 1 / 2 ^ 53) ≤
        (((float64Point6 * Dyadic.ofNat T).round (max (bitLen T) 64)).round 53).val ∧
      (((float64Point6 * Dyadic.ofNat T).round (max (bitLen T) 64)).round 53).val ≤
        (float64Point6 * Dyadic.ofNat T).val * (1 + 1 / 2 ^ 64) * (1 + 1 / 2 ^ 53) := by
  set x := float64Point6 * Dyadic.ofNat T
  have coarse : x.val / 2 ^ max (bitLen T) 64 ≤ x.val / 2 ^ 64 :=
    div_le_div_of_nonneg_left x.val_nonneg (by positivity) (pow_le_pow_right₀ one_le_two (le_max_right _ _))
  obtain ⟨wideLow, wideHigh⟩ := abs_le.mp (Dyadic.abs_round_sub_le_rel (max (bitLen T) 64) x)
  obtain ⟨narrowLow, narrowHigh⟩ := abs_le.mp (Dyadic.abs_round_sub_le_rel 53 (x.round (max (bitLen T) 64)))
  constructor <;> linarith

/-- From `2 ^ 1025` of total voting power on, the product overflows `float64`:
`Int` of the infinite ceiling returns nil, and the quorum stays zero. -/
theorem getQuorumSize_eq_zero_of_le (blockNumber : BitVec 64) {T : Nat} (large : 2 ^ 1025 ≤ T) :
    getQuorumSize blockNumber T = 0 := by
  obtain ⟨lower, -⟩ := roundings_bounds T
  rw [val_product] at lower
  have large : (2 ^ 1025 : ℚ) ≤ T := by exact_mod_cast large
  have infinite := @BigFloat.float64_eq_none ⟨_, max (bitLen T) 64⟩ (show (2 : ℚ) ^ 1024 ≤ _ by
    dsimp only; linarith)
  rw [getQuorumSize_eq, infinite]
  rfl

private theorem val_round_product_two_pow {prec : Nat} (wide : 53 ≤ prec) (k : Nat) :
    ((float64Point6 * Dyadic.ofNat (2 ^ k)).round prec).val = (float64Point6 * Dyadic.ofNat (2 ^ k)).val := by
  have fits : bitLen 5404319552844595 ≤ prec :=
    (bitLen_le_of_lt_two_pow (by norm_num : 5404319552844595 < 2 ^ 53)).trans wide
  rw [show float64Point6 * Dyadic.ofNat (2 ^ k) = ⟨5404319552844595 * 2 ^ k, -53 + 0⟩ from rfl,
    Dyadic.val_round_mul_two_pow, Dyadic.round_exact _ fits]
  simp only [Dyadic.val, zpow_add₀ (two_ne_zero : (2 : ℚ) ≠ 0), zpow_natCast]
  push_cast
  ring

private theorem product_mono {T U : Nat} (le : T ≤ U) :
    (float64Point6 * Dyadic.ofNat T).val ≤ (float64Point6 * Dyadic.ofNat U).val := by
  rw [val_product, val_product]
  exact mul_le_mul_of_nonneg_left (by exact_mod_cast le) (by norm_num)

private theorem wide_mono {T U : Nat} (le : T ≤ U) :
    ((float64Point6 * Dyadic.ofNat T).round (max (bitLen T) 64)).val ≤
      ((float64Point6 * Dyadic.ofNat U).round (max (bitLen U) 64)).val := by
  rcases Nat.eq_or_lt_of_le (max_le_max (bitLen_mono le) le_rfl : max (bitLen T) 64 ≤ max (bitLen U) 64)
    with same | raised
  · rw [same]
    exact Dyadic.round_mono (by positivity) (product_mono le)
  have longer : bitLen T + 1 ≤ bitLen U := by omega
  have lower : 2 ^ (bitLen U - 1) ≤ U := by
    have := two_pow_bitLen_le (show 0 < U by by_contra zero; simp [Nat.eq_zero_of_not_pos zero] at longer)
    rw [show bitLen U = bitLen U - 1 + 1 by omega, Nat.pow_succ] at this
    omega
  calc _ ≤ ((float64Point6 * Dyadic.ofNat (2 ^ bitLen T)).round (max (bitLen T) 64)).val :=
        Dyadic.round_mono (by positivity) (product_mono (lt_two_pow_bitLen T).le)
    _ = (float64Point6 * Dyadic.ofNat (2 ^ bitLen T)).val := val_round_product_two_pow (by omega) _
    _ ≤ (float64Point6 * Dyadic.ofNat (2 ^ (bitLen U - 1))).val :=
        product_mono (Nat.pow_le_pow_right (by norm_num) (by omega))
    _ = ((float64Point6 * Dyadic.ofNat (2 ^ (bitLen U - 1))).round (max (bitLen U) 64)).val :=
        (val_round_product_two_pow (by omega) _).symm
    _ ≤ _ := Dyadic.round_mono (by positivity) (product_mono lower)

/-- Up to `2 ^ 1024` of total voting power, a larger total never gets a smaller
quorum: the conversion, the product at the total's precision, the rounding to
`float64` and `math.Ceil` all keep the order. Past that the product may overflow
and the quorum falls to zero. -/
theorem getQuorumSize_mono (blockNumber : BitVec 64) {T U : Nat} (le : T ≤ U) (finite : U ≤ 2 ^ 1024) :
    getQuorumSize blockNumber T ≤ getQuorumSize blockNumber U := by
  have finite : (U : ℚ) ≤ 2 ^ 1024 := by exact_mod_cast finite
  have order : (T : ℚ) ≤ U := by exact_mod_cast le
  have nonneg : (0 : ℚ) ≤ T := Nat.cast_nonneg T
  have positive : (0 : ℚ) < 2 ^ 1024 := by positivity
  obtain ⟨-, upperT⟩ := roundings_bounds T
  obtain ⟨-, upperU⟩ := roundings_bounds U
  rw [val_product] at upperT upperU
  rw [getQuorumSize_eq, getQuorumSize_eq,
    @BigFloat.float64_eq_some_of_lt ⟨_, max (bitLen T) 64⟩ (by dsimp only; linarith only [upperT, order, finite, nonneg, positive]),
    @BigFloat.float64_eq_some_of_lt ⟨_, max (bitLen U) 64⟩ (by dsimp only; linarith only [upperU, order, finite, nonneg, positive])]
  simp only [Option.map_some', Option.getD_some, Dyadic.ceil_eq]
  exact Nat.ceil_mono (Dyadic.round_mono (by norm_num) (wide_mono le))

theorem getQuorumSize_mono_at_overflow :
    2 ^ 1023 ≤ 2 ^ 1024 ∧ 2 ^ 1024 ≤ 2 ^ 1024 ∧ getQuorumSize 0 (2 ^ 1023) ≤ getQuorumSize 0 (2 ^ 1024) :=
  ⟨Nat.pow_le_pow_right (by norm_num) (by norm_num), le_rfl,
    getQuorumSize_mono 0 (Nat.pow_le_pow_right (by norm_num) (by norm_num)) le_rfl⟩

private theorem five_mul_getQuorumSize_lt (blockNumber : BitVec 64) (T : Nat) :
    (5 * getQuorumSize blockNumber T : ℚ) < 3 * T + T / 2 ^ 50 + 5 := by
  have nonneg : (0 : ℚ) ≤ T := Nat.cast_nonneg T
  rw [getQuorumSize_eq]
  cases finite : BigFloat.float64 _ with
  | none => simp only [Option.map_none', Option.getD_none, Nat.cast_zero, mul_zero]; positivity
  | some f =>
    rw [Option.map_some', Option.getD_some, BigFloat.eq_round_of_float64_eq_some finite]
    obtain ⟨-, upper⟩ := roundings_bounds T
    rw [val_product] at upper
    have ceil := Dyadic.ceil_lt_add_one (((float64Point6 * Dyadic.ofNat T).round (max (bitLen T) 64)).round 53)
    linarith

theorem getQuorumSize_le (blockNumber : BitVec 64) (T : Nat) : getQuorumSize blockNumber T ≤ T := by
  have bound := five_mul_getQuorumSize_lt blockNumber T
  have : (getQuorumSize blockNumber T : ℚ) < T + 1 := by linarith [(Nat.cast_nonneg T : (0 : ℚ) ≤ T)]
  exact Nat.lt_succ_iff.mp (by exact_mod_cast this)

private theorem three_mul_le_five_mul_getQuorumSize (blockNumber : BitVec 64) {T : Nat} (finite : T < 2 ^ 1023) :
    (3 * T : ℚ) ≤ 5 * getQuorumSize blockNumber T + T / 2 ^ 50 := by
  obtain ⟨lower, upper⟩ := roundings_bounds T
  rw [val_product] at lower upper
  have finite : (T : ℚ) < 2 ^ 1023 := by exact_mod_cast finite
  have nonneg : (0 : ℚ) ≤ T := Nat.cast_nonneg T
  have some := @BigFloat.float64_eq_some_of_lt ⟨_, max (bitLen T) 64⟩ (show _ < (2 : ℚ) ^ 1024 by
    dsimp only; linarith only [upper, finite, nonneg])
  rw [getQuorumSize_eq, some, Option.map_some', Option.getD_some]
  have ceil := Dyadic.le_ceil (((float64Point6 * Dyadic.ofNat T).round (max (bitLen T) 64)).round 53)
  linarith only [lower, ceil, nonneg]

/-- Below `2 ^ 1023` of total voting power, a signer set that passes `HasQuorum`
holds three fifths of the power less at most a `2 ^ 50`-th of the total. -/
theorem signedPower_of_hasQuorum (valz : AccountSet) (distinct : (valz.map (·.address)).Nodup)
    (finite : valz.getTotalVotingPower < 2 ^ 1023) (blockNumber : BitVec 64) {signers : SignerMap}
    (reached : (newValidatorSet valz).hasQuorum blockNumber signers = true) :
    2 ^ 50 * (3 * valz.getTotalVotingPower) ≤
      2 ^ 50 * (5 * signedPower valz signers.keys) + valz.getTotalVotingPower := by
  simp only [ValidatorSet.hasQuorum, decide_eq_true_eq, aggregateVotingPower_newValidatorSet valz distinct] at reached
  change getQuorumSize blockNumber valz.getTotalVotingPower ≤ _ at reached
  have bound := three_mul_le_five_mul_getQuorumSize blockNumber finite
  have reached : (getQuorumSize blockNumber valz.getTotalVotingPower : ℚ) ≤ signedPower valz signers.keys := by
    exact_mod_cast reached
  have : (2 ^ 50 * (3 * valz.getTotalVotingPower) : ℚ) ≤
      2 ^ 50 * (5 * signedPower valz signers.keys) + valz.getTotalVotingPower := by linarith
  exact_mod_cast this

/-- A signer set holding three fifths of the power, a `2 ^ 50`-th of the total
and one unit more, always passes `HasQuorum`. -/
theorem hasQuorum_of_signedPower (valz : AccountSet) (distinct : (valz.map (·.address)).Nodup)
    (blockNumber : BitVec 64) {signers : SignerMap}
    (enough : 2 ^ 50 * (3 * valz.getTotalVotingPower + 5) + valz.getTotalVotingPower ≤
      2 ^ 50 * (5 * signedPower valz signers.keys)) :
    (newValidatorSet valz).hasQuorum blockNumber signers = true := by
  simp only [ValidatorSet.hasQuorum, decide_eq_true_eq, aggregateVotingPower_newValidatorSet valz distinct]
  change getQuorumSize blockNumber valz.getTotalVotingPower ≤ _
  have bound := five_mul_getQuorumSize_lt blockNumber valz.getTotalVotingPower
  have enough : (2 ^ 50 * (3 * valz.getTotalVotingPower + 5) + valz.getTotalVotingPower : ℚ) ≤
      2 ^ 50 * (5 * signedPower valz signers.keys) := by exact_mod_cast enough
  have : (getQuorumSize blockNumber valz.getTotalVotingPower : ℚ) < signedPower valz signers.keys := by linarith
  exact_mod_cast this.le

theorem hasQuorum_of_signedPower_at_two :
    (([⟨1, 7⟩, ⟨2, 5⟩] : AccountSet).map (·.address)).Nodup ∧
      2 ^ 50 * (3 * AccountSet.getTotalVotingPower [⟨1, 7⟩, ⟨2, 5⟩] + 5) + AccountSet.getTotalVotingPower [⟨1, 7⟩, ⟨2, 5⟩] ≤
        2 ^ 50 * (5 * signedPower [⟨1, 7⟩, ⟨2, 5⟩] [1, 2]) ∧
      (newValidatorSet [⟨1, 7⟩, ⟨2, 5⟩]).hasQuorum 0 ⟨[1, 2], by decide⟩ = true :=
  have enough : 2 ^ 50 * (3 * AccountSet.getTotalVotingPower [⟨1, 7⟩, ⟨2, 5⟩] + 5) +
      AccountSet.getTotalVotingPower [⟨1, 7⟩, ⟨2, 5⟩] ≤ 2 ^ 50 * (5 * signedPower [⟨1, 7⟩, ⟨2, 5⟩] [1, 2]) := by decide
  ⟨by decide, enough, @hasQuorum_of_signedPower [⟨1, 7⟩, ⟨2, 5⟩] (by decide) 0 ⟨[1, 2], by decide⟩ enough⟩

theorem hasQuorum_iff_of_le (valz : AccountSet) (distinct : (valz.map (·.address)).Nodup)
    (small : valz.getTotalVotingPower ≤ 2 ^ 51) (blockNumber : BitVec 64) (signers : SignerMap) :
    (newValidatorSet valz).hasQuorum blockNumber signers = true ↔
      3 * valz.getTotalVotingPower ≤ 5 * signedPower valz signers.keys := by
  simp only [ValidatorSet.hasQuorum, decide_eq_true_eq, aggregateVotingPower_newValidatorSet valz distinct]
  show getQuorumSize blockNumber valz.getTotalVotingPower ≤ _ ↔ _
  rw [getQuorumSize_eq_of_le blockNumber small]
  omega

theorem hasQuorum_iff_at_four_validators :
    (([⟨1, 10⟩, ⟨2, 10⟩, ⟨3, 10⟩, ⟨4, 10⟩] : AccountSet).map (·.address)).Nodup ∧
      AccountSet.getTotalVotingPower [⟨1, 10⟩, ⟨2, 10⟩, ⟨3, 10⟩, ⟨4, 10⟩] ≤ 2 ^ 51 ∧
      ((newValidatorSet [⟨1, 10⟩, ⟨2, 10⟩, ⟨3, 10⟩, ⟨4, 10⟩]).hasQuorum 0 ⟨[1, 2, 3], by decide⟩ = true ↔
        3 * AccountSet.getTotalVotingPower [⟨1, 10⟩, ⟨2, 10⟩, ⟨3, 10⟩, ⟨4, 10⟩] ≤
          5 * signedPower [⟨1, 10⟩, ⟨2, 10⟩, ⟨3, 10⟩, ⟨4, 10⟩] [1, 2, 3]) :=
  ⟨by decide, by decide, hasQuorum_iff_of_le _ (by decide) (by decide) 0 ⟨[1, 2, 3], by decide⟩⟩

theorem hasQuorum_all_signers (valz : AccountSet) (distinct : (valz.map (·.address)).Nodup)
    (blockNumber : BitVec 64) : (newValidatorSet valz).hasQuorum blockNumber ⟨_, distinct⟩ = true := by
  simp only [ValidatorSet.hasQuorum, decide_eq_true_eq, aggregateVotingPower_newValidatorSet valz distinct,
    signedPower_all]
  exact getQuorumSize_le blockNumber _

theorem hasQuorum_all_signers_at_two :
    (([⟨1, 7⟩, ⟨2, 5⟩] : AccountSet).map (·.address)).Nodup ∧
      (newValidatorSet [⟨1, 7⟩, ⟨2, 5⟩]).hasQuorum 0 ⟨[1, 2], by decide⟩ = true :=
  ⟨by decide, hasQuorum_all_signers [⟨1, 7⟩, ⟨2, 5⟩] (by decide) 0⟩

theorem hasQuorum_of_overflow (valz : AccountSet) (large : 2 ^ 1025 ≤ valz.getTotalVotingPower)
    (blockNumber : BitVec 64) (signers : SignerMap) :
    (newValidatorSet valz).hasQuorum blockNumber signers = true := by
  simp only [ValidatorSet.hasQuorum, decide_eq_true_eq]
  show getQuorumSize blockNumber valz.getTotalVotingPower ≤ _
  rw [getQuorumSize_eq_zero_of_le blockNumber large]
  exact Nat.zero_le _

theorem hasQuorum_of_overflow_empty :
    2 ^ 1025 ≤ AccountSet.getTotalVotingPower [⟨1, 2 ^ 1025⟩] ∧
      (newValidatorSet [⟨1, 2 ^ 1025⟩]).hasQuorum 0 ⟨[], List.nodup_nil⟩ = true :=
  have large : 2 ^ 1025 ≤ AccountSet.getTotalVotingPower [⟨1, 2 ^ 1025⟩] := by simp [AccountSet.getTotalVotingPower]
  ⟨large, hasQuorum_of_overflow _ large 0 _⟩

def splitStakeRoster : AccountSet := [⟨1, 3 * 10 ^ 24 - 50331648⟩, ⟨2, 2 * 10 ^ 24 + 50331648⟩]

/-- At a total of `5 * 10 ^ 24` the threshold is `50331648` below three fifths,
and the first validator alone passes `HasQuorum` with less than three fifths of
the voting power. -/
theorem hasQuorum_below_three_fifths :
    getQuorumSize 0 splitStakeRoster.getTotalVotingPower = 3 * 10 ^ 24 - 50331648 ∧
      (newValidatorSet splitStakeRoster).hasQuorum 0 ⟨[1], by decide⟩ = true ∧
      5 * signedPower splitStakeRoster [1] < 3 * splitStakeRoster.getTotalVotingPower := by
  set_option maxRecDepth 4000 in decide

theorem signedPower_of_hasQuorum_split_stake :
    (splitStakeRoster.map (·.address)).Nodup ∧ splitStakeRoster.getTotalVotingPower < 2 ^ 1023 ∧
      (newValidatorSet splitStakeRoster).hasQuorum 0 ⟨[1], by decide⟩ = true ∧
      2 ^ 50 * (3 * splitStakeRoster.getTotalVotingPower) ≤
        2 ^ 50 * (5 * signedPower splitStakeRoster [1]) + splitStakeRoster.getTotalVotingPower :=
  have reached : (newValidatorSet splitStakeRoster).hasQuorum 0 ⟨[1], by decide⟩ = true := by
    set_option maxRecDepth 4000 in decide
  have finite : splitStakeRoster.getTotalVotingPower < 2 ^ 1023 :=
    Nat.lt_of_lt_of_le (by decide : splitStakeRoster.getTotalVotingPower < 2 ^ 100)
      (Nat.pow_le_pow_right (by decide) (by decide))
  ⟨by decide, finite, reached, @signedPower_of_hasQuorum splitStakeRoster (by decide) finite 0 ⟨[1], by decide⟩ reached⟩

end TanConsensus.Polybft
