import TanConsensus.Float.Dyadic

/-! Rounding to a number of mantissa bits, ties to even, as `big.Float` rounds to
its precision and `float64` arithmetic to 53 bits, with its error bounds. -/

namespace TanConsensus.Float

/-- `m / 2 ^ s` rounded to nearest, ties to even: the kept part goes up when the
dropped part is above half, or exactly half with the kept part odd. -/
def roundShift (m s : Nat) : Nat :=
  if 2 ^ s < 2 * (m % 2 ^ s) ∨ (2 * (m % 2 ^ s) = 2 ^ s ∧ m / 2 ^ s % 2 = 1) then m / 2 ^ s + 1
  else m / 2 ^ s

@[simp] theorem roundShift_zero (m : Nat) : roundShift m 0 = m := by simp [roundShift, Nat.mod_one]

theorem roundShift_error (m s : Nat) :
    2 * m ≤ 2 * (roundShift m s * 2 ^ s) + 2 ^ s ∧ 2 * (roundShift m s * 2 ^ s) ≤ 2 * m + 2 ^ s := by
  have split := Nat.div_add_mod m (2 ^ s)
  have small := Nat.mod_lt m (Nat.two_pow_pos s)
  rw [Nat.mul_comm] at split
  unfold roundShift
  split
  · rw [Nat.add_mul, Nat.one_mul]; omega
  · omega

theorem roundShift_grid (n s : Nat) : roundShift (n * 2 ^ s) s = n := by
  have := Nat.two_pow_pos s
  simp only [roundShift, Nat.mul_mod_left, Nat.mul_div_cancel _ this]
  split <;> omega

theorem roundShift_mono {m m' : Nat} (le : m ≤ m') (s : Nat) : roundShift m s ≤ roundShift m' s := by
  rcases Nat.eq_or_lt_of_le le with rfl | lt
  · exact le_rfl
  have upper := (roundShift_error m s).2
  have lower := (roundShift_error m' s).1
  have : roundShift m s * 2 ^ s < (roundShift m' s + 1) * 2 ^ s := by rw [Nat.succ_mul]; omega
  exact Nat.lt_succ_iff.mp (Nat.lt_of_mul_lt_mul_right this)

theorem roundShift_le_of_le {m n s : Nat} (le : m ≤ n * 2 ^ s) : roundShift m s ≤ n :=
  roundShift_grid n s ▸ roundShift_mono le s

theorem le_roundShift_of_le {m n s : Nat} (le : n * 2 ^ s ≤ m) : n ≤ roundShift m s :=
  roundShift_grid n s ▸ roundShift_mono le s

theorem roundShift_mul_two_pow (m s d : Nat) : roundShift (m * 2 ^ d) (s + d) = roundShift m s := by
  have positive := Nat.two_pow_pos d
  have mod : m * 2 ^ d % 2 ^ (s + d) = m % 2 ^ s * 2 ^ d := by rw [Nat.pow_add, Nat.mul_mod_mul_right]
  have div : m * 2 ^ d / 2 ^ (s + d) = m / 2 ^ s := by rw [Nat.pow_add, Nat.mul_div_mul_right _ _ positive]
  unfold roundShift
  rw [mod, div]
  simp only [Nat.pow_add, ← Nat.mul_assoc, Nat.mul_lt_mul_right positive, Nat.mul_left_inj positive.ne']

theorem roundShift_bits_mono {prec : Nat} (bits : 0 < prec) {m n : Nat} (le : m ≤ n) :
    roundShift m (bitLen m - prec) * 2 ^ (bitLen m - prec) ≤ roundShift n (bitLen n - prec) * 2 ^ (bitLen n - prec) := by
  rcases Nat.eq_or_lt_of_le (bitLen_mono le) with same | lower
  · rw [same]; exact Nat.mul_le_mul_right _ (roundShift_mono le _)
  have below : roundShift m (bitLen m - prec) * 2 ^ (bitLen m - prec) ≤ 2 ^ bitLen m := by
    have := roundShift_le_of_le (show m ≤ 2 ^ (bitLen m - (bitLen m - prec)) * 2 ^ (bitLen m - prec) by
      rw [← Nat.pow_add, Nat.sub_add_cancel (Nat.sub_le _ _)]; exact (lt_two_pow_bitLen m).le)
    calc _ ≤ 2 ^ (bitLen m - (bitLen m - prec)) * 2 ^ (bitLen m - prec) := Nat.mul_le_mul_right _ this
      _ = 2 ^ bitLen m := by rw [← Nat.pow_add, Nat.sub_add_cancel (Nat.sub_le _ _)]
  have above : 2 ^ (bitLen n - 1) ≤ roundShift n (bitLen n - prec) * 2 ^ (bitLen n - prec) := by
    have top := two_pow_bitLen_le (show 0 < n by by_contra zero; simp [Nat.eq_zero_of_not_pos zero] at lower)
    have split : 2 ^ (bitLen n - 1) = 2 ^ (bitLen n - 1 - (bitLen n - prec)) * 2 ^ (bitLen n - prec) := by
      rw [← Nat.pow_add]; congr 1; omega
    have half : 2 ^ (bitLen n - 1) ≤ n := by
      rw [show bitLen n = bitLen n - 1 + 1 by omega, Nat.pow_succ] at top; omega
    rw [split] at half ⊢
    exact Nat.mul_le_mul_right _ (le_roundShift_of_le half)
  calc _ ≤ 2 ^ bitLen m := below
    _ ≤ 2 ^ (bitLen n - 1) := Nat.pow_le_pow_right (by norm_num) (by omega)
    _ ≤ _ := above

namespace Dyadic

/-- `big.Float` rounding to `prec` mantissa bits in mode `ToNearestEven`, the
zero value of `RoundingMode` and so the mode of every float in the code. A
mantissa that already fits is kept as it is. -/
def round (prec : Nat) (x : Dyadic) : Dyadic :=
  ⟨roundShift x.mant (bitLen x.mant - prec), x.exp + (bitLen x.mant - prec : Nat)⟩

theorem round_exact {prec : Nat} (x : Dyadic) (fits : bitLen x.mant ≤ prec) : x.round prec = x := by
  simp [round, Nat.sub_eq_zero_of_le fits]

theorem val_round (prec : Nat) (x : Dyadic) :
    (x.round prec).val =
      ((roundShift x.mant (bitLen x.mant - prec) * 2 ^ (bitLen x.mant - prec) : ℕ) : ℚ) * 2 ^ x.exp := by
  simp only [round, val, zpow_add₀ (two_ne_zero : (2 : ℚ) ≠ 0), zpow_natCast]
  push_cast
  ring

private theorem mant_pos {prec : Nat} {x : Dyadic} (rounds : ¬ bitLen x.mant ≤ prec) : 0 < x.mant :=
  Nat.pos_of_ne_zero fun zero => rounds (by simp [zero])

private theorem abs_round_sub_le_unit (prec : Nat) (x : Dyadic) :
    |(x.round prec).val - x.val| ≤ 2 ^ (bitLen x.mant - prec) / 2 * 2 ^ x.exp := by
  rw [val_round, val, ← sub_mul, abs_mul, abs_of_pos (zpow_pos (two_pos : (0 : ℚ) < 2) x.exp)]
  refine mul_le_mul_of_nonneg_right (abs_le.mpr ?_) (zpow_nonneg zero_le_two _)
  obtain ⟨lower, upper⟩ := roundShift_error x.mant (bitLen x.mant - prec)
  generalize bitLen x.mant - prec = s at lower upper ⊢
  generalize roundShift x.mant s * 2 ^ s = r at lower upper ⊢
  have lower : (2 * x.mant : ℚ) ≤ 2 * r + 2 ^ s := by exact_mod_cast lower
  have upper : (2 * r : ℚ) ≤ 2 * x.mant + 2 ^ s := by exact_mod_cast upper
  constructor <;> linarith

/-- Half a unit of the binade below `2 ^ E`. -/
theorem abs_round_sub_le (prec : Nat) (x : Dyadic) {E : ℤ} (below : x.val < 2 ^ E) :
    |(x.round prec).val - x.val| ≤ 2 ^ (E - prec) / 2 := by
  by_cases fits : bitLen x.mant ≤ prec
  · rw [round_exact x fits, sub_self, abs_zero]; positivity
  have unit := bitLen_add_exp_le x (mant_pos fits) below
  have shift : ((bitLen x.mant - prec : ℕ) : ℤ) = bitLen x.mant - prec := Nat.cast_sub (Nat.le_of_not_le fits)
  refine (abs_round_sub_le_unit prec x).trans ?_
  rw [div_mul_eq_mul_div, ← zpow_natCast, ← zpow_add₀ two_ne_zero]
  exact div_le_div_of_nonneg_right (zpow_le_zpow_right₀ one_le_two (by omega)) zero_le_two

/-- The relative error: at most a `2 ^ prec`-th of the value. -/
theorem abs_round_sub_le_rel (prec : Nat) (x : Dyadic) :
    |(x.round prec).val - x.val| ≤ x.val / 2 ^ prec := by
  by_cases fits : bitLen x.mant ≤ prec
  · rw [round_exact x fits, sub_self, abs_zero]; exact div_nonneg x.val_nonneg (by positivity)
  refine (abs_round_sub_le_unit prec x).trans ?_
  have bits : 2 ^ (bitLen x.mant - prec) * 2 ^ prec ≤ 2 * x.mant := by
    rw [← Nat.pow_add, Nat.sub_add_cancel (Nat.le_of_not_le fits)]
    exact two_pow_bitLen_le (mant_pos fits)
  replace bits : (2 ^ (bitLen x.mant - prec) * 2 ^ prec : ℚ) ≤ 2 * x.mant := by exact_mod_cast bits
  rw [val, le_div_iff₀ (by positivity)]
  calc (2 : ℚ) ^ (bitLen x.mant - prec) / 2 * 2 ^ x.exp * 2 ^ prec
      = 2 ^ (bitLen x.mant - prec) * 2 ^ prec / 2 * 2 ^ x.exp := by ring
    _ ≤ 2 * x.mant / 2 * 2 ^ x.exp :=
      mul_le_mul_of_nonneg_right (div_le_div_of_nonneg_right bits zero_le_two) (zpow_nonneg zero_le_two _)
    _ = x.mant * 2 ^ x.exp := by ring

private theorem nat_eq_scaled (k t s : ℕ) (e : ℤ) (sum : (t : ℤ) + s + e = 0) :
    (k : ℚ) = ((k * 2 ^ t * 2 ^ s : ℕ) : ℚ) * 2 ^ e := by
  have one : (2 : ℚ) ^ (t : ℤ) * 2 ^ (s : ℤ) * 2 ^ e = 1 := by
    rw [← zpow_add₀ two_ne_zero, ← zpow_add₀ two_ne_zero, sum, zpow_zero]
  rw [zpow_natCast, zpow_natCast] at one
  push_cast
  calc (k : ℚ) = k * (2 ^ t * 2 ^ s * 2 ^ e) := by rw [one, mul_one]
    _ = _ := by ring

private theorem scaled_le {m n : ℕ} (e : ℤ) : (m : ℚ) * 2 ^ e ≤ n * 2 ^ e ↔ m ≤ n := by
  rw [mul_le_mul_right (zpow_pos two_pos e), Nat.cast_le]

private theorem round_integer_bounds (prec : Nat) (x : Dyadic) (below : x.val < 2 ^ prec) (k : ℕ) :
    (x.val ≤ k → (x.round prec).val ≤ k) ∧ ((k : ℚ) ≤ x.val → (k : ℚ) ≤ (x.round prec).val) := by
  by_cases fits : bitLen x.mant ≤ prec
  · rw [round_exact x fits]; exact ⟨id, id⟩
  have unit := bitLen_add_exp_le x (mant_pos fits) (show x.val < (2 : ℚ) ^ (prec : ℤ) by rwa [zpow_natCast])
  have shift : ((bitLen x.mant - prec : ℕ) : ℤ) = bitLen x.mant - prec := Nat.cast_sub (Nat.le_of_not_le fits)
  obtain ⟨t, sum⟩ : ∃ t : ℕ, (t : ℤ) + (bitLen x.mant - prec : ℕ) + x.exp = 0 :=
    ⟨(-((bitLen x.mant - prec : ℕ) + x.exp)).toNat, by omega⟩
  rw [nat_eq_scaled k t _ x.exp sum, val_round, val, scaled_le, scaled_le, scaled_le, scaled_le]
  exact ⟨fun le => Nat.mul_le_mul_right _ (roundShift_le_of_le le),
    fun le => Nat.mul_le_mul_right _ (le_roundShift_of_le le)⟩

theorem round_le_nat {prec : Nat} {x : Dyadic} (below : x.val < 2 ^ prec) {k : ℕ} (le : x.val ≤ k) :
    (x.round prec).val ≤ k :=
  (round_integer_bounds prec x below k).1 le

theorem nat_le_round {prec : Nat} {x : Dyadic} (below : x.val < 2 ^ prec) {k : ℕ} (le : (k : ℚ) ≤ x.val) :
    (k : ℚ) ≤ (x.round prec).val :=
  (round_integer_bounds prec x below k).2 le

theorem val_round_mul_two_pow (prec m d : Nat) (e : ℤ) :
    ((⟨m * 2 ^ d, e⟩ : Dyadic).round prec).val = ((⟨m, e + d⟩ : Dyadic).round prec).val := by
  rcases Nat.eq_zero_or_pos m with rfl | positive
  · simp [round, val]
  simp only [val_round, bitLen_mul_two_pow positive]
  by_cases fits : bitLen m ≤ prec
  · obtain ⟨t, shift⟩ : ∃ t, d = t + (bitLen m + d - prec) := ⟨d - (bitLen m + d - prec), by omega⟩
    have split : m * 2 ^ d = m * 2 ^ t * 2 ^ (bitLen m + d - prec) := by
      rw [Nat.mul_assoc, ← Nat.pow_add, ← shift]
    rw [Nat.sub_eq_zero_of_le fits, roundShift_zero, pow_zero, mul_one,
      show roundShift (m * 2 ^ d) (bitLen m + d - prec) = m * 2 ^ t by rw [split]; exact roundShift_grid _ _,
      Nat.mul_assoc, ← Nat.pow_add, ← shift]
    push_cast
    rw [zpow_add₀ two_ne_zero, zpow_natCast]; ring
  · rw [show bitLen m + d - prec = bitLen m - prec + d by omega, roundShift_mul_two_pow]
    push_cast
    rw [zpow_add₀ two_ne_zero, zpow_natCast]; ring

/-- Rounding is monotone: compared at the smaller of the two exponents, the
mantissas keep their order. -/
theorem round_mono {prec : Nat} (bits : 0 < prec) {x y : Dyadic} (le : x.val ≤ y.val) :
    (x.round prec).val ≤ (y.round prec).val := by
  obtain ⟨m, ex⟩ := x
  obtain ⟨n, ey⟩ := y
  obtain ⟨e, dx, dy, rfl, rfl⟩ : ∃ e : ℤ, ∃ dx dy : ℕ, ex = e + dx ∧ ey = e + dy :=
    ⟨min ex ey, (ex - min ex ey).toNat, (ey - min ex ey).toNat, by omega, by omega⟩
  rw [← val_round_mul_two_pow, ← val_round_mul_two_pow, val_round, val_round]
  have scaled : m * 2 ^ dx ≤ n * 2 ^ dy := by
    have : ((m * 2 ^ dx : ℕ) : ℚ) * 2 ^ e ≤ ((n * 2 ^ dy : ℕ) : ℚ) * 2 ^ e := by
      simp only [val, zpow_add₀ (two_ne_zero : (2 : ℚ) ≠ 0), zpow_natCast] at le
      push_cast; linarith
    exact_mod_cast le_of_mul_le_mul_right this (zpow_pos two_pos e)
  exact mul_le_mul_of_nonneg_right (by exact_mod_cast roundShift_bits_mono bits scaled) (zpow_nonneg zero_le_two _)

/-- The rounded value lies on the grid of its binade: a multiple of the unit
`2 ^ (bitLen mant + exp - prec)`, whether the mantissa was cut or already fit. -/
theorem round_mem_grid (prec : Nat) (x : Dyadic) :
    ∃ j : ℕ, (x.round prec).val = j * 2 ^ ((bitLen x.mant : ℤ) + x.exp - prec) := by
  by_cases fits : bitLen x.mant ≤ prec
  · refine ⟨x.mant * 2 ^ (prec - bitLen x.mant), ?_⟩
    rw [round_exact x fits, val, Nat.cast_mul, Nat.cast_pow, Nat.cast_ofNat, mul_assoc, ← zpow_natCast,
      ← zpow_add₀ two_ne_zero, Nat.cast_sub fits]
    ring_nf
  · refine ⟨roundShift x.mant (bitLen x.mant - prec), ?_⟩
    simp only [round, val, Nat.cast_sub (Nat.le_of_not_le fits)]
    ring_nf

theorem nat_add_unit_le_round {prec : Nat} {x : Dyadic} (below : x.val < 2 ^ prec) {k : ℕ}
    (above : (k : ℚ) < (x.round prec).val) :
    k + 2 ^ ((bitLen x.mant : ℤ) + x.exp - prec) ≤ (x.round prec).val := by
  have positive : 0 < x.mant := Nat.pos_of_ne_zero fun zero => by
    simp [round, val, zero] at above
    exact absurd above (Nat.cast_nonneg k).not_lt
  have unit := bitLen_add_exp_le x positive (show x.val < (2 : ℚ) ^ (prec : ℤ) by rwa [zpow_natCast])
  obtain ⟨j, grid⟩ := round_mem_grid prec x
  obtain ⟨t, sum⟩ : ∃ t : ℕ, (t : ℤ) + ((bitLen x.mant : ℤ) + x.exp - prec) = 0 :=
    ⟨(prec - ((bitLen x.mant : ℤ) + x.exp)).toNat, by omega⟩
  have scaled : (k : ℚ) = ((k * 2 ^ t : ℕ) : ℚ) * 2 ^ ((bitLen x.mant : ℤ) + x.exp - prec) := by
    rw [Nat.cast_mul, Nat.cast_pow, Nat.cast_ofNat, mul_assoc, ← zpow_natCast, ← zpow_add₀ two_ne_zero, sum,
      zpow_zero, mul_one]
  rw [grid, scaled, mul_lt_mul_right (zpow_pos two_pos _), Nat.cast_lt] at above
  rw [grid, scaled, ← add_one_mul]
  exact mul_le_mul_of_nonneg_right (by exact_mod_cast above) (zpow_nonneg zero_le_two _)

end Dyadic

end TanConsensus.Float
