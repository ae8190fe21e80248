import Mathlib.Algebra.Order.Floor
import Mathlib.Algebra.Order.Field.Power
import Mathlib.Data.Rat.Floor

/-! Non-negative binary floating-point values with an unbounded exponent. These
are the finite values of Go's `big.Float` and of `float64` that the consensus
code produces; every operation here is exact, rounding comes next. -/

namespace TanConsensus.Float

/-- The number of binary digits of `n`, as `bits.Len` counts them. The first
argument only bounds the recursion, so that the kernel can evaluate it. -/
def bitLenAux : Nat → Nat → Nat
  | 0, _ => 0
  | fuel + 1, n => if n = 0 then 0 else bitLenAux fuel (n / 2) + 1

def bitLen (n : Nat) : Nat := bitLenAux n n

private theorem bitLenAux_zero (fuel : Nat) : bitLenAux fuel 0 = 0 := by
  cases fuel <;> rfl

private theorem bitLenAux_bounds (fuel n : Nat) (fits : n ≤ fuel) :
    n < 2 ^ bitLenAux fuel n ∧ (0 < n → 2 ^ bitLenAux fuel n ≤ 2 * n) := by
  induction fuel generalizing n with
  | zero => simp [Nat.le_zero.mp fits, bitLenAux]
  | succ fuel ih =>
    by_cases zero : n = 0
    · simp [zero, bitLenAux]
    obtain ⟨below, above⟩ := ih (n / 2) (by omega)
    simp only [bitLenAux, zero, if_false, Nat.pow_succ]
    refine ⟨by omega, fun _ => ?_⟩
    by_cases half : n / 2 = 0
    · simp [half, bitLenAux_zero]; omega
    · have := above (by omega); omega

@[simp] theorem bitLen_zero : bitLen 0 = 0 := rfl

theorem lt_two_pow_bitLen (n : Nat) : n < 2 ^ bitLen n :=
  (bitLenAux_bounds n n le_rfl).1

theorem two_pow_bitLen_le {n : Nat} (positive : 0 < n) : 2 ^ bitLen n ≤ 2 * n :=
  (bitLenAux_bounds n n le_rfl).2 positive

theorem bitLen_le_of_lt_two_pow {n k : Nat} (below : n < 2 ^ k) : bitLen n ≤ k := by
  rcases Nat.eq_zero_or_pos n with rfl | positive
  · simp
  have : 2 ^ bitLen n < 2 ^ (k + 1) := by
    have := two_pow_bitLen_le positive; rw [Nat.pow_succ]; omega
  exact Nat.lt_succ_iff.mp ((Nat.pow_lt_pow_iff_right (by norm_num)).mp this)

theorem lt_bitLen_of_two_pow_le {n k : Nat} (above : 2 ^ k ≤ n) : k < bitLen n :=
  (Nat.pow_lt_pow_iff_right (by norm_num)).mp (lt_of_le_of_lt above (lt_two_pow_bitLen n))

theorem bitLen_mono {m n : Nat} (le : m ≤ n) : bitLen m ≤ bitLen n :=
  bitLen_le_of_lt_two_pow (lt_of_le_of_lt le (lt_two_pow_bitLen n))

theorem bitLen_mul_two_pow {m : Nat} (positive : 0 < m) (d : Nat) : bitLen (m * 2 ^ d) = bitLen m + d := by
  apply le_antisymm
  · apply bitLen_le_of_lt_two_pow
    rw [Nat.pow_add]
    exact Nat.mul_lt_mul_of_pos_right (lt_two_pow_bitLen m) (Nat.two_pow_pos d)
  · have top := two_pow_bitLen_le positive
    obtain ⟨c, bits⟩ : ∃ c, bitLen m = c + 1 := ⟨bitLen m - 1, by have := lt_bitLen_of_two_pow_le (show 2 ^ 0 ≤ m from positive); omega⟩
    rw [bits, Nat.pow_succ] at top
    have := lt_bitLen_of_two_pow_le (show 2 ^ (c + d) ≤ m * 2 ^ d by
      rw [Nat.pow_add]; exact Nat.mul_le_mul_right _ (by omega))
    omega

/-- A value `mant * 2 ^ exp`: a finite non-negative `big.Float` or `float64`. -/
structure Dyadic where
  mant : Nat
  exp : Int
deriving DecidableEq, Repr

namespace Dyadic

def val (x : Dyadic) : ℚ := x.mant * 2 ^ x.exp

def ofNat (n : Nat) : Dyadic := ⟨n, 0⟩

instance : Mul Dyadic := ⟨fun x y => ⟨x.mant * y.mant, x.exp + y.exp⟩⟩

theorem mul_def (x y : Dyadic) : x * y = ⟨x.mant * y.mant, x.exp + y.exp⟩ := rfl

@[simp] theorem val_ofNat (n : Nat) : (ofNat n).val = n := by simp [val, ofNat]

@[simp] theorem val_mul (x y : Dyadic) : (x * y).val = x.val * y.val := by
  simp only [val, mul_def, Nat.cast_mul, zpow_add₀ (two_ne_zero : (2 : ℚ) ≠ 0)]
  ring

theorem val_nonneg (x : Dyadic) : 0 ≤ x.val := by unfold val; positivity

theorem val_lt_two_zpow (x : Dyadic) : x.val < 2 ^ ((bitLen x.mant : ℤ) + x.exp) := by
  rw [zpow_add₀ two_ne_zero, zpow_natCast, val]
  exact mul_lt_mul_of_pos_right (by exact_mod_cast lt_two_pow_bitLen x.mant) (zpow_pos two_pos _)

theorem two_zpow_le_val (x : Dyadic) (positive : 0 < x.mant) :
    2 ^ ((bitLen x.mant : ℤ) + x.exp) ≤ 2 * x.val := by
  rw [zpow_add₀ two_ne_zero, zpow_natCast, val, ← mul_assoc]
  exact mul_le_mul_of_nonneg_right (by exact_mod_cast two_pow_bitLen_le positive)
    (zpow_nonneg zero_le_two _)

theorem bitLen_add_exp_le (x : Dyadic) (positive : 0 < x.mant) {E : ℤ} (below : x.val < 2 ^ E) :
    (bitLen x.mant : ℤ) + x.exp ≤ E := by
  have : (2 : ℚ) ^ ((bitLen x.mant : ℤ) + x.exp) < 2 ^ (E + 1) := by
    rw [zpow_add_one₀ two_ne_zero]; linarith [two_zpow_le_val x positive]
  have := (zpow_lt_zpow_iff_right₀ one_lt_two).mp this
  omega

/-- Truncation toward zero, Go's `int(f)` for a non-negative `f`. -/
def floor (x : Dyadic) : Nat :=
  match x.exp with
  | .ofNat k => x.mant * 2 ^ k
  | .negSucc k => x.mant / 2 ^ (k + 1)

/-- `math.Ceil`, read back as an integer. -/
def ceil (x : Dyadic) : Nat :=
  match x.exp with
  | .ofNat k => x.mant * 2 ^ k
  | .negSucc k => (x.mant + 2 ^ (k + 1) - 1) / 2 ^ (k + 1)

private theorem val_negSucc (m k : Nat) : (⟨m, .negSucc k⟩ : Dyadic).val = (m : ℚ) / (2 ^ (k + 1) : ℕ) := by
  simp [val, zpow_negSucc, div_eq_mul_inv]

private theorem val_ofNat_exp (m k : Nat) : (⟨m, .ofNat k⟩ : Dyadic).val = (m * 2 ^ k : ℕ) := by
  simp [val]

theorem floor_eq (x : Dyadic) : x.floor = ⌊x.val⌋₊ := by
  obtain ⟨m, k | k⟩ := x
  · rw [val_ofNat_exp, Nat.floor_natCast]; rfl
  · rw [val_negSucc, Nat.floor_div_eq_div]; rfl

theorem ceil_eq (x : Dyadic) : x.ceil = ⌈x.val⌉₊ := by
  obtain ⟨m, k | k⟩ := x
  · rw [val_ofNat_exp, Nat.ceil_natCast]; rfl
  · rw [val_negSucc]
    have positive : (0 : ℚ) < (2 ^ (k + 1) : ℕ) := by positivity
    have spec := Nat.div_add_mod (m + 2 ^ (k + 1) - 1) (2 ^ (k + 1))
    have small := Nat.mod_lt (m + 2 ^ (k + 1) - 1) (Nat.two_pow_pos (k + 1))
    set c := (m + 2 ^ (k + 1) - 1) / 2 ^ (k + 1)
    have upper : m ≤ c * 2 ^ (k + 1) := by rw [Nat.mul_comm]; omega
    have lower : c * 2 ^ (k + 1) < m + 2 ^ (k + 1) := by rw [Nat.mul_comm]; omega
    have below : (c : ℚ) < m / (2 ^ (k + 1) : ℕ) + 1 := by
      rw [div_add_one positive.ne', lt_div_iff₀ positive]
      exact_mod_cast lower
    have above : (m : ℚ) / (2 ^ (k + 1) : ℕ) ≤ c := by
      rw [div_le_iff₀ positive]
      exact_mod_cast upper
    refine le_antisymm ?_ (Nat.ceil_le.mpr above)
    have := Nat.le_ceil ((m : ℚ) / (2 ^ (k + 1) : ℕ))
    exact Nat.lt_succ_iff.mp (by exact_mod_cast (by linarith : (c : ℚ) < ⌈(m : ℚ) / (2 ^ (k + 1) : ℕ)⌉₊ + 1))

theorem le_ceil (x : Dyadic) : x.val ≤ x.ceil := ceil_eq x ▸ Nat.le_ceil _

theorem ceil_lt_add_one (x : Dyadic) : (x.ceil : ℚ) < x.val + 1 :=
  ceil_eq x ▸ Nat.ceil_lt_add_one x.val_nonneg

theorem floor_le (x : Dyadic) : (x.floor : ℚ) ≤ x.val := floor_eq x ▸ Nat.floor_le x.val_nonneg

theorem lt_floor_add_one (x : Dyadic) : x.val < x.floor + 1 := floor_eq x ▸ Nat.lt_floor_add_one _

theorem ceil_eq_of_bounds {x : Dyadic} {k : ℕ} (lower : (k : ℚ) < x.val + 1) (upper : x.val ≤ k) :
    x.ceil = k := by
  refine le_antisymm (ceil_eq x ▸ Nat.ceil_le.mpr upper) (Nat.lt_succ_iff.mp ?_)
  exact_mod_cast (by linarith [x.le_ceil] : (k : ℚ) < x.ceil + 1)

theorem floor_eq_of_bounds {x : Dyadic} {k : ℕ} (lower : (k : ℚ) ≤ x.val) (upper : x.val < k + 1) :
    x.floor = k := by
  rw [floor_eq, Nat.floor_eq_iff x.val_nonneg]
  exact ⟨lower, upper⟩

end Dyadic

end TanConsensus.Float
