import TanConsensus.Float.Round

/-! Go's `float64` arithmetic and the parts of `math/big.Float` that the quorum
code calls. No value that reaches them falls below the normal range. -/

namespace TanConsensus.Float

/-- The `float64` nearest to `0.6`, bits `0x3FE3333333333333`: below `0.6`. -/
def float64Point6 : Dyadic := ⟨5404319552844595, -53⟩

/-- The `float64` nearest to `0.4`, bits `0x3FD999999999999A`: above `0.4`. -/
def float64Point4 : Dyadic := ⟨3602879701896397, -53⟩

theorem val_float64Point6 : float64Point6.val = 3 / 5 - 1 / (5 * 2 ^ 53) := by
  norm_num [float64Point6, Dyadic.val]

theorem val_float64Point4 : float64Point4.val = 2 / 5 + 1 / (5 * 2 ^ 53) := by
  norm_num [float64Point4, Dyadic.val]

def float64OfInt (n : Nat) : Dyadic := (Dyadic.ofNat n).round 53

/-- The product of two `float64` values. The operands in the code are below
`2 ^ 63`, far from the overflow threshold. -/
def float64Mul (x y : Dyadic) : Dyadic := (x * y).round 53

theorem val_float64OfInt {n : Nat} (small : n < 2 ^ 53) : (float64OfInt n).val = n := by
  rw [float64OfInt, Dyadic.round_exact _ (bitLen_le_of_lt_two_pow small), Dyadic.val_ofNat]

/-- A finite `big.Float`: its value and its precision in bits. -/
structure BigFloat where
  value : Dyadic
  prec : Nat

namespace BigFloat

def setInt (n : Nat) : BigFloat := ⟨Dyadic.ofNat n, max (bitLen n) 64⟩

def newFloat (f : Dyadic) : BigFloat := ⟨f, 53⟩

/-- `new(big.Float).Mul(x, y)`: a receiver of precision zero takes the larger
of the operands' precisions, and the exact product is rounded to it. -/
def mul (x y : BigFloat) : BigFloat :=
  ⟨(x.value * y.value).round (max x.prec y.prec), max x.prec y.prec⟩

/-- `x.Float64()`: the value rounded to 53 bits, or `none` for `+Inf` when the
rounded exponent passes `emax = 1023`. -/
def float64 (x : BigFloat) : Option Dyadic :=
  let r := x.value.round 53
  if 0 < r.mant ∧ 1024 < (bitLen r.mant : ℤ) + r.exp then none else some r

theorem float64_eq_none {x : BigFloat} (large : 2 ^ 1024 ≤ (x.value.round 53).val) : x.float64 = none := by
  have positive : 0 < (x.value.round 53).mant := by
    by_contra zero
    have : (x.value.round 53).val = 0 := by simp [Dyadic.val, Nat.eq_zero_of_not_pos zero]
    linarith [show (0 : ℚ) < 2 ^ 1024 by positivity]
  have above := lt_of_le_of_lt large (x.value.round 53).val_lt_two_zpow
  rw [← zpow_natCast, zpow_lt_zpow_iff_right₀ one_lt_two] at above
  simp only [float64, positive, true_and]
  rw [if_pos (by exact_mod_cast above)]

theorem float64_eq_some_of_lt {x : BigFloat} (small : (x.value.round 53).val < 2 ^ 1024) :
    x.float64 = some (x.value.round 53) := by
  simp only [float64]
  rw [if_neg]
  rintro ⟨positive, over⟩
  have := Dyadic.bitLen_add_exp_le _ positive (show _ < (2 : ℚ) ^ (1024 : ℤ) by exact_mod_cast small)
  omega

theorem eq_round_of_float64_eq_some {x : BigFloat} {f : Dyadic} (finite : x.float64 = some f) :
    f = x.value.round 53 := by
  dsimp only [float64] at finite
  split at finite
  · cases finite
  · exact (Option.some.inj finite).symm

end BigFloat

end TanConsensus.Float
