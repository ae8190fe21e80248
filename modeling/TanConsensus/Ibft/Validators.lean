import TanConsensus.Types
import TanConsensus.Float.Go

/-! The validator-count formulas and the proposer choice of
`consensus/ibft/validators.go`. -/

namespace TanConsensus.Ibft
open Float

structure Validator where
  address : Address
deriving DecidableEq, Repr

/-- Modelled from the spec: `validators.Validators`, the ordered roster whose
order defines the rotation index. `Len()` returns a Go `int`. -/
structure Validators where
  vals : List Validator
  fits : vals.length < 2 ^ 63

/-- `At(index)`; `none` stands for the out-of-range panic. -/
def Validators.at (s : Validators) (index : Nat) : Option Validator := s.vals[index]?

namespace Validators

def len (s : Validators) : Nat := s.vals.length

/-- Modelled from the spec: the position of the first validator with this
address, or `-1` when there is none. -/
def index (s : Validators) (address : Address) : Int :=
  match s.vals.findIdx? (·.address == address) with
  | some index => index
  | none => -1

theorem len_lt (s : Validators) : s.len < 2 ^ 63 := s.fits

theorem index_cases (s : Validators) (address : Address) :
    s.index address = -1 ∨ ∃ index : Nat, s.index address = index ∧ index < s.len := by
  unfold index
  split
  next index found => exact .inr ⟨index, rfl, (List.findIdx?_eq_some_iff_getElem.mp found).1⟩
  next => exact .inl rfl

end Validators

def roster (n : Nat) (fits : n < 2 ^ 63) : Validators :=
  ⟨(List.range n).map fun i => ⟨BitVec.ofNat 160 (i + 1)⟩, by simpa using fits⟩

@[simp] theorem len_roster (n : Nat) (fits : n < 2 ^ 63) : (roster n fits).len = n := by
  simp [roster, Validators.len]

def calcMaxFaultyNodes (s : Validators) : Nat :=
  (float64Mul float64Point4 (float64OfInt s.len)).floor

def quorumSize (quorumPercentage : Dyadic) (set : Validators) : Nat :=
  (float64Mul quorumPercentage (float64OfInt set.len)).ceil

def legacyQuorumSize (set : Validators) : Nat := quorumSize float64Point6 set

def optimalQuorumSize (set : Validators) : Nat := quorumSize float64Point6 set

def proposerSeed (validators : Validators) (round : BitVec 64) (lastProposer : Address) : BitVec 64 :=
  if lastProposer = ZeroAddress then round
  else
    let offset : Int := if validators.index lastProposer ≠ -1 then validators.index lastProposer else 0
    BitVec.ofInt 64 offset + round + 1

/-- `CalcProposer`: the validator at `seed % uint64(validators.Len())`. The
result `none` is the division-by-zero panic of an empty set. -/
def calcProposer (validators : Validators) (round : BitVec 64) (lastProposer : Address) :
    Option Validator :=
  if validators.len = 0 then none
  else validators.at (proposerSeed validators round lastProposer % BitVec.ofNat 64 validators.len).toNat

end TanConsensus.Ibft
