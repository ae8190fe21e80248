import TanConsensus.Types
import TanConsensus.Float.Go
import Mathlib.Algebra.BigOperators.Group.List
import Mathlib.Algebra.Order.BigOperators.Group.List

/-! The PolyBFT validator set of `validator_set.go`: the voting-power map that
`NewValidatorSet` builds, and `HasQuorum` over the signers in map order. -/

namespace TanConsensus.Polybft
open Float

/-- Modelled from the spec: `ValidatorMetadata`, of which the set reads the
address and the voting power, a non-negative `*big.Int` that is never nil. -/
structure ValidatorMetadata where
  address : Address
  votingPower : Nat
deriving DecidableEq, Repr

/-- Modelled from the spec: `AccountSet`, the ordered roster. -/
abbrev AccountSet := List ValidatorMetadata

/-- Modelled from the spec: `GetTotalVotingPower`, the sum of the members' powers. -/
def AccountSet.getTotalVotingPower (valz : AccountSet) : Nat := (valz.map (·.votingPower)).sum

structure ValidatorSet where
  validators : AccountSet
  votingPowerMap : Address → Option Nat
  totalVotingPower : Nat

def insertPower (votingPowerMap : Address → Option Nat) (val : ValidatorMetadata) : Address → Option Nat :=
  Function.update votingPowerMap val.address (some val.votingPower)

def newValidatorSet (valz : AccountSet) : ValidatorSet :=
  { validators := valz
    votingPowerMap := valz.foldl insertPower fun _ => none
    totalVotingPower := valz.getTotalVotingPower }

/-- Modelled from the spec: `AccountSet.ContainsAddress`, whether some member has the address. -/
def AccountSet.containsAddress (valz : AccountSet) (address : Address) : Bool :=
  valz.any fun v => v.address = address

def ValidatorSet.includes (vs : ValidatorSet) (address : Address) : Bool :=
  vs.validators.containsAddress address

/-- The keys of a `map[types.Address]struct{}` in one iteration order; a Go map
holds each key once, and the order is not specified. -/
structure SignerMap where
  keys : List Address
  nodup : keys.Nodup

def addPower (votingPowerMap : Address → Option Nat) (aggregateVotingPower : Nat) (address : Address) : Nat :=
  match votingPowerMap address with
  | some votingPower => aggregateVotingPower + votingPower
  | none => aggregateVotingPower

def ValidatorSet.aggregateVotingPower (vs : ValidatorSet) (signers : SignerMap) : Nat :=
  signers.keys.foldl (addPower vs.votingPowerMap) 0

/-- `getQuorumSize`: `0.6 * totalVotingPower` in `big.Float`, converted to
`float64`, rounded up by `math.Ceil` and read back as a `big.Int`. An infinite
`float64` makes `Int` return nil and leaves `quorumBigInt` at zero. -/
def getQuorumSize (blockNumber : BitVec 64) (totalVotingPower : Nat) : Nat :=
  let quorumPercentage := float64Point6
  let totalVotingPowerFloat := BigFloat.setInt totalVotingPower
  let quorumPercentageFloat := BigFloat.newFloat quorumPercentage
  let quorumFloat := quorumPercentageFloat.mul totalVotingPowerFloat
  match quorumFloat.float64 with
  | some quorumFloat64 => quorumFloat64.ceil
  | none => 0

def ValidatorSet.hasQuorum (vs : ValidatorSet) (blockNumber : BitVec 64) (signers : SignerMap) : Bool :=
  decide (getQuorumSize blockNumber vs.totalVotingPower ≤ vs.aggregateVotingPower signers)

def powerOf (valz : AccountSet) (address : Address) : Nat :=
  ((valz.filter fun v => v.address = address).map (·.votingPower)).sum

def signedPower (valz : AccountSet) (signers : List Address) : Nat :=
  ((valz.filter (·.address ∈ signers)).map (·.votingPower)).sum

theorem foldl_addPower (votingPowerMap : Address → Option Nat) (keys : List Address) (start : Nat) :
    keys.foldl (addPower votingPowerMap) start = start + (keys.map fun a => (votingPowerMap a).getD 0).sum := by
  induction keys generalizing start with
  | nil => simp
  | cons key keys ih =>
    rw [List.foldl_cons, ih, List.map_cons, List.sum_cons, addPower]
    cases votingPowerMap key <;> simp only [Option.getD_none, Option.getD_some] <;> omega

theorem aggregateVotingPower_eq_sum (vs : ValidatorSet) (signers : SignerMap) :
    vs.aggregateVotingPower signers = (signers.keys.map fun a => (vs.votingPowerMap a).getD 0).sum := by
  rw [ValidatorSet.aggregateVotingPower, foldl_addPower, Nat.zero_add]

private theorem powerOf_of_not_mem (valz : AccountSet) {address : Address}
    (unlisted : address ∉ valz.map (·.address)) : powerOf valz address = 0 := by
  rw [powerOf, List.filter_eq_nil_iff.mpr fun v member => by
    simpa using fun named => unlisted (List.mem_map.mpr ⟨v, member, named⟩)]
  rfl

private theorem foldl_insertPower (valz : AccountSet) (distinct : (valz.map (·.address)).Nodup)
    (start : Address → Option Nat) (address : Address) :
    ((valz.foldl insertPower start) address).getD 0 =
      if address ∈ valz.map (·.address) then powerOf valz address else (start address).getD 0 := by
  induction valz generalizing start with
  | nil => simp
  | cons val valz ih =>
    rw [List.map_cons, List.nodup_cons] at distinct
    rw [List.foldl_cons, ih distinct.2]
    by_cases listed : address ∈ valz.map (·.address)
    · have other : val.address ≠ address := fun same => distinct.1 (same ▸ listed)
      simp [listed, powerOf, List.filter_cons, other]
    · by_cases same : val.address = address
      · subst same
        have zero := powerOf_of_not_mem valz listed
        rw [powerOf] at zero
        simp only [List.mem_map] at listed
        simp [insertPower, powerOf, List.filter_cons, zero, listed]
      · simp [listed, insertPower, Function.update_noteq (Ne.symm same), Ne.symm same]

theorem votingPowerMap_getD (valz : AccountSet) (distinct : (valz.map (·.address)).Nodup) (address : Address) :
    ((newValidatorSet valz).votingPowerMap address).getD 0 = powerOf valz address := by
  rw [newValidatorSet, foldl_insertPower valz distinct]
  split
  · rfl
  next unlisted => exact (powerOf_of_not_mem valz unlisted).symm

private theorem sum_filter_or {α : Type} (l : List α) (f : α → Nat) (p q : α → Bool)
    (disjoint : ∀ x ∈ l, ¬ (p x = true ∧ q x = true)) :
    ((l.filter fun x => p x || q x).map f).sum = ((l.filter p).map f).sum + ((l.filter q).map f).sum := by
  induction l with
  | nil => rfl
  | cons x l ih =>
    have rest := ih fun y member => disjoint y (List.mem_cons_of_mem x member)
    have here := disjoint x (List.mem_cons_self x l)
    cases hp : p x <;> cases hq : q x <;> simp [List.filter_cons, hp, hq, rest] at here ⊢ <;> omega

theorem signedPower_cons (valz : AccountSet) {address : Address} {signers : List Address}
    (fresh : address ∉ signers) :
    signedPower valz (address :: signers) = powerOf valz address + signedPower valz signers := by
  have split : (fun v : ValidatorMetadata => decide (v.address ∈ address :: signers)) =
      fun v => decide (v.address = address) || decide (v.address ∈ signers) := by
    funext v; simp [List.mem_cons]
  rw [signedPower, split, sum_filter_or]
  · rfl
  · intro v _ both
    simp only [decide_eq_true_eq] at both
    exact fresh (both.1 ▸ both.2)

/-- For a roster without repeated addresses, `HasQuorum` adds up exactly the
power of the listed validators that signed; a signer outside the roster adds nothing. -/
theorem aggregateVotingPower_newValidatorSet (valz : AccountSet) (distinct : (valz.map (·.address)).Nodup)
    (signers : SignerMap) :
    (newValidatorSet valz).aggregateVotingPower signers = signedPower valz signers.keys := by
  rw [aggregateVotingPower_eq_sum]
  obtain ⟨keys, unique⟩ := signers
  simp only [votingPowerMap_getD valz distinct]
  induction keys with
  | nil => simp [signedPower]
  | cons key keys ih =>
    rw [List.nodup_cons] at unique
    rw [List.map_cons, List.sum_cons, ih unique.2, signedPower_cons valz unique.1]

theorem signedPower_all (valz : AccountSet) :
    signedPower valz (valz.map (·.address)) = valz.getTotalVotingPower := by
  rw [signedPower, List.filter_eq_self.mpr fun v member => by simpa using List.mem_map_of_mem _ member]
  rfl

private theorem isSome_foldl_insertPower (valz : AccountSet) (start : Address → Option Nat) (address : Address) :
    ((valz.foldl insertPower start) address).isSome = (valz.containsAddress address || (start address).isSome) := by
  induction valz generalizing start with
  | nil => simp [AccountSet.containsAddress]
  | cons val valz ih =>
    rw [List.foldl_cons, ih]
    by_cases same : val.address = address
    · subst same
      simp [AccountSet.containsAddress, insertPower]
    · simp [AccountSet.containsAddress, insertPower, same, Function.update_noteq (Ne.symm same)]

theorem includes_eq_isSome_votingPowerMap (valz : AccountSet) (address : Address) :
    (newValidatorSet valz).includes address = ((newValidatorSet valz).votingPowerMap address).isSome := by
  simp [newValidatorSet, ValidatorSet.includes, isSome_foldl_insertPower]

theorem hasQuorum_add_excluded (valz : AccountSet) (blockNumber : BitVec 64) {address : Address}
    {signers others : SignerMap} (excluded : (newValidatorSet valz).includes address = false)
    (added : others.keys.Perm (address :: signers.keys)) :
    (newValidatorSet valz).hasQuorum blockNumber others = (newValidatorSet valz).hasQuorum blockNumber signers := by
  have absent : (newValidatorSet valz).votingPowerMap address = none := by
    rw [← Option.not_isSome_iff_eq_none, newValidatorSet, isSome_foldl_insertPower]
    simpa [ValidatorSet.includes, newValidatorSet] using excluded
  simp only [ValidatorSet.hasQuorum, aggregateVotingPower_eq_sum, (added.map _).sum_eq, List.map_cons, List.sum_cons,
    absent, Option.getD_none, Nat.zero_add]

theorem hasQuorum_add_excluded_at_two :
    (newValidatorSet [⟨1, 7⟩, ⟨2, 5⟩]).includes 3 = false ∧ ([1, 3] : List Address).Perm [3, 1] ∧
      (newValidatorSet [⟨1, 7⟩, ⟨2, 5⟩]).hasQuorum 0 ⟨[1, 3], by decide⟩ =
        (newValidatorSet [⟨1, 7⟩, ⟨2, 5⟩]).hasQuorum 0 ⟨[1], by decide⟩ :=
  ⟨by decide, by decide, @hasQuorum_add_excluded _ 0 3 ⟨[1], by decide⟩ ⟨[1, 3], by decide⟩ (by decide) (by decide)⟩

/-- The result of `HasQuorum` does not depend on the order in which the Go map
yields the signers. -/
theorem hasQuorum_perm (vs : ValidatorSet) (blockNumber : BitVec 64) {signers others : SignerMap}
    (reordered : signers.keys.Perm others.keys) :
    vs.hasQuorum blockNumber signers = vs.hasQuorum blockNumber others := by
  simp only [ValidatorSet.hasQuorum, aggregateVotingPower_eq_sum, (reordered.map _).sum_eq]

theorem hasQuorum_perm_at_two :
    ([1, 2] : List Address).Perm [2, 1] ∧
      (newValidatorSet [⟨1, 7⟩, ⟨2, 5⟩]).hasQuorum 0 ⟨[1, 2], by decide⟩ =
        (newValidatorSet [⟨1, 7⟩, ⟨2, 5⟩]).hasQuorum 0 ⟨[2, 1], by decide⟩ :=
  ⟨List.Perm.swap 2 1 [], hasQuorum_perm _ 0 (List.Perm.swap 2 1 [])⟩

theorem hasQuorum_mono (vs : ValidatorSet) (blockNumber : BitVec 64) {signers others : SignerMap}
    (more : signers.keys ⊆ others.keys) (reached : vs.hasQuorum blockNumber signers = true) :
    vs.hasQuorum blockNumber others = true := by
  obtain ⟨reordered, perm, sub⟩ := signers.nodup.subperm more
  simp only [ValidatorSet.hasQuorum, decide_eq_true_eq, aggregateVotingPower_eq_sum] at reached ⊢
  rw [← (perm.map _).sum_eq] at reached
  exact reached.trans ((sub.map _).sum_le_sum fun _ _ => Nat.zero_le _)

theorem hasQuorum_mono_at_two :
    ([1] : List Address) ⊆ [1, 2] ∧ (newValidatorSet [⟨1, 9⟩, ⟨2, 3⟩]).hasQuorum 0 ⟨[1], by decide⟩ = true ∧
      (newValidatorSet [⟨1, 9⟩, ⟨2, 3⟩]).hasQuorum 0 ⟨[1, 2], by decide⟩ = true :=
  ⟨by decide, by decide,
    @hasQuorum_mono _ 0 ⟨[1], by decide⟩ ⟨[1, 2], by decide⟩ (by decide) (by decide)⟩

end TanConsensus.Polybft
