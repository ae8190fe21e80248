import Mathlib.Data.BitVec

/-! The 20-byte account address of the `types` package, its zero value, and the
32-byte hash. -/

namespace TanConsensus

/-- `types.Address`, a `[20]byte`. -/
abbrev Address := BitVec 160

def ZeroAddress : Address := 0

/-- `types.Hash`, a `[32]byte`. -/
abbrev Hash := BitVec 256

end TanConsensus
