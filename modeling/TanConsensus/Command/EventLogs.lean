import TanConsensus.Rootchain.Deploy

/-! The receipt-log scans that end `registerChainOnStakeManager` of the rootchain
`deploy` and the rootchain and sidechain `withdraw` commands. -/

namespace TanConsensus.Command
open Rootchain

def receiptFailed : Nat := 0

structure LogReceipt (Log : Type) where
  status : Nat
  blockNumber : Nat
  logs : List Log

/-- What `ParseLog` of a generated event binding answers for one log: whether the
log is the binding's event, the decoding error, and the event decoded into the
receiver. -/
structure ParsedLog (Event : Type) where
  doesMatch : Bool
  err : Option String
  event : Event

section Scans
variable {Log Event : Type} (parseLog : Log → ParsedLog Event)

/-- The scan of `registerChainOnStakeManager` and of the sidechain `withdraw`: a
parse error ends it, whether or not the log is the event, and the first event log
ends it with its event. `none` is `found` left false. -/
def findEvent : List Log → Except String (Option Event)
  | [] => .ok none
  | log :: logs =>
    match (parseLog log).err with
    | some err => .error err
    | none => if (parseLog log).doesMatch then .ok (some (parseLog log).event) else findEvent logs

def findWithdrawal : List Log → Except String (Option Event)
  | [] => .ok none
  | log :: logs =>
    if !(parseLog log).doesMatch then findWithdrawal logs
    else
      match (parseLog log).err with
      | some err => .error err
      | none => .ok (some (parseLog log).event)

/-- The scan that stops at every parse error is the scan of the rootchain
`withdraw` preceded by a check of the logs before the first event log: it returns
the first error among them, and otherwise what the rootchain scan returns. With a
binding that reports no error for a log that is not its event, as the generated
bindings do, the two scans agree on every receipt. -/
theorem findEvent_eq (logs : List Log) :
    findEvent parseLog logs =
      ((logs.takeWhile fun log => !(parseLog log).doesMatch).findSome? fun log => (parseLog log).err).elim
        (findWithdrawal parseLog logs) .error := by
  induction logs with
  | nil => rfl
  | cons log logs ih =>
    cases matched : (parseLog log).doesMatch <;> cases failed : (parseLog log).err <;>
      simp [findEvent, findWithdrawal, List.takeWhile_cons, matched, failed, ih]

end Scans

variable {Log Event : Type}

/-- `helper.SendTransaction` once the relayer has answered, a nil receipt as
`none`; `target` is the address as `%s` prints it. -/
def sendTransaction (contractName target : String) (relayed : Except String (Option (LogReceipt Log))) :
    Except String (LogReceipt Log) :=
  match relayed with
  | .error err => .error ("failed to send transaction to " ++ contractName ++ " contract (" ++ target ++ "). error: " ++ err)
  | .ok none => .error ("transaction execution failed on " ++ contractName ++ " contract")
  | .ok (some receipt) =>
    if receipt.status ≠ receiptSuccess then .error ("transaction execution failed on " ++ contractName ++ " contract")
    else .ok receipt

/-- `registerChainOnStakeManager` once the call is encoded: the transaction goes to
the stake manager under the name of the checkpoint manager, as the code passes
it, and the supernet ID is `ID.Int64()` of the first `ChildManagerRegistered`
log, given as `supernetID`. -/
def registerChainOnStakeManager (stakeManager : String) (relayed : Except String (Option (LogReceipt Log)))
    (parseLog : Log → ParsedLog Event) (supernetID : Event → Int) : Except String Int :=
  match sendTransaction RootchainContract.checkpointManager.name stakeManager relayed with
  | .error err => .error err
  | .ok receipt =>
    match findEvent parseLog receipt.logs with
    | .error err => .error err
    | .ok none => .error "could not find a log that child chain was registered on stake manager"
    | .ok (some event) => .ok (supernetID event)

def rootchainWithdraw (relayed : Except String (LogReceipt Log)) (parseLog : Log → ParsedLog Event) :
    Except String Event :=
  match relayed with
  | .error err => .error err
  | .ok receipt =>
    if receipt.status = receiptFailed then
      .error ("withdraw transaction failed on block " ++ toString receipt.blockNumber)
    else
      match findWithdrawal parseLog receipt.logs with
      | .error err => .error err
      | .ok none => .error "could not find an appropriate log in receipt that withdrawal happened"
      | .ok (some event) => .ok event

def sidechainWithdraw {ExitID : Type} (relayed : Except String (LogReceipt Log)) (parseLog : Log → ParsedLog Event)
    (exitEventID : Except String ExitID) : Except String (Event × ExitID) :=
  match relayed with
  | .error err => .error err
  | .ok receipt =>
    if receipt.status ≠ receiptSuccess then
      .error ("withdraw transaction failed on block: " ++ toString receipt.blockNumber)
    else
      match findEvent parseLog receipt.logs with
      | .error err => .error err
      | .ok none => .error "could not find an appropriate log in receipt that withdraw happened on ValidatorSet"
      | .ok (some event) =>
        match exitEventID with
        | .error err => .error ("withdrawal failed: " ++ err)
        | .ok id => .ok (event, id)

end TanConsensus.Command
