import TanConsensus.Types
import TanConsensus.Rootchain.ErrGroup
import Mathlib.Data.List.OfFn

/-! The deployment phase of `deployContracts` in `deploy.go`: the goroutines that
deploy the contracts, and the loop that records their addresses once `Wait` returns. -/

namespace TanConsensus.Rootchain

/-- The contracts `deploy.go` names, one constructor per name constant. -/
inductive RootchainContract
  | stateSender
  | checkpointManager
  | bls
  | bn256G2
  | exitHelper
  | rootERC20Predicate
  | childERC20MintablePredicate
  | rootERC20
  | erc20Template
  | rootERC721Predicate
  | childERC721MintablePredicate
  | erc721Template
  | rootERC1155Predicate
  | childERC1155MintablePredicate
  | erc1155Template
  | customSupernetManager
deriving DecidableEq, Repr

namespace RootchainContract

def name : RootchainContract → String
  | stateSender => "StateSender"
  | checkpointManager => "CheckpointManager"
  | bls => "BLS"
  | bn256G2 => "BN256G2"
  | exitHelper => "ExitHelper"
  | rootERC20Predicate => "RootERC20Predicate"
  | childERC20MintablePredicate => "ChildERC20MintablePredicate"
  | rootERC20 => "RootERC20"
  | erc20Template => "ERC20Template"
  | rootERC721Predicate => "RootERC721Predicate"
  | childERC721MintablePredicate => "ChildERC721MintablePredicate"
  | erc721Template => "ERC721Template"
  | rootERC1155Predicate => "RootERC1155Predicate"
  | childERC1155MintablePredicate => "ChildERC1155MintablePredicate"
  | erc1155Template => "ERC1155Template"
  | customSupernetManager => "CustomSupernetManager"

def populated : List RootchainContract :=
  [stateSender, checkpointManager, bls, bn256G2, exitHelper, rootERC20Predicate, childERC20MintablePredicate,
    rootERC20, erc20Template, rootERC721Predicate, childERC721MintablePredicate, erc721Template,
    rootERC1155Predicate, childERC1155MintablePredicate, erc1155Template, customSupernetManager]

def ofName (name : String) : Option RootchainContract := populated.find? (·.name = name)

end RootchainContract

/-- Modelled from the spec: `polybft.RootchainConfig`, with the fields `deploy.go`
reads and writes. -/
structure RootchainConfig where
  jsonRPCAddr : String
  stakeManagerAddress : Address
  stateSenderAddress : Address
  checkpointManagerAddress : Address
  blsAddress : Address
  bn256G2Address : Address
  exitHelperAddress : Address
  rootERC20PredicateAddress : Address
  childMintableERC20PredicateAddress : Address
  rootNativeERC20Address : Address
  childERC20Address : Address
  rootERC721PredicateAddress : Address
  childMintableERC721PredicateAddress : Address
  childERC721Address : Address
  rootERC1155PredicateAddress : Address
  childMintableERC1155PredicateAddress : Address
  childERC1155Address : Address
  customSupernetManagerAddress : Address

namespace RootchainContract

def populate : RootchainContract → RootchainConfig → Address → RootchainConfig
  | stateSender, config, addr => { config with stateSenderAddress := addr }
  | checkpointManager, config, addr => { config with checkpointManagerAddress := addr }
  | bls, config, addr => { config with blsAddress := addr }
  | bn256G2, config, addr => { config with bn256G2Address := addr }
  | exitHelper, config, addr => { config with exitHelperAddress := addr }
  | rootERC20Predicate, config, addr => { config with rootERC20PredicateAddress := addr }
  | childERC20MintablePredicate, config, addr => { config with childMintableERC20PredicateAddress := addr }
  | rootERC20, config, addr => { config with rootNativeERC20Address := addr }
  | erc20Template, config, addr => { config with childERC20Address := addr }
  | rootERC721Predicate, config, addr => { config with rootERC721PredicateAddress := addr }
  | childERC721MintablePredicate, config, addr => { config with childMintableERC721PredicateAddress := addr }
  | erc721Template, config, addr => { config with childERC721Address := addr }
  | rootERC1155Predicate, config, addr => { config with rootERC1155PredicateAddress := addr }
  | childERC1155MintablePredicate, config, addr => { config with childMintableERC1155PredicateAddress := addr }
  | erc1155Template, config, addr => { config with childERC1155Address := addr }
  | customSupernetManager, config, addr => { config with customSupernetManagerAddress := addr }

def address : RootchainContract → RootchainConfig → Address
  | stateSender, config => config.stateSenderAddress
  | checkpointManager, config => config.checkpointManagerAddress
  | bls, config => config.blsAddress
  | bn256G2, config => config.bn256G2Address
  | exitHelper, config => config.exitHelperAddress
  | rootERC20Predicate, config => config.rootERC20PredicateAddress
  | childERC20MintablePredicate, config => config.childMintableERC20PredicateAddress
  | rootERC20, config => config.rootNativeERC20Address
  | erc20Template, config => config.childERC20Address
  | rootERC721Predicate, config => config.rootERC721PredicateAddress
  | childERC721MintablePredicate, config => config.childMintableERC721PredicateAddress
  | erc721Template, config => config.childERC721Address
  | rootERC1155Predicate, config => config.rootERC1155PredicateAddress
  | childERC1155MintablePredicate, config => config.childMintableERC1155PredicateAddress
  | erc1155Template, config => config.childERC1155Address
  | customSupernetManager, config => config.customSupernetManagerAddress

theorem address_populate (c d : RootchainContract) (config : RootchainConfig) (addr : Address) :
    d.address (c.populate config addr) = if c = d then addr else d.address config := by
  cases c <;> cases d <;> rfl

theorem ofName_name (c : RootchainContract) : ofName c.name = some c := by
  cases c <;> rfl

end RootchainContract

def metadataPopulatorMap (name : String) : Option (RootchainConfig → Address → RootchainConfig) :=
  (RootchainContract.ofName name).map RootchainContract.populate

def allContracts : List RootchainContract :=
  [.stateSender, .checkpointManager, .bls, .bn256G2, .exitHelper, .rootERC20Predicate,
    .childERC20MintablePredicate, .erc20Template, .rootERC721Predicate, .childERC721MintablePredicate,
    .erc721Template, .rootERC1155Predicate, .childERC1155MintablePredicate, .erc1155Template,
    .customSupernetManager]

def deploymentContracts (isMintable : Bool) (rootERC20TokenAddr : String) : List RootchainContract :=
  (if !isMintable && rootERC20TokenAddr = "" then [.rootERC20] else []) ++ allContracts

def newRootchainConfig (jsonRPCAddress : String) (stakeManagerAddr : Address) : RootchainConfig :=
  { jsonRPCAddr := jsonRPCAddress, stakeManagerAddress := stakeManagerAddr,
    stateSenderAddress := 0, checkpointManagerAddress := 0, blsAddress := 0, bn256G2Address := 0,
    exitHelperAddress := 0, rootERC20PredicateAddress := 0, childMintableERC20PredicateAddress := 0,
    rootNativeERC20Address := 0, childERC20Address := 0, rootERC721PredicateAddress := 0,
    childMintableERC721PredicateAddress := 0, childERC721Address := 0, rootERC1155PredicateAddress := 0,
    childMintableERC1155PredicateAddress := 0, childERC1155Address := 0, customSupernetManagerAddress := 0 }

theorem deploymentContracts_nodup (isMintable : Bool) (rootERC20TokenAddr : String) :
    (deploymentContracts isMintable rootERC20TokenAddr).Nodup := by
  unfold deploymentContracts
  split <;> decide

structure Receipt where
  status : Nat
  contractAddress : Address
  transactionHash : Hash
  gasUsed : Nat

def receiptSuccess : Nat := 1

structure DeployContractResult where
  name : String
  address : Address
  hash : Hash
  gasUsed : Nat
deriving DecidableEq

/-- The body of a deployment goroutine after its `select`, with the answer of
`txRelayer.SendTransaction` as `sent` (a nil receipt is `none`). -/
def deployContract (name : String) (sent : Except String (Option Receipt)) : Except String DeployContractResult :=
  match sent with
  | .error err => .error ("failed sending " ++ name ++ " contract deploy transaction: " ++ err)
  | .ok none => .error ("deployment of " ++ name ++ " contract failed")
  | .ok (some receipt) =>
    if receipt.status ≠ receiptSuccess then .error ("deployment of " ++ name ++ " contract failed")
    else .ok ⟨name, receipt.contractAddress, receipt.transactionHash, receipt.gasUsed⟩

theorem deployContract_eq_ok {name : String} {sent : Except String (Option Receipt)} {result : DeployContractResult}
    (deployed : deployContract name sent = .ok result) :
    ∃ receipt, sent = .ok (some receipt) ∧ receipt.status = receiptSuccess ∧
      result = ⟨name, receipt.contractAddress, receipt.transactionHash, receipt.gasUsed⟩ := by
  unfold deployContract at deployed
  split at deployed
  · cases deployed
  · cases deployed
  · next receipt =>
    split at deployed
    · cases deployed
    · next accepted => exact ⟨receipt, rfl, not_not.mp accepted, (Except.ok.inj deployed).symm⟩

theorem deployContract_eq_error {name : String} {sent : Except String (Option Receipt)} {e : String}
    (failed : deployContract name sent = .error e) :
    (∃ err, e = "failed sending " ++ name ++ " contract deploy transaction: " ++ err) ∨
      e = "deployment of " ++ name ++ " contract failed" := by
  unfold deployContract at failed
  split at failed
  · exact .inl ⟨_, (Except.error.inj failed).symm⟩
  · exact .inr (Except.error.inj failed).symm
  · split at failed
    · exact .inr (Except.error.inj failed).symm
    · cases failed

inductive CommandResult
  | message (text : String)
  | deployed (result : DeployContractResult)
deriving DecidableEq

/-- The command results `deployContracts` returns when `Wait` fails: the message,
then each slot's result, nil where the slot is empty. -/
def partialResults (results : List (Option DeployContractResult)) : List (Option CommandResult) :=
  some (.message "[ROOTCHAIN - DEPLOY] Successfully deployed the following contracts\n") ::
    results.map (·.map .deployed)

/-- The loop over `results` after a successful `Wait`: each result's populator
records its address. `none` is the nil-pointer panic on an empty slot. -/
def populateResults (config : RootchainConfig) : List (Option DeployContractResult) →
    Option (Except String RootchainConfig)
  | [] => some (.ok config)
  | none :: _ => none
  | some result :: results =>
    match metadataPopulatorMap result.name with
    | none => some (.error ("rootchain metadata populator not registered for contract '" ++ result.name ++ "'"))
    | some populatorFn => populateResults (populatorFn config result.address) results

theorem metadataPopulatorMap_name (c : RootchainContract) : metadataPopulatorMap c.name = some c.populate := by
  rw [metadataPopulatorMap, RootchainContract.ofName_name]
  rfl

/-- `populateExistingTokenAddr` once `eth.GetCode` has answered `code`; `addr` is
`types.StringToAddress(tokenAddr)`. -/
def populateExistingTokenAddr (code : Except String String) (tokenAddr : String) (addr : Address)
    (tokenName : String) (rootchainCfg : RootchainConfig) : Except String RootchainConfig :=
  match code with
  | .error err => .error ("failed to check is " ++ tokenName ++ " token deployed: " ++ err)
  | .ok code =>
    if code = "0x" then .error (tokenName ++ " token is not deployed on provided address " ++ tokenAddr)
    else
      match metadataPopulatorMap tokenName with
      | none => .error ("root chain metadata populator not registered for contract '" ++ tokenName ++ "'")
      | some populatorFn => .ok (populatorFn rootchainCfg addr)

private theorem populateResults_pairs (pairs : List (RootchainContract × DeployContractResult))
    (named : ∀ p ∈ pairs, p.2.name = p.1.name) (distinct : (pairs.map Prod.fst).Nodup) (config : RootchainConfig) :
    ∃ config', populateResults config (pairs.map fun p => some p.2) = some (.ok config') ∧
      (∀ p ∈ pairs, p.1.address config' = p.2.address) ∧
      ∀ c, c ∉ pairs.map Prod.fst → c.address config' = c.address config := by
  induction pairs generalizing config with
  | nil => exact ⟨config, rfl, by simp, fun _ _ => rfl⟩
  | cons p pairs ih =>
    obtain ⟨c, r⟩ := p
    rw [List.map_cons, List.nodup_cons] at distinct
    have name : r.name = c.name := named (c, r) (List.mem_cons_self _ _)
    obtain ⟨config', ran, recorded, untouched⟩ :=
      ih (fun q member => named q (List.mem_cons_of_mem _ member)) distinct.2 (c.populate config r.address)
    refine ⟨config', ?_, fun q member => ?_, fun d outside => ?_⟩
    · simpa only [List.map_cons, populateResults, name, metadataPopulatorMap_name] using ran
    · rcases List.mem_cons.mp member with rfl | later
      · rw [untouched c distinct.1, RootchainContract.address_populate, if_pos rfl]
      · exact recorded q later
    · rw [List.map_cons, List.mem_cons, not_or] at outside
      rw [untouched d outside.2, RootchainContract.address_populate, if_neg (Ne.symm outside.1)]

section Deployment
variable {isMintable : Bool} {rootERC20TokenAddr : String}
  {es : List (Event (deploymentContracts isMintable rootERC20TokenAddr).length DeployContractResult)}
  {g : Group (deploymentContracts isMintable rootERC20TokenAddr).length DeployContractResult}

private theorem results_named (ran : Group.initial.run true es = some g)
    (bodies : ∀ i returned, Event.finish i returned ∈ es →
      ∃ sent, returned = deployContract ((deploymentContracts isMintable rootERC20TokenAddr).get i).name sent)
    {i : Fin (deploymentContracts isMintable rootERC20TokenAddr).length} {r : DeployContractResult}
    (stored : g.results i = some r) :
    ∃ receipt : Receipt, receipt.status = receiptSuccess ∧
      r = ⟨((deploymentContracts isMintable rootERC20TokenAddr).get i).name, receipt.contractAddress,
        receipt.transactionHash, receipt.gasUsed⟩ := by
  obtain ⟨sent, returned⟩ := bodies i _ ((Group.run_results ran stored).resolve_left (by simp [Group.initial]))
  obtain ⟨receipt, -, success, rfl⟩ := deployContract_eq_ok returned.symm
  exact ⟨receipt, success, rfl⟩

/-- In every interleaving, also when `Wait` fails, each entry after the message in
the partial results is either nil or the deployment of the contract at that
position, from a receipt with success status: a failure never reports a contract
as deployed that was not. -/
theorem partialResults_deployed (ran : Group.initial.run true es = some g)
    (bodies : ∀ i returned, Event.finish i returned ∈ es →
      ∃ sent, returned = deployContract ((deploymentContracts isMintable rootERC20TokenAddr).get i).name sent)
    (i : Fin (deploymentContracts isMintable rootERC20TokenAddr).length) {r : DeployContractResult}
    (reported : (partialResults (List.ofFn g.results))[i.val + 1]? = some (some (.deployed r))) :
    ∃ receipt : Receipt, receipt.status = receiptSuccess ∧
      r = ⟨((deploymentContracts isMintable rootERC20TokenAddr).get i).name, receipt.contractAddress,
        receipt.transactionHash, receipt.gasUsed⟩ := by
  have slot : (List.ofFn g.results)[i.val]? = some (g.results i) := by
    simp [List.ofFnNthVal, i.isLt]
  rw [partialResults, List.getElem?_cons_succ, List.getElem?_map, slot, Option.map_some', Option.some.injEq] at reported
  cases stored : g.results i with
  | none => simp [stored] at reported
  | some result =>
    rw [stored, Option.map_some', Option.some.injEq, CommandResult.deployed.injEq] at reported
    exact reported ▸ results_named ran bodies stored

/-- In every interleaving of the deployment goroutines in which `Wait` returns nil,
the loop that follows meets neither an empty slot nor an unregistered name, and
each deployed contract's field ends up holding the address of its own receipt. -/
theorem populateResults_of_wait (ran : Group.initial.run true es = some g) (complete : g.Complete)
    (succeeded : g.err = none)
    (bodies : ∀ i returned, Event.finish i returned ∈ es →
      ∃ sent, returned = deployContract ((deploymentContracts isMintable rootERC20TokenAddr).get i).name sent)
    (config : RootchainConfig) :
    ∃ config', populateResults config (List.ofFn g.results) = some (.ok config') ∧
      ∀ i, ∃ r, g.results i = some r ∧ ((deploymentContracts isMintable rootERC20TokenAddr).get i).address config' =
        r.address := by
  have filled : ∀ i, (g.results i).isSome := fun i =>
    (Group.consistent_initial.run ran).noError.mp succeeded i (complete i)
  let pairs := List.ofFn fun i => ((deploymentContracts isMintable rootERC20TokenAddr).get i, (g.results i).get (filled i))
  have slots : List.ofFn g.results = pairs.map fun p => some p.2 := by
    simp only [pairs, List.map_ofFn]
    exact congrArg List.ofFn (funext fun i => (Option.some_get (filled i)).symm)
  have named : ∀ p ∈ pairs, p.2.name = p.1.name := by
    intro p member
    obtain ⟨i, rfl⟩ := (List.mem_ofFn _ _).mp member
    obtain ⟨receipt, -, named⟩ := results_named ran bodies (Option.some_get (filled i)).symm
    exact congrArg DeployContractResult.name named
  have distinct : (pairs.map Prod.fst).Nodup := by
    simpa only [pairs, List.map_ofFn, Function.comp_def, List.ofFn_get] using
      deploymentContracts_nodup isMintable rootERC20TokenAddr
  obtain ⟨config', populated, recorded, -⟩ := populateResults_pairs pairs named distinct config
  exact ⟨config', slots ▸ populated, fun i =>
    ⟨_, (Option.some_get (filled i)).symm, recorded _ ((List.mem_ofFn _ _).mpr ⟨i, rfl⟩)⟩⟩

/-- In every interleaving of the deployment goroutines in which `cmdCtx` is not
cancelled, a failed `Wait` reports the failure of a deployment, a send error or a
failed receipt naming its contract, and never the `context canceled` that the
goroutines stopped by the group return. -/
theorem wait_error_of_deployment (ran : Group.initial.run true es = some g)
    (noCancel : ∀ reason, Event.cancelParent reason ∉ es)
    (bodies : ∀ i returned, Event.finish i returned ∈ es →
      ∃ sent, returned = deployContract ((deploymentContracts isMintable rootERC20TokenAddr).get i).name sent)
    {e : String} (failed : g.err = some e) :
    ∃ i : Fin (deploymentContracts isMintable rootERC20TokenAddr).length,
      (∃ err, e = "failed sending " ++ ((deploymentContracts isMintable rootERC20TokenAddr).get i).name ++
        " contract deploy transaction: " ++ err) ∨
      e = "deployment of " ++ ((deploymentContracts isMintable rootERC20TokenAddr).get i).name ++ " contract failed" := by
  obtain ⟨i, member⟩ := Group.err_returned ran noCancel failed
  obtain ⟨sent, returned⟩ := bodies i _ member
  exact ⟨i, deployContract_eq_error returned.symm⟩

end Deployment

theorem partialResults_deployed_first :
    ∃ receipt : Receipt, receipt.status = receiptSuccess ∧
      (⟨"StateSender", 7, 0, 0⟩ : DeployContractResult) =
        ⟨((deploymentContracts true "").get ⟨0, by decide⟩).name, receipt.contractAddress, receipt.transactionHash,
          receipt.gasUsed⟩ :=
  let ran := (Option.some_get (show (Group.initial.run true
      [.start ⟨0, by decide⟩, .finish ⟨0, by decide⟩ (deployContract "StateSender" (.ok (some ⟨1, 7, 0, 0⟩))), .start ⟨1, by decide⟩,
        .finish ⟨1, by decide⟩ (deployContract "CheckpointManager" (.error "timeout"))] :
        Option (Group (deploymentContracts true "").length DeployContractResult)).isSome by decide)).symm
  partialResults_deployed ran (fun i returned member => by
    simp only [List.mem_cons, List.mem_singleton, List.not_mem_nil, or_false] at member
    rcases member with bad | same | bad | same
    · cases bad
    · cases same; exact ⟨_, rfl⟩
    · cases bad
    · cases same; exact ⟨_, rfl⟩) ⟨0, by decide⟩ (by decide)

theorem wait_error_of_deployment_after_cancel :
    ∃ i : Fin (deploymentContracts true "").length,
      (∃ err, "failed sending StateSender contract deploy transaction: timeout" =
        "failed sending " ++ ((deploymentContracts true "").get i).name ++ " contract deploy transaction: " ++ err) ∨
      "failed sending StateSender contract deploy transaction: timeout" =
        "deployment of " ++ ((deploymentContracts true "").get i).name ++ " contract failed" :=
  let ran := (Option.some_get (show (Group.initial.run true
      [.start ⟨0, by decide⟩, .finish ⟨0, by decide⟩ (deployContract "StateSender" (.error "timeout")),
        .start ⟨1, by decide⟩] :
        Option (Group (deploymentContracts true "").length DeployContractResult)).isSome by decide)).symm
  wait_error_of_deployment ran (by simp) (fun i returned member => by
    simp only [List.mem_cons, List.mem_singleton, List.not_mem_nil, or_false] at member
    rcases member with bad | same | bad
    · cases bad
    · cases same; exact ⟨_, rfl⟩
    · cases bad) (by decide)

theorem populateResults_of_wait_fifteen :
    ∃ config', populateResults (newRootchainConfig "" 0) (List.ofFn ((Group.initial.run true
      ((List.finRange (deploymentContracts true "").length).map Event.start ++
        (List.finRange (deploymentContracts true "").length).map fun i => Event.finish i
          (deployContract ((deploymentContracts true "").get i).name (.ok (some ⟨1, i.val, 0, 0⟩))))).get
        (by decide)).results) = some (.ok config') :=
  let ran := (Option.some_get (show (Group.initial.run true
      ((List.finRange (deploymentContracts true "").length).map Event.start ++
        (List.finRange (deploymentContracts true "").length).map fun i => Event.finish i
          (deployContract ((deploymentContracts true "").get i).name (.ok (some ⟨1, i.val, 0, 0⟩))))).isSome
      by decide)).symm
  (populateResults_of_wait ran (by decide) (by decide) (fun i returned member => by
    simp only [List.mem_append, List.mem_map] at member
    rcases member with ⟨j, -, bad⟩ | ⟨j, -, same⟩
    · cases bad
    · cases same; exact ⟨_, rfl⟩) (newRootchainConfig "" 0)).imp fun _ found => found.1

end TanConsensus.Rootchain
