import RobotMoney.Indexer.Logs

/-!
# Handling a log

`handle_log_within`, from a decoded log to the statements it executes.  A statement is what the database does at once:
one `INSERT` or `UPDATE`, or one transaction.  A log may have several, and a tick can fail between two of them.

The emitter decides for the events of the gateway, of the exclusion ledgers, of the receipt register, the timelock and
the safe; the other events are accepted from every watched address.
-/

namespace RobotMoney.Indexer

open Evm

/-- One change of an owner's shares in a vault, a mint or a burn. -/
structure PositionDelta where
  contract : Address
  owner : Address
  blockNumber : Nat
  logIndex : Nat
  shares : Nat
  add : Bool
  deriving DecidableEq, Repr

inductive Statement where
  /-- An insertion into an append-only table. -/
  | event (row : EventRow)
  /-- `mark_proxy_deployment`. -/
  | markProxyDeployment (place : LogPlace)
  /-- An insertion into a table of the exclusion records. -/
  | exclusion (row : ExclusionRow)
  /-- `insert_agent_deposit`, which finds the registration. -/
  | agentDeposit (row : DepositRow)
  /-- `insert_agent_policy`, which finds the registration. -/
  | agentPolicy (place : LogPlace) (agent owner : Address) (revoked : Bool) (fields : PolicyFields) (gateway : Address)
  /-- `insert_agent_owner_transfer`, which copies the policy. -/
  | ownerTransfer (place : LogPlace) (agent newOwner : Address) (gateway : Address)
  /-- `apply_wallet_position_delta`. -/
  | walletPosition (delta : PositionDelta)
  /-- `upsert_vault`. -/
  | vault (row : VaultRow)
  /-- `update_vault_status`. -/
  | vaultStatus (row : StatusRow)
  /-- `insert_consensus_receipt`. -/
  | receipt (row : ReceiptRow)
  /-- `mark_consensus_receipt_released`. -/
  | release (contractAddress : Address) (receiptId : Word) (release : Release)
  deriving DecidableEq, Repr

/-- `contains` on characters. -/
def contains (text word : List Char) : Bool := text.tails.any fun rest => word.isPrefixOf rest

/-- `classify_vault_risk_label`: the words of the name, in lower case, joined by single blanks. -/
def classifyVaultRiskLabel (name : String) : Option String :=
  let words := (name.toList.splitOnP Char.isWhitespace).filter fun w => !w.isEmpty
  let n := ([' '].intercalate words).map Char.toLower
  if contains n ['a', 'g', 'e', 'n', 't'] || contains n ['r', 'w', 'a'] then some "SPECULATIVE"
  else if contains n ['p', 'r', 'o', 't', 'o', 'c', 'o', 'l'] then some "VOLATILE"
  else if contains n ['u', 's', 'd', 'c'] then some "STABLE_YIELD"
  else none

def riskLabelFromVaultName (name : String) : String := (classifyVaultRiskLabel name).getD "STABLE_YIELD"

def adminEventOf (cfg : Config) (log : LogEntry) : Option AdminEvent :=
  if cfg.timelock = some log.address then
    match log.event with
    | .callScheduled id index target value data predecessor delay =>
      some ⟨.timelock, "CallScheduled", some id,
        [("index", .number index), ("target", .address target), ("value", .number value), ("data", .bytes data),
          ("predecessor", .word predecessor), ("delay", .number delay)], false⟩
    | .callExecuted id index target value data =>
      some ⟨.timelock, "CallExecuted", some id,
        [("index", .number index), ("target", .address target), ("value", .number value), ("data", .bytes data)], false⟩
    | .cancelled id => some ⟨.timelock, "Cancelled", some id, [], false⟩
    | .minDelayChange oldDuration newDuration =>
      some ⟨.timelock, "MinDelayChange", none,
        [("old_delay", .number oldDuration), ("new_delay", .number newDuration)], false⟩
    | _ => none
  else if cfg.safe = some log.address then
    match log.event with
    | .safeExecution success txHash payment =>
      some ⟨.safe, if success then "ExecutionSuccess" else "ExecutionFailure", txHash,
        [("payment", (payment.map .number).getD .absent)], false⟩
    | .safeOwner added owner =>
      some ⟨.safe, if added then "AddedOwner" else "RemovedOwner", none,
        [("owner", (owner.map .address).getD .absent)], false⟩
    | .safeChangedThreshold threshold =>
      some ⟨.safe, "ChangedThreshold", none, [("threshold", (threshold.map .number).getD .absent)], false⟩
    | _ => none
  else
    match log.event with
    | .upgraded implementation => some ⟨.proxy, "Upgraded", none, [("implementation", .address implementation)], false⟩
    | .upgradesFrozen proxy implementation codeHash =>
      if proxy ≠ log.address then none
      else
        some ⟨.proxy, "UpgradesFrozen", none,
          [("implementation", .address implementation), ("code_hash", .word codeHash)], false⟩
    | _ => none

/-- `is_proxy_deployment`: the transaction of the log created its emitter. -/
def isProxyDeployment (created : List (Word × Address)) (log : LogEntry) : Bool :=
  created.any fun (tx, contract) => tx = log.place.txHash && contract = log.address

/-- `handle_admin_log`.  A row that is there already is marked as a deployment; one that is inserted with the mark needs
none, so the second statement changes nothing then. -/
def handleAdminLog (cfg : Config) (created : List (Word × Address)) (log : LogEntry) : List Statement :=
  match adminEventOf cfg log with
  | none => []
  | some event =>
    let deployment := event.contractKind = .proxy && isProxyDeployment created log
    .event (.admin log.place log.address { event with deployment := deployment }) ::
      if deployment then [.markProxyDeployment log.place] else []

/-- The rows of an exclusion-record event of the ledger of `vault`. -/
def exclusionRow (vault : Address) (log : LogEntry) : Option ExclusionRow :=
  match log.event with
  | .exclusionOpened id adapterIndex adapter snapshotSupply adapterValue =>
    some (.record log.place log.address (intoI64 id) vault (intoI64 adapterIndex) adapter snapshotSupply adapterValue)
  | .exclusionRecoveryCredited id source amount recoveredUsdc =>
    some (.recovery log.place log.address (intoI64 id) source amount recoveredUsdc)
  | .exclusionFinalized id reason recoveredUsdc =>
    some (.finalization log.place log.address (intoI64 id) reason recoveredUsdc)
  | .exclusionClaimed id holder amount => some (.claim log.place log.address (intoI64 id) holder amount)
  | _ => none

def handleGatewayLog (cfg : Config) (log : LogEntry) : List Statement :=
  let history (account : Address) (kind : HistoryKind) (vault agent : Option Address)
      (amount : Option Nat) : Statement :=
    .event (.history log.place account kind vault agent amount)
  match log.event with
  | .agentDeposit paymentId orderId agent shareReceiver amount sharesMinted windowId =>
    [.agentDeposit ⟨log.place, paymentId, orderId, agent, shareReceiver, amount, sharesMinted, asI64 windowId,
        some cfg.vault, some log.address, none⟩,
      history shareReceiver .deposit (some cfg.vault) (some agent) (some amount)]
  | .agentDepositRouted paymentId orderId agent shareReceiver amount sharesPerLeg windowId =>
    let totalShares := sharesPerLeg.foldl (fun acc s => min (acc + s) u256Max) 0
    [.agentDeposit ⟨log.place, paymentId, orderId, agent, shareReceiver, amount, totalShares, asI64 windowId, none,
        some log.address, none⟩,
      history shareReceiver .deposit none (some agent) (some amount)]
  | .agentWithdrawal agent sourceVault assetsOut =>
    [history agent .withdrawal (some sourceVault) (some agent) (some assetsOut)]
  | .agentAuthorized agent owner validUntil maxPerPayment maxPerWindow shareReceiver =>
    [.agentPolicy log.place agent owner false
        ⟨some (asI64 validUntil), some maxPerPayment, some maxPerWindow, none, some shareReceiver⟩ log.address,
      history agent .policyChange none (some agent) none]
  | .agentOwnershipTransferred agent newOwner =>
    [.ownerTransfer log.place agent newOwner log.address, history agent .policyChange none (some agent) none]
  | .agentRevoked agent owner =>
    [.agentPolicy log.place agent owner true ⟨none, none, none, none, none⟩ log.address,
      history agent .policyChange none (some agent) none]
  | _ => []

/-- `handle_log_within`.  `vaultOfExclusionLedger` reads the table of the ledgers, `created` the contracts that the
transactions of the tick created. -/
def handleLog (cfg : Config) (vaultOfExclusionLedger : Address → Option Address) (created : List (Word × Address))
    (log : LogEntry) : List Statement :=
  let walletPosition (owner : Address) (shares : Nat) (add : Bool) : Statement :=
    .walletPosition ⟨log.address, owner, log.place.blockNumber, log.place.logIndex, shares, add⟩
  match log.event with
  | .agentDeposit .. | .agentDepositRouted .. | .agentWithdrawal .. | .agentAuthorized ..
      | .agentOwnershipTransferred ..
  | .agentRevoked .. => if cfg.gateway = some log.address then handleGatewayLog cfg log else []
  | .routerDeposit depositor vault amount shares weightBps =>
    -- the router does not forward the gateway's payment id
    [.event (.routerLeg log.place log.place.txHash depositor vault amount shares weightBps)]
  | .withdraw caller receiver owner assets shares =>
    [.event (.history log.place owner .withdrawal (some log.address) none (some assets)),
      .event (.transfer log.place log.address .withdrawal caller receiver assets shares),
      walletPosition owner shares false]
  | .allocated index adapter amount =>
    [.event (.allocation log.place log.address (some adapter) (some (intoI64 index)) amount .allocated)]
  | .pulled index adapter amount =>
    [.event (.allocation log.place log.address (some adapter) (some (intoI64 index)) amount .pulled)]
  | .rebalanced totalMoved => [.event (.allocation log.place log.address none none totalMoved .rebalanced)]
  | .exitFeeCharged owner receiver grossAssets fee netAssets =>
    [.event (.fee log.place log.address owner receiver grossAssets fee netAssets),
      .event (.history log.place owner .feeCharged (some log.address) none (some fee))]
  | .depositsPaused | .depositsUnpaused => []
  | .vaultRegistered vault name =>
    [.vault ⟨vault, name, riskLabelFromVaultName name, 0, log.place.blockNumber, log.place.txHash, none⟩]
  | .vaultStatusChanged vault newStatus timestamp =>
    [.vaultStatus ⟨vault, log.place.blockNumber, log.place.logIndex, newStatus, intoI64 timestamp⟩]
  | .weightsSet vaults bps | .defaultWeightsSet vaults bps =>
    [.event (.weights log.place log.address vaults (bps.map intoI64))]
  | .deposit caller owner assets shares =>
    [.event (.transfer log.place log.address .deposit caller owner assets shares), walletPosition owner shares true]
  | .exclusionOpened .. | .exclusionRecoveryCredited .. | .exclusionFinalized .. | .exclusionClaimed .. =>
    match vaultOfExclusionLedger log.address with
    | none => []
    | some vault => (exclusionRow vault log).toList.map .exclusion
  | .receiptRecorded receiptId submitter index payloadDigest payloadUri recordedAt =>
    if cfg.consensusReceipt ≠ some log.address then []
    else
      [.receipt ⟨log.place, log.address, receiptId, intoI64 index, submitter, payloadDigest, payloadUri,
        asI64 recordedAt, none⟩]
  | .receiptReleased receiptId releasedBy releasedAt =>
    if cfg.consensusReceipt ≠ some log.address then []
    else [.release log.address receiptId ⟨asI64 releasedAt, log.place.blockNumber, releasedBy⟩]
  | .callScheduled .. | .callExecuted .. | .cancelled .. | .minDelayChange .. | .safeExecution .. | .safeOwner ..
  | .safeChangedThreshold .. | .upgraded .. | .upgradesFrozen .. => handleAdminLog cfg created log
  -- snapshot triggers and initializers have no row
  | .snapshotTrigger | .redeemedInKind .. | .initialized => []

end RobotMoney.Indexer
