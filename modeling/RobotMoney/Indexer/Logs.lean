import Mathlib.Data.Prod.Lex
import RobotMoney.Evm.Chain

/-!
# Logs and rows

The events the explorer indexer subscribes to, decoded, and the rows it keeps of them.  One chain is indexed, so the
column `chain_id` is left out, as are the `indexed_at` stamps and what is fetched from elsewhere than the chain (the
payload verification of a receipt).

The tables whose rows are a function of the log alone, and are only ever appended to, are one type (`EventRow`); the
four tables of the exclusion records are another (`ExclusionRow`), because the logs of a newly found ledger are handled
after the other logs of a tick.
-/

namespace RobotMoney.Indexer

open Evm

abbrev Word := BitVec 256

/-- `as i64` of a 64-bit word. -/
def asI64 (v : Nat) : Int := if v < 2 ^ 63 then v else v - 2 ^ 64

/-- `try_into().unwrap_or(i64::MAX)`. -/
def intoI64 (n : Nat) : Nat := min n (2 ^ 63 - 1)

/-- The greatest `U256`. -/
def u256Max : Nat := 2 ^ 256 - 1

inductive Event where
  -- `RobotMoneyGateway`
  | agentDeposit (paymentId orderId : Word) (agent shareReceiver : Address) (amount sharesMinted windowId : Nat)
  | agentDepositRouted (paymentId orderId : Word) (agent shareReceiver : Address) (amount : Nat)
      (sharesPerLeg : List Nat) (windowId : Nat)
  | agentWithdrawal (agent sourceVault : Address) (assetsOut : Nat)
  | agentAuthorized (agent owner : Address) (validUntil maxPerPayment maxPerWindow : Nat) (shareReceiver : Address)
  | agentOwnershipTransferred (agent newOwner : Address)
  | agentRevoked (agent owner : Address)
  -- vaults
  | deposit (caller owner : Address) (assets shares : Nat)
  | withdraw (caller receiver owner : Address) (assets shares : Nat)
  | redeemedInKind (owner receiver : Address) (shares : Nat)
  | allocated (index : Nat) (adapter : Address) (amount : Nat)
  | pulled (index : Nat) (adapter : Address) (amount : Nat)
  | rebalanced (totalMoved : Nat)
  | exitFeeCharged (owner receiver : Address) (grossAssets fee netAssets : Nat)
  | depositsPaused
  | depositsUnpaused
  /-- `TvlCapUpdated`, `PerDepositCapUpdated`, `ExitFeeUpdated`, `Shutdown`, `Restored` and `AdapterForceRemoved`, which
  only trigger snapshots. -/
  | snapshotTrigger
  -- `VaultRegistry`
  | vaultRegistered (vault : Address) (name : String)
  | vaultStatusChanged (vault : Address) (newStatus timestamp : Nat)
  -- `PortfolioRouter`
  | routerDeposit (depositor vault : Address) (amount shares weightBps : Nat)
  | weightsSet (vaults : List Address) (bps : List Nat)
  | defaultWeightsSet (vaults : List Address) (bps : List Nat)
  -- `ExclusionLedger`
  | exclusionOpened (exclusionId adapterIndex : Nat) (adapter : Address) (snapshotSupply adapterValue : Nat)
  | exclusionRecoveryCredited (exclusionId source amount recoveredUsdc : Nat)
  | exclusionFinalized (exclusionId reason recoveredUsdc : Nat)
  | exclusionClaimed (exclusionId : Nat) (holder : Address) (amount : Nat)
  -- the timelock, the safe, and the proxies
  | callScheduled (id : Word) (index : Nat) (target : Address) (value : Nat) (data : List UInt8) (predecessor : Word)
      (delay : Nat)
  | callExecuted (id : Word) (index : Nat) (target : Address) (value : Nat) (data : List UInt8)
  | cancelled (id : Word)
  | minDelayChange (oldDuration newDuration : Nat)
  | safeExecution (success : Bool) (txHash : Option Word) (payment : Option Nat)
  | safeOwner (added : Bool) (owner : Option Address)
  | safeChangedThreshold (threshold : Option Nat)
  | upgraded (implementation : Address)
  | upgradesFrozen (proxy implementation : Address) (codeHash : Word)
  | initialized
  -- `ConsensusRecommendationReceipt`
  | receiptRecorded (receiptId : Word) (submitter : Address) (index : Nat) (payloadDigest : Word) (payloadUri : String)
      (recordedAt : Nat)
  | receiptReleased (receiptId : Word) (releasedBy : Address) (releasedAt : Nat)
  deriving DecidableEq, Repr

def Event.isExclusion : Event → Bool
  | .exclusionOpened .. | .exclusionRecoveryCredited .. | .exclusionFinalized .. | .exclusionClaimed .. => true
  | _ => false

/-- Where a log stands on the chain. -/
structure LogPlace where
  blockNumber : Nat
  logIndex : Nat
  txHash : Word
  deriving DecidableEq, Repr

def LogPlace.pos (m : LogPlace) : Nat ×ₗ Nat := toLex (m.blockNumber, m.logIndex)

structure LogEntry where
  address : Address
  place : LogPlace
  event : Event
  deriving DecidableEq, Repr

/-- What a deployment of the indexer watches. -/
structure Config where
  gateway : Option Address
  vault : Address
  registry : Option Address
  routerGovernance : Option Address
  portfolioRouter : Option Address
  consensusReceipt : Option Address
  timelock : Option Address
  safe : Option Address
  maxBlocksPerTick : Nat
  endBlock : Option Nat
  /-- `INDEXER_MULTI_VAULT_EVENTS`. -/
  multiVaultEvents : Bool

inductive HistoryKind where
  | deposit
  | withdrawal
  | feeCharged
  | policyChange
  deriving DecidableEq, Repr

inductive AllocationKind where
  | allocated
  | pulled
  | rebalanced
  deriving DecidableEq, Repr

inductive Direction where
  | deposit
  | withdrawal
  deriving DecidableEq, Repr

inductive ContractKind where
  | timelock
  | safe
  | proxy
  deriving DecidableEq, Repr

/-- A value in the `detail` of an admin event. -/
inductive DetailValue where
  | number (n : Nat)
  | address (a : Address)
  | word (w : Word)
  | bytes (data : List UInt8)
  | absent
  deriving DecidableEq, Repr

/-- `AdminEvent`; the mark `deployment` of its `detail` is a field of its own. -/
structure AdminEvent where
  contractKind : ContractKind
  eventName : String
  opId : Option Word
  detail : List (String × DetailValue)
  deployment : Bool
  deriving DecidableEq, Repr

/-- A row of an append-only table, as a function of its log. -/
inductive EventRow where
  | history (place : LogPlace) (account : Address) (kind : HistoryKind) (vault agent : Option Address)
      (amount : Option Nat)
  | routerLeg (place : LogPlace) (paymentId : Word) (depositor vault : Address) (amount shares weightBps : Nat)
  | transfer (place : LogPlace) (vault : Address) (direction : Direction) (caller ownerOrReceiver : Address)
      (assets shares : Nat)
  | allocation (place : LogPlace) (vault : Address) (adapter : Option Address) (adapterIndex : Option Nat)
      (amount : Nat)
      (kind : AllocationKind)
  | fee (place : LogPlace) (vault owner receiver : Address) (grossAssets feeAmount netAssets : Nat)
  | weights (place : LogPlace) (router : Address) (vaults : List Address) (bps : List Nat)
  | admin (place : LogPlace) (contract : Address) (event : AdminEvent)
  deriving DecidableEq, Repr

/-- The tables of the schema. -/
inductive TableName where
  | accountHistoryEvents
  | adapterAllocations
  | adminEvents
  | agentDeposits
  | agentPolicies
  | blocks
  | chains
  | consensusReceipts
  | contracts
  | exclusionClaims
  | exclusionFinalizations
  | exclusionHolderBalances
  | exclusionRecords
  | exclusionRecoveries
  | exclusionSnapshotProgress
  | indexerRuns
  | proxyBackfillProgress
  | routerDepositLegs
  | routerWeightSnapshots
  | transactions
  | vaultExclusionLedgers
  | vaultFeeEvents
  | vaultSnapshots
  | vaultStatusEvents
  | vaultTransferEvents
  | vaults
  | walletPositions
  | watchdogCursor
  deriving DecidableEq, Repr

/-- Whether the migrations give the table a column `block_number`; `vaults` has a `registered_block` instead. -/
def TableName.hasBlockNumber : TableName → Bool
  | .chains | .contracts | .indexerRuns | .proxyBackfillProgress | .vaults | .watchdogCursor => false
  | _ => true

def EventRow.table : EventRow → TableName
  | .history .. => .accountHistoryEvents
  | .routerLeg .. => .routerDepositLegs
  | .transfer .. => .vaultTransferEvents
  | .allocation .. => .adapterAllocations
  | .fee .. => .vaultFeeEvents
  | .weights .. => .routerWeightSnapshots
  | .admin .. => .adminEvents

def EventRow.place : EventRow → LogPlace
  | .history m .. | .routerLeg m .. | .transfer m .. | .allocation m .. | .fee m .. | .weights m .. | .admin m .. => m

def EventRow.router : EventRow → Option Address
  | .weights _ router .. => some router
  | _ => none

def EventRow.key (r : EventRow) : TableName × Option Address × (Nat ×ₗ Nat) := (r.table, r.router, r.place.pos)

/-- A row of the exclusion-record tables. -/
inductive ExclusionRow where
  | record (place : LogPlace) (ledger : Address) (exclusionId : Nat) (vault : Address) (adapterIndex : Nat)
      (adapter : Address) (snapshotSupply adapterValue : Nat)
  | recovery (place : LogPlace) (ledger : Address) (exclusionId source amount recoveredTotal : Nat)
  | finalization (place : LogPlace) (ledger : Address) (exclusionId reason recoveredTotal : Nat)
  | claim (place : LogPlace) (ledger : Address) (exclusionId : Nat) (holder : Address) (amount : Nat)
  deriving DecidableEq, Repr

def ExclusionRow.place : ExclusionRow → LogPlace
  | .record m .. | .recovery m .. | .finalization m .. | .claim m .. => m

def ExclusionRow.table : ExclusionRow → TableName
  | .record .. => .exclusionRecords
  | .recovery .. => .exclusionRecoveries
  | .finalization .. => .exclusionFinalizations
  | .claim .. => .exclusionClaims

inductive ExclusionKey where
  | record (ledger : Address) (exclusionId : Nat)
  | recovery (pos : Nat ×ₗ Nat)
  | finalization (ledger : Address) (exclusionId : Nat)
  | claim (pos : Nat ×ₗ Nat)
  deriving DecidableEq

def ExclusionRow.key : ExclusionRow → ExclusionKey
  | .record _ ledger id .. => .record ledger id
  | .recovery m .. => .recovery m.pos
  | .finalization _ ledger id .. => .finalization ledger id
  | .claim m .. => .claim m.pos

/-- A row of `agent_deposits`, with the key of its registration. -/
structure DepositRow where
  place : LogPlace
  paymentId : Word
  orderId : Word
  agent : Address
  shareReceiver : Address
  amount : Nat
  sharesMinted : Nat
  windowId : Int
  vault : Option Address
  gateway : Option Address
  registration : Option (Nat × Nat)
  deriving DecidableEq, Repr

inductive PolicyKind where
  | authorized
  | revoked
  | transferred
  deriving DecidableEq, Repr

/-- The columns of `agent_policies` that an `AgentAuthorized` fills and a transfer copies. -/
structure PolicyFields where
  validUntil : Option Int
  maxPerPayment : Option Nat
  maxPerWindow : Option Nat
  windowUsageToDate : Option Nat
  shareReceiver : Option Address
  deriving DecidableEq, Repr

/-- A row of `agent_policies`.  Every row this version writes has a registration, so the column is not nullable here. -/
structure PolicyRow where
  place : LogPlace
  agent : Address
  owner : Option Address
  revoked : Bool
  fields : PolicyFields
  gateway : Option Address
  eventKind : PolicyKind
  registration : Nat × Nat
  deriving DecidableEq, Repr

/-- A row of `wallet_positions`: the balance after the last applied log of the block. -/
structure PositionRow where
  contract : Address
  owner : Address
  blockNumber : Nat
  shares : Nat
  lastLogIndex : Option Nat
  deriving DecidableEq, Repr

/-- A row of `vaults`. -/
structure VaultRow where
  vaultAddress : Address
  name : String
  riskLabel : String
  status : Nat
  registeredBlock : Nat
  registeredTx : Word
  statusChangedAt : Option Nat
  deriving DecidableEq, Repr

/-- A row of `vault_status_events`. -/
structure StatusRow where
  vaultAddress : Address
  blockNumber : Nat
  logIndex : Nat
  status : Nat
  changedAt : Nat
  deriving DecidableEq, Repr

def StatusRow.pos (r : StatusRow) : Nat ×ₗ Nat := toLex (r.blockNumber, r.logIndex)

/-- What `ReceiptReleased` writes. -/
structure Release where
  releasedAt : Int
  releasedBlockNumber : Nat
  releasedBy : Address
  deriving DecidableEq, Repr

/-- A row of `consensus_receipts`; `released` is whether there is a release. -/
structure ReceiptRow where
  place : LogPlace
  contractAddress : Address
  receiptId : Word
  receiptIndex : Nat
  submitter : Address
  payloadDigest : Word
  payloadUri : String
  recordedAt : Int
  release : Option Release
  deriving DecidableEq, Repr

end RobotMoney.Indexer
