import RobotMoney.Indexer.HandleLog
import RobotMoney.Sql.Table

/-!
# The database of the indexer

The tables that `handle_log` writes, what each statement does to them, and `delete_above_block`.  Registrations and
positions are computed from the rows that are there; the status of a vault and the release of a receipt are updated in
place.
-/

namespace RobotMoney.Indexer

open Evm SqlTable

/-- The block-scoped tables, apart from those of the exclusion records. -/
structure Tables where
  events : List EventRow
  policies : List PolicyRow
  deposits : List DepositRow
  positions : List PositionRow
  statusEvents : List StatusRow
  receipts : List ReceiptRow

def Tables.empty : Tables := ⟨[], [], [], [], [], []⟩

/-- What `handle_log` writes. -/
structure LogState where
  tables : Tables
  exclusions : List ExclusionRow
  vaults : List VaultRow

def LogState.empty : LogState := ⟨.empty, [], []⟩

def PolicyRow.pos (p : PolicyRow) : Nat ×ₗ Nat := p.place.pos

def DepositRow.pos (d : DepositRow) : Nat ×ₗ Nat := d.place.pos

def previousPolicy (policies : List PolicyRow) (gateway : Option Address) (agent : Address) (place : LogPlace) :
    Option PolicyRow :=
  (policies.filter fun p => decide (p.gateway = gateway ∧ p.agent = agent ∧ p.pos < place.pos)).argmax PolicyRow.pos

/-- `is_start`: whether a row starts a registration. -/
def isStart (prev : Option PolicyRow) (kind : PolicyKind) (timestamp : Option Int) : Bool :=
  match prev with
  | none => true
  | some p => p.revoked ||
      (kind = .authorized && match p.fields.validUntil, timestamp with
        | some v, some ts => decide (v < ts)
        | _, _ => false)

def insertAgentPolicy (timestampOf : Nat → Option Int) (place : LogPlace) (agent owner : Address) (revoked : Bool)
    (fields : PolicyFields) (gateway : Address) (policies : List PolicyRow) : List PolicyRow :=
  let kind := if revoked then PolicyKind.revoked else .authorized
  let prev := previousPolicy policies (some gateway) agent place
  let own := (place.blockNumber, place.logIndex)
  let registration := if isStart prev kind (timestampOf place.blockNumber) then own
    else (prev.map PolicyRow.registration).getD own
  insertNew PolicyRow.pos ⟨place, agent, some owner, revoked, fields, some gateway, kind, registration⟩ policies

def insertAgentOwnerTransfer (place : LogPlace) (agent newOwner gateway : Address) (policies : List PolicyRow) :
    List PolicyRow :=
  let prev := previousPolicy policies (some gateway) agent place
  insertNew PolicyRow.pos
    ⟨place, agent, some newOwner, false, (prev.map PolicyRow.fields).getD ⟨none, none, none, none, none⟩, some gateway,
      .transferred, (prev.map PolicyRow.registration).getD (place.blockNumber, place.logIndex)⟩ policies

def insertAgentDeposit (row : DepositRow) (policies : List PolicyRow) (deposits : List DepositRow) : List DepositRow :=
  let registration := match previousPolicy policies row.gateway row.agent row.place with
    | some p => if p.revoked then none else some p.registration
    | none => none
  insertNew DepositRow.pos { row with registration := registration } deposits

def PositionRow.key (r : PositionRow) : Address × Address × Nat := (r.contract, r.owner, r.blockNumber)

def PositionDelta.key (d : PositionDelta) : Address × Address × Nat := (d.contract, d.owner, d.blockNumber)

def positionBelow (positions : List PositionRow) (contract owner : Address) (blockNumber : Nat) : Option PositionRow :=
  (positions.filter fun r => decide (r.contract = contract ∧ r.owner = owner ∧ r.blockNumber < blockNumber)).argmax
    PositionRow.blockNumber

/-- The balance after a change, between zero and the greatest `U256`. -/
def PositionDelta.apply (d : PositionDelta) (prior : Nat) : Nat :=
  if d.add then min (prior + d.shares) u256Max else prior - d.shares

def applyWalletPositionDelta (d : PositionDelta) (positions : List PositionRow) : List PositionRow :=
  match positions.find? fun r => decide (r.key = d.key) with
  | none =>
    let prior := ((positionBelow positions d.contract d.owner d.blockNumber).map PositionRow.shares).getD 0
    positions ++ [⟨d.contract, d.owner, d.blockNumber, d.apply prior, some d.logIndex⟩]
  | some row =>
    match row.lastLogIndex with
    | none => positions
    | some last =>
      if d.logIndex ≤ last then positions
      else
        positions.map fun r =>
          if r.key = d.key then { r with shares := d.apply row.shares, lastLogIndex := some d.logIndex } else r

def StatusRow.key (r : StatusRow) : Address × (Nat ×ₗ Nat) := (r.vaultAddress, r.pos)

/-- The `UPDATE` of `update_vault_status`. -/
def setVaultStatus (row : StatusRow) (v : VaultRow) : VaultRow :=
  if v.vaultAddress = row.vaultAddress then { v with status := row.status, statusChangedAt := some row.changedAt }
  else v

def ReceiptRow.key (r : ReceiptRow) : Address × Word := (r.contractAddress, r.receiptId)

/-- The `UPDATE` of `mark_consensus_receipt_released`. -/
def setRelease (contractAddress : Address) (receiptId : Word) (release : Release) (r : ReceiptRow) : ReceiptRow :=
  if r.key = (contractAddress, receiptId) then { r with release := some release } else r

/-- The `UPDATE` of `mark_proxy_deployment`. -/
def markDeployment (place : LogPlace) (row : EventRow) : EventRow :=
  match row with
  | .admin p contract event =>
    if p.pos = place.pos ∧ event.contractKind = .proxy then .admin p contract { event with deployment := true } else row
  | _ => row

def Statement.execTables (timestampOf : Nat → Option Int) (t : Tables) : Statement → Tables
  | .event row => { t with events := insertNew EventRow.key row t.events }
  | .markProxyDeployment place => { t with events := t.events.map (markDeployment place) }
  | .agentDeposit row => { t with deposits := insertAgentDeposit row t.policies t.deposits }
  | .agentPolicy place agent owner revoked fields gateway =>
    { t with policies := insertAgentPolicy timestampOf place agent owner revoked fields gateway t.policies }
  | .ownerTransfer place agent newOwner gateway =>
    { t with policies := insertAgentOwnerTransfer place agent newOwner gateway t.policies }
  | .walletPosition delta => { t with positions := applyWalletPositionDelta delta t.positions }
  | .vaultStatus row => { t with statusEvents := insertNew StatusRow.key row t.statusEvents }
  | .receipt row => { t with receipts := insertNew ReceiptRow.key row t.receipts }
  | .release contractAddress receiptId released =>
    { t with receipts := t.receipts.map (setRelease contractAddress receiptId released) }
  | .exclusion _ => t
  | .vault _ => t

/-- What a statement does to `vaults`. -/
def Statement.execVaults (vaults : List VaultRow) : Statement → List VaultRow
  | .vault row => insertNew VaultRow.vaultAddress row vaults
  | .vaultStatus row => vaults.map (setVaultStatus row)
  | _ => vaults

def Statement.execExclusions (exclusions : List ExclusionRow) : Statement → List ExclusionRow
  | .exclusion row => insertNew ExclusionRow.key row exclusions
  | _ => exclusions

def Statement.exec (timestampOf : Nat → Option Int) (s : LogState) (st : Statement) : LogState :=
  ⟨st.execTables timestampOf s.tables, st.execExclusions s.exclusions, st.execVaults s.vaults⟩

def execAll (timestampOf : Nat → Option Int) (s : LogState) (sts : List Statement) : LogState :=
  sts.foldl (Statement.exec timestampOf) s

/-- The rows `delete_above_block` leaves in a table: `derive_rollback_tables` finds the tables with a column
`block_number` in the schema, and no table is exempt (`REORG_ROLLBACK_EXCLUSIONS` is empty). -/
def survives (root : Int) (table : TableName) (blockNumber : Nat) : Bool :=
  !table.hasBlockNumber || decide ((blockNumber : Int) ≤ root)

def latestStatus (events : List StatusRow) (vault : Address) : Option StatusRow :=
  (events.filter fun e => decide (e.vaultAddress = vault)).argmax StatusRow.pos

/-- The status of a vault, derived from the events that survive; a vault without any is active. -/
def rederiveStatus (events : List StatusRow) (v : VaultRow) : VaultRow :=
  { v with
    status := ((latestStatus events v.vaultAddress).map StatusRow.status).getD 0
    statusChangedAt := (latestStatus events v.vaultAddress).map StatusRow.changedAt }

def undoRelease (root : Int) (r : ReceiptRow) : ReceiptRow :=
  match r.release with
  | some release => if root < release.releasedBlockNumber then { r with release := none } else r
  | none => r

/-- `delete_above_block` on the block-scoped tables. -/
def Tables.deleteAboveBlock (root : Int) (t : Tables) : Tables where
  events := t.events.filter fun r => survives root r.table r.place.blockNumber
  policies := t.policies.filter fun r => survives root .agentPolicies r.place.blockNumber
  deposits := t.deposits.filter fun r => survives root .agentDeposits r.place.blockNumber
  positions := t.positions.filter fun r => survives root .walletPositions r.blockNumber
  statusEvents := t.statusEvents.filter fun r => survives root .vaultStatusEvents r.blockNumber
  receipts := (t.receipts.filter fun r => survives root .consensusReceipts r.place.blockNumber).map (undoRelease root)

/-- `delete_above_block`.  `vaults` has no column `block_number`: a vault goes with the block of its registration, and
the status of the others is derived again. -/
def LogState.deleteAboveBlock (root : Int) (s : LogState) : LogState where
  tables := s.tables.deleteAboveBlock root
  exclusions := s.exclusions.filter fun r => survives root r.table r.place.blockNumber
  vaults := (s.vaults.filter fun v => decide ((v.registeredBlock : Int) ≤ root)).map
    (rederiveStatus (s.tables.deleteAboveBlock root).statusEvents)

end RobotMoney.Indexer
