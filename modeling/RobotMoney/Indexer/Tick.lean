import RobotMoney.Indexer.Decoded

/-!
# One tick of the indexer (`run_inner`)

A tick checks the hash of its cursor, rolls back if it has changed, and reads the next blocks up to the safe head.  The
chain is fixed during a tick, so what it writes is a list (`Deployment.writes`), each item of which the database does at
once: a tick that fails has executed a prefix of the list, and only a tick that executes all of it moves the cursor.

The writes that no log table is made of are left out: transactions, snapshots of vaults, holder balances, and the
backfill of proxy events.
-/

namespace RobotMoney.Indexer

open Evm SqlTable

/-- A row of `blocks`. -/
structure HeaderRow (H : Type) where
  blockNumber : Nat
  hash : H
  timestamp : Int
  deriving DecidableEq

/-- A row of `vault_exclusion_ledgers`; no ledger stands for a vault without the getter. -/
structure LedgerRow where
  vault : Address
  ledger : Option Address
  blockNumber : Nat
  deriving DecidableEq, Repr

def LedgerRow.key (r : LedgerRow) : Address × Nat := (r.vault, r.blockNumber)

/-- The database: headers, ledgers, what logs wrote, and the `last_indexed_block` of each run without an error. -/
structure Db (H : Type) where
  blocks : List (HeaderRow H)
  ledgers : List LedgerRow
  log : LogState
  runs : List (Option Nat)

variable {H : Type}

def Db.empty : Db H := ⟨[], [], .empty, []⟩

def Db.lastIndexedBlock (db : Db H) : Option Nat := (db.runs.filterMap id).max?

def Db.header (db : Db H) (n : Nat) : Option (HeaderRow H) := db.blocks.find? fun h => decide (h.blockNumber = n)

def Db.getBlockHash (db : Db H) (n : Nat) : Option H := (db.header n).map HeaderRow.hash

def Db.timestampOf (db : Db H) (n : Nat) : Option Int := (db.header n).map HeaderRow.timestamp

def vaultOfExclusionLedger (rows : List LedgerRow) (ledger : Address) : Option Address :=
  ((rows.filter fun r => decide (r.ledger = some ledger)).map LedgerRow.vault).min?

def capRun (root : Int) : Option Nat → Option Nat
  | some n => if root < n then (if root < 0 then none else some root.toNat) else some n
  | none => none

def Db.deleteAboveBlock (root : Int) (db : Db H) : Db H where
  blocks := db.blocks.filter fun h => survives root .blocks h.blockNumber
  ledgers := db.ledgers.filter fun r => survives root .vaultExclusionLedgers r.blockNumber
  log := db.log.deleteAboveBlock root
  runs := db.runs.map (capRun root)

/-- What the database does at once. -/
inductive Write (H : Type) where
  | rollback (root : Int)
  /-- `insert_vault_exclusion_ledger`. -/
  | ledger (row : LedgerRow)
  /-- `insert_block`. -/
  | header (row : HeaderRow H)
  | statement (st : Statement)

def Write.exec (db : Db H) : Write H → Db H
  | .rollback root => db.deleteAboveBlock root
  | .ledger row => { db with ledgers := insertNew LedgerRow.key row db.ledgers }
  | .header row => { db with blocks := insertNew HeaderRow.blockNumber row db.blocks }
  | .statement st => { db with log := st.exec db.timestampOf db.log }

def confirmations : Nat := 5

def Chain.safeHead (c : Chain) : Nat := c.length - 1 - confirmations

/-- `resolve_cursor_start`: a cursor below the floor is discarded. -/
def resolveCursorStart (lastIndexed : Option Nat) (deployFloor : Nat) : Option Nat :=
  match lastIndexed with
  | some li => if li + 1 < deployFloor then none else some li
  | none => none

def firstBlock (lastIndexed : Option Nat) (deployFloor : Nat) : Nat :=
  max ((lastIndexed.map (· + 1)).getD 0) deployFloor

def tickTarget (fromBlock safeHead : Nat) (endBlock : Option Nat) (maxBlocksPerTick : Nat) : Option Nat :=
  let target := match endBlock with
    | some e => min safeHead e
    | none => safeHead
  let target := min target (fromBlock + (max maxBlocksPerTick 1 - 1))
  if fromBlock ≤ target then some target else none

section Tick

variable (d : Deployment H)

/-- `block_header`, as the row that is stored of it. -/
def Deployment.headerAt (chain : Chain) (n : Nat) : Option (HeaderRow H) :=
  (chain[n]?).map fun block => ⟨n, d.hash (chain.take (n + 1)), asI64 block.timestamp⟩

variable [DecidableEq H]

def Deployment.hashMatches (db : Db H) (c : Chain) (n : Nat) : Bool :=
  match db.getBlockHash n, d.headerAt c n with
  | some stored, some header => decide (header.hash = stored)
  | _, _ => false

def Deployment.walkBackToMatch (db : Db H) (c : Chain) : Nat → Int
  | 0 => if d.deployFloor ≤ 0 ∧ d.hashMatches db c 0 = true then 0 else (d.deployFloor : Int) - 1
  | n + 1 =>
    if d.deployFloor ≤ n + 1 then
      if d.hashMatches db c (n + 1) = true then (n + 1 : Nat) else Deployment.walkBackToMatch db c n
    else (d.deployFloor : Int) - 1

def Deployment.reorgRoot (db : Db H) (c : Chain) : Option Int :=
  match resolveCursorStart db.lastIndexedBlock d.deployFloor with
  | none => none
  | some li =>
    match db.getBlockHash li, d.headerAt c li with
    | some stored, some header => if header.hash ≠ stored then some (d.walkBackToMatch db c li) else none
    | _, _ => none

def Deployment.lastIndexed (db : Db H) (c : Chain) : Option Nat :=
  match d.reorgRoot db c with
  | some root => if root < 0 then none else some root.toNat
  | none => resolveCursorStart db.lastIndexedBlock d.deployFloor

def Deployment.fromBlock (db : Db H) (c : Chain) : Nat := firstBlock (d.lastIndexed db c) d.deployFloor

/-- The last block of a tick; `none` when there is nothing to read. -/
def Deployment.target (db : Db H) (c : Chain) : Option Nat :=
  if c.safeHead < d.fromBlock db c then none
  else tickTarget (d.fromBlock db c) c.safeHead d.cfg.endBlock d.cfg.maxBlocksPerTick

def Deployment.rolledBack (db : Db H) (c : Chain) : Db H :=
  match d.reorgRoot db c with
  | some root => db.deleteAboveBlock root
  | none => db

end Tick

/-- One log of the discovery: the vaults known so far, and the new ones with the block of their registration. -/
def discoverStep (s : List Address × List (Address × Nat)) (l : LogEntry) : List Address × List (Address × Nat) :=
  match l.event.registeredVault with
  | none => s
  | some vault =>
    if vault ∈ s.1 then
      (s.1, s.2.map fun p => if p.1 = vault then (vault, min p.2 l.place.blockNumber) else p)
    else (s.1 ++ [vault], s.2 ++ [(vault, l.place.blockNumber)])

def hasAnswer (rows : List LedgerRow) (vault : Address) : Bool := rows.any fun r => decide (r.vault = vault)

def hasNamed (rows : List LedgerRow) (vault ledger : Address) : Bool :=
  rows.any fun r => decide (r.vault = vault ∧ r.ledger = some ledger)

/-- `read_exclusion_ledger`: what is stored of the first answer of a vault. -/
def firstRow (rows : List LedgerRow) (c : Chain) (read : Address × Nat) : Option LedgerRow :=
  if hasAnswer rows read.1 then none
  else
    match c.ledgerAt read.1 read.2 with
    | .ledger ledger => some ⟨read.1, some ledger, read.2⟩
    | .noLedger => some ⟨read.1, none, read.2⟩
    | .unknown => none

/-- `exclusion_ledgers_of`, for one vault. -/
def exclusionLedgersOf (rows : List LedgerRow) (c : Chain) (read : Address × Nat) : List Address :=
  if hasAnswer rows read.1 then (rows.filter fun r => decide (r.vault = read.1)).filterMap LedgerRow.ledger
  else (firstRow rows c read).toList.filterMap LedgerRow.ledger

/-- `exclusion_ledgers_moved_by_upgrades`: the ledgers that the triggers name for the first time. -/
def movedRows (c : Chain) : List LedgerRow → List (Address × Nat) → List LedgerRow
  | _, [] => []
  | known, (vault, n) :: triggers =>
    match c.ledgerAt vault n with
    | .ledger ledger =>
      if hasNamed known vault ledger then movedRows c known triggers
      else ⟨vault, some ledger, n⟩ :: movedRows c (known ++ [⟨vault, some ledger, n⟩]) triggers
    | _ => movedRows c known triggers

def movedFrom (rows : List LedgerRow) (ledger : Address) : Option Nat :=
  ((rows.filter fun r => decide (r.ledger = some ledger)).map LedgerRow.blockNumber).min?

def insertLedgers (rows new : List LedgerRow) : List LedgerRow :=
  new.foldl (fun rows row => insertNew LedgerRow.key row rows) rows

/-- `is_proxy_log`. -/
def Event.isProxy : Event → Bool
  | .upgraded _ | .upgradesFrozen .. => true
  | _ => false

section Reads

variable (d : Deployment H) (db : Db H) (c : Chain) (lo hi : Nat)

def Deployment.discovered : List Address × List (Address × Nat) :=
  ((c.logs lo hi).filter fun l => decide (d.cfg.registry = some l.address)).foldl discoverStep
    ((db.log.vaults.map VaultRow.vaultAddress).insertionSort (· ≤ ·), [])

def Deployment.ledgerVaults : List Address := d.cfg.vault :: (d.discovered db c lo hi).1

/-- Each vault with the block at which its ledger is read first: that of its registration, or the first of the range. -/
def Deployment.firstReads : List (Address × Nat) :=
  (d.ledgerVaults db c lo hi).map fun vault => (vault, ((d.discovered db c lo hi).2.lookup vault).getD lo)

def Deployment.firstRows : List LedgerRow := (d.firstReads db c lo hi).filterMap (firstRow db.ledgers c)

def Deployment.watchedNow : List Address :=
  let watched := (d.discovered db c lo hi).1.foldl pushNew d.cfg.watchedAddresses
  let watched := ((d.firstReads db c lo hi).flatMap (exclusionLedgersOf db.ledgers c)).foldl pushNew watched
  d.cfg.proxyOnlyAddresses.foldl pushNew watched

def Deployment.mainLogs : List LogEntry :=
  ((c.logs lo hi).filter fun l => decide (l.address ∈ d.watchedNow db c lo hi)).filter fun l =>
    decide (l.address ∉ d.cfg.proxyOnlyAddresses) || l.event.isProxy

/-- The blocks with an `Upgraded` or `Initialized` of a vault, as a sorted set. -/
def Deployment.triggers : List (Address × Nat) :=
  ((((d.mainLogs db c lo hi).filter fun l =>
    l.event.isLedgerTrigger && decide (l.address ∈ d.ledgerVaults db c lo hi)).map fun l =>
      toLex (l.address, l.place.blockNumber)).dedup.insertionSort (· ≤ ·)).map ofLex

def Deployment.moved : List LedgerRow :=
  movedRows c (insertLedgers db.ledgers (d.firstRows db c lo hi)) (d.triggers db c lo hi)

def Deployment.lateLogs : List LogEntry :=
  (c.logs lo hi).filter fun l => decide (l.address ∉ d.watchedNow db c lo hi) &&
    match movedFrom (d.moved db c lo hi) l.address with
    | some n => decide (n ≤ l.place.blockNumber)
    | none => false

def Deployment.tickLogs : List LogEntry := d.mainLogs db c lo hi ++ d.lateLogs db c lo hi

def Deployment.ledgerRows : List LedgerRow := d.firstRows db c lo hi ++ d.moved db c lo hi

def Deployment.headerRows : List (HeaderRow H) :=
  let blocks := ((d.tickLogs db c lo hi).map fun l => l.place.blockNumber).dedup.insertionSort (· ≤ ·)
  blocks.filterMap (d.headerAt c) ++ if hi - 1 ∈ blocks then [] else (d.headerAt c (hi - 1)).toList

def Deployment.statements : List Statement :=
  (d.tickLogs db c lo hi).flatMap (handleLog d.cfg
    (vaultOfExclusionLedger (insertLedgers db.ledgers (d.ledgerRows db c lo hi))) (d.created (d.tickLogs db c lo hi)))

/-- What a tick writes for the blocks from `lo` on and below `hi`. -/
def Deployment.rangeWrites : List (Write H) :=
  (d.ledgerRows db c lo hi).map .ledger ++ (d.headerRows db c lo hi).map .header ++
    (d.statements db c lo hi).map .statement

end Reads

section Run

variable (d : Deployment H) [DecidableEq H]

def Deployment.writes (db : Db H) (c : Chain) : List (Write H) :=
  (d.reorgRoot db c).toList.map .rollback ++
    match d.target db c with
    | some target => d.rangeWrites (d.rolledBack db c) c (d.fromBlock db c) (target + 1)
    | none => []

/-- A tick: the chain that it sees, and the number of writes after which it fails, if it does. -/
structure Tick where
  chain : Chain
  failsAfter : Option Nat

def Deployment.runOnce (db : Db H) (t : Tick) : Db H :=
  match t.failsAfter with
  | some k => ((d.writes db t.chain).take k).foldl Write.exec db
  | none =>
    let db' := (d.writes db t.chain).foldl Write.exec db
    let lastIndexed := match d.target db t.chain with
      | some target => some target
      | none => d.lastIndexed db t.chain
    { db' with runs := db'.runs ++ [lastIndexed] }

end Run

end RobotMoney.Indexer
