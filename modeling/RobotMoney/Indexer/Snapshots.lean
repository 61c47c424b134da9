import RobotMoney.Indexer.Cursor

/-!
# The snapshot balances of the exclusion records

A record entitles whoever held shares when it opened.  `balanceAt` of its ledger is read by two passes of a tick: that
of a claim stores the balance of the claimer under the block of the claim, and a paged pass stores that of the owners
whom the positions name under the block of the record.  The paged pass stops when its time is spent, and the next tick
goes on from the owner noted in `exclusion_snapshot_progress`.

The ledgers answer `balanceAt`, as a parameter; a tick reads it at its safe head.
-/

namespace RobotMoney.Indexer

open Evm SqlTable

/-- A row of `exclusion_holder_balances`. -/
structure BalanceRow where
  ledger : Address
  exclusionId : Nat
  holder : Address
  balanceAt : Nat
  blockNumber : Nat
  deriving DecidableEq, Repr

def BalanceRow.key (r : BalanceRow) : Address × Nat × Address := (r.ledger, r.exclusionId, r.holder)

/-- A row of `exclusion_snapshot_progress`. -/
structure ProgressRow where
  ledger : Address
  exclusionId : Nat
  readThrough : Option Address
  done : Bool
  blockNumber : Nat
  deriving DecidableEq, Repr

def ProgressRow.key (q : ProgressRow) : Address × Nat := (q.ledger, q.exclusionId)

/-- The columns of `exclusion_records` that the passes read. -/
structure RecordRow where
  place : LogPlace
  ledger : Address
  exclusionId : Nat
  vault : Address
  deriving DecidableEq, Repr

def RecordRow.key (s : RecordRow) : Address × Nat := (s.ledger, s.exclusionId)

def ExclusionRow.asRecord : ExclusionRow → Option RecordRow
  | .record place ledger id vault .. => some ⟨place, ledger, id, vault⟩
  | _ => none

variable {H : Type}

def Db.exclusionRecords (db : Db H) : List RecordRow := db.log.exclusions.filterMap ExclusionRow.asRecord

def Db.positions (db : Db H) : List PositionRow := db.log.tables.positions

/-- The database with the tables of the two passes. -/
structure SnapshotDb (H : Type) where
  core : Db H
  balances : List BalanceRow
  progress : List ProgressRow

def SnapshotDb.empty : SnapshotDb H := ⟨.empty, [], []⟩

def exclusionRecordVault (db : Db H) (ledger : Address) (id : Nat) : Option Address :=
  (db.exclusionRecords.find? fun s => decide (s.key = (ledger, id))).map RecordRow.vault

def hasExclusionHolderBalance (balances : List BalanceRow) (ledger : Address) (id : Nat) (holder : Address) : Bool :=
  balances.any fun r => decide (r.key = (ledger, id, holder))

def setExclusionSnapshotProgress (row : ProgressRow) (rows : List ProgressRow) : List ProgressRow :=
  if rows.any fun q => decide (q.key = row.key) then
    rows.map fun q => if q.key = row.key then { q with readThrough := row.readThrough, done := row.done } else q
  else rows ++ [row]

def progressOf (rows : List ProgressRow) (s : RecordRow) : Option ProgressRow :=
  rows.find? fun q => decide (q.key = s.key)

structure PendingSnapshot where
  ledgerAddress : Address
  exclusionId : Nat
  vaultAddress : Address
  openedBlock : Nat
  readThrough : Option Address
  deriving DecidableEq, Repr

def RecordRow.pending (s : RecordRow) (readThrough : Option Address) : PendingSnapshot :=
  ⟨s.ledger, s.exclusionId, s.vault, s.place.blockNumber, readThrough⟩

def exclusionSnapshotsPending (db : SnapshotDb H) : List PendingSnapshot :=
  ((db.core.exclusionRecords.filter fun s => !(progressOf db.progress s).any ProgressRow.done).insertionSort
    fun s s' => s.place.pos ≤ s'.place.pos).map fun s =>
      s.pending ((progressOf db.progress s).bind ProgressRow.readThrough)

/-- Whether an owner may hold shares at a record: its newest row below the block of the record holds some, or it has a
row in that block. -/
def mayHold (positions : List PositionRow) (vault : Address) (openedBlock : Nat) (owner : Address) : Bool :=
  (positionBelow positions vault owner openedBlock).any (fun r => decide (0 < r.shares)) ||
    positions.any fun r => decide (r.contract = vault ∧ r.owner = owner ∧ r.blockNumber = openedBlock)

def exclusionSnapshotCandidates (db : SnapshotDb H) (rec : PendingSnapshot) (after : Option Address) (limit : Nat) :
    List Address :=
  ((((db.core.positions.map PositionRow.owner).dedup.filter fun owner =>
    after.all (fun x => decide (x < owner)) && mayHold db.core.positions rec.vaultAddress rec.openedBlock owner &&
      !hasExclusionHolderBalance db.balances rec.ledgerAddress rec.exclusionId owner).insertionSort (· ≤ ·))).take limit

/-- What the database does at once; a rollback takes the rows above its root of these tables too. -/
inductive SnapshotWrite (H : Type) where
  | core (w : Write H)
  /-- `insert_exclusion_holder_balance`. -/
  | balance (row : BalanceRow)
  | progress (row : ProgressRow)

def SnapshotDb.deleteAboveBlock (root : Int) (db : SnapshotDb H) : SnapshotDb H where
  core := db.core.deleteAboveBlock root
  balances := db.balances.filter fun r => survives root .exclusionHolderBalances r.blockNumber
  progress := db.progress.filter fun q => survives root .exclusionSnapshotProgress q.blockNumber

def SnapshotWrite.exec (db : SnapshotDb H) : SnapshotWrite H → SnapshotDb H
  | .core (.rollback root) => db.deleteAboveBlock root
  | .core w => { db with core := w.exec db.core }
  | .balance row => { db with balances := insertNew BalanceRow.key row db.balances }
  | .progress row => { db with progress := setExclusionSnapshotProgress row db.progress }

/-- What `balanceAt` of a ledger answers at the end of a chain. -/
abbrev BalanceAt := Chain → Address → Nat → Address → Nat

def exclusionBalanceAt (balanceAt : BalanceAt) (c : Chain) (ledger holder : Address) (id block : Nat) : Nat :=
  balanceAt (c.take (block + 1)) ledger id holder

def snapshotReadBatch : Nat := 256

def Event.opened : Event → Option Nat
  | .exclusionOpened id .. => some id
  | _ => none

def Event.claimed : Event → Option (Nat × Address)
  | .exclusionClaimed id holder _ => some (id, holder)
  | _ => none

section Passes

variable (balanceAt : BalanceAt) (c : Chain)

/-- `record_exclusion_balances`, for one log: nothing is read of a record that is not stored, or a balance that is. -/
def claimRow (db : SnapshotDb H) (log : LogEntry) : Option BalanceRow :=
  match log.event.claimed with
  | none => none
  | some (id, holder) =>
    if (exclusionRecordVault db.core log.address (intoI64 id)).isNone ||
        hasExclusionHolderBalance db.balances log.address (intoI64 id) holder then none
    else
      let balance := exclusionBalanceAt balanceAt c log.address holder id c.safeHead
      if 0 < balance then some ⟨log.address, intoI64 id, holder, balance, log.place.blockNumber⟩ else none

def recordExclusionBalances (db : SnapshotDb H) : List LogEntry → List (SnapshotWrite H)
  | [] => []
  | log :: logs =>
    let ws := (claimRow balanceAt c db log).toList.map .balance
    ws ++ recordExclusionBalances (ws.foldl SnapshotWrite.exec db) logs

def holderRows (rec : PendingSnapshot) (holders : List Address) : List BalanceRow :=
  holders.filterMap fun holder =>
    let balance := exclusionBalanceAt balanceAt c rec.ledgerAddress holder rec.exclusionId c.safeHead
    if 0 < balance then some ⟨rec.ledgerAddress, rec.exclusionId, holder, balance, rec.openedBlock⟩ else none

def PendingSnapshot.progress (rec : PendingSnapshot) (readThrough : Option Address) (done : Bool) : ProgressRow :=
  ⟨rec.ledgerAddress, rec.exclusionId, readThrough, done, rec.openedBlock⟩

private theorem sub_length_lt {holders : List Address} {reads : Nat} (hempty : holders ≠ [])
    (hstop : ¬reads < holders.length) : reads - holders.length < reads := by
  have hpos := List.length_pos_iff.2 hempty
  omega

/-- The loop over the batches of a record.  `reads` is the number of reads before the pass stops, by a failed read or
because its time is spent; what is left of it is returned, unless the pass has stopped. -/
def readRecord (rec : PendingSnapshot) (db : SnapshotDb H) (reads : Nat) (through : Option Address) :
    List (SnapshotWrite H) × Option Nat :=
  let holders := exclusionSnapshotCandidates db rec through snapshotReadBatch
  if hempty : holders = [] then ([.progress (rec.progress through true)], some reads)
  else
    let through' := (holders.take reads).getLast?.or through
    let ws := (holderRows balanceAt c rec (holders.take reads)).map .balance ++
      [.progress (rec.progress through' false)]
    if _hstop : reads < holders.length then (ws, none)
    else
      let rest := readRecord rec (ws.foldl SnapshotWrite.exec db) (reads - holders.length) through'
      (ws ++ rest.1, rest.2)
termination_by reads
decreasing_by exact sub_length_lt hempty _hstop

/-- `read_snapshot_balances`: one record after the other. -/
def readRecords (db : SnapshotDb H) : List PendingSnapshot → Nat → List (SnapshotWrite H)
  | [], _ => []
  | rec :: pending, reads =>
    let (ws, left) := readRecord balanceAt c rec db reads rec.readThrough
    ws ++ match left with
      | some reads => readRecords (ws.foldl SnapshotWrite.exec db) pending reads
      | none => []

def readSnapshotBalances (db : SnapshotDb H) (reads : Nat) : List (SnapshotWrite H) :=
  readRecords balanceAt c db (exclusionSnapshotsPending db) reads

end Passes

/-- A tick, with the number of balances that its paged pass reads before it stops. -/
structure SnapshotTick extends Tick where
  reads : Nat

section Run

variable (d : Deployment H) (balanceAt : BalanceAt) [DecidableEq H]

def Deployment.snapshotWrites (db : SnapshotDb H) (t : SnapshotTick) : List (SnapshotWrite H) :=
  let ws := (d.writes db.core t.chain).map SnapshotWrite.core
  ws ++ match d.target db.core t.chain with
    | some target =>
      let logs := d.tickLogs (d.rolledBack db.core t.chain) t.chain (d.fromBlock db.core t.chain) (target + 1)
      let db := ws.foldl SnapshotWrite.exec db
      let claims := recordExclusionBalances balanceAt t.chain db logs
      claims ++ readSnapshotBalances balanceAt t.chain (claims.foldl SnapshotWrite.exec db) t.reads
    | none => []

/-- `run_once`. -/
def Deployment.snapshotOnce (db : SnapshotDb H) (t : SnapshotTick) : SnapshotDb H :=
  match t.failsAfter with
  | some k => ((d.snapshotWrites balanceAt db t).take k).foldl SnapshotWrite.exec db
  | none =>
    let db' := (d.snapshotWrites balanceAt db t).foldl SnapshotWrite.exec db
    let lastIndexed := match d.target db.core t.chain with
      | some target => some target
      | none => d.lastIndexed db.core t.chain
    { db' with core := { db'.core with runs := db'.core.runs ++ [lastIndexed] } }

end Run

end RobotMoney.Indexer
