import RobotMoney.Indexer.SnapshotPass

/-!
# The snapshot balances over a run

In every run of ticks, of those that fail in the middle too, the balances of a record that is read are stored
(`snapshot_balances_complete`), as long as no rollback takes the balance of an owner whom the paged pass has passed, no
change of a position comes after the pass, and no tick reads balances before the record opened (`Deployment.Snapshots`).
`snapshot_balance_missing` is a rollback between the block of a record and that of a claim: the balance of the claimer
goes with the claim, and the record counts as read.
-/

namespace RobotMoney.Indexer

open Evm SqlTable Option SnapshotWrite

variable {H : Type} [DecidableEq H] (d : Deployment H) (balanceAt : BalanceAt)

/-- The state of a run: the database, with the chain of the last tick that wrote rows of a range, and how far they
reach. -/
structure SnapshotProgress (H : Type) where
  db : SnapshotDb H
  seen : Chain
  reach : Nat

def SnapshotProgress.core (p : SnapshotProgress H) : Progress H := ⟨p.db.core, p.seen, p.reach⟩

def Deployment.snapshotInit : SnapshotProgress H := ⟨.empty, [], d.deployFloor⟩

def Deployment.snapshotTick (p : SnapshotProgress H) (t : SnapshotTick) : Except Empty (SnapshotProgress H) :=
  .ok ⟨d.snapshotOnce balanceAt p.db t, (d.fetch p.core t.toTick).seen, (d.fetch p.core t.toTick).reach⟩

def Deployment.snapshotRolledBack (db : SnapshotDb H) (c : Chain) : SnapshotDb H :=
  match d.reorgRoot db.core c with
  | some root => db.deleteAboveBlock root
  | none => db

/-- What a tick must meet.

* The chain has not changed above the cursor where failed ticks have left rows (`Continues`).
* The ledgers that it accepts, and those of the stored records, keep their promise.
* A rollback does not take the balance of an owner whom the paged pass of a record that stays has passed, if the
positions name the owner for that record.
* The range brings no change of an owner at or below the block of a record whose paged pass has passed the owner, unless
  the balance of the owner is stored or zero.
* The safe head is not below the block of a record that is not read yet. -/
structure Deployment.Snapshots (p : SnapshotProgress H) (t : SnapshotTick) : Prop extends
    d.Continues p.core t.toTick where
  ledgers : ∀ target, d.target p.db.core t.chain = some target → ∀ a,
    (∃ s ∈ (d.rolledBack p.db.core t.chain).exclusionRecords, s.ledger = a) ∨
      (vaultOfExclusionLedger (insertLedgers (d.rolledBack p.db.core t.chain).ledgers
        (d.ledgerRows (d.rolledBack p.db.core t.chain) t.chain (d.fromBlock p.db.core t.chain) (target + 1)))
          a).isSome = true →
    d.ExclusionLedger balanceAt t.chain a
  kept : ∀ root, d.reorgRoot p.db.core t.chain = some root → ∀ q ∈ p.db.progress, (q.blockNumber : Int) ≤ root →
    ∀ r ∈ p.db.balances, q.key = (r.ledger, r.exclusionId) → q.Passed r.holder →
    (∃ s ∈ p.db.core.exclusionRecords, s.key = q.key ∧
      mayHold p.db.core.positions s.vault s.place.blockNumber r.holder = true) → (r.blockNumber : Int) ≤ root
  late : ∀ target, d.target p.db.core t.chain = some target → ∀ δ, .walletPosition δ ∈
      d.statements (d.rolledBack p.db.core t.chain) t.chain (d.fromBlock p.db.core t.chain) (target + 1) →
    ∀ s ∈ (d.snapshotRolledBack p.db t.chain).core.exclusionRecords, s.vault = δ.contract →
    δ.blockNumber ≤ s.place.blockNumber → ∀ q ∈ (d.snapshotRolledBack p.db t.chain).progress, q.key = s.key →
    q.Passed δ.owner → recordBalance balanceAt t.chain s δ.owner ≠ 0 →
    hasExclusionHolderBalance (d.snapshotRolledBack p.db t.chain).balances s.ledger s.exclusionId δ.owner = true
  head : ∀ target, d.target p.db.core t.chain = some target →
    ∀ s ∈ (d.snapshotRolledBack p.db t.chain).core.exclusionRecords,
    (progressOf (d.snapshotRolledBack p.db t.chain).progress s).any ProgressRow.done = false →
    s.place.blockNumber ≤ t.chain.safeHead

/-- The balances of a record that is read are stored: of every owner that the positions name and that had shares. -/
def Complete (p : SnapshotProgress H) : Prop :=
  ∀ s ∈ p.db.core.exclusionRecords, (∃ q ∈ p.db.progress, q.key = s.key ∧ q.done = true) →
    ∀ owner, mayHold p.db.core.positions s.vault s.place.blockNumber owner = true →
      recordBalance balanceAt p.seen s owner ≠ 0 →
      ∃ r ∈ p.db.balances, r.key = (s.ledger, s.exclusionId, owner) ∧
        r.balanceAt = recordBalance balanceAt p.seen s owner

variable {d balanceAt} {p : SnapshotProgress H} {t : SnapshotTick} {db : SnapshotDb H} {c : Chain} {reach lo hi : Nat}

omit [DecidableEq H] in
private theorem core_foldl_core (ws : List (Write H)) (db : SnapshotDb H) :
    ((ws.map core).foldl exec db).core = ws.foldl Write.exec db.core := by
  induction ws generalizing db with
  | nil => rfl
  | cons w ws ih =>
    rw [List.map_cons, List.foldl_cons, ih]
    cases w <;> rfl

private theorem core_snapshotOnce (db : SnapshotDb H) (t : SnapshotTick) :
    (d.snapshotOnce balanceAt db t).core = d.runOnce db.core t.toTick := by
  obtain ⟨rest, hrest, heq⟩ : ∃ rest : List (SnapshotWrite H), (∀ w ∈ rest, w.isPass = true) ∧
      d.snapshotWrites balanceAt db t = (d.writes db.core t.chain).map .core ++ rest := by
    refine ⟨_, ?_, rfl⟩
    intro w hw
    split at hw
    · rw [List.mem_append] at hw
      obtain hw | hw := hw
      · exact isPass_recordExclusionBalances _ _ _ _ w hw
      · exact isPass_readRecords _ _ _ _ _ w hw
    · cases hw
  have htake : ∀ k, (((d.snapshotWrites balanceAt db t).take k).foldl exec db).core =
      ((d.writes db.core t.chain).take k).foldl Write.exec db.core := by
    intro k
    rw [heq, List.take_append, List.foldl_append,
      (foldl_isPass (fun w hw => hrest w (List.mem_of_mem_take hw)) _).1, ← List.map_take, core_foldl_core]
  have hall : ((d.snapshotWrites balanceAt db t).foldl exec db).core =
      (d.writes db.core t.chain).foldl Write.exec db.core := by
    rw [heq, List.foldl_append, (foldl_isPass hrest _).1, core_foldl_core]
  unfold Deployment.snapshotOnce Deployment.runOnce
  cases t.failsAfter with
  | some k => exact htake k
  | none => exact hall ▸ rfl

private theorem core_snapshotRolledBack (db : SnapshotDb H) (c : Chain) :
    (d.snapshotRolledBack db c).core = d.rolledBack db.core c := by
  unfold Deployment.snapshotRolledBack Deployment.rolledBack
  cases d.reorgRoot db.core c <;> rfl

private theorem foldl_snapshotRollback (db : SnapshotDb H) (c : Chain) :
    (((d.reorgRoot db.core c).toList.map Write.rollback).map core).foldl exec db =
      d.snapshotRolledBack db c := by
  unfold Deployment.snapshotRolledBack
  cases d.reorgRoot db.core c <;> rfl

variable (d balanceAt) in
/-- What a tick writes for the blocks from `lo` on and below `hi`. -/
def Deployment.snapshotRange (db : SnapshotDb H) (c : Chain) (lo hi reads : Nat) : List (SnapshotWrite H) :=
  let ws := (d.rangeWrites db.core c lo hi).map core
  let claims := recordExclusionBalances balanceAt c (ws.foldl exec db) (d.tickLogs db.core c lo hi)
  ws ++ (claims ++ readSnapshotBalances balanceAt c
    (claims.foldl exec (ws.foldl exec db)) reads)

private theorem snapshotWrites_of_target {target : Nat} (htarget : d.target db.core t.chain = some target) :
    d.snapshotWrites balanceAt db t = ((d.reorgRoot db.core t.chain).toList.map Write.rollback).map .core ++
      d.snapshotRange balanceAt (d.snapshotRolledBack db t.chain) t.chain (d.fromBlock db.core t.chain) (target + 1)
        t.reads := by
  simp only [Deployment.snapshotWrites, writes_of_target htarget, htarget, Deployment.snapshotRange, List.map_append,
    List.foldl_append, foldl_snapshotRollback, core_snapshotRolledBack, List.append_assoc]

private theorem snapshotWrites_of_none (htarget : d.target db.core t.chain = none) :
    d.snapshotWrites balanceAt db t = ((d.reorgRoot db.core t.chain).toList.map Write.rollback).map .core := by
  simp only [Deployment.snapshotWrites, writes_of_none htarget, htarget, List.append_nil]

omit [DecidableEq H] in
private theorem foldl_core {ws : List (Write H)} (hnone : ∀ root, Write.rollback root ∉ ws) (db : SnapshotDb H) :
    (ws.map core).foldl exec db = { db with core := ws.foldl Write.exec db.core } := by
  induction ws generalizing db with
  | nil => rfl
  | cons w ws ih =>
    rw [List.map_cons, List.foldl_cons, ih fun root hroot => hnone root (List.mem_cons_of_mem _ hroot)]
    cases w with
    | rollback root => exact (hnone root List.mem_cons_self).elim
    | _ => rfl

omit [DecidableEq H] in
private theorem foldl_take_core (k : Nat) (db : SnapshotDb H) :
    ∃ sts, sts <+: d.statements db.core c lo hi ∧ ∃ timestampOf : Nat → Option Int, ∃ core' : Db H,
      core'.log = execAll timestampOf db.core.log sts ∧
      (((d.rangeWrites db.core c lo hi).map core).take k).foldl exec db =
        { db with core := core' } := by
  obtain ⟨headers, -, sts, hsts, -, heq⟩ := @foldl_take_rangeWrites _ d c lo hi db.core k
  refine ⟨sts, hsts, _, ((d.rangeWrites db.core c lo hi).take k).foldl Write.exec db.core, by rw [heq], ?_⟩
  rw [← List.map_take, foldl_core]
  intro root hroot
  have hroot := List.mem_of_mem_take hroot
  simp [Deployment.rangeWrites] at hroot

omit [DecidableEq H] in
private theorem progress_claims (db : SnapshotDb H) (logs : List LogEntry) :
    ((recordExclusionBalances balanceAt c db logs).foldl exec db).progress = db.progress := by
  induction logs generalizing db with
  | nil => rfl
  | cons l logs ih =>
    rw [recordExclusionBalances, List.foldl_append, ih]
    cases claimRow balanceAt c db l <;> rfl

omit [DecidableEq H] in
/-- A range at or below the safe head. -/
theorem Deployment.Snapshotted.range (h : d.Snapshotted balanceAt db c reach) (hgenesis : c ≠ [])
    (hfloor : d.deployFloor ≤ lo) (hsafe : hi ≤ c.safeHead + 1)
    (hledgers : ∀ a, (∃ s ∈ db.core.exclusionRecords, s.ledger = a) ∨
      (vaultOfExclusionLedger (insertLedgers db.core.ledgers (d.ledgerRows db.core c lo hi)) a).isSome = true →
      d.ExclusionLedger balanceAt c a)
    (hlate : ∀ δ, .walletPosition δ ∈ d.statements db.core c lo hi → ∀ s ∈ db.core.exclusionRecords,
      s.vault = δ.contract → δ.blockNumber ≤ s.place.blockNumber → ∀ q ∈ db.progress, q.key = s.key → q.Passed δ.owner →
      recordBalance balanceAt c s δ.owner ≠ 0 →
      hasExclusionHolderBalance db.balances s.ledger s.exclusionId δ.owner = true)
    (hhead : ∀ s ∈ db.core.exclusionRecords, (progressOf db.progress s).any ProgressRow.done = false →
      s.place.blockNumber ≤ c.safeHead) (reads : Nat) :
    Throughout (d.Snapshotted balanceAt · c (max reach hi)) db (d.snapshotRange balanceAt db c lo hi reads) := by
  have hcore : Throughout (d.Snapshotted balanceAt · c (max reach hi)) db
      ((d.rangeWrites db.core c lo hi).map core) := by
    intro k
    obtain ⟨sts, hsts, timestampOf, core', hlog, heq⟩ := @foldl_take_core _ d c lo hi k db
    rw [heq]
    exact h.statements hfloor hsts hlate hlog
  obtain ⟨sts, hsts, timestampOf, core', hlog, heq⟩ :=
    @foldl_take_core _ d c lo hi ((d.rangeWrites db.core c lo hi).map core).length db
  rw [List.take_length] at heq
  have hcases := fun s hs => @exclusionRecord_cases _ d c lo hi s db.core db.core core' timestampOf sts hsts hlog hs
  have hledgers' : ∀ s ∈ core'.exclusionRecords, d.ExclusionLedger balanceAt c s.ledger := by
    intro s hs
    obtain hs | ⟨l, -, haccepted, -, haddress, -⟩ := hcases s hs
    · exact hledgers s.ledger (.inl ⟨s, hs, rfl⟩)
    rw [haddress] at haccepted
    exact hledgers s.ledger (.inr haccepted)
  have hlogs : ∀ l ∈ d.tickLogs db.core c lo hi, d.Logged c l ∧ l.place.blockNumber ≤ c.safeHead := by
    intro l hl
    have hl := RangeOk.mem_logs_of_tickLogs hl
    have hlt := (mem_logs.1 hl).2.1
    exact ⟨logged_of_mem hfloor hl, by omega⟩
  have hafter := hcore.last
  refine hcore.append ?_
  rw [heq] at hafter ⊢
  have hclaims := hafter.claims hgenesis hlogs hledgers'
  refine hclaims.append (hclaims.last.readSnapshotBalances hgenesis ?_ ?_ reads)
  · rw [(foldl_isPass (isPass_recordExclusionBalances balanceAt c _ _) _).1]
    exact hledgers'
  · rw [(foldl_isPass (isPass_recordExclusionBalances balanceAt c _ _) _).1, progress_claims]
    intro s hs hdone
    obtain hs | ⟨l, hl, -, hplace, -⟩ := hcases s hs
    · exact hhead s hs hdone
    have hlt := (mem_logs.1 hl).2.1
    rw [hplace] at hlt
    omega

omit [DecidableEq H] in
private theorem Deployment.Snapshotted.runs (h : d.Snapshotted balanceAt db c reach) {runs : List (Option Nat)} :
    d.Snapshotted balanceAt { db with core := { db.core with runs := runs } } c reach where
  keys := h.keys
  opened := h.opened
  balance := h.balance
  progress := h.progress

variable (d balanceAt) in
/-- The invariant of the runs. -/
structure Deployment.Snapshotting (p : SnapshotProgress H) : Prop where
  headed : d.Headed p.core
  rows : d.Snapshotted balanceAt p.db p.seen p.reach

omit [DecidableEq H] in
private theorem snapshotting_init : d.Snapshotting balanceAt d.snapshotInit := by
  refine ⟨headed_init, ?_⟩
  constructor <;>
    simp [Deployment.snapshotInit, SnapshotDb.empty, Db.empty, LogState.empty, Db.exclusionRecords]

namespace Deployment.Snapshotting

open List Option

private theorem rolledBack (h : d.Snapshotting balanceAt p) (hsnapshots : d.Snapshots balanceAt p t) :
    d.Snapshotted balanceAt (d.snapshotRolledBack p.db t.chain) p.seen (d.reachRolled p.core t.chain) := by
  cases hroot : d.reorgRoot p.db.core t.chain with
  | none =>
    simp only [snapshotRolledBack, reachRolled, SnapshotProgress.core, hroot]
    exact h.rows
  | some root =>
    obtain ⟨-, hfrom, -, -, -⟩ := h.headed.cursor.rollback hroot
    simp only [snapshotRolledBack, reachRolled, SnapshotProgress.core, hroot]
    exact h.rows.deleteAboveBlock hfrom (hsnapshots.kept root hroot)

private theorem range (h : d.Snapshotting balanceAt p) (hsnapshots : d.Snapshots balanceAt p t) {target : Nat}
    (htarget : d.target p.db.core t.chain = some target) :
    Throughout (d.Snapshotted balanceAt · t.chain (max (d.reachRolled p.core t.chain) (target + 1)))
      (d.snapshotRolledBack p.db t.chain) (d.snapshotRange balanceAt (d.snapshotRolledBack p.db t.chain) t.chain
        (d.fromBlock p.db.core t.chain) (target + 1) t.reads) := by
  have hrolled := h.rolledBack hsnapshots
  obtain ⟨hfrom, hsafe, -, -⟩ := target_spec htarget
  have hfloor : d.deployFloor ≤ d.fromBlock p.db.core t.chain := by
    unfold fromBlock firstBlock
    omega
  have hchain : d.Snapshotted balanceAt (d.snapshotRolledBack p.db t.chain) t.chain (d.reachRolled p.core t.chain) := by
    obtain hagree | ⟨-, hreach⟩ := h.headed.agree_of_target hsnapshots.toContinues htarget
    · exact hrolled.agree hagree
    rw [hreach] at hrolled ⊢
    exact hrolled.of_floor
  refine hchain.range hsnapshots.genesis hfloor (by omega) ?_ ?_ (hsnapshots.head target htarget) t.reads
  · rw [core_snapshotRolledBack]
    exact hsnapshots.ledgers target htarget
  · intro δ hδ
    rw [core_snapshotRolledBack] at hδ
    exact hsnapshots.late target htarget δ hδ

/-- A tick keeps the invariant. -/
theorem fetch (h : d.Snapshotting balanceAt p) (hsnapshots : d.Snapshots balanceAt p t) : d.Snapshotting balanceAt
      ⟨d.snapshotOnce balanceAt p.db t, (d.fetch p.core t.toTick).seen, (d.fetch p.core t.toTick).reach⟩ := by
  constructor
  · have hcore : (⟨d.snapshotOnce balanceAt p.db t, (d.fetch p.core t.toTick).seen,
        (d.fetch p.core t.toTick).reach⟩ : SnapshotProgress H).core = d.fetch p.core t.toTick := by
      rw [SnapshotProgress.core, core_snapshotOnce]
      exact congrArg (fun db => (⟨db, _, _⟩ : Progress H)) (db_fetch p.core t.toTick).symm
    rw [hcore]
    exact h.headed.fetch hsnapshots.toContinues
  · have hrolled := h.rolledBack hsnapshots
    have hlength : (((d.reorgRoot p.db.core t.chain).toList.map Write.rollback).map (@core H)).length =
        (d.reorgRoot p.db.core t.chain).toList.length := by rw [length_map, length_map]
    by_cases hnone : t.failsAfter.any (fun k => decide (k < (d.reorgRoot p.db.core t.chain).toList.length)) = true
    · -- not even the rollback
      rw [@fetch_of_unrolled _ _ d p.core t.toTick hnone]
      cases hfails : t.failsAfter with
      | none =>
        rw [hfails] at hnone
        cases hnone
      | some k =>
        have hle : (d.reorgRoot p.db.core t.chain).toList.length ≤ 1 := by
          cases d.reorgRoot p.db.core t.chain <;> simp
        simp only [hfails, any_some, decide_eq_true_eq] at hnone
        obtain rfl : k = 0 := by omega
        simp only [snapshotOnce, hfails, take_zero, foldl_nil]
        exact h.rows
    cases htarget : d.target p.db.core t.chain with
    | none =>
      rw [@fetch_of_rolledBack _ _ d p.core t.toTick hnone (.inl htarget)]
      cases hfails : t.failsAfter with
      | none =>
        simp only [snapshotOnce, hfails, snapshotWrites_of_none htarget, foldl_snapshotRollback]
        exact hrolled.runs
      | some k =>
        simp only [hfails, any_some, decide_eq_true_eq, not_lt] at hnone
        simp only [snapshotOnce, hfails, snapshotWrites_of_none htarget]
        rw [take_of_length_le (by rwa [hlength]), foldl_snapshotRollback]
        exact hrolled
    | some target =>
      have hrange := h.range hsnapshots htarget
      by_cases honly : t.failsAfter.any (fun k => decide (k ≤ (d.reorgRoot p.db.core t.chain).toList.length)) = true
      · -- only the rollback
        rw [@fetch_of_rolledBack _ _ d p.core t.toTick hnone (.inr honly)]
        cases hfails : t.failsAfter with
        | none =>
          rw [hfails] at honly
          cases honly
        | some k =>
          simp only [hfails, any_some, decide_eq_true_eq, not_lt] at hnone honly
          simp only [snapshotOnce, hfails, snapshotWrites_of_target htarget]
          rw [take_append_of_le_length (by rw [hlength]; exact honly), take_of_length_le (by rwa [hlength]),
            foldl_snapshotRollback]
          exact hrolled
      rw [@fetch_of_range _ _ d p.core t.toTick hnone target htarget honly]
      cases hfails : t.failsAfter with
      | none =>
        simp only [snapshotOnce, hfails, snapshotWrites_of_target htarget, foldl_append, foldl_snapshotRollback]
        exact hrange.last.runs
      | some k =>
        simp only [hfails, any_some, decide_eq_true_eq, not_le] at honly
        simp only [snapshotOnce, hfails, snapshotWrites_of_target htarget]
        rw [take_append, take_of_length_le (by rw [hlength]; omega), foldl_append,
          foldl_snapshotRollback]
        exact hrange _

end Deployment.Snapshotting

private theorem db_run_snapshotTick (p : SnapshotProgress H) (ticks : List SnapshotTick) :
    (run (d.snapshotTick balanceAt) p ticks).db = ticks.foldl (d.snapshotOnce balanceAt) p.db := by
  induction ticks generalizing p with
  | nil => rfl
  | cons t ticks ih =>
    rw [run_cons, ih, exec_of_ok (show d.snapshotTick balanceAt p t = .ok _ from rfl), List.foldl_cons]

omit [DecidableEq H] in
theorem Deployment.Snapshotted.complete (h : d.Snapshotted balanceAt p.db p.seen p.reach) : Complete balanceAt p := by
  rintro s hs ⟨q, hq, hkey, hdone⟩ owner hmay hbalance
  obtain ⟨s', hs', hkey', -, hcovered⟩ := h.progress q hq
  obtain rfl := h.unique hs hs' (hkey.symm.trans hkey'.symm)
  obtain ⟨r, hr, hkey⟩ := hasExclusionHolderBalance_iff.1 (hcovered owner (.inl hdone) hmay hbalance)
  simp only [BalanceRow.key, Prod.mk.injEq] at hkey
  obtain ⟨hledger, hid, rfl⟩ := hkey
  obtain ⟨s', hs', hkey', -, heq⟩ := h.balance r hr
  obtain rfl := h.unique hs hs' (by rw [hkey', hledger, hid, RecordRow.key])
  exact ⟨r, hr, by rw [BalanceRow.key, hledger, hid], heq⟩

/-- The snapshot balances are complete in every state of a run whose ticks all meet `Snapshots`. -/
theorem snapshot_balances_complete (ticks : List SnapshotTick)
    (h : Along (d.snapshotTick balanceAt) (d.Snapshots balanceAt) d.snapshotInit ticks) :
    let p := run (d.snapshotTick balanceAt) d.snapshotInit ticks
    p.db = ticks.foldl (d.snapshotOnce balanceAt) .empty ∧ Complete balanceAt p := by
  have hrun : d.Snapshotting balanceAt (run (d.snapshotTick balanceAt) d.snapshotInit ticks) := by
    refine Along.invariant ?_ snapshotting_init h
    rintro p t p' hp hsnapshots ⟨⟩
    exact hp.fetch hsnapshots
  exact ⟨db_run_snapshotTick d.snapshotInit ticks, hrun.rows.complete⟩

def Chain.opens (c : Chain) (a : Address) (id : Nat) : Bool :=
  (c.logs 0 c.length).any fun l => decide (l.address = a ∧ l.event.opened = some id)

def singleHolder : BalanceAt := fun c a id holder => if c.opens a id = true ∧ holder = 8 then 100 else 0

/-- A ledger with one exclusion, opened in block `n`. -/
theorem exclusionLedger_of_forall {a : Address} {n : Nat}
    (hopened : ∀ l ∈ c.logs 0 c.length, l.address = a → l.event.opened = none ∨
      l.event.opened = some 1 ∧ l.place.blockNumber = n)
    (hclaimed : ∀ l ∈ c.logs 0 c.length, l.address = a → l.event.claimed = none ∨
      l.event.claimed.map Prod.fst = some 1 ∧ n ≤ l.place.blockNumber)
    (hopens : ∀ m < c.length, n ≤ m → Chain.opens (c.take (m + 1)) a 1 = true) (hn : n < c.length) :
    followDeployment.ExclusionLedger singleHolder c a := by
  have hmem : ∀ l, followDeployment.Logged c l → l ∈ c.logs 0 c.length := by
    intro l hl
    refine (@mem_logs_iff _ followDeployment c _ _).2 ⟨hl, ?_⟩
    have hl := hl.2
    unfold Chain.entriesAt at hl
    split at hl
    · rename_i block hblock
      exact (getElem?_eq_some_iff.1 hblock).1
    · cases hl
  have hopened' : ∀ l, followDeployment.Logged c l → l.address = a → ∀ id, l.event.opened = some id →
      id = 1 ∧ l.place.blockNumber = n := by
    intro l hl haddress id hid
    obtain hnone | ⟨hone, hblock⟩ := hopened l (hmem l hl) haddress
    · rw [hid] at hnone
      cases hnone
    rw [hid, some.injEq] at hone
    exact ⟨hone, hblock⟩
  have hclaimed' : ∀ l, followDeployment.Logged c l → l.address = a → ∀ id holder, l.event.claimed = some (id, holder) →
      id = 1 ∧ n ≤ l.place.blockNumber := by
    intro l hl haddress id holder hid
    obtain hnone | ⟨hone, hblock⟩ := hclaimed l (hmem l hl) haddress
    · rw [hid] at hnone
      cases hnone
    rw [hid, map_some, some.injEq] at hone
    exact ⟨hone, hblock⟩
  constructor
  · intro l hl haddress id hid
    have hone := (hopened' l hl haddress id hid).1
    omega
  · intro l hl haddress id holder hid
    have hone := (hclaimed' l hl haddress id holder hid).1
    omega
  · intro l l' hl hl' haddress haddress' id holder hid hid'
    rw [(hopened' l hl haddress id hid).2]
    exact (hclaimed' l' hl' haddress' id holder hid').2
  · intro l hl haddress id hid m hm hlt holder
    obtain ⟨rfl, hblock⟩ := hopened' l hl haddress id hid
    rw [hblock] at hm ⊢
    simp only [exclusionBalanceAt, singleHolder, hopens m hlt hm, hopens n hn le_rfl]

def ledgerBlock (timestamp : Nat) (logs : List ChainLog) : ChainBlock := ⟨timestamp, logs, [(7, .ledger 21)]⟩

def recordChain : Chain :=
  [ledgerBlock 0 [], ledgerBlock 1 [⟨7, 1, some (.deposit 8 8 100 100)⟩],
    ledgerBlock 2 [⟨21, 2, some (.exclusionOpened 1 0 30 100 100)⟩]]

def claimedChain : Chain :=
  recordChain ++ ledgerBlock 3 [⟨21, 3, some (.exclusionClaimed 1 8 50)⟩] ::
    (List.range 5).map fun n => ledgerBlock (n + 4) []

def unclaimedChain : Chain := recordChain ++ (List.range 7).map fun n => ledgerBlock (n + 13) []

private theorem exclusionLedger_claimedChain : followDeployment.ExclusionLedger singleHolder claimedChain 21 :=
  @exclusionLedger_of_forall claimedChain 21 2 (by decide +kernel) (by decide +kernel) (by decide +kernel) (by decide)

private theorem exclusionLedger_unclaimedChain : followDeployment.ExclusionLedger singleHolder unclaimedChain 21 :=
  @exclusionLedger_of_forall unclaimedChain 21 2 (by decide +kernel) (by decide +kernel) (by decide +kernel) (by decide)

private theorem snapshots_of_unchanged {p : SnapshotProgress Chain} {t : SnapshotTick} {target : Nat}
    (htarget : followDeployment.target p.db.core t.chain = some target) (hgenesis : t.chain ≠ [])
    (hroot : followDeployment.reorgRoot p.db.core t.chain = none)
    (hagree : followDeployment.nextBlock p.db.core < p.reach → Agree p.seen t.chain p.reach)
    (hprogress : p.db.progress = [])
    (hrecords : ∀ s ∈ p.db.core.exclusionRecords, s.ledger = 21 ∧ s.place.blockNumber ≤ t.chain.safeHead)
    (hrows : ∀ r ∈ insertLedgers p.db.core.ledgers (followDeployment.ledgerRows p.db.core t.chain
      (followDeployment.fromBlock p.db.core t.chain) (target + 1)), r.ledger = some 21)
    (hpromise : followDeployment.ExclusionLedger singleHolder t.chain 21) :
    followDeployment.Snapshots singleHolder p t := by
  have hcore : followDeployment.rolledBack p.db.core t.chain = p.db.core := by
    simp only [Deployment.rolledBack, hroot]
  have hdb : followDeployment.snapshotRolledBack p.db t.chain = p.db := by
    simp only [Deployment.snapshotRolledBack, hroot]
  refine ⟨⟨hgenesis, fun _ _ hlt => hagree hlt⟩, ?_, ?_, ?_, ?_⟩
  · intro target' htarget' a ha
    obtain rfl : target = target' := some.inj (htarget.symm.trans htarget')
    rw [hcore] at ha
    obtain ⟨s, hs, rfl⟩ | haccepted := ha
    · rw [(hrecords s hs).1]
      exact hpromise
    unfold vaultOfExclusionLedger at haccepted
    obtain ⟨v, hv⟩ := isSome_iff_exists.1 haccepted
    obtain ⟨r, hr, -⟩ := List.mem_map.1 (List.min?_mem hv)
    rw [List.mem_filter, decide_eq_true_eq] at hr
    obtain ⟨hr, hledger⟩ := hr
    rw [hrows r hr, some.injEq] at hledger
    rw [← hledger]
    exact hpromise
  · intro root hsome
    rw [hroot] at hsome
    cases hsome
  · intro target' _ δ _ s _ _ _ q hq
    rw [hdb, hprogress] at hq
    cases hq
  · intro target' _ s hs _
    rw [hdb] at hs
    exact (hrecords s hs).2

/-- A tick that fails before its passes, and one that reads the record. -/
theorem snapshot_balances_complete_of_claimedChain :
    let ticks : List SnapshotTick := [⟨⟨claimedChain, some 8⟩, 10⟩, ⟨⟨claimedChain, none⟩, 10⟩]
    let p := run (followDeployment.snapshotTick singleHolder) followDeployment.snapshotInit ticks
    (∃ q ∈ p.db.progress, q.done = true) ∧ Complete singleHolder p := by
  intro ticks p
  have hticks : Along (followDeployment.snapshotTick singleHolder) (followDeployment.Snapshots singleHolder)
      followDeployment.snapshotInit ticks := by
    refine ⟨?_, ?_, trivial⟩
    · exact @snapshots_of_unchanged _ ⟨⟨claimedChain, some 8⟩, 10⟩ 3 (by decide +kernel) (by decide) (by decide +kernel)
        (by decide) rfl (by decide +kernel) (by decide +kernel) exclusionLedger_claimedChain
    · exact @snapshots_of_unchanged _ ⟨⟨claimedChain, none⟩, 10⟩ 3 (by decide +kernel) (by decide) (by decide +kernel)
        (by decide +kernel) (by decide +kernel) (by decide +kernel) (by decide +kernel) exclusionLedger_claimedChain
  refine ⟨⟨⟨21, 1, none, true, 2⟩, by decide +kernel, rfl⟩, (snapshot_balances_complete ticks hticks).2⟩

/-- The rollback to the block of the record takes the balance that was read at the claim, which the paged pass had left
out, and the record still counts as read. -/
theorem snapshot_balance_missing :
    let ticks : List SnapshotTick := [⟨⟨claimedChain, none⟩, 10⟩, ⟨⟨unclaimedChain, none⟩, 10⟩]
    let p := run (followDeployment.snapshotTick singleHolder) followDeployment.snapshotInit ticks
    followDeployment.ExclusionLedger singleHolder claimedChain 21 ∧
      followDeployment.ExclusionLedger singleHolder unclaimedChain 21 ∧
      p.db = ticks.foldl (followDeployment.snapshotOnce singleHolder) .empty ∧ ¬Complete singleHolder p := by
  intro ticks p
  refine ⟨exclusionLedger_claimedChain, exclusionLedger_unclaimedChain, db_run_snapshotTick _ ticks,
    fun hcomplete => ?_⟩
  have hnone : p.db.balances = [] := by decide +kernel
  obtain ⟨r, hr, -⟩ :=
    hcomplete ⟨⟨2, 0, 2⟩, 21, 1, 7⟩ (by decide +kernel) ⟨⟨21, 1, none, true, 2⟩, by decide +kernel, rfl, rfl⟩
    8 (by decide +kernel) (by decide +kernel)
  rw [hnone] at hr
  cases hr

end RobotMoney.Indexer
