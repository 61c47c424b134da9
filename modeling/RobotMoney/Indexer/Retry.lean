import RobotMoney.Indexer.Decoded
import RobotMoney.Indexer.Verification
import RobotMoney.Sql.InPlace
import RobotMoney.Sql.Upsert

/-!
# Handling logs again

The tick that fails leaves the writes before some point, and the next one handles its logs from the start.  `LogRows` is
all that `handle_log` writes, without the times that the database reads from its own clock.

The second run leaves what one run leaves (`retry_leaves_same_rows`), with two exceptions.  The fetch attempts of the
two runs add up where a receipt was not verified at the cut; and a vault or a receipt that is changed before it is there
is left as if the change came after.
-/

namespace RobotMoney.Indexer

open Evm SqlTable List LogEntry ReceiptVerification

/-- A row of `contracts`. -/
structure ContractRow where
  address : Address
  kind : String
  deployedBlock : Option Nat
  deriving DecidableEq, Repr

/-- `upsert_contract`: a stored block is never overwritten, and a row that is there keeps its kind. -/
def upsertContractRow (row : ContractRow) (t : List ContractRow) : List ContractRow :=
  if t.any (fun x => decide (x.address = row.address)) then
    t.map fun x => if x.address = row.address ∧ x.deployedBlock = none ∧ row.deployedBlock.isSome then
      { x with deployedBlock := row.deployedBlock } else x
  else t ++ [row]

/-- What the database does at once. -/
inductive LogWrite where
  | contract (row : ContractRow)
  | statement (st : Statement)
  deriving DecidableEq, Repr

def Statement.writes : Statement → List LogWrite
  | .vault row => [.contract ⟨row.vaultAddress, "vault", none⟩, .statement (.vault row)]
  | st => [.statement st]

/-- The writes of `handle_log_within`. -/
def handleLogWrites (cfg : Config) (vaultOfExclusionLedger : Address → Option Address) (created : List (Word × Address))
    (log : LogEntry) : List LogWrite :=
  (handleLog cfg vaultOfExclusionLedger created log).flatMap Statement.writes

def LogWrite.toStatement : LogWrite → Option Statement
  | .contract _ => none
  | .statement st => some st

def LogWrite.toContract : LogWrite → Option ContractRow
  | .contract row => some row
  | .statement _ => none

private theorem filterMap_toStatement_writes (st : Statement) : st.writes.filterMap LogWrite.toStatement = [st] := by
  cases st <;> rfl

private theorem filterMap_toStatement_handleLogWrites {cfg : Config} {vaultOfExclusionLedger : Address → Option Address}
    {created : List (Word × Address)} (logs : List LogEntry) :
    (logs.flatMap (handleLogWrites cfg vaultOfExclusionLedger created)).filterMap LogWrite.toStatement =
      logs.flatMap (handleLog cfg vaultOfExclusionLedger created) := by
  rw [filterMap_flatMap]
  apply flatMap_congr
  intro log _
  rw [handleLogWrites, filterMap_flatMap]
  simp only [filterMap_toStatement_writes]
  exact flatMap_singleton' _

private theorem deployedBlock_of_mem_handleLogWrites {cfg : Config} {vaultOfExclusionLedger : Address → Option Address}
    {created : List (Word × Address)} {logs : List LogEntry} {row : ContractRow}
    (h : .contract row ∈ logs.flatMap (handleLogWrites cfg vaultOfExclusionLedger created)) : row.deployedBlock =
      none := by
  obtain ⟨log, -, h⟩ := mem_flatMap.1 h
  obtain ⟨st, -, h⟩ := mem_flatMap.1 h
  cases st with
  | vault v =>
    simp only [Statement.writes, mem_cons, LogWrite.contract.injEq, reduceCtorEq, not_mem_nil, or_false] at h
    rw [h]
  | _ => simp [Statement.writes] at h

/-- What a statement does to `consensus_receipts`. -/
def Statement.execReceipts (verify : ReceiptRow → ReceiptVerification) (t : List StoredReceipt) :
    Statement → List StoredReceipt
  | .receipt row => insertReceipt row (verify row) t
  | .release contractAddress receiptId released => markReceiptReleased contractAddress receiptId released t
  | _ => t

private theorem insertReceipt_rows (row : ReceiptRow) (v : ReceiptVerification) (t : List StoredReceipt) :
    (insertReceipt row v t).map StoredReceipt.row = insertNew ReceiptRow.key row (t.map StoredReceipt.row) := by
  have hany : (t.map StoredReceipt.row).any (fun r => decide (r.key = row.key)) =
      t.any fun r => decide (r.key = row.key) := by
    rw [any_map]
    rfl
  rw [insertReceipt, insertNew, hany]
  split
  · rw [map_map]
    apply map_congr_left
    intro r _
    simp only [Function.comp_apply]
    split
    · exact row_merge v r
    · rfl
  rw [map_append]
  rfl

variable {verify : ReceiptRow → ReceiptVerification}

private theorem execReceipts_rows {timestampOf : Nat → Option Int} {s : Tables} {t : List StoredReceipt}
    (h : s.receipts = t.map StoredReceipt.row) (st : Statement) :
    (st.execTables timestampOf s).receipts = (st.execReceipts verify t).map StoredReceipt.row := by
  cases st with
  | receipt row =>
    simp only [Statement.execTables, Statement.execReceipts]
    rw [insertReceipt_rows, h]
  | release c id released =>
    simp only [Statement.execTables, Statement.execReceipts, markReceiptReleased]
    rw [h, map_map, map_map]
    rfl
  | _ => exact h

private theorem key_markReceiptReleased (c : Address) (id : Word) (released : Release) (t : List StoredReceipt) :
    (markReceiptReleased c id released t).map StoredReceipt.key = t.map StoredReceipt.key := by
  rw [markReceiptReleased, map_map]
  apply map_congr_left
  intro r _
  exact key_setRelease c id released r.row

private theorem nodup_execReceipts {t : List StoredReceipt} (h : (t.map StoredReceipt.key).Nodup) (st : Statement) :
    ((st.execReceipts verify t).map StoredReceipt.key).Nodup := by
  cases st with
  | receipt row => exact nodup_insertReceipt h
  | release c id released =>
    simp only [Statement.execReceipts]
    rwa [key_markReceiptReleased]
  | _ => exact h

/-- What `handle_log` writes; the receipts with their verification, one for each key. -/
structure LogRows where
  state : LogState
  contracts : List ContractRow
  receipts : List StoredReceipt
  rows_eq : state.tables.receipts = receipts.map StoredReceipt.row
  nodup : (receipts.map StoredReceipt.key).Nodup

def LogRows.empty : LogRows := ⟨.empty, [], [], rfl, List.nodup_nil⟩

variable (dg : ReceiptDigests) (timestampOf : Nat → Option Int) (inline : ReceiptRow → InlineFetch)

def verifyInline (row : ReceiptRow) : ReceiptVerification :=
  indexVerification dg row.payloadUri row.payloadDigest (inline row)

def LogWrite.exec (s : LogRows) : LogWrite → LogRows
  | .contract row => { s with contracts := upsertContractRow row s.contracts }
  | .statement st =>
    ⟨st.exec timestampOf s.state, s.contracts, st.execReceipts (verifyInline dg inline) s.receipts,
      execReceipts_rows s.rows_eq st, nodup_execReceipts s.nodup st⟩

def execWrites (s : LogRows) (ws : List LogWrite) : LogRows := ws.foldl (LogWrite.exec dg timestampOf inline) s

variable {dg} {timestampOf} {inline}

private theorem execWrites_concat (s : LogRows) (ws : List LogWrite) (w : LogWrite) :
    execWrites dg timestampOf inline s (ws ++ [w]) =
      LogWrite.exec dg timestampOf inline (execWrites dg timestampOf inline s ws) w := by
  rw [execWrites, foldl_append]
  rfl

def StoredReceipt.verification (r : StoredReceipt) : ReceiptVerification :=
  ⟨r.verified, r.payloadBytes, r.verifyAttempts, r.lastVerifyError⟩

def ReceiptVerification.merge (old new : ReceiptVerification) : ReceiptVerification :=
  if old.verified then old
  else ⟨new.verified, new.payloadBytes.or old.payloadBytes, old.attempts + new.attempts, new.lastError⟩

def ReceiptVerification.addAttempts (n : Nat) (v : ReceiptVerification) : ReceiptVerification :=
  { v with attempts := v.attempts + n }

def ReceiptVerification.blank : ReceiptVerification := ⟨false, none, 0, none⟩

open ReceiptVerification

variable {v v' : ReceiptVerification} {vs : List ReceiptVerification}

private theorem merge_blank (v : ReceiptVerification) : ReceiptVerification.blank.merge v = v := by
  cases v
  simp [ReceiptVerification.blank, ReceiptVerification.merge]

private theorem merge_of_verified_eq (h : v.verified = true) : v.merge v' = v := if_pos h

private theorem addAttempts_merge (n : Nat) (v v' : ReceiptVerification) :
    (v.addAttempts n).merge v' = (v.merge v').addAttempts n := by
  cases hv : v.verified with
  | true => simp [addAttempts, ReceiptVerification.merge, hv]
  | false => simp [addAttempts, ReceiptVerification.merge, hv, Nat.add_right_comm]

private theorem verified_foldl_merge (vs : List ReceiptVerification) (v : ReceiptVerification) :
    (vs.foldl merge v).verified = (v.verified || vs.any verified) := by
  induction vs generalizing v with
  | nil => simp
  | cons v' vs ih =>
    rw [foldl_cons, ih]
    cases hv : v.verified with
    | true => simp [ReceiptVerification.merge, hv]
    | false => simp [ReceiptVerification.merge, hv]

private def latestBytes (vs : List ReceiptVerification) (b : Option Nat) : Option Nat :=
  vs.foldl (fun b v => v.payloadBytes.or b) b

private def latestError (vs : List ReceiptVerification) (e : Option String) : Option String :=
  vs.foldl (fun _ v => v.lastError) e

private theorem latestBytes_eq_or (vs : List ReceiptVerification) (b : Option Nat) :
    latestBytes vs b = (latestBytes vs none).or b := by
  induction vs generalizing b with
  | nil => rfl
  | cons v vs ih =>
    have hcons : ∀ b, latestBytes (v :: vs) b = latestBytes vs (v.payloadBytes.or b) := fun _ => rfl
    rw [hcons, hcons, ih, ih (v.payloadBytes.or none), Option.or_assoc, Option.or_none]

private theorem latestBytes_twice (vs : List ReceiptVerification) (b : Option Nat) :
    latestBytes vs (latestBytes vs b) = latestBytes vs b := by
  rw [latestBytes_eq_or vs (latestBytes vs b), latestBytes_eq_or vs b]
  cases latestBytes vs none <;> rfl

private theorem latestError_twice (vs : List ReceiptVerification) (e : Option String) :
    latestError vs (latestError vs e) = latestError vs e := by
  cases vs with
  | nil => rfl
  | cons v vs => rfl

private theorem foldl_merge_of_unverified (h : vs.any verified = false) (hv : v.verified = false) :
    vs.foldl merge v = ⟨false, latestBytes vs v.payloadBytes,
      v.attempts + (vs.map attempts).sum, latestError vs v.lastError⟩ := by
  induction vs generalizing v with
  | nil =>
    cases v
    simp only at hv
    simp [hv, latestBytes, latestError]
  | cons v' vs ih =>
    rw [any_cons, Bool.or_eq_false_iff] at h
    have hstep : v.merge v' = ⟨false, v'.payloadBytes.or v.payloadBytes, v.attempts + v'.attempts, v'.lastError⟩ := by
      simp [ReceiptVerification.merge, hv, h.1]
    rw [foldl_cons, hstep, ih h.2 rfl, map_cons, sum_cons, Nat.add_assoc]
    rfl

private theorem foldl_merge_twice (vs : List ReceiptVerification) (v : ReceiptVerification) :
    vs.foldl merge (vs.foldl merge v) =
      (vs.foldl merge v).addAttempts
        (if (vs.foldl merge v).verified then 0 else (vs.map attempts).sum) := by
  cases hverified : (vs.foldl merge v).verified with
  | true =>
    rw [Replay.foldl_absorbed fun v' _ => merge_of_verified_eq hverified, if_pos rfl]
    rfl
  | false =>
    have hnone := hverified
    rw [verified_foldl_merge, Bool.or_eq_false_iff] at hnone
    rw [foldl_merge_of_unverified hnone.2 hverified, foldl_merge_of_unverified hnone.2 hnone.1,
      if_neg Bool.false_ne_true]
    simp only [latestBytes_twice, latestError_twice]
    rfl

def StoredReceipt.entry (r : StoredReceipt) : (Address × Word) × ReceiptVerification := (r.key, r.verification)

open StoredReceipt

private theorem verification_merge (v : ReceiptVerification) (r : StoredReceipt) :
    (r.merge v).verification = r.verification.merge v := by
  unfold StoredReceipt.merge ReceiptVerification.merge StoredReceipt.verification
  split <;> rfl

private theorem insertReceipt_entries (row : ReceiptRow) (v : ReceiptVerification) (t : List StoredReceipt) :
    (insertReceipt row v t).map entry =
      upsert merge .blank (t.map entry) (row.key, v) := by
  have hany : (t.map entry).any (fun x => decide (x.1 = row.key)) =
      t.any fun r => decide (r.key = row.key) := by
    rw [any_map]
    rfl
  rw [insertReceipt, upsert, hany]
  split
  · rw [map_map, map_map]
    apply map_congr_left
    intro r _
    change (if r.key = row.key then r.merge v else r).entry =
      if r.key = row.key then (r.key, r.verification.merge v) else r.entry
    split
    · rw [entry, key_merge, verification_merge]
    · rfl
  rw [map_append, map_singleton, merge_blank]
  rfl

def LogWrite.verifications (verify : ReceiptRow → ReceiptVerification) :
    LogWrite → Option ((Address × Word) × ReceiptVerification)
  | .statement (.receipt row) => some (row.key, verify row)
  | _ => none

private theorem execReceipts_entries (t : List StoredReceipt) (st : Statement) :
    (st.execReceipts verify t).map entry =
      upserts merge .blank (t.map entry)
        (LogWrite.verifications verify (.statement st)).toList := by
  cases st with
  | receipt row => exact insertReceipt_entries row (verify row) t
  | release c id released =>
    simp only [Statement.execReceipts, markReceiptReleased]
    rw [map_map]
    apply map_congr_left
    intro r _
    exact Prod.ext (key_setRelease c id released r.row) rfl
  | _ => rfl

private theorem execWrites_entries (s : LogRows) (ws : List LogWrite) :
    (execWrites dg timestampOf inline s ws).receipts.map entry =
      upserts merge .blank (s.receipts.map entry)
        (ws.filterMap (LogWrite.verifications (verifyInline dg inline))) := by
  induction ws using reverseRecOn with
  | nil => rfl
  | append_singleton ws w ih =>
    rw [execWrites_concat, filterMap_append, upserts_append, ← ih]
    cases w with
    | contract row => rfl
    | statement st =>
      rw [LogWrite.exec, execReceipts_entries]
      cases st <;> rfl

theorem execWrites_state (s : LogRows) (ws : List LogWrite) : (execWrites dg timestampOf inline s ws).state =
      execAll timestampOf s.state (ws.filterMap LogWrite.toStatement) := by
  induction ws using reverseRecOn with
  | nil => rfl
  | append_singleton ws w ih =>
    rw [execWrites_concat, filterMap_append, execAll, foldl_append, ← execAll, ← execAll, ← ih]
    cases w <;> rfl

theorem execWrites_contracts (s : LogRows) (ws : List LogWrite) : (execWrites dg timestampOf inline s ws).contracts =
      (ws.filterMap LogWrite.toContract).foldl (fun t row => upsertContractRow row t) s.contracts := by
  induction ws using reverseRecOn with
  | nil => rfl
  | append_singleton ws w ih =>
    rw [execWrites_concat, filterMap_append, foldl_append, ← ih]
    cases w <;> rfl

private theorem upsertContractRow_eq {row : ContractRow} (h : row.deployedBlock = none) (t : List ContractRow) :
    upsertContractRow row t = insertNew ContractRow.address row t := by
  unfold upsertContractRow insertNew
  split
  · conv_rhs => rw [← map_id t]
    apply map_congr_left
    intro x _
    exact if_neg fun hx => by simp [h] at hx
  · rfl

private theorem exists_key_foldl_insertNew {ρ κ : Type} [DecidableEq κ] {key : ρ → κ} {rows t : List ρ} {row : ρ}
    (h : row ∈ rows) : ∃ x ∈ rows.foldl (fun t row => insertNew key row t) t, key x = key row := by
  have hkeep : ∀ (rows t : List ρ) (x : ρ), x ∈ t → x ∈ rows.foldl (fun t row => insertNew key row t) t := by
    intro rows
    induction rows with
    | nil => exact fun t x hx => hx
    | cons r rows ih => exact fun t x hx => ih _ x (mem_insertNew_of_mem hx)
  obtain ⟨pre, post, rfl⟩ := append_of_mem h
  rw [foldl_append, foldl_cons]
  obtain ⟨x, hx, hkey⟩ := exists_mem_insertNew key row (pre.foldl (fun t row => insertNew key row t) t)
  exact ⟨x, hkeep post _ x hx, hkey⟩

private theorem foldl_insertNew_again {ρ κ : Type} [DecidableEq κ] (key : ρ → κ) (p q t : List ρ) :
    (p ++ q).foldl (fun t row => insertNew key row t) (p.foldl (fun t row => insertNew key row t) t) =
      (p ++ q).foldl (fun t row => insertNew key row t) t := by
  apply Replay.foldl_again
  intro row hrow
  obtain ⟨x, hx, hkey⟩ : ∃ x ∈ p.foldl (fun t row => insertNew key row t) t, _ := exists_key_foldl_insertNew hrow
  exact insertNew_of_mem hx hkey

def LogEntry.registers (log : LogEntry) : Option Address :=
  match log.event with
  | .vaultRegistered vault _ => some vault
  | _ => none

def LogEntry.setsStatus (log : LogEntry) : Option Address :=
  match log.event with
  | .vaultStatusChanged vault _ _ => some vault
  | _ => none

def LogEntry.records (cfg : Config) (log : LogEntry) : Option (Address × Word) :=
  match log.event with
  | .receiptRecorded id .. => if cfg.consensusReceipt = some log.address then some (log.address, id) else none
  | _ => none

def LogEntry.releases (cfg : Config) (log : LogEntry) : Option (Address × Word) :=
  match log.event with
  | .receiptReleased id .. => if cfg.consensusReceipt = some log.address then some (log.address, id) else none
  | _ => none

def putStatus (x : Nat × Nat) (v : VaultRow) : VaultRow := { v with status := x.1, statusChangedAt := some x.2 }

private theorem lawfulPut_putStatus : LawfulPut VaultRow.vaultAddress putStatus := ⟨fun _ _ => rfl, fun _ _ _ => rfl⟩

def putRelease (x : Release) (r : ReceiptRow) : ReceiptRow := { r with release := some x }

private theorem lawfulPut_putRelease : LawfulPut ReceiptRow.key putRelease := ⟨fun _ _ => rfl, fun _ _ _ => rfl⟩

/-- What a statement changes in `vaults`. -/
def Statement.vaultChange : Statement → Change VaultRow Address (Nat × Nat)
  | .vault row => .insert row
  | .vaultStatus row => .update row.vaultAddress (row.status, row.changedAt)
  | _ => .skip

def Statement.receiptChange : Statement → Change ReceiptRow (Address × Word) Release
  | .receipt row => .insert row
  | .release contractAddress receiptId released => .update (contractAddress, receiptId) released
  | _ => .skip

open Statement

private theorem execVaults_eq (vaults : List VaultRow) (st : Statement) :
    st.execVaults vaults = st.vaultChange.exec VaultRow.vaultAddress putStatus vaults := by
  cases st <;> rfl

private theorem execTables_receipts (t : Tables) (st : Statement) :
    (st.execTables timestampOf t).receipts = st.receiptChange.exec ReceiptRow.key putRelease t.receipts := by
  cases st <;> rfl

section Logs

variable {cfg : Config} {vaultOfExclusionLedger : Address → Option Address} {created : List (Word × Address)}

private theorem registers_iff (log : LogEntry) (k : Address) :
    log.registers = some k ↔ ∃ c ∈ (handleLog cfg vaultOfExclusionLedger created log).map vaultChange,
      Change.inserts VaultRow.vaultAddress c = some k := by
  constructor
  · intro h
    unfold registers at h
    split at h
    · rename_i vault name hevent
      simp only [handleLog, hevent]
      exact ⟨_, mem_singleton_self _, h⟩
    · cases h
  · rintro ⟨c, hc, hk⟩
    obtain ⟨st, hst, rfl⟩ := mem_map.1 hc
    cases st with
    | vault row =>
      obtain ⟨name, hevent⟩ := (statement_of_handleLog hst).vault row rfl
      rw [registers, hevent]
      exact hk
    | _ => cases hk

private theorem setsStatus_iff (log : LogEntry) (k : Address) :
    log.setsStatus = some k ↔ ∃ c ∈ (handleLog cfg vaultOfExclusionLedger created log).map vaultChange,
      Change.updates c = some k := by
  constructor
  · intro h
    unfold setsStatus at h
    split at h
    · rename_i vault n t hevent
      simp only [handleLog, hevent]
      exact ⟨_, mem_singleton_self _, h⟩
    · cases h
  · rintro ⟨c, hc, hk⟩
    obtain ⟨st, hst, rfl⟩ := mem_map.1 hc
    cases st with
    | vaultStatus row =>
      obtain ⟨-, n, t, hevent⟩ := (statement_of_handleLog hst).status row rfl
      rw [setsStatus, hevent]
      exact hk
    | _ => cases hk

private theorem records_iff (log : LogEntry) (k : Address × Word) :
    log.records cfg = some k ↔ ∃ c ∈ (handleLog cfg vaultOfExclusionLedger created log).map receiptChange,
      Change.inserts ReceiptRow.key c = some k := by
  constructor
  · intro h
    unfold LogEntry.records at h
    split at h
    · rename_i id a n d u r hevent
      split at h
      · rename_i hcontract
        simp only [handleLog, hevent, hcontract, ne_eq, not_true_eq_false, if_false]
        exact ⟨_, mem_singleton_self _, h⟩
      · cases h
    · cases h
  · rintro ⟨c, hc, hk⟩
    obtain ⟨st, hst, rfl⟩ := mem_map.1 hc
    cases st with
    | receipt row =>
      obtain ⟨-, id, a, n, d, u, r, hevent⟩ := (statement_of_handleLog hst).receipt row rfl
      simp only [handleLog, hevent] at hst
      split at hst
      · cases hst
      rename_i hcontract
      rw [mem_singleton] at hst
      cases hst
      rw [LogEntry.records, hevent]
      simp only [if_pos (not_not.1 hcontract)]
      exact hk
    | _ => cases hk

private theorem releases_iff (log : LogEntry) (k : Address × Word) :
    log.releases cfg = some k ↔ ∃ c ∈ (handleLog cfg vaultOfExclusionLedger created log).map receiptChange,
      Change.updates c = some k := by
  constructor
  · intro h
    unfold releases at h
    split at h
    · rename_i id a t hevent
      split at h
      · rename_i hcontract
        simp only [handleLog, hevent, hcontract, ne_eq, not_true_eq_false, if_false]
        exact ⟨_, mem_singleton_self _, h⟩
      · cases h
    · cases h
  · rintro ⟨c, hc, hk⟩
    obtain ⟨st, hst, rfl⟩ := mem_map.1 hc
    cases st with
    | release c id released =>
      obtain ⟨hcontract, rfl, a, t, hevent⟩ := (statement_of_handleLog hst).release c id released rfl
      rw [releases, hevent]
      simp only [if_pos hcontract]
      exact hk
    | _ => cases hk

variable {p q : List Statement}

theorem retry_of_changes {ρ κ σ : Type} [DecidableEq κ] {key : ρ → κ} {put : σ → ρ → ρ} (hput : LawfulPut key put)
    {change : Statement → Change ρ κ σ} {inserts updates : LogEntry → Option κ} {logs : List LogEntry} {t : List ρ}
    (hcut : logs.flatMap (handleLog cfg vaultOfExclusionLedger created) = p ++ q)
    (hinserts : ∀ log k, inserts log = some k ↔ ∃ c ∈ (handleLog cfg vaultOfExclusionLedger created log).map change,
      Change.inserts key c = some k)
    (hupdates : ∀ log k, updates log = some k ↔ ∃ c ∈ (handleLog cfg vaultOfExclusionLedger created log).map change,
      Change.updates c = some k)
    (hone : ∀ log k, inserts log = some k → updates log ≠ some k)
    (hsettled : Settled inserts updates (fun k => ∃ r ∈ t, key r = k) logs) :
    (p ++ q).foldl (fun t st => (change st).exec key put t) (p.foldl (fun t st => (change st).exec key put t) t) =
      (p ++ q).foldl (fun t st => (change st).exec key put t) t := by
  have hscript := hsettled.flatMap hinserts hupdates hone
  rw [← map_flatMap, hcut, map_append] at hscript
  have hretry := foldl_retry_update hput hscript
  rwa [← map_append, foldl_map, foldl_map, foldl_map] at hretry

def MarksRows (sts : List Statement) : Prop :=
  ∀ pre place post, sts = pre ++ .markProxyDeployment place :: post →
    ∃ row, Statement.event row ∈ pre ∧ row.key = adminKey place

private theorem MarksRows.left (h : MarksRows (p ++ q)) : MarksRows p := by
  intro pre place post heq
  exact h pre place (post ++ q) (by simp [heq])

private theorem marksRows_handleLog (logs : List LogEntry) :
    MarksRows (logs.flatMap (handleLog cfg vaultOfExclusionLedger created)) := by
  intro pre place post h
  obtain ⟨l₁, log, l₂, pre', post', -, hlog, rfl, -⟩ := Replay.flatMap_eq_append_cons h
  obtain ⟨row, hrow, hkey⟩ := handleLog_of_mark hlog
  exact ⟨row, mem_append_right _ hrow, hkey⟩

private theorem absorbed_foldl {sts : List Statement} (h : MarksRows sts) (t : Tables) :
    ∀ st ∈ sts, (∀ c id released, st ≠ .release c id released) →
      st.Absorbed (sts.foldl (execTables timestampOf) t) := by
  induction sts using reverseRecOn with
  | nil => simp
  | append_singleton sts last ih =>
    have ih := ih h.left
    intro st hst hrelease
    rw [foldl_append, foldl_cons, foldl_nil]
    rcases mem_append.1 hst with hst | hst
    · exact (ih st hst hrelease).step fun c id released _ heq => (hrelease c id released heq).elim
    rw [mem_singleton] at hst
    subst hst
    apply absorbed_execTables
    cases st with
    | markProxyDeployment place =>
      obtain ⟨row, hrow, hkey⟩ := h sts place [] rfl
      obtain ⟨x, hx, hx'⟩ := ih _ hrow fun _ _ _ heq => by cases heq
      exact ⟨x, hx, hx'.trans hkey⟩
    | release c id released => exact (hrelease c id released rfl).elim
    | _ => trivial

def Tables.others (t : Tables) : Tables := { t with receipts := [] }

private theorem others_execTables (t : Tables) (st : Statement) :
    (st.execTables timestampOf t).others = (st.execTables timestampOf t.others).others := by
  cases st <;> rfl

theorem others_foldl (sts : List Statement) (t : Tables) : (sts.foldl (execTables timestampOf) t).others =
      sts.foldl (fun t st => (st.execTables timestampOf t).others) t.others := by
  induction sts using reverseRecOn with
  | nil => rfl
  | append_singleton sts st ih =>
    rw [foldl_append, foldl_append, foldl_cons, foldl_nil, foldl_cons, foldl_nil, ← ih, ← others_execTables]

private theorem others_again (h : MarksRows p) (t : Tables) :
    ((p ++ q).foldl (execTables timestampOf) (p.foldl (execTables timestampOf) t)).others =
      ((p ++ q).foldl (execTables timestampOf) t).others := by
  rw [others_foldl, others_foldl, others_foldl]
  apply Replay.foldl_again
  intro st hst
  rw [← others_foldl, ← others_execTables]
  by_cases hrelease : ∀ c id released, st ≠ .release c id released
  · rw [(absorbed_foldl h t st hst hrelease).execTables]
  simp only [not_forall, not_not] at hrelease
  obtain ⟨c, id, released, rfl⟩ := hrelease
  rfl

end Logs

/-- The attempts that count twice for a receipt: those of the first run, unless the receipt is verified at the cut. -/
def attemptsAgain (verify : ReceiptRow → ReceiptVerification) (p : List LogWrite) (cut : List StoredReceipt)
    (k : Address × Word) : Nat :=
  if ∃ r ∈ cut, r.key = k ∧ r.verified = true then 0
  else ((valuesOf (p.filterMap (LogWrite.verifications verify)) k).map attempts).sum

private theorem eq_map_of_entries {n : Address × Word → Nat} {l l' : List StoredReceipt}
    (hrows : l'.map row = l.map row) (hentries : l'.map entry =
      (l.map entry).map fun x => (x.1, x.2.addAttempts (n x.1))) :
    l' = l.map fun r => { r with verifyAttempts := r.verifyAttempts + n r.key } := by
  induction l generalizing l' with
  | nil => exact map_eq_nil_iff.1 hrows
  | cons r l ih =>
    cases l' with
    | nil => cases hrows
    | cons r' l' =>
      simp only [map_cons, cons.injEq] at hrows hentries ⊢
      refine ⟨?_, ih hrows.2 hentries.2⟩
      have hverification : r'.verification = r.verification.addAttempts (n r.key) := congrArg Prod.snd hentries.1
      cases r
      cases r'
      simp only [verification, addAttempts, ReceiptVerification.mk.injEq] at hverification
      simp only at hrows
      simp only [hrows.1, hverification]

private theorem receipts_again (s : LogRows) (p q : List LogWrite) :
    (execWrites dg timestampOf inline (execWrites dg timestampOf inline s p) (p ++ q)).receipts.map
      entry =
      ((execWrites dg timestampOf inline s (p ++ q)).receipts.map entry).map fun x =>
        (x.1, x.2.addAttempts
        (attemptsAgain (verifyInline dg inline) p (execWrites dg timestampOf inline s p).receipts x.1)) := by
  have hcut : (execWrites dg timestampOf inline s p).receipts.map entry = _ := execWrites_entries s p
  rw [execWrites_entries, execWrites_entries, execWrites_entries, filterMap_append]
  apply upserts_retry (g := fun (k : Address × Word) (v : ReceiptVerification) => v.addAttempts
    (attemptsAgain (verifyInline dg inline) p (execWrites dg timestampOf inline s p).receipts k))
  · exact fun k v v' => addAttempts_merge _ v v'
  · intro k hfresh v
    have hnone : valuesOf (p.filterMap (LogWrite.verifications (verifyInline dg inline))) k = [] := by
      apply valuesOf_eq_nil
      intro c hc hk
      obtain ⟨x, hx, hxk⟩ : ∃ x ∈ upserts merge .blank (s.receipts.map entry) _, _ :=
        exists_key_of_mem_script hc
      exact hfresh x hx (hxk.trans hk)
    rw [attemptsAgain, hnone]
    simp [addAttempts]
  · intro x hx
    obtain ⟨v₀, hv₀⟩ := exists_of_mem_upserts hx
    rw [← hcut, mem_map] at hx
    obtain ⟨r, hr, rfl⟩ := hx
    have hverified : (∃ r' ∈ (execWrites dg timestampOf inline s p).receipts, r'.key = r.entry.1 ∧ r'.verified = true) ↔
        r.entry.2.verified = true := by
      constructor
      · rintro ⟨r', hr', hk, hv⟩
        rwa [inj_on_of_nodup_map (execWrites dg timestampOf inline s p).nodup hr' hr hk] at hv
      · exact fun hv => ⟨r, hr, rfl, hv⟩
    rw [attemptsAgain, if_congr hverified rfl rfl, hv₀, foldl_merge_twice]

section Again

variable {cfg : Config} {vaultOfExclusionLedger : Address → Option Address} {created : List (Word × Address)}

private theorem eq_of_others {t t' : Tables} (hothers : t.others = t'.others) (hreceipts : t.receipts = t'.receipts) :
    t = t' := by
  cases t
  cases t'
  simp only [Tables.others, Tables.mk.injEq, and_true] at hothers
  rw [Tables.mk.injEq]
  exact ⟨hothers.1, hothers.2.1, hothers.2.2.1, hothers.2.2.2.1, hothers.2.2.2.2, hreceipts⟩

theorem foldl_receipts (sts : List Statement) (t : Tables) : (sts.foldl (execTables timestampOf) t).receipts =
      sts.foldl (fun t st => st.receiptChange.exec ReceiptRow.key putRelease t) t.receipts := by
  induction sts generalizing t with
  | nil => rfl
  | cons st sts ih =>
    rw [foldl_cons, foldl_cons, ih, execTables_receipts]

private theorem foldl_execVaults (sts : List Statement) (t : List VaultRow) : sts.foldl execVaults t =
      sts.foldl (fun t st => st.vaultChange.exec VaultRow.vaultAddress putStatus t) t := by
  apply foldl_ext
  exact fun t st _ => execVaults_eq t st

private theorem execAll_again {logs : List LogEntry} {p q : List Statement} (s : LogState)
    (hcut : logs.flatMap (handleLog cfg vaultOfExclusionLedger created) = p ++ q)
    (hvaults : Settled LogEntry.registers LogEntry.setsStatus (fun v => ∃ r ∈ s.vaults, r.vaultAddress = v) logs)
    (hreceipts : Settled (LogEntry.records cfg) (LogEntry.releases cfg) (fun k =>
      ∃ r ∈ s.tables.receipts, r.key = k) logs) :
    execAll timestampOf (execAll timestampOf s p) (p ++ q) = execAll timestampOf s (p ++ q) := by
  have hmarks : MarksRows (p ++ q) := by
    rw [← hcut]
    exact marksRows_handleLog logs
  rw [execAll_eq, execAll_eq, execAll_eq, LogState.mk.injEq]
  refine ⟨eq_of_others (others_again hmarks.left s.tables) ?_, ?_, ?_⟩
  · rw [foldl_receipts, foldl_receipts, foldl_receipts]
    refine retry_of_changes lawfulPut_putRelease hcut records_iff releases_iff ?_ hreceipts
    intro log k hrecord hrelease
    unfold LogEntry.records at hrecord
    unfold releases at hrelease
    split at hrecord
    · rename_i hevent
      rw [hevent] at hrelease
      cases hrelease
    · cases hrecord
  · apply Replay.foldl_again
    intro st hst
    cases st with
    | exclusion row =>
      obtain ⟨x, hx, hkey⟩ := @exists_mem_foldl_execExclusions _ _ s.exclusions hst
      exact insertNew_of_mem hx hkey
    | _ => rfl
  · rw [foldl_execVaults, foldl_execVaults, foldl_execVaults]
    refine retry_of_changes lawfulPut_putStatus hcut registers_iff setsStatus_iff ?_ hvaults
    intro log k hregister hstatus
    unfold registers at hregister
    unfold setsStatus at hstatus
    split at hregister
    · rename_i hevent
      rw [hevent] at hstatus
      cases hstatus
    · cases hregister

theorem contracts_again {logs : List LogEntry} {p q : List LogWrite} {inline' : ReceiptRow → InlineFetch} (s : LogRows)
    (hcut : logs.flatMap (handleLogWrites cfg vaultOfExclusionLedger created) = p ++ q) :
    (execWrites dg timestampOf inline' (execWrites dg timestampOf inline s p) (p ++ q)).contracts =
      (execWrites dg timestampOf inline s (p ++ q)).contracts := by
  have hrows : ∀ (ws : List LogWrite) (t : List ContractRow), (∀ w ∈ ws, w ∈ p ++ q) →
      (ws.filterMap LogWrite.toContract).foldl (fun t row => upsertContractRow row t) t =
        (ws.filterMap LogWrite.toContract).foldl (fun t row => insertNew ContractRow.address row t) t := by
    intro ws t hws
    apply foldl_ext
    intro t row hrow
    obtain ⟨w, hw, hrow⟩ := mem_filterMap.1 hrow
    have hblock : row.deployedBlock = none := by
      cases w with
      | contract row' =>
        cases hrow
        exact deployedBlock_of_mem_handleLogWrites (hcut ▸ hws _ hw)
      | statement st => cases hrow
    exact upsertContractRow_eq hblock t
  rw [execWrites_contracts, execWrites_contracts, execWrites_contracts, hrows _ _ fun _ hw => hw,
    hrows _ _ fun _ hw => mem_append_left _ hw, hrows _ _ fun _ hw => hw, filterMap_append]
  exact foldl_insertNew_again ..

/-- Handling logs up to any write and then from the start leaves the rows that handling them once leaves, whatever the
payload hosts answer the second time; where they answer the same, the attempts of a receipt that was not verified at the
cut are those of both runs. -/
theorem retry_leaves_same_rows {logs : List LogEntry} {p q : List LogWrite} (s : LogRows)
    (hcut : logs.flatMap (handleLogWrites cfg vaultOfExclusionLedger created) = p ++ q)
    (hvaults : Settled LogEntry.registers LogEntry.setsStatus (fun v => ∃ r ∈ s.state.vaults, r.vaultAddress = v) logs)
    (hreceipts : Settled (LogEntry.records cfg) (LogEntry.releases cfg) (fun k => ∃ r ∈ s.receipts, r.key = k) logs) :
    (∀ inline', (execWrites dg timestampOf inline' (execWrites dg timestampOf inline s p) (p ++ q)).state =
          (execWrites dg timestampOf inline s (p ++ q)).state ∧
        (execWrites dg timestampOf inline' (execWrites dg timestampOf inline s p) (p ++ q)).contracts =
          (execWrites dg timestampOf inline s (p ++ q)).contracts) ∧
      (execWrites dg timestampOf inline (execWrites dg timestampOf inline s p) (p ++ q)).receipts =
        (execWrites dg timestampOf inline s (p ++ q)).receipts.map fun r => { r with
          verifyAttempts := r.verifyAttempts +
            attemptsAgain (verifyInline dg inline) p (execWrites dg timestampOf inline s p).receipts r.key } := by
  have hstatements : _ = logs.flatMap (handleLog cfg vaultOfExclusionLedger created) :=
    filterMap_toStatement_handleLogWrites logs
  rw [hcut, filterMap_append] at hstatements
  have hpresent : Settled (LogEntry.records cfg) (releases cfg)
      (fun k => ∃ r ∈ s.state.tables.receipts, r.key = k) logs := by
    rw [s.rows_eq]
    simp only [mem_map, exists_exists_and_eq_and]
    exact hreceipts
  have hstate : ∀ inline', (execWrites dg timestampOf inline' (execWrites dg timestampOf inline s p) (p ++ q)).state =
      (execWrites dg timestampOf inline s (p ++ q)).state := by
    intro inline'
    rw [execWrites_state, execWrites_state, execWrites_state, filterMap_append]
    exact execAll_again s.state hstatements.symm hvaults hpresent
  refine ⟨fun inline' => ⟨hstate inline', contracts_again s hcut⟩, ?_⟩
  apply eq_map_of_entries
  · rw [← LogRows.rows_eq, ← LogRows.rows_eq, hstate]
  · exact receipts_again s p q

end Again

def registeredIn (block : Nat) : LogEntry := ⟨3, ⟨block, 0, 0x90⟩, .vaultRegistered 1 "Robot Money USDC"⟩

def retiredIn (block : Nat) : LogEntry := ⟨3, ⟨block, 0, 0x91⟩, .vaultStatusChanged 1 2 1700000100⟩

def recordedIn (block : Nat) : LogEntry :=
  ⟨5, ⟨block, 0, 0x92⟩, .receiptRecorded 7 9 0 0x61 "https://receipts.example/7" 1700000200⟩

def releasedIn (block : Nat) : LogEntry := ⟨5, ⟨block, 0, 0x93⟩, .receiptReleased 7 9 1700000300⟩

def unfetched (s : LogRows) (ws : List LogWrite) : LogRows :=
  execWrites letterDigests (fun _ => none) (fun _ => .fetch unreachable) s ws

def tickLogs : List LogEntry := [registeredIn 90, retiredIn 95, recordedIn 100, releasedIn 101]

def tickWrites : List LogWrite := tickLogs.flatMap (handleLogWrites receiptConfig (fun _ => none) [])

/-- A tick that fails before a receipt is released: nothing is there twice, and the fetches of both runs count. -/
theorem retry_leaves_same_rows_of_failed_tick :
    (unfetched (unfetched .empty (tickWrites.take 4)) (tickWrites.take 4 ++ tickWrites.drop 4)).receipts.map
      (fun r => (r.row.release.isSome, r.verifyAttempts)) = [(true, 6)] := by
  have hcut : tickLogs.flatMap (handleLogWrites receiptConfig (fun _ => none) []) =
      tickWrites.take 4 ++ tickWrites.drop 4 := (take_append_drop 4 _).symm
  have hvaults : tickLogs.Pairwise fun l' l => ∀ k, l.registers = some k → l'.setsStatus ≠ some k := by
    simp [tickLogs, registers, setsStatus, registeredIn, retiredIn, recordedIn, releasedIn]
  have hreceipts : tickLogs.Pairwise fun l' l =>
      ∀ k, l.records receiptConfig = some k → l'.releases receiptConfig ≠ some k := by
    simp [tickLogs, LogEntry.records, releases, registeredIn, retiredIn, recordedIn, releasedIn]
  have hagain : (unfetched (unfetched .empty (tickWrites.take 4))
      (tickWrites.take 4 ++ tickWrites.drop 4)).receipts = _ :=
    (retry_leaves_same_rows .empty hcut (.of_pairwise hvaults) (.of_pairwise hreceipts)).2
  rw [hagain]
  decide +kernel

/-- The three ways in which a second run leaves other rows: attempts that count twice, a status that is set before the
vault is registered, and a release before the receipt is recorded. -/
theorem not_same_rows_of_retry :
    ¬ (∀ (logs : List LogEntry) (p q : List LogWrite), (logs.map fun l => l.place.pos).Pairwise (· < ·) →
        logs.flatMap (handleLogWrites receiptConfig (fun _ => none) []) = p ++ q →
        (unfetched (unfetched .empty p) (p ++ q)).receipts = (unfetched .empty (p ++ q)).receipts) ∧
      ¬ (∀ (logs : List LogEntry) (p q : List LogWrite), (logs.map fun l => l.place.pos).Pairwise (· < ·) →
        logs.flatMap (handleLogWrites receiptConfig (fun _ => none) []) = p ++ q →
        (unfetched (unfetched .empty p) (p ++ q)).state.vaults = (unfetched .empty (p ++ q)).state.vaults) ∧
      ¬ ∀ (logs : List LogEntry) (p q : List LogWrite), (logs.map fun l => l.place.pos).Pairwise (· < ·) →
        logs.flatMap (handleLogWrites receiptConfig (fun _ => none) []) = p ++ q →
        (unfetched (unfetched .empty p) (p ++ q)).state.tables.receipts =
          (unfetched .empty (p ++ q)).state.tables.receipts := by
  refine ⟨?_, ?_, ?_⟩
  · intro h
    exact absurd (h [recordedIn 100] _ [] (by decide) (append_nil _).symm) (by decide +kernel)
  · intro h
    exact absurd (h [retiredIn 95, registeredIn 96] _ [] (by decide) (append_nil _).symm) (by decide +kernel)
  · intro h
    exact absurd (h [releasedIn 100, recordedIn 101] _ [] (by decide) (append_nil _).symm) (by decide +kernel)

end RobotMoney.Indexer
