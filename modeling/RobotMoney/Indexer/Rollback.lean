import RobotMoney.Indexer.Database

/-!
# Rollback

`delete_above_block` undoes exactly what the logs above the root did (`rollback_exact`).  A log above the root leaves no
trace in what the rollback keeps, and the rollback changes nothing in a state of logs up to the root: there the status
of each vault is the one its newest status event gives.

Two facts about the contracts are used: the registry changes the status of registered vaults only, and the receipt
register releases a receipt once.
-/

namespace RobotMoney.Indexer

open Evm SqlTable List Statement Tables

variable {cfg : Config} {vaultOfExclusionLedger : Address → Option Address} {created : List (Word × Address)}
  {timestampOf : Nat → Option Int}

def Statement.blockNumber : Statement → Nat
  | .event row => row.place.blockNumber
  | .markProxyDeployment place => place.blockNumber
  | .exclusion row => row.place.blockNumber
  | .agentDeposit row => row.place.blockNumber
  | .agentPolicy place .. => place.blockNumber
  | .ownerTransfer place .. => place.blockNumber
  | .walletPosition delta => delta.blockNumber
  | .vault row => row.registeredBlock
  | .vaultStatus row => row.blockNumber
  | .receipt row => row.place.blockNumber
  | .release _ _ released => released.releasedBlockNumber

/-- What a statement says about the log that it is a part of. -/
structure Statement.Of (cfg : Config) (log : LogEntry) (st : Statement) : Prop where
  block : st.blockNumber = log.place.blockNumber
  vault : ∀ row, st = .vault row → ∃ name, log.event = .vaultRegistered row.vaultAddress name
  status : ∀ row, st = .vaultStatus row →
    row.pos = log.place.pos ∧ ∃ n t, log.event = .vaultStatusChanged row.vaultAddress n t
  receipt : ∀ row, st = .receipt row →
    row.release = none ∧ ∃ id a n d u r, log.event = .receiptRecorded id a n d u r
  release : ∀ c id released, st = .release c id released →
    cfg.consensusReceipt = some log.address ∧ c = log.address ∧ ∃ a t, log.event = .receiptReleased id a t

/-- The statements that touch neither the vaults, their status events nor the receipts. -/
def Statement.isPlain : Statement → Bool
  | .vault _ | .vaultStatus _ | .receipt _ | .release .. => false
  | _ => true

variable {log : LogEntry} {st : Statement}

private theorem Statement.Of.plain (hplain : st.isPlain = true)
    (hblock : st.blockNumber = log.place.blockNumber) : st.Of cfg log := by
  constructor
  · exact hblock
  · rintro row rfl
    cases hplain
  · rintro row rfl
    cases hplain
  · rintro row rfl
    cases hplain
  · rintro c id released rfl
    cases hplain

private theorem of_handleGatewayLog (h : st ∈ handleGatewayLog cfg log) : st.Of cfg log := by
  unfold handleGatewayLog at h
  split at h <;> simp only [mem_cons, not_mem_nil, or_false] at h
  · obtain rfl | rfl := h <;> exact .plain rfl rfl
  · obtain rfl | rfl := h <;> exact .plain rfl rfl
  · subst h
    exact .plain rfl rfl
  · obtain rfl | rfl := h <;> exact .plain rfl rfl
  · obtain rfl | rfl := h <;> exact .plain rfl rfl
  · obtain rfl | rfl := h <;> exact .plain rfl rfl

private theorem of_handleAdminLog (h : st ∈ handleAdminLog cfg created log) : st.Of cfg log := by
  unfold handleAdminLog at h
  split at h
  · cases h
  simp only [mem_cons] at h
  obtain rfl | h := h
  · exact .plain rfl rfl
  split at h
  · simp only [mem_cons, not_mem_nil, or_false] at h
    subst h
    exact .plain rfl rfl
  · cases h

private theorem place_exclusionRow {vault : Address} {row : ExclusionRow}
    (h : exclusionRow vault log = some row) : row.place = log.place := by
  unfold exclusionRow at h
  split at h <;> simp only [Option.some.injEq, reduceCtorEq] at h <;> subst h <;> rfl

theorem statement_of_handleLog {log : LogEntry} {st : Statement}
    (h : st ∈ handleLog cfg vaultOfExclusionLedger created log) : st.Of cfg log := by
  cases hevent : log.event
  case agentDeposit | agentDepositRouted | agentWithdrawal | agentAuthorized | agentOwnershipTransferred
    | agentRevoked =>
    simp only [handleLog, hevent] at h
    split at h
    · exact of_handleGatewayLog h
    · cases h
  case exclusionOpened | exclusionRecoveryCredited | exclusionFinalized | exclusionClaimed =>
    simp only [handleLog, hevent] at h
    split at h
    · cases h
    obtain ⟨row, hrow, rfl⟩ := mem_map.1 h
    exact .plain rfl (congrArg LogPlace.blockNumber (place_exclusionRow (Option.mem_toList.1 hrow)))
  case callScheduled | callExecuted | cancelled | minDelayChange | safeExecution | safeOwner | safeChangedThreshold |
      upgraded | upgradesFrozen =>
    simp only [handleLog, hevent] at h
    exact of_handleAdminLog h
  case depositsPaused | depositsUnpaused | snapshotTrigger | redeemedInKind | initialized =>
    simp only [handleLog, hevent, not_mem_nil] at h
  case vaultRegistered vault name =>
    simp only [handleLog, hevent, mem_singleton] at h
    subst h
    exact ⟨rfl, by rintro row ⟨⟩; exact ⟨name, hevent⟩, by simp, by simp, by simp⟩
  case vaultStatusChanged vault n t =>
    simp only [handleLog, hevent, mem_singleton] at h
    subst h
    exact ⟨rfl, by simp, by rintro row ⟨⟩; exact ⟨rfl, n, t, hevent⟩, by simp, by simp⟩
  case receiptRecorded id a n d u r =>
    simp only [handleLog, hevent] at h
    split at h
    · cases h
    rw [mem_singleton] at h
    subst h
    exact ⟨rfl, by simp, by simp, by rintro row ⟨⟩; exact ⟨rfl, id, a, n, d, u, r, hevent⟩, by simp⟩
  case receiptReleased id a t =>
    simp only [handleLog, hevent] at h
    split at h
    · cases h
    rename_i hcontract
    rw [mem_singleton] at h
    subst h
    exact ⟨rfl, by simp, by simp, by simp, by rintro c id released ⟨⟩; exact ⟨not_not.1 hcontract, rfl, a, t, hevent⟩⟩
  all_goals
    simp only [handleLog, hevent, mem_cons, not_mem_nil, or_false] at h
    rcases h with rfl | rfl | rfl <;> exact .plain rfl rfl

variable {root : Int}

@[simp] theorem survives_eq (table : TableName) (h : table.hasBlockNumber = true) (n : Nat) :
    survives root table n = decide ((n : Int) ≤ root) := by
  simp [survives, h]

@[simp] theorem EventRow.hasBlockNumber (r : EventRow) : r.table.hasBlockNumber = true := by
  cases r <;> rfl

@[simp] theorem ExclusionRow.hasBlockNumber (r : ExclusionRow) : r.table.hasBlockNumber = true := by
  cases r <;> rfl

private theorem filter_map_of_fixed {ρ : Type} {p : ρ → Bool} {f : ρ → ρ} {t : List ρ}
    (h : ∀ r ∈ t, p (f r) = p r ∧ (p r = true → f r = r)) : (t.map f).filter p = t.filter p := by
  induction t with
  | nil => rfl
  | cons r t ih =>
    obtain ⟨hp, hfix⟩ := h r mem_cons_self
    have ih := ih fun r' hr' => h r' (mem_cons_of_mem _ hr')
    rw [map_cons, filter_cons, filter_cons, hp, ih]
    split
    · rename_i hr
      rw [hfix hr]
    · rfl

variable {d : PositionDelta}

private theorem filter_applyWalletPositionDelta (h : root < d.blockNumber) (positions : List PositionRow) :
    (applyWalletPositionDelta d positions).filter (fun r => survives root .walletPositions r.blockNumber) =
      positions.filter fun r => survives root .walletPositions r.blockNumber := by
  have hdrop : survives root .walletPositions d.blockNumber = false := by
    rw [survives_eq _ rfl]
    simpa using h
  unfold applyWalletPositionDelta
  split
  · simp only [filter_append, filter_cons, hdrop]
    simp
  split
  · rfl
  split
  · rfl
  apply filter_map_of_fixed
  intro r hr
  split
  · rename_i hkey
    have hblock : r.blockNumber = d.blockNumber := congrArg (fun k => k.2.2) hkey
    refine ⟨rfl, fun hsurvives => ?_⟩
    rw [hblock, hdrop] at hsurvives
    cases hsurvives
  · exact ⟨rfl, fun _ => rfl⟩

private theorem filter_markDeployment {place : LogPlace} (h : root < place.blockNumber) (events : List EventRow) :
    (events.map (markDeployment place)).filter (fun r => survives root r.table r.place.blockNumber) =
      events.filter fun r => survives root r.table r.place.blockNumber := by
  apply filter_map_of_fixed
  intro r hr
  unfold markDeployment
  split
  · rename_i p contract event
    split
    · rename_i hplace
      have hblock : p.blockNumber = place.blockNumber := congrArg (fun k => (ofLex k).1) hplace.1
      refine ⟨rfl, fun hsurvives => ?_⟩
      rw [survives_eq _ rfl, decide_eq_true_eq] at hsurvives
      simp only [EventRow.place] at hsurvives
      omega
    · exact ⟨rfl, fun _ => rfl⟩
  · exact ⟨rfl, fun _ => rfl⟩

variable {released : Release}

private theorem undoRelease_setRelease {c : Address} {id : Word} {r : ReceiptRow}
    (h : root < released.releasedBlockNumber) (hfirst : r.key = (c, id) → r.release = none) :
    undoRelease root (setRelease c id released r) = undoRelease root r := by
  unfold setRelease
  split
  · rename_i hkey
    have hnone := hfirst hkey
    simp only [undoRelease, h, ↓reduceIte, hnone]
    rw [← hnone]
  · rfl

/-- A statement above the root leaves no trace in the block-scoped tables, if it does not release a receipt for the
second time. -/
theorem deleteAboveBlock_execTables {st : Statement} (h : root < st.blockNumber) (t : Tables)
    (hrelease : ∀ c id released, st = .release c id released → ∀ r ∈ t.receipts, r.key = (c, id) → r.release = none) :
    (st.execTables timestampOf t).deleteAboveBlock root = t.deleteAboveBlock root := by
  have hdrop : ∀ table : TableName, table.hasBlockNumber = true → survives root table st.blockNumber = false := by
    intro table htable
    rw [survives_eq _ htable]
    simpa using h
  cases st with
  | event row =>
    simp only [execTables, deleteAboveBlock]
    rw [filter_insertNew]
    exact hdrop _ row.hasBlockNumber
  | markProxyDeployment place =>
    simp only [execTables, deleteAboveBlock]
    rw [filter_markDeployment h]
  | exclusion row => rfl
  | agentDeposit row =>
    simp only [execTables, deleteAboveBlock, insertAgentDeposit]
    rw [filter_insertNew]
    exact hdrop .agentDeposits rfl
  | agentPolicy place agent owner revoked fields gateway | ownerTransfer place agent newOwner gateway =>
    simp only [execTables, deleteAboveBlock, insertAgentOwnerTransfer, insertAgentPolicy]
    rw [filter_insertNew]
    exact hdrop .agentPolicies rfl
  | walletPosition delta =>
    simp only [execTables, deleteAboveBlock]
    rw [filter_applyWalletPositionDelta h]
  | vault row => rfl
  | vaultStatus row =>
    simp only [execTables, deleteAboveBlock]
    rw [filter_insertNew]
    exact hdrop .vaultStatusEvents rfl
  | receipt row =>
    simp only [execTables, deleteAboveBlock]
    rw [filter_insertNew]
    exact hdrop .consensusReceipts rfl
  | release c id released =>
    simp only [execTables, deleteAboveBlock, filter_map, map_map]
    have hplace : ((fun r : ReceiptRow => survives root .consensusReceipts r.place.blockNumber) ∘
        setRelease c id released) = fun r => survives root .consensusReceipts r.place.blockNumber := by
      funext r
      simp only [Function.comp, setRelease]
      split <;> rfl
    rw [hplace]
    congr 1
    apply map_congr_left
    intro r hr
    exact undoRelease_setRelease h (hrelease c id released rfl r (mem_of_mem_filter hr))

private theorem deleteAboveBlock_exec (h : root < st.blockNumber) (s : LogState)
    (hrelease : ∀ c id released, st = .release c id released →
      ∀ r ∈ s.tables.receipts, r.key = (c, id) → r.release = none) :
    (st.exec timestampOf s).deleteAboveBlock root = s.deleteAboveBlock root := by
  have htables := @deleteAboveBlock_execTables timestampOf _ _ h s.tables hrelease
  simp only [Statement.exec, LogState.deleteAboveBlock, htables, LogState.mk.injEq, true_and]
  constructor
  · cases st with
    | exclusion row =>
      apply filter_insertNew
      simp only [blockNumber] at h
      rw [survives_eq _ row.hasBlockNumber]
      simpa using h
    | _ => rfl
  · cases st with
    | vault row =>
      simp only [blockNumber] at h
      simp only [execVaults]
      rw [filter_insertNew]
      simpa using h
    | vaultStatus row =>
      simp only [execVaults, filter_map, map_map]
      have hblock : ((fun v : VaultRow => decide ((v.registeredBlock : Int) ≤ root)) ∘ setVaultStatus row) =
          fun v => decide ((v.registeredBlock : Int) ≤ root) := by
        funext v
        simp only [Function.comp, setVaultStatus]
        split <;> rfl
      have hderive : rederiveStatus (s.tables.deleteAboveBlock root).statusEvents ∘ setVaultStatus row =
          rederiveStatus (s.tables.deleteAboveBlock root).statusEvents := by
        funext v
        simp only [Function.comp, setVaultStatus]
        split <;> rfl
      rw [hblock, hderive]
    | _ => rfl

/-- Every row of the tables is of a block up to the root, releases included. -/
structure Tables.UpTo (root : Int) (t : Tables) : Prop where
  events : ∀ r ∈ t.events, (r.place.blockNumber : Int) ≤ root
  policies : ∀ r ∈ t.policies, (r.place.blockNumber : Int) ≤ root
  deposits : ∀ r ∈ t.deposits, (r.place.blockNumber : Int) ≤ root
  positions : ∀ r ∈ t.positions, (r.blockNumber : Int) ≤ root
  statusEvents : ∀ r ∈ t.statusEvents, (r.blockNumber : Int) ≤ root
  receipts : ∀ r ∈ t.receipts, (r.place.blockNumber : Int) ≤ root
  releases : ∀ r ∈ t.receipts, ∀ released, r.release = some released → (released.releasedBlockNumber : Int) ≤ root

theorem Tables.upTo_empty : Tables.UpTo root .empty := by
  constructor <;> simp [Tables.empty]

theorem Tables.UpTo.deleteAboveBlock {t : Tables} (h : t.UpTo root) : t.deleteAboveBlock root = t := by
  obtain ⟨hevents, hpolicies, hdeposits, hpositions, hstatus, hreceipts, hreleases⟩ := h
  have hundo : t.receipts.map (undoRelease root) = t.receipts := by
    conv_rhs => rw [← map_id t.receipts]
    apply map_congr_left
    intro r hr
    unfold undoRelease
    split
    · rename_i released hreleased
      have := hreleases r hr released hreleased
      rw [if_neg (by omega), id]
    · rfl
  have hkeep : ∀ {ρ : Type} (l : List ρ) (table : ρ → TableName) (block : ρ → Nat),
      (∀ r, (table r).hasBlockNumber = true) → (∀ r ∈ l, (block r : Int) ≤ root) →
      l.filter (fun r => survives root (table r) (block r)) = l := by
    intro ρ l table block htable hall
    rw [filter_eq_self]
    intro r hr
    rw [survives_eq _ (htable r)]
    simpa using hall r hr
  simp only [Tables.deleteAboveBlock]
  rw [hkeep t.events _ _ (fun r => r.hasBlockNumber) hevents, hkeep t.policies _ _ (fun _ => rfl) hpolicies,
    hkeep t.deposits _ _ (fun _ => rfl) hdeposits, hkeep t.positions _ _ (fun _ => rfl) hpositions,
    hkeep t.statusEvents _ _ (fun _ => rfl) hstatus, hkeep t.receipts _ _ (fun _ => rfl) hreceipts, hundo]

private theorem upTo_applyWalletPositionDelta (hd : (d.blockNumber : Int) ≤ root)
    {positions : List PositionRow} (h : ∀ r ∈ positions, (r.blockNumber : Int) ≤ root) :
    ∀ r ∈ applyWalletPositionDelta d positions, (r.blockNumber : Int) ≤ root := by
  intro r hr
  unfold applyWalletPositionDelta at hr
  split at hr
  · rw [mem_append, mem_singleton] at hr
    obtain hr | rfl := hr
    · exact h r hr
    · exact hd
  split at hr
  · exact h r hr
  split at hr
  · exact h r hr
  obtain ⟨r', hr', rfl⟩ := mem_map.1 hr
  split <;> exact h r' hr'

/-- A statement up to the root keeps the tables up to the root. -/
theorem Tables.UpTo.exec (h : (st.blockNumber : Int) ≤ root)
    (hreceipt : ∀ row, st = .receipt row → row.release = none) {t : Tables} (ht : t.UpTo root) :
    (st.execTables timestampOf t).UpTo root := by
  have hinsert : ∀ {ρ κ : Type} [DecidableEq κ] {key : ρ → κ} {row : ρ} {l : List ρ} {block : ρ → Nat},
      (block row : Int) ≤ root → (∀ r ∈ l, (block r : Int) ≤ root) →
      ∀ r ∈ insertNew key row l, (block r : Int) ≤ root := by
    intro ρ κ _ key row l block hrow hl r hr
    obtain hr | rfl := mem_of_mem_insertNew hr
    · exact hl r hr
    · exact hrow
  cases st with
  | event row => exact { ht with events := hinsert h ht.events }
  | markProxyDeployment place =>
    refine { ht with events := ?_ }
    intro r hr
    obtain ⟨r', hr', rfl⟩ := mem_map.1 hr
    have := ht.events r' hr'
    unfold markDeployment
    split
    · split <;> exact this
    · exact this
  | exclusion row => exact ht
  | agentDeposit row => exact { ht with deposits := hinsert h ht.deposits }
  | agentPolicy place agent owner revoked fields gateway => exact { ht with policies := hinsert h ht.policies }
  | ownerTransfer place agent newOwner gateway => exact { ht with policies := hinsert h ht.policies }
  | walletPosition delta => exact { ht with positions := upTo_applyWalletPositionDelta h ht.positions }
  | vault row => exact ht
  | vaultStatus row => exact { ht with statusEvents := hinsert h ht.statusEvents }
  | receipt row =>
    refine { ht with receipts := hinsert h ht.receipts, releases := ?_ }
    intro r hr released hreleased
    obtain hr | rfl := mem_of_mem_insertNew hr
    · exact ht.releases r hr released hreleased
    rw [hreceipt r rfl] at hreleased
    cases hreleased
  | release c id released =>
    refine { ht with receipts := ?_, releases := ?_ }
    · intro r hr
      obtain ⟨r', hr', rfl⟩ := mem_map.1 hr
      unfold setRelease
      split <;> exact ht.receipts r' hr'
    · intro r hr
      obtain ⟨r', hr', rfl⟩ := mem_map.1 hr
      unfold setRelease
      split
      · rintro released' ⟨⟩
        exact h
      · exact ht.releases r' hr'

/-- Logs as the contracts emit them, in chain order: the registry changes the status of registered vaults only
(`NotRegistered`), and the receipt register releases a receipt once (`ReceiptAlreadyReleased`). -/
structure Emitted (cfg : Config) (logs : List LogEntry) : Prop where
  order : logs.Pairwise fun a b => a.place.pos < b.place.pos
  status : ∀ pre l post v n t, logs = pre ++ l :: post → l.event = .vaultStatusChanged v n t →
    ∃ l' ∈ pre, ∃ name, l'.event = .vaultRegistered v name
  release : logs.Pairwise fun a b => ∀ id a₁ t₁ a₂ t₂, cfg.consensusReceipt = some a.address →
    cfg.consensusReceipt = some b.address → a.event = .receiptReleased id a₁ t₁ → b.event ≠ .receiptReleased id a₂ t₂

variable {logs : List LogEntry} {l : LogEntry}

private theorem Emitted.init (h : Emitted cfg (logs ++ [l])) : Emitted cfg logs where
  order := (pairwise_append.1 h.order).1
  status := by
    intro pre l' post v n t heq hevent
    exact h.status pre l' (post ++ [l]) v n t (by rw [heq]; simp) hevent
  release := (pairwise_append.1 h.release).1

/-- `handle_log` on each log. -/
def handleAll (cfg : Config) (vaultOfExclusionLedger : Address → Option Address) (created : List (Word × Address))
    (timestampOf : Nat → Option Int) (s : LogState) (logs : List LogEntry) : LogState :=
  logs.foldl (fun s l => execAll timestampOf s (handleLog cfg vaultOfExclusionLedger created l)) s

/-- What the handled logs left: each status event and each release has its log, and the status of each vault is the one
its newest status event gives. -/
structure StatusDerived (cfg : Config) (logs : List LogEntry) (s : LogState) : Prop where
  statusPos : ∀ e ∈ s.tables.statusEvents, ∃ l ∈ logs, e.pos = l.place.pos
  statusVault : ∀ e ∈ s.tables.statusEvents, ∃ v ∈ s.vaults, v.vaultAddress = e.vaultAddress
  registered : ∀ l ∈ logs, ∀ v name, l.event = .vaultRegistered v name → ∃ row ∈ s.vaults, row.vaultAddress = v
  released : ∀ r ∈ s.tables.receipts, ∀ released, r.release = some released →
    ∃ l ∈ logs, cfg.consensusReceipt = some l.address ∧ ∃ a t, l.event = .receiptReleased r.receiptId a t
  derived : ∀ v ∈ s.vaults, rederiveStatus s.tables.statusEvents v = v

private theorem Statement.Of.isPlain (h : st.Of cfg log)
    (hvault : ∀ v name, log.event ≠ .vaultRegistered v name) (hstatus : ∀ v n t, log.event ≠ .vaultStatusChanged v n t)
    (hreceipt : ∀ id a n d u r, log.event ≠ .receiptRecorded id a n d u r)
    (hrelease : ∀ id a t, log.event ≠ .receiptReleased id a t) : st.isPlain = true := by
  cases st with
  | vault row =>
    obtain ⟨name, hname⟩ := h.vault row rfl
    exact (hvault _ _ hname).elim
  | vaultStatus row =>
    obtain ⟨-, n, t, hlog⟩ := h.status row rfl
    exact (hstatus _ _ _ hlog).elim
  | receipt row =>
    obtain ⟨-, id, a, n, d, u, r, hlog⟩ := h.receipt row rfl
    exact (hreceipt _ _ _ _ _ _ hlog).elim
  | release c id released =>
    obtain ⟨-, -, a, t, hlog⟩ := h.release c id released rfl
    exact (hrelease _ _ _ hlog).elim
  | _ => rfl

private theorem execAll_plain {sts : List Statement} (h : ∀ st ∈ sts, st.isPlain = true) (s : LogState) :
    (execAll timestampOf s sts).tables.statusEvents = s.tables.statusEvents ∧
      (execAll timestampOf s sts).tables.receipts = s.tables.receipts ∧
          (execAll timestampOf s sts).vaults = s.vaults := by
  induction sts generalizing s with
  | nil => exact ⟨rfl, rfl, rfl⟩
  | cons st sts ih =>
    have hrest := ih (fun st' hst' => h st' (mem_cons_of_mem _ hst')) (st.exec timestampOf s)
    have hplain := h st mem_cons_self
    have hone : (st.exec timestampOf s).tables.statusEvents = s.tables.statusEvents ∧
        (st.exec timestampOf s).tables.receipts = s.tables.receipts ∧ (st.exec timestampOf s).vaults = s.vaults := by
      cases st <;> first | exact ⟨rfl, rfl, rfl⟩ | cases hplain
    rw [hone.1, hone.2.1, hone.2.2] at hrest
    exact hrest

variable {events : List StatusRow}

private theorem latestStatus_append_of_newest {row : StatusRow}
    (h : ∀ e ∈ events, e.pos < row.pos) : latestStatus (events ++ [row]) row.vaultAddress = some row := by
  simp only [latestStatus, filter_append, filter_cons, decide_true, filter_nil, ↓reduceIte]
  apply argmax_append_of_newest
  intro e he
  exact h e (mem_of_mem_filter he)

private theorem latestStatus_append_of_ne {events : List StatusRow} {row : StatusRow} {vault : Address}
    (h : row.vaultAddress ≠ vault) : latestStatus (events ++ [row]) vault = latestStatus events vault := by
  simp [latestStatus, filter_append, h]

private theorem latestStatus_eq_none {vault : Address}
    (h : ∀ e ∈ events, e.vaultAddress ≠ vault) : latestStatus events vault = none := by
  rw [latestStatus, argmax_eq_none, filter_eq_nil_iff]
  intro e he
  simpa using h e he

private theorem statusDerived_empty : StatusDerived cfg [] .empty := by
  constructor <;> simp [LogState.empty, Tables.empty]

theorem Emitted.pos_lt {l' : LogEntry} (h : Emitted cfg (logs ++ [l])) (hl' : l' ∈ logs) : l'.place.pos < l.place.pos :=
  (pairwise_append.1 h.order).2.2 l' hl' l (mem_singleton_self l)

variable {s : LogState}

private theorem StatusDerived.of_eq {s' : LogState} (hs : StatusDerived cfg logs s)
    (hstatus : s'.tables.statusEvents = s.tables.statusEvents) (hvaults : s'.vaults = s.vaults)
    (hregistered : ∀ v name, l.event ≠ .vaultRegistered v name)
    (hreleased : ∀ r ∈ s'.tables.receipts, ∀ released, r.release = some released →
      ∃ l' ∈ logs ++ [l], cfg.consensusReceipt = some l'.address ∧ ∃ a t, l'.event = .receiptReleased r.receiptId a t) :
    StatusDerived cfg (logs ++ [l]) s' := by
  constructor
  · rw [hstatus]
    intro e he
    obtain ⟨l', hl', hpos⟩ := hs.statusPos e he
    exact ⟨l', mem_append_left _ hl', hpos⟩
  · rw [hstatus, hvaults]
    exact hs.statusVault
  · rw [hvaults]
    intro l' hl' v name hevent
    rw [mem_append, mem_singleton] at hl'
    obtain hl' | rfl := hl'
    · exact hs.registered l' hl' v name hevent
    · exact (hregistered v name hevent).elim
  · exact hreleased
  · rw [hstatus, hvaults]
    exact hs.derived

private theorem StatusDerived.released_append (hs : StatusDerived cfg logs s)
    {r : ReceiptRow} (hr : r ∈ s.tables.receipts) (hreleased : r.release = some released) :
    ∃ l' ∈ logs ++ [l], cfg.consensusReceipt = some l'.address ∧
      ∃ a t, l'.event = .receiptReleased r.receiptId a t := by
  obtain ⟨l', hl', hlog⟩ := hs.released r hr released hreleased
  exact ⟨l', mem_append_left _ hl', hlog⟩

private theorem StatusDerived.vault {logs : List LogEntry} {l : LogEntry} {s : LogState} (hs : StatusDerived cfg logs s)
    {row : VaultRow} {name : String} (hevent : l.event = .vaultRegistered row.vaultAddress name)
    (hstatus : row.status = 0)
    (hchanged : row.statusChangedAt = none) : StatusDerived cfg (logs ++ [l]) ((vault row).exec timestampOf s) := by
  constructor
  · intro e he
    obtain ⟨l', hl', hpos⟩ := hs.statusPos e he
    exact ⟨l', mem_append_left _ hl', hpos⟩
  · intro e he
    obtain ⟨v, hv, haddress⟩ := hs.statusVault e he
    exact ⟨v, mem_insertNew_of_mem hv, haddress⟩
  · intro l' hl' v name' hevent'
    rw [mem_append, mem_singleton] at hl'
    obtain hl' | rfl := hl'
    · obtain ⟨row', hrow', haddress⟩ := hs.registered l' hl' v name' hevent'
      exact ⟨row', mem_insertNew_of_mem hrow', haddress⟩
    rw [hevent] at hevent'
    cases hevent'
    exact exists_mem_insertNew VaultRow.vaultAddress row s.vaults
  · intro r hr released hreleased
    exact hs.released_append hr hreleased
  · intro v hv
    obtain ⟨heq, -⟩ | ⟨heq, hfresh⟩ := insertNew_cases VaultRow.vaultAddress row s.vaults
    · simp only [Statement.exec, execVaults, heq] at hv
      exact hs.derived v hv
    simp only [Statement.exec, execVaults, heq, mem_append, mem_singleton] at hv
    obtain hv | rfl := hv
    · exact hs.derived v hv
    -- a vault that is new has no status event yet
    have hnone : latestStatus s.tables.statusEvents v.vaultAddress = none := by
      apply latestStatus_eq_none
      intro e he haddress
      obtain ⟨v', hv', heq'⟩ := hs.statusVault e he
      exact hfresh v' hv' (heq'.trans haddress)
    simp only [rederiveStatus, Statement.exec, execTables, hnone, Option.map_none, Option.getD_none]
    rw [← hstatus, ← hchanged]

private theorem StatusDerived.vaultStatus (h : Emitted cfg (logs ++ [l]))
    (hs : StatusDerived cfg logs s) {row : StatusRow} (hpos : row.pos = l.place.pos) {n t : Nat}
    (hevent : l.event = .vaultStatusChanged row.vaultAddress n t) :
    StatusDerived cfg (logs ++ [l]) ((vaultStatus row).exec timestampOf s) := by
  have hnewest : ∀ e ∈ s.tables.statusEvents, e.pos < row.pos := by
    intro e he
    obtain ⟨l', hl', heq⟩ := hs.statusPos e he
    rw [heq, hpos]
    exact h.pos_lt hl'
  have hinsert : insertNew StatusRow.key row s.tables.statusEvents = s.tables.statusEvents ++ [row] := by
    apply insertNew_of_fresh
    intro e he hkey
    exact (hnewest e he).ne (congrArg Prod.snd hkey)
  have hsame : ∀ v : VaultRow, (setVaultStatus row v).vaultAddress = v.vaultAddress := by
    intro v
    unfold setVaultStatus
    split <;> rfl
  obtain ⟨l', hl', name, hname⟩ := h.status logs l [] _ n t rfl hevent
  obtain ⟨v₀, hv₀, haddress₀⟩ := hs.registered l' hl' _ name hname
  constructor
  · intro e he
    simp only [Statement.exec, execTables, hinsert, mem_append, mem_singleton] at he
    obtain he | rfl := he
    · obtain ⟨l'', hl'', hpos'⟩ := hs.statusPos e he
      exact ⟨l'', mem_append_left _ hl'', hpos'⟩
    · exact ⟨l, by simp, hpos⟩
  · intro e he
    simp only [Statement.exec, execTables, hinsert, mem_append, mem_singleton] at he
    simp only [Statement.exec, execVaults, mem_map, exists_exists_and_eq_and, hsame]
    obtain he | rfl := he
    · exact hs.statusVault e he
    · exact ⟨v₀, hv₀, haddress₀⟩
  · intro l'' hl'' v name' hevent'
    simp only [Statement.exec, execVaults, mem_map, exists_exists_and_eq_and, hsame]
    rw [mem_append, mem_singleton] at hl''
    obtain hl'' | rfl := hl''
    · exact hs.registered l'' hl'' v name' hevent'
    rw [hevent] at hevent'
    cases hevent'
  · intro r hr released hreleased
    exact hs.released_append hr hreleased
  · intro v hv
    simp only [Statement.exec, execVaults, mem_map] at hv
    obtain ⟨v', hv', rfl⟩ := hv
    simp only [Statement.exec, execTables, hinsert]
    by_cases hvault : v'.vaultAddress = row.vaultAddress
    · simp [rederiveStatus, setVaultStatus, hvault, latestStatus_append_of_newest hnewest]
    have hfix : setVaultStatus row v' = v' := if_neg hvault
    have hlatest := @latestStatus_append_of_ne s.tables.statusEvents row v'.vaultAddress fun heq => hvault heq.symm
    have hderived := hs.derived v' hv'
    simp only [rederiveStatus] at hderived ⊢
    rw [hfix, hlatest]
    exact hderived

/-- Every log keeps the derived status. -/
theorem StatusDerived.handleLog (h : Emitted cfg (logs ++ [l])) (hs : StatusDerived cfg logs s) :
    StatusDerived cfg (logs ++ [l]) (execAll timestampOf s (handleLog cfg vaultOfExclusionLedger created l)) := by
  cases hevent : l.event
  case vaultRegistered vault name =>
    simp only [Indexer.handleLog, hevent, execAll, foldl_cons, foldl_nil]
    exact hs.vault hevent rfl rfl
  case vaultStatusChanged vault n t =>
    simp only [Indexer.handleLog, hevent, execAll, foldl_cons, foldl_nil]
    exact hs.vaultStatus h rfl hevent
  case receiptRecorded id a n d u r =>
    simp only [Indexer.handleLog, hevent]
    split
    · exact hs.of_eq rfl rfl (by simp [hevent]) fun r hr released hreleased => hs.released_append hr hreleased
    refine hs.of_eq rfl rfl (by simp [hevent]) ?_
    intro r hr released hreleased
    obtain hr | rfl := mem_of_mem_insertNew hr
    · exact hs.released_append hr hreleased
    · cases hreleased
  case receiptReleased id a t =>
    simp only [Indexer.handleLog, hevent]
    split
    · exact hs.of_eq rfl rfl (by simp [hevent]) fun r hr released hreleased => hs.released_append hr hreleased
    rename_i hcontract
    refine hs.of_eq rfl rfl (by simp [hevent]) ?_
    intro r hr released hreleased
    obtain ⟨r', hr', rfl⟩ := mem_map.1 hr
    unfold setRelease at hreleased ⊢
    split at hreleased
    · rename_i hkey
      have hid : r'.receiptId = id := congrArg Prod.snd hkey
      refine ⟨l, by simp, not_not.1 hcontract, a, t, ?_⟩
      rw [if_pos hkey, hevent, ← hid]
    rename_i hkey
    rw [if_neg hkey]
    exact hs.released_append hr' hreleased
  all_goals
    have hplain : ∀ st ∈ Indexer.handleLog cfg vaultOfExclusionLedger created l, st.isPlain = true := by
      intro st hst
      apply (statement_of_handleLog hst).isPlain <;> simp [hevent]
    obtain ⟨hstatus, hreceipts, hvaults⟩ := @execAll_plain timestampOf _ hplain s
    refine hs.of_eq hstatus hvaults (by simp [hevent]) ?_
    rw [hreceipts]
    exact fun r hr released hreleased => hs.released_append hr hreleased

/-- What the logs up to a block leave. -/
structure LogState.UpTo (root : Int) (s : LogState) : Prop where
  tables : s.tables.UpTo root
  exclusions : ∀ r ∈ s.exclusions, (r.place.blockNumber : Int) ≤ root
  vaults : ∀ v ∈ s.vaults, (v.registeredBlock : Int) ≤ root

private theorem LogState.UpTo.exec (h : (st.blockNumber : Int) ≤ root)
    (hreceipt : ∀ row, st = .receipt row → row.release = none) (hs : s.UpTo root) :
    (st.exec timestampOf s).UpTo root := by
  constructor
  · exact hs.tables.exec h hreceipt
  · cases st with
    | exclusion row =>
      intro r hr
      obtain hr | rfl := mem_of_mem_insertNew hr
      · exact hs.exclusions r hr
      · exact h
    | _ => exact hs.exclusions
  · cases st with
    | vault row =>
      intro v hv
      obtain hv | rfl := mem_of_mem_insertNew hv
      · exact hs.vaults v hv
      · exact h
    | vaultStatus row =>
      intro v hv
      obtain ⟨v', hv', rfl⟩ := mem_map.1 hv
      unfold setVaultStatus
      split <;> exact hs.vaults v' hv'
    | _ => exact hs.vaults

private theorem LogState.UpTo.execAll {sts : List Statement} (h : ∀ st ∈ sts, (st.blockNumber : Int) ≤ root)
    (hreceipt : ∀ st ∈ sts, ∀ row, st = .receipt row → row.release = none) (hs : s.UpTo root) :
    (execAll timestampOf s sts).UpTo root := by
  induction sts generalizing s with
  | nil => exact hs
  | cons st sts ih =>
    apply ih
    · exact fun st' hst' => h st' (mem_cons_of_mem _ hst')
    · exact fun st' hst' => hreceipt st' (mem_cons_of_mem _ hst')
    · exact hs.exec (h st mem_cons_self) (hreceipt st mem_cons_self)

private theorem LogState.UpTo.deleteAboveBlock (h : s.UpTo root)
    (hderived : ∀ v ∈ s.vaults, rederiveStatus s.tables.statusEvents v = v) : s.deleteAboveBlock root = s := by
  obtain ⟨htables, hexclusions, hvaults⟩ := h
  have hkeep : s.exclusions.filter (fun r => survives root r.table r.place.blockNumber) = s.exclusions := by
    rw [filter_eq_self]
    intro r hr
    rw [survives_eq _ r.hasBlockNumber]
    simpa using hexclusions r hr
  have hregistered : s.vaults.filter (fun v => decide ((v.registeredBlock : Int) ≤ root)) = s.vaults := by
    rw [filter_eq_self]
    intro v hv
    simpa using hvaults v hv
  have hstatus : s.vaults.map (rederiveStatus s.tables.statusEvents) = s.vaults := by
    conv_rhs => rw [← map_id s.vaults]
    exact map_congr_left hderived
  simp only [LogState.deleteAboveBlock, htables.deleteAboveBlock, hkeep, hregistered, hstatus]

theorem handleAll_append (s : LogState) (logs : List LogEntry) (l : LogEntry) :
    handleAll cfg vaultOfExclusionLedger created timestampOf s (logs ++ [l]) =
      execAll timestampOf (handleAll cfg vaultOfExclusionLedger created timestampOf s logs)
        (handleLog cfg vaultOfExclusionLedger created l) := by
  simp [handleAll]

private theorem statusDerived_handleAll (h : Emitted cfg logs) :
    StatusDerived cfg logs (handleAll cfg vaultOfExclusionLedger created timestampOf .empty logs) := by
  induction logs using reverseRecOn with
  | nil => exact statusDerived_empty
  | append_singleton logs l ih =>
    rw [handleAll_append]
    exact (ih h.init).handleLog h

private theorem upTo_handleAll {logs : List LogEntry} (h : ∀ l ∈ logs, (l.place.blockNumber : Int) ≤ root) :
    (handleAll cfg vaultOfExclusionLedger created timestampOf .empty logs).UpTo root := by
  induction logs using reverseRecOn with
  | nil => exact ⟨upTo_empty, by simp [handleAll, LogState.empty], by simp [handleAll, LogState.empty]⟩
  | append_singleton logs l ih =>
    rw [handleAll_append]
    apply (ih fun l' hl' => h l' (mem_append_left _ hl')).execAll
    · intro st hst
      rw [(statement_of_handleLog hst).block]
      exact h l (by simp)
    · intro st hst row hrow
      exact ((statement_of_handleLog hst).receipt row hrow).1

theorem StatusDerived.unreleased {logs : List LogEntry} {l : LogEntry} {s : LogState} (h : Emitted cfg (logs ++ [l]))
    (hs : StatusDerived cfg logs s) {c : Address} {id : Word} {released : Release}
    (hst : .release c id released ∈ Indexer.handleLog cfg vaultOfExclusionLedger created l) {r : ReceiptRow}
    (hr : r ∈ s.tables.receipts) (hkey : r.key = (c, id)) : r.release = none := by
  obtain ⟨hcontract, -, a, t, hevent⟩ := (statement_of_handleLog hst).release c id released rfl
  cases hrelease : r.release with
  | none => rfl
  | some released' =>
    obtain ⟨l', hl', hcontract', a', t', hevent'⟩ := hs.released r hr released' hrelease
    have hid : r.receiptId = id := congrArg Prod.snd hkey
    rw [hid] at hevent'
    have honce := (pairwise_append.1 h.release).2.2 l' hl' l (mem_singleton_self l)
    exact (honce id a' t' a t hcontract' hcontract hevent' hevent).elim

private theorem deleteAboveBlock_handleLog (h : Emitted cfg (logs ++ [l]))
    (hs : StatusDerived cfg logs s) (habove : root < l.place.blockNumber) :
    (execAll timestampOf s (handleLog cfg vaultOfExclusionLedger created l)).deleteAboveBlock root =
      s.deleteAboveBlock root := by
  -- a release is the only statement of its log, so it meets the receipts of `s`
  by_cases hrelease : ∃ id a t, l.event = .receiptReleased id a t
  · obtain ⟨id, a, t, hevent⟩ := hrelease
    have hunreleased := @StatusDerived.unreleased _ vaultOfExclusionLedger created _ _ _ h hs
    simp only [handleLog, hevent] at hunreleased ⊢
    split
    · rfl
    rename_i hcontract
    rw [if_neg hcontract] at hunreleased
    simp only [execAll, foldl_cons, foldl_nil]
    apply deleteAboveBlock_exec habove
    rintro c id' released ⟨⟩ r hr hkey
    exact hunreleased (mem_singleton_self _) hr hkey
  have hof := fun st => @statement_of_handleLog cfg vaultOfExclusionLedger created l st
  generalize handleLog cfg vaultOfExclusionLedger created l = sts at hof
  clear hs
  induction sts generalizing s with
  | nil => rfl
  | cons st sts ih =>
    have hst := hof st mem_cons_self
    have hone : (st.exec timestampOf s).deleteAboveBlock root = s.deleteAboveBlock root := by
      apply deleteAboveBlock_exec
      · rw [hst.block]
        exact habove
      · intro c id released heq
        obtain ⟨-, -, a, t, hevent⟩ := hst.release c id released heq
        exact (hrelease ⟨id, a, t, hevent⟩).elim
    rw [← hone]
    exact ih fun st' hst' => hof st' (mem_cons_of_mem _ hst')

/-- Handling logs and rolling back to a root is handling the logs up to the root. -/
theorem rollback_exact (cfg : Config) (vaultOfExclusionLedger : Address → Option Address)
    (created : List (Word × Address))
    (timestampOf : Nat → Option Int) (logs : List LogEntry) (h : Emitted cfg logs) (root : Int) :
    (handleAll cfg vaultOfExclusionLedger created timestampOf .empty logs).deleteAboveBlock root =
      handleAll cfg vaultOfExclusionLedger created timestampOf .empty
        (logs.filter fun l => decide ((l.place.blockNumber : Int) ≤ root)) := by
  induction logs using reverseRecOn with
  | nil =>
    have hupTo := @upTo_handleAll cfg vaultOfExclusionLedger created timestampOf root [] (by simp)
    exact hupTo.deleteAboveBlock (by simp [handleAll, LogState.empty])
  | append_singleton logs l ih =>
    by_cases hl : (l.place.blockNumber : Int) ≤ root
    · -- every earlier log is below the root too
      have hall : ∀ l' ∈ logs ++ [l], (l'.place.blockNumber : Int) ≤ root := by
        intro l' hl'
        rw [mem_append, mem_singleton] at hl'
        obtain hl' | rfl := hl'
        · have hpos := h.pos_lt hl'
          simp only [LogPlace.pos, Prod.Lex.toLex_lt_toLex] at hpos
          omega
        · exact hl
      have hfilter : (logs ++ [l]).filter (fun l' => decide ((l'.place.blockNumber : Int) ≤ root)) = logs ++ [l] := by
        rw [filter_eq_self]
        intro l' hl'
        simpa using hall l' hl'
      rw [hfilter]
      exact (upTo_handleAll hall).deleteAboveBlock (statusDerived_handleAll h).derived
    · have hfilter : (logs ++ [l]).filter (fun l' => decide ((l'.place.blockNumber : Int) ≤ root)) =
          logs.filter fun l' => decide ((l'.place.blockNumber : Int) ≤ root) := by
        simp [filter_append, hl]
      rw [hfilter, handleAll_append, deleteAboveBlock_handleLog h (statusDerived_handleAll h.init) (by omega)]
      exact ih h.init

/-- A vault is registered and paused, an owner deposits, and a receipt is recorded and released. -/
def sampleLogs : List LogEntry :=
  [⟨3, ⟨10, 0, 1⟩, .vaultRegistered 7 "USDC"⟩, ⟨7, ⟨11, 0, 2⟩, .deposit 5 5 100 40⟩,
    ⟨9, ⟨11, 2, 3⟩, .receiptRecorded 6 4 0 8 "u" 77⟩, ⟨3, ⟨12, 1, 4⟩, .vaultStatusChanged 7 1 80⟩,
    ⟨7, ⟨12, 3, 5⟩, .withdraw 5 5 5 25 10⟩, ⟨9, ⟨13, 0, 6⟩, .receiptReleased 6 4 90⟩]

def sampleConfig : Config := ⟨none, 7, some 3, none, none, some 9, none, none, 100, none, true⟩

private theorem emitted_sampleLogs : Emitted sampleConfig sampleLogs where
  order := by decide +kernel
  status := by
    intro pre l post v n t heq hevent
    have hl : l = ⟨3, ⟨12, 1, 4⟩, .vaultStatusChanged 7 1 80⟩ ∧ pre = sampleLogs.take 3 := by
      rcases pre with _ | ⟨a, _ | ⟨b, _ | ⟨c, _ | ⟨d, _ | ⟨e, _ | ⟨f, rest⟩⟩⟩⟩⟩⟩ <;>
        simp only [sampleLogs, nil_append, cons_append, cons.injEq] at heq
      · rw [← heq.1] at hevent
        cases hevent
      · rw [← heq.2.1] at hevent
        cases hevent
      · rw [← heq.2.2.1] at hevent
        cases hevent
      · obtain ⟨rfl, rfl, rfl, rfl, -⟩ := heq
        exact ⟨rfl, rfl⟩
      · rw [← heq.2.2.2.2.1] at hevent
        cases hevent
      · rw [← heq.2.2.2.2.2.1] at hevent
        cases hevent
      · simp at heq
    obtain ⟨rfl, rfl⟩ := hl
    cases hevent
    exact ⟨_, mem_cons_self, "USDC", rfl⟩
  release := by
    simp [sampleLogs, sampleConfig]

theorem rollback_exact_of_sampleLogs : Emitted sampleConfig sampleLogs ∧
    (handleAll sampleConfig (fun _ => none) [] (fun _ => none) .empty sampleLogs).deleteAboveBlock 11 =
      handleAll sampleConfig (fun _ => none) [] (fun _ => none) .empty
        (sampleLogs.filter fun l => decide ((l.place.blockNumber : Int) ≤ 11)) :=
  ⟨emitted_sampleLogs, rollback_exact _ _ _ _ _ emitted_sampleLogs 11⟩

end RobotMoney.Indexer
