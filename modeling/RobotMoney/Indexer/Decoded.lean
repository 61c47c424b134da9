import RobotMoney.Indexer.Replay

/-!
# What a chain decodes to

The statements of the logs of a chain, split by what they write: `rows` are those of the block-scoped tables, in chain
order, and `IsExclusion` says which exclusion records there are, in whatever order.  Both grow with the chain below a
bound, as long as no contract with older logs is watched anew (`Settled`).
-/

namespace RobotMoney.Indexer

open Evm SqlTable List

/-- The statements on the block-scoped tables, apart from those of the exclusion records. -/
def Statement.isTable : Statement → Bool
  | .exclusion _ | .vault _ => false
  | _ => true

open Statement

theorem foldl_execTables_filter {timestampOf : Nat → Option Int} (sts : List Statement) (t : Tables) :
    (sts.filter isTable).foldl (execTables timestampOf) t =
      sts.foldl (execTables timestampOf) t := by
  induction sts generalizing t with
  | nil => rfl
  | cons st sts ih =>
    cases st with
    | exclusion row | vault row => exact ih t
    | _ => exact ih _

variable {H : Type} (d : Deployment H)

def Deployment.rowsOf (l : LogEntry) : List Statement :=
  (handleLog d.cfg (fun _ => none) (d.created [l]) l).filter isTable

/-- What the logs from `lo` on and below `hi` write, of the contracts watched by `b`. -/
def Deployment.rows (c : Chain) (lo hi b : Nat) : List Statement :=
  ((c.logs lo hi).filter fun l => decide (l.address ∈ d.watched c b)).flatMap d.rowsOf

/-- The exclusion records of the ledgers named below `b`. -/
def Deployment.IsExclusion (c : Chain) (b : Nat) (r : ExclusionRow) : Prop :=
  ∃ l ∈ c.logs d.deployFloor b, ∃ v, (l.address, v) ∈ d.named c b ∧ exclusionRow v l = some r

variable {d} {c e : Chain} {lo mid hi b n : Nat} {l : LogEntry}

private theorem isProxyDeployment_created {logs : List LogEntry} (hl : l ∈ logs) :
    isProxyDeployment (d.created logs) l = isProxyDeployment (d.created [l]) l := by
  rw [Bool.eq_iff_iff]
  simp only [isProxyDeployment, Deployment.created, any_eq_true, mem_filterMap, Option.map_eq_some_iff,
    Bool.and_eq_true, decide_eq_true_eq, mem_singleton]
  constructor
  · rintro ⟨x, ⟨l', hl', contract, hcontract, rfl⟩, htx, haddress⟩
    simp only at htx haddress
    exact ⟨_, ⟨l, rfl, contract, by rw [← htx, hcontract], rfl⟩, rfl, haddress⟩
  · rintro ⟨x, ⟨l', rfl, contract, hcontract, rfl⟩, htx, haddress⟩
    exact ⟨_, ⟨l', hl, contract, hcontract, rfl⟩, htx, haddress⟩

theorem filter_handleLog (vaultOfExclusionLedger : Address → Option Address) {logs : List LogEntry} (hl : l ∈ logs) :
    (handleLog d.cfg vaultOfExclusionLedger (d.created logs) l).filter isTable = d.rowsOf l := by
  have hadmin : handleAdminLog d.cfg (d.created logs) l = handleAdminLog d.cfg (d.created [l]) l := by
    simp only [handleAdminLog, isProxyDeployment_created hl]
  unfold Deployment.rowsOf
  cases hevent : l.event
  case exclusionOpened | exclusionRecoveryCredited | exclusionFinalized | exclusionClaimed =>
    simp only [handleLog, hevent]
    split
    · rfl
    · simp [filter_eq_nil_iff, isTable]
  all_goals simp only [handleLog, hevent, hadmin]

theorem rowsOf_of_isExclusion (h : l.event.isExclusion = true) : d.rowsOf l = [] := by
  cases hevent : l.event <;> simp [hevent, Event.isExclusion] at h <;> simp [Deployment.rowsOf, handleLog, hevent]

private theorem statement_of_rowsOf {st : Statement} (h : st ∈ d.rowsOf l) : st.Of d.cfg l :=
  statement_of_handleLog (mem_of_mem_filter h)

theorem rowsOf_of_release {c : Address} {id : Word} {released : Release} (h : .release c id released ∈ d.rowsOf l) :
    d.cfg.consensusReceipt = some l.address ∧ c = l.address ∧ (∃ a t, l.event = .receiptReleased id a t) ∧
      d.rowsOf l = [.release c id released] := by
  obtain ⟨hcontract, rfl, a, t, hevent⟩ := (statement_of_rowsOf h).release c id released rfl
  refine ⟨hcontract, rfl, ⟨a, t, hevent⟩, ?_⟩
  simp only [Deployment.rowsOf, handleLog, hevent, hcontract, ne_eq, not_true_eq_false, ↓reduceIte] at h ⊢
  simp only [mem_filter, mem_singleton] at h
  rw [h.1]
  rfl

variable {cfg : Config} {created : List (Word × Address)} {place : LogPlace} {pre post sts : List Statement}
  {vaultOfExclusionLedger : Address → Option Address} {r : ExclusionRow} {xs : List ExclusionRow}

private theorem handleAdminLog_of_mark (h : handleAdminLog cfg created l = pre ++ .markProxyDeployment place :: post) :
    ∃ row, event row ∈ pre ∧ row.key = adminKey place := by
  unfold handleAdminLog at h
  split at h
  · simp at h
  rename_i event _
  cases pre with
  | nil => cases h
  | cons first pre =>
    rw [cons_append, cons.injEq] at h
    obtain ⟨rfl, h⟩ := h
    have hplace : place = l.place := by
      have hplace : markProxyDeployment place ∈ pre ++ .markProxyDeployment place :: post := by simp
      rw [← h] at hplace
      split at hplace
      · simpa using hplace
      · cases hplace
    rw [hplace]
    exact ⟨_, mem_cons_self, rfl⟩

theorem handleLog_of_mark
    (h : handleLog cfg vaultOfExclusionLedger created l = pre ++ .markProxyDeployment place :: post) :
    ∃ row, event row ∈ pre ∧ row.key = adminKey place := by
  have hmem : markProxyDeployment place ∈ handleLog cfg vaultOfExclusionLedger created l := by simp [h]
  have hadmin : handleLog cfg vaultOfExclusionLedger created l = handleAdminLog cfg created l := by
    cases hevent : l.event
    case agentDeposit | agentDepositRouted | agentWithdrawal | agentAuthorized | agentOwnershipTransferred
      | agentRevoked =>
      simp only [handleLog, hevent] at hmem
      split at hmem <;> simp [handleGatewayLog, hevent] at hmem
    case receiptRecorded | receiptReleased =>
      simp only [handleLog, hevent] at hmem
      split at hmem <;> simp at hmem
    case exclusionOpened | exclusionRecoveryCredited | exclusionFinalized | exclusionClaimed =>
      simp only [handleLog, hevent] at hmem
      split at hmem <;> simp at hmem
    case callScheduled | callExecuted | cancelled | minDelayChange | safeExecution | safeOwner | safeChangedThreshold |
        upgraded | upgradesFrozen => simp only [handleLog, hevent]
    all_goals simp [handleLog, hevent] at hmem
  rw [hadmin] at h
  exact handleAdminLog_of_mark h

private theorem rowsOf_of_mark (h : d.rowsOf l = pre ++ .markProxyDeployment place :: post) :
    ∃ row, event row ∈ pre ∧ row.key = adminKey place := by
  obtain ⟨l₁, l₂, hlog, hpre, hpost⟩ := filter_eq_append_iff.1 h
  obtain ⟨skipped, l₂', rfl, hskipped, -, -⟩ := filter_eq_cons_iff.1 hpost
  rw [← append_assoc] at hlog
  obtain ⟨row, hrow, hkey⟩ := handleLog_of_mark hlog
  refine ⟨row, ?_, hkey⟩
  rw [← hpre, mem_filter]
  refine ⟨(mem_append.1 hrow).resolve_right ?_, rfl⟩
  intro hrow
  exact hskipped _ hrow rfl

theorem rows_append (hlo : lo ≤ mid) (hhi : mid ≤ hi) : d.rows c lo hi b = d.rows c lo mid b ++ d.rows c mid hi b := by
  simp only [Deployment.rows, logs_append hlo hhi, filter_append, flatMap_append]

theorem Agree.rows (h : Agree c e b) (hhi : hi ≤ b) : d.rows c lo hi b = d.rows e lo hi b := by
  simp only [Deployment.rows, h.watched, (h.mono hhi).logs]

theorem Agree.isExclusion (h : Agree c e b) : d.IsExclusion c b r ↔ d.IsExclusion e b r := by
  simp only [Deployment.IsExclusion, h.logs, h.named]

theorem block_of_mem_rows {st : Statement} (h : st ∈ d.rows c lo hi b) : lo ≤ st.blockNumber ∧ st.blockNumber < hi := by
  obtain ⟨l, hl, hst⟩ := mem_flatMap.1 h
  have hlog := mem_logs.1 (mem_of_mem_filter hl)
  rw [(statement_of_rowsOf hst).block]
  exact ⟨hlog.1, hlog.2.1⟩

theorem Deployment.Settled.rows (hsettled : d.Settled c n b) (hlawful : d.Lawful c) (hn : n ≤ b)
    (hlo : d.deployFloor ≤ lo) : d.rows c lo n b = d.rows c lo n n := by
  simp only [Deployment.rows]
  congr 1
  apply filter_congr
  intro l hl
  have hl' : l ∈ c.logs d.deployFloor n := by
    rw [mem_logs] at hl ⊢
    exact ⟨by omega, hl.2⟩
  rw [decide_eq_decide]
  exact hsettled.watched_iff hlawful hn hl'

/-- The statements of a lawful chain are in order. -/
theorem Deployment.Lawful.ordered (h : d.Lawful c) (b : Nat) : Ordered (d.rows c d.deployFloor b b) := by
  have hpairwise := (pairwise_logs c d.deployFloor b).filter fun l => decide (l.address ∈ d.watched c b)
  have hlogged : ∀ l ∈ (c.logs d.deployFloor b).filter (fun l => decide (l.address ∈ d.watched c b)), d.Logged c l :=
    fun l hl => logged_of_mem (le_refl _) (mem_of_mem_filter hl)
  constructor
  · intro pre place post heq
    obtain ⟨logs₁, l, logs₂, pre', post', -, hl, rfl, -⟩ := Replay.flatMap_eq_append_cons heq
    obtain ⟨row, hrow, hkey⟩ := rowsOf_of_mark hl
    exact ⟨row, mem_append_right _ hrow, hkey⟩
  · intro pre c' id released post heq
    obtain ⟨logs₁, l, logs₂, pre', post', hlogs, hl, rfl, -⟩ := Replay.flatMap_eq_append_cons heq
    obtain ⟨hcontract, rfl, ⟨a, t, hevent⟩, hrows⟩ :=
      @rowsOf_of_release _ d l c' id released (by rw [hl]; simp)
    have hpre : pre' = [] := by
      rw [hrows, singleton_eq_append_iff] at hl
      have hnil : pre' = [] ∧ post' = [] := by simpa using hl
      exact hnil.1
    subst hpre
    rw [hlogs] at hpairwise hlogged
    have hl' := hlogged l (by simp)
    rw [append_nil]
    constructor
    · obtain ⟨l', hlogged', haddress, hpos, s, n, h', u, r, hevent'⟩ := h.recorded l id a t hl' hcontract hevent
      have hmem : l' ∈ logs₁ ++ l :: logs₂ := by
        rw [← hlogs, mem_filter, mem_logs_iff]
        refine ⟨⟨hlogged', ?_⟩, ?_⟩
        · have hblock : l ∈ (c.logs d.deployFloor b).filter fun l => decide (l.address ∈ d.watched c b) := by
            rw [hlogs]
            simp
          have hlt := (mem_logs_iff.1 (mem_of_mem_filter hblock)).2
          simp only [LogPlace.pos, Prod.Lex.toLex_lt_toLex] at hpos
          omega
        · rw [decide_eq_true_eq, haddress]
          exact mem_watched.2 (.inl (consensusReceipt_mem_watchedAddresses hcontract))
      have hearlier : l' ∈ logs₁ := by
        rw [mem_append, mem_cons] at hmem
        obtain hmem | rfl | hmem := hmem
        · exact hmem
        · exact (lt_irrefl _ hpos).elim
        have hlater := (pairwise_cons.1 (pairwise_append.1 hpairwise).2.1).1 l' hmem
        exact (lt_asymm hpos hlater).elim
      refine ⟨⟨l'.place, l'.address, id, intoI64 n, s, h', u, asI64 r, none⟩, ?_, ?_⟩
      · refine mem_flatMap.2 ⟨l', hearlier, ?_⟩
        simp [Deployment.rowsOf, handleLog, hevent', haddress, hcontract, isTable]
      · simp [ReceiptRow.key, haddress]
    · intro released' hmem
      obtain ⟨l', hl'', hst⟩ := mem_flatMap.1 hmem
      obtain ⟨hcontract', -, ⟨a', t', hevent'⟩, -⟩ := rowsOf_of_release hst
      have heq := h.releasedOnce l l' id a t a' t' hl' (hlogged l' (mem_append_left _ hl'')) hcontract hcontract'
        hevent hevent'
      have hlt := (pairwise_append.1 hpairwise).2.2 l' hl'' l mem_cons_self
      rw [heq] at hlt
      exact lt_irrefl _ hlt
  · intro row hrow
    obtain ⟨l, -, hst⟩ := mem_flatMap.1 hrow
    exact ((statement_of_rowsOf hst).receipt row rfl).1

theorem mem_handleLog_exclusion : .exclusion r ∈ handleLog cfg vaultOfExclusionLedger created l ↔
      ∃ v, vaultOfExclusionLedger l.address = some v ∧ exclusionRow v l = some r := by
  constructor
  · intro h
    cases hevent : l.event
    case exclusionOpened | exclusionRecoveryCredited | exclusionFinalized | exclusionClaimed =>
      simp only [handleLog, hevent] at h
      split at h
      · cases h
      rename_i v hv
      simp only [mem_map, Option.mem_toList, exclusion.injEq, exists_eq_right] at h
      exact ⟨v, hv, h⟩
    case agentDeposit | agentDepositRouted | agentWithdrawal | agentAuthorized | agentOwnershipTransferred
      | agentRevoked =>
      simp only [handleLog, hevent] at h
      split at h <;> simp [handleGatewayLog, hevent] at h
    case receiptRecorded | receiptReleased =>
      simp only [handleLog, hevent] at h
      split at h <;> simp at h
    case callScheduled | callExecuted | cancelled | minDelayChange | safeExecution | safeOwner | safeChangedThreshold |
        upgraded | upgradesFrozen =>
      simp only [handleLog, hevent, handleAdminLog] at h
      split at h
      · cases h
      · split at h <;> simp at h
    all_goals simp [handleLog, hevent] at h
  · rintro ⟨v, hv, hrow⟩
    cases hevent : l.event
    case exclusionOpened | exclusionRecoveryCredited | exclusionFinalized | exclusionClaimed =>
      simp only [handleLog, hevent, hv]
      simpa using hrow
    all_goals simp [exclusionRow, hevent] at hrow

theorem mem_foldl_execExclusions (h : r ∈ sts.foldl execExclusions xs) : r ∈ xs ∨ .exclusion r ∈ sts := by
  induction sts generalizing xs with
  | nil => exact .inl h
  | cons st sts ih =>
    obtain h | h := ih h
    · cases st with
      | exclusion row =>
        obtain h | rfl := mem_of_mem_insertNew h
        · exact .inl h
        · exact .inr mem_cons_self
      | _ => exact .inl h
    · exact .inr (mem_cons_of_mem _ h)

theorem mem_foldl_execExclusions_of_mem (h : r ∈ xs) : r ∈ sts.foldl execExclusions xs := by
  induction sts generalizing xs with
  | nil => exact h
  | cons st sts ih =>
    apply ih
    cases st with
    | exclusion row => exact mem_insertNew_of_mem h
    | _ => exact h

theorem exists_mem_foldl_execExclusions (h : .exclusion r ∈ sts) :
    ∃ r' ∈ sts.foldl execExclusions xs, r'.key = r.key := by
  induction sts generalizing xs with
  | nil => cases h
  | cons st sts ih =>
    rw [foldl_cons]
    obtain rfl | h := mem_cons.1 h
    · obtain ⟨r', hr', hkey⟩ := exists_mem_insertNew ExclusionRow.key r xs
      exact ⟨r', mem_foldl_execExclusions_of_mem hr', hkey⟩
    · exact ih h

theorem Deployment.Lawful.exclusion_eq (h : d.Lawful c) {r r' : ExclusionRow} (hr : d.IsExclusion c b r)
    (hr' : d.IsExclusion c b r') (hkey : r.key = r'.key) : r = r' := by
  obtain ⟨l, hl, v, hnamed, hrow⟩ := hr
  obtain ⟨l', hl', v', hnamed', hrow'⟩ := hr'
  obtain rfl := h.exclusionKeys l l' b v v' r r' (mem_logs_iff.1 hl).1
    (mem_logs_iff.1 hl').1 hnamed hnamed' hrow hrow' hkey
  obtain rfl := h.owner b l.address v v' hnamed hnamed'
  rw [hrow, Option.some.injEq] at hrow'
  exact hrow'

theorem execAll_eq (timestampOf : Nat → Option Int) (s : LogState) (sts : List Statement) :
    execAll timestampOf s sts = ⟨sts.foldl (execTables timestampOf) s.tables,
      sts.foldl execExclusions s.exclusions, sts.foldl execVaults s.vaults⟩ := by
  induction sts generalizing s with
  | nil => rfl
  | cons st sts ih =>
    rw [execAll, foldl_cons, ← execAll, ih]
    rfl

theorem handleAll_eq {timestampOf : Nat → Option Int} (s : LogState) (logs : List LogEntry) :
    handleAll cfg vaultOfExclusionLedger created timestampOf s logs =
      execAll timestampOf s (logs.flatMap (handleLog cfg vaultOfExclusionLedger created)) := by
  induction logs generalizing s with
  | nil => rfl
  | cons l logs ih =>
    rw [handleAll, foldl_cons, ← handleAll, ih, flatMap_cons, execAll, execAll, execAll, ← foldl_append]

theorem tables_decoded : (d.decoded c b).tables = execs c.timestampOf (d.rows c d.deployFloor b b) := by
  rw [Deployment.decoded, handleAll_eq, execAll_eq]
  simp only
  rw [← foldl_execTables_filter, filter_flatMap, execs]
  congr 1
  exact flatMap_congr fun l hl => filter_handleLog _ hl

private theorem lookup_named (h : d.Lawful c) {ledger v : Address} :
    (d.named c b).lookup ledger = some v ↔ (ledger, v) ∈ d.named c b := by
  have hmem : ∀ v, (d.named c b).lookup ledger = some v → (ledger, v) ∈ d.named c b := by
    intro v hv
    obtain ⟨l₁, l₂, heq, -⟩ := lookup_eq_some_iff.1 hv
    rw [heq]
    simp
  constructor
  · exact hmem v
  · intro hv
    cases hlookup : (d.named c b).lookup ledger with
    | none =>
      rw [lookup_eq_none_iff] at hlookup
      simpa using hlookup (ledger, v) hv
    | some v' => rw [h.owner b ledger v v' hv (hmem v' hlookup)]

theorem mem_exclusions_decoded (h : d.Lawful c) : r ∈ (d.decoded c b).exclusions ↔ d.IsExclusion c b r := by
  have hstatement : ∀ r, .exclusion r ∈ (d.canonicalLogs c b).flatMap (handleLog d.cfg
      (fun ledger => (d.named c b).lookup ledger) (d.created (d.canonicalLogs c b))) ↔ d.IsExclusion c b r := by
    intro r
    simp only [mem_flatMap, mem_handleLog_exclusion, lookup_named h, Deployment.IsExclusion,
      Deployment.canonicalLogs, mem_filter, decide_eq_true_eq]
    constructor
    · rintro ⟨l, ⟨hl, -⟩, v, hnamed, hrow⟩
      exact ⟨l, hl, v, hnamed, hrow⟩
    · rintro ⟨l, hl, v, hnamed, hrow⟩
      exact ⟨l, ⟨hl, mem_watched.2 (.inr (.inr ⟨v, hnamed⟩))⟩, v, hnamed, hrow⟩
  have hsound : ∀ r ∈ (d.decoded c b).exclusions, d.IsExclusion c b r := by
    intro r hr
    rw [Deployment.decoded, handleAll_eq, execAll_eq] at hr
    obtain hr | hr := mem_foldl_execExclusions hr
    · cases hr
    · exact (hstatement r).1 hr
  constructor
  · exact hsound r
  · intro hr
    obtain ⟨r', hr', hkey⟩ := @exists_mem_foldl_execExclusions _ _ [] ((hstatement r).2 hr)
    have hmem : r' ∈ (d.decoded c b).exclusions := by
      rw [Deployment.decoded, handleAll_eq, execAll_eq]
      exact hr'
    rw [h.exclusion_eq hr (hsound r' hmem) hkey.symm]
    exact hmem

end RobotMoney.Indexer
