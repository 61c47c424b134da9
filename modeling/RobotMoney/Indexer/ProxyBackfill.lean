import RobotMoney.Indexer.Follow

/-!
# The backfill of proxy events (`backfill_proxy_events`)

A pass goes from the deploy floor to the cursor of its start, a slice a call; the checkpoint is saved after a slice, and
the blocks behind it are not read again.  Between two calls the ticks move the cursor, roll it back, and know other
vaults; a restart brings another configuration and another floor.  `IndexerState` is what all of them work on, and its
steps are ticks and calls of the backfill, each with the chain that its node serves and the point where it fails, if it
does.

A pass covers its range (`proxy_backfill_covers`).  It relies on the ticks for what a rollback deletes behind the
checkpoint, so no tick may start above that, and each step must be served the chain that the rows that are there are of.
-/

namespace RobotMoney.Indexer

open Evm SqlTable List Option Indexer.Deployment

def proxyBackfillMaxRequests : Nat := 10000

def proxyBackfillSliceRequests : Nat := 25

inductive BackfillState where
  | running
  | done
  | refused
  | noCursor
  deriving DecidableEq, Repr

/-- The row of `proxy_backfill_progress`. -/
structure ProxyBackfillProgress where
  state : BackfillState
  floorBlock : Option Nat
  targetBlock : Option Nat
  nextBlock : Option Nat
  detail : Option String
  deriving DecidableEq, Repr

inductive ProxyBackfillOutcome where
  | noCursor
  | refused (floor cursor requests : Nat)
  | progress (nextBlock targetBlock inserted : Nat)
  | done (inserted : Nat)
  deriving DecidableEq, Repr

/-- A block in its column, a `BIGINT`. -/
def blockColumn (b : Nat) : Option Nat := if b < 2 ^ 63 then some b else none

/-- What `save_backfill_state` saves. -/
def backfillState (state : BackfillState) (floor target next : Option Nat) (detail : Option String) :
    ProxyBackfillProgress :=
  ⟨state, floor.bind blockColumn, target.bind blockColumn, next.bind blockColumn, detail⟩

/-- The floor, the target and the checkpoint of a pass. -/
structure BackfillPass where
  floor : Nat
  target : Nat
  next : Nat
  deriving DecidableEq, Repr

def resumedPass : Option ProxyBackfillProgress → Option BackfillPass
  | some ⟨.running, some floor, some target, some next, _⟩ => some ⟨floor, target, next⟩
  | _ => none

def refusedDetail (floor cursor requests : Nat) : String :=
  "proxy upgrade backfill refused: the range from the deploy floor " ++ toString floor ++ " to the cursor " ++
    toString cursor ++ " needs " ++ toString requests ++ " eth_getLogs requests, more than " ++
    toString proxyBackfillMaxRequests ++ " (a floor of 0 means deploy-block detection degraded). Set " ++
    "INDEXER_START_BLOCK to the deployment's first block and restart"

def Config.proxyAddresses (cfg : Config) : List Address :=
  (cfg.watchedAddresses ++ cfg.proxyOnlyAddresses).filter fun a =>
    decide (cfg.timelock ≠ some a) && decide (cfg.safe ≠ some a)

/-- The requests of a slice: `from` and `to` of each, with fuel. -/
def backfillChunks (span sliceEnd : Nat) : Nat → Nat → List (Nat × Nat)
  | 0, _ => []
  | fuel + 1, start =>
    if start ≤ sliceEnd then
      (start, min (start + (span - 1)) sliceEnd) ::
        backfillChunks span sliceEnd fuel (min (start + (span - 1)) sliceEnd + 1)
    else []

def Chain.proxyLogs (c : Chain) (proxies : List Address) (lo hi : Nat) : List LogEntry :=
  (c.logs lo (hi + 1)).filter fun l => decide (l.address ∈ proxies) && l.event.isProxy

variable {H : Type}

section Call

variable (d : Deployment H) (db : Db H) (c : Chain)

def Deployment.proxies : List Address := (db.log.vaults.map VaultRow.vaultAddress).foldl pushNew d.cfg.proxyAddresses

/-- What the requests of a slice write; `created` has the contracts that the transactions so far created. -/
def Deployment.chunkWrites (proxies : List Address) : List (Word × Address) → List (Nat × Nat) → List (Write H)
  | _, [] => []
  | created, (lo, hi) :: chunks =>
    let logs := c.proxyLogs proxies lo hi
    let blocks := (logs.map fun l => l.place.blockNumber).dedup.insertionSort (· ≤ ·)
    let created := created ++ d.created logs
    (blocks.filterMap (d.headerAt c)).map .header ++
      (logs.flatMap (handleAdminLog d.cfg created)).map .statement ++ Deployment.chunkWrites proxies created chunks

/-- What a call writes, the state that it saves after that, and its outcome, given the rows that it inserted. -/
structure BackfillPlan (H : Type) where
  writes : List (Write H)
  progress : ProxyBackfillProgress
  outcome : Nat → ProxyBackfillOutcome

/-- `max_blocks_per_tick`, but at least one block. -/
def Deployment.span : Nat := max d.cfg.maxBlocksPerTick 1

def Deployment.backfillPass (prior : Option ProxyBackfillProgress) : Except (BackfillPlan H) BackfillPass :=
  match resumedPass prior with
  | some pass => .ok pass
  | none =>
    match db.lastIndexedBlock with
    | none => .error ⟨[], backfillState .noCursor none none none none, fun _ => .noCursor⟩
    | some cursor =>
      if cursor < d.deployFloor then
        .error ⟨[], backfillState .done (some d.deployFloor) (some cursor) none none, fun _ => .done 0⟩
      else
        let requests := (cursor - d.deployFloor) / d.span + 1
        if proxyBackfillMaxRequests < requests then
          .error ⟨[], backfillState .refused (some d.deployFloor) (some cursor) none
            (some (refusedDetail d.deployFloor cursor requests)), fun _ => .refused d.deployFloor cursor requests⟩
        else .ok ⟨d.deployFloor, cursor, d.deployFloor⟩

def Deployment.backfillSlice (pass : BackfillPass) : BackfillPlan H :=
  match db.lastIndexedBlock with
  | none => ⟨[], backfillState .noCursor none none none none, fun _ => .noCursor⟩
  | some cursor =>
    let target := min pass.target cursor
    if target < pass.next then ⟨[], backfillState .done (some pass.floor) (some target) none none, fun _ => .done 0⟩
    else
      let sliceEnd := min (pass.next + (d.span * proxyBackfillSliceRequests - 1)) target
      let writes := d.chunkWrites c (d.proxies db) []
        (backfillChunks d.span sliceEnd (sliceEnd + 1 - pass.next) pass.next)
      if target ≤ sliceEnd then ⟨writes, backfillState .done (some pass.floor) (some target) none none, .done⟩
      else
        ⟨writes, backfillState .running (some pass.floor) (some target) (some (sliceEnd + 1)) none,
          .progress (sliceEnd + 1) target⟩

def Deployment.backfillPlan (prior : Option ProxyBackfillProgress) : BackfillPlan H :=
  match d.backfillPass db prior with
  | .ok pass => d.backfillSlice db c pass
  | .error plan => plan

end Call

/-- `backfill_proxy_events`: a call that fails has executed some of its writes, and saves nothing. -/
def Deployment.backfillProxyEvents (d : Deployment H) (db : Db H) (prior : Option ProxyBackfillProgress) (t : Tick) :
    Db H × Option ProxyBackfillProgress × Option ProxyBackfillOutcome :=
  let plan := d.backfillPlan db t.chain prior
  match t.failsAfter with
  | some k => ((plan.writes.take k).foldl Write.exec db, prior, none)
  | none =>
    let db' := plan.writes.foldl Write.exec db
    (db', some plan.progress, some (plan.outcome (db'.log.tables.events.length - db.log.tables.events.length)))

/-- The database, the saved state of the backfill, and the chain that was served last. -/
structure IndexerState (H : Type) where
  db : Db H
  progress : Option ProxyBackfillProgress
  chain : Chain

def IndexerState.empty : IndexerState H := ⟨.empty, none, []⟩

/-- A tick or a call of the backfill, of a process with its configuration and the floor that it finds. -/
inductive IndexerStep (H : Type) where
  | tick (d : Deployment H) (t : Tick)
  | backfill (d : Deployment H) (t : Tick)

def IndexerStep.deployment : IndexerStep H → Deployment H
  | .tick d _ | .backfill d _ => d

def IndexerStep.chain : IndexerStep H → Chain
  | .tick _ t | .backfill _ t => t.chain

section Steps

variable [DecidableEq H]

def IndexerState.step (s : IndexerState H) : IndexerStep H → IndexerState H
  | .tick d t => ⟨d.runOnce s.db t, s.progress, t.chain⟩
  | .backfill d t =>
    ⟨(d.backfillProxyEvents s.db s.progress t).1, (d.backfillProxyEvents s.db s.progress t).2.1, t.chain⟩

def IndexerState.call (s : IndexerState H) (st : IndexerStep H) : Except Empty (IndexerState H) := .ok (s.step st)

/-- The database that a step starts to write to: the one after the reorg check, if a tick gets to it. -/
def IndexerStep.start (s : IndexerState H) : IndexerStep H → Db H
  | .tick d t => if t.failsAfter = some 0 then s.db else d.rolledBack s.db t.chain
  | .backfill _ _ => s.db

def Db.next (db : Db H) : Nat := (db.lastIndexedBlock.map (· + 1)).getD 0

/-- The chain that is served has not changed up to the cursor, nor in the blocks of rows of `admin_events`. -/
def IndexerStep.Synced (s : IndexerState H) (st : IndexerStep H) : Prop :=
  Agree s.chain st.chain (st.start s).next ∧ ∀ r ∈ (st.start s).log.tables.events, r.table = .adminEvents →
    s.chain[r.place.blockNumber]? = st.chain[r.place.blockNumber]?

instance (s : IndexerState H) (st : IndexerStep H) : Decidable (st.Synced s) :=
  inferInstanceAs (Decidable (_ ∧ ∀ r ∈ (st.start s).log.tables.events, _ → _))

def IndexerStep.LeavesNoGap (s : IndexerState H) : IndexerStep H → Prop
  | .tick d t => ∀ pass ∈ resumedPass s.progress, d.deployFloor ≤ max (IndexerStep.start s (.tick d t)).next pass.floor
  | .backfill _ _ => True

instance (s : IndexerState H) : (st : IndexerStep H) → Decidable (st.LeavesNoGap s)
  | .tick d t => inferInstanceAs (Decidable (∀ pass ∈ resumedPass s.progress,
      d.deployFloor ≤ max (IndexerStep.start s (.tick d t)).next pass.floor))
  | .backfill _ _ => inferInstanceAs (Decidable True)

end Steps

/-- The proxies of the configuration or of the table; the timelock and the safe are none. -/
def Deployment.KnowsProxy (d : Deployment H) (db : Db H) (a : Address) : Prop :=
  a ∈ d.proxies db ∧ d.cfg.timelock ≠ some a ∧ d.cfg.safe ≠ some a

instance (d : Deployment H) (db : Db H) (a : Address) : Decidable (d.KnowsProxy db a) :=
  inferInstanceAs (Decidable (_ ∧ _))

/-- The `Upgraded` and `UpgradesFrozen` events of a proxy, as rows; the latter names its proxy. -/
def proxyEventOf (log : LogEntry) : Option AdminEvent :=
  match log.event with
  | .upgraded implementation => some ⟨.proxy, "Upgraded", none, [("implementation", .address implementation)], false⟩
  | .upgradesFrozen proxy implementation codeHash =>
    if proxy ≠ log.address then none
    else
      some ⟨.proxy, "UpgradesFrozen", none,
        [("implementation", .address implementation), ("code_hash", .word codeHash)], false⟩
  | _ => none

def Db.StoredOnce (db : Db H) (log : LogEntry) (event : AdminEvent) : Prop :=
  ∃ deployment, db.log.tables.events.filter (fun r => decide (r.key = adminKey log.place)) =
    [.admin log.place log.address { event with deployment := deployment }]

/-- When the pass is done, every event of the proxy up to the target and the cursor is stored, once. -/
def IndexerState.Covers (s : IndexerState H) (a : Address) : Prop :=
  ∀ p floor target cursor, s.progress = some p → p.state = .done → p.floorBlock = some floor →
    p.targetBlock = some target → s.db.lastIndexedBlock = some cursor →
    ∀ l ∈ s.chain.logs floor (min target cursor + 1), l.address = a →
      ∀ event, proxyEventOf l = some event → s.db.StoredOnce l event

open IndexerState

variable {db : Db H} {w : Write H} {ws : List (Write H)} {c e : Chain} {l : LogEntry} {r : EventRow} {cfg : Config}
  {created : List (Word × Address)} {vaultOfExclusionLedger : Address → Option Address}

/-- A row of `admin_events` is that of a log of the chain, up to its mark. -/
def RowOf (c : Chain) (r : EventRow) : Prop :=
  ∀ place contract event, r = .admin place contract event →
    ∃ l ∈ c.entriesAt place.blockNumber, l.place = place ∧ l.address = contract ∧
      ∃ cfg event', adminEventOf cfg l = some event' ∧
        ({ event with deployment := false } : AdminEvent) = { event' with deployment := false }

private theorem RowOf.agree (h : RowOf c r)
    (hagree : r.table = .adminEvents → c.entriesAt r.place.blockNumber = e.entriesAt r.place.blockNumber) :
    RowOf e r := by
  rintro place contract event rfl
  obtain ⟨l, hl, hrow⟩ := h place contract event rfl
  exact ⟨l, hagree rfl ▸ hl, hrow⟩

private theorem RowOf.mark (h : RowOf c r) (place : LogPlace) : RowOf c (markDeployment place r) := by
  cases r with
  | admin p contract event =>
    unfold markDeployment
    simp only
    split
    · rintro place' contract' event' heq
      cases heq
      exact h p contract event rfl
    · exact h
  | _ => exact h

theorem event_handleAdminLog : .event r ∈ handleAdminLog cfg created l ↔ ∃ event, adminEventOf cfg l = some event ∧
    r = .admin l.place l.address { event with
      deployment := event.contractKind = .proxy && isProxyDeployment created l } := by
  unfold handleAdminLog
  cases adminEventOf cfg l with
  | none => simp
  | some event =>
    simp only [mem_cons, Statement.event.injEq, some.injEq, exists_eq_left']
    constructor
    · rintro (hr | hr)
      · exact hr
      · split at hr
        · simp at hr
        · cases hr
    · exact .inl

theorem rowOf_handleAdminLog (hl : l ∈ c.entriesAt l.place.blockNumber) (hr : .event r ∈ handleAdminLog cfg created l) :
    RowOf c r := by
  obtain ⟨event, hevent, rfl⟩ := event_handleAdminLog.1 hr
  rintro place contract event' heq
  cases heq
  exact ⟨l, hl, rfl, rfl, cfg, event, hevent, rfl⟩

private theorem rowOf_handleLog (hl : l ∈ c.entriesAt l.place.blockNumber)
    (hr : .event r ∈ handleLog cfg vaultOfExclusionLedger created l) : RowOf c r := by
  cases hevent : l.event
  case callScheduled | callExecuted | cancelled | minDelayChange | safeExecution | safeOwner | safeChangedThreshold |
      upgraded | upgradesFrozen =>
    simp only [handleLog, hevent] at hr
    exact rowOf_handleAdminLog hl hr
  case exclusionOpened | exclusionRecoveryCredited | exclusionFinalized | exclusionClaimed =>
    simp only [handleLog, hevent] at hr
    split at hr <;> simp at hr
  all_goals
    rintro place contract event rfl
    simp [handleLog, hevent, handleGatewayLog] at hr

def Write.Adds (c : Chain) : Write H → Prop
  | .rollback _ => False
  | .statement (.event r) => RowOf c r
  | _ => True

private theorem adds_statement {st : Statement} (h : ∀ r, st = .event r → RowOf c r) :
    (Write.statement st : Write H).Adds c := by
  cases st with
  | event r => exact h r rfl
  | _ => trivial

/-- What holds of the rows: a key has one, and those of admin events are of logs of the chain. -/
structure Db.LogRowsOk (db : Db H) (c : Chain) : Prop where
  rows : ∀ r ∈ db.log.tables.events, RowOf c r
  nodup : (db.log.tables.events.map EventRow.key).Nodup

private theorem Db.LogRowsOk.exec (h : db.LogRowsOk c) (hw : w.Adds c) : (w.exec db).LogRowsOk c := by
  cases w with
  | rollback root => cases hw
  | ledger row | header row => exact ⟨h.rows, h.nodup⟩
  | statement st =>
    cases st with
    | event row =>
      refine ⟨?_, nodup_insertNew h.nodup⟩
      intro r hr
      rcases mem_of_mem_insertNew hr with hr | rfl
      · exact h.rows r hr
      · exact hw
    | markProxyDeployment place =>
      constructor
      · intro r hr
        obtain ⟨r', hr', rfl⟩ := mem_map.1 hr
        exact (h.rows r' hr').mark place
      · have hkeys : (db.log.tables.events.map (markDeployment place)).map EventRow.key =
            db.log.tables.events.map EventRow.key := by
          rw [List.map_map]
          exact map_congr_left fun r _ => key_markDeployment place r
        exact hkeys ▸ h.nodup
    | _ => exact ⟨h.rows, h.nodup⟩

theorem Db.LogRowsOk.foldl (h : db.LogRowsOk c) (hws : ∀ w ∈ ws, w.Adds c) : (ws.foldl Write.exec db).LogRowsOk c := by
  induction ws generalizing db with
  | nil => exact h
  | cons w ws ih =>
    exact ih (h.exec (hws w mem_cons_self)) fun w' hw' => hws w' (mem_cons_of_mem _ hw')

private theorem runs_foldl (hws : ∀ w ∈ ws, w.Adds c) : (ws.foldl Write.exec db).runs = db.runs := by
  induction ws generalizing db with
  | nil => rfl
  | cons w ws ih =>
    rw [foldl_cons, ih fun w' hw' => hws w' (mem_cons_of_mem _ hw')]
    cases w with
    | rollback root =>
      have hadds : (Write.rollback root : Write H).Adds c := hws _ mem_cons_self
      exact hadds.elim
    | _ => rfl

def Db.HasKey (db : Db H) (key : TableName × Option Address × (Nat ×ₗ Nat)) : Prop :=
  ∃ r ∈ db.log.tables.events, r.key = key

variable {key : TableName × Option Address × (Nat ×ₗ Nat)}

private theorem Db.HasKey.exec (h : db.HasKey key) (hw : w.Adds c) : (w.exec db).HasKey key := by
  obtain ⟨r, hr, hkey⟩ := h
  cases w with
  | rollback root => cases hw
  | ledger row | header row => exact ⟨r, hr, hkey⟩
  | statement st =>
    cases st with
    | event row => exact ⟨r, mem_insertNew_of_mem hr, hkey⟩
    | markProxyDeployment place => exact ⟨_, mem_map_of_mem hr, (key_markDeployment place r).trans hkey⟩
    | _ => exact ⟨r, hr, hkey⟩

theorem Db.HasKey.foldl (h : db.HasKey key) (hws : ∀ w ∈ ws, w.Adds c) : (ws.foldl Write.exec db).HasKey key := by
  induction ws generalizing db with
  | nil => exact h
  | cons w ws ih =>
    exact ih (h.exec (hws w mem_cons_self)) fun w' hw' => hws w' (mem_cons_of_mem _ hw')

private theorem hasKey_of_mem (hws : ∀ w ∈ ws, w.Adds c) (hr : .statement (.event r) ∈ ws) :
    (ws.foldl Write.exec db).HasKey r.key := by
  obtain ⟨pre, post, rfl⟩ := append_of_mem hr
  rw [foldl_append, foldl_cons]
  refine Db.HasKey.foldl ?_ fun w hw => hws w (mem_append_right _ (mem_cons_of_mem _ hw))
  exact exists_mem_insertNew EventRow.key r _

private theorem key_of_mem_foldl (hws : ∀ w ∈ ws, w.Adds c) (hr : r ∈ (ws.foldl Write.exec db).log.tables.events) :
    db.HasKey r.key ∨ ∃ r', .statement (.event r') ∈ ws ∧ r'.key = r.key := by
  induction ws using reverseRecOn generalizing r with
  | nil => exact .inl ⟨r, hr, rfl⟩
  | append_singleton ws w ih =>
    have ih : ∀ r ∈ (ws.foldl Write.exec db).log.tables.events,
        db.HasKey r.key ∨ ∃ r', .statement (.event r') ∈ ws ++ [w] ∧ r'.key = r.key := by
      intro r hr
      rcases ih (fun w' hw' => hws w' (mem_append_left _ hw')) hr with h | ⟨r', hr', hkey⟩
      · exact .inl h
      · exact .inr ⟨r', mem_append_left _ hr', hkey⟩
    rw [foldl_append, foldl_cons, foldl_nil] at hr
    cases w with
    | rollback root =>
      have hadds : (Write.rollback root : Write H).Adds c := hws _ (by simp)
      exact hadds.elim
    | ledger row | header row => exact ih r hr
    | statement st =>
      cases st with
      | event row =>
        rcases mem_of_mem_insertNew hr with hr | rfl
        · exact ih r hr
        · exact .inr ⟨r, by simp, rfl⟩
      | markProxyDeployment place =>
        obtain ⟨r', hr', rfl⟩ := mem_map.1 hr
        rw [key_markDeployment]
        exact ih r' hr'
      | _ => exact ih r hr

private theorem mem_backfillChunks {span sliceEnd fuel start : Nat} (hfuel : sliceEnd + 1 ≤ start + fuel) :
    (∀ p ∈ backfillChunks span sliceEnd fuel start, start ≤ p.1 ∧ p.2 ≤ sliceEnd) ∧
      ∀ n, start ≤ n → n ≤ sliceEnd → ∃ p ∈ backfillChunks span sliceEnd fuel start, p.1 ≤ n ∧ n ≤ p.2 := by
  induction fuel generalizing start with
  | zero =>
    refine ⟨by simp [backfillChunks], ?_⟩
    intro n hstart hend
    omega
  | succ fuel ih =>
    unfold backfillChunks
    split
    · rename_i hle
      obtain ⟨hin, hcover⟩ := @ih (min (start + (span - 1)) sliceEnd + 1) (by omega)
      constructor
      · intro p hp
        rcases mem_cons.1 hp with rfl | hp
        · exact ⟨le_rfl, min_le_right _ _⟩
        obtain ⟨hlo, hhi⟩ := hin p hp
        exact ⟨by omega, hhi⟩
      · intro n hstart hend
        by_cases hn : n ≤ min (start + (span - 1)) sliceEnd
        · exact ⟨_, mem_cons_self, hstart, hn⟩
        obtain ⟨p, hp, hpn⟩ := hcover n (by omega) hend
        exact ⟨p, mem_cons_of_mem _ hp, hpn⟩
    refine ⟨by simp, ?_⟩
    intro n hstart hend
    omega

variable {d : Deployment H} {proxies : List Address} {chunks : List (Nat × Nat)}

private theorem statement_of_chunkWrites {st : Statement} (h : .statement st ∈ d.chunkWrites c proxies created chunks) :
    ∃ p ∈ chunks, ∃ l ∈ c.proxyLogs proxies p.1 p.2, ∃ created', st ∈ handleAdminLog d.cfg created' l := by
  induction chunks generalizing created with
  | nil => cases h
  | cons p chunks ih =>
    obtain ⟨lo, hi⟩ := p
    simp only [chunkWrites, List.mem_append, List.mem_map, reduceCtorEq, and_false, exists_false, false_or,
      Write.statement.injEq, exists_eq_right, List.mem_flatMap] at h
    rcases h with ⟨l, hl, hst⟩ | h
    · exact ⟨(lo, hi), mem_cons_self, l, hl, _, hst⟩
    obtain ⟨p, hp, hlog⟩ := ih h
    exact ⟨p, mem_cons_of_mem _ hp, hlog⟩

private theorem adds_chunkWrites (hw : w ∈ d.chunkWrites c proxies created chunks) : w.Adds c := by
  have hrollback : ∀ (chunks : List (Nat × Nat)) (created : List (Word × Address)) (root : Int),
      (.rollback root : Write H) ∉ d.chunkWrites c proxies created chunks := by
    intro chunks
    induction chunks with
    | nil => exact fun _ _ h => by cases h
    | cons p chunks ih =>
      intro created root h
      obtain ⟨lo, hi⟩ := p
      simp only [chunkWrites, List.mem_append, List.mem_map, reduceCtorEq, and_false, exists_false, false_or] at h
      exact ih _ root h
  cases w with
  | rollback root => exact (hrollback _ _ root hw).elim
  | ledger row | header row => trivial
  | statement st =>
    apply adds_statement
    rintro r rfl
    obtain ⟨p, -, l, hl, created', hr⟩ := statement_of_chunkWrites hw
    exact rowOf_handleAdminLog (mem_logs.1 (mem_of_mem_filter hl)).2.2 hr

variable {event : AdminEvent}

private theorem event_of_proxyLogs {p : Nat × Nat} (hp : p ∈ chunks) (hl : l ∈ c.proxyLogs proxies p.1 p.2)
    (hevent : adminEventOf d.cfg l = some event) :
    ∃ r, .statement (.event r) ∈ d.chunkWrites c proxies created chunks ∧ r.key = adminKey l.place := by
  induction chunks generalizing created with
  | nil => cases hp
  | cons p' chunks ih =>
    obtain ⟨lo, hi⟩ := p'
    rcases mem_cons.1 hp with rfl | hp
    · obtain ⟨r, hr, hkey⟩ : ∃ r, .event r ∈ handleAdminLog d.cfg (created ++ d.created (c.proxyLogs proxies lo hi)) l ∧
          r.key = adminKey l.place := ⟨_, event_handleAdminLog.2 ⟨event, hevent, rfl⟩, rfl⟩
      refine ⟨r, ?_, hkey⟩
      simp only [chunkWrites, List.mem_append, List.mem_map, reduceCtorEq, and_false, exists_false, false_or,
        Write.statement.injEq, exists_eq_right, List.mem_flatMap]
      exact .inl ⟨l, hl, hr⟩
    obtain ⟨r, hr, hkey⟩ := @ih (created ++ d.created (c.proxyLogs proxies lo hi)) hp
    exact ⟨r, mem_append_right _ hr, hkey⟩

variable {t : Tick} {lo hi : Nat} {a : Address}

private theorem adds_rangeWrites (hw : w ∈ d.rangeWrites db c lo hi) : w.Adds c := by
  simp only [rangeWrites, List.mem_append, List.mem_map] at hw
  rcases hw with (⟨row, -, rfl⟩ | ⟨row, -, rfl⟩) | ⟨st, hst, rfl⟩
  · trivial
  · trivial
  apply adds_statement
  rintro r rfl
  obtain ⟨l, hl, hr⟩ := mem_flatMap.1 hst
  have hlog := Deployment.RangeOk.mem_logs_of_tickLogs hl
  exact rowOf_handleLog (mem_logs.1 hlog).2.2 hr

private theorem Deployment.KnowsProxy.watchedNow (h : d.KnowsProxy db a) : a ∈ d.watchedNow db c lo hi := by
  obtain ⟨hmem, -, -⟩ := h
  simp only [Deployment.proxies, mem_foldl_pushNew, Config.proxyAddresses, mem_filter, mem_append] at hmem
  simp only [Deployment.watchedNow, mem_foldl_pushNew]
  rcases hmem with ⟨hwatched | honly, -⟩ | hvault
  · exact .inl (.inl (.inl hwatched))
  · exact .inr honly
  · exact .inl (.inl (.inr (((d.discovered_spec db c lo hi).known a).2 (.inl hvault))))

private theorem isProxy_of_proxyEventOf (h : proxyEventOf l = some event) : l.event.isProxy = true := by
  unfold proxyEventOf at h
  split at h
  · rename_i hevent
    rw [hevent]
    rfl
  · rename_i hevent
    rw [hevent]
    rfl
  · cases h

private theorem adminEventOf_eq (htimelock : cfg.timelock ≠ some l.address) (hsafe : cfg.safe ≠ some l.address) :
    adminEventOf cfg l = proxyEventOf l := by
  rw [adminEventOf, if_neg htimelock, if_neg hsafe]
  rfl

private theorem eq_of_adminEventOf {event' : AdminEvent} (h : proxyEventOf l = some event)
    (h' : adminEventOf cfg l = some event') : event' = event := by
  have hproxy := isProxy_of_proxyEventOf h
  by_cases htimelock : cfg.timelock = some l.address
  · rw [adminEventOf, if_pos htimelock] at h'
    split at h' <;> simp_all [Event.isProxy]
  by_cases hsafe : cfg.safe = some l.address
  · rw [adminEventOf, if_neg htimelock, if_pos hsafe] at h'
    split at h' <;> simp_all [Event.isProxy]
  rw [adminEventOf_eq htimelock hsafe, h] at h'
  exact (some.inj h').symm

private theorem event_of_rangeWrites (hknows : d.KnowsProxy db l.address) (hl : l ∈ c.logs lo hi)
    (hevent : proxyEventOf l = some event) :
    ∃ r, .statement (.event r) ∈ d.rangeWrites db c lo hi ∧ r.key = adminKey l.place := by
  have hproxy := isProxy_of_proxyEventOf hevent
  have hlog : l ∈ d.tickLogs db c lo hi := by
    apply mem_append_left
    simp only [mainLogs, mem_filter, decide_eq_true_eq, hproxy, Bool.or_true, and_true]
    exact ⟨hl, hknows.watchedNow⟩
  have hadmin : ∀ vaultOf created, handleLog d.cfg vaultOf created l = handleAdminLog d.cfg created l := by
    intro vaultOf created
    cases hkind : l.event <;> simp_all [Event.isProxy, handleLog]
  rw [← adminEventOf_eq hknows.2.1 hknows.2.2] at hevent
  obtain ⟨r, hr, hkey⟩ : ∃ r, .event r ∈ handleAdminLog d.cfg (d.created (d.tickLogs db c lo hi)) l ∧
      r.key = adminKey l.place := ⟨_, event_handleAdminLog.2 ⟨event, hevent, rfl⟩, rfl⟩
  refine ⟨r, ?_, hkey⟩
  apply mem_append_right
  apply List.mem_map_of_mem
  refine mem_flatMap.2 ⟨l, hlog, ?_⟩
  rw [hadmin]
  exact hr

theorem block_of_key {place : LogPlace} (h : r.key = adminKey place) : r.place.blockNumber = place.blockNumber := by
  simp only [EventRow.key, adminKey, LogPlace.pos, Prod.mk.injEq, EmbeddingLike.apply_eq_iff_eq] at h
  exact h.2.2.1

variable {n : Nat}

private theorem eq_of_pos {l l' : LogEntry} (hl : l ∈ c.entriesAt n) (hl' : l' ∈ c.entriesAt n)
    (hpos : l.place.pos = l'.place.pos) : l = l' := by
  have hnodup : ((c.logs n (n + 1)).map fun l => l.place.pos).Nodup :=
    (pairwise_map.2 (pairwise_logs c n (n + 1))).imp fun hlt => hlt.ne
  have hmem : ∀ l ∈ c.entriesAt n, l ∈ c.logs n (n + 1) := by
    intro l hl
    have hblock := block_of_mem_entriesAt hl
    exact mem_logs.2 ⟨by omega, by omega, by rwa [hblock]⟩
  exact inj_on_of_nodup_map hnodup (hmem l hl) (hmem l' hl') hpos

private theorem storedOnce_of_hasKey (hok : db.LogRowsOk c) (hl : l ∈ c.entriesAt l.place.blockNumber)
    (hevent : proxyEventOf l = some event) (hkey : db.HasKey (adminKey l.place)) : db.StoredOnce l event := by
  obtain ⟨r, hr, hkey⟩ := hkey
  have hfilter := filter_key_of_nodup hok.nodup hr
  rw [hkey] at hfilter
  cases r with
  | admin place contract stored =>
    obtain ⟨l', hl', hplace, haddress, cfg, event', hevent', heq⟩ := hok.rows _ hr place contract stored rfl
    have hblock := block_of_key hkey
    have hpos : place.pos = l.place.pos := by
      simp only [EventRow.key, adminKey, Prod.mk.injEq] at hkey
      exact hkey.2.2
    simp only [EventRow.place] at hblock
    rw [hblock] at hl'
    obtain rfl := eq_of_pos hl' hl (by rw [hplace, hpos])
    obtain rfl := eq_of_adminEventOf hevent hevent'
    refine ⟨stored.deployment, ?_⟩
    rw [hfilter, hplace, haddress]
    cases stored
    cases event'
    simp_all
  | _ => simp [EventRow.key, EventRow.table, adminKey] at hkey

def Db.Covered (db : Db H) (c : Chain) (a : Address) (lo hi : Nat) : Prop :=
  ∀ l ∈ c.logs lo hi, l.address = a → (proxyEventOf l).isSome → l.place.blockNumber < db.next →
    db.HasKey (adminKey l.place)

private theorem Db.Covered.mono {mid : Nat} (h : db.Covered c a lo hi) (hle : mid ≤ hi) : db.Covered c a lo mid := by
  intro l hl
  rw [mem_logs] at hl
  exact h l (mem_logs.2 ⟨hl.1, by omega, hl.2.2⟩)

private theorem covered_of_lt (h : hi ≤ lo) : db.Covered c a lo hi := by
  intro l hl
  rw [mem_logs] at hl
  omega

private theorem next_foldl (hws : ∀ w ∈ ws, w.Adds c) : (ws.foldl Write.exec db).next = db.next := by
  rw [Db.next, Db.next, Db.lastIndexedBlock, Db.lastIndexedBlock, runs_foldl hws]

private theorem Db.Covered.foldl (h : db.Covered c a lo hi) (hws : ∀ w ∈ ws, w.Adds c) :
    (ws.foldl Write.exec db).Covered c a lo hi := by
  intro l hl ha hevent hblock
  rw [next_foldl hws] at hblock
  exact (h l hl ha hevent hblock).foldl hws

private theorem eq_of_blockColumn {m : Nat} (h : (some n).bind blockColumn = some m) : n = m := by
  simp only [bind_some, blockColumn] at h
  split at h
  · exact some.inj h
  · cases h

/-- What a saved state says of a proxy: its events up to the checkpoint, or up to the target, are stored. -/
structure Db.Backs (db : Db H) (c : Chain) (a : Address) (p : ProxyBackfillProgress) : Prop where
  running : ∀ pass, resumedPass (some p) = some pass → db.Covered c a pass.floor pass.next
  done : p.state = .done → ∀ floor target, p.floorBlock = some floor → p.targetBlock = some target →
    db.Covered c a floor (target + 1)

private theorem backs_of_state {p : ProxyBackfillProgress} (hrunning : p.state ≠ .running) (hdone : p.state ≠ .done) :
    db.Backs c a p := by
  constructor
  · intro pass hpass
    unfold resumedPass at hpass
    split at hpass
    · rename_i heq
      cases heq
      exact absurd rfl hrunning
    · cases hpass
  · exact fun h => absurd h hdone

variable {floor target : Nat} {detail : Option String}

private theorem backs_done {next : Option Nat} (h : db.Covered c a floor (target + 1)) :
    db.Backs c a (backfillState .done (some floor) (some target) next detail) := by
  constructor
  · intro pass hpass
    cases hpass
  · intro _ floor' target' hfloor htarget
    rw [← eq_of_blockColumn hfloor, ← eq_of_blockColumn htarget]
    exact h

private theorem backs_running {next : Nat} (h : db.Covered c a floor next) :
    db.Backs c a (backfillState .running (some floor) (some target) (some next) detail) := by
  constructor
  · intro pass hpass
    unfold resumedPass backfillState at hpass
    split at hpass
    · rename_i heq
      simp only [some.injEq, ProxyBackfillProgress.mk.injEq, true_and] at heq
      obtain ⟨hfloor, -, hnext, -⟩ := heq
      obtain rfl := some.inj hpass
      rw [← eq_of_blockColumn hfloor, ← eq_of_blockColumn hnext]
      exact h
    · cases hpass
  · intro hstate
    cases hstate

private theorem covered_slice {next sliceEnd : Nat} (hknows : d.KnowsProxy db a) (h : db.Covered c a floor next) :
    ((d.chunkWrites c (d.proxies db) [] (backfillChunks d.span sliceEnd (sliceEnd + 1 - next) next)).foldl
      Write.exec db).Covered c a floor (sliceEnd + 1) := by
  intro l hl ha hevent hblock
  rw [next_foldl fun w hw => adds_chunkWrites hw] at hblock
  rw [mem_logs] at hl
  obtain ⟨hlo, hhi, hentry⟩ := hl
  by_cases hnext : l.place.blockNumber < next
  · exact (h l (mem_logs.2 ⟨hlo, hnext, hentry⟩) ha hevent hblock).foldl fun w hw => adds_chunkWrites hw
  obtain ⟨p, hp, hp1, hp2⟩ := (@mem_backfillChunks d.span sliceEnd (sliceEnd + 1 - next) next (by omega)).2
    l.place.blockNumber (by omega) (by omega)
  obtain ⟨event, hevent⟩ := isSome_iff_exists.1 hevent
  subst ha
  have hlog : l ∈ c.proxyLogs (d.proxies db) p.1 p.2 := by
    simp only [Chain.proxyLogs, mem_filter, isProxy_of_proxyEventOf hevent, Bool.and_true, decide_eq_true_eq]
    exact ⟨mem_logs.2 ⟨hp1, by omega, hentry⟩, hknows.1⟩
  have hadmin : adminEventOf d.cfg l = some event := by rw [adminEventOf_eq hknows.2.1 hknows.2.2, hevent]
  obtain ⟨r, hr, hkey⟩ := event_of_proxyLogs hp hlog hadmin
  rw [← hkey]
  exact hasKey_of_mem (fun w hw => adds_chunkWrites hw) hr

private theorem backfillPass_cases {prior : Option ProxyBackfillProgress}
    (h : ∀ pass, resumedPass prior = some pass → db.Covered c a pass.floor pass.next) :
    (∃ pass, d.backfillPass db prior = .ok pass ∧ db.Covered c a pass.floor pass.next) ∨
      ∃ plan, d.backfillPass db prior = .error plan ∧ plan.writes = [] ∧ db.Backs c a plan.progress := by
  unfold backfillPass
  cases hpass : resumedPass prior with
  | some pass => exact .inl ⟨pass, rfl, h pass hpass⟩
  | none =>
    simp only
    cases db.lastIndexedBlock with
    | none => exact .inr ⟨_, rfl, rfl, backs_of_state (by simp [backfillState]) (by simp [backfillState])⟩
    | some cursor =>
      simp only
      split
      · exact .inr ⟨_, rfl, rfl, backs_done (covered_of_lt (by omega))⟩
      split
      · exact .inr ⟨_, rfl, rfl, backs_of_state (by simp [backfillState]) (by simp [backfillState])⟩
      · exact .inl ⟨_, rfl, covered_of_lt le_rfl⟩

variable {prior : Option ProxyBackfillProgress}

private theorem backs_backfillPlan
    (h : ∀ pass, resumedPass prior = some pass → db.Covered c a pass.floor pass.next) (hknows : d.KnowsProxy db a) :
    ((d.backfillPlan db c prior).writes.foldl Write.exec db).Backs c a (d.backfillPlan db c prior).progress := by
  unfold backfillPlan
  obtain ⟨pass, heq, hcovered⟩ | ⟨plan, heq, hwrites, hbacks⟩ := @backfillPass_cases _ db c d a prior h
  · rw [heq]
    simp only [backfillSlice]
    cases db.lastIndexedBlock with
    | none => exact backs_of_state (by simp [backfillState]) (by simp [backfillState])
    | some cursor =>
      simp only
      split
      · exact backs_done (hcovered.mono (by omega))
      split
      · exact backs_done ((covered_slice hknows hcovered).mono (by omega))
      · exact backs_running (covered_slice hknows hcovered)
  rw [heq]
  simp only [hwrites, foldl_nil]
  exact hbacks

private theorem writes_backfillPlan (prior : Option ProxyBackfillProgress) : (d.backfillPlan db c prior).writes = [] ∨
    ∃ cursor next sliceEnd, db.lastIndexedBlock = some cursor ∧ sliceEnd ≤ cursor ∧ (d.backfillPlan db c prior).writes =
        d.chunkWrites c (d.proxies db) [] (backfillChunks d.span sliceEnd (sliceEnd + 1 - next) next) := by
  unfold backfillPlan
  cases hpass : d.backfillPass db prior with
  | error plan =>
    left
    unfold backfillPass at hpass
    split at hpass
    · cases hpass
    split at hpass
    · cases hpass
      rfl
    split at hpass
    · cases hpass
      rfl
    simp only at hpass
    split at hpass
    · cases hpass
      rfl
    · cases hpass
  | ok pass =>
    simp only [backfillSlice]
    cases db.lastIndexedBlock with
    | none => exact .inl rfl
    | some cursor =>
      simp only
      split
      · exact .inl rfl
      right
      refine ⟨cursor, pass.next, min (pass.next + (d.span * proxyBackfillSliceRequests - 1)) (min pass.target cursor),
        rfl, by omega, ?_⟩
      split <;> rfl

private theorem adds_backfillPlan (hw : w ∈ (d.backfillPlan db c prior).writes) : w.Adds c := by
  obtain hwrites | ⟨cursor, next, sliceEnd, -, -, hwrites⟩ := @writes_backfillPlan _ db c d prior
  · rw [hwrites] at hw
    cases hw
  rw [hwrites] at hw
  exact adds_chunkWrites hw

private theorem block_le_of_backfill (hr : r ∈ (d.backfillProxyEvents db prior t).1.log.tables.events) :
    db.HasKey r.key ∨ ∃ cursor, db.lastIndexedBlock = some cursor ∧ r.place.blockNumber ≤ cursor := by
  obtain ⟨ws, hws, heq⟩ : ∃ ws : List (Write H), (∀ w ∈ ws, w ∈ (d.backfillPlan db t.chain prior).writes) ∧
      (d.backfillProxyEvents db prior t).1 = ws.foldl Write.exec db := by
    unfold backfillProxyEvents
    cases t.failsAfter with
    | some k => exact ⟨_, fun w hw => mem_of_mem_take hw, rfl⟩
    | none => exact ⟨_, fun w hw => hw, rfl⟩
  rw [heq] at hr
  rcases key_of_mem_foldl (fun w hw => adds_backfillPlan (hws w hw)) hr with h | ⟨r', hr', hkey⟩
  · exact .inl h
  right
  have hwrite := hws _ hr'
  obtain hwrites | ⟨cursor, next, sliceEnd, hcursor, hle, hwrites⟩ := @writes_backfillPlan _ db t.chain d prior
  · rw [hwrites] at hwrite
    cases hwrite
  rw [hwrites] at hwrite
  obtain ⟨p, hp, l, hl, created', hevent⟩ := statement_of_chunkWrites hwrite
  obtain ⟨event, -, rfl⟩ := event_handleAdminLog.1 hevent
  obtain ⟨-, hhi⟩ := (@mem_backfillChunks d.span sliceEnd (sliceEnd + 1 - next) next (by omega)).1 p hp
  obtain ⟨-, hlt, -⟩ := mem_logs.1 (mem_of_mem_filter hl)
  have hblock : r.place.blockNumber = l.place.blockNumber := block_of_key hkey.symm
  exact ⟨cursor, hcursor, by omega⟩

section Tick

variable [DecidableEq H]

private theorem reorgRoot_le {root : Int} (h : d.reorgRoot db c = some root) :
    ∃ cursor, db.lastIndexedBlock = some cursor ∧ root ≤ cursor := by
  unfold reorgRoot at h
  cases hcursor : db.lastIndexedBlock with
  | none =>
    rw [hcursor] at h
    cases h
  | some cursor =>
    refine ⟨cursor, rfl, ?_⟩
    simp only [hcursor, resolveCursorStart] at h
    by_cases hbelow : cursor + 1 < d.deployFloor
    · rw [if_pos hbelow] at h
      cases h
    rw [if_neg hbelow] at h
    simp only at h
    split at h
    · split at h
      · rw [some.injEq] at h
        subst h
        rcases @walkBackToMatch_spec _ d _ db c cursor with heq | ⟨m, hm, -, -, heq⟩
        · omega
        · omega
      · cases h
    · cases h

private theorem fromBlock_eq : d.fromBlock db c = max (d.rolledBack db c).next d.deployFloor := by
  unfold fromBlock lastIndexed rolledBack firstBlock Db.next
  cases hroot : d.reorgRoot db c with
  | some root =>
    obtain ⟨cursor, hcursor, hle⟩ := reorgRoot_le hroot
    simp only
    rw [lastIndexedBlock_deleteAboveBlock hcursor hle]
  | none =>
    simp only
    unfold resolveCursorStart
    cases db.lastIndexedBlock with
    | none => rfl
    | some cursor =>
      simp only
      split
      · simp only [map_none, getD_none, map_some, getD_some]
        omega
      · rfl

theorem lastIndexed_cases : d.lastIndexed db c = none ∨ d.lastIndexed db c = (d.rolledBack db c).lastIndexedBlock := by
  unfold lastIndexed rolledBack
  cases hroot : d.reorgRoot db c with
  | some root =>
    obtain ⟨cursor, hcursor, hle⟩ := reorgRoot_le hroot
    exact .inr (lastIndexedBlock_deleteAboveBlock hcursor hle).symm
  | none =>
    simp only
    unfold resolveCursorStart
    cases db.lastIndexedBlock with
    | none => exact .inl rfl
    | some cursor =>
      simp only
      split
      · exact .inl rfl
      · exact .inr rfl

/-- What a tick leaves: a failed one some of its writes, a good one all of them, with its cursor. -/
theorem runOnce_cases (s : IndexerState H) (d : Deployment H) (t : Tick) :
    (t.failsAfter ≠ none ∧ ∃ ws : List (Write H), (∀ w ∈ ws, w.Adds t.chain) ∧
        d.runOnce s.db t = ws.foldl Write.exec (IndexerStep.start s (.tick d t))) ∨
      (IndexerStep.start s (.tick d t) = d.rolledBack s.db t.chain ∧
        ((d.target s.db t.chain = none ∧ (d.runOnce s.db t).log = (d.rolledBack s.db t.chain).log ∧
            (d.runOnce s.db t).lastIndexedBlock = (d.rolledBack s.db t.chain).lastIndexedBlock) ∨
          ∃ target, d.target s.db t.chain = some target ∧ (d.runOnce s.db t).log =
              ((d.rangeWrites (d.rolledBack s.db t.chain) t.chain (d.fromBlock s.db t.chain) (target + 1)).foldl
                Write.exec (d.rolledBack s.db t.chain)).log ∧ (d.runOnce s.db t).lastIndexedBlock = some target)) := by
  have hrun : d.runOnce s.db t = match t.failsAfter with
      | some k => ((d.writes s.db t.chain).take k).foldl Write.exec s.db
      | none => { (d.writes s.db t.chain).foldl Write.exec s.db with
          runs := ((d.writes s.db t.chain).foldl Write.exec s.db).runs ++ [match d.target s.db t.chain with
            | some target => some target
            | none => d.lastIndexed s.db t.chain] } := rfl
  cases hfails : t.failsAfter with
  | some k =>
    left
    refine ⟨by simp, ?_⟩
    rw [hrun, hfails]
    simp only [IndexerStep.start, hfails, some.injEq]
    cases k with
    | zero => exact ⟨[], by simp, by simp⟩
    | succ k =>
      obtain ⟨rest, hadds, hwrites⟩ : ∃ rest, (∀ w ∈ rest, w.Adds t.chain) ∧
          d.writes s.db t.chain = (d.reorgRoot s.db t.chain).toList.map .rollback ++ rest := by
        cases htarget : d.target s.db t.chain with
        | none => exact ⟨[], by simp, by rw [writes_of_none htarget, append_nil]⟩
        | some target => exact ⟨_, fun w hw => adds_rangeWrites hw, writes_of_target htarget⟩
      rw [if_neg (by omega), hwrites, rolledBack]
      cases d.reorgRoot s.db t.chain with
      | none => exact ⟨rest.take (k + 1), fun w hw => hadds w (mem_of_mem_take hw), rfl⟩
      | some root => exact ⟨rest.take k, fun w hw => hadds w (mem_of_mem_take hw), rfl⟩
  | none =>
    right
    refine ⟨by simp [IndexerStep.start, hfails], ?_⟩
    simp only [hfails] at hrun
    cases htarget : d.target s.db t.chain with
    | none =>
      refine .inl ⟨rfl, ?_, ?_⟩
      · rw [hrun, writes_of_none htarget, foldl_rollback]
      · rw [writes_of_none htarget, foldl_rollback, htarget] at hrun
        rcases @lastIndexed_cases _ s.db t.chain d _ with hlast | hlast
        · rw [hrun]
          simp only [Db.lastIndexedBlock, hlast, filterMap_append]
          simp
        apply lastIndexedBlock_append_self
        rw [hrun]
        simp only [hlast]
    | some target =>
      refine .inr ⟨target, rfl, ?_, ?_⟩
      · rw [hrun, writes_of_target htarget, foldl_append, foldl_rollback]
      · rw [writes_of_target htarget, foldl_append, foldl_rollback, htarget] at hrun
        have hruns : (d.runOnce s.db t).runs = (d.rolledBack s.db t.chain).runs ++ [some target] := by
          rw [hrun]
          simp only
          rw [runs_foldl fun w hw => adds_rangeWrites hw]
        refine lastIndexedBlock_append ?_ _ hruns
        intro cursor hcursor
        have hfrom := (target_spec htarget).1
        have hnext : (d.rolledBack s.db t.chain).next = cursor + 1 := by simp [Db.next, hcursor]
        rw [fromBlock_eq, hnext] at hfrom
        omega

private theorem log_runOnce (s : IndexerState H) (d : Deployment H) (t : Tick) : ∃ ws : List (Write H),
    (∀ w ∈ ws, w.Adds t.chain) ∧
      (d.runOnce s.db t).log = (ws.foldl Write.exec (IndexerStep.start s (.tick d t))).log := by
  rcases runOnce_cases s d t with ⟨-, ws, hws, hrun⟩ | ⟨heq, ⟨-, hlog, -⟩ | ⟨target, -, hlog, -⟩⟩
  · exact ⟨ws, hws, congrArg Db.log hrun⟩
  · exact ⟨[], by simp, heq ▸ hlog⟩
  · exact ⟨_, fun w hw => adds_rangeWrites hw, heq ▸ hlog⟩

variable {s : IndexerState H} {st : IndexerStep H}

private theorem mem_of_mem_start (hr : r ∈ (st.start s).log.tables.events) : r ∈ s.db.log.tables.events := by
  cases st with
  | backfill d t => exact hr
  | tick d t =>
    simp only [IndexerStep.start] at hr
    split at hr
    · exact hr
    unfold rolledBack at hr
    split at hr
    · exact mem_of_mem_filter hr
    · exact hr

private theorem start_spec : (st.start s).next ≤ s.db.next ∧
    ∀ r ∈ s.db.log.tables.events, r.place.blockNumber < (st.start s).next → r ∈ (st.start s).log.tables.events := by
  have hsame : ∀ db : Db H, db = s.db → db.next ≤ s.db.next ∧
      ∀ r ∈ s.db.log.tables.events, r.place.blockNumber < db.next → r ∈ db.log.tables.events := by
    rintro db rfl
    exact ⟨le_rfl, fun r hr _ => hr⟩
  cases st with
  | backfill d t => exact hsame _ rfl
  | tick d t =>
    simp only [IndexerStep.start]
    split
    · exact hsame _ rfl
    unfold rolledBack
    cases hroot : d.reorgRoot s.db t.chain with
    | none => exact hsame _ rfl
    | some root =>
      obtain ⟨cursor, hcursor, hle⟩ := reorgRoot_le hroot
      have hnext : (s.db.deleteAboveBlock root).next = (root + 1).toNat := by
        rw [Db.next, lastIndexedBlock_deleteAboveBlock hcursor hle]
        split
        · simp only [map_none, getD_none]
          omega
        simp only [map_some, getD_some]
        omega
      have hbefore : s.db.next = cursor + 1 := by simp [Db.next, hcursor]
      simp only
      rw [hnext, hbefore]
      refine ⟨by omega, ?_⟩
      intro r hr hblock
      refine mem_filter.2 ⟨hr, ?_⟩
      rw [survives_eq _ r.hasBlockNumber, decide_eq_true_eq]
      omega

theorem logRowsOk_start (h : s.db.LogRowsOk s.chain) (hsynced : st.Synced s) : (st.start s).LogRowsOk st.chain := by
  constructor
  · intro r hr
    refine (h.rows r (mem_of_mem_start hr)).agree fun hadmin => ?_
    simp only [Chain.entriesAt, hsynced.2 r hr hadmin]
  · have hsublist : ((st.start s).log.tables.events).Sublist s.db.log.tables.events := by
      cases st with
      | backfill d t => exact .refl _
      | tick d t =>
        simp only [IndexerStep.start]
        split
        · exact .refl _
        unfold rolledBack
        split
        · exact filter_sublist
        · exact .refl _
    exact (hsublist.map EventRow.key).nodup h.nodup

private theorem mem_logs_of_synced (hsynced : st.Synced s) (hl : l ∈ st.chain.logs lo hi)
    (hblock : l.place.blockNumber < (st.start s).next) : l ∈ s.chain.logs lo hi := by
  rw [mem_logs] at hl ⊢
  refine ⟨hl.1, hl.2.1, ?_⟩
  rw [hsynced.1.entriesAt hblock]
  exact hl.2.2

private theorem Db.Covered.start (h : s.db.Covered s.chain a lo hi) (hsynced : st.Synced s) :
    (st.start s).Covered st.chain a lo hi := by
  intro l hl ha hevent hblock
  obtain ⟨hle, hkept⟩ := @start_spec _ _ s st
  obtain ⟨r, hr, hkey⟩ := h l (mem_logs_of_synced hsynced hl hblock) ha hevent (by omega)
  exact ⟨r, hkept r hr (by rwa [block_of_key hkey]), hkey⟩

private theorem Db.Covered.tick {floor : Nat} (h : (IndexerStep.start s (.tick d t)).Covered t.chain a floor hi)
    (hknows : d.KnowsProxy (IndexerStep.start s (.tick d t)) a)
    (hgap : d.deployFloor ≤ max (IndexerStep.start s (.tick d t)).next floor) :
    (d.runOnce s.db t).Covered t.chain a floor hi := by
  rcases runOnce_cases s d t with ⟨-, ws, hws, hrun⟩ | ⟨hstart, ⟨-, hlog, hcursor⟩ | ⟨target, htarget, hlog, hcursor⟩⟩
  · rw [hrun]
    exact h.foldl hws
  · rw [hstart] at h
    intro l hl ha hevent hblock
    have hnext : (d.runOnce s.db t).next = (d.rolledBack s.db t.chain).next := by rw [Db.next, hcursor, Db.next]
    rw [hnext] at hblock
    obtain ⟨r, hr, hkey⟩ := h l hl ha hevent hblock
    exact ⟨r, by rwa [hlog], hkey⟩
  rw [hstart] at h hknows hgap
  intro l hl ha hevent hblock
  simp only [Db.next, hcursor, map_some, getD_some] at hblock
  have hstored : (((d.rangeWrites (d.rolledBack s.db t.chain) t.chain (d.fromBlock s.db t.chain) (target + 1)).foldl
      Write.exec (d.rolledBack s.db t.chain))).HasKey (adminKey l.place) := by
    by_cases hbelow : l.place.blockNumber < (d.rolledBack s.db t.chain).next
    · exact (h l hl ha hevent hbelow).foldl fun w hw => adds_rangeWrites hw
    -- the range of the tick starts at the cursor, or at a floor that is not above the block
    have hrange : l ∈ t.chain.logs (d.fromBlock s.db t.chain) (target + 1) := by
      rw [mem_logs] at hl ⊢
      have hfrom : d.fromBlock s.db t.chain ≤ l.place.blockNumber := by
        rw [fromBlock_eq]
        omega
      exact ⟨hfrom, hblock, hl.2.2⟩
    obtain ⟨event, hevent⟩ := isSome_iff_exists.1 hevent
    subst ha
    obtain ⟨r, hr, hkey⟩ := event_of_rangeWrites hknows hrange hevent
    rw [← hkey]
    exact hasKey_of_mem (fun w hw => adds_rangeWrites hw) hr
  obtain ⟨r, hr, hkey⟩ := hstored
  exact ⟨r, by rwa [hlog], hkey⟩

private theorem logRowsOk_step (h : s.db.LogRowsOk s.chain) (hsynced : st.Synced s) :
    (s.step st).db.LogRowsOk (s.step st).chain := by
  have hstart := logRowsOk_start h hsynced
  cases st with
  | tick d t =>
    obtain ⟨ws, hws, hlog⟩ := log_runOnce s d t
    have hfold := hstart.foldl hws
    refine ⟨?_, ?_⟩ <;> simp only [step, hlog]
    · exact hfold.rows
    · exact hfold.nodup
  | backfill d t =>
    simp only [step, backfillProxyEvents]
    cases t.failsAfter with
    | some k => exact hstart.foldl fun w hw => adds_backfillPlan (mem_of_mem_take hw)
    | none => exact hstart.foldl fun w hw => adds_backfillPlan hw

theorem covered_step (h : ∀ pass, resumedPass s.progress = some pass → s.db.Covered s.chain a pass.floor pass.next)
    (hsynced : st.Synced s) (hknows : st.deployment.KnowsProxy (st.start s) a) (hgap : st.LeavesNoGap s) :
    ∀ pass, resumedPass (s.step st).progress = some pass →
      (s.step st).db.Covered (s.step st).chain a pass.floor pass.next := by
  cases st with
  | tick d t =>
    intro pass hpass
    apply ((h pass hpass).start hsynced).tick hknows
    exact hgap pass hpass
  | backfill d t =>
    have hstart : ∀ pass, resumedPass s.progress = some pass → s.db.Covered t.chain a pass.floor pass.next :=
      fun pass hpass => (h pass hpass).start hsynced
    simp only [step, backfillProxyEvents]
    cases t.failsAfter with
    | some k => exact fun pass hpass => (hstart pass hpass).foldl fun w hw => adds_backfillPlan (mem_of_mem_take hw)
    | none => exact (backs_backfillPlan hstart hknows).running

variable {cs : List (IndexerStep H)}

private theorem logRowsOk_run (h : Along call (fun s st => st.Synced s) .empty cs) :
    (run call .empty cs).db.LogRowsOk (run call .empty cs).chain := by
  refine Along.invariant (P := fun s => s.db.LogRowsOk s.chain) ?_ ⟨forall_mem_nil _, nodup_nil⟩ h
  rintro s st s' hok hsynced ⟨⟩
  exact logRowsOk_step hok hsynced

theorem covered_run (hok : s.db.LogRowsOk s.chain) (hnone : resumedPass s.progress = none) (h : Along call
      (fun s st => st.Synced s ∧ st.deployment.KnowsProxy (st.start s) a ∧ st.LeavesNoGap s) s cs) :
    (run call s cs).db.LogRowsOk (run call s cs).chain ∧
      ∀ pass, resumedPass (run call s cs).progress = some pass →
        (run call s cs).db.Covered (run call s cs).chain a pass.floor pass.next := by
  have hstart : ∀ pass, resumedPass s.progress = some pass → s.db.Covered s.chain a pass.floor pass.next := by
    intro pass hpass
    rw [hnone] at hpass
    cases hpass
  refine Along.invariant (P := fun s => s.db.LogRowsOk s.chain ∧
    ∀ pass, resumedPass s.progress = some pass → s.db.Covered s.chain a pass.floor pass.next) ?_ ⟨hok, hstart⟩ h
  rintro s st s' ⟨hok, hcovered⟩ ⟨hsynced, hknows, hgap⟩ ⟨⟩
  exact ⟨logRowsOk_step hok hsynced, covered_step hcovered hsynced hknows hgap⟩

/-- A pass covers its range, if the chain that is served does not change below what is there, and no tick leaves a gap
below the checkpoint.  No call of the backfill stores an event above the cursor. -/
theorem proxy_backfill_covers (pre mid : List (IndexerStep H)) (d : Deployment H) (c : Chain) (a : Address)
    (hpre : Along call (fun s st => st.Synced s) .empty pre)
    (hnone : resumedPass (run call .empty pre).progress = none)
    (hpass : Along call
      (fun s st => st.Synced s ∧ st.deployment.KnowsProxy (st.start s) a ∧ st.LeavesNoGap s)
      (run call .empty pre) (mid ++ [.backfill d ⟨c, none⟩])) :
    (run call .empty (pre ++ (mid ++ [.backfill d ⟨c, none⟩]))).Covers a ∧
      ∀ (s : IndexerState H) (d : Deployment H) (t : Tick), ∀ r ∈ (s.step (.backfill d t)).db.log.tables.events,
        s.db.HasKey r.key ∨ ∃ cursor, s.db.lastIndexedBlock = some cursor ∧ r.place.blockNumber ≤ cursor := by
  refine ⟨?_, fun s d t r hr => block_le_of_backfill hr⟩
  rw [along_append] at hpass
  obtain ⟨hmid, ⟨hsynced, hknows, -⟩, -⟩ := hpass
  rw [run_append, run_append]
  simp only [run_cons, run_nil]
  obtain ⟨hok, hcovered⟩ := covered_run (logRowsOk_run hpre) hnone hmid
  have hbacks := backs_backfillPlan (fun pass hpass => (hcovered pass hpass).start hsynced) hknows
  intro p floor target cursor hp hdone hfloor htarget hcursor l hl ha event hevent
  obtain rfl := some.inj hp
  obtain ⟨hlo, hhi, hentry⟩ := mem_logs.1 hl
  have hnext : ∀ db : Db H, db.lastIndexedBlock = some cursor → l.place.blockNumber < db.next := by
    intro db hdb
    simp only [Db.next, hdb, map_some, getD_some]
    omega
  have hkey := hbacks.done hdone floor target hfloor htarget l (mem_logs.2 ⟨hlo, by omega, hentry⟩) ha
    (by simp [hevent])
    (hnext _ hcursor)
  exact storedOnce_of_hasKey (logRowsOk_step hok hsynced) hentry hevent hkey

end Tick

def backfillProcess (span floor : Nat) : Deployment Chain :=
  ⟨⟨none, 1, none, none, none, none, none, none, span, none, false⟩, floor, id, fun _ _ h => h, fun _ => none⟩

def upgradedChain (timestamp : Nat) (upgrades : List (Nat × Address)) : Chain :=
  (range 40).map fun n =>
    ⟨timestamp + n, (upgrades.filter fun p => p.1 = n).map fun p => ⟨1, 7, some (.upgraded p.2)⟩, []⟩

def tickOf (floor : Nat) (c : Chain) (failsAfter : Option Nat) : IndexerStep Chain :=
  .tick (backfillProcess 1000 floor) ⟨c, failsAfter⟩

def callOf (floor : Nat) (c : Chain) (failsAfter : Option Nat) : IndexerStep Chain :=
  .backfill (backfillProcess 1 floor) ⟨c, failsAfter⟩

def upgradedEvent (implementation : Address) : AdminEvent :=
  ⟨.proxy, "Upgraded", none, [("implementation", .address implementation)], false⟩

theorem proxy_backfill_covers_of_restart :
    (run call .empty
      [tickOf 0 (upgradedChain 0 [(30, 5)]) none, callOf 0 (upgradedChain 0 [(30, 5)]) (some 0),
        callOf 0 (upgradedChain 0 [(30, 5)]) none, tickOf 10 (upgradedChain 0 [(30, 5)]) (some 1),
        callOf 10 (upgradedChain 0 [(30, 5)]) none]).db.StoredOnce ⟨1, ⟨30, 0, 7⟩, .upgraded 5⟩ (upgradedEvent 5) :=
  (proxy_backfill_covers [tickOf 0 (upgradedChain 0 [(30, 5)]) none]
    [callOf 0 (upgradedChain 0 [(30, 5)]) (some 0), callOf 0 (upgradedChain 0 [(30, 5)]) none,
      tickOf 10 (upgradedChain 0 [(30, 5)]) (some 1)]
    (backfillProcess 1 10) (upgradedChain 0 [(30, 5)]) 1 (by decide +kernel) (by decide +kernel) (by decide +kernel)).1
    (backfillState .done (some 0) (some 34) none none) 0 34 34 (by decide +kernel) rfl (by decide +kernel)
    (by decide +kernel) (by decide +kernel) ⟨1, ⟨30, 0, 7⟩, .upgraded 5⟩ (by decide +kernel) rfl (upgradedEvent 5) rfl

private theorem not_covers {s : IndexerState Chain} (n : Nat) (implementation : Address)
    (hp : s.progress = some (backfillState .done (some 0) (some 34) none none))
    (hcursor : s.db.lastIndexedBlock = some 34)
    (hl : (⟨1, ⟨n, 0, 7⟩, .upgraded implementation⟩ : LogEntry) ∈ s.chain.logs 0 35)
    (hstored : ∀ deployment, s.db.log.tables.events.filter (fun r => decide (r.key = adminKey ⟨n, 0, 7⟩)) ≠
      [.admin ⟨n, 0, 7⟩ 1 { upgradedEvent implementation with deployment := deployment }]) : ¬ s.Covers 1 := by
  intro h
  obtain ⟨deployment, hfilter⟩ := h _ 0 34 34 hp rfl (by decide) (by decide) hcursor _ hl rfl _ rfl
  exact hstored deployment hfilter

def raisedFloor : List (IndexerStep Chain) :=
  [tickOf 0 (upgradedChain 0 []) none, callOf 0 (upgradedChain 0 []) none,
    tickOf 0 (upgradedChain 1 [(3, 5)]) (some 1), tickOf 10 (upgradedChain 1 [(3, 5)]) none,
    callOf 10 (upgradedChain 1 [(3, 5)]) none]

def unseenReorg : List (IndexerStep Chain) :=
  [tickOf 0 (upgradedChain 0 []) none, callOf 0 (upgradedChain 0 []) none, callOf 0 (upgradedChain 1 [(3, 5)]) none]

def staleRow : List (IndexerStep Chain) :=
  [tickOf 0 (upgradedChain 0 [(3, 5)]) (some 3), tickOf 0 (upgradedChain 1 [(3, 6)]) none,
    callOf 0 (upgradedChain 1 [(3, 6)]) none, callOf 0 (upgradedChain 1 [(3, 6)]) none]

/-- In these runs the proxy is known all along, and the pass does not cover its range. -/
theorem not_proxy_backfill_covers :
    (Along call (fun s st => st.deployment.KnowsProxy (st.start s) 1) .empty raisedFloor ∧
      ¬ (run call .empty raisedFloor).Covers 1) ∧
    (Along call (fun s st => st.deployment.KnowsProxy (st.start s) 1) .empty unseenReorg ∧
      ¬ (run call .empty unseenReorg).Covers 1) ∧
    Along call (fun s st => st.deployment.KnowsProxy (st.start s) 1) .empty staleRow ∧
      ¬ (run call .empty staleRow).Covers 1 := by
  refine ⟨⟨by decide +kernel, not_covers 3 5 ?_ ?_ ?_ ?_⟩, ⟨by decide +kernel, not_covers 3 5 ?_ ?_ ?_ ?_⟩,
    by decide +kernel, not_covers 3 6 ?_ ?_ ?_ ?_⟩
  all_goals decide +kernel

end RobotMoney.Indexer
