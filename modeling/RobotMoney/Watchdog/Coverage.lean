import RobotMoney.Watchdog.Delivery

/-!
# Every block is evaluated

The watchdog and the indexer each keep a cursor over the same tables.  As long as no rollback goes below the cursor of
the watchdog, nor below a block while it is read, the rows of the blocks up to the cursor stay as they were read, and
every block from the first one on is covered (`blocks_covered`).  The cursor of the watchdog is not rolled back with the
rows: after a deeper rollback it stands on blocks that were read with other rows (`blocks_not_covered`).
-/

open Effect

namespace RobotMoney.Watchdog

open Evm Indexer SqlTable List Function Option

variable {H : Type}

/-- The deposit and withdrawal rows of a block: those of the gateway, the router and the vaults. -/
def rowsAt (t : Tables) (b : Nat) : List (List SourceRow) :=
  [agentDeposits t, routerDepositLegs t, vaultTransferEvents .deposit t, vaultTransferEvents .withdrawal t].map
    (List.filter (atBlock b))

section Source

variable {ρ κ : Type} [DecidableEq κ] {key : ρ → κ} {f : ρ → Option SourceRow} {row : ρ} {rows : List ρ} {b : Nat}

private theorem filter_filterMap_insertNew (h : ∀ r, f row = some r → r.blockNumber ≠ b) :
    ((insertNew key row rows).filterMap f).filter (atBlock b) = (rows.filterMap f).filter (atBlock b) := by
  obtain ⟨hsame, -⟩ | ⟨hnew, -⟩ := insertNew_cases key row rows
  · rw [hsame]
  rw [hnew, filterMap_append, filter_append]
  cases hrow : f row with
  | none => simp [hrow]
  | some r => simp [hrow, atBlock, h r hrow]

omit [DecidableEq κ] in
private theorem filter_filterMap_filter {p : ρ → Bool} (h : ∀ x r, f x = some r → r.blockNumber = b → p x = true) :
    ((rows.filter p).filterMap f).filter (atBlock b) = (rows.filterMap f).filter (atBlock b) := by
  induction rows with
  | nil => rfl
  | cons x rest ih =>
    cases hp : p x with
    | true => cases hx : f x <;> simp [filter_cons, hp, hx, ih]
    | false =>
      cases hx : f x with
      | none => simpa [filter_cons, hp, hx] using ih
      | some r =>
        have hne : r.blockNumber ≠ b := by
          intro heq
          rw [h x r hx heq] at hp
          cases hp
        simpa [filter_cons, hp, hx, atBlock, hne] using ih

end Source

private theorem filterMap_markDeployment {f : EventRow → Option SourceRow} (hadmin : ∀ p c e, f (.admin p c e) = none)
    (place : LogPlace) (events : List EventRow) : (events.map (markDeployment place)).filterMap f =
      events.filterMap f := by
  rw [filterMap_map]
  congr 1
  funext row
  cases row with
  | admin p c e =>
    simp only [comp, markDeployment]
    split <;> simp only [hadmin]
  | _ => rfl

section Rows

variable {b : Nat}

private theorem block_of_agentDeposit {x : DepositRow} {r : SourceRow}
    (h : (x.vault.map fun vault => (⟨x.place.blockNumber, x.place.txHash, vault, x.amount⟩ : SourceRow)) = some r) :
    r.blockNumber = x.place.blockNumber := by
  obtain ⟨vault, -, rfl⟩ := map_eq_some_iff.mp h
  rfl

theorem rowsAt_execTables {st : Statement} (h : st.blockNumber ≠ b) (timestampOf : Nat → Option Int) (t : Tables) :
    rowsAt (st.execTables timestampOf t) b = rowsAt t b := by
  simp only [rowsAt, map_cons, map_nil, agentDeposits, routerDepositLegs, vaultTransferEvents]
  cases st with
  | event row =>
    simp only [Statement.execTables]
    rw [filter_filterMap_insertNew, filter_filterMap_insertNew, filter_filterMap_insertNew]
    all_goals
      intro r hr
      cases row <;> simp only [ite_none_right_eq_some, some.injEq, reduceCtorEq] at hr
      first
      | exact hr.2 ▸ h
      | exact hr ▸ h
  | markProxyDeployment place =>
    simp only [Statement.execTables]
    rw [filterMap_markDeployment fun _ _ _ => rfl, filterMap_markDeployment fun _ _ _ => rfl,
      filterMap_markDeployment fun _ _ _ => rfl]
  | agentDeposit row =>
    simp only [Statement.execTables, insertAgentDeposit]
    rw [filter_filterMap_insertNew]
    intro r hr
    rw [block_of_agentDeposit hr]
    exact h
  | _ => rfl

private theorem rowsAt_deleteAboveBlock {root : Int} (h : (b : Int) ≤ root) (t : Tables) :
    rowsAt (t.deleteAboveBlock root) b = rowsAt t b := by
  have hsurvives : ∀ {table : TableName} {n : Nat}, n = b → survives root table n = true := by
    rintro table n rfl
    simp [survives, h]
  simp only [rowsAt, map_cons, map_nil, agentDeposits, routerDepositLegs, vaultTransferEvents, Tables.deleteAboveBlock]
  rw [filter_filterMap_filter, filter_filterMap_filter, filter_filterMap_filter, filter_filterMap_filter]
  · intro x r hr hblock
    cases x <;> simp only [ite_none_right_eq_some, some.injEq, reduceCtorEq] at hr
    obtain ⟨-, rfl⟩ := hr
    exact hsurvives hblock
  · intro x r hr hblock
    cases x <;> simp only [ite_none_right_eq_some, some.injEq, reduceCtorEq] at hr
    obtain ⟨-, rfl⟩ := hr
    exact hsurvives hblock
  · intro x r hr hblock
    cases x <;> simp only [some.injEq, reduceCtorEq] at hr
    subst hr
    exact hsurvives hblock
  · intro x r hr hblock
    exact hsurvives ((block_of_agentDeposit hr).symm.trans hblock)

end Rows

def HeadLe (db : Db H) (k : Int) : Prop := ∀ n, some n ∈ db.runs → (n : Int) ≤ k

def isIndexed (db : Db H) (b : Nat) : Bool := db.lastIndexedBlock.any fun head => decide (b ≤ head)

/-- What a tick has yet to write is above the head, which a rollback of the tick lowers first, and the head that it
records is not below the one before. -/
def PendingAbove (k : Int) : List (Write H) → Option Nat → Prop
  | [], head => ∀ n, head = some n → k ≤ n
  | .rollback root :: rest, head => PendingAbove (min k root) rest head
  | .statement st :: rest, head => k < st.blockNumber ∧ PendingAbove k rest head
  | .ledger _ :: rest, head => PendingAbove k rest head
  | .header _ :: rest, head => PendingAbove k rest head

section Writes

variable {db : Db H} {k : Int} {b : Nat}

private theorem isIndexed_iff : isIndexed db b = true ↔ ∃ n, some n ∈ db.runs ∧ b ≤ n := by
  unfold isIndexed
  cases hlast : db.lastIndexedBlock with
  | none =>
    rw [Db.lastIndexedBlock, max?_eq_none_iff, filterMap_eq_nil_iff] at hlast
    simp only [any_none, Bool.false_eq_true, false_iff, not_exists, not_and]
    intro n hn
    exact absurd (hlast _ hn) (by simp)
  | some head =>
    obtain ⟨hmem, hmax⟩ := max?_eq_some_iff.1 hlast
    simp only [any_some, decide_eq_true_eq]
    constructor
    · intro hle
      exact ⟨head, by simpa using hmem, hle⟩
    · rintro ⟨n, hn, hle⟩
      exact Nat.le_trans hle (hmax n (by simpa using hn))

private theorem isIndexed_mono {b' : Nat} (h : isIndexed db b = true) (hle : b' ≤ b) : isIndexed db b' = true := by
  obtain ⟨n, hn, hb⟩ := isIndexed_iff.mp h
  exact isIndexed_iff.mpr ⟨n, hn, Nat.le_trans hle hb⟩

private theorem lt_of_isIndexed (h : isIndexed db b = true) (hhead : HeadLe db k) {n : Nat} (hk : k < n) : b < n := by
  obtain ⟨m, hm, hb⟩ := isIndexed_iff.mp h
  have := hhead m hm
  omega

private theorem capRun_eq_some {root : Int} {run : Option Nat} {n : Nat} (h : capRun root run = some n) :
    (n : Int) ≤ root ∧ ∃ m, run = some m ∧ n ≤ m := by
  unfold capRun at h
  split at h
  · rename_i m
    split at h
    · split at h
      · cases h
      cases h
      exact ⟨by omega, m, rfl, by omega⟩
    cases h
    exact ⟨by omega, n, rfl, le_refl _⟩
  · cases h

private theorem isIndexed_deleteAboveBlock {root : Int} (h : isIndexed db b = true) (hroot : (b : Int) ≤ root) :
    isIndexed (db.deleteAboveBlock root) b = true := by
  obtain ⟨n, hn, hb⟩ := isIndexed_iff.mp h
  refine isIndexed_iff.mpr ?_
  by_cases hcap : root < n
  · refine ⟨root.toNat, mem_map.mpr ⟨some n, hn, ?_⟩, by omega⟩
    simp only [capRun, hcap, ↓reduceIte]
    rw [if_neg (by omega)]
  refine ⟨n, mem_map.mpr ⟨some n, hn, ?_⟩, hb⟩
  simp only [capRun, hcap, ↓reduceIte]

variable {rest : List (Write H)} {head : Option Nat}

private theorem PendingAbove.exec {write : Write H} (hhead : HeadLe db k)
    (h : PendingAbove k (write :: rest) head) : ∃ k', HeadLe (write.exec db) k' ∧ PendingAbove k' rest head := by
  cases write with
  | rollback root =>
    refine ⟨_, ?_, h⟩
    intro n hn
    obtain ⟨run, hrun, hcap⟩ := mem_map.mp hn
    obtain ⟨hroot, m, rfl, hle⟩ := capRun_eq_some hcap
    have := hhead m hrun
    omega
  | statement st => exact ⟨k, hhead, h.2⟩
  | ledger row => exact ⟨k, hhead, h⟩
  | header row => exact ⟨k, hhead, h⟩

private theorem rowsAt_exec {write : Write H} (hhead : HeadLe db k)
    (h : PendingAbove k (write :: rest) head) (hroot : ∀ root, write = .rollback root → (b : Int) ≤ root)
    (hindexed : isIndexed db b = true) :
    isIndexed (write.exec db) b = true ∧ rowsAt (write.exec db).log.tables b = rowsAt db.log.tables b := by
  cases write with
  | rollback root =>
    exact ⟨isIndexed_deleteAboveBlock hindexed (hroot root rfl), rowsAt_deleteAboveBlock (hroot root rfl) _⟩
  | statement st =>
    have hlt := lt_of_isIndexed hindexed hhead h.1
    exact ⟨hindexed, rowsAt_execTables (by omega) _ _⟩
  | ledger row => exact ⟨hindexed, rfl⟩
  | header row => exact ⟨hindexed, rfl⟩

private theorem pendingAbove_range {ledgers : List LedgerRow} {headers : List (HeaderRow H)} {sts : List Statement}
    (hsts : ∀ st ∈ sts, k < st.blockNumber) (hhead : ∀ n, head = some n → k ≤ n) :
    PendingAbove k (ledgers.map .ledger ++ headers.map .header ++ sts.map .statement) head := by
  have hstatements : PendingAbove k (sts.map Write.statement : List (Write H)) head := by
    induction sts with
    | nil => exact hhead
    | cons st rest ih => exact ⟨hsts st mem_cons_self, ih fun x hx => hsts x (mem_cons_of_mem _ hx)⟩
  have hheaders : PendingAbove k (headers.map Write.header ++ sts.map Write.statement) head := by
    induction headers with
    | nil => exact hstatements
    | cons row rest ih => exact ih
  rw [append_assoc]
  induction ledgers with
  | nil => exact hheaders
  | cons row rest ih => exact ih

end Writes

section Begin

variable (d : Indexer.Deployment H) [DecidableEq H] {c : Chain}

omit [DecidableEq H] in
private theorem block_of_mem_statements {db : Db H} {lo hi : Nat} {st : Statement} (h : st ∈ d.statements db c lo hi) :
    lo ≤ st.blockNumber := by
  obtain ⟨l, hl, hst⟩ := mem_flatMap.mp h
  rw [(statement_of_handleLog hst).block]
  exact (mem_logs.mp (Indexer.Deployment.RangeOk.mem_logs_of_tickLogs hl)).1

private theorem lt_fromBlock {db : Db H} {k : Int} (hk : ∀ n, db.lastIndexedBlock = some n → k = n)
    (hnone : db.lastIndexedBlock = none → k = -1) :
    (∀ root, d.reorgRoot db c = some root → min k root < d.fromBlock db c) ∧
      (d.reorgRoot db c = none → k < d.fromBlock db c) := by
  constructor
  · intro root hroot
    simp only [Indexer.Deployment.fromBlock, Indexer.Deployment.lastIndexed, hroot, firstBlock]
    split
    · omega
    simp only [map_some, getD_some]
    omega
  · intro hroot
    simp only [Indexer.Deployment.fromBlock, Indexer.Deployment.lastIndexed, hroot, firstBlock, resolveCursorStart]
    cases hlast : db.lastIndexedBlock with
    | none =>
      have := hnone hlast
      simp only [map_none, getD_none]
      omega
    | some n =>
      have := hk n hlast
      dsimp only
      split
      · simp only [map_none, getD_none]
        omega
      simp only [map_some, getD_some]
      omega

private theorem le_recorded {db : Db H} {k : Int} (hfrom : k < d.fromBlock db c)
    (hlast : ∀ n, d.lastIndexed db c = some n → k ≤ n) : ∀ n, recorded d db c = some n → k ≤ n := by
  intro n hn
  unfold recorded at hn
  split at hn
  · rename_i target htarget
    cases hn
    have := (target_spec htarget).1
    omega
  · exact hlast n hn

/-- A tick starts above the head. -/
theorem pendingAbove_writes (db : Db H) (c : Chain) :
    ∃ k, HeadLe db k ∧ PendingAbove k (d.writes db c) (recorded d db c) := by
  obtain ⟨k, hsome, hnone⟩ : ∃ k : Int, (∀ n, db.lastIndexedBlock = some n → k = n) ∧
      (db.lastIndexedBlock = none → k = -1) := by
    cases db.lastIndexedBlock with
    | none => exact ⟨-1, by simp, by simp⟩
    | some n => exact ⟨n, by simp, by simp⟩
  have hhead : HeadLe db k := by
    intro n hn
    cases hlast : db.lastIndexedBlock with
    | none =>
      rw [Db.lastIndexedBlock, max?_eq_none_iff, filterMap_eq_nil_iff] at hlast
      exact absurd (hlast _ hn) (by simp)
    | some head =>
      have hle := (max?_eq_some_iff.1 hlast).2 n (by simpa using hn)
      rw [hsome head hlast]
      omega
  -- The writes of the range, above whatever bound the tick has by then.
  have hrange : ∀ k' : Int, k' < d.fromBlock db c → (∀ n, d.lastIndexed db c = some n → k' ≤ n) →
      ∀ writes : List (Write H), writes = [] ∨
        (∃ target, writes = d.rangeWrites (d.rolledBack db c) c (d.fromBlock db c) (target + 1)) →
      PendingAbove k' writes (recorded d db c) := by
    intro k' hfrom hlast writes hwrites
    have hrecorded := le_recorded d hfrom hlast
    rcases hwrites with rfl | ⟨target, rfl⟩
    · exact hrecorded
    refine pendingAbove_range ?_ hrecorded
    intro st hst
    have := block_of_mem_statements d hst
    omega
  have hwrites : ∀ writes, writes = (d.writes db c).drop (d.reorgRoot db c).toList.length → writes = [] ∨
      ∃ target, writes = d.rangeWrites (d.rolledBack db c) c (d.fromBlock db c) (target + 1) := by
    rintro writes rfl
    unfold Indexer.Deployment.writes
    rw [drop_left' (by simp)]
    split
    · exact .inr ⟨_, rfl⟩
    · exact .inl rfl
  obtain ⟨hroll, hplain⟩ := lt_fromBlock (c := c) d hsome hnone
  refine ⟨k, hhead, ?_⟩
  unfold Indexer.Deployment.writes
  cases hroot : d.reorgRoot db c with
  | some root =>
    refine hrange _ (hroll root hroot) ?_ _ (hwrites _ (by simp [Indexer.Deployment.writes, hroot]))
    intro n hn
    simp only [Indexer.Deployment.lastIndexed, hroot] at hn
    split at hn
    · cases hn
    cases hn
    omega
  | none =>
    refine hrange _ (hplain hroot) ?_ _ (hwrites _ (by simp [Indexer.Deployment.writes, hroot]))
    intro n hn
    simp only [Indexer.Deployment.lastIndexed, hroot, resolveCursorStart] at hn
    cases hlast : db.lastIndexedBlock with
    | none => simp [hlast] at hn
    | some m =>
      simp only [hlast, ite_none_left_eq_some, some.injEq] at hn
      rw [hsome m hlast, hn.2]

theorem index_eq_runOnce (s : State H) (c : Chain) :
    (∀ k ≤ (d.writes s.db c).length, (State.index^[k] (s.interfere d (.begin c))).db = d.runOnce s.db ⟨c, some k⟩) ∧
      (State.index^[(d.writes s.db c).length + 1] (s.interfere d (.begin c))).db = d.runOnce s.db ⟨c, none⟩ := by
  have hsteps : ∀ (ws : List (Write H)) (head : Option Nat) (s : State H), s.pending = some (ws, head) →
    ∀ k ≤ ws.length,
      (State.index^[k] s).db = (ws.take k).foldl Write.exec s.db ∧
          (State.index^[k] s).pending = some (ws.drop k, head) := by
    intro ws
    induction ws with
    | nil =>
      intro head s hpending k hk
      obtain rfl : k = 0 := by simpa using hk
      exact ⟨rfl, hpending⟩
    | cons write rest ih =>
      intro head s hpending k hk
      cases k with
      | zero => exact ⟨rfl, hpending⟩
      | succ k =>
        have hindex : s.index = { s with db := write.exec s.db, pending := some (rest, head) } := by
          simp only [State.index, hpending]
        rw [iterate_succ_apply, hindex]
        exact ih head { s with db := write.exec s.db, pending := some (rest, head) } rfl k (by simpa using hk)
  constructor
  · intro k hk
    exact (hsteps _ _ (s.interfere d (.begin c)) rfl k hk).1
  · obtain ⟨hdb, hpending⟩ := hsteps _ _ (s.interfere d (.begin c)) rfl _ (le_refl (d.writes s.db c).length)
    rw [iterate_succ_apply', State.index, hpending, drop_length]
    dsimp only
    rw [hdb, take_length]
    rfl

end Begin

def Exchange.isRead (x : Exchange H) (b : Nat) (check : Check) : Bool :=
  match x.request with
  | .volume b' _ check' => decide (x.reply.outcome = .ok ∧ b' = b ∧ check' = check)
  | _ => false

section Coverage

variable (cfg : Config)

def evaluatedBlocks (log : List (Exchange H)) : List Nat :=
  (log.filterMap fun x => match x.request with
    | .volume b _ _ => some b
    | _ => none).filter fun b => cfg.checks.all fun check => log.any fun x => x.isRead b check

def Evaluated (w : World H) (b : Nat) : Prop :=
  ∀ check ∈ cfg.checks, ∃ x ∈ w.log, x.isRead b check = true ∧
    rowsAt x.state.db.log.tables b = rowsAt w.state.db.log.tables b

def Covered (w : World H) : Prop :=
  ∀ c, w.state.cursor = some c → ∀ first ∈ evaluatedBlocks cfg w.log, ∀ b, first ≤ b → b ≤ c → Evaluated cfg w b

/-- A refresh of the heartbeat finds every block covered, up to the head that the poll has read or up to the allowed lag
behind the indexed head. -/
def Beat (x : Exchange H) (older : List (Exchange H)) : Prop :=
  (x.after cfg).heartbeats ≠ x.state.heartbeats → Covered cfg ⟨x.after cfg, x :: older⟩ ∧
    ∃ c, (x.after cfg).cursor = some c ∧ ((∃ head, x.state.polled = some head ∧ head ≤ c) ∨
      ∀ head, x.state.db.lastIndexedBlock = some head → (head : Int) ≤ c + cfg.indexerLag.maxCursorLagBlocks)

/-- A rollback to this root goes below neither the cursor nor the block that is read. -/
def State.keeps (s : State H) (root : Int) : Bool :=
  s.cursor.all (fun c : Nat => decide ((c : Int) ≤ root)) && s.current.all fun b : Nat => decide ((b : Int) ≤ root)

def State.eventOk (s : State H) : Interference → Bool
  | .index =>
    match s.pending with
    | some (.rollback root :: _, _) => s.keeps root
    | _ => true
  | _ => true

def World.replyOk (w : World H) (r : Reply) : Request → Bool
  | .volume b _ _ => decide (r.outcome ≠ .ok) || isIndexed w.state.db b
  | .latestIndexedBlock =>
    decide (r.outcome ≠ .ok) || w.state.cursor.isSome ||
      w.state.db.lastIndexedBlock.all fun head => (evaluatedBlocks cfg w.log).all fun b => decide (head ≤ b)
  | _ => true

/-- Runs in which no rollback goes below the cursor or below a block while it is read, a block is read only when it is
indexed, and a poll without a cursor starts no later than a block that was evaluated: as long as there is no cursor,
nothing says whether the rows of that block stay as they were read. -/
def steady : Rely Request (World H) Reply Interference where
  event w e := w.state.eventOk e = true
  reply w q r := w.replyOk cfg r q = true

instance decidableSteadyEvent (w : World H) (e : Interference) : Decidable ((steady cfg).event w e) :=
  inferInstanceAs (Decidable (w.state.eventOk e = true))

instance decidableSteadyReply (w : World H) (q : Request) (r : Reply) : Decidable ((steady cfg).reply w q r) :=
  inferInstanceAs (Decidable (w.replyOk cfg r q = true))

/-- What holds along every such run. -/
structure Cover (w : World H) : Prop where
  pending : ∀ ws head, w.state.pending = some (ws, head) → ∃ k, HeadLe w.state.db k ∧ PendingAbove k ws head
  sorted : (w.state.db.runs.filterMap id).Pairwise (· ≤ ·)
  cursor : ∀ c, w.state.cursor = some c → isIndexed w.state.db c = true ∧ Evaluated cfg w c
  /-- What the running cycle has read is still there. -/
  cycle : ∀ b, w.state.current = some b → ∀ x ∈ sinceStart w.log, ∀ check, x.isRead b check = true →
    isIndexed w.state.db b = true ∧ rowsAt x.state.db.log.tables b = rowsAt w.state.db.log.tables b
  current : ∀ b c, w.state.current = some b → w.state.cursor = some c → c ≤ b
  first : w.state.cursor = none → ∀ b, w.state.current = some b → w.state.polled = some b
  polled : w.state.cursor = none → ∀ head, w.state.polled = some head → ∀ b ∈ evaluatedBlocks cfg w.log, head ≤ b
  covered : Covered cfg w

end Coverage

section Coverage

variable {cfg : Config} {w : World H} {x : Exchange H}

theorem isRead_iff {b : Nat} {check : Check} : x.isRead b check = true ↔ ∃ now, x.Did (.volume b now check) := by
  unfold Exchange.isRead Exchange.Did
  split
  · rename_i b' now check' hrequest
    rw [decide_eq_true_eq, hrequest]
    constructor
    · rintro ⟨hok, rfl, rfl⟩
      exact ⟨now, rfl, hok⟩
    · rintro ⟨now', heq, hok⟩
      cases heq
      exact ⟨hok, rfl, rfl⟩
  rename_i hother
  constructor
  · intro h
    cases h
  · rintro ⟨now, hrequest, -⟩
    exact absurd hrequest (hother b now check)

private theorem checks_ne_nil (cfg : Config) : cfg.checks ≠ [] := by
  simp [Config.checks, Config.globalChecks, checksOf]

variable {log : List (Exchange H)}

private theorem mem_evaluatedBlocks {b : Nat} :
    b ∈ evaluatedBlocks cfg log ↔ ∀ check ∈ cfg.checks, ∃ x ∈ log, x.isRead b check = true := by
  unfold evaluatedBlocks
  rw [List.mem_filter, List.all_eq_true]
  simp only [List.any_eq_true]
  refine and_iff_right_of_imp fun hall => ?_
  obtain ⟨check, hcheck⟩ := List.exists_mem_of_ne_nil _ (checks_ne_nil cfg)
  obtain ⟨x, hx, hread⟩ := hall check hcheck
  obtain ⟨now, hrequest, -⟩ := isRead_iff.mp hread
  exact List.mem_filterMap.mpr ⟨x, hx, by rw [hrequest]⟩

private theorem evaluatedBlocks_of_cons (hx : ∀ b check, x.isRead b check = false) {b : Nat}
    (hb : b ∈ evaluatedBlocks cfg (x :: log)) : b ∈ evaluatedBlocks cfg log := by
  refine mem_evaluatedBlocks.mpr fun check hcheck => ?_
  obtain ⟨y, hy, hread⟩ := mem_evaluatedBlocks.mp hb check hcheck
  obtain rfl | hy := mem_cons.mp hy
  · rw [hx] at hread
    cases hread
  · exact ⟨y, hy, hread⟩

private theorem Evaluated.cons {w' : World H} {b : Nat} (h : Evaluated cfg w b) (hlog : w'.log = x :: w.log)
    (hdb : w'.state.db = w.state.db) : Evaluated cfg w' b := by
  intro check hcheck
  obtain ⟨y, hy, hread, hrows⟩ := h check hcheck
  rw [hlog, hdb]
  exact ⟨y, mem_cons_of_mem _ hy, hread, hrows⟩

private theorem sorted_capRun {runs : List (Option Nat)} (root : Int) (h : (runs.filterMap id).Pairwise (· ≤ ·)) :
    ((runs.map (capRun root)).filterMap id).Pairwise (· ≤ ·) := by
  rw [filterMap_map, pairwise_filterMap]
  rw [pairwise_filterMap] at h
  refine h.imp ?_
  intro a a' hle n hn n' hn'
  simp only [comp, id] at hn hn'
  cases a with
  | none => cases hn
  | some m =>
    cases a' with
    | none => cases hn'
    | some m' =>
      have := hle m rfl m' rfl
      simp only [capRun] at hn hn'
      split at hn <;> split at hn' <;> (try split at hn) <;> (try split at hn') <;> cases hn <;> cases hn' <;> omega

private theorem Cover.of_db (h : Cover cfg w) {db : Db H} {pending : Option (List (Write H) × Option Nat)}
    (hpending : ∀ ws head, pending = some (ws, head) → ∃ k, HeadLe db k ∧ PendingAbove k ws head)
    (hsorted : (db.runs.filterMap id).Pairwise (· ≤ ·))
    (hrows : ∀ b, isIndexed w.state.db b = true → (∃ c, w.state.cursor = some c ∧ b ≤ c) ∨ w.state.current = some b →
      isIndexed db b = true ∧ rowsAt db.log.tables b = rowsAt w.state.db.log.tables b) :
    Cover cfg ⟨{ w.state with db := db, pending := pending }, w.log⟩ := by
  have hevaluated : ∀ c, w.state.cursor = some c → ∀ b, b ≤ c → Evaluated cfg w b →
      Evaluated cfg ⟨{ w.state with db := db, pending := pending }, w.log⟩ b := by
    intro c hc b hb hold check hcheck
    obtain ⟨x, hx, hread, heq⟩ := hold check hcheck
    have hindexed := isIndexed_mono (h.cursor c hc).1 hb
    exact ⟨x, hx, hread, heq.trans (hrows b hindexed (.inl ⟨c, hc, hb⟩)).2.symm⟩
  refine ⟨hpending, hsorted, ?_, ?_, h.current, h.first, h.polled, ?_⟩
  · intro c hc
    obtain ⟨hindexed, hold⟩ := h.cursor c hc
    exact ⟨(hrows c hindexed (.inl ⟨c, hc, le_refl c⟩)).1, hevaluated c hc c (le_refl c) hold⟩
  · intro b hb x hx check hread
    obtain ⟨hindexed, heq⟩ := h.cycle b hb x hx check hread
    obtain ⟨hindexed', hrows'⟩ := hrows b hindexed (.inr hb)
    exact ⟨hindexed', heq.trans hrows'.symm⟩
  · intro c hc first hfirst b hle hb
    exact hevaluated c hc b hb (h.covered c hc first hfirst b hle hb)

theorem Cover.index (h : Cover cfg w) (hsteady : (steady cfg).event w .index) : Cover cfg ⟨w.state.index, w.log⟩ := by
  unfold State.index
  split
  · rename_i write rest head hpending
    obtain ⟨k, hhead, habove⟩ := h.pending _ _ hpending
    refine h.of_db ?_ ?_ ?_
    · rintro ws head' ⟨⟩
      exact habove.exec hhead
    · cases write with
      | rollback root => exact sorted_capRun root h.sorted
      | _ => exact h.sorted
    · intro b hindexed hb
      refine rowsAt_exec hhead habove ?_ hindexed
      rintro root rfl
      simp only [steady, State.eventOk, hpending, State.keeps, Bool.and_eq_true, Option.all_eq_true, decide_eq_true_eq]
        at hsteady
      obtain ⟨c, hc, hle⟩ | hcurrent := hb
      · have := hsteady.1 c hc
        omega
      · exact hsteady.2 b hcurrent
  · rename_i head hpending
    obtain ⟨k, hhead, hle⟩ := h.pending _ _ hpending
    refine h.of_db (fun _ _ hnone => nomatch hnone) ?_ ?_
    · simp only [List.filterMap_append, List.pairwise_append]
      refine ⟨h.sorted, ?_, ?_⟩
      · cases head <;> simp
      · intro n hn m hm
        obtain rfl : head = some m := by
          cases head <;> simp_all
        have hn := hhead n (by simpa using hn)
        have hm := hle m rfl
        omega
    · intro b hindexed _
      obtain ⟨n, hn, hb⟩ := isIndexed_iff.mp hindexed
      exact ⟨isIndexed_iff.mpr ⟨n, List.mem_append_left _ hn, hb⟩, rfl⟩
  · exact h

private theorem Cover.interfere {d : Indexer.Deployment H} [DecidableEq H] (h : Cover cfg w) {e : Interference}
    (he : (steady cfg).event w e) :
    Cover cfg ((watchdogHost cfg d).interfere w e) := by
  cases e with
  | begin chain =>
    refine h.of_db ?_ h.sorted fun b hindexed _ => ⟨hindexed, rfl⟩
    rintro ws head ⟨⟩
    exact pendingAbove_writes d w.state.db chain
  | index => exact h.index he
  | save chainId dedupKey state | clear chainId start =>
    exact ⟨h.pending, h.sorted, h.cursor, h.cycle, h.current, h.first, h.polled, h.covered⟩

theorem Cover.restart (h : Cover cfg w) : Cover cfg ⟨{ w.state with polled := none, current := none }, w.log⟩ where
  pending := h.pending
  sorted := h.sorted
  cursor := h.cursor
  cycle := fun _ hb => nomatch hb
  current := fun _ _ hb => nomatch hb
  first := fun _ _ hb => nomatch hb
  polled := fun _ _ hhead => nomatch hhead
  covered := h.covered

private theorem Cover.extend (h : Cover cfg w) {s : State H} (hx : ∀ b check, x.isRead b check = false)
    (hdb : s.db = w.state.db) (hpending : s.pending = w.state.pending) (hcursor : s.cursor = w.state.cursor)
    (hcycle : ∀ b, s.current = some b → ∀ y ∈ sinceStart (x :: w.log), ∀ check, y.isRead b check = true →
      isIndexed s.db b = true ∧ rowsAt y.state.db.log.tables b = rowsAt s.db.log.tables b)
    (hcurrent : ∀ b c, s.current = some b → s.cursor = some c → c ≤ b)
    (hfirst : s.cursor = none → ∀ b, s.current = some b → s.polled = some b)
    (hpolled : s.cursor = none → ∀ head, s.polled = some head → ∀ b ∈ evaluatedBlocks cfg w.log, head ≤ b) :
    Cover cfg ⟨s, x :: w.log⟩ := by
  refine ⟨?_, ?_, ?_, hcycle, hcurrent, hfirst, ?_, ?_⟩
  · rw [hdb, hpending]
    exact h.pending
  · rw [hdb]
    exact h.sorted
  · intro c hc
    rw [hcursor] at hc
    obtain ⟨hindexed, hevaluated⟩ := h.cursor c hc
    exact ⟨by rwa [hdb], hevaluated.cons rfl hdb⟩
  · intro hnone head hhead b hb
    exact hpolled hnone head hhead b (evaluatedBlocks_of_cons hx hb)
  · intro c hc first hmem b hle hb
    rw [hcursor] at hc
    exact (h.covered c hc first (evaluatedBlocks_of_cons hx hmem) b hle hb).cons rfl hdb

private theorem Cover.keep (h : Cover cfg w) {s : State H} (hx : ∀ b check, x.isRead b check = false)
    (hstart : x.request.isStart = false) (hdb : s.db = w.state.db) (hpending : s.pending = w.state.pending)
    (hcursor : s.cursor = w.state.cursor) (hpolled : s.polled = w.state.polled)
    (hcurrent : s.current = w.state.current) :
    Cover cfg ⟨s, x :: w.log⟩ := by
  refine h.extend hx hdb hpending hcursor ?_ ?_ ?_ ?_
  · rw [hdb, hcurrent, sinceStart_cons hstart]
    intro b hb y hy check hread
    obtain rfl | hy := mem_cons.mp hy
    · rw [hx] at hread
      cases hread
    · exact h.cycle b hb y hy check hread
  · rw [hcurrent, hcursor]
    exact h.current
  · rw [hcursor, hcurrent, hpolled]
    exact h.first
  · rw [hcursor, hpolled]
    exact h.polled

variable {r : Reply}

private theorem Cover.read (h : Cover cfg w) {b : Nat} {now : Int} {check : Check}
    (hcurrent : w.state.current = some b) (hindexed : isIndexed w.state.db b = true) :
    Cover cfg ⟨w.state, ⟨w.state, .volume b now check, r⟩ :: w.log⟩ := by
  have hother : ∀ {b'}, b' ∈ evaluatedBlocks cfg (⟨w.state, .volume b now check, r⟩ :: w.log) →
      b' = b ∨ b' ∈ evaluatedBlocks cfg w.log := by
    intro b' hb'
    refine or_iff_not_imp_left.mpr fun hne => mem_evaluatedBlocks.mpr fun check' hcheck' => ?_
    obtain ⟨y, hy, hread⟩ := mem_evaluatedBlocks.mp hb' check' hcheck'
    obtain rfl | hy := mem_cons.mp hy
    · obtain ⟨-, hblock, -⟩ := of_decide_eq_true hread
      exact absurd hblock.symm hne
    · exact ⟨y, hy, hread⟩
  refine ⟨h.pending, h.sorted, ?_, ?_, h.current, h.first, ?_, ?_⟩
  · intro c hc
    obtain ⟨hc', hevaluated⟩ := h.cursor c hc
    exact ⟨hc', hevaluated.cons rfl rfl⟩
  · intro b' hb' y hy check' hread
    obtain rfl : b = b' := some.inj (hcurrent.symm.trans hb')
    rw [sinceStart_cons rfl] at hy
    obtain rfl | hy := mem_cons.mp hy
    · exact ⟨hindexed, rfl⟩
    · exact h.cycle b hcurrent y hy check' hread
  · intro hnone head hhead b' hb'
    obtain rfl | hb' := hother hb'
    · exact (some.inj (hhead.symm.trans (h.first hnone b' hcurrent))).le
    · exact h.polled hnone head hhead b' hb'
  · intro c hc first hmem b' hle hb'
    obtain rfl | hmem := hother hmem
    · have := h.current first c hcurrent hc
      obtain rfl : b' = c := by omega
      exact (h.cursor b' hc).2.cons rfl rfl
    · exact (h.covered c hc first hmem b' hle hb').cons rfl rfl

theorem Cover.advance (h : Cover cfg w) {b : Nat} (hnext : w.state.NextBlock b) (hcurrent : w.state.current = some b)
    (hcompleted : Completed cfg (sinceStart w.log) b) :
    Cover cfg ⟨w.state.advanceCursor b cfg.indexerLag.maxCursorLagBlocks, ⟨w.state, .advanceCursor b, r⟩ :: w.log⟩ := by
  have hx : ∀ b' check, (⟨w.state, .advanceCursor b, r⟩ : Exchange H).isRead b' check = false := fun _ _ => rfl
  have hreads : ∀ check ∈ cfg.checks, ∃ y ∈ sinceStart w.log, y.isRead b check = true := by
    obtain ⟨breaches, ⟨now, -, reads, hchecks, hreads, -⟩, -⟩ := hcompleted
    intro check hcheck
    rw [← hchecks] at hcheck
    obtain ⟨p, hp, rfl⟩ := mem_map.mp hcheck
    obtain ⟨y, hy, hdid, -⟩ := hreads p hp
    exact ⟨y, hy, isRead_iff.mpr ⟨now, hdid⟩⟩
  have hevaluated : Evaluated cfg w b := by
    intro check hcheck
    obtain ⟨y, hy, hread⟩ := hreads check hcheck
    exact ⟨y, sinceStart_subset _ hy, hread, (h.cycle b hcurrent y hy check hread).2⟩
  have hindexed : isIndexed w.state.db b = true := by
    obtain ⟨check, hcheck⟩ := exists_mem_of_ne_nil _ (checks_ne_nil cfg)
    obtain ⟨y, hy, hread⟩ := hreads check hcheck
    exact (h.cycle b hcurrent y hy check hread).1
  refine ⟨h.pending, h.sorted, ?_, ?_, ?_, (fun hnone => nomatch hnone), (fun hnone => nomatch hnone), ?_⟩
  · rintro c ⟨⟩
    exact ⟨hindexed, hevaluated.cons rfl rfl⟩
  · rw [sinceStart_cons rfl]
    intro b' hb' y hy check hread
    obtain rfl | hy := mem_cons.mp hy
    · rw [hx] at hread
      cases hread
    · exact h.cycle b' hb' y hy check hread
  · rintro b' c hb' ⟨⟩
    exact (some.inj (hcurrent.symm.trans hb')).le
  · rintro c ⟨⟩ first hmem b' hle hb'
    have hmem := evaluatedBlocks_of_cons hx hmem
    by_cases hlast : b' = b
    · subst hlast
      exact hevaluated.cons rfl rfl
    obtain ⟨hnone, hpolled⟩ | ⟨c, hc, rfl⟩ := hnext
    · have := h.polled hnone b hpolled first hmem
      omega
    · exact (h.covered c hc first hmem b' hle (by omega)).cons rfl rfl

private theorem Cover.perform (h : Cover cfg w) {q : Request} (hsteady : (steady cfg).reply w q r)
    (hallowed : Allowed cfg ⟨w.state, q, r⟩ w.log) : Cover cfg (w.perform cfg q r).1 := by
  cases q with
  | volume b now check =>
    by_cases hok : r.outcome = .ok
    · refine h.read hallowed ?_
      simpa [steady, World.replyOk, hok] using hsteady
    refine h.keep (fun b' check' => ?_) rfl rfl rfl rfl rfl rfl
    simp [Exchange.isRead, hok]
  | latestIndexedBlock =>
    refine h.extend (fun _ _ => rfl) rfl rfl rfl (by rintro _ ⟨⟩) (by rintro _ _ ⟨⟩) (by rintro _ _ ⟨⟩) ?_
    intro hnone head hhead
    obtain ⟨hok, hlast⟩ : r.outcome = .ok ∧ w.state.db.lastIndexedBlock = some head := by
      simpa [effect] using hhead
    simpa [steady, World.replyOk, hok, show w.state.cursor = none from hnone, hlast] using hsteady
  | blockTimestamp b =>
    refine h.extend (fun _ _ => rfl) rfl rfl rfl ?_ ?_ ?_ h.polled
    · intro b' _ y hy check hread
      obtain rfl : y = _ := mem_singleton.mp hy
      cases hread
    · rintro b' c ⟨⟩ hc
      obtain ⟨hnone, -⟩ | ⟨c', hc', rfl⟩ := hallowed
      · cases hnone.symm.trans hc
      have : c = c' := some.inj (hc.symm.trans hc')
      omega
    · rintro hnone b' ⟨⟩
      obtain ⟨-, hpolled⟩ | ⟨c, hc, -⟩ := hallowed
      · exact hpolled
      · cases hnone.symm.trans hc
  | sleep =>
    exact h.extend (fun _ _ =>
      rfl) rfl rfl rfl (by rintro _ ⟨⟩) (by rintro _ _ ⟨⟩) (by rintro _ _ ⟨⟩) (by rintro _ _ ⟨⟩)
  | advanceCursor b =>
    obtain ⟨hnext, hcurrent, hcompleted⟩ := hallowed
    simp only [World.perform, effect, Reply.write]
    split
    · exact h.keep (fun _ _ => rfl) rfl rfl rfl rfl rfl rfl
    · exact h.advance hnext hcurrent hcompleted
  | touchCursor | savePagerState | clearPagerStates =>
    simp only [World.perform, effect, Reply.write]
    split <;> exact h.keep (fun _ _ => rfl) rfl rfl rfl rfl rfl rfl
  | _ => exact h.keep (fun _ _ => rfl) rfl rfl rfl rfl rfl rfl

private theorem getLast?_of_sorted {l : List Nat} (h : l.Pairwise (· ≤ ·)) : l.getLast? = l.max? := by
  cases hlast : l.getLast? with
  | none =>
    rw [getLast?_eq_none_iff] at hlast
    rw [hlast]
    rfl
  | some n =>
    obtain ⟨init, rfl⟩ := getLast?_eq_some_iff.mp hlast
    refine (max?_eq_some_iff.mpr ⟨by simp, ?_⟩).symm
    intro m hm
    obtain hm | hm := mem_append.mp hm
    · exact (pairwise_append.mp h).2.2 m hm n mem_cons_self
    · exact (mem_singleton.mp hm).le

theorem Cover.newestIndexedBlock (h : Cover cfg w) : newestIndexedBlock w.state.db = w.state.db.lastIndexedBlock :=
  getLast?_of_sorted h.sorted

private theorem Cover.beat (h : Cover cfg w) {q : Request} (hallowed : Allowed cfg ⟨w.state, q, r⟩ w.log)
    (hcover : Cover cfg (w.perform cfg q r).1) : Beat cfg ⟨w.state, q, r⟩ w.log := by
  intro hbeats
  refine ⟨hcover.covered, ?_⟩
  unfold Exchange.after at hbeats ⊢
  cases q with
  | advanceCursor b =>
    simp only [effect, Reply.write] at hbeats ⊢
    split at hbeats
    · exact absurd rfl hbeats
    rename_i hdone
    simp only [hdone, ↓reduceIte]
    refine ⟨b, rfl, ?_⟩
    have hrefreshes : w.state.refreshes b cfg.indexerLag.maxCursorLagBlocks = true := by
      by_contra hnot
      exact hbeats (if_neg hnot)
    obtain ⟨⟨hnone, hpolled⟩ | ⟨c, hc, -⟩, -⟩ := hallowed
    · exact .inl ⟨b, hpolled, le_refl b⟩
    right
    intro head hhead
    simp only [State.refreshes, show w.state.cursor = some c from hc, isNone_some, Bool.false_or, decide_eq_true_eq,
      h.newestIndexedBlock, hhead, getD_some] at hrefreshes
    omega
  | touchCursor =>
    obtain ⟨c, head, hc, hpolled, hle⟩ := hallowed
    simp only [effect, Reply.write] at hbeats ⊢
    split at hbeats
    · exact absurd rfl hbeats
    rename_i hdone
    simp only [hdone, ↓reduceIte]
    exact ⟨c, hc, .inl ⟨head, hpolled, hle⟩⟩
  | savePagerState | clearPagerStates =>
    simp only [effect, Reply.write] at hbeats
    split at hbeats <;> exact absurd rfl hbeats
  | _ => exact absurd rfl hbeats

end Coverage

def freshWorld : World H := ⟨⟨.empty, none, none, 0, [], none, none⟩, []⟩

private theorem cover_freshWorld {cfg : Config} : Cover cfg (freshWorld : World H) where
  pending := fun _ _ hnone => nomatch hnone
  sorted := List.Pairwise.nil
  cursor := fun _ hnone => nomatch hnone
  cycle := fun _ hnone => nomatch hnone
  current := fun _ _ hnone => nomatch hnone
  first := fun _ _ hnone => nomatch hnone
  polled := fun _ _ hnone => nomatch hnone
  covered := fun _ hnone => nomatch hnone

/-- Along every run in which no rollback reaches what the watchdog has read and a poll without a cursor starts no later
than a block that was evaluated, every block from the first evaluated one up to the cursor is evaluated on the rows that
it has now, and each refresh of the heartbeat has found it so, up to the head or within the allowed lag of it. -/
theorem blocks_covered (cfg : Config) (d : Indexer.Deployment H) [DecidableEq H]
    (actions : List (Action Reply Interference))
    (hrun : RunMeets cfg d (steady cfg) freshWorld actions) :
    Covered cfg (worldAfter cfg d freshWorld actions) ∧
      ∀ newer x older, (worldAfter cfg d freshWorld actions).log = newer ++ x :: older → Beat cfg x older := by
  have hinv : Cover cfg (worldAfter cfg d freshWorld actions) ∧
      Logged (Beat cfg) (worldAfter cfg d freshWorld actions).log := by
    refine invariant_worldAfter (fun w =>
      Cover cfg w ∧ Logged (Beat cfg) w.log) hrun ⟨cover_freshWorld, trivial⟩ ?_ ?_ ?_
    · intro w e hw he
      refine ⟨hw.1.interfere he, ?_⟩
      rw [(same_interfere cfg d w e).log]
      exact hw.2
    · exact fun w hw => ⟨hw.1.restart, hw.2⟩
    · intro w q r hw hr hallowed
      have hcover := hw.1.perform hr hallowed
      exact ⟨hcover, hw.1.beat hallowed hcover, hw.2⟩
  refine ⟨hinv.1.covered, ?_⟩
  intro newer x older hlog
  have hlogged := hinv.2
  rw [hlog] at hlogged
  exact hlogged.of_append

/-- A tick that reads up to block 2, a poll, a tick that reads a deposit in block 3, and a poll. -/
def steadyRun : List (Action Reply Interference) :=
  [.event (.begin shortChain), .event .index, .event .index] ++ List.replicate 9 answered ++
    [.event (.begin depositChain)] ++ List.replicate 6 (.event .index) ++ List.replicate 30 answered

/-- The cursor is at block 4, the deposit of block 3 is among the rows, and blocks 2 to 4 were evaluated with it. -/
theorem blocks_covered_of_steadyRun :
    (worldAfter alertConfig followDeployment freshWorld steadyRun).state.cursor = some 4 ∧
      2 ∈ evaluatedBlocks alertConfig (worldAfter alertConfig followDeployment freshWorld steadyRun).log ∧
      rowsAt (worldAfter alertConfig followDeployment freshWorld steadyRun).state.db.log.tables 3 ≠ [[], [], [], []] ∧
      Covered alertConfig (worldAfter alertConfig followDeployment freshWorld steadyRun) := by
  have hrun : RunMeets alertConfig followDeployment (steady alertConfig) freshWorld steadyRun := by
    unfold RunMeets
    decide +kernel
  exact ⟨by decide +kernel, by decide +kernel, by decide +kernel, (blocks_covered _ _ _ hrun).1⟩

def reorgChain : Chain :=
  shortChain.take 2 ++ ⟨20, [⟨7, 1, some (.deposit 4 4 100 100)⟩], []⟩ :: (List.range 6).map fun n =>
    emptyBlock (n + 40)

/-- A tick that reads up to block 2, a poll, a tick that replaces block 2, and a poll. -/
def reorgRun : List (Action Reply Interference) :=
  [.event (.begin shortChain), .event .index, .event .index] ++ List.replicate 9 answered ++
    [.event (.begin reorgChain)] ++ List.replicate 6 (.event .index) ++ List.replicate 10 answered

/-- The cursor is at block 3, and the deposit of block 2 was never read. -/
theorem blocks_not_covered :
    ¬ ∀ actions, Covered alertConfig (worldAfter alertConfig followDeployment freshWorld actions) := by
  intro h
  have hblock := h reorgRun 3 (by decide +kernel) 2 (by decide +kernel) 2 (by decide) (by decide)
    ⟨.perBlockMint, none, 50⟩ (by decide +kernel)
  obtain ⟨x, hx, hread, hrows⟩ := hblock
  have hall : ((worldAfter alertConfig followDeployment freshWorld reorgRun).log.all fun x =>
      !x.isRead 2 ⟨.perBlockMint, none, 50⟩ || decide (rowsAt x.state.db.log.tables 2 ≠
        rowsAt (worldAfter alertConfig followDeployment freshWorld reorgRun).state.db.log.tables 2)) = true := by
    decide +kernel
  have hne := all_eq_true.mp hall x hx
  simp [hread, hrows] at hne

end RobotMoney.Watchdog
