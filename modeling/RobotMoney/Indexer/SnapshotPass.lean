import RobotMoney.Indexer.Snapshots

/-!
# What the snapshot passes keep

The invariant of the snapshot tables (`Deployment.Snapshotted`): a record is of a log of the chain, a balance is that of
its record, and the balances of the owners that the paged pass has passed are stored (`Covered`).  A rollback keeps it
unless it takes such a balance (`deleteAboveBlock`), the statements of a range unless they bring a change that comes too
late (`statements`), and the two passes always do (`claims`, `readSnapshotBalances`), as long as the ledgers keep their
promise (`Deployment.ExclusionLedger`).
-/

namespace RobotMoney.Indexer

open Evm SqlTable List

variable {H : Type} (d : Deployment H) (balanceAt : BalanceAt)

def recordBalance (c : Chain) (s : RecordRow) (holder : Address) : Nat :=
  exclusionBalanceAt balanceAt c s.ledger holder s.exclusionId s.place.blockNumber

/-- What an exclusion ledger promises: its ids are small, an exclusion is opened before it is claimed, and the balances
at an exclusion do not change once it is open. -/
structure Deployment.ExclusionLedger (c : Chain) (a : Address) : Prop where
  opened : ∀ l, d.Logged c l → l.address = a → ∀ id, l.event.opened = some id → id < 2 ^ 63
  claimed : ∀ l, d.Logged c l → l.address = a → ∀ id holder, l.event.claimed = some (id, holder) → id < 2 ^ 63
  order : ∀ l l', d.Logged c l → d.Logged c l' → l.address = a → l'.address = a → ∀ id holder,
    l.event.opened = some id → l'.event.claimed = some (id, holder) → l.place.blockNumber ≤ l'.place.blockNumber
  stable : ∀ l, d.Logged c l → l.address = a → ∀ id, l.event.opened = some id → ∀ n, l.place.blockNumber ≤ n →
    n < c.length → ∀ holder, exclusionBalanceAt balanceAt c a holder id n =
      exclusionBalanceAt balanceAt c a holder id l.place.blockNumber

def Deployment.Opened (c : Chain) (s : RecordRow) : Prop :=
  ∃ l, d.Logged c l ∧ l.place = s.place ∧ l.address = s.ledger ∧ ∃ id, l.event.opened = some id ∧
    intoI64 id = s.exclusionId

def ProgressRow.Passed (q : ProgressRow) (owner : Address) : Prop :=
  q.done = true ∨ q.readThrough.any (fun x => decide (owner ≤ x)) = true

/-- The balances of the owners in `passed` are stored. -/
def Covered (c : Chain) (db : SnapshotDb H) (s : RecordRow) (passed : Address → Prop) : Prop :=
  ∀ owner, passed owner → mayHold db.core.positions s.vault s.place.blockNumber owner = true →
    recordBalance balanceAt c s owner ≠ 0 → hasExclusionHolderBalance db.balances s.ledger s.exclusionId owner = true

/-- The records, the balances and the progress, for a chain whose blocks below `reach` have been read. -/
structure Deployment.Snapshotted (db : SnapshotDb H) (c : Chain) (reach : Nat) : Prop where
  keys : (db.core.log.exclusions.map ExclusionRow.key).Nodup
  opened : ∀ s ∈ db.core.exclusionRecords, d.Opened c s ∧ s.place.blockNumber < reach
  balance : ∀ r ∈ db.balances, ∃ s ∈ db.core.exclusionRecords, s.key = (r.ledger, r.exclusionId) ∧
    s.place.blockNumber ≤ r.blockNumber ∧ r.balanceAt = recordBalance balanceAt c s r.holder
  progress : ∀ q ∈ db.progress, ∃ s ∈ db.core.exclusionRecords, s.key = q.key ∧ s.place.blockNumber = q.blockNumber ∧
    Covered balanceAt c db s q.Passed

variable {d balanceAt} {db : SnapshotDb H} {c e : Chain} {reach lo hi : Nat} {s : RecordRow}

variable {core : Db H}

private theorem mem_exclusionRecords : s ∈ core.exclusionRecords ↔
    ∃ r ∈ core.log.exclusions, r.asRecord = some s := mem_filterMap

variable {r : ExclusionRow}

private theorem key_of_asRecord (h : r.asRecord = some s) : r.key = .record s.ledger s.exclusionId := by
  cases r with
  | record place ledger id vault =>
    cases h
    rfl
  | _ => cases h

private theorem place_of_asRecord (h : r.asRecord = some s) : r.place = s.place := by
  cases r with
  | record place ledger id vault =>
    cases h
    rfl
  | _ => cases h

private theorem opened_of_exclusionRow {v : Address} {l : LogEntry} (hrow : exclusionRow v l = some r)
    (h : r.asRecord = some s) :
    l.place = s.place ∧ l.address = s.ledger ∧ ∃ id, l.event.opened = some id ∧ intoI64 id = s.exclusionId := by
  cases hevent : l.event <;> simp only [exclusionRow, hevent, Option.some.injEq, reduceCtorEq] at hrow
  case exclusionOpened id adapterIndex adapter supply value =>
    subst hrow
    cases h
    exact ⟨rfl, rfl, id, rfl, rfl⟩
  all_goals
    subst hrow
    cases h

private theorem exclusionRecord_unique (hkeys : (core.log.exclusions.map ExclusionRow.key).Nodup) {s' : RecordRow}
    (hs : s ∈ core.exclusionRecords) (hs' : s' ∈ core.exclusionRecords) (hkey : s.key = s'.key) : s = s' := by
  obtain ⟨r, hr, hrs⟩ := mem_exclusionRecords.1 hs
  obtain ⟨r', hr', hrs'⟩ := mem_exclusionRecords.1 hs'
  simp only [RecordRow.key, Prod.mk.injEq] at hkey
  have heq : r = r' := by
    refine inj_on_of_nodup_map hkeys hr hr' ?_
    rw [key_of_asRecord hrs, key_of_asRecord hrs', hkey.1, hkey.2]
  rw [heq, hrs'] at hrs
  exact (Option.some.inj hrs).symm

variable {ledger holder : Address} {id : Nat}

theorem hasExclusionHolderBalance_iff {balances : List BalanceRow} :
    hasExclusionHolderBalance balances ledger id holder = true ↔ ∃ r ∈ balances, r.key = (ledger, id, holder) := by
  simp [hasExclusionHolderBalance]

private theorem hasExclusionHolderBalance_mono {balances balances' : List BalanceRow} (hsub : balances ⊆ balances')
    (h : hasExclusionHolderBalance balances ledger id holder = true) :
    hasExclusionHolderBalance balances' ledger id holder = true := by
  rw [hasExclusionHolderBalance_iff] at h ⊢
  obtain ⟨r, hr, hkey⟩ := h
  exact ⟨r, hsub hr, hkey⟩

private theorem mem_setExclusionSnapshotProgress {row q : ProgressRow} {rows : List ProgressRow}
    (h : q ∈ setExclusionSnapshotProgress row rows) : q ∈ rows ∨ q = row ∨
      ∃ q' ∈ rows, q'.key = row.key ∧ q = { q' with readThrough := row.readThrough, done := row.done } := by
  unfold setExclusionSnapshotProgress at h
  split at h
  · obtain ⟨q', hq', rfl⟩ := mem_map.1 h
    split
    · rename_i hkey
      exact .inr (.inr ⟨q', hq', hkey, rfl⟩)
    · exact .inl hq'
  rw [mem_append, mem_singleton] at h
  exact h.imp_right .inl

variable {vault owner : Address} {n : Nat}

private theorem mayHold_congr {positions positions' : List PositionRow}
    (h : (positions.filter fun r => decide (r.contract = vault ∧ r.owner = owner ∧ r.blockNumber ≤ n)) =
      positions'.filter fun r => decide (r.contract = vault ∧ r.owner = owner ∧ r.blockNumber ≤ n)) :
    mayHold positions vault n owner = mayHold positions' vault n owner := by
  have hbelow : ∀ rows : List PositionRow, positionBelow rows vault owner n =
      ((rows.filter fun r => decide (r.contract = vault ∧ r.owner = owner ∧ r.blockNumber ≤ n)).filter
        fun r => decide (r.blockNumber < n)).argmax PositionRow.blockNumber := by
    intro rows
    rw [positionBelow, filter_filter]
    congr 1
    refine filter_congr fun r _ => ?_
    rw [← Bool.decide_and, decide_eq_decide]
    constructor
    · rintro ⟨hc, ho, hn⟩
      exact ⟨hn, hc, ho, hn.le⟩
    · rintro ⟨hn, hc, ho, -⟩
      exact ⟨hc, ho, hn⟩
  have hin : ∀ rows : List PositionRow, (rows.any fun r =>
      decide (r.contract = vault ∧ r.owner = owner ∧ r.blockNumber = n)) =
      (rows.filter fun r => decide (r.contract = vault ∧ r.owner = owner ∧ r.blockNumber ≤ n)).any
        fun r => decide (r.blockNumber = n) := by
    intro rows
    rw [any_filter]
    congr 1
    funext r
    rw [← Bool.decide_and, decide_eq_decide]
    constructor
    · rintro ⟨hc, ho, hn⟩
      exact ⟨⟨hc, ho, hn.le⟩, hn⟩
    · rintro ⟨⟨hc, ho, -⟩, hn⟩
      exact ⟨hc, ho, hn⟩
  rw [mayHold, mayHold, hbelow positions, hbelow positions', hin positions, hin positions', h]

private theorem filter_map_eq {p : PositionRow → Bool} {f : PositionRow → PositionRow}
    (h : ∀ r, f r = r ∨ p r = false ∧ p (f r) = false) (rows : List PositionRow) :
    (rows.map f).filter p = rows.filter p := by
  induction rows with
  | nil => rfl
  | cons r rows ih =>
    rw [map_cons, filter_cons, filter_cons, ih]
    obtain heq | ⟨hr, hfr⟩ := h r
    · rw [heq]
    · rw [hr, hfr, if_neg Bool.false_ne_true, if_neg Bool.false_ne_true]

private theorem filter_positionsBelow_applyDelta {δ : PositionDelta}
    (h : ¬(δ.contract = vault ∧ δ.owner = owner ∧ δ.blockNumber ≤ n)) (positions : List PositionRow) :
    ((applyWalletPositionDelta δ positions).filter fun r =>
      decide (r.contract = vault ∧ r.owner = owner ∧ r.blockNumber ≤ n)) =
      positions.filter fun r => decide (r.contract = vault ∧ r.owner = owner ∧ r.blockNumber ≤ n) := by
  have hkey : ∀ r : PositionRow, r.key = δ.key → ¬(r.contract = vault ∧ r.owner = owner ∧ r.blockNumber ≤ n) := by
    intro r hr
    simp only [PositionRow.key, PositionDelta.key, Prod.mk.injEq] at hr
    rw [hr.1, hr.2.1, hr.2.2]
    exact h
  unfold applyWalletPositionDelta
  split
  · rw [filter_append, filter_cons_of_neg (by simpa using h), filter_nil, append_nil]
  split
  · rfl
  split
  · rfl
  refine filter_map_eq (fun r => ?_) positions
  split
  · rename_i hr
    exact .inr ⟨decide_eq_false (hkey r hr), decide_eq_false (hkey r hr)⟩
  · exact .inl rfl

variable {sts : List Statement}

private theorem mayHold_execTables {timestampOf : Nat → Option Int}
    (h : ∀ δ, .walletPosition δ ∈ sts → ¬(δ.contract = vault ∧ δ.owner = owner ∧ δ.blockNumber ≤ n)) (t : Tables) :
    mayHold (sts.foldl (Statement.execTables timestampOf) t).positions vault n owner =
      mayHold t.positions vault n owner := by
  induction sts generalizing t with
  | nil => rfl
  | cons st sts ih =>
    rw [foldl_cons, ih fun δ hδ => h δ (mem_cons_of_mem _ hδ)]
    cases st with
    | walletPosition δ => exact mayHold_congr (filter_positionsBelow_applyDelta (h δ mem_cons_self) _)
    | _ => rfl

private theorem mayHold_deleteAboveBlock {root : Int} (hn : (n : Int) ≤ root) (vault owner : Address) :
    mayHold (core.deleteAboveBlock root).positions vault n owner = mayHold core.positions vault n owner := by
  apply mayHold_congr
  simp only [Db.positions, Db.deleteAboveBlock, LogState.deleteAboveBlock, Tables.deleteAboveBlock, filter_filter]
  refine filter_congr fun r _ => ?_
  rw [survives_eq _ rfl, ← Bool.decide_and, decide_eq_decide]
  constructor
  · exact And.left
  · rintro ⟨hc, ho, hle⟩
    exact ⟨⟨hc, ho, hle⟩, by omega⟩

private theorem nodup_foldl_execExclusions {xs : List ExclusionRow} (h : (xs.map ExclusionRow.key).Nodup) :
    ((sts.foldl Statement.execExclusions xs).map ExclusionRow.key).Nodup := by
  induction sts generalizing xs with
  | nil => exact h
  | cons st sts ih =>
    apply ih
    cases st with
    | exclusion row => exact nodup_insertNew h
    | _ => exact h

private theorem recordBalance_agree (hagree : Agree c e reach) (hlt : s.place.blockNumber < reach) (holder : Address) :
    recordBalance balanceAt c s holder = recordBalance balanceAt e s holder := by
  rw [recordBalance, recordBalance, exclusionBalanceAt, exclusionBalanceAt, hagree.take hlt]

namespace Deployment.Snapshotted

theorem unique (h : d.Snapshotted balanceAt db c reach) {s' : RecordRow} (hs : s ∈ db.core.exclusionRecords)
    (hs' : s' ∈ db.core.exclusionRecords) (hkey : s.key = s'.key) : s = s' :=
  exclusionRecord_unique h.keys hs hs' hkey

theorem agree (h : d.Snapshotted balanceAt db c reach) (hagree : Agree c e reach) :
    d.Snapshotted balanceAt db e reach where
  keys := h.keys
  opened := by
    intro s hs
    obtain ⟨⟨l, hl, hplace, haddress, hid⟩, hlt⟩ := h.opened s hs
    exact ⟨⟨l, (hagree.logged (by rwa [hplace])).1 hl, hplace, haddress, hid⟩, hlt⟩
  balance := by
    intro r hr
    obtain ⟨s, hs, hkey, hle, hbalance⟩ := h.balance r hr
    exact ⟨s, hs, hkey, hle, by rw [hbalance, recordBalance_agree hagree (h.opened s hs).2]⟩
  progress := by
    intro q hq
    obtain ⟨s, hs, hkey, hblock, hcovered⟩ := h.progress q hq
    refine ⟨s, hs, hkey, hblock, ?_⟩
    intro owner hpassed hmay hbalance
    rw [← recordBalance_agree hagree (h.opened s hs).2] at hbalance
    exact hcovered owner hpassed hmay hbalance

theorem of_floor (h : d.Snapshotted balanceAt db c d.deployFloor) : d.Snapshotted balanceAt db e d.deployFloor := by
  have hnone : ∀ s, s ∉ db.core.exclusionRecords := by
    intro s hs
    obtain ⟨⟨l, hl, hplace, -⟩, hlt⟩ := h.opened s hs
    have hfloor := hl.1
    rw [hplace] at hfloor
    omega
  constructor
  · exact h.keys
  · exact fun s hs => (hnone s hs).elim
  · intro r hr
    obtain ⟨s, hs, -⟩ := h.balance r hr
    exact (hnone s hs).elim
  · intro q hq
    obtain ⟨s, hs, -⟩ := h.progress q hq
    exact (hnone s hs).elim

/-- A rollback to a root below `reach`.  It must not take the balance of an owner whom the paged pass has passed. -/
theorem deleteAboveBlock (h : d.Snapshotted balanceAt db c reach) {root : Int} {n : Nat} (hn : root = (n : Int) - 1)
    (hkept : ∀ q ∈ db.progress, (q.blockNumber : Int) ≤ root → ∀ r ∈ db.balances, q.key = (r.ledger, r.exclusionId) →
      q.Passed r.holder → (∃ s ∈ db.core.exclusionRecords, s.key = q.key ∧
        mayHold db.core.positions s.vault s.place.blockNumber r.holder = true) → (r.blockNumber : Int) ≤ root) :
    d.Snapshotted balanceAt (db.deleteAboveBlock root) c n := by
  have hrecords : ∀ s, s ∈ (db.deleteAboveBlock root).core.exclusionRecords ↔
      s ∈ db.core.exclusionRecords ∧ (s.place.blockNumber : Int) ≤ root := by
    intro s
    simp only [mem_exclusionRecords, SnapshotDb.deleteAboveBlock, Db.deleteAboveBlock, LogState.deleteAboveBlock,
      mem_filter, survives_eq _ (ExclusionRow.hasBlockNumber _), decide_eq_true_eq]
    constructor
    · rintro ⟨r, ⟨hr, hblock⟩, hrs⟩
      rw [place_of_asRecord hrs] at hblock
      exact ⟨⟨r, hr, hrs⟩, hblock⟩
    · rintro ⟨⟨r, hr, hrs⟩, hblock⟩
      exact ⟨r, ⟨hr, by rwa [place_of_asRecord hrs]⟩, hrs⟩
  constructor
  · exact (filter_sublist.map _).nodup h.keys
  · intro s hs
    rw [hrecords] at hs
    exact ⟨(h.opened s hs.1).1, by omega⟩
  · intro r hr
    obtain ⟨hr, hblock⟩ := mem_filter.1 hr
    rw [survives_eq _ rfl, decide_eq_true_eq] at hblock
    obtain ⟨s, hs, hkey, hle, hbalance⟩ := h.balance r hr
    exact ⟨s, (hrecords s).2 ⟨hs, by omega⟩, hkey, hle, hbalance⟩
  · intro q hq
    obtain ⟨hq, hblock⟩ := mem_filter.1 hq
    rw [survives_eq _ rfl, decide_eq_true_eq] at hblock
    obtain ⟨s, hs, hkey, heq, hcovered⟩ := h.progress q hq
    have hroot : (s.place.blockNumber : Int) ≤ root := by rwa [heq]
    refine ⟨s, (hrecords s).2 ⟨hs, hroot⟩, hkey, heq, ?_⟩
    intro owner hpassed hmay hbalance
    rw [SnapshotDb.deleteAboveBlock, mayHold_deleteAboveBlock hroot] at hmay
    obtain ⟨r, hr, hkey'⟩ := hasExclusionHolderBalance_iff.1 (hcovered owner hpassed hmay hbalance)
    simp only [BalanceRow.key, Prod.mk.injEq] at hkey'
    obtain ⟨hledger, hid, rfl⟩ := hkey'
    refine hasExclusionHolderBalance_iff.2 ⟨r, mem_filter.2 ⟨hr, ?_⟩, by rw [BalanceRow.key, hledger, hid]⟩
    rw [survives_eq _ rfl, decide_eq_true_eq]
    refine hkept q hq hblock r hr ?_ hpassed ⟨s, hs, hkey, hmay⟩
    rw [← hkey, hledger, hid, RecordRow.key]

theorem exclusionRecord_cases {core core₀ core' : Db H} {timestampOf : Nat → Option Int} {sts : List Statement}
    (hsts : sts <+: d.statements core₀ c lo hi) (hlog : core'.log = execAll timestampOf core.log sts)
    (hs : s ∈ core'.exclusionRecords) : s ∈ core.exclusionRecords ∨ ∃ l ∈ c.logs lo hi,
      (vaultOfExclusionLedger (insertLedgers core₀.ledgers (d.ledgerRows core₀ c lo hi)) l.address).isSome = true ∧
      l.place = s.place ∧ l.address = s.ledger ∧ ∃ id, l.event.opened = some id ∧ intoI64 id = s.exclusionId := by
  obtain ⟨r, hr, hrs⟩ := mem_exclusionRecords.1 hs
  rw [hlog, execAll_eq] at hr
  obtain hr | hr := mem_foldl_execExclusions hr
  · exact .inl (mem_exclusionRecords.2 ⟨r, hr, hrs⟩)
  obtain ⟨l, hl, hst⟩ := mem_flatMap.1 (hsts.subset hr)
  obtain ⟨v, hv, hrow⟩ := mem_handleLog_exclusion.1 hst
  exact .inr ⟨l, RangeOk.mem_logs_of_tickLogs hl, by rw [hv]; rfl, opened_of_exclusionRow hrow hrs⟩

/-- Statements of a range on the chain.  A change at or below the block of a record must not be of an owner whom the
paged pass has passed without storing its balance. -/
theorem statements (h : d.Snapshotted balanceAt db c reach) (hfloor : d.deployFloor ≤ lo) {core core' : Db H}
    {timestampOf : Nat → Option Int} {sts : List Statement} (hsts : sts <+: d.statements core c lo hi)
    (hlate : ∀ δ, .walletPosition δ ∈ d.statements core c lo hi → ∀ s ∈ db.core.exclusionRecords,
      s.vault = δ.contract → δ.blockNumber ≤ s.place.blockNumber → ∀ q ∈ db.progress, q.key = s.key → q.Passed δ.owner →
      recordBalance balanceAt c s δ.owner ≠ 0 →
      hasExclusionHolderBalance db.balances s.ledger s.exclusionId δ.owner = true)
    (hlog : core'.log = execAll timestampOf db.core.log sts) :
    d.Snapshotted balanceAt { db with core := core' } c (max reach hi) := by
  have hcases := fun s hs => @exclusionRecord_cases _ d c lo hi s db.core core core' timestampOf sts hsts hlog hs
  rw [execAll_eq] at hlog
  have hexclusions : core'.log.exclusions = sts.foldl Statement.execExclusions db.core.log.exclusions := by rw [hlog]
  have hpositions : core'.positions = (sts.foldl (Statement.execTables timestampOf) db.core.log.tables).positions := by
    rw [Db.positions, hlog]
  have hold : ∀ s ∈ db.core.exclusionRecords, s ∈ core'.exclusionRecords := by
    intro s hs
    obtain ⟨r, hr, hrs⟩ := mem_exclusionRecords.1 hs
    exact mem_exclusionRecords.2 ⟨r, by rw [hexclusions]; exact mem_foldl_execExclusions_of_mem hr, hrs⟩
  constructor
  · rw [hexclusions]
    exact nodup_foldl_execExclusions h.keys
  · intro s hs
    obtain hs | ⟨l, hl, -, hplace, hid⟩ := hcases s hs
    · obtain ⟨hopened, hlt⟩ := h.opened s hs
      exact ⟨hopened, by omega⟩
    have hlt := (mem_logs.1 hl).2.1
    rw [hplace] at hlt
    exact ⟨⟨l, logged_of_mem hfloor hl, hplace, hid⟩, by omega⟩
  · intro r hr
    obtain ⟨s, hs, hbalance⟩ := h.balance r hr
    exact ⟨s, hold s hs, hbalance⟩
  · intro q hq
    obtain ⟨s, hs, hkey, hblock, hcovered⟩ := h.progress q hq
    refine ⟨s, hold s hs, hkey, hblock, ?_⟩
    intro owner hpassed hmay hbalance
    simp only [hpositions] at hmay
    by_cases hδ : ∃ δ, .walletPosition δ ∈ sts ∧ δ.contract = s.vault ∧ δ.owner = owner ∧
        δ.blockNumber ≤ s.place.blockNumber
    · obtain ⟨δ, hδ, hvault, rfl, hle⟩ := hδ
      exact hlate δ (hsts.subset hδ) s hs hvault.symm hle q hq hkey.symm hpassed hbalance
    rw [mayHold_execTables fun δ hmem hmatch => hδ ⟨δ, hmem, hmatch⟩] at hmay
    exact hcovered owner hpassed hmay hbalance

theorem balance_row (h : d.Snapshotted balanceAt db c reach) (hs : s ∈ db.core.exclusionRecords) {row : BalanceRow}
    (hkey : s.key = (row.ledger, row.exclusionId)) (hle : s.place.blockNumber ≤ row.blockNumber)
    (hbalance : row.balanceAt = recordBalance balanceAt c s row.holder) :
    d.Snapshotted balanceAt (SnapshotWrite.exec db (.balance row)) c reach where
  keys := h.keys
  opened := h.opened
  balance := by
    intro r hr
    obtain hr | rfl := mem_of_mem_insertNew hr
    · exact h.balance r hr
    · exact ⟨s, hs, hkey, hle, hbalance⟩
  progress := by
    intro q hq
    obtain ⟨s, hs, hkey, hblock, hcovered⟩ := h.progress q hq
    refine ⟨s, hs, hkey, hblock, ?_⟩
    intro owner hpassed hmay hbalance
    exact hasExclusionHolderBalance_mono (fun r => mem_insertNew_of_mem) (hcovered owner hpassed hmay hbalance)

theorem progress_row (h : d.Snapshotted balanceAt db c reach) (hs : s ∈ db.core.exclusionRecords) {row : ProgressRow}
    (hkey : s.key = row.key) (hblock : s.place.blockNumber = row.blockNumber)
    (hcovered : Covered balanceAt c db s row.Passed) :
    d.Snapshotted balanceAt (SnapshotWrite.exec db (.progress row)) c reach where
  keys := h.keys
  opened := h.opened
  balance := h.balance
  progress := by
    intro q hq
    obtain hq | rfl | ⟨q', hq', hkey', rfl⟩ := mem_setExclusionSnapshotProgress hq
    · exact h.progress q hq
    · exact ⟨s, hs, hkey, hblock, hcovered⟩
    obtain ⟨s', hs', hkey'', hblock', -⟩ := h.progress q' hq'
    obtain rfl := h.unique hs hs' (by rw [hkey, hkey'', hkey'])
    exact ⟨s, hs, hkey'', hblock', hcovered⟩

end Deployment.Snapshotted

def Throughout (P : SnapshotDb H → Prop) (db : SnapshotDb H) (ws : List (SnapshotWrite H)) : Prop :=
  ∀ k, P ((ws.take k).foldl SnapshotWrite.exec db)

section Throughout

variable {P : SnapshotDb H → Prop} {ws ws' : List (SnapshotWrite H)} {w : SnapshotWrite H}

private theorem throughout_nil (h : P db) : Throughout P db [] := fun k => by rw [take_nil]; exact h

theorem Throughout.last (h : Throughout P db ws) : P (ws.foldl SnapshotWrite.exec db) := by
  have hlast := h ws.length
  rwa [take_length] at hlast

theorem Throughout.append (h : Throughout P db ws) (h' : Throughout P (ws.foldl SnapshotWrite.exec db) ws') :
    Throughout P db (ws ++ ws') := by
  intro k
  rw [take_append, foldl_append]
  obtain hk | hk := Nat.le_total k ws.length
  · rw [Nat.sub_eq_zero_of_le hk]
    exact h k
  rw [take_of_length_le hk]
  exact h' _

private theorem throughout_cons (h : P db) (h' : Throughout P (w.exec db) ws) : Throughout P db (w :: ws) := by
  intro k
  cases k with
  | zero => exact h
  | succ k => exact h' k

end Throughout

def SnapshotWrite.isPass : SnapshotWrite H → Bool
  | .core _ => false
  | _ => true

open SnapshotWrite

theorem foldl_isPass {ws : List (SnapshotWrite H)} (h : ∀ w ∈ ws, w.isPass = true) (db : SnapshotDb H) :
    (ws.foldl exec db).core = db.core ∧ db.balances ⊆ (ws.foldl exec db).balances := by
  induction ws generalizing db with
  | nil => exact ⟨rfl, List.Subset.refl _⟩
  | cons w ws ih =>
    obtain ⟨hcore, hsub⟩ := ih (fun w hw => h w (mem_cons_of_mem _ hw)) (w.exec db)
    have hw := h w mem_cons_self
    cases w with
    | core w => cases hw
    | balance row => exact ⟨hcore, fun r hr => hsub (mem_insertNew_of_mem hr)⟩
    | progress row => exact ⟨hcore, hsub⟩

theorem isPass_recordExclusionBalances (balanceAt : BalanceAt) (c : Chain) (db : SnapshotDb H) (logs : List LogEntry) :
    ∀ w ∈ recordExclusionBalances balanceAt c db logs, w.isPass = true := by
  induction logs generalizing db with
  | nil => simp [recordExclusionBalances]
  | cons l logs ih =>
    intro w hw
    rw [recordExclusionBalances, mem_append] at hw
    obtain hw | hw := hw
    · obtain ⟨r, -, rfl⟩ := mem_map.1 hw
      rfl
    · exact ih _ w hw

private theorem isPass_batch (rows : List BalanceRow) (row : ProgressRow) :
    ∀ w ∈ rows.map balance ++ [progress (H := H) row], w.isPass = true := by
  intro w hw
  rw [mem_append, mem_map, mem_singleton] at hw
  obtain ⟨r, -, rfl⟩ | rfl := hw <;> rfl

theorem isPass_readRecord (balanceAt : BalanceAt) (c : Chain) (rec : PendingSnapshot) (db : SnapshotDb H) (reads : Nat)
    (through : Option Address) : ∀ w ∈ (readRecord balanceAt c rec db reads through).1, w.isPass = true := by
  fun_induction readRecord balanceAt c rec db reads through with
  | case1 => simp [isPass]
  | case2 => exact isPass_batch _ _
  | case3 db reads through holders hempty through' ws hstop rest ih =>
    intro w hw
    obtain hw | hw := mem_append.1 hw
    · exact isPass_batch _ _ w hw
    · exact ih w hw

theorem isPass_readRecords (balanceAt : BalanceAt) (c : Chain) (db : SnapshotDb H) (pending : List PendingSnapshot)
    (reads : Nat) : ∀ w ∈ readRecords balanceAt c db pending reads, w.isPass = true := by
  induction pending generalizing db reads with
  | nil => simp [readRecords]
  | cons rec pending ih =>
    intro w hw
    simp only [readRecords, mem_append] at hw
    obtain hw | hw := hw
    · exact isPass_readRecord balanceAt c rec db reads _ w hw
    split at hw
    · exact ih _ _ w hw
    · cases hw

private theorem Deployment.ExclusionLedger.balance_eq (h : d.ExclusionLedger balanceAt c s.ledger) (hs : d.Opened c s)
    (hn : s.place.blockNumber ≤ n) (hlt : n < c.length) (holder : Address) :
    exclusionBalanceAt balanceAt c s.ledger holder s.exclusionId n = recordBalance balanceAt c s holder := by
  obtain ⟨l, hl, hplace, haddress, id, hid, hs⟩ := hs
  have hsmall := h.opened l hl haddress id hid
  have hstable := h.stable l hl haddress id hid n (by rwa [hplace]) hlt holder
  have heq : id = s.exclusionId := by
    rw [← hs, intoI64]
    omega
  rw [← heq, hstable, recordBalance, ← heq, hplace]

private theorem claimRow_spec {l : LogEntry} {row : BalanceRow} (h : claimRow balanceAt c db l = some row) :
    ∃ id holder, l.event.claimed = some (id, holder) ∧
    (∃ s ∈ db.core.exclusionRecords, s.key = (l.address, intoI64 id)) ∧
      row = ⟨l.address, intoI64 id, holder, exclusionBalanceAt balanceAt c l.address holder id c.safeHead,
        l.place.blockNumber⟩ := by
  unfold claimRow at h
  split at h
  · cases h
  rename_i id holder hclaimed
  split at h
  · cases h
  rename_i hstored
  simp only [Bool.or_eq_true, not_or, Option.isNone_iff_eq_none, exclusionRecordVault,
    Option.map_eq_none_iff] at hstored
  simp only at h
  split at h
  · obtain ⟨s, hs⟩ := Option.ne_none_iff_exists'.1 hstored.1
    refine ⟨id, holder, hclaimed, ⟨s, mem_of_find?_eq_some hs, by simpa using find?_some hs⟩, ?_⟩
    exact (Option.some.inj h).symm
  · cases h

private theorem Chain.safeHead_lt (h : c ≠ []) : c.safeHead < c.length := by
  have hpos := length_pos_iff.2 h
  unfold Chain.safeHead
  omega

namespace Deployment.Snapshotted

theorem claims (h : d.Snapshotted balanceAt db c reach) (hgenesis : c ≠ []) {logs : List LogEntry}
    (hlogs : ∀ l ∈ logs, d.Logged c l ∧ l.place.blockNumber ≤ c.safeHead)
    (hledgers : ∀ s ∈ db.core.exclusionRecords, d.ExclusionLedger balanceAt c s.ledger) :
    Throughout (d.Snapshotted balanceAt · c reach) db (recordExclusionBalances balanceAt c db logs) := by
  induction logs generalizing db with
  | nil => exact throughout_nil h
  | cons l logs ih =>
    have htail := fun l hl => hlogs l (mem_cons_of_mem _ hl)
    rw [recordExclusionBalances]
    cases hrow : claimRow balanceAt c db l with
    | none => exact ih h htail hledgers
    | some row =>
      obtain ⟨id, holder, hclaimed, ⟨s, hs, hkey⟩, rfl⟩ := claimRow_spec hrow
      obtain ⟨hlogged, hsafe⟩ := hlogs l mem_cons_self
      obtain ⟨hledger, hid⟩ := Prod.mk.inj hkey
      have hopened := (h.opened s hs).1
      have hpromise := hledgers s hs
      have hsmall := hpromise.claimed l hlogged hledger.symm id holder hclaimed
      have heq : s.exclusionId = id := by
        rw [hid, intoI64]
        omega
      have hle : s.place.blockNumber ≤ l.place.blockNumber := by
        obtain ⟨l', hl', hplace, haddress, id', hid', hs'⟩ := hopened
        have hsmall' := hpromise.opened l' hl' haddress id' hid'
        obtain rfl : id' = id := by
          rw [intoI64] at hs'
          omega
        rw [← hplace]
        exact hpromise.order l' l hl' hlogged haddress hledger.symm id' holder hid' hclaimed
      refine throughout_cons h (ih (h.balance_row hs hkey hle ?_) htail hledgers)
      rw [← hledger, ← heq]
      exact hpromise.balance_eq hopened (by omega) (Chain.safeHead_lt hgenesis) holder

/-- The balances of a batch. -/
theorem holders (h : d.Snapshotted balanceAt db c reach) (hgenesis : c ≠ []) (hs : s ∈ db.core.exclusionRecords)
    (hledger : d.ExclusionLedger balanceAt c s.ledger) (hsafe : s.place.blockNumber ≤ c.safeHead)
    (through : Option Address)
    (holders : List Address) : Throughout (d.Snapshotted balanceAt · c reach) db
      ((holderRows balanceAt c (s.pending through) holders).map .balance) ∧
    ∀ owner ∈ holders, recordBalance balanceAt c s owner ≠ 0 → hasExclusionHolderBalance
      (((holderRows balanceAt c (s.pending through) holders).map .balance).foldl exec db).balances
      s.ledger s.exclusionId owner = true := by
  induction holders generalizing db with
  | nil => exact ⟨throughout_nil h, by simp⟩
  | cons holder holders ih =>
    have hbalance := hledger.balance_eq (h.opened s hs).1 hsafe (Chain.safeHead_lt hgenesis) holder
    by_cases hpos : 0 < recordBalance balanceAt c s holder
    · have hrows : holderRows balanceAt c (s.pending through) (holder :: holders) =
          ⟨s.ledger, s.exclusionId, holder, recordBalance balanceAt c s holder, s.place.blockNumber⟩ ::
            holderRows balanceAt c (s.pending through) holders := by
        rw [holderRows, filterMap_cons, ← hbalance]
        simp only [RecordRow.pending, hbalance, if_pos hpos]
        rfl
      have hstored : d.Snapshotted balanceAt (exec db (.balance
          ⟨s.ledger, s.exclusionId, holder, recordBalance balanceAt c s holder, s.place.blockNumber⟩)) c reach :=
        h.balance_row hs rfl le_rfl rfl
      obtain ⟨hkept, hall⟩ := ih hstored hs
      rw [hrows, map_cons, foldl_cons]
      refine ⟨throughout_cons h hkept, ?_⟩
      intro owner howner hne
      obtain rfl | howner := mem_cons.1 howner
      · refine hasExclusionHolderBalance_mono
          (foldl_isPass (by simp [isPass]) (exec db _)).2 ?_
        exact hasExclusionHolderBalance_iff.2 (exists_mem_insertNew BalanceRow.key _ _)
      · exact hall owner howner hne
    have hrows : holderRows balanceAt c (s.pending through) (holder :: holders) =
        holderRows balanceAt c (s.pending through) holders := by
      rw [holderRows, filterMap_cons]
      simp only [RecordRow.pending, hbalance, if_neg hpos]
      rfl
    obtain ⟨hkept, hall⟩ := ih h hs
    rw [hrows]
    refine ⟨hkept, ?_⟩
    intro owner howner hne
    obtain rfl | howner := mem_cons.1 howner
    · omega
    · exact hall owner howner hne

end Deployment.Snapshotted

def allCandidates (db : SnapshotDb H) (rec : PendingSnapshot) (after : Option Address) : List Address :=
  (((db.core.positions.map PositionRow.owner).dedup.filter fun owner =>
    after.all (fun x => decide (x < owner)) && mayHold db.core.positions rec.vaultAddress rec.openedBlock owner &&
      !hasExclusionHolderBalance db.balances rec.ledgerAddress rec.exclusionId owner).insertionSort (· ≤ ·))

private theorem mem_owners_of_mayHold {positions : List PositionRow}
    (h : mayHold positions vault n owner = true) : owner ∈ positions.map PositionRow.owner := by
  rw [mayHold, Bool.or_eq_true, any_eq_true] at h
  obtain h | ⟨r, hr, h⟩ := h
  · cases hbelow : positionBelow positions vault owner n with
    | none =>
      rw [hbelow] at h
      cases h
    | some r =>
      have hr := mem_filter.1 (argmax_mem hbelow)
      rw [decide_eq_true_eq] at hr
      exact mem_map.2 ⟨r, hr.1, hr.2.2.1⟩
  rw [decide_eq_true_eq] at h
  exact mem_map.2 ⟨r, hr, h.2.1⟩

private theorem stored_or_candidate {rec : PendingSnapshot} {after : Option Address} {owner : Address}
    (hmay : mayHold db.core.positions rec.vaultAddress rec.openedBlock owner = true) :
    after.any (fun x => decide (owner ≤ x)) = true ∨
      hasExclusionHolderBalance db.balances rec.ledgerAddress rec.exclusionId owner = true ∨
      owner ∈ allCandidates db rec after := by
  by_cases hpassed : after.any (fun x => decide (owner ≤ x)) = true
  · exact .inl hpassed
  by_cases hstored : hasExclusionHolderBalance db.balances rec.ledgerAddress rec.exclusionId owner = true
  · exact .inr (.inl hstored)
  refine .inr (.inr ?_)
  have hafter : after.all (fun x => decide (x < owner)) = true := by
    cases after with
    | none => rfl
    | some x => simpa using hpassed
  rw [Bool.not_eq_true] at hstored
  rw [allCandidates, mem_insertionSort, mem_filter, mem_dedup]
  exact ⟨mem_owners_of_mayHold hmay, by rw [hafter, hmay, hstored]; rfl⟩

private theorem mem_take_candidates {rec : PendingSnapshot} {after : Option Address} {x : Address} {k : Nat}
    (hmem : owner ∈ allCandidates db rec after) (hx : x ∈ (allCandidates db rec after).take k) (hle : owner ≤ x) :
    owner ∈ (allCandidates db rec after).take k := by
  have hsorted : (allCandidates db rec after).Pairwise (· ≤ ·) := pairwise_insertionSort ..
  rw [← take_append_drop k (allCandidates db rec after)] at hmem hsorted
  rw [pairwise_append] at hsorted
  obtain hmem | hmem := mem_append.1 hmem
  · exact hmem
  · rwa [le_antisymm hle (hsorted.2.2 x hx owner hmem)]

theorem Covered.batch {start through : Option Address} {reads : Nat} {db' : SnapshotDb H} (hcore : db'.core = db.core)
    (hsub : db.balances ⊆ db'.balances)
    (hcovered : Covered balanceAt c db s fun owner => through.any (fun x => decide (owner ≤ x)) = true)
    (hall : ∀ owner ∈ (exclusionSnapshotCandidates db (s.pending start) through snapshotReadBatch).take reads,
      recordBalance balanceAt c s owner ≠ 0 →
      hasExclusionHolderBalance db'.balances s.ledger s.exclusionId owner = true) :
    Covered balanceAt c db' s fun owner =>
      (((exclusionSnapshotCandidates db (s.pending start) through snapshotReadBatch).take reads).getLast?.or
        through).any (fun x => decide (owner ≤ x)) = true := by
  intro owner hpassed hmay hbalance
  rw [hcore] at hmay
  have hkept := fun hpassed => hasExclusionHolderBalance_mono hsub (hcovered owner hpassed hmay hbalance)
  have htake : (exclusionSnapshotCandidates db (s.pending start) through snapshotReadBatch).take reads =
      (allCandidates db (s.pending start) through).take (min reads snapshotReadBatch) := take_take
  rw [htake] at hall hpassed
  cases hlast : ((allCandidates db (s.pending start) through).take (min reads snapshotReadBatch)).getLast? with
  | none =>
    rw [hlast, Option.none_or] at hpassed
    exact hkept hpassed
  | some x =>
    rw [hlast, Option.some_or, Option.any_some, decide_eq_true_eq] at hpassed
    obtain hpassed' | hstored | hmem := @stored_or_candidate _ db (s.pending start) through owner hmay
    · exact hkept hpassed'
    · exact hasExclusionHolderBalance_mono hsub hstored
    · exact hall owner (mem_take_candidates hmem (mem_of_getLast? hlast) hpassed) hbalance

private theorem Covered.all {start through : Option Address}
    (hcovered : Covered balanceAt c db s fun owner => through.any (fun x => decide (owner ≤ x)) = true)
    (hempty : exclusionSnapshotCandidates db (s.pending start) through snapshotReadBatch = []) :
    Covered balanceAt c db s fun _ => True := by
  intro owner _ hmay hbalance
  have hnone : allCandidates db (s.pending start) through = [] :=
    (take_eq_nil_iff.1 hempty).resolve_left (by decide)
  obtain hpassed | hstored | hmem := @stored_or_candidate _ db (s.pending start) through owner hmay
  · exact hcovered owner hpassed hmay hbalance
  · exact hstored
  rw [hnone] at hmem
  cases hmem

private theorem Covered.mono {passed passed' : Address → Prop} (h : Covered balanceAt c db s passed)
    (hsub : ∀ owner, passed' owner → passed owner) : Covered balanceAt c db s passed' :=
  fun owner hpassed => h owner (hsub owner hpassed)

private theorem Covered.ahead {passed : Address → Prop} (h : Covered balanceAt c db s passed) {db' : SnapshotDb H}
    (hcore : db'.core = db.core) (hsub : db.balances ⊆ db'.balances) : Covered balanceAt c db' s passed := by
  intro owner hpassed hmay hbalance
  rw [hcore] at hmay
  exact hasExclusionHolderBalance_mono hsub (h owner hpassed hmay hbalance)

namespace Deployment.Snapshotted

section

variable (h : d.Snapshotted balanceAt db c reach)

include h

private theorem batch (hgenesis : c ≠ []) (hs : s ∈ db.core.exclusionRecords)
    (hledger : d.ExclusionLedger balanceAt c s.ledger) (hsafe : s.place.blockNumber ≤ c.safeHead)
    {start through : Option Address} {reads : Nat}
    (hcovered : Covered balanceAt c db s fun owner => through.any (fun x => decide (owner ≤ x)) = true) :
    let holders := (exclusionSnapshotCandidates db (s.pending start) through snapshotReadBatch).take reads
    let through' := holders.getLast?.or through
    let ws := (holderRows balanceAt c (s.pending start) holders).map .balance ++
      [.progress ((s.pending start).progress through' false)]
    Throughout (d.Snapshotted balanceAt · c reach) db ws ∧
      Covered balanceAt c (ws.foldl exec db) s fun owner =>
          through'.any (fun x => decide (owner ≤ x)) = true := by
  intro holders through' ws
  obtain ⟨hkept, hall⟩ := h.holders hgenesis hs hledger hsafe start holders
  have hpass : ∀ w ∈ (holderRows balanceAt c (s.pending start) holders).map (SnapshotWrite.balance (H := H)),
      w.isPass = true := by
    intro w hw
    obtain ⟨r, -, rfl⟩ := mem_map.1 hw
    rfl
  obtain ⟨hcore, hsub⟩ := foldl_isPass hpass db
  have hcovered' := Covered.batch hcore hsub hcovered hall
  refine ⟨hkept.append (throughout_cons hkept.last (throughout_nil ?_)), ?_⟩
  · refine hkept.last.progress_row (by rw [hcore]; exact hs) rfl rfl (hcovered'.mono ?_)
    rintro owner (hdone | hthrough)
    · cases hdone
    · exact hthrough
  · rw [foldl_append]
    exact hcovered'

private theorem readRecord (hgenesis : c ≠ []) (hs : s ∈ db.core.exclusionRecords)
    (hledger : d.ExclusionLedger balanceAt c s.ledger) (hsafe : s.place.blockNumber ≤ c.safeHead)
    {start through : Option Address} {reads : Nat}
    (hcovered : Covered balanceAt c db s fun owner => through.any (fun x => decide (owner ≤ x)) = true) :
    Throughout (d.Snapshotted balanceAt · c reach) db
    (readRecord balanceAt c (s.pending start) db reads through).1 := by
  fun_induction Indexer.readRecord balanceAt c (s.pending start) db reads through with
  | case1 db reads through holders hempty =>
    refine throughout_cons h (throughout_nil ?_)
    exact h.progress_row hs rfl rfl ((hcovered.all hempty).mono fun _ _ => trivial)
  | case2 db reads through holders hempty through' ws hstop =>
    exact (h.batch hgenesis hs hledger hsafe hcovered).1
  | case3 db reads through holders hempty through' ws hstop rest ih =>
    obtain ⟨hkept, hcovered'⟩ :=
      @batch _ d balanceAt db c reach s h hgenesis hs hledger hsafe start through reads hcovered
    refine hkept.append (ih hkept.last ?_ hcovered')
    rw [(foldl_isPass (isPass_batch _ _) db).1]
    exact hs

private theorem readRecords (hgenesis : c ≠ []) {pending : List PendingSnapshot}
    (hpending : ∀ rec ∈ pending, ∃ s ∈ db.core.exclusionRecords, ∃ through, rec = s.pending through ∧
      d.ExclusionLedger balanceAt c s.ledger ∧ s.place.blockNumber ≤ c.safeHead ∧
      Covered balanceAt c db s fun owner => through.any (fun x => decide (owner ≤ x)) = true) (reads : Nat) :
    Throughout (d.Snapshotted balanceAt · c reach) db (readRecords balanceAt c db pending reads) := by
  induction pending generalizing db reads with
  | nil => exact throughout_nil h
  | cons rec pending ih =>
    obtain ⟨s, hs, through, rfl, hledger, hsafe, hcovered⟩ := hpending rec mem_cons_self
    have hkept := @readRecord _ d balanceAt db c reach s h hgenesis hs hledger hsafe through through reads hcovered
    obtain ⟨hcore, hsub⟩ := foldl_isPass (isPass_readRecord balanceAt c (s.pending through) db reads through) db
    simp only [Indexer.readRecords]
    refine hkept.append ?_
    split
    · rename_i left _
      refine ih hkept.last ?_ left
      intro rec hrec
      obtain ⟨s', hs', through', heq, hledger', hsafe', hcovered'⟩ := hpending rec (mem_cons_of_mem _ hrec)
      exact ⟨s', by rw [hcore]; exact hs', through', heq, hledger', hsafe', hcovered'.ahead hcore hsub⟩
    · exact throughout_nil hkept.last

theorem readSnapshotBalances (hgenesis : c ≠ [])
    (hledgers : ∀ s ∈ db.core.exclusionRecords, d.ExclusionLedger balanceAt c s.ledger)
    (hsafe : ∀ s ∈ db.core.exclusionRecords, (progressOf db.progress s).any ProgressRow.done = false →
      s.place.blockNumber ≤ c.safeHead) (reads : Nat) :
    Throughout (d.Snapshotted balanceAt · c reach) db (readSnapshotBalances balanceAt c db reads) := by
  refine h.readRecords hgenesis ?_ reads
  intro rec hrec
  obtain ⟨s, hs, rfl⟩ := mem_map.1 hrec
  rw [mem_insertionSort, mem_filter, Bool.not_eq_true'] at hs
  refine ⟨s, hs.1, _, rfl, hledgers s hs.1, hsafe s hs.1 hs.2, ?_⟩
  intro owner hpassed
  cases hprogress : progressOf db.progress s with
  | none =>
    rw [hprogress] at hpassed
    cases hpassed
  | some q =>
    rw [hprogress, Option.bind_some] at hpassed
    obtain ⟨s', hs', hkey, -, hcovered⟩ := h.progress q (mem_of_find?_eq_some hprogress)
    have hq : q.key = s.key := by simpa using find?_some hprogress
    obtain rfl := h.unique hs.1 hs' (hq.symm.trans hkey.symm)
    exact hcovered owner (.inr hpassed)

end

end Deployment.Snapshotted

end RobotMoney.Indexer
