import RobotMoney.Evm.Machine
import RobotMoney.Indexer.Watch

/-!
# Following the chain

Runs of ticks, each on a chain of its own and each of which may fail.  Rows are written before the cursor moves, and the
reorg check looks at the cursor only, so what a failed tick left above the cursor is right only as long as the chain
stays the same there.  Under this condition (`Follows`) the database always holds what some chain decodes to, up to the
cursor and perhaps a bit further (`Holds`), and after a tick that succeeds exactly what the chain of that tick decodes
to (`tables_follow_chain`).
-/

namespace RobotMoney.Indexer

open Evm SqlTable List Option Indexer.Deployment Db

variable {H : Type} (d : Deployment H)

/-- The rows of the chain below `next`, and the first of those up to `reach`. -/
def Deployment.TablesOk (c : Chain) (next reach : Nat) (t : Tables) : Prop :=
  ∃ q, q <+: d.rows c next reach reach ∧ t = execs c.timestampOf (d.rows c d.deployFloor next next ++ q)

structure Deployment.ExclusionsOk (c : Chain) (next reach : Nat) (xs : List ExclusionRow) : Prop where
  sound : ∀ r ∈ xs, d.IsExclusion c reach r
  complete : ∀ r, d.IsExclusion c next r → r ∈ xs

/-- Everything below `next`, and perhaps something up to `reach`. -/
structure Deployment.Holds (db : Db H) (c : Chain) (next reach : Nat) : Prop where
  lawful : d.Lawful c
  floor : d.deployFloor ≤ next
  le : next ≤ reach
  settled : d.Settled c next reach
  headers : ∀ x ∈ db.blocks, d.deployFloor ≤ x.blockNumber ∧ x.blockNumber < reach ∧ d.headerAt c x.blockNumber = some x
  tables : d.TablesOk c next reach db.log.tables
  exclusions : d.ExclusionsOk c next reach db.log.exclusions
  vaults : d.VaultsOk c next reach db.log.vaults
  ledgers : d.LedgersOk c next reach db.ledgers db.log.vaults

variable {d} {db : Db H} {c e : Chain} {next reach lo hi n : Nat}

private theorem rows_of_settled (hlawful : d.Lawful c) (hfloor : d.deployFloor ≤ next) (hle : next ≤ reach)
    (hsettled : d.Settled c next reach) :
    d.rows c d.deployFloor reach reach = d.rows c d.deployFloor next next ++ d.rows c next reach reach := by
  rw [rows_append hfloor hle, hsettled.rows hlawful hle (le_refl _)]

private theorem Deployment.Holds.ordered (h : d.Holds db c next reach) {q : List Statement}
    (hq : q <+: d.rows c next reach reach) :
    Ordered (d.rows c d.deployFloor next next ++ q) := by
  apply (h.lawful.ordered reach).of_isPrefixOf
  rw [rows_of_settled h.lawful h.floor h.le h.settled]
  exact (prefix_append_right_inj _).2 hq

variable {m : Nat}

theorem Agree.take (h : Agree c e n) (hm : m < n) : c.take (m + 1) = e.take (m + 1) := by
  apply ext_getElem?
  intro i
  rw [getElem?_take, getElem?_take]
  split
  · exact h i (by omega)
  · rfl

theorem Agree.headerAt (h : Agree c e n) (hm : m < n) : d.headerAt c m = d.headerAt e m := by
  simp only [Deployment.headerAt, h m hm, h.take hm]

variable {sts : List Statement}

private theorem execs_congr_of_agree (h : Agree c e n) (hsts : ∀ st ∈ sts, st.blockNumber < n) :
    execs c.timestampOf sts = execs e.timestampOf sts :=
  foldl_execTables_congr fun st hst => h.timestampOf (hsts st hst)

variable {v : Address}

theorem Agree.start (h : Agree c e n) (hm : m < n) : d.Start c v m ↔ d.Start e v m := by
  simp only [Deployment.Start]
  refine or_congr_right (and_congr_right fun _ => exists_congr fun l => ?_)
  constructor
  · rintro ⟨hl, hregisters, rfl⟩
    exact ⟨(h.logged hm).1 hl, hregisters, rfl⟩
  · rintro ⟨hl, hregisters, rfl⟩
    exact ⟨(h.logged hm).2 hl, hregisters, rfl⟩

variable {ledger : Address}

theorem Agree.startLedger (h : Agree c e reach) : d.StartLedger c reach v ledger ↔ d.StartLedger e reach v ledger := by
  simp only [Deployment.StartLedger]
  refine exists_congr fun m => and_congr_right fun hm => ?_
  rw [h.start hm, h.ledgerAt hm]

/-- A chain that agrees up to `reach` will do. -/
theorem Deployment.Holds.agree (h : d.Holds db c next reach) (hagree : Agree c e reach) (hlawful : d.Lawful e) :
    d.Holds db e next reach := by
  have hnext := hagree.mono h.le
  constructor
  · exact hlawful
  · exact h.floor
  · exact h.le
  · exact (hagree.settled h.le).1 h.settled
  · intro x hx
    obtain ⟨hfloor, hlt, hheader⟩ := h.headers x hx
    exact ⟨hfloor, hlt, by rw [← hagree.headerAt hlt, hheader]⟩
  · obtain ⟨q, hq, htables⟩ := h.tables
    refine ⟨q, by rwa [← hagree.rows (le_refl _)], ?_⟩
    rw [htables, ← hnext.rows (le_refl _)]
    apply execs_congr_of_agree hagree
    intro st hst
    have hle := h.le
    rw [mem_append] at hst
    obtain hst | hst := hst
    · have hblock := (block_of_mem_rows hst).2
      omega
    · exact (block_of_mem_rows (hq.subset hst)).2
  · refine ⟨?_, ?_⟩
    · intro r hr
      exact hagree.isExclusion.1 (h.exclusions.sound r hr)
    · intro r hr
      exact h.exclusions.complete r (hnext.isExclusion.2 hr)
  · refine ⟨?_, ?_⟩
    · rw [← hagree.logs]
      exact h.vaults.sound
    · rw [← hnext.registered]
      exact h.vaults.complete
  · refine ⟨?_, ?_, ?_⟩
    · intro r hr
      obtain ⟨hfloor, hbelow, hvault, hnamed, hunnamed⟩ := h.ledgers.sound r hr
      refine ⟨hfloor, hbelow, by rwa [← hagree.registered], ?_, ?_⟩
      · exact fun ledger hledger => (hagree.names hbelow).1 (hnamed ledger hledger)
      · exact fun hnone => by rw [← hagree.ledgerAt hbelow, hunnamed hnone]
    · intro n v ledger hn hnames
      exact h.ledgers.complete n v ledger hn ((hnext.names hn).2 hnames)
    · intro v hv ledger hstart
      exact h.ledgers.started v hv ledger (hagree.startLedger.2 hstart)

private theorem Deployment.Start.names (h : d.Start c v m) (hread : c.ledgerAt v m = .ledger ledger) :
    d.Names c v ledger m := by
  obtain ⟨hv, rfl⟩ | ⟨-, l, hl, hregisters, rfl⟩ := h
  · exact ⟨le_refl _, .inl hv, hread⟩
  · exact ⟨hl.1, .inr (mem_registered.2 ⟨l, mem_logs_iff.2 ⟨hl, Nat.lt_succ_self _⟩, hregisters⟩), hread⟩

private theorem Deployment.Holds.of_floor (h : d.Holds db c d.deployFloor d.deployFloor) (hlawful : d.Lawful e) :
    d.Holds db e d.deployFloor d.deployFloor := by
  refine ⟨hlawful, le_refl _, le_refl _, Deployment.Settled.refl _ _, ?_, ⟨[], nil_prefix, ?_⟩, ⟨?_, ?_⟩, ⟨?_, ?_⟩,
    ⟨?_, ?_, ?_⟩⟩
  · intro x hx
    obtain ⟨hfloor, hlt, -⟩ := h.headers x hx
    omega
  · obtain ⟨q, hq, htables⟩ := h.tables
    have hnone : ∀ c : Chain, d.rows c d.deployFloor d.deployFloor d.deployFloor = [] := fun c => by
      simp [Deployment.rows]
    rw [hnone] at hq
    rw [htables, prefix_nil.1 hq, hnone, hnone]
    rfl
  · intro r hr
    obtain ⟨l, hl, -⟩ := h.exclusions.sound r hr
    simp at hl
  · rintro r ⟨l, hl, -⟩
    simp at hl
  · intro x hx
    obtain ⟨l, hl, -⟩ := h.vaults.sound x hx
    simp at hl
  · intro v hv
    simp [registered] at hv
  · intro r hr
    obtain ⟨hfloor, hbelow, -⟩ := h.ledgers.sound r hr
    omega
  · intro n v ledger hn hnames
    have hfloor := hnames.1
    omega
  · rintro v hv ledger ⟨n, hn, hstart, hread⟩
    have hfloor := (hstart.names hread).1
    omega

private theorem Deployment.Holds.widen (h : d.Holds db c next reach) (hhi : reach ≤ hi) (hsettled : d.Settled c next hi)
    (hreach : d.Settled c reach hi) : d.Holds db c next hi := by
  have hle := h.le
  have hfloor := h.floor
  refine ⟨h.lawful, h.floor, by omega, hsettled, ?_, ?_, ⟨?_, h.exclusions.complete⟩, h.vaults.mono hhi,
    h.ledgers.mono h.vaults h.lawful hhi⟩
  · intro x hx
    obtain ⟨hfloor, hlt, hheader⟩ := h.headers x hx
    exact ⟨hfloor, by omega, hheader⟩
  · obtain ⟨q, hq, htables⟩ := h.tables
    refine ⟨q, ?_, htables⟩
    rw [rows_append hle hhi, hreach.rows h.lawful hhi h.floor]
    exact hq.trans (prefix_append _ _)
  · intro r hr
    obtain ⟨l, hl, v, hnamed, hrow⟩ := h.exclusions.sound r hr
    exact ⟨l, logs_mono hhi hl, v, named_mono hhi hnamed, hrow⟩

private theorem Deployment.Holds.runs {db' : Db H} (h : d.Holds db c next reach) (hblocks : db'.blocks = db.blocks)
    (hledgers : db'.ledgers = db.ledgers) (hlog : db'.log = db.log) : d.Holds db' c next reach := by
  refine ⟨h.lawful, h.floor, h.le, h.settled, ?_, ?_, ?_, ?_, ?_⟩
  · rw [hblocks]
    exact h.headers
  · rw [hlog]
    exact h.tables
  · rw [hlog]
    exact h.exclusions
  · rw [hlog]
    exact h.vaults
  · rw [hledgers, hlog]
    exact h.ledgers

variable {l : LogEntry}

private theorem block_exclusionRow {r : ExclusionRow} (h : exclusionRow v l = some r) : r.place = l.place := by
  unfold exclusionRow at h
  split at h <;> simp only [some.injEq, reduceCtorEq] at h <;> subst h <;> rfl

/-- A rollback to a root below the cursor.  It must not take the row of a ledger that was named at the root already, nor
leave the answer of a vault that was not registered by then. -/
theorem Deployment.Holds.deleteAboveBlock (h : d.Holds db c next reach) {root : Int} (hn : root = (n : Int) - 1)
    (hfloor : d.deployFloor ≤ n) (hnext : n ≤ next) (hsettled : d.Settled c n next)
    (hledgers : ∀ r ∈ db.ledgers, root < r.blockNumber → ∀ ledger (m : Nat), r.ledger = some ledger → (m : Int) ≤ root →
      ¬d.Names c r.vault ledger m)
    (hvaults : ∀ r ∈ db.ledgers, (r.blockNumber : Int) ≤ root → r.vault = d.cfg.vault ∨ r.vault ∈ d.registered c n) :
    d.Holds (db.deleteAboveBlock root) c n n := by
  have hle := h.le
  have hkeeps : ∀ (table : TableName) (m : Nat), table.hasBlockNumber = true →
      (survives root table m = true ↔ m < n) := by
    intro table m htable
    rw [survives_eq _ htable, decide_eq_true_eq]
    omega
  have hkept : ∀ r ∈ db.ledgers, ∀ v ledger m, r.vault = v → r.ledger = some ledger → m < n → d.Names c v ledger m →
      r.blockNumber < n := by
    rintro r hr v ledger m rfl hledger hm hnames
    by_contra hlate
    exact hledgers r hr (by omega) ledger m hledger (by omega) hnames
  have hnamed : ∀ v ledger m, m < n → d.Names c v ledger m → hasNamed db.ledgers v ledger = true →
      hasNamed (db.deleteAboveBlock root).ledgers v ledger = true := by
    intro v ledger m hm hnames hnamed
    obtain ⟨r, hr, hv, hledger⟩ := hasNamed_iff.1 hnamed
    refine hasNamed_iff.2 ⟨r, List.mem_filter.2 ⟨hr, ?_⟩, hv, hledger⟩
    rw [hkeeps _ _ rfl]
    exact hkept r hr v ledger m hv hledger hm hnames
  refine ⟨h.lawful, hfloor, le_refl _, Deployment.Settled.refl c n, ?_, ?_, ⟨?_, ?_⟩, ⟨?_, ?_⟩, ⟨?_, ?_, ?_⟩⟩
  · intro x hx
    obtain ⟨hx, hblock⟩ := List.mem_filter.1 hx
    obtain ⟨hfloor, -, hheader⟩ := h.headers x hx
    exact ⟨hfloor, (hkeeps _ _ rfl).1 hblock, hheader⟩
  · obtain ⟨q, hq, htables⟩ := h.tables
    have hsplit : d.rows c d.deployFloor next next ++ q =
        d.rows c d.deployFloor n n ++ (d.rows c n next next ++ q) := by
      rw [rows_append hfloor hnext, hsettled.rows h.lawful hnext (le_refl _), List.append_assoc]
    refine ⟨[], List.nil_prefix, ?_⟩
    have hordered := h.ordered hq
    rw [hsplit] at hordered
    have hundo := @deleteAboveBlock_execs c.timestampOf root _ _ hordered ?_ ?_
    · simp only [Db.deleteAboveBlock, LogState.deleteAboveBlock, htables, hsplit, List.append_nil]
      exact hundo
    · intro st hst
      have hblock := (block_of_mem_rows hst).2
      omega
    · intro st hst
      rw [List.mem_append] at hst
      obtain hst | hst := hst
      · have hblock := (block_of_mem_rows hst).1
        omega
      have hblock := (block_of_mem_rows (hq.subset hst)).1
      omega
  · intro r hr
    obtain ⟨hr, hblock⟩ := List.mem_filter.1 hr
    obtain ⟨l, hl, v, hnamed, hrow⟩ := h.exclusions.sound r hr
    rw [hkeeps _ _ r.hasBlockNumber, block_exclusionRow hrow] at hblock
    rw [mem_logs_iff] at hl
    exact ⟨l, mem_logs_iff.2 ⟨hl.1, hblock⟩, v,
      named_mono (by omega) (h.lawful.ledgerSilent l reach v hl.1 hnamed), hrow⟩
  · intro r hr
    refine List.mem_filter.2 ⟨?_, ?_⟩
    · obtain ⟨l, hl, v, hnamed, hrow⟩ := hr
      exact h.exclusions.complete r ⟨l, logs_mono hnext hl, v, named_mono hnext hnamed, hrow⟩
    · obtain ⟨l, hl, v, -, hrow⟩ := hr
      rw [hkeeps _ _ r.hasBlockNumber, block_exclusionRow hrow]
      exact (mem_logs.1 hl).2.1
  · intro x hx
    simp only [Db.deleteAboveBlock, LogState.deleteAboveBlock, List.mem_map, List.mem_filter, decide_eq_true_eq] at hx
    obtain ⟨x, ⟨hx, hblock⟩, rfl⟩ := hx
    obtain ⟨l, hl, hregisters, hl'⟩ := h.vaults.sound x hx
    rw [mem_logs_iff] at hl
    exact ⟨l, mem_logs_iff.2 ⟨hl.1, by omega⟩, hregisters, hl'⟩
  · intro v hv
    obtain ⟨x, hx, rfl⟩ := h.vaults.complete v (registered_mono hnext hv)
    obtain ⟨l, hl, hregisters⟩ := mem_registered.1 hv
    obtain ⟨l', hl', hregisters', hblock⟩ := h.vaults.sound x hx
    rw [mem_logs_iff] at hl hl'
    have heq := h.lawful.registeredOnce l l' _ hl.1 hl'.1 hregisters hregisters'
    refine ⟨rederiveStatus (db.log.tables.deleteAboveBlock root).statusEvents x, ?_, rfl⟩
    simp only [Db.deleteAboveBlock, LogState.deleteAboveBlock, List.mem_map, List.mem_filter, decide_eq_true_eq]
    refine ⟨x, ⟨hx, ?_⟩, rfl⟩
    rw [← hblock, ← heq]
    omega
  · intro r hr
    obtain ⟨hr, hblock⟩ := List.mem_filter.1 hr
    rw [hkeeps _ _ rfl] at hblock
    obtain ⟨hfloor', hbelow, hvault, hnames, hunnamed⟩ := h.ledgers.sound r hr
    exact ⟨hfloor', hblock, hvaults r hr (by omega), hnames, hunnamed⟩
  · intro m v ledger hm hnames
    exact hnamed v ledger m hm hnames (h.ledgers.complete m v ledger (by omega) hnames)
  · rintro v hv ledger ⟨m, hm, hstart, hread⟩
    apply hnamed v ledger m hm (hstart.names hread)
    refine h.ledgers.started v ?_ ledger ⟨m, by omega, hstart, hread⟩
    obtain hv | ⟨x, hx, rfl⟩ := hv
    · obtain ⟨r, hr, rfl⟩ := hasAnswer_iff.1 hv
      exact .inl (hasAnswer_iff.2 ⟨r, List.mem_of_mem_filter hr, rfl⟩)
    simp only [Db.deleteAboveBlock, LogState.deleteAboveBlock, List.mem_map, List.mem_filter] at hx
    obtain ⟨x, ⟨hx, -⟩, rfl⟩ := hx
    exact .inr ⟨x, hx, rfl⟩

def insertHeaders (rows new : List (HeaderRow H)) : List (HeaderRow H) :=
  new.foldl (fun rows row => insertNew HeaderRow.blockNumber row rows) rows

theorem foldl_ledger (rows : List LedgerRow) (db : Db H) :
    (rows.map Write.ledger).foldl Write.exec db = { db with ledgers := insertLedgers db.ledgers rows } := by
  induction rows generalizing db with
  | nil => rfl
  | cons r rows ih =>
    rw [map_cons, foldl_cons, ih]
    rfl

theorem foldl_header (rows : List (HeaderRow H)) (db : Db H) :
    (rows.map Write.header).foldl Write.exec db = { db with blocks := insertHeaders db.blocks rows } := by
  induction rows generalizing db with
  | nil => rfl
  | cons r rows ih =>
    rw [map_cons, foldl_cons, ih]
    rfl

theorem foldl_statement (sts : List Statement) (db : Db H) :
    (sts.map Write.statement).foldl Write.exec db = { db with log := execAll db.timestampOf db.log sts } := by
  induction sts generalizing db with
  | nil => rfl
  | cons st sts ih =>
    rw [map_cons, foldl_cons, ih]
    rfl

variable {x : HeaderRow H}

theorem mem_of_mem_insertHeaders {rows new : List (HeaderRow H)} (hx : x ∈ insertHeaders rows new) :
    x ∈ rows ∨ x ∈ new :=
  mem_of_mem_foldl_insertNew hx

private theorem exists_mem_insertHeaders {rows new : List (HeaderRow H)} {r : HeaderRow H} (hr : r ∈ new) :
    ∃ x ∈ insertHeaders rows new, x.blockNumber = r.blockNumber :=
  exists_mem_foldl_insertNew hr

theorem headerAt_of_headerRows (hlt : lo < hi) (hx : x ∈ d.headerRows db c lo hi) :
    lo ≤ x.blockNumber ∧ x.blockNumber < hi ∧ d.headerAt c x.blockNumber = some x := by
  have hself : ∀ n, d.headerAt c n = some x → x.blockNumber = n := by
    intro n hn
    simp only [headerAt, Option.map_eq_some_iff] at hn
    obtain ⟨-, -, rfl⟩ := hn
    rfl
  simp only [headerRows, List.mem_append, List.mem_filterMap, List.mem_insertionSort, List.mem_dedup,
    List.mem_map] at hx
  obtain ⟨n, ⟨l, hl, rfl⟩, hn⟩ | hx := hx
  · have hlog := Deployment.RangeOk.mem_logs_of_tickLogs hl
    rw [hself _ hn]
    exact ⟨(mem_logs.1 hlog).1, (mem_logs.1 hlog).2.1, hn⟩
  split at hx
  · cases hx
  rw [Option.mem_toList] at hx
  rw [hself _ hx]
  exact ⟨by omega, by omega, hx⟩

private theorem Deployment.Holds.rangeOk (h : d.Holds db c lo hi) (hwatches : d.cfg.WatchesRegistry) (hlt : lo < hi) :
    d.RangeOk db c lo hi :=
  ⟨h.lawful, hwatches, h.floor, hlt, h.vaults, h.ledgers⟩

private theorem Deployment.Holds.insertHeaders (h : d.Holds db c next reach) {new : List (HeaderRow H)}
    (hnew : ∀ x ∈ new, next ≤ x.blockNumber ∧ x.blockNumber < reach ∧ d.headerAt c x.blockNumber = some x) :
    d.Holds { db with blocks := insertHeaders db.blocks new } c next reach where
  lawful := h.lawful
  floor := h.floor
  le := h.le
  settled := h.settled
  headers := by
    intro x hx
    obtain hx | hx := mem_of_mem_insertHeaders hx
    · exact h.headers x hx
    · exact ⟨h.floor.trans (hnew x hx).1, (hnew x hx).2⟩
  tables := h.tables
  exclusions := h.exclusions
  vaults := h.vaults
  ledgers := h.ledgers

private theorem Deployment.Holds.timestampOf (h : d.Holds db c next reach) (hx : x ∈ db.blocks) :
    db.timestampOf x.blockNumber = c.timestampOf x.blockNumber := by
  have hfind : ∃ y, db.header x.blockNumber = some y := by
    rw [← isSome_iff_exists, Db.header, find?_isSome]
    exact ⟨x, hx, by simp⟩
  obtain ⟨y, hy⟩ := hfind
  have hblock : y.blockNumber = x.blockNumber := by simpa using find?_some hy
  have hheader := (h.headers y (mem_of_find?_eq_some hy)).2.2
  rw [hblock] at hheader
  simp only [Deployment.headerAt, map_eq_some_iff] at hheader
  obtain ⟨block, hget, rfl⟩ := hheader
  simp only [Db.timestampOf, hy, Chain.timestampOf, hget, map_some]

variable {xs : List VaultRow}

theorem mem_foldl_execVaults {x : VaultRow} (h : x ∈ sts.foldl Statement.execVaults xs) :
    ∃ y, (y ∈ xs ∨ .vault y ∈ sts) ∧ y.vaultAddress = x.vaultAddress ∧ y.registeredBlock = x.registeredBlock := by
  induction sts generalizing xs with
  | nil => exact ⟨x, .inl h, rfl, rfl⟩
  | cons st sts ih =>
    obtain ⟨y, hy | hy, hsame⟩ := ih h
    · cases st with
      | vault row =>
        obtain hy | rfl := mem_of_mem_insertNew hy
        · exact ⟨y, .inl hy, hsame⟩
        · exact ⟨y, .inr mem_cons_self, hsame⟩
      | vaultStatus row =>
        obtain ⟨z, hz, rfl⟩ := mem_map.1 hy
        refine ⟨z, .inl hz, ?_⟩
        unfold setVaultStatus at hsame
        split at hsame <;> exact hsame
      | _ => exact ⟨y, .inl hy, hsame⟩
    · exact ⟨y, .inr (mem_cons_of_mem _ hy), hsame⟩

theorem exists_mem_foldl_execVaults (h : (∃ x ∈ xs, x.vaultAddress = v) ∨ ∃ x, .vault x ∈ sts ∧ x.vaultAddress = v) :
    ∃ x ∈ sts.foldl Statement.execVaults xs, x.vaultAddress = v := by
  induction sts generalizing xs with
  | nil =>
    obtain h | ⟨x, hx, -⟩ := h
    · exact h
    · cases hx
  | cons st sts ih =>
    rw [foldl_cons]
    apply ih
    obtain ⟨x, hx, hv⟩ | ⟨x, hx, hv⟩ := h
    · refine .inl ?_
      cases st with
      | vault row => exact ⟨x, mem_insertNew_of_mem hx, hv⟩
      | vaultStatus row =>
        refine ⟨setVaultStatus row x, mem_map_of_mem hx, ?_⟩
        unfold setVaultStatus
        split <;> exact hv
      | _ => exact ⟨x, hx, hv⟩
    obtain rfl | hx := mem_cons.1 hx
    · obtain ⟨y, hy, hkey⟩ := exists_mem_insertNew VaultRow.vaultAddress x xs
      exact .inl ⟨y, hy, hkey.trans hv⟩
    · exact .inr ⟨x, hx, hv⟩

private theorem Deployment.Holds.retry (h : d.Holds db c lo hi) {timestampOf : Nat → Option Int} {p : List Statement}
    (hp : p <+: d.rows c lo hi hi) (htimestamp : ∀ st ∈ p, timestampOf st.blockNumber = c.timestampOf st.blockNumber) :
    ∃ q, q <+: d.rows c lo hi hi ∧ p <+: q ∧ p.foldl (Statement.execTables timestampOf) db.log.tables =
      execs c.timestampOf (d.rows c d.deployFloor lo lo ++ q) := by
  obtain ⟨q, hq, htables⟩ := h.tables
  have habsorbed : ∀ st ∈ q, st.execTables c.timestampOf (execs c.timestampOf (d.rows c d.deployFloor lo lo ++ q)) =
      execs c.timestampOf (d.rows c d.deployFloor lo lo ++ q) := by
    intro st hst
    exact (absorbed_execs (h.ordered hq) st (mem_append_right _ hst)).execTables
  simp only [execs, foldl_append] at habsorbed
  obtain ⟨q', hq', -, hpq, hfold⟩ := Replay.foldl_retry hq hp habsorbed
  refine ⟨q', hq', hpq, ?_⟩
  rw [foldl_execTables_congr htimestamp, htables, execs, execs, foldl_append, foldl_append, hfold]

/-- The statements of a tick, after its ledgers and its headers. -/
theorem Deployment.Holds.statements {db' : Db H} (h : d.Holds db' c lo hi) (hrange : d.RangeOk db c lo hi)
    (hledgers : db'.ledgers = insertLedgers db.ledgers (d.ledgerRows db c lo hi))
    (htimestamp : ∀ l ∈ d.tickLogs db c lo hi,
      db'.timestampOf l.place.blockNumber = c.timestampOf l.place.blockNumber)
    {sts : List Statement} (hsts : sts <+: d.statements db c lo hi) :
    d.Holds { db' with log := execAll db'.timestampOf db'.log sts } c lo hi ∧
      (sts = d.statements db c lo hi → d.Holds { db' with log := execAll db'.timestampOf db'.log sts } c hi hi) := by
  have hfloor := hrange.floor
  have hnonempty := hrange.nonempty
  have hblock : ∀ st ∈ sts, db'.timestampOf st.blockNumber = c.timestampOf st.blockNumber := by
    intro st hst
    obtain ⟨l, hl, hst⟩ := mem_flatMap.1 (hsts.subset hst)
    rw [(statement_of_handleLog hst).block]
    exact htimestamp l hl
  obtain ⟨q, hq, hpq, htables⟩ := h.retry (by rw [← hrange.filter_statements]; exact hsts.filter _)
    fun st hst => hblock st (mem_of_mem_filter hst)
  rw [foldl_execTables_filter] at htables
  have hexclusions : ∀ r ∈ sts.foldl Statement.execExclusions db'.log.exclusions, d.IsExclusion c hi r := by
    intro r hr
    obtain hr | hr := mem_foldl_execExclusions hr
    · exact h.exclusions.sound r hr
    · exact hrange.isExclusion_of_statements (hsts.subset hr)
  have hvaults : ∀ x ∈ sts.foldl Statement.execVaults db'.log.vaults, ∃ l ∈ c.logs d.deployFloor hi,
      d.Registers l x.vaultAddress ∧ l.place.blockNumber = x.registeredBlock := by
    intro x hx
    obtain ⟨y, hy | hy, haddress, hblock⟩ := mem_foldl_execVaults hx
    · rw [← haddress, ← hblock]
      exact h.vaults.sound y hy
    obtain ⟨l, hl, hregisters⟩ := hrange.registers_of_statements (hsts.subset hy)
    rw [← haddress, ← hblock]
    exact ⟨l, mem_logs_iff.2 ⟨logged_of_mem hfloor hl, (mem_logs.1 hl).2.1⟩, hregisters⟩
  have hok : d.LedgersOk c hi hi db'.ledgers (sts.foldl Statement.execVaults db'.log.vaults) := by
    rw [hledgers]
    apply hrange.ledgersOk_ledgerRows
    intro x hx
    obtain ⟨l, hl, hregisters, -⟩ := hvaults x hx
    exact mem_registered.2 ⟨l, hl, hregisters⟩
  rw [execAll_eq]
  constructor
  · refine ⟨h.lawful, h.floor, h.le, h.settled, h.headers, ⟨q, hq, htables⟩, ⟨hexclusions, ?_⟩, ⟨hvaults, ?_⟩, ?_⟩
    · exact fun r hr => mem_foldl_execExclusions_of_mem (h.exclusions.complete r hr)
    · exact fun v hv => exists_mem_foldl_execVaults (.inl (h.vaults.complete v hv))
    · exact ⟨hok.sound, fun m v ledger hm hnames => hok.complete m v ledger (by omega) hnames, hok.started⟩
  · rintro rfl
    refine ⟨h.lawful, by omega, le_refl _, Deployment.Settled.refl c hi, h.headers, ?_, ⟨hexclusions, ?_⟩,
      ⟨hvaults, ?_⟩, hok⟩
    · refine ⟨[], nil_prefix, ?_⟩
      rw [hrange.filter_statements] at hpq
      have hall : q = d.rows c lo hi hi := hq.eq_of_length (le_antisymm hq.length_le hpq.length_le)
      simp only [append_nil]
      rw [htables, hall, rows_of_settled h.lawful hfloor (by omega) h.settled]
    · intro r hr
      obtain ⟨l, hl, v, hnamed, hrow⟩ := hr
      have hl' := mem_logs_iff.1 hl
      obtain hlt | hge := lt_or_ge l.place.blockNumber lo
      · apply mem_foldl_execExclusions_of_mem
        apply h.exclusions.complete
        exact ⟨l, mem_logs_iff.2 ⟨hl'.1, hlt⟩, v,
          named_mono (by omega) (h.lawful.ledgerSilent l hi v hl'.1 hnamed), hrow⟩
      have hmem : l ∈ c.logs lo hi := mem_logs.2 ⟨hge, hl'.2, hl'.1.2⟩
      obtain ⟨r', hr', hkey⟩ := @exists_mem_foldl_execExclusions _ _ db'.log.exclusions
        (hrange.statements_of_isExclusion hmem hnamed hrow)
      rw [h.lawful.exclusion_eq ⟨l, hl, v, hnamed, hrow⟩ (hexclusions r' hr') hkey.symm]
      exact hr'
    · intro v hv
      apply exists_mem_foldl_execVaults
      obtain ⟨l, hl, hregisters⟩ := mem_registered.1 hv
      have hl' := mem_logs_iff.1 hl
      obtain hlt | hge := lt_or_ge l.place.blockNumber lo
      · exact .inl (h.vaults.complete v (mem_registered.2 ⟨l, mem_logs_iff.2 ⟨hl'.1, hlt⟩, hregisters⟩))
      · exact .inr (hrange.statements_of_registers (mem_logs.2 ⟨hge, hl'.2, hl'.1.2⟩) hregisters)

private theorem Deployment.Holds.insertLedgers_take (h : d.Holds db c lo hi) (hrange : d.RangeOk db c lo hi) (k : Nat) :
    d.Holds { db with ledgers := insertLedgers db.ledgers ((d.ledgerRows db c lo hi).take k) } c lo hi where
  lawful := h.lawful
  floor := h.floor
  le := h.le
  settled := h.settled
  headers := h.headers
  tables := h.tables
  exclusions := h.exclusions
  vaults := h.vaults
  ledgers := hrange.ledgersOk_take k

private theorem exists_headerRows (hl : l ∈ d.tickLogs db c lo hi) :
    ∃ x ∈ d.headerRows db c lo hi, x.blockNumber = l.place.blockNumber := by
  have hentry := (mem_logs.1 (Deployment.RangeOk.mem_logs_of_tickLogs hl)).2.2
  unfold Chain.entriesAt at hentry
  split at hentry
  · rename_i block hblock
    refine ⟨⟨l.place.blockNumber, d.hash (c.take (l.place.blockNumber + 1)), asI64 block.timestamp⟩, ?_, rfl⟩
    simp only [headerRows, List.mem_append, List.mem_filterMap, List.mem_insertionSort, List.mem_dedup, List.mem_map]
    exact .inl ⟨_, ⟨l, hl, rfl⟩, by simp [headerAt, hblock]⟩
  · cases hentry

private theorem exists_headerRows_last (hlt : lo < hi) (hhi : hi ≤ c.length) :
    ∃ x ∈ d.headerRows db c lo hi, x.blockNumber = hi - 1 := by
  obtain ⟨block, hblock⟩ : ∃ block, (c : List ChainBlock)[hi - 1]? = some block :=
    ⟨_, getElem?_eq_getElem (show hi - 1 < c.length by omega)⟩
  refine ⟨⟨hi - 1, d.hash (c.take (hi - 1 + 1)), asI64 block.timestamp⟩, ?_, rfl⟩
  have hheader : d.headerAt c (hi - 1) = some ⟨hi - 1, d.hash (c.take (hi - 1 + 1)), asI64 block.timestamp⟩ := by
    simp [headerAt, hblock]
  simp only [headerRows, mem_append, mem_filterMap]
  split
  · rename_i hmem
    exact .inl ⟨_, hmem, hheader⟩
  · exact .inr (by rw [hheader]; simp)

theorem foldl_take_rangeWrites (db : Db H) (k : Nat) :
    ∃ headers, headers <+: d.headerRows db c lo hi ∧ ∃ sts, sts <+: d.statements db c lo hi ∧
      (k ≤ (d.ledgerRows db c lo hi).length → sts = []) ∧
      ((d.rangeWrites db c lo hi).take k).foldl Write.exec db =
        { db with
          ledgers := insertLedgers db.ledgers ((d.ledgerRows db c lo hi).take k)
          blocks := Indexer.insertHeaders db.blocks headers
          log := execAll (Db.timestampOf { db with blocks := Indexer.insertHeaders db.blocks headers }) db.log
            sts } := by
  refine ⟨_, take_prefix (k - (d.ledgerRows db c lo hi).length) _, _, take_prefix
    (k - ((d.ledgerRows db c lo hi).length + (d.headerRows db c lo hi).length)) _, ?_, ?_⟩
  · intro hk
    rw [Nat.sub_eq_zero_of_le (by omega), take_zero]
  · simp only [rangeWrites, take_append, foldl_append, length_append, length_map,
      ← map_take, foldl_ledger, foldl_header, foldl_statement]
    rfl

theorem exists_header_rangeWrites (db : Db H) (hlt : lo < hi) (hhi : hi ≤ c.length) :
    ∃ x ∈ ((d.rangeWrites db c lo hi).foldl Write.exec db).blocks, x.blockNumber = hi - 1 := by
  simp only [rangeWrites, foldl_append, foldl_ledger, foldl_header, foldl_statement]
  obtain ⟨x, hx, hblock⟩ := @exists_headerRows_last _ d db c lo hi hlt hhi
  obtain ⟨y, hy, hy'⟩ := @exists_mem_insertHeaders _ db.blocks _ x hx
  exact ⟨y, hy, hy'.trans hblock⟩

/-- A tick that fails in its range keeps what the database holds; one that does not completes it. -/
theorem Deployment.Holds.rangeWrites (h : d.Holds db c lo hi) (hwatches : d.cfg.WatchesRegistry) (hlt : lo < hi) :
    (∀ k, d.Holds (((d.rangeWrites db c lo hi).take k).foldl Write.exec db) c lo hi) ∧
      d.Holds ((d.rangeWrites db c lo hi).foldl Write.exec db) c hi hi ∧
      (hi ≤ c.length → ∃ x ∈ ((d.rangeWrites db c lo hi).foldl Write.exec db).blocks, x.blockNumber = hi - 1) := by
  have hrange := h.rangeOk hwatches hlt
  have hheaders : ∀ k, d.Holds { db with
      ledgers := insertLedgers db.ledgers ((d.ledgerRows db c lo hi).take k)
      blocks := Indexer.insertHeaders db.blocks
        ((d.headerRows db c lo hi).take (k - (d.ledgerRows db c lo hi).length)) } c lo hi := by
    intro k
    exact (h.insertLedgers_take hrange k).insertHeaders fun x hx =>
      headerAt_of_headerRows hlt (mem_of_mem_take hx)
  -- the state before the statements
  have hbefore := hheaders ((d.ledgerRows db c lo hi).length + (d.headerRows db c lo hi).length)
  rw [Nat.add_sub_cancel_left, take_length, take_of_length_le (Nat.le_add_right _ _)] at hbefore
  have hstatements := fun sts => @Deployment.Holds.statements _ d db c lo hi _ hbefore hrange rfl (by
    intro l hl
    obtain ⟨x, hx, hblock⟩ := exists_headerRows hl
    obtain ⟨y, hy, hy'⟩ := @exists_mem_insertHeaders _ db.blocks _ x hx
    rw [← hblock, ← hy']
    exact hbefore.timestampOf hy) sts
  have hall : (d.rangeWrites db c lo hi).foldl Write.exec db = { db with
      ledgers := insertLedgers db.ledgers (d.ledgerRows db c lo hi)
      blocks := Indexer.insertHeaders db.blocks (d.headerRows db c lo hi)
      log := execAll
        (Db.timestampOf { db with blocks := Indexer.insertHeaders db.blocks (d.headerRows db c lo hi) }) db.log
        (d.statements db c lo hi) } := by
    rw [Deployment.rangeWrites, foldl_append, foldl_append, foldl_ledger, foldl_header, foldl_statement]
    rfl
  refine ⟨?_, ?_, ?_⟩
  · intro k
    simp only [Deployment.rangeWrites, take_append, foldl_append, length_append, length_map,
      ← map_take, foldl_ledger, foldl_header, foldl_statement]
    obtain hle | hge := le_total k ((d.ledgerRows db c lo hi).length + (d.headerRows db c lo hi).length)
    · rw [Nat.sub_eq_zero_of_le hle, take_zero]
      exact hheaders k
    rw [take_of_length_le (show (d.ledgerRows db c lo hi).length ≤ k by omega),
      take_of_length_le (show (d.headerRows db c lo hi).length ≤ k - (d.ledgerRows db c lo hi).length by omega)]
    exact (hstatements _ <| take_prefix _ _).1
  · rw [hall]
    exact (hstatements _ (prefix_refl _)).2 rfl
  · exact exists_header_rangeWrites db hlt

private theorem Deployment.Holds.decoded (h : d.Holds db c next next) :
    db.log.tables = (d.decoded c next).tables ∧ (∀ r, r ∈ db.log.exclusions ↔ r ∈ (d.decoded c next).exclusions) ∧
      ∀ v n, (∃ x ∈ db.log.vaults, x.vaultAddress = v ∧ x.registeredBlock = n) ↔
        ∃ l ∈ c.logs d.deployFloor next, d.Registers l v ∧ l.place.blockNumber = n := by
  refine ⟨?_, ?_, ?_⟩
  · obtain ⟨q, hq, htables⟩ := h.tables
    have hnone : d.rows c next next next = [] := by simp [Deployment.rows]
    rw [hnone, prefix_nil] at hq
    rw [htables, hq, append_nil, tables_decoded]
  · intro r
    rw [mem_exclusions_decoded h.lawful]
    exact ⟨h.exclusions.sound r, h.exclusions.complete r⟩
  · intro v n
    constructor
    · rintro ⟨x, hx, rfl, rfl⟩
      exact h.vaults.sound x hx
    · rintro ⟨l, hl, hregisters, rfl⟩
      obtain ⟨x, hx, rfl⟩ := h.vaults.complete v (mem_registered.2 ⟨l, hl, hregisters⟩)
      obtain ⟨l', hl', hregisters', hblock⟩ := h.vaults.sound x hx
      rw [mem_logs_iff] at hl hl'
      obtain rfl := h.lawful.registeredOnce l l' _ hl.1 hl'.1 hregisters hregisters'
      exact ⟨x, hx, rfl, hblock.symm⟩

def Deployment.nextBlock (d : Deployment H) (db : Db H) : Nat := firstBlock db.lastIndexedBlock d.deployFloor

theorem lastIndexedBlock_append {t : Nat} (h : ∀ li, db.lastIndexedBlock = some li → li ≤ t) (db' : Db H)
    (hruns : db'.runs = db.runs ++ [some t]) : db'.lastIndexedBlock = some t := by
  rw [lastIndexedBlock, hruns, filterMap_append, max?_eq_some_iff]
  constructor
  · simp
  · intro n hn
    rw [mem_append] at hn
    obtain hn | hn := hn
    · cases hmax : db.lastIndexedBlock with
      | none =>
        rw [lastIndexedBlock, max?_eq_none_iff] at hmax
        rw [hmax] at hn
        cases hn
      | some li => exact le_trans ((max?_eq_some_iff.1 hmax).2 n hn) (h li hmax)
    simp only [filterMap_cons, id, filterMap_nil, mem_singleton] at hn
    exact hn.le

theorem lastIndexedBlock_append_self (db' : Db H) (hruns : db'.runs = db.runs ++ [db.lastIndexedBlock]) :
    db'.lastIndexedBlock = db.lastIndexedBlock := by
  cases hmax : db.lastIndexedBlock with
  | none =>
    rw [hmax] at hruns
    rw [lastIndexedBlock, hruns, filterMap_append]
    simpa [lastIndexedBlock] using hmax
  | some li =>
    rw [hmax] at hruns
    refine lastIndexedBlock_append ?_ db' hruns
    intro li' hli'
    rw [hmax, some.injEq] at hli'
    exact hli'.ge

variable {li : Nat}

theorem lastIndexedBlock_deleteAboveBlock {root : Int} (h : db.lastIndexedBlock = some li) (hroot : root ≤ li) :
    (db.deleteAboveBlock root).lastIndexedBlock = if root < 0 then none else some root.toNat := by
  obtain ⟨hmem, hmax⟩ := List.max?_eq_some_iff.1 h
  have hcapped : ∀ n, n ∈ (db.deleteAboveBlock root).runs.filterMap id → (n : Int) ≤ root := by
    intro n hn
    simp only [deleteAboveBlock, List.mem_filterMap, List.mem_map, id] at hn
    obtain ⟨_, ⟨run, -, hrun⟩, rfl⟩ := hn
    unfold capRun at hrun
    split at hrun
    · split at hrun
      · split at hrun
        · cases hrun
        cases hrun
        omega
      cases hrun
      omega
    · cases hrun
  split
  · rename_i hneg
    rw [lastIndexedBlock, List.max?_eq_none_iff, List.eq_nil_iff_forall_not_mem]
    intro n hn
    have := hcapped n hn
    omega
  rename_i hpos
  rw [lastIndexedBlock, List.max?_eq_some_iff]
  constructor
  · simp only [deleteAboveBlock, List.mem_filterMap, List.mem_map, id] at hmem ⊢
    obtain ⟨_, hrun, rfl⟩ := hmem
    refine ⟨_, ⟨_, hrun, rfl⟩, ?_⟩
    simp only [capRun]
    split
    · rfl
    rw [Option.some.injEq]
    omega
  · intro n hn
    have := hcapped n hn
    omega

theorem runs_foldl_rangeWrites (k : Nat) :
    (((d.rangeWrites db c lo hi).take k).foldl Write.exec db).runs = db.runs := by
  simp only [rangeWrites, take_append, foldl_append, ← map_take, foldl_ledger, foldl_header, foldl_statement]

theorem mem_blocks_foldl_rangeWrites {x : HeaderRow H} (hx : x ∈ db.blocks) (k : Nat) :
    x ∈ (((d.rangeWrites db c lo hi).take k).foldl Write.exec db).blocks := by
  have hmem : ∀ new, x ∈ insertHeaders db.blocks new := mem_foldl_insertNew_of_mem hx
  simp only [rangeWrites, take_append, foldl_append, ← map_take, foldl_ledger, foldl_header, foldl_statement]
  exact hmem _

section Reorg

variable [DecidableEq H]

theorem walkBackToMatch_spec (db : Db H) (c : Chain) (n : Nat) : d.walkBackToMatch db c n = (d.deployFloor : Int) - 1 ∨
      ∃ m ≤ n, d.deployFloor ≤ m ∧ d.hashMatches db c m = true ∧ d.walkBackToMatch db c n = (m : Int) := by
  induction n with
  | zero =>
    unfold walkBackToMatch
    split
    · rename_i h
      exact .inr ⟨0, le_refl _, h.1, h.2, rfl⟩
    · exact .inl rfl
  | succ n ih =>
    unfold walkBackToMatch
    split
    · rename_i hfloor
      split
      · rename_i hmatch
        exact .inr ⟨n + 1, le_refl _, hfloor, hmatch, rfl⟩
      obtain h | ⟨m, hm, h⟩ := ih
      · exact .inl h
      · exact .inr ⟨m, by omega, h⟩
    · exact .inl rfl

theorem agree_of_hashMatches (hheaders : ∀ x ∈ db.blocks, d.headerAt e x.blockNumber = some x) {m : Nat}
    (hmatch : d.hashMatches db c m = true) : Agree c e (m + 1) := by
  unfold hashMatches at hmatch
  split at hmatch
  · rename_i stored header hstored hheader
    simp only [getBlockHash, map_eq_some_iff] at hstored
    obtain ⟨x, hx, rfl⟩ := hstored
    have hblock : x.blockNumber = m := by simpa using find?_some hx
    have hseen := hheaders x (mem_of_find?_eq_some hx)
    rw [hblock] at hseen
    simp only [headerAt, map_eq_some_iff] at hheader hseen
    obtain ⟨_, -, rfl⟩ := hheader
    obtain ⟨_, -, rfl⟩ := hseen
    have htake := d.hash_injective (of_decide_eq_true hmatch)
    intro n hn
    have hget := congrArg (fun l => l[n]?) htake
    simpa [getElem?_take, hn] using hget
  · cases hmatch

theorem header_of_hashMatches {m : Nat} (h : d.hashMatches db c m = true) : ∃ x ∈ db.blocks, x.blockNumber = m := by
  unfold hashMatches at h
  split at h
  · rename_i stored header hstored hheader
    simp only [getBlockHash, map_eq_some_iff] at hstored
    obtain ⟨x, hx, -⟩ := hstored
    exact ⟨x, mem_of_find?_eq_some hx, by simpa using find?_some hx⟩
  · cases h

/-- The header of the cursor is stored, unless the cursor is the block below the floor. -/
def Deployment.CursorStored (d : Deployment H) (db : Db H) : Prop :=
  ∀ li, db.lastIndexedBlock = some li →
    li + 1 = d.deployFloor ∨ (d.deployFloor ≤ li ∧ ∃ x ∈ db.blocks, x.blockNumber = li)

namespace Deployment.CursorStored

omit [DecidableEq H] in
private theorem resolveCursorStart (h : d.CursorStored db) :
    resolveCursorStart db.lastIndexedBlock d.deployFloor = db.lastIndexedBlock := by
  cases hli : db.lastIndexedBlock with
  | none => rfl
  | some li =>
    simp only [Indexer.resolveCursorStart]
    rw [if_neg]
    obtain heq | ⟨hle, -⟩ := h li hli <;> omega

section

variable (h : d.CursorStored db)

include h

theorem reorgRoot_spec {root : Int} (hroot : d.reorgRoot db c = some root) :
    ∃ li, db.lastIndexedBlock = some li ∧ root ≤ li ∧ (d.deployFloor : Int) - 1 ≤ root ∧
      (root = (d.deployFloor : Int) - 1 ∨ ∃ m, root = (m : Nat) ∧ d.deployFloor ≤ m ∧ d.hashMatches db c m = true) := by
  unfold reorgRoot at hroot
  rw [h.resolveCursorStart] at hroot
  cases hli : db.lastIndexedBlock with
  | none =>
    rw [hli] at hroot
    cases hroot
  | some li =>
    simp only [hli] at hroot
    have hfloor : d.deployFloor ≤ li + 1 := by
      obtain heq | ⟨hle, -⟩ := h li hli <;> omega
    split at hroot
    · split at hroot
      · rw [some.injEq] at hroot
        subst hroot
        refine ⟨li, rfl, ?_⟩
        obtain heq | ⟨m, hm, hfloor', hmatch, heq⟩ := @walkBackToMatch_spec _ d _ db c li
        · rw [heq]
          exact ⟨by omega, by omega, .inl rfl⟩
        rw [heq]
        exact ⟨by omega, by omega, .inr ⟨m, rfl, hfloor', hmatch⟩⟩
      · cases hroot
    · cases hroot

theorem agree_of_unchanged (hheaders : ∀ x ∈ db.blocks, d.headerAt e x.blockNumber = some x)
    (hroot : d.reorgRoot db c = none) (hcursor : ∀ li, db.lastIndexedBlock = some li → li < c.length) :
    d.nextBlock db = d.deployFloor ∨ Agree e c (d.nextBlock db) := by
  cases hli : db.lastIndexedBlock with
  | none => exact .inl (by simp [nextBlock, hli, firstBlock])
  | some li =>
    have hnext : d.nextBlock db = max (li + 1) d.deployFloor := by
      simp [nextBlock, hli, firstBlock]
    obtain heq | ⟨hle, x, hx, hblock⟩ := h li hli
    · exact .inl (by omega)
    refine .inr ?_
    have hmatch : d.hashMatches db c li = true := by
      obtain ⟨y, hy⟩ : ∃ y, db.header li = some y := by
        rw [← isSome_iff_exists, Db.header, find?_isSome]
        exact ⟨x, hx, by simpa using hblock⟩
      have hlt := hcursor li hli
      have hget := getElem?_eq_getElem hlt
      unfold reorgRoot at hroot
      rw [h.resolveCursorStart, hli] at hroot
      simp only [getBlockHash, hy, map_some, headerAt, hget] at hroot
      simp only [hashMatches, getBlockHash, hy, map_some, headerAt, hget, decide_eq_true_eq]
      by_contra hne
      rw [if_pos hne] at hroot
      cases hroot
    rw [hnext, max_eq_left (by omega)]
    exact (Indexer.agree_of_hashMatches hheaders hmatch).symm

theorem fromBlock_of_unchanged (hroot : d.reorgRoot db c = none) :
    d.lastIndexed db c = db.lastIndexedBlock ∧ d.fromBlock db c = d.nextBlock db := by
  have hlast : d.lastIndexed db c = db.lastIndexedBlock := by
    simp only [lastIndexed, hroot, h.resolveCursorStart]
  exact ⟨hlast, by rw [fromBlock, hlast, nextBlock]⟩

theorem rollback {root : Int} (hroot : d.reorgRoot db c = some root) :
    (db.deleteAboveBlock root).lastIndexedBlock = d.lastIndexed db c ∧ root = (d.fromBlock db c : Int) - 1 ∧
      d.deployFloor ≤ d.fromBlock db c ∧ d.fromBlock db c ≤ d.nextBlock db ∧
      d.CursorStored (db.deleteAboveBlock root) := by
  obtain ⟨li, hli, hle, hfloor, hmatch⟩ := h.reorgRoot_spec hroot
  have hlast : (db.deleteAboveBlock root).lastIndexedBlock = d.lastIndexed db c := by
    rw [lastIndexedBlock_deleteAboveBlock hli hle]
    simp only [lastIndexed, hroot]
  have hfrom : root = (d.fromBlock db c : Int) - 1 := by
    simp only [fromBlock, lastIndexed, hroot, firstBlock]
    split
    · simp only [map_none, getD_none]
      omega
    simp only [map_some, getD_some]
    omega
  have hnext : d.nextBlock db = max (li + 1) d.deployFloor := by
    simp [nextBlock, hli, firstBlock]
  refine ⟨hlast, hfrom, by omega, by omega, ?_⟩
  intro li' hli'
  simp only [hlast, lastIndexed, hroot] at hli'
  split at hli'
  · cases hli'
  rw [some.injEq] at hli'
  obtain heq | ⟨m, heq, hfloor', hmatch⟩ := hmatch
  · exact .inl (by omega)
  obtain ⟨x, hx, hblock⟩ := header_of_hashMatches hmatch
  refine .inr ⟨by omega, x, mem_filter.2 ⟨hx, ?_⟩, by omega⟩
  rw [survives_eq _ rfl, decide_eq_true_eq]
  omega

end

end Deployment.CursorStored

end Reorg

def Event.isQuiet : Event → Bool
  | .vaultRegistered .. | .receiptReleased .. => false
  | _ => true

def Chain.IsQuiet (c : Chain) : Prop :=
  ∀ block ∈ c, block.exclusionLedgers = [] ∧ ∀ log ∈ block.logs, log.event.all Event.isQuiet = true

instance (c : Chain) : Decidable c.IsQuiet := inferInstanceAs (Decidable (∀ _ ∈ _, _))

theorem Chain.IsQuiet.ledgerAt (h : c.IsQuiet) (v ledger : Address) (n : Nat) : c.ledgerAt v n ≠ .ledger ledger := by
  unfold Chain.ledgerAt
  split
  · rename_i block hblock
    simp [(h block (mem_of_getElem? hblock)).1]
  · simp

private theorem Chain.IsQuiet.isQuiet (h : c.IsQuiet) (hl : d.Logged c l) : l.event.isQuiet = true := by
  obtain ⟨-, hl⟩ := hl
  unfold Chain.entriesAt at hl
  split at hl
  · rename_i block hblock
    simp only [ChainBlock.entries, mem_filterMap, map_eq_some_iff] at hl
    obtain ⟨⟨log, i⟩, hlog, event, hevent, hl⟩ := hl
    have hall := (h block (mem_of_getElem? hblock)).2 log (fst_mem_of_mem_zipIdx hlog)
    rw [show log.event = some event from hevent, all_some] at hall
    rw [← hl]
    exact hall
  · cases hl

private theorem Chain.IsQuiet.not_registers (h : c.IsQuiet) (hl : d.Logged c l) : l.event.registeredVault ≠ some v := by
  have hquiet := h.isQuiet hl
  cases hevent : l.event <;> simp [hevent, Event.isQuiet, Event.registeredVault] at hquiet ⊢

private theorem Chain.IsQuiet.lawful (h : c.IsQuiet) : d.Lawful c := by
  have hnamed : ∀ b ledger v, (ledger, v) ∉ d.named c b := by
    intro b ledger v hnamed
    obtain ⟨n, -, -, -, hread⟩ := mem_named.1 hnamed
    exact h.ledgerAt v ledger n hread
  have hreleased : ∀ l id a t, d.Logged c l → l.event ≠ .receiptReleased id a t := by
    intro l id a t hl hevent
    have hquiet := h.isQuiet hl
    simp [hevent, Event.isQuiet] at hquiet
  constructor
  · exact fun l b v hl _ hv => (h.not_registers hl hv).elim
  · exact fun l l' v hl _ hregisters _ => (h.not_registers hl hregisters.2).elim
  · exact fun v n ledger _ hread => (h.ledgerAt v ledger _ hread).elim
  · exact fun l v n ledger hl hregisters => (h.not_registers hl hregisters.2).elim
  · exact fun b ledger v v' hmem => (hnamed b ledger v hmem).elim
  · exact fun l b v _ hmem => (hnamed b _ v hmem).elim
  · exact fun l b v _ hmem => (hnamed b _ v hmem).elim
  · exact fun l l' b v v' r r' _ _ hmem => (hnamed b _ v hmem).elim
  · exact fun l id a t hl _ hevent => (hreleased l id a t hl hevent).elim
  · exact fun l l' id a t a' t' hl _ _ _ hevent => (hreleased l id a t hl hevent).elim

private theorem Chain.IsQuiet.settled (h : c.IsQuiet) (n b : Nat) : d.Settled c n b := by
  intro l _ hregistered
  obtain ⟨l', hl', hregisters⟩ := mem_registered.1 hregistered
  exact (h.not_registers (mem_logs_iff.1 hl').1 hregisters.2).elim

/-- The indexer with what its rows are of: the chain seen by the last tick that wrote something, and the end of the
blocks that ticks have written rows of since the cursor moved. -/
structure Progress (H : Type) where
  db : Db H
  seen : Chain
  reach : Nat

/-- The end of the blocks that a tick can read from `n` on. -/
def Deployment.windowEnd (d : Deployment H) (n : Nat) : Nat :=
  let w := n + max d.cfg.maxBlocksPerTick 1
  match d.cfg.endBlock with
  | some e => min w (e + 1)
  | none => w

variable {fromBlock safeHead : Nat}

private theorem tickTarget_spec {target : Nat}
    (h : tickTarget fromBlock safeHead d.cfg.endBlock d.cfg.maxBlocksPerTick = some target) :
    fromBlock ≤ target ∧ target ≤ safeHead ∧ target + 1 ≤ d.windowEnd fromBlock ∧
      ∀ r, r ≤ safeHead + 1 → r ≤ d.windowEnd fromBlock → r ≤ target + 1 := by
  unfold tickTarget at h
  unfold windowEnd
  cases hend : d.cfg.endBlock with
  | none | some e =>
    simp only [hend, ite_none_right_eq_some, some.injEq] at h ⊢
    exact ⟨by omega, by omega, by omega, fun r hsafe hwindow => by omega⟩

private theorem tickTarget_none {r : Nat}
    (h : tickTarget fromBlock safeHead d.cfg.endBlock d.cfg.maxBlocksPerTick = none) (hsafe : r ≤ safeHead + 1)
    (hwindow : r ≤ d.windowEnd fromBlock) : r ≤ fromBlock := by
  unfold tickTarget at h
  unfold windowEnd at hwindow
  cases hend : d.cfg.endBlock with
  | none | some e =>
    simp only [hend, ite_eq_right_iff, reduceCtorEq, imp_false] at h hwindow
    omega

section Run

variable (d)

def Deployment.init : Progress H := ⟨.empty, [], d.deployFloor⟩

/-- The invariant of the runs. -/
structure Deployment.Following (p : Progress H) : Prop where
  holds : d.Holds p.db p.seen (d.nextBlock p.db) p.reach
  cursor : ∀ li, p.db.lastIndexedBlock = some li →
    li + 1 = d.deployFloor ∨ (d.deployFloor ≤ li ∧ ∃ x ∈ p.db.blocks, x.blockNumber = li)
  window : d.nextBlock p.db = p.reach ∨ p.reach ≤ d.windowEnd (d.nextBlock p.db)

variable {d} {p : Progress H} {t : Tick}

private theorem following_init : d.Following d.init := by
  have hnext : d.nextBlock (Db.empty : Db H) = d.deployFloor := by
    simp [nextBlock, lastIndexedBlock, Db.empty, firstBlock]
  constructor
  · rw [Deployment.init, hnext]
    refine ⟨Chain.IsQuiet.lawful (by simp [Chain.IsQuiet]), le_refl _, le_refl _, Deployment.Settled.refl _ _,
      by simp [Db.empty], ⟨[], nil_prefix, ?_⟩, ⟨?_, ?_⟩, ⟨?_, ?_⟩, ⟨?_, ?_, ?_⟩⟩
    · simp [Deployment.rows, execs, Db.empty, LogState.empty]
    · simp [Db.empty, LogState.empty]
    · rintro r ⟨l, hl, -⟩
      simp at hl
    · simp [Db.empty, LogState.empty]
    · intro v hv
      simp [registered] at hv
    · simp [Db.empty]
    · intro n v ledger hn hnames
      have := hnames.1
      omega
    · intro v hv
      simp [Db.empty, LogState.empty, hasAnswer] at hv
  · intro li hli
    simp [Deployment.init, Db.empty, lastIndexedBlock] at hli
  · exact .inl hnext

variable [DecidableEq H]

variable (d)

def Deployment.reachRolled (p : Progress H) (c : Chain) : Nat :=
  match d.reorgRoot p.db c with
  | some _ => d.fromBlock p.db c
  | none => p.reach

def Deployment.reachAfter (p : Progress H) (c : Chain) : Nat :=
  match d.target p.db c with
  | some target => target + 1
  | none => d.reachRolled p c

def Deployment.follow (p : Progress H) (t : Tick) : Progress H :=
  let db := d.runOnce p.db t
  match t.failsAfter with
  | none => ⟨db, t.chain, d.reachAfter p t.chain⟩
  | some k =>
    if ((d.writes p.db t.chain).take k).isEmpty then ⟨db, p.seen, p.reach⟩
    else if k ≤ (d.reorgRoot p.db t.chain).toList.length then ⟨db, t.chain, d.reachRolled p t.chain⟩
    else ⟨db, t.chain, d.reachAfter p t.chain⟩

/-- What a tick must meet.

* Its chain has the block of the cursor.  Where the hash there is the stored one, and failed ticks have written rows of
  blocks above it, the chain has not changed in these blocks, and its safe head is not below them.  A header counts as
  a row: it is kept on conflict, dates the rows that come later, and is what the next search for a root compares with.
* A vault that is registered in the range has no logs from before the range, nor any that a failed tick or a rollback
  separates from its registration.
* A rollback separates no answer about the ledger of a vault from the registration of the vault, nor the row of a ledger
  from the block where it was named first. -/
structure Deployment.Follows (p : Progress H) (t : Tick) : Prop where
  lawful : d.Lawful t.chain
  genesis : t.chain ≠ []
  agrees : d.reorgRoot p.db t.chain = none →
    (∀ li, p.db.lastIndexedBlock = some li → li < t.chain.length) ∧
    (d.nextBlock p.db < p.reach → Agree p.seen t.chain p.reach ∧ p.reach ≤ t.chain.safeHead + 1)
  settled : ∀ target, d.target p.db t.chain = some target →
    d.Settled t.chain (d.fromBlock p.db t.chain) (target + 1) ∧
      d.Settled t.chain (d.reachRolled p t.chain) (target + 1)
  rollback : ∀ root, d.reorgRoot p.db t.chain = some root →
    d.Settled p.seen (d.fromBlock p.db t.chain) (d.nextBlock p.db) ∧
    ∀ r ∈ p.db.ledgers,
      (root < r.blockNumber → ∀ ledger (m : Nat), r.ledger = some ledger → (m : Int) ≤ root →
        ¬d.Names p.seen r.vault ledger m) ∧
      ((r.blockNumber : Int) ≤ root → r.vault = d.cfg.vault ∨
        r.vault ∈ d.registered p.seen (d.fromBlock p.db t.chain))

variable {d}

variable {target : Nat}

theorem target_spec (h : d.target db c = some target) :
    d.fromBlock db c ≤ target ∧ target ≤ c.safeHead ∧ target + 1 ≤ d.windowEnd (d.fromBlock db c) ∧
      ∀ r, r ≤ c.safeHead + 1 → r ≤ d.windowEnd (d.fromBlock db c) → r ≤ target + 1 := by
  unfold Deployment.target at h
  split at h
  · cases h
  · exact tickTarget_spec h

private theorem Deployment.Following.rolledBack (h : d.Following p) (hfollows : d.Follows p t) :
    d.Following ⟨d.rolledBack p.db t.chain, t.chain, d.reachRolled p t.chain⟩ ∧
      (d.rolledBack p.db t.chain).lastIndexedBlock = d.lastIndexed p.db t.chain := by
  have hheaders : ∀ x ∈ p.db.blocks, d.headerAt p.seen x.blockNumber = some x := fun x hx => (h.holds.headers x hx).2.2
  have hstored : d.CursorStored p.db := h.cursor
  cases hroot : d.reorgRoot p.db t.chain with
  | none =>
    simp only [Deployment.rolledBack, Deployment.reachRolled, hroot, (hstored.fromBlock_of_unchanged hroot).1, and_true]
    obtain ⟨hcursor, habove⟩ := hfollows.agrees hroot
    refine ⟨?_, h.cursor, h.window⟩
    obtain hlt | heq := Nat.lt_or_eq_of_le h.holds.le
    · exact h.holds.agree (habove hlt).1 hfollows.lawful
    have hholds := h.holds
    simp only [← heq] at hholds ⊢
    obtain hfloor | hagree := hstored.agree_of_unchanged hheaders hroot hcursor
    · rw [hfloor] at hholds ⊢
      exact hholds.of_floor hfollows.lawful
    · exact hholds.agree hagree hfollows.lawful
  | some root =>
    obtain ⟨-, -, -, hfloor, hmatch⟩ := hstored.reorgRoot_spec hroot
    obtain ⟨hlast, hfrom, hfloor', hbelow, hcursor⟩ := hstored.rollback hroot
    obtain ⟨hsettled, hrows⟩ := hfollows.rollback root hroot
    have hnext : d.nextBlock (p.db.deleteAboveBlock root) = d.fromBlock p.db t.chain := by
      rw [Deployment.nextBlock, hlast, Deployment.fromBlock]
    simp only [Deployment.rolledBack, Deployment.reachRolled, hroot]
    refine ⟨⟨?_, hcursor, .inl hnext⟩, hlast⟩
    rw [hnext]
    have hholds := h.holds.deleteAboveBlock hfrom hfloor' hbelow hsettled
      (fun r hr => (hrows r hr).1) (fun r hr => (hrows r hr).2)
    obtain heq | ⟨m, heq, -, hmatch⟩ := hmatch
    · have hfloor'' : d.fromBlock p.db t.chain = d.deployFloor := by omega
      rw [hfloor''] at hholds ⊢
      exact hholds.of_floor hfollows.lawful
    have hm : d.fromBlock p.db t.chain = m + 1 := by omega
    rw [hm] at hholds ⊢
    exact hholds.agree (agree_of_hashMatches hheaders hmatch).symm hfollows.lawful

private theorem Deployment.Following.nextBlock_rolledBack (h : d.Following p) (hfollows : d.Follows p t) :
    d.nextBlock (d.rolledBack p.db t.chain) = d.fromBlock p.db t.chain := by
  rw [nextBlock, (h.rolledBack hfollows).2, fromBlock]

private theorem Deployment.Following.reachRolled_le (h : d.Following p) (hfollows : d.Follows p t) :
    d.fromBlock p.db t.chain = d.reachRolled p t.chain ∨ (d.reachRolled p t.chain ≤ t.chain.safeHead + 1 ∧
        d.reachRolled p t.chain ≤ d.windowEnd (d.fromBlock p.db t.chain)) := by
  have hnext := h.nextBlock_rolledBack hfollows
  cases hroot : d.reorgRoot p.db t.chain with
  | none =>
    simp only [Deployment.rolledBack, hroot] at hnext
    simp only [reachRolled, hroot, ← hnext]
    obtain hlt | heq := Nat.lt_or_eq_of_le h.holds.le
    · obtain heq | hwindow := h.window
      · exact .inl heq
      · exact .inr ⟨((hfollows.agrees hroot).2 hlt).2, hwindow⟩
    · exact .inl heq
  | some root =>
    simp only [reachRolled, hroot]
    exact .inl trivial

private theorem Deployment.Following.range (h : d.Following p) (hfollows : d.Follows p t)
    (htarget : d.target p.db t.chain = some target) :
    d.Holds (d.rolledBack p.db t.chain) t.chain (d.fromBlock p.db t.chain) (target + 1) := by
  obtain ⟨hfrom, hsafe, hwindow, hmax⟩ := target_spec htarget
  obtain ⟨hsettled, hreach⟩ := hfollows.settled target htarget
  have hholds := (h.rolledBack hfollows).1.holds
  simp only [h.nextBlock_rolledBack hfollows] at hholds
  refine hholds.widen ?_ hsettled hreach
  obtain heq | ⟨hsafe', hwindow'⟩ := h.reachRolled_le hfollows
  · omega
  · exact hmax _ hsafe' hwindow'

private theorem target_none {r : Nat} (h : d.target db c = none) (hsafe : r ≤ c.safeHead + 1)
    (hwindow : r ≤ d.windowEnd (d.fromBlock db c)) : r ≤ d.fromBlock db c := by
  unfold Deployment.target at h
  split at h
  · omega
  · exact tickTarget_none h hsafe hwindow

theorem foldl_rollback : ((d.reorgRoot db c).toList.map Write.rollback).foldl Write.exec db = d.rolledBack db c := by
  unfold rolledBack
  cases d.reorgRoot db c <;> rfl

theorem writes_of_target (h : d.target db c = some target) : d.writes db c = (d.reorgRoot db c).toList.map .rollback ++
      d.rangeWrites (d.rolledBack db c) c (d.fromBlock db c) (target + 1) := by
  simp only [Deployment.writes, h]

theorem writes_of_none (h : d.target db c = none) : d.writes db c = (d.reorgRoot db c).toList.map .rollback := by
  simp only [Deployment.writes, h, append_nil]

/-- A tick that succeeds leaves nothing above its cursor. -/
theorem Deployment.Following.succeeds (h : d.Following p) (hfollows : d.Follows p t) (hwatches : d.cfg.WatchesRegistry)
    (hfails : t.failsAfter = none) :
    d.Following (d.follow p t) ∧ d.nextBlock (d.follow p t).db = (d.follow p t).reach := by
  obtain ⟨hrolled, hlast⟩ := h.rolledBack hfollows
  have hnext := h.nextBlock_rolledBack hfollows
  simp only [Deployment.follow, Deployment.runOnce, reachAfter, hfails]
  cases htarget : d.target p.db t.chain with
  | none =>
    simp only
    rw [writes_of_none htarget, foldl_rollback]
    set db' : Db H := { d.rolledBack p.db t.chain with
      runs := (d.rolledBack p.db t.chain).runs ++ [d.lastIndexed p.db t.chain] } with hdb'
    have hlast' : db'.lastIndexedBlock = (d.rolledBack p.db t.chain).lastIndexedBlock :=
      lastIndexedBlock_append_self db' (by rw [hdb', hlast])
    have hnext' : d.nextBlock db' = d.fromBlock p.db t.chain := by
      rw [nextBlock, hlast', ← hnext, nextBlock]
    have hholds := hrolled.holds
    rw [hnext] at hholds
    have heq : d.fromBlock p.db t.chain = d.reachRolled p t.chain := by
      obtain heq | ⟨hsafe, hwindow⟩ := h.reachRolled_le hfollows
      · exact heq
      · exact le_antisymm hholds.le (target_none htarget hsafe hwindow)
    refine ⟨⟨?_, ?_, .inl (hnext'.trans heq)⟩, hnext'.trans heq⟩
    · rw [hnext']
      exact hholds.runs rfl rfl rfl
    · intro li hli
      rw [hlast'] at hli
      exact hrolled.cursor li hli
  | some target =>
    simp only
    rw [writes_of_target htarget, foldl_append, foldl_rollback]
    obtain ⟨hfrom, hsafe, -, -⟩ := target_spec htarget
    obtain ⟨-, hholds, hheader⟩ := (h.range hfollows htarget).rangeWrites hwatches (by omega)
    set after := (d.rangeWrites (d.rolledBack p.db t.chain) t.chain (d.fromBlock p.db t.chain) (target + 1)).foldl
      Write.exec (d.rolledBack p.db t.chain) with hafter
    have hruns : after.runs = (d.rolledBack p.db t.chain).runs := by
      have hruns := @runs_foldl_rangeWrites _ d (d.rolledBack p.db t.chain) t.chain (d.fromBlock p.db t.chain)
        (target + 1)
        (d.rangeWrites (d.rolledBack p.db t.chain) t.chain (d.fromBlock p.db t.chain) (target + 1)).length
      rwa [take_length] at hruns
    set db' : Db H := { after with runs := after.runs ++ [some target] } with hdb'
    have hlast' : db'.lastIndexedBlock = some target := by
      refine @lastIndexedBlock_append _ (d.rolledBack p.db t.chain) _ ?_ db' (by rw [hdb', hruns])
      intro li hli
      rw [nextBlock, hli] at hnext
      simp only [firstBlock, map_some, getD_some] at hnext
      omega
    have hfloor := hholds.floor
    have hfloor' := (h.range hfollows htarget).floor
    have hnext' : d.nextBlock db' = target + 1 := by
      simp only [nextBlock, hlast', firstBlock, map_some, getD_some]
      omega
    refine ⟨⟨?_, ?_, .inl hnext'⟩, hnext'⟩
    · rw [hnext']
      exact hholds.runs rfl rfl rfl
    · intro li hli
      rw [hlast', some.injEq] at hli
      have hlength : target + 1 ≤ t.chain.length := by
        have hpos := length_pos_iff.2 hfollows.genesis
        unfold Chain.safeHead at hsafe
        omega
      obtain ⟨x, hx, hblock⟩ := hheader hlength
      exact .inr ⟨by omega, x, hx, by omega⟩

/-- A tick that fails. -/
theorem Deployment.Following.fails (h : d.Following p) (hfollows : d.Follows p t) (hwatches : d.cfg.WatchesRegistry)
    {k : Nat} (hfails : t.failsAfter = some k) : d.Following (d.follow p t) := by
  obtain ⟨hrolled, hlast⟩ := h.rolledBack hfollows
  have hnext := h.nextBlock_rolledBack hfollows
  simp only [Deployment.follow, Deployment.runOnce, hfails]
  split
  · rename_i hnothing
    rw [isEmpty_iff.1 hnothing]
    exact h
  rename_i hsomething
  split
  · -- only the rollback
    rename_i hk
    have hpos : k ≠ 0 := by
      rintro rfl
      simp at hsomething
    have hwrites : (d.writes p.db t.chain).take k = (d.reorgRoot p.db t.chain).toList.map .rollback := by
      cases hroot : d.reorgRoot p.db t.chain with
      | none =>
        simp only [hroot, toList_none, length_nil, nonpos_iff_eq_zero] at hk
        omega
      | some root =>
        simp only [hroot, toList_some, length_singleton] at hk
        rw [show k = 1 by omega, Deployment.writes, hroot]
        rfl
    rw [hwrites, foldl_rollback]
    exact hrolled
  rename_i hk
  unfold reachAfter
  cases htarget : d.target p.db t.chain with
  | none =>
    rw [writes_of_none htarget, take_of_length_le (by rw [length_map]; omega), foldl_rollback]
    exact hrolled
  | some target =>
    obtain ⟨hfrom, -, hwindow, -⟩ := target_spec htarget
    rw [writes_of_target htarget, take_append, take_of_length_le (by rw [length_map]; omega),
      foldl_append, foldl_rollback]
    set k' := k - ((d.reorgRoot p.db t.chain).toList.map (@Write.rollback H)).length
    have hruns := @runs_foldl_rangeWrites _ d (d.rolledBack p.db t.chain) t.chain (d.fromBlock p.db t.chain)
      (target + 1) k'
    have hblocks := fun x hx => @mem_blocks_foldl_rangeWrites _ d (d.rolledBack p.db t.chain) t.chain
      (d.fromBlock p.db t.chain) (target + 1) x hx k'
    have hholds := ((h.range hfollows htarget).rangeWrites hwatches (by omega)).1 k'
    set db' := ((d.rangeWrites (d.rolledBack p.db t.chain) t.chain (d.fromBlock p.db t.chain) (target + 1)).take
      k').foldl Write.exec (d.rolledBack p.db t.chain)
    have hlast' : db'.lastIndexedBlock = (d.rolledBack p.db t.chain).lastIndexedBlock := by
      rw [lastIndexedBlock, hruns, lastIndexedBlock]
    have hnext' : d.nextBlock db' = d.fromBlock p.db t.chain := by
      rw [nextBlock, hlast', ← hnext, nextBlock]
    refine ⟨?_, ?_, .inr ?_⟩
    · rw [hnext']
      exact hholds
    · intro li hli
      rw [hlast'] at hli
      obtain heq | ⟨hle, x, hx, hblock⟩ := hrolled.cursor li hli
      · exact .inl heq
      · exact .inr ⟨hle, x, hblocks x hx, hblock⟩
    · rw [hnext']
      exact hwindow

theorem Deployment.Following.follow (h : d.Following p) (hfollows : d.Follows p t) (hwatches : d.cfg.WatchesRegistry) :
    d.Following (d.follow p t) := by
  cases hfails : t.failsAfter with
  | none => exact (h.succeeds hfollows hwatches hfails).1
  | some k => exact h.fails hfollows hwatches hfails

variable (d) in
def Deployment.tick (p : Progress H) (t : Tick) : Except Empty (Progress H) := .ok (d.follow p t)

private theorem db_run (p : Progress H) (ticks : List Tick) : (run d.tick p ticks).db = ticks.foldl d.runOnce p.db := by
  induction ticks generalizing p with
  | nil => rfl
  | cons t ticks ih =>
    have hdb : (d.follow p t).db = d.runOnce p.db t := by
      unfold Deployment.follow
      split
      · rfl
      split
      · rfl
      · split <;> rfl
    rw [run_cons, ih, exec_of_ok (show d.tick p t = .ok (d.follow p t) from rfl), hdb, foldl_cons]

/-- After a tick that succeeds, of any run whose ticks all meet `Follows`, the rows are those that the chain of the tick
decodes to, up to the cursor. -/
theorem tables_follow_chain (hwatches : d.cfg.WatchesRegistry) (ticks : List Tick) (hfails : t.failsAfter = none)
    (h : Along d.tick d.Follows d.init (ticks ++ [t])) :
    let db := (ticks ++ [t]).foldl d.runOnce .empty
    db.log.tables = (d.decoded t.chain (d.nextBlock db)).tables ∧
      (∀ r, r ∈ db.log.exclusions ↔ r ∈ (d.decoded t.chain (d.nextBlock db)).exclusions) ∧
      ∀ v n, (∃ x ∈ db.log.vaults, x.vaultAddress = v ∧ x.registeredBlock = n) ↔
        ∃ l ∈ t.chain.logs d.deployFloor (d.nextBlock db), d.Registers l v ∧ l.place.blockNumber = n := by
  rw [along_append] at h
  obtain ⟨hticks, hlast, -⟩ := h
  have hbefore : d.Following (run d.tick d.init ticks) := by
    refine Along.invariant ?_ following_init hticks
    rintro p t p' hp hfollows ⟨⟩
    exact hp.follow hfollows hwatches
  obtain ⟨hafter, hreach⟩ := hbefore.succeeds hlast hwatches hfails
  have hseen : (d.follow (run d.tick d.init ticks) t).seen = t.chain := by
    simp only [Deployment.follow, hfails]
  have hdb : (ticks ++ [t]).foldl d.runOnce .empty = (d.follow (run d.tick d.init ticks) t).db := by
    have hrun := @db_run _ d _ d.init (ticks ++ [t])
    rw [run_append, run_cons, run_nil, exec_of_ok (show d.tick _ t = .ok (d.follow _ t) from rfl)] at hrun
    exact hrun.symm
  have hholds := hafter.holds
  rw [← hreach, hseen] at hholds
  intro db
  rw [show db = _ from hdb]
  exact hholds.decoded

end Run

def emptyBlock (timestamp : Nat) : ChainBlock := ⟨timestamp, [], []⟩

/-- A deployment with vault 7 only, and blocks that are hashed to the chain up to them. -/
def followDeployment : Deployment Chain where
  cfg := ⟨none, 7, none, none, none, none, none, none, 100, none, true⟩
  deployFloor := 0
  hash := id
  hash_injective := Function.injective_id
  contractOf := fun _ => none

def shortChain : Chain := (List.range 8).map emptyBlock

def depositChain : Chain :=
  shortChain.take 3 ++ ⟨3, [⟨7, 1, some (.deposit 4 4 100 100)⟩], []⟩ :: (List.range 6).map fun n => emptyBlock (n + 4)

def otherChain : Chain := shortChain.take 3 ++ (List.range 7).map fun n => emptyBlock (n + 30)

def failedTicks : List Tick := [⟨shortChain, none⟩, ⟨depositChain, some 4⟩]

private theorem follows_of_unchanged {p : Progress Chain} {t : Tick} (hchain : t.chain.IsQuiet)
    (hroot : followDeployment.reorgRoot p.db t.chain = none) (hli : p.db.lastIndexedBlock.getD 0 = li)
    (hlength : li < t.chain.length) (hreach : p.reach ≤ t.chain.safeHead + 1)
    (hagree : Agree p.seen t.chain p.reach) : followDeployment.Follows p t where
  lawful := hchain.lawful
  genesis := length_pos_iff.1 (by omega)
  agrees := by
    intro _
    refine ⟨?_, fun _ => ⟨hagree, hreach⟩⟩
    intro li' hli'
    rw [hli', getD_some] at hli
    omega
  settled := fun target _ => ⟨hchain.settled _ _, hchain.settled _ _⟩
  rollback := by
    intro root hsome
    rw [hroot] at hsome
    cases hsome

theorem tables_follow_chain_of_failedTicks :
    let ticks := failedTicks ++ [⟨depositChain ++ [emptyBlock 10], none⟩]
    let db := ticks.foldl followDeployment.runOnce .empty
    db.lastIndexedBlock = some 5 ∧ db.log.tables.events.length = 1 ∧
      db.log.tables = (followDeployment.decoded (depositChain ++ [emptyBlock 10]) 6).tables := by
  intro ticks db
  have hlast : db.lastIndexedBlock = some 5 := by decide +kernel
  have hnext : followDeployment.nextBlock db = 6 := by
    rw [nextBlock, hlast]
    rfl
  refine ⟨hlast, by decide +kernel, ?_⟩
  have hfollows : Along followDeployment.tick followDeployment.Follows followDeployment.init ticks := by
    refine ⟨?_, ?_, ?_, trivial⟩
    · exact follows_of_unchanged (by decide) (by decide) rfl (by decide) (by decide) (by decide)
    · exact follows_of_unchanged (by decide +kernel) (by decide +kernel) rfl (by decide +kernel) (by decide +kernel)
        (by decide +kernel)
    · exact follows_of_unchanged (by decide +kernel) (by decide +kernel) rfl (by decide +kernel) (by decide +kernel)
        (by decide +kernel)
  have hfollow := (tables_follow_chain (.inl rfl) failedTicks rfl hfollows).1
  rw [← hnext]
  exact hfollow

/-- The chain drops block 3 while the cursor is at block 2, so the reorg is not seen and the deposit stays. -/
theorem tables_differ_of_failedTicks :
    let ticks := failedTicks ++ [⟨otherChain, none⟩]
    let db := ticks.foldl followDeployment.runOnce .empty
    (∀ t ∈ ticks, followDeployment.Lawful t.chain) ∧ db.lastIndexedBlock = some 4 ∧
      (db.log.tables.events.map fun r => r.place.blockNumber) = [3] ∧
      (followDeployment.decoded otherChain 5).tables.events = [] := by
  intro ticks db
  refine ⟨?_, by decide +kernel, by decide +kernel, by decide +kernel⟩
  intro t ht
  have hquiet : ∀ t ∈ ticks, t.chain.IsQuiet := by decide +kernel
  exact (hquiet t ht).lawful

end RobotMoney.Indexer
