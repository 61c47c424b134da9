import RobotMoney.Indexer.Follow

/-!
# The stored answers about exclusion ledgers

What a tick fetches of the exclusion ledgers depends on the answers stored before it: a vault with an answer is not read
again, and only the blocks where it emits `Upgraded` or `Initialized` are.  The only promise of the chain used here is
that a vault names another ledger in no other block (`Moves`); nothing is assumed of registrations or of the contracts
that emit them.

`Known` says what the answers are worth relative to a chain.  A vault that is watched already has all its ledgers
stored; one that is registered later has a base, a block from which on all its ledgers are known (`Base`).  Reading a
range keeps `Known` after every write (`Reading.known_take`), completes it (`Reading.known_range`), and fetches every
log of every ledger named by then (`Reading.mem_tickLogs`).
-/

namespace RobotMoney.Indexer

open Evm SqlTable List

variable {H : Type} (d : Deployment H)

/-- A block where a vault emits `Upgraded` or `Initialized`. -/
def Chain.Triggers (c : Chain) (v : Address) (n : Nat) : Prop :=
  ∃ l ∈ c.entriesAt n, l.address = v ∧ l.event.isLedgerTrigger = true

def Deployment.Moves (c : Chain) : Prop :=
  ∀ v n ledger, d.deployFloor ≤ n → c.ledgerAt v (n + 1) = .ledger ledger →
    c.ledgerAt v n = .ledger ledger ∨ c.Triggers v (n + 1)

/-- The vaults whose ledgers are watched for good: the configured one, and with `multiVaultEvents` the registered
ones. -/
def Deployment.Tracks (v : Address) : Prop := v = d.cfg.vault ∨ d.cfg.multiVaultEvents = true

/-- A vault is watched from a block below `b`. -/
def Deployment.Started (c : Chain) (v : Address) (b : Nat) : Prop := ∃ n < b, d.Start c v n

/-- A row says what its vault answers at its block. -/
structure Deployment.Answer (c : Chain) (reach : Nat) (r : LedgerRow) : Prop where
  floor : d.deployFloor ≤ r.blockNumber
  below : r.blockNumber < reach
  named : ∀ ledger, r.ledger = some ledger → c.ledgerAt r.vault r.blockNumber = .ledger ledger
  unnamed : r.ledger = none → c.ledgerAt r.vault r.blockNumber = .noLedger

/-- The ledgers of a vault are known from block `p` on, where it is not watched before; at `p` itself, if that is not
read yet, there may be a trigger instead. -/
structure Deployment.Base (c : Chain) (next reach : Nat) (rows : List LedgerRow) (vaults : List VaultRow) (v : Address)
    (p : Nat) : Prop where
  floor : d.deployFloor ≤ p
  below : p < reach
  first : ∀ s, d.Start c v s → p ≤ s
  origin : v = d.cfg.vault ∨ (∃ x ∈ vaults, x.vaultAddress = v) ∨ d.Start c v p
  covers : ∀ k ledger, p ≤ k → k < next ∨ k = p → c.ledgerAt v k = .ledger ledger →
    hasNamed rows v ledger = true ∨ (next ≤ k ∧ c.Triggers v k)

/-- The answers and the registered vaults, for a chain read up to `next`; failed ticks may have left some up to
`reach`. -/
structure Deployment.Known (c : Chain) (next reach : Nat) (rows : List LedgerRow) (vaults : List VaultRow) : Prop where
  answer : ∀ r ∈ rows, d.Answer c reach r
  vaultBelow : ∀ x ∈ vaults, x.registeredBlock < reach
  /-- A stored vault is not registered before its row says. -/
  vaultFirst : d.cfg.multiVaultEvents = true → ∀ x ∈ vaults, ∀ l, d.Logged c l → d.Registers l x.vaultAddress →
    x.registeredBlock ≤ l.place.blockNumber
  registered : d.cfg.multiVaultEvents = true → ∀ v ∈ d.registered c next, ∃ x ∈ vaults, x.vaultAddress = v
  /-- The ledgers named below `next` are stored; of the configured vault, if it has an answer at all. -/
  named : ∀ v, d.Tracks v → (v = d.cfg.vault → hasAnswer rows v = true) → ∀ n < next, ∀ ledger, d.Names c v ledger n →
    hasNamed rows v ledger = true
  /-- A ledger of a registered vault is stored under a block that is not later than any in which it is named. -/
  earliest : d.cfg.multiVaultEvents = true → ∀ r ∈ rows, r.vault ≠ d.cfg.vault → ∀ ledger, r.ledger = some ledger →
    ∀ n, d.Names c r.vault ledger n → ∃ r' ∈ rows, r'.vault = r.vault ∧ r'.ledger = some ledger ∧ r'.blockNumber ≤ n
  based : ∀ v, d.Tracks v → hasAnswer rows v = true →
    d.Started c v next ∨ ∃ p, d.Base c next reach rows vaults v p

variable {d} {c e : Chain} {next reach lo hi n : Nat} {rows : List LedgerRow} {vaults : List VaultRow}
  {v ledger : Address}

private theorem Deployment.Start.floor (h : d.Start c v n) : d.deployFloor ≤ n := by
  obtain ⟨-, rfl⟩ | ⟨-, l, hl, -, rfl⟩ := h
  · exact le_refl _
  · exact hl.1

private theorem Deployment.Names.exists_start (h : d.Names c v ledger n) : ∃ s ≤ n, d.Start c v s := by
  obtain ⟨hfloor, hvault, -⟩ := h
  by_cases hv : v = d.cfg.vault
  · exact ⟨d.deployFloor, hfloor, .inl ⟨hv, rfl⟩⟩
  obtain ⟨l, hl, hregisters⟩ := mem_registered.1 (hvault.resolve_left hv)
  rw [mem_logs_iff] at hl
  exact ⟨l.place.blockNumber, by omega, .inr ⟨hv, l, hl.1, hregisters, rfl⟩⟩

private theorem Deployment.started_iff_registered (hv : v ≠ d.cfg.vault) : d.Started c v n ↔ v ∈ d.registered c n := by
  rw [mem_registered]
  constructor
  · rintro ⟨s, hs, ⟨hcfg, -⟩ | ⟨-, l, hl, hregisters, rfl⟩⟩
    · exact (hv hcfg).elim
    · exact ⟨l, mem_logs_iff.2 ⟨hl, hs⟩, hregisters⟩
  · rintro ⟨l, hl, hregisters⟩
    rw [mem_logs_iff] at hl
    exact ⟨_, hl.2, .inr ⟨hv, l, hl.1, hregisters, rfl⟩⟩

private theorem Agree.started (h : Agree c e reach) (hn : n ≤ reach) : d.Started c v n ↔ d.Started e v n := by
  simp only [Deployment.Started]
  exact exists_congr fun m => and_congr_right fun hm => h.start (by omega)

private theorem Agree.triggers (h : Agree c e reach) (hn : n < reach) : c.Triggers v n ↔ e.Triggers v n := by
  rw [Chain.Triggers, Chain.Triggers, h.entriesAt hn]

theorem Deployment.Known.agree (h : d.Known c next reach rows vaults) (hle : next ≤ reach) (hagree : Agree c e reach) :
    d.Known e next reach rows vaults := by
  have hstart : ∀ v s, s < reach → (d.Start e v s ↔ d.Start c v s) := fun v s hs => (hagree.start hs).symm
  constructor
  · intro r hr
    obtain ⟨hfloor, hbelow, hnamed, hunnamed⟩ := h.answer r hr
    refine ⟨hfloor, hbelow, ?_, ?_⟩
    · exact fun ledger hledger => by rw [← hagree.ledgerAt hbelow, hnamed ledger hledger]
    · exact fun hnone => by rw [← hagree.ledgerAt hbelow, hunnamed hnone]
  · exact h.vaultBelow
  · intro hmulti x hx l hl hregisters
    obtain hlt | hge := lt_or_ge l.place.blockNumber reach
    · exact h.vaultFirst hmulti x hx l ((hagree.logged hlt).2 hl) hregisters
    · exact (le_of_lt (h.vaultBelow x hx)).trans hge
  · intro hmulti v hv
    rw [← (hagree.mono hle).registered] at hv
    exact h.registered hmulti v hv
  · intro v htracks hanswer n hn ledger hnames
    exact h.named v htracks hanswer n hn ledger ((hagree.names (by omega)).2 hnames)
  · intro hmulti r hr hcfg ledger hledger n hnames
    obtain hlt | hge := lt_or_ge n reach
    · exact h.earliest hmulti r hr hcfg ledger hledger n ((hagree.names hlt).2 hnames)
    · exact ⟨r, hr, rfl, hledger, (le_of_lt (h.answer r hr).below).trans hge⟩
  · intro v htracks hanswer
    obtain hstarted | ⟨p, hfloor, hbelow, hfirst, horigin, hcovers⟩ := h.based v htracks hanswer
    · exact .inl ((hagree.started hle).1 hstarted)
    refine .inr ⟨p, hfloor, hbelow, ?_, ?_, ?_⟩
    · intro s hs
      obtain hlt | hge := lt_or_ge s reach
      · exact hfirst s ((hstart v s hlt).1 hs)
      · omega
    · exact horigin.imp_right (Or.imp_right (hstart v p hbelow).2)
    · intro k ledger hk hknown hread
      have hlt : k < reach := by omega
      rw [← hagree.ledgerAt hlt] at hread
      exact (hcovers k ledger hk hknown hread).imp_right (And.imp_right (hagree.triggers hlt).1)

theorem Deployment.Known.of_floor (h : d.Known c d.deployFloor d.deployFloor rows vaults) :
    d.Known e d.deployFloor d.deployFloor rows vaults := by
  have hrows : ∀ r, r ∉ rows := by
    intro r hr
    have hfloor := (h.answer r hr).floor
    have hbelow := (h.answer r hr).below
    omega
  constructor
  · exact fun r hr => (hrows r hr).elim
  · exact h.vaultBelow
  · intro _ x hx l hl _
    exact (le_of_lt (h.vaultBelow x hx)).trans hl.1
  · intro _ v hv
    simp [Deployment.registered] at hv
  · intro v _ _ n hn ledger hnames
    have hfloor := hnames.1
    omega
  · exact fun _ r hr => (hrows r hr).elim
  · intro v _ hanswer
    obtain ⟨r, hr, -⟩ := hasAnswer_iff.1 hanswer
    exact (hrows r hr).elim

private theorem Deployment.Known.widen (h : d.Known c next reach rows vaults) (hhi : reach ≤ hi) :
    d.Known c next hi rows vaults where
  answer := by
    intro r hr
    obtain ⟨hfloor, hbelow, hnamed, hunnamed⟩ := h.answer r hr
    exact ⟨hfloor, by omega, hnamed, hunnamed⟩
  vaultBelow := fun x hx => (h.vaultBelow x hx).trans_le hhi
  vaultFirst := h.vaultFirst
  registered := h.registered
  named := h.named
  earliest := h.earliest
  based := by
    intro v htracks hanswer
    obtain hstarted | ⟨p, hfloor, hbelow, hfirst, horigin, hcovers⟩ := h.based v htracks hanswer
    · exact .inl hstarted
    · exact .inr ⟨p, hfloor, by omega, hfirst, horigin, hcovers⟩

/-- A rollback to a root below the cursor.  It must not leave an answer of a vault that is not registered by then, nor
take a part of the answers of the configured vault. -/
theorem Deployment.Known.deleteAboveBlock {db : Db H} (h : d.Known c next reach db.ledgers db.log.vaults) {root : Int}
    (hn : root = (n : Int) - 1) (hfloor : d.deployFloor ≤ n) (hnext : n ≤ next)
    (hregistered : ∀ r ∈ db.ledgers, (r.blockNumber : Int) ≤ root → d.Tracks r.vault →
      r.vault = d.cfg.vault ∨ r.vault ∈ d.registered c n)
    (hpinned : ∀ r₀ ∈ db.ledgers, r₀.vault = d.cfg.vault → (r₀.blockNumber : Int) ≤ root →
      ∀ r ∈ db.ledgers, r.vault = d.cfg.vault → root < r.blockNumber → ∀ ledger, r.ledger = some ledger →
      ∀ m < n, d.Names c r.vault ledger m →
      ∃ r' ∈ db.ledgers, r'.vault = r.vault ∧ r'.ledger = some ledger ∧ (r'.blockNumber : Int) ≤ root) :
    d.Known c n n (db.deleteAboveBlock root).ledgers (db.deleteAboveBlock root).log.vaults := by
  have hkept : ∀ r, r ∈ (db.deleteAboveBlock root).ledgers ↔ r ∈ db.ledgers ∧ r.blockNumber < n := by
    intro r
    rw [Db.deleteAboveBlock, mem_filter, survives_eq _ rfl, decide_eq_true_eq]
    exact and_congr_right fun _ => by omega
  have hvaults : ∀ x ∈ (db.deleteAboveBlock root).log.vaults, ∃ y ∈ db.log.vaults,
      y.vaultAddress = x.vaultAddress ∧ y.registeredBlock = x.registeredBlock ∧ y.registeredBlock < n := by
    intro x hx
    simp only [Db.deleteAboveBlock, LogState.deleteAboveBlock, mem_map, mem_filter, decide_eq_true_eq] at hx
    obtain ⟨y, ⟨hy, hblock⟩, rfl⟩ := hx
    exact ⟨y, hy, rfl, rfl, by omega⟩
  have hlater : ∀ r ∈ db.ledgers, d.Tracks r.vault → ∀ ledger, r.ledger = some ledger → ∀ m < n,
      d.Names c r.vault ledger m → hasAnswer (db.deleteAboveBlock root).ledgers r.vault = true ∨ r.vault ≠ d.cfg.vault →
      hasNamed (db.deleteAboveBlock root).ledgers r.vault ledger = true := by
    intro r hr htracks ledger hledger m hm hnames hcase
    by_cases hblock : r.blockNumber < n
    · exact hasNamed_iff.2 ⟨r, (hkept r).2 ⟨hr, hblock⟩, rfl, hledger⟩
    by_cases hcfg : r.vault = d.cfg.vault
    · obtain ⟨r₀, hr₀, hv₀⟩ := hasAnswer_iff.1 (hcase.resolve_right fun hne => hne hcfg)
      obtain ⟨hr₀, hblock₀⟩ := (hkept r₀).1 hr₀
      obtain ⟨r', hr', hv', hledger', hblock'⟩ :=
        hpinned r₀ hr₀ (hv₀.trans hcfg) (by omega) r hr hcfg (by omega) ledger hledger m hm hnames
      exact hasNamed_iff.2 ⟨r', (hkept r').2 ⟨hr', by omega⟩, hv', hledger'⟩
    obtain ⟨r', hr', hv', hledger', hblock'⟩ :=
      h.earliest (htracks.resolve_left hcfg) r hr hcfg ledger hledger m hnames
    exact hasNamed_iff.2 ⟨r', (hkept r').2 ⟨hr', by omega⟩, hv', hledger'⟩
  constructor
  · intro r hr
    obtain ⟨hr, hblock⟩ := (hkept r).1 hr
    obtain ⟨hfloor, -, hnamed, hunnamed⟩ := h.answer r hr
    exact ⟨hfloor, hblock, hnamed, hunnamed⟩
  · intro x hx
    obtain ⟨y, -, -, heq, hlt⟩ := hvaults x hx
    omega
  · intro hmulti x hx l hl hregisters
    obtain ⟨y, hy, haddress, heq, -⟩ := hvaults x hx
    rw [← heq]
    exact h.vaultFirst hmulti y hy l hl (by rwa [haddress])
  · intro hmulti v hv
    obtain ⟨x, hx, rfl⟩ := h.registered hmulti v (registered_mono hnext hv)
    obtain ⟨l, hl, hregisters⟩ := mem_registered.1 hv
    rw [mem_logs_iff] at hl
    have hfirst := h.vaultFirst hmulti x hx l hl.1 hregisters
    refine ⟨rederiveStatus (db.log.tables.deleteAboveBlock root).statusEvents x, ?_, rfl⟩
    simp only [Db.deleteAboveBlock, LogState.deleteAboveBlock, mem_map, mem_filter, decide_eq_true_eq]
    exact ⟨x, ⟨hx, by omega⟩, rfl⟩
  · intro v htracks hanswer m hm ledger hnames
    have hanswer' : v = d.cfg.vault → hasAnswer db.ledgers v = true := by
      intro hcfg
      obtain ⟨r, hr, hv⟩ := hasAnswer_iff.1 (hanswer hcfg)
      exact hasAnswer_iff.2 ⟨r, ((hkept r).1 hr).1, hv⟩
    obtain ⟨r, hr, rfl, hledger⟩ := hasNamed_iff.1 (h.named v htracks hanswer' m (by omega) ledger hnames)
    apply hlater r hr htracks ledger hledger m hm hnames
    by_cases hcfg : r.vault = d.cfg.vault
    · exact .inl (hanswer hcfg)
    · exact .inr hcfg
  · intro hmulti r hr hcfg ledger hledger m hnames
    obtain ⟨hr', hblock⟩ := (hkept r).1 hr
    obtain hlt | hge := lt_or_ge m n
    · obtain ⟨r', hr', hv', hledger', hblock'⟩ := h.earliest hmulti r hr' hcfg ledger hledger m hnames
      exact ⟨r', (hkept r').2 ⟨hr', by omega⟩, hv', hledger', hblock'⟩
    · exact ⟨r, hr, rfl, hledger, by omega⟩
  · intro v htracks hanswer
    obtain ⟨r, hr, rfl⟩ := hasAnswer_iff.1 hanswer
    obtain ⟨hr, hblock⟩ := (hkept r).1 hr
    left
    by_cases hcfg : r.vault = d.cfg.vault
    · have hfloor' := (h.answer r hr).floor
      exact ⟨d.deployFloor, by omega, .inl ⟨hcfg, rfl⟩⟩
    rw [started_iff_registered hcfg]
    exact (hregistered r hr (by omega) htracks).resolve_left hcfg

def Deployment.firstReadOf (d : Deployment H) (db : Db H) (c : Chain) (lo hi : Nat) (v : Address) : Nat :=
  ((d.discovered db c lo hi).2.lookup v).getD lo

/-- What a tick starts from.  If the configured vault has no answer, then the ledgers that it has named by the first
block of the range are there where it is asked first; one that it names at the first block may have a trigger there
instead. -/
structure Deployment.Reading (d : Deployment H) (db : Db H) (c : Chain) (lo hi reach : Nat) : Prop where
  moves : d.Moves c
  floor : d.deployFloor ≤ lo
  nonempty : lo < hi
  known : d.Known c lo reach db.ledgers db.log.vaults
  pinned : hasAnswer db.ledgers d.cfg.vault = false → ∀ n ≤ lo, (n = lo → ¬c.Triggers d.cfg.vault lo) →
    ∀ ledger, d.Names c d.cfg.vault ledger n →
    c.ledgerAt d.cfg.vault (d.firstReadOf db c lo hi d.cfg.vault) = .ledger ledger

/-- The discovery finds the first registration of a new vault. -/
theorem discovered_le {addrs : List Address} {logs : List LogEntry}
    (hsorted : logs.Pairwise fun a b => a.place.blockNumber ≤ b.place.blockNumber) {v : Address} {n : Nat}
    (hmem : (v, n) ∈ (logs.foldl discoverStep (addrs, [])).2) {l : LogEntry} (hl : l ∈ logs)
    (hv : l.event.registeredVault = some v) : n ≤ l.place.blockNumber := by
  induction logs using reverseRecOn generalizing n with
  | nil => cases hl
  | append_singleton logs last ih =>
    have hspec := discovered_foldl addrs logs
    rw [foldl_append, foldl_cons, foldl_nil] at hmem
    rw [pairwise_append] at hsorted
    obtain ⟨hsorted, -, hlast⟩ := hsorted
    have hlate : ∀ n', (v, n') ∈ (logs.foldl discoverStep (addrs, [])).2 → n' ≤ last.place.blockNumber := by
      intro n' hn'
      obtain ⟨-, l', hl', -, rfl⟩ := hspec.sound v n' hn'
      exact hlast l' hl' last (by simp)
    rw [mem_append, mem_singleton] at hl
    unfold discoverStep at hmem
    split at hmem
    · rename_i hnone
      obtain hl | rfl := hl
      · exact ih hsorted hmem hl
      rw [hnone] at hv
      cases hv
    rename_i vault hvault
    split at hmem
    · obtain ⟨⟨v', n'⟩, hmem', heq⟩ := mem_map.1 hmem
      obtain rfl : v' = v := by
        split at heq
        · rename_i hv'
          cases heq
          exact hv'
        cases heq
        rfl
      have hle : n ≤ n' := by
        split at heq
        · cases heq
          exact min_le_left _ _
        cases heq
        exact le_refl _
      obtain hl | rfl := hl
      · exact hle.trans (ih hsorted hmem' hl)
      · exact hle.trans (hlate n' hmem')
    rename_i hfresh
    rw [mem_append, mem_singleton] at hmem
    obtain hmem | hmem := hmem
    · obtain hl | rfl := hl
      · exact ih hsorted hmem hl
      · exact hlate n hmem
    cases hmem
    obtain hl | rfl := hl
    · exact (hfresh ((hspec.known v).2 (.inr ⟨l, hl, hv⟩))).elim
    · exact le_refl _

private theorem firstReadOf_cases (d : Deployment H) (db : Db H) (c : Chain) (lo hi : Nat) (v : Address) :
    (d.firstReadOf db c lo hi v = lo ∧ ((∃ x ∈ db.log.vaults, x.vaultAddress = v) ∨
        ∀ l ∈ c.logs lo hi, ¬d.Registers l v)) ∨ ((∀ x ∈ db.log.vaults, x.vaultAddress ≠ v) ∧
        (∃ l ∈ c.logs lo hi, d.Registers l v ∧ l.place.blockNumber = d.firstReadOf db c lo hi v) ∧
        ∀ l ∈ c.logs lo hi, d.Registers l v → d.firstReadOf db c lo hi v ≤ l.place.blockNumber) := by
  have hspec := d.discovered_spec db c lo hi
  unfold Deployment.firstReadOf
  cases hlookup : (d.discovered db c lo hi).2.lookup v with
  | none =>
    refine .inl ⟨rfl, ?_⟩
    by_cases hv : v ∈ db.log.vaults.map VaultRow.vaultAddress
    · exact .inl (mem_map.1 hv)
    refine .inr fun l hl hregisters => ?_
    have hlog : ∃ l ∈ (c.logs lo hi).filter (fun l => decide (d.cfg.registry = some l.address)),
        l.event.registeredVault = some v :=
      ⟨l, mem_filter.2 ⟨hl, by simpa using hregisters.1⟩, hregisters.2⟩
    obtain ⟨n, hn⟩ := hspec.complete v hlog hv
    rw [lookup_eq_none_iff] at hlookup
    simpa using hlookup (v, n) hn
  | some n =>
    rw [Option.getD_some]
    obtain ⟨l₁, l₂, heq, -⟩ := lookup_eq_some_iff.1 hlookup
    have hmem : (v, n) ∈ (d.discovered db c lo hi).2 := by simp [heq]
    obtain ⟨hnew, hlog⟩ := hspec.sound v n hmem
    refine .inr ⟨fun x hx hv => hnew (mem_map.2 ⟨x, hx, hv⟩), exists_registered.1 hlog, ?_⟩
    intro l hl hregisters
    refine discovered_le ?_ hmem (mem_filter.2 ⟨hl, by simpa using hregisters.1⟩) hregisters.2
    apply ((pairwise_logs c lo hi).imp _).filter
    intro a b hab
    simp only [LogPlace.pos, Prod.Lex.toLex_lt_toLex] at hab
    omega

private theorem firstReadOf_mem (d : Deployment H) (db : Db H) (c : Chain) (hlt : lo < hi) (v : Address) :
    lo ≤ d.firstReadOf db c lo hi v ∧ d.firstReadOf db c lo hi v < hi := by
  obtain ⟨heq, -⟩ | ⟨-, ⟨l, hl, -, heq⟩, -⟩ := firstReadOf_cases d db c lo hi v
  · omega
  rw [mem_logs] at hl
  omega

private theorem mem_ledgerVaults_iff {db : Db H} : v ∈ d.ledgerVaults db c lo hi ↔
    v = d.cfg.vault ∨ (∃ x ∈ db.log.vaults, x.vaultAddress = v) ∨ ∃ l ∈ c.logs lo hi, d.Registers l v := by
  have hregistered := @exists_registered _ d c lo hi v fun _ => True
  simp only [and_true] at hregistered
  rw [Deployment.ledgerVaults, mem_cons, (d.discovered_spec db c lo hi).known, hregistered, mem_map]

private theorem mem_firstReads_iff {db : Db H} : (v, n) ∈ d.firstReads db c lo hi ↔
    v ∈ d.ledgerVaults db c lo hi ∧ n = d.firstReadOf db c lo hi v := by
  simp only [Deployment.firstReads, mem_map, Prod.mk.injEq, Deployment.firstReadOf]
  constructor
  · rintro ⟨v', hv', rfl, rfl⟩
    exact ⟨hv', rfl⟩
  · rintro ⟨hv, rfl⟩
    exact ⟨v, hv, rfl, rfl⟩

variable {r : LedgerRow}

private theorem mem_firstRows_iff {db : Db H} : r ∈ d.firstRows db c lo hi ↔
    r.vault ∈ d.ledgerVaults db c lo hi ∧ hasAnswer db.ledgers r.vault = false ∧
      r.blockNumber = d.firstReadOf db c lo hi r.vault ∧
      (∀ ledger, r.ledger = some ledger → c.ledgerAt r.vault r.blockNumber = .ledger ledger) ∧
      (r.ledger = none → c.ledgerAt r.vault r.blockNumber = .noLedger) := by
  rw [Deployment.firstRows, mem_filterMap]
  constructor
  · rintro ⟨⟨v, n⟩, hread, hrow⟩
    obtain ⟨hv, rfl⟩ := mem_firstReads_iff.1 hread
    unfold firstRow at hrow
    split at hrow
    · cases hrow
    rename_i hanswer
    rw [Bool.not_eq_true] at hanswer
    split at hrow
    · rename_i ledger hledger
      cases hrow
      refine ⟨hv, hanswer, rfl, ?_, by simp⟩
      rintro ledger' ⟨⟩
      exact hledger
    · rename_i hledger
      cases hrow
      exact ⟨hv, hanswer, rfl, by simp, fun _ => hledger⟩
    · cases hrow
  · rintro ⟨hv, hanswer, hblock, hnamed, hunnamed⟩
    refine ⟨(r.vault, r.blockNumber), mem_firstReads_iff.2 ⟨hv, hblock⟩, ?_⟩
    obtain ⟨v, ledger, n⟩ := r
    simp only at hanswer hnamed hunnamed
    cases ledger with
    | none => simp [firstRow, hanswer, hunnamed rfl]
    | some ledger => simp [firstRow, hanswer, hnamed ledger rfl]

private theorem eq_of_mem_movedRows {known : List LedgerRow} {triggers : List (Address × Nat)} {r' : LedgerRow}
    (hr : r ∈ movedRows c known triggers) (hr' : r' ∈ movedRows c known triggers) (hvault : r.vault = r'.vault)
    (hledger : r.ledger = r'.ledger) : r = r' := by
  induction triggers generalizing known with
  | nil => cases hr
  | cons trigger triggers ih =>
    obtain ⟨v, n⟩ := trigger
    have hfresh : ∀ ledger x, x ∈ movedRows c (known ++ [⟨v, some ledger, n⟩]) triggers → x.vault = v →
        x.ledger ≠ some ledger := by
      intro ledger x hx hv hsome
      obtain ⟨ledger', hledger', -, -, hnew⟩ := mem_movedRows hx
      rw [hledger', Option.some.injEq] at hsome
      have hnamed : hasNamed (known ++ [⟨v, some ledger, n⟩]) x.vault ledger' = true :=
        hasNamed_iff.2 ⟨⟨v, some ledger, n⟩, by simp, hv.symm, by rw [hsome]⟩
      rw [hnamed] at hnew
      cases hnew
    unfold movedRows at hr hr'
    cases hread : c.ledgerAt v n with
    | ledger ledger =>
      simp only [hread] at hr hr'
      split at hr
      · rename_i hnamed
        rw [if_pos hnamed] at hr'
        exact ih hr hr'
      rename_i hnamed
      rw [if_neg hnamed] at hr'
      obtain rfl | hr := mem_cons.1 hr
      · obtain rfl | hr' := mem_cons.1 hr'
        · rfl
        · exact (hfresh ledger r' hr' hvault.symm hledger.symm).elim
      obtain rfl | hr' := mem_cons.1 hr'
      · exact (hfresh ledger r hr hvault hledger).elim
      · exact ih hr hr'
    | _ =>
      simp only [hread] at hr hr'
      exact ih hr hr'

def Deployment.asked (d : Deployment H) (db : Db H) (c : Chain) (lo hi : Nat) : List LedgerRow :=
  insertLedgers db.ledgers (d.firstRows db c lo hi)

private theorem hasNamed_of_key (hrows : ∀ r ∈ rows, d.Answer c reach r) (hr : r ∈ rows) (hkey : r.key = (v, n))
    (hread : c.ledgerAt v n = .ledger ledger) : r.vault = v ∧ r.ledger = some ledger ∧ r.blockNumber = n := by
  simp only [LedgerRow.key, Prod.mk.injEq] at hkey
  obtain ⟨rfl, rfl⟩ := hkey
  refine ⟨rfl, ?_, rfl⟩
  cases hledger : r.ledger with
  | none =>
    rw [(hrows r hr).unnamed hledger] at hread
    cases hread
  | some ledger' =>
    rw [(hrows r hr).named ledger' hledger, LedgerRead.ledger.injEq] at hread
    rw [hread]

variable {new : List LedgerRow}

private theorem answer_insertLedgers (hrows : ∀ r ∈ rows, d.Answer c reach r)
    (hnew : ∀ r ∈ new, d.Answer c reach r) : ∀ r ∈ insertLedgers rows new, d.Answer c reach r := by
  intro r hr
  obtain hr | hr := Deployment.RangeOk.mem_of_mem_insertLedgers hr
  · exact hrows r hr
  · exact hnew r hr

private theorem exists_insertLedgers (hrows : ∀ r ∈ insertLedgers rows new, d.Answer c reach r) (hr : r ∈ new)
    (hread : c.ledgerAt r.vault r.blockNumber = .ledger ledger) :
    ∃ x ∈ insertLedgers rows new, x.vault = r.vault ∧ x.ledger = some ledger ∧ x.blockNumber = r.blockNumber := by
  obtain ⟨x, hx, hkey⟩ := Deployment.RangeOk.exists_mem_insertLedgers hr
  exact ⟨x, hx, hasNamed_of_key hrows hx hkey hread⟩

theorem Deployment.Tracks.not_mem_proxyOnly (h : d.Tracks v) (hv : v = d.cfg.vault → v ∈ d.cfg.watchedAddresses) :
    v ∉ d.cfg.proxyOnlyAddresses := by
  obtain hcfg | hmulti := h
  · rw [Config.proxyOnlyAddresses, mem_filter, decide_eq_true_eq]
    exact fun hmem => hmem.2 (hv hcfg)
  rw [Config.WatchesRegistry.proxyOnlyAddresses (.inr hmulti)]
  exact not_mem_nil

namespace Deployment.Reading

open List RangeOk

variable {db : Db H} (h : d.Reading db c lo hi reach)

include h

private theorem mem_ledgerVaults_of_started (htracks : d.Tracks v) (hstarted : d.Started c v hi) :
    v ∈ d.ledgerVaults db c lo hi := by
  rw [mem_ledgerVaults_iff]
  by_cases hcfg : v = d.cfg.vault
  · exact .inl hcfg
  rw [started_iff_registered hcfg, mem_registered, logs_append h.floor (le_of_lt h.nonempty)] at hstarted
  obtain ⟨l, hl, hregisters⟩ := hstarted
  rw [mem_append] at hl
  obtain hl | hl := hl
  · exact .inr (.inl (h.known.registered (htracks.resolve_left hcfg) v (mem_registered.2 ⟨l, hl, hregisters⟩)))
  · exact .inr (.inr ⟨l, hl, hregisters⟩)

variable {r : LedgerRow}

private theorem answer_firstRows (hr : r ∈ d.firstRows db c lo hi) : d.Answer c (max reach hi) r := by
  obtain ⟨-, -, hblock, hnamed, hunnamed⟩ := mem_firstRows_iff.1 hr
  have hread := firstReadOf_mem d db c h.nonempty r.vault
  have hfloor := h.floor
  exact ⟨by omega, by omega, hnamed, hunnamed⟩

private theorem answer_asked : ∀ r ∈ d.asked db c lo hi, d.Answer c (max reach hi) r :=
  answer_insertLedgers (h.known.widen (le_max_left ..)).answer fun _ hr => h.answer_firstRows hr

private theorem hasNamed_firstRead (hv : v ∈ d.ledgerVaults db c lo hi) (hanswer : hasAnswer db.ledgers v = false)
    (hread : c.ledgerAt v (d.firstReadOf db c lo hi v) = .ledger ledger) : hasNamed (d.asked db c lo hi) v ledger =
      true := by
  have hrow : (⟨v, some ledger, d.firstReadOf db c lo hi v⟩ : LedgerRow) ∈ d.firstRows db c lo hi :=
    mem_firstRows_iff.2 ⟨hv, hanswer, rfl, by simpa using hread, by simp⟩
  obtain ⟨x, hx, hv, hledger, -⟩ := exists_insertLedgers h.answer_asked hrow hread
  exact hasNamed_iff.2 ⟨x, hx, hv, hledger⟩

omit h in
private theorem of_mem_triggers (htrigger : (v, n) ∈ d.triggers db c lo hi) :
    v ∈ d.ledgerVaults db c lo hi ∧ lo ≤ n ∧ n < hi := by
  simp only [triggers, mem_map, mem_insertionSort, mem_dedup, mem_filter,
    Bool.and_eq_true, decide_eq_true_eq] at htrigger
  obtain ⟨_, ⟨l, ⟨hl, -, hv⟩, rfl⟩, heq⟩ := htrigger
  have hlog := mem_logs.1 (mem_of_mem_filter (mem_of_mem_filter hl))
  cases heq
  exact ⟨hv, hlog.1, hlog.2.1⟩

omit h in
theorem mem_triggers_of (htracks : d.Tracks v) (hv : v ∈ d.ledgerVaults db c lo hi) (hlo : lo ≤ n) (hhi : n < hi)
    (htrigger : c.Triggers v n) : (v, n) ∈ d.triggers db c lo hi := by
  obtain ⟨l, hl, rfl, htrigger⟩ := htrigger
  have hblock := block_of_mem_entriesAt hl
  have hcfg : l.address = d.cfg.vault → l.address ∈ d.cfg.watchedAddresses := by
    intro heq
    rw [heq]
    exact vault_mem_watchedAddresses d.cfg
  have hwatched : l.address ∈ d.watchedNow db c lo hi := by
    simp only [watchedNow, mem_foldl_pushNew]
    rw [ledgerVaults, mem_cons] at hv
    obtain heq | hv := hv
    · exact .inl (.inl (.inl (hcfg heq)))
    · exact .inl (.inl (.inr hv))
  have hlog : l ∈ c.logs lo hi := mem_logs.2 ⟨by omega, by omega, by rwa [hblock]⟩
  have hmain : l ∈ d.mainLogs db c lo hi := by
    simp only [mainLogs, mem_filter, Bool.or_eq_true, decide_eq_true_eq]
    exact ⟨⟨hlog, hwatched⟩, .inl (htracks.not_mem_proxyOnly hcfg)⟩
  simp only [triggers, mem_map, mem_insertionSort, mem_dedup, mem_filter, Bool.and_eq_true, decide_eq_true_eq]
  exact ⟨toLex (l.address, l.place.blockNumber), ⟨l, ⟨hmain, htrigger, hv⟩, rfl⟩, by rw [hblock]; rfl⟩

omit h in
private theorem hasNamed_or_moved_of_triggers (htracks : d.Tracks v) (hv : v ∈ d.ledgerVaults db c lo hi) (hlo : lo ≤ n)
    (hhi : n < hi) (htrigger : c.Triggers v n) (hread : c.ledgerAt v n = .ledger ledger) :
    hasNamed (d.asked db c lo hi) v ledger = true ∨
      ∃ r ∈ d.moved db c lo hi, r.vault = v ∧ r.ledger = some ledger ∧ r.blockNumber ≤ n :=
  exists_movedRows pairwise_triggers (mem_triggers_of htracks hv hlo hhi htrigger) hread

theorem firstReadOf_le (hmulti : d.cfg.multiVaultEvents = true) (hcfg : v ≠ d.cfg.vault) {s : Nat} (hs : d.Start c v s)
    (hn : s ≤ n) (hlo : lo ≤ n) : d.firstReadOf db c lo hi v ≤ n := by
  have hhi := (firstReadOf_mem d db c h.nonempty v).2
  obtain ⟨heq, -⟩ | ⟨hnew, -, hfirst⟩ := firstReadOf_cases d db c lo hi v
  · omega
  obtain ⟨hcfg', -⟩ | ⟨-, l, hl, hregisters, rfl⟩ := hs
  · exact (hcfg hcfg').elim
  by_cases hlt : l.place.blockNumber < lo
  · obtain ⟨x, hx, hv⟩ := h.known.registered hmulti v (mem_registered.2 ⟨l, mem_logs_iff.2 ⟨hl, hlt⟩, hregisters⟩)
    exact (hnew x hx hv).elim
  by_cases hin : l.place.blockNumber < hi
  · exact (hfirst l (mem_logs.2 ⟨by omega, hin, hl.2⟩) hregisters).trans hn
  · omega

/-- Where the ledgers of a watched vault are known from, once it has been asked. -/
theorem exists_base (htracks : d.Tracks v) (hv : v ∈ d.ledgerVaults db c lo hi) (hsub : db.ledgers ⊆ rows)
    (hread : hasAnswer db.ledgers v = false → ∀ ledger, c.ledgerAt v (d.firstReadOf db c lo hi v) = .ledger ledger →
      hasNamed rows v ledger = true) :
    (d.Started c v lo ∧ ∀ n < lo, ∀ ledger, d.Names c v ledger n → hasNamed rows v ledger = true) ∨
      ¬d.Started c v lo ∧ ∃ p, d.Base c lo (max reach hi) rows db.log.vaults v p := by
  have hfloor := h.floor
  have hnonempty := h.nonempty
  by_cases hstarted : d.Started c v lo
  · refine .inl ⟨hstarted, fun n hn ledger hnames => ?_⟩
    by_cases hanswer : v = d.cfg.vault → hasAnswer db.ledgers v = true
    · exact hasNamed_mono hsub (h.known.named v htracks hanswer n hn ledger hnames)
    -- the configured vault has no answer
    rw [Classical.not_imp, Bool.not_eq_true] at hanswer
    obtain ⟨rfl, hanswer⟩ := hanswer
    exact hread hanswer ledger (h.pinned hanswer n (by omega) (by omega) ledger hnames)
  refine .inr ⟨hstarted, ?_⟩
  cases hanswer : hasAnswer db.ledgers v with
  | true =>
    obtain ⟨p, hfloor', hbelow, hfirst, horigin, hcovers⟩ := (h.known.based v htracks hanswer).resolve_left hstarted
    refine ⟨p, hfloor', by omega, hfirst, horigin, ?_⟩
    intro k ledger hk hknown hledger
    exact (hcovers k ledger hk hknown hledger).imp_left (hasNamed_mono hsub)
  | false =>
    by_cases hcfg : v = d.cfg.vault
    · -- the range starts at the floor
      subst hcfg
      have hlo : lo = d.deployFloor := by
        by_contra hne
        exact hstarted ⟨d.deployFloor, by omega, .inl ⟨rfl, rfl⟩⟩
      refine ⟨lo, by omega, by omega, ?_, .inl rfl, ?_⟩
      · intro s hs
        have hs' := hs.floor
        omega
      · intro k ledger hk hknown hledger
        obtain rfl : k = lo := by omega
        by_cases htrigger : c.Triggers d.cfg.vault k
        · exact .inr ⟨le_refl _, htrigger⟩
        exact .inl (hread hanswer ledger
          (h.pinned hanswer k (le_refl _) (fun _ => htrigger) ledger ⟨by omega, .inl rfl, hledger⟩))
    obtain ⟨hlo, hhi⟩ := firstReadOf_mem d db c h.nonempty v
    refine ⟨d.firstReadOf db c lo hi v, by omega, by omega, ?_, .inr ?_, ?_⟩
    · intro s hs
      refine h.firstReadOf_le (htracks.resolve_left hcfg) hcfg hs (le_refl _) ?_
      by_contra hlt
      exact hstarted ⟨s, by omega, hs⟩
    · obtain ⟨heq, hvault⟩ | ⟨-, ⟨l, hl, hregisters, heq⟩, -⟩ := firstReadOf_cases d db c lo hi v
      · left
        rw [mem_ledgerVaults_iff] at hv
        obtain hv | hv | ⟨l, hl, hregisters⟩ := hv
        · exact (hcfg hv).elim
        · exact hv
        · exact hvault.resolve_right fun hnone => hnone l hl hregisters
      · exact .inr (.inr ⟨hcfg, l, logged_of_mem h.floor hl, hregisters, heq⟩)
    · intro k ledger hk hknown hledger
      obtain rfl : k = d.firstReadOf db c lo hi v := by omega
      exact .inl (hread hanswer ledger hledger)

private theorem hasNamed_or_moved_of_base {p : Nat} (htracks : d.Tracks v) (hv : v ∈ d.ledgerVaults db c lo hi)
    (hbase : d.deployFloor ≤ p) (hcovers : ∀ k ledger, p ≤ k → k < lo ∨ k = p → c.ledgerAt v k = .ledger ledger →
      hasNamed (d.asked db c lo hi) v ledger = true ∨ (lo ≤ k ∧ c.Triggers v k))
    (hp : p ≤ n) (hhi : n < hi) (hread : c.ledgerAt v n = .ledger ledger) :
    hasNamed (d.asked db c lo hi) v ledger = true ∨
      ∃ r ∈ d.moved db c lo hi, r.vault = v ∧ r.ledger = some ledger ∧ r.blockNumber ≤ n := by
  induction n with
  | zero =>
    obtain hnamed | ⟨hlo, htrigger⟩ := hcovers 0 ledger hp (.inr (by omega)) hread
    · exact .inl hnamed
    · exact hasNamed_or_moved_of_triggers htracks hv hlo hhi htrigger hread
  | succ n ih =>
    by_cases hknown : n + 1 < lo ∨ n + 1 = p
    · obtain hnamed | ⟨hlo, htrigger⟩ := hcovers (n + 1) ledger hp hknown hread
      · exact .inl hnamed
      · exact hasNamed_or_moved_of_triggers htracks hv hlo hhi htrigger hread
    -- the vault named the ledger one block earlier, or it moves here
    obtain hsame | htrigger := h.moves v n ledger (by omega) hread
    · obtain hnamed | ⟨r, hr, hv, hledger, hblock⟩ := ih (by omega) (by omega) hsame
      · exact .inl hnamed
      · exact .inr ⟨r, hr, hv, hledger, by omega⟩
    · exact hasNamed_or_moved_of_triggers htracks hv (by omega) hhi htrigger hread

private theorem hasNamed_or_moved (htracks : d.Tracks v) (hhi : n < hi) (hnames : d.Names c v ledger n) :
    hasNamed (d.asked db c lo hi) v ledger = true ∨
      ∃ r ∈ d.moved db c lo hi, r.vault = v ∧ r.ledger = some ledger ∧ r.blockNumber ≤ n := by
  obtain ⟨s, hs, hstart⟩ := hnames.exists_start
  have hv := h.mem_ledgerVaults_of_started htracks ⟨s, by omega, hstart⟩
  obtain ⟨⟨s', hs', hstart'⟩, hnamed⟩ | ⟨-, p, hfloor, -, hfirst, -, hcovers⟩ :=
    h.exists_base htracks hv (subset_insertLedgers ..) fun hanswer _ hread => h.hasNamed_firstRead hv hanswer hread
  · have hfloor' := hstart'.floor
    obtain hlt | hge := lt_or_ge n lo
    · exact .inl (hnamed n hlt ledger hnames)
    refine h.hasNamed_or_moved_of_base (p := lo - 1) htracks hv (by omega) ?_ (by omega) hhi hnames.2.2
    intro k ledger' hk hknown hread
    obtain rfl : k = lo - 1 := by omega
    refine .inl (hnamed _ (by omega) ledger' ⟨by omega, ?_, hread⟩)
    by_cases hcfg : v = d.cfg.vault
    · exact .inl hcfg
    · exact .inr ((started_iff_registered hcfg).1 ⟨s', by omega, hstart'⟩)
  · exact h.hasNamed_or_moved_of_base htracks hv hfloor hcovers ((hfirst s hstart).trans hs) hhi hnames.2.2

omit h in
private theorem mem_watchedNow_of_hasNamed (hv : v ∈ d.ledgerVaults db c lo hi)
    (hnamed : hasNamed (d.asked db c lo hi) v ledger = true) : ledger ∈ d.watchedNow db c lo hi := by
  simp only [watchedNow, mem_foldl_pushNew, mem_flatMap]
  refine .inl (.inr ⟨(v, d.firstReadOf db c lo hi v), mem_firstReads_iff.2 ⟨hv, rfl⟩, ?_⟩)
  obtain ⟨r, hr, rfl, hledger⟩ := hasNamed_iff.1 hnamed
  obtain hr | hr := mem_of_mem_insertLedgers hr
  · have hanswer : hasAnswer db.ledgers r.vault = true := hasAnswer_iff.2 ⟨r, hr, rfl⟩
    simp only [exclusionLedgersOf, hanswer, ↓reduceIte, mem_filterMap, mem_filter, decide_eq_true_eq]
    exact ⟨r, ⟨hr, rfl⟩, hledger⟩
  obtain ⟨-, hanswer, hblock, hread, -⟩ := mem_firstRows_iff.1 hr
  rw [hblock] at hread
  simp [exclusionLedgersOf, firstRow, hanswer, hread ledger hledger]

theorem mem_tickLogs (htracks : d.Tracks v) (hnames : d.Names c v ledger n) {l : LogEntry} (hl : l ∈ c.logs lo hi)
    (haddress : l.address = ledger) (hn : n ≤ l.place.blockNumber) (hproxy : ledger ∉ d.cfg.proxyOnlyAddresses) :
    l ∈ d.tickLogs db c lo hi := by
  subst haddress
  have hhi := (mem_logs.1 hl).2.1
  obtain ⟨s, hs, hstart⟩ := hnames.exists_start
  have hv := h.mem_ledgerVaults_of_started htracks ⟨s, by omega, hstart⟩
  rw [tickLogs, mem_append]
  by_cases hwatched : l.address ∈ d.watchedNow db c lo hi
  · left
    simp only [mainLogs, mem_filter, Bool.or_eq_true, decide_eq_true_eq]
    exact ⟨⟨hl, hwatched⟩, .inl hproxy⟩
  right
  obtain hnamed | ⟨r, hr, -, hledger, hblock⟩ := h.hasNamed_or_moved htracks (by omega) hnames
  · exact (hwatched (mem_watchedNow_of_hasNamed hv hnamed)).elim
  have hmem : r.blockNumber ∈ ((d.moved db c lo hi).filter fun r => decide (r.ledger = some l.address)).map
      LedgerRow.blockNumber := mem_map.2 ⟨r, mem_filter.2 ⟨hr, by simpa using hledger⟩, rfl⟩
  refine mem_filter.2 ⟨hl, ?_⟩
  cases hfrom : movedFrom (d.moved db c lo hi) l.address with
  | none =>
    rw [movedFrom, min?_eq_none_iff] at hfrom
    rw [hfrom] at hmem
    cases hmem
  | some m =>
    have hle : m ≤ r.blockNumber := (min?_eq_some_iff.1 hfrom).2 _ hmem
    simp only [Bool.and_eq_true, decide_eq_true_eq]
    exact ⟨hwatched, by omega⟩

private theorem answer_moved (hr : r ∈ d.moved db c lo hi) : d.Answer c (max reach hi) r := by
  obtain ⟨ledger, hledger, htrigger, hread, -⟩ := mem_movedRows hr
  obtain ⟨-, hlo, hhi⟩ := of_mem_triggers htrigger
  have hfloor := h.floor
  refine ⟨by omega, by omega, ?_, by simp [hledger]⟩
  intro ledger' hledger'
  rw [hledger] at hledger'
  cases hledger'
  exact hread

private theorem answer_ledgerRows (hr : r ∈ d.ledgerRows db c lo hi) : d.Answer c (max reach hi) r := by
  rw [ledgerRows, mem_append] at hr
  obtain hr | hr := hr
  · exact h.answer_firstRows hr
  · exact h.answer_moved hr

omit h in
theorem mem_ledgerVaults_of_ledgerRows (hr : r ∈ d.ledgerRows db c lo hi) : r.vault ∈ d.ledgerVaults db c lo hi := by
  rw [ledgerRows, mem_append] at hr
  obtain hr | hr := hr
  · exact (mem_firstRows_iff.1 hr).1
  obtain ⟨-, -, htrigger, -⟩ := mem_movedRows hr
  exact (of_mem_triggers htrigger).1

variable {new : List LedgerRow}

private theorem hasNamed_take (hnew : new <+: d.ledgerRows db c lo hi)
    (hanswer : hasAnswer db.ledgers v = false) (hanswer' : hasAnswer (insertLedgers db.ledgers new) v = true)
    (hread : c.ledgerAt v (d.firstReadOf db c lo hi v) = .ledger ledger) :
    hasNamed (insertLedgers db.ledgers new) v ledger = true := by
  have hrows : ∀ r ∈ insertLedgers db.ledgers new, d.Answer c (max reach hi) r :=
    answer_insertLedgers (h.known.widen (le_max_left ..)).answer fun r hr => h.answer_ledgerRows (hnew.subset hr)
  obtain ⟨r, hr, rfl⟩ := hasAnswer_iff.1 hanswer'
  obtain hr' | hr' := mem_of_mem_insertLedgers hr
  · rw [hasAnswer_iff.2 ⟨r, hr', rfl⟩] at hanswer
    cases hanswer
  have hv := mem_ledgerVaults_of_ledgerRows (hnew.subset hr')
  have hfirst : ∃ r' ∈ new, r' ∈ d.firstRows db c lo hi ∧ r'.vault = r.vault := by
    obtain hpre | hpre := prefix_or_prefix_of_prefix hnew (prefix_append _ _)
    · exact ⟨r, hr', hpre.subset hr', rfl⟩
    have hrow : (⟨r.vault, some ledger, d.firstReadOf db c lo hi r.vault⟩ : LedgerRow) ∈ d.firstRows db c lo hi :=
      mem_firstRows_iff.2 ⟨hv, hanswer, rfl, by simpa using hread, by simp⟩
    exact ⟨_, hpre.subset hrow, hrow, rfl⟩
  obtain ⟨r', hr', hfirst, heq⟩ := hfirst
  have hblock := (mem_firstRows_iff.1 hfirst).2.2.1
  rw [heq] at hblock
  obtain ⟨x, hx, hv, hledger, -⟩ := exists_insertLedgers hrows hr' (by rw [heq, hblock]; exact hread)
  exact hasNamed_iff.2 ⟨x, hx, hv.trans heq, hledger⟩

private theorem le_of_firstRows (hmulti : d.cfg.multiVaultEvents = true) (hr : r ∈ d.firstRows db c lo hi)
    (hcfg : r.vault ≠ d.cfg.vault) (hnames : d.Names c r.vault ledger n) : r.blockNumber ≤ n := by
  obtain ⟨-, hanswer, hblock, -, -⟩ := mem_firstRows_iff.1 hr
  obtain ⟨s, hs, hstart⟩ := hnames.exists_start
  rw [hblock]
  apply h.firstReadOf_le hmulti hcfg hstart hs
  by_contra hlt
  obtain ⟨x, hx, hv, -⟩ := hasNamed_iff.1
    (h.known.named r.vault (.inr hmulti) (fun heq => (hcfg heq).elim) n (by omega) ledger hnames)
  rw [hasAnswer_iff.2 ⟨x, hx, hv⟩] at hanswer
  cases hanswer

private theorem le_of_moved (hmulti : d.cfg.multiVaultEvents = true) (hr : r ∈ d.moved db c lo hi)
    (hledger : r.ledger = some ledger) (hnames : d.Names c r.vault ledger n) : r.blockNumber ≤ n := by
  obtain ⟨ledger', hledger', htrigger, -, hnew⟩ := mem_movedRows hr
  rw [hledger, Option.some.injEq] at hledger'
  subst hledger'
  by_contra hlt
  have hhi := (of_mem_triggers htrigger).2.2
  obtain hnamed | ⟨r', hr', hv, hledger', hblock⟩ := h.hasNamed_or_moved (.inr hmulti) (by omega) hnames
  · rw [Deployment.asked, hnew] at hnamed
    cases hnamed
  rw [eq_of_mem_movedRows hr hr' hv.symm (hledger.trans hledger'.symm)] at hlt
  omega

/-- A tick that fails among its ledger writes. -/
theorem known_take (hnew : new <+: d.ledgerRows db c lo hi) :
    d.Known c lo (max reach hi) (insertLedgers db.ledgers new) db.log.vaults := by
  have hsub : db.ledgers ⊆ insertLedgers db.ledgers new := subset_insertLedgers ..
  have hknown := h.known.widen (le_max_left reach hi)
  have hrows : ∀ r ∈ insertLedgers db.ledgers new, d.Answer c (max reach hi) r :=
    answer_insertLedgers hknown.answer fun r hr => h.answer_ledgerRows (hnew.subset hr)
  have hread : ∀ v, hasAnswer db.ledgers v = false → hasAnswer (insertLedgers db.ledgers new) v = true →
      d.Tracks v → (d.Started c v lo ∧ ∀ n < lo, ∀ ledger, d.Names c v ledger n →
        hasNamed (insertLedgers db.ledgers new) v ledger = true) ∨
        ¬d.Started c v lo ∧ ∃ p, d.Base c lo (max reach hi) (insertLedgers db.ledgers new) db.log.vaults v p := by
    intro v hanswer hanswer' htracks
    obtain ⟨r, hr, rfl⟩ := hasAnswer_iff.1 hanswer'
    refine h.exists_base htracks ?_ hsub fun _ ledger hledger => h.hasNamed_take hnew hanswer hanswer' hledger
    obtain hr | hr := mem_of_mem_insertLedgers hr
    · rw [hasAnswer_iff.2 ⟨r, hr, rfl⟩] at hanswer
      cases hanswer
    · exact mem_ledgerVaults_of_ledgerRows (hnew.subset hr)
  constructor
  · exact hrows
  · exact hknown.vaultBelow
  · exact hknown.vaultFirst
  · exact hknown.registered
  · intro v htracks hanswer n hn ledger hnames
    by_cases hold : v = d.cfg.vault → hasAnswer db.ledgers v = true
    · exact hasNamed_mono hsub (hknown.named v htracks hold n hn ledger hnames)
    rw [Classical.not_imp, Bool.not_eq_true] at hold
    obtain ⟨hcfg, hold⟩ := hold
    obtain ⟨-, hnamed⟩ | ⟨hstarted, -⟩ := hread v hold (hanswer hcfg) htracks
    · exact hnamed n hn ledger hnames
    obtain ⟨s, hs, hstart⟩ := hnames.exists_start
    exact (hstarted ⟨s, by omega, hstart⟩).elim
  · intro hmulti r hr hcfg ledger hledger n hnames
    obtain hr' | hr' := mem_of_mem_insertLedgers hr
    · obtain ⟨x, hx, hx'⟩ := hknown.earliest hmulti r hr' hcfg ledger hledger n hnames
      exact ⟨x, hsub hx, hx'⟩
    refine ⟨r, hr, rfl, hledger, ?_⟩
    have hmem := hnew.subset hr'
    rw [ledgerRows, mem_append] at hmem
    obtain hmem | hmem := hmem
    · exact h.le_of_firstRows hmulti hmem hcfg hnames
    · exact h.le_of_moved hmulti hmem hledger hnames
  · intro v htracks hanswer
    cases hold : hasAnswer db.ledgers v with
    | true =>
      obtain hstarted | ⟨p, hfloor, hbelow, hfirst, horigin, hcovers⟩ := hknown.based v htracks hold
      · exact .inl hstarted
      refine .inr ⟨p, hfloor, hbelow, hfirst, horigin, ?_⟩
      intro k ledger hk hcover hledger
      exact (hcovers k ledger hk hcover hledger).imp_left (hasNamed_mono hsub)
    | false => exact (hread v hold hanswer htracks).imp And.left And.right

omit h in
private theorem of_mem_statements {x : VaultRow} (hx : .vault x ∈ d.statements db c lo hi) :
    lo ≤ x.registeredBlock ∧ x.registeredBlock < hi := by
  obtain ⟨l, hl, hst⟩ := mem_flatMap.1 hx
  have hblock : x.registeredBlock = l.place.blockNumber := (statement_of_handleLog hst).block
  have hlog := mem_logs.1 (mem_logs_of_tickLogs hl)
  omega

omit h in
private theorem statements_of_registers (hmulti : d.cfg.multiVaultEvents = true) {l : LogEntry} (hl : l ∈ c.logs lo hi)
    (hregisters : d.Registers l v) : ∃ main late, d.statements db c lo hi = main ++ late ∧
      main.Pairwise (fun a b => a.blockNumber ≤ b.blockNumber) ∧
      ∃ z, .vault z ∈ main ∧ z.vaultAddress = v ∧ z.registeredBlock = l.place.blockNumber := by
  obtain ⟨hregistry, hvault⟩ := hregisters
  have hmain : l ∈ d.mainLogs db c lo hi := by
    have hwatches : d.cfg.WatchesRegistry := .inr hmulti
    simp only [mainLogs, hwatches.proxyOnlyAddresses, mem_filter, not_mem_nil, not_false_eq_true,
      decide_true, Bool.true_or, and_true, decide_eq_true_eq]
    refine ⟨hl, ?_⟩
    simp only [watchedNow, mem_foldl_pushNew]
    exact .inl (.inl (.inl (hwatches.mem hregistry)))
  refine ⟨_, _, flatMap_append, ?_, ?_⟩
  · rw [pairwise_flatMap]
    constructor
    · intro l' _
      refine pairwise_of_forall_mem_list fun a ha b hb => ?_
      rw [(statement_of_handleLog ha).block, (statement_of_handleLog hb).block]
    · refine (((pairwise_logs c lo hi).filter _).filter _).imp ?_
      intro l' l'' hlt a ha b hb
      simp only [LogPlace.pos, Prod.Lex.toLex_lt_toLex] at hlt
      rw [(statement_of_handleLog ha).block, (statement_of_handleLog hb).block]
      omega
  · cases hevent : l.event with
    | vaultRegistered vault name =>
      rw [hevent, Event.registeredVault, Option.some.injEq] at hvault
      subst hvault
      refine ⟨⟨vault, name, riskLabelFromVaultName name, 0, l.place.blockNumber, l.place.txHash, none⟩, ?_, rfl, rfl⟩
      exact mem_flatMap.2 ⟨l, hmain, by simp [handleLog, hevent]⟩
    | _ =>
      rw [hevent] at hvault
      cases hvault

end Deployment.Reading

/-- A row is stored of the first statement on its vault. -/
theorem foldl_execVaults_cases {x : VaultRow} {sts : List Statement} {xs : List VaultRow}
    (h : x ∈ sts.foldl Statement.execVaults xs) :
    (∃ y ∈ xs, y.vaultAddress = x.vaultAddress ∧ y.registeredBlock = x.registeredBlock) ∨
      (∀ y ∈ xs, y.vaultAddress ≠ x.vaultAddress) ∧ ∃ before y after, sts = before ++ .vault y :: after ∧
        y.registeredBlock = x.registeredBlock ∧ ∀ z, .vault z ∈ before → z.vaultAddress ≠ x.vaultAddress := by
  induction sts using reverseRecOn generalizing x with
  | nil => exact .inl ⟨x, h, rfl, rfl⟩
  | append_singleton sts st ih =>
    rw [foldl_append, foldl_cons, foldl_nil] at h
    have hold : ∀ w ∈ sts.foldl Statement.execVaults xs, w.vaultAddress = x.vaultAddress →
        w.registeredBlock = x.registeredBlock →
        (∃ y ∈ xs, y.vaultAddress = x.vaultAddress ∧ y.registeredBlock = x.registeredBlock) ∨
          (∀ y ∈ xs, y.vaultAddress ≠ x.vaultAddress) ∧ ∃ before y after, sts ++ [st] = before ++ .vault y :: after ∧
            y.registeredBlock = x.registeredBlock ∧ ∀ z, .vault z ∈ before → z.vaultAddress ≠ x.vaultAddress := by
      intro w hw haddress hblock
      obtain hrow | ⟨hnew, before, y, after, rfl, hy, hfirst⟩ := ih hw
      · rw [haddress, hblock] at hrow
        exact .inl hrow
      rw [haddress] at hnew hfirst
      exact .inr ⟨hnew, before, y, after ++ [st], by simp, hy.trans hblock, hfirst⟩
    cases st with
    | vault row =>
      obtain ⟨heq, -⟩ | ⟨heq, hnew⟩ := insertNew_cases VaultRow.vaultAddress row (sts.foldl Statement.execVaults xs)
      · rw [Statement.execVaults, heq] at h
        exact hold x h rfl rfl
      rw [Statement.execVaults, heq, mem_append, mem_singleton] at h
      obtain h | rfl := h
      · exact hold x h rfl rfl
      refine .inr ⟨?_, sts, x, [], rfl, rfl, ?_⟩
      · intro y hy haddress
        obtain ⟨w, hw, hw'⟩ := exists_mem_foldl_execVaults (.inl ⟨y, hy, haddress⟩)
        exact hnew w hw hw'
      · intro z hz haddress
        obtain ⟨w, hw, hw'⟩ := exists_mem_foldl_execVaults (.inr ⟨z, hz, haddress⟩)
        exact hnew w hw hw'
    | vaultStatus row =>
      obtain ⟨w, hw, rfl⟩ := mem_map.1 h
      have hsame : (setVaultStatus row w).vaultAddress = w.vaultAddress ∧
          (setVaultStatus row w).registeredBlock = w.registeredBlock := by
        unfold setVaultStatus
        split <;> exact ⟨rfl, rfl⟩
      exact hold w hw hsame.1.symm hsame.2.symm
    | _ => exact hold x h rfl rfl

namespace Deployment.Reading

variable {db : Db H} (h : d.Reading db c lo hi reach)

include h

variable {sts : List Statement}

private theorem registeredBlock_le (hmulti : d.cfg.multiVaultEvents = true)
    (hsts : sts <+: d.statements db c lo hi) {x : VaultRow} (hx : x ∈ sts.foldl Statement.execVaults db.log.vaults)
    {l : LogEntry} (hl : d.Logged c l) (hregisters : d.Registers l x.vaultAddress) :
    x.registeredBlock ≤ l.place.blockNumber := by
  obtain ⟨y, hy, haddress, hblock⟩ | ⟨hnew, before, y, after, rfl, hblock, hfirst⟩ := foldl_execVaults_cases hx
  · rw [← hblock]
    exact h.known.vaultFirst hmulti y hy l hl (by rwa [haddress])
  have hy := of_mem_statements (hsts.subset (by simp : .vault y ∈ before ++ .vault y :: after))
  have hlo : lo ≤ l.place.blockNumber := by
    by_contra hlt
    obtain ⟨z, hz, hv⟩ := h.known.registered hmulti _ (mem_registered.2 ⟨l, mem_logs_iff.2 ⟨hl, by omega⟩, hregisters⟩)
    exact hnew z hz hv
  by_cases hhi : l.place.blockNumber < hi
  · obtain ⟨main, late, hsplit, hsorted, z, hz, hv, hz'⟩ :=
      @statements_of_registers _ d c lo hi _ db hmulti _ (mem_logs.2 ⟨hlo, hhi, hl.2⟩) hregisters
    rw [hsplit] at hsts
    -- the first statement on the vault is among the main ones, so it is not later than that of the registration
    have hmain : before ++ [.vault y] <+: main := by
      have hpre : before ++ [.vault y] <+: main ++ late := by
        refine List.IsPrefix.trans ?_ hsts
        exact ⟨after, by simp⟩
      obtain hpre | hpre := prefix_or_prefix_of_prefix hpre (prefix_append main late)
      · exact hpre
      obtain heq | hpre := prefix_concat_iff.1 hpre
      · rw [heq]
      · exact (hfirst z (hpre.subset hz) hv).elim
    obtain ⟨rest, rfl⟩ := hmain
    rw [append_assoc, singleton_append, mem_append, mem_cons] at hz
    rw [append_assoc, singleton_append, pairwise_append, pairwise_cons] at hsorted
    obtain hz | hz | hz := hz
    · exact (hfirst z hz hv).elim
    · cases hz
      omega
    have hle : y.registeredBlock ≤ z.registeredBlock := hsorted.2.1.1 _ hz
    omega
  · omega

omit h in
private theorem registeredBlock_lt (hknown : d.Known c lo reach db.ledgers db.log.vaults)
    (hsts : sts <+: d.statements db c lo hi) {x : VaultRow} (hx : x ∈ sts.foldl Statement.execVaults db.log.vaults) :
    x.registeredBlock < max reach hi := by
  obtain ⟨y, hy | hy, -, hblock⟩ := mem_foldl_execVaults hx
  · have := hknown.vaultBelow y hy
    omega
  have := (of_mem_statements (hsts.subset hy)).2
  omega

theorem known_statements (hsts : sts <+: d.statements db c lo hi) :
    d.Known c lo (max reach hi) (insertLedgers db.ledgers (d.ledgerRows db c lo hi))
      (sts.foldl Statement.execVaults db.log.vaults) := by
  have hknown := h.known_take (prefix_refl _)
  constructor
  · exact hknown.answer
  · exact fun x hx => registeredBlock_lt h.known hsts hx
  · exact fun hmulti x hx l hl hregisters => h.registeredBlock_le hmulti hsts hx hl hregisters
  · exact fun hmulti v hv => exists_mem_foldl_execVaults (.inl (hknown.registered hmulti v hv))
  · exact hknown.named
  · exact hknown.earliest
  · intro v htracks hanswer
    obtain hstarted | ⟨p, hfloor, hbelow, hfirst, horigin, hcovers⟩ := hknown.based v htracks hanswer
    · exact .inl hstarted
    refine .inr ⟨p, hfloor, hbelow, hfirst, ?_, hcovers⟩
    exact horigin.imp_right (Or.imp_left fun hrow => exists_mem_foldl_execVaults (.inl hrow))

/-- A tick that executes all its writes. -/
theorem known_range : d.Known c hi (max reach hi) (insertLedgers db.ledgers (d.ledgerRows db c lo hi))
    ((d.statements db c lo hi).foldl Statement.execVaults db.log.vaults) := by
  have hknown := h.known_statements (prefix_refl _)
  have hasked : d.asked db c lo hi ⊆ insertLedgers db.ledgers (d.ledgerRows db c lo hi) := by
    rw [RangeOk.insertLedgers_ledgerRows]
    exact RangeOk.subset_insertLedgers ..
  -- what is known or moved to is stored
  have hstored : ∀ v ledger n, (hasNamed (d.asked db c lo hi) v ledger = true ∨
      ∃ r ∈ d.moved db c lo hi, r.vault = v ∧ r.ledger = some ledger ∧ r.blockNumber ≤ n) →
      hasNamed (insertLedgers db.ledgers (d.ledgerRows db c lo hi)) v ledger = true := by
    rintro v ledger n (hnamed | ⟨r, hr, rfl, hledger, -⟩)
    · exact hasNamed_mono hasked hnamed
    · obtain ⟨x, hx, hv, hledger', -⟩ := exists_insertLedgers hknown.answer (mem_append_right _ hr)
        ((h.answer_moved hr).named ledger hledger)
      exact hasNamed_iff.2 ⟨x, hx, hv, hledger'⟩
  constructor
  · exact hknown.answer
  · exact hknown.vaultBelow
  · exact hknown.vaultFirst
  · intro hmulti v hv
    rw [mem_registered, logs_append h.floor (le_of_lt h.nonempty)] at hv
    obtain ⟨l, hl, hregisters⟩ := hv
    rw [mem_append] at hl
    obtain hl | hl := hl
    · exact hknown.registered hmulti v (mem_registered.2 ⟨l, hl, hregisters⟩)
    obtain ⟨main, late, hsplit, -, z, hz, hv, -⟩ :=
      @statements_of_registers _ d c lo hi v db hmulti _ hl hregisters
    refine exists_mem_foldl_execVaults (.inr ⟨z, ?_, hv⟩)
    rw [hsplit]
    exact mem_append_left _ hz
  · intro v htracks _ n hn ledger hnames
    exact hstored v ledger n (h.hasNamed_or_moved htracks hn hnames)
  · exact hknown.earliest
  · intro v htracks hanswer
    by_cases hstarted : d.Started c v hi
    · exact .inl hstarted
    right
    have hstarted' : ¬d.Started c v lo := by
      rintro ⟨s, hs, hstart⟩
      exact hstarted ⟨s, hs.trans h.nonempty, hstart⟩
    by_cases hv : v ∈ d.ledgerVaults db c lo hi
    · obtain ⟨hstarted'', -⟩ | ⟨-, p, hfloor, hbelow, hfirst, horigin, hcovers⟩ :=
        h.exists_base htracks hv (RangeOk.subset_insertLedgers ..) fun hanswer _ hread =>
          h.hasNamed_firstRead hv hanswer hread
      · exact (hstarted' hstarted'').elim
      refine ⟨p, hfloor, hbelow, hfirst, ?_, ?_⟩
      · exact horigin.imp_right (Or.imp_left fun hrow => exists_mem_foldl_execVaults (.inl hrow))
      · intro k ledger hk hcover hread
        by_cases hin : k < hi
        · exact .inl (hstored v ledger k (h.hasNamed_or_moved_of_base htracks hv hfloor hcovers hk hin hread))
        refine (hcovers k ledger hk (by omega) hread).imp (hasNamed_mono hasked) ?_
        exact fun htrigger => ⟨by omega, htrigger.2⟩
    -- a vault that failed ticks have found above the range
    have hold : hasAnswer db.ledgers v = true := by
      obtain ⟨r, hr, rfl⟩ := hasAnswer_iff.1 hanswer
      obtain hr | hr := RangeOk.mem_of_mem_insertLedgers hr
      · exact hasAnswer_iff.2 ⟨r, hr, rfl⟩
      · exact (hv (mem_ledgerVaults_of_ledgerRows hr)).elim
    obtain ⟨p, hfloor, hbelow, hfirst, horigin, hcovers⟩ := (h.known.based v htracks hold).resolve_left hstarted'
    rw [mem_ledgerVaults_iff, not_or, not_or] at hv
    obtain ⟨hcfg, hrow, -⟩ := hv
    have hstart : d.Start c v p := (horigin.resolve_left hcfg).resolve_left hrow
    have hp : hi ≤ p := by
      by_contra hlt
      exact hstarted ⟨p, by omega, hstart⟩
    refine ⟨p, hfloor, by omega, hfirst, .inr (.inr hstart), ?_⟩
    intro k ledger hk hcover hread
    refine (hcovers k ledger hk (by omega) hread).imp (hasNamed_mono (RangeOk.subset_insertLedgers ..)) ?_
    exact fun htrigger => ⟨by omega, htrigger.2⟩

end Deployment.Reading

end RobotMoney.Indexer
