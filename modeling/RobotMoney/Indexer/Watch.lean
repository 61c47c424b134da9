import RobotMoney.Indexer.Tick

/-!
# Finding the contracts to watch

A tick finds out what to watch while it runs: the registry's logs in the range name new vaults, and the vaults their
exclusion ledgers, each stored under the block at which it was read.  When the stored answers are right up to the range
(`VaultsOk`, `LedgersOk`), every prefix of the ledger writes keeps them right, and all of them make them complete up to
the end of the range.

The point of a ledger read is the origin of a name (`Lawful.origin`): a vault names a ledger since its registration, or
since an upgrade, and the tick reads at both.
-/

namespace RobotMoney.Indexer

open Evm SqlTable List

variable {H : Type} (d : Deployment H)

def Deployment.Start (c : Chain) (v : Address) (n : Nat) : Prop :=
  (v = d.cfg.vault ∧ n = d.deployFloor) ∨
    (v ≠ d.cfg.vault ∧ ∃ l, d.Logged c l ∧ d.Registers l v ∧ l.place.blockNumber = n)

/-- The ledger that a vault names there, if that is below `b`. -/
def Deployment.StartLedger (c : Chain) (b : Nat) (v ledger : Address) : Prop :=
  ∃ n < b, d.Start c v n ∧ c.ledgerAt v n = .ledger ledger

/-- The vaults of the table are those registered below `next`, and perhaps some up to `reach`. -/
structure Deployment.VaultsOk (c : Chain) (next reach : Nat) (vaults : List VaultRow) : Prop where
  sound : ∀ x ∈ vaults, ∃ l ∈ c.logs d.deployFloor reach,
    d.Registers l x.vaultAddress ∧ l.place.blockNumber = x.registeredBlock
  complete : ∀ v ∈ d.registered c next, ∃ x ∈ vaults, x.vaultAddress = v

/-- A row says what its vault answers at its block. -/
structure Deployment.RowOk (c : Chain) (reach : Nat) (r : LedgerRow) : Prop where
  floor : d.deployFloor ≤ r.blockNumber
  below : r.blockNumber < reach
  vault : r.vault = d.cfg.vault ∨ r.vault ∈ d.registered c reach
  named : ∀ ledger, r.ledger = some ledger → d.Names c r.vault ledger r.blockNumber
  unnamed : r.ledger = none → c.ledgerAt r.vault r.blockNumber = .noLedger

/-- The table has the ledgers named below `next`, and perhaps some up to `reach`; a vault that has an answer, or a row
of its own, has been asked for its first ledger. -/
structure Deployment.LedgersOk (c : Chain) (next reach : Nat) (rows : List LedgerRow) (vaults : List VaultRow) :
    Prop where
  sound : ∀ r ∈ rows, d.RowOk c reach r
  complete : ∀ n v ledger, n < next → d.Names c v ledger n → hasNamed rows v ledger = true
  started : ∀ v, hasAnswer rows v = true ∨ (∃ x ∈ vaults, x.vaultAddress = v) →
    ∀ ledger, d.StartLedger c reach v ledger → hasNamed rows v ledger = true

variable {d} {c : Chain} {next reach lo hi n : Nat} {rows : List LedgerRow} {vaults : List VaultRow}
  {v ledger : Address}

theorem hasAnswer_iff : hasAnswer rows v = true ↔ ∃ r ∈ rows, r.vault = v := by
  simp [hasAnswer]

theorem hasNamed_iff : hasNamed rows v ledger = true ↔ ∃ r ∈ rows, r.vault = v ∧ r.ledger = some ledger := by
  simp [hasNamed]

theorem hasNamed_mono {rows' : List LedgerRow} (hsub : rows ⊆ rows') (h : hasNamed rows v ledger = true) :
    hasNamed rows' v ledger = true := by
  obtain ⟨r, hr, hr'⟩ := hasNamed_iff.1 h
  exact hasNamed_iff.2 ⟨r, hsub hr, hr'⟩

private theorem Deployment.LedgersOk.mem_named (h : d.LedgersOk c next reach rows vaults)
    (hnamed : hasNamed rows v ledger = true) :
    (ledger, v) ∈ d.named c reach := by
  obtain ⟨r, hr, rfl, hledger⟩ := hasNamed_iff.1 hnamed
  exact Indexer.mem_named.2 ⟨_, (h.sound r hr).below, (h.sound r hr).named ledger hledger⟩

variable {r : LedgerRow}

private theorem Deployment.LedgersOk.hasNamed_of_key (h : d.LedgersOk c next reach rows vaults) (hr : r ∈ rows)
    (hkey : r.key = (v, n)) (hread : c.ledgerAt v n = .ledger ledger) : hasNamed rows v ledger = true := by
  simp only [LedgerRow.key, Prod.mk.injEq] at hkey
  obtain ⟨rfl, rfl⟩ := hkey
  cases hledger : r.ledger with
  | none =>
    rw [(h.sound r hr).unnamed hledger] at hread
    cases hread
  | some ledger' =>
    rw [((h.sound r hr).named ledger' hledger).2.2, LedgerRead.ledger.injEq] at hread
    exact hasNamed_iff.2 ⟨r, hr, rfl, by rw [hledger, hread]⟩

theorem Deployment.Lawful.origin (h : d.Lawful c) (hnames : d.Names c v ledger n) : ∃ m ≤ n, d.Names c v ledger m ∧
      (d.Start c v m ∨ ∃ l ∈ c.entriesAt m, l.address = v ∧ l.event.isLedgerTrigger = true) := by
  induction n with
  | zero =>
    refine ⟨0, le_refl _, hnames, .inl ?_⟩
    obtain ⟨hfloor, hvault, -⟩ := hnames
    by_cases hv : v = d.cfg.vault
    · exact .inl ⟨hv, by omega⟩
    obtain ⟨l, hl, hregisters⟩ := mem_registered.1 (hvault.resolve_left hv)
    rw [mem_logs_iff] at hl
    exact .inr ⟨hv, l, hl.1, hregisters, by omega⟩
  | succ n ih =>
    obtain ⟨hfloor, hvault, hread⟩ := hnames
    -- either the vault starts here, or it is watched one block earlier
    by_cases hstart : d.Start c v (n + 1)
    · exact ⟨n + 1, le_refl _, ⟨hfloor, hvault, hread⟩, .inl hstart⟩
    have hbefore : d.deployFloor ≤ n ∧ (v = d.cfg.vault ∨ v ∈ d.registered c (n + 1)) := by
      by_cases hv : v = d.cfg.vault
      · refine ⟨?_, .inl hv⟩
        by_contra hlt
        exact hstart (.inl ⟨hv, by omega⟩)
      obtain ⟨l, hl, hregisters⟩ := mem_registered.1 (hvault.resolve_left hv)
      rw [mem_logs_iff] at hl
      have hne : l.place.blockNumber ≠ n + 1 := fun heq => hstart (.inr ⟨hv, l, hl.1, hregisters, heq⟩)
      have hlogged := hl.1.1
      exact ⟨by omega, .inr (mem_registered.2 ⟨l, mem_logs_iff.2 ⟨hl.1, by omega⟩, hregisters⟩)⟩
    obtain hsame | htrigger := h.moves v n ledger hbefore.1 hread
    · obtain ⟨m, hm, hnames, horigin⟩ := ih ⟨hbefore.1, hbefore.2, hsame⟩
      exact ⟨m, by omega, hnames, horigin⟩
    · exact ⟨n + 1, le_refl _, ⟨hfloor, hvault, hread⟩, .inr htrigger⟩

theorem Deployment.VaultsOk.mono (h : d.VaultsOk c next reach vaults) (hhi : reach ≤ hi) :
    d.VaultsOk c next hi vaults where
  sound := by
    intro x hx
    obtain ⟨l, hl, hregisters⟩ := h.sound x hx
    exact ⟨l, logs_mono hhi hl, hregisters⟩
  complete := h.complete

private theorem Deployment.Lawful.startLedger_of_known (hlawful : d.Lawful c)
    (hv : (v = d.cfg.vault ∧ d.deployFloor < reach) ∨ v ∈ d.registered c reach) (h : d.StartLedger c hi v ledger) :
    d.StartLedger c reach v ledger := by
  obtain ⟨n, -, hstart, hread⟩ := h
  refine ⟨n, ?_, hstart, hread⟩
  obtain ⟨hcfg, rfl⟩ | ⟨hcfg, l, hl, hregisters, rfl⟩ := hstart
  · obtain ⟨-, hfloor⟩ | hv := hv
    · exact hfloor
    obtain ⟨l, hl, -⟩ := mem_registered.1 hv
    rw [mem_logs] at hl
    omega
  obtain ⟨hcfg', -⟩ | hv := hv
  · exact (hcfg hcfg').elim
  obtain ⟨l', hl', hregisters'⟩ := mem_registered.1 hv
  rw [mem_logs_iff] at hl'
  rw [hlawful.registeredOnce l l' v hl hl'.1 hregisters hregisters']
  exact hl'.2

theorem Deployment.LedgersOk.mono (h : d.LedgersOk c next reach rows vaults) (hvaults : d.VaultsOk c next reach vaults)
    (hlawful : d.Lawful c) (hhi : reach ≤ hi) : d.LedgersOk c next hi rows vaults where
  sound := by
    intro r hr
    obtain ⟨hfloor, hreach, hvault, hnamed, hunnamed⟩ := h.sound r hr
    exact ⟨hfloor, by omega, hvault.imp_right (registered_mono hhi), hnamed, hunnamed⟩
  complete := h.complete
  started := by
    intro v hv ledger hstart
    apply h.started v hv ledger
    apply hlawful.startLedger_of_known _ hstart
    obtain hv | ⟨x, hx, rfl⟩ := hv
    · obtain ⟨r, hr, rfl⟩ := hasAnswer_iff.1 hv
      have hrow := h.sound r hr
      have hfloor := hrow.floor
      have hreach := hrow.below
      exact hrow.vault.imp_left fun heq => ⟨heq, by omega⟩
    obtain ⟨l, hl, hregisters, -⟩ := hvaults.sound x hx
    exact .inr (mem_registered.2 ⟨l, hl, hregisters⟩)

private theorem Deployment.LedgersOk.insert (h : d.LedgersOk c next reach rows vaults) (hrow : d.RowOk c reach r)
    (hstart : ∀ ledger, d.StartLedger c reach r.vault ledger →
      hasNamed rows r.vault ledger = true ∨ r.ledger = some ledger) :
    d.LedgersOk c next reach (insertNew LedgerRow.key r rows) vaults := by
  obtain ⟨heq, -⟩ | ⟨heq, -⟩ := insertNew_cases LedgerRow.key r rows
  · rw [heq]
    exact h
  rw [heq]
  have hsub : rows ⊆ rows ++ [r] := subset_append_left rows [r]
  constructor
  · intro x hx
    rw [mem_append, mem_singleton] at hx
    obtain hx | rfl := hx
    · exact h.sound x hx
    · exact hrow
  · intro n v ledger hn hnames
    exact hasNamed_mono hsub (h.complete n v ledger hn hnames)
  · intro v hv ledger hledger
    by_cases hv' : hasAnswer rows v = true ∨ ∃ x ∈ vaults, x.vaultAddress = v
    · exact hasNamed_mono hsub (h.started v hv' ledger hledger)
    have hnew : v = r.vault := by
      obtain hv | hv := hv
      · obtain ⟨x, hx, rfl⟩ := hasAnswer_iff.1 hv
        rw [mem_append, mem_singleton] at hx
        obtain hx | rfl := hx
        · exact (hv' (.inl (hasAnswer_iff.2 ⟨x, hx, rfl⟩))).elim
        · rfl
      · exact (hv' (.inr hv)).elim
    subst hnew
    obtain hnamed | hledger' := hstart ledger hledger
    · exact hasNamed_mono hsub hnamed
    · exact hasNamed_iff.2 ⟨r, by simp, rfl, hledger'⟩

/-- What the discovery knows after some logs of the registry. -/
structure Discovered (addrs : List Address) (logs : List LogEntry) (s : List Address × List (Address × Nat)) :
    Prop where
  known : ∀ v, v ∈ s.1 ↔ v ∈ addrs ∨ ∃ l ∈ logs, l.event.registeredVault = some v
  sound : ∀ v n, (v, n) ∈ s.2 → v ∉ addrs ∧ ∃ l ∈ logs, l.event.registeredVault = some v ∧ l.place.blockNumber = n
  complete : ∀ v, (∃ l ∈ logs, l.event.registeredVault = some v) → v ∉ addrs → ∃ n, (v, n) ∈ s.2

theorem discovered_foldl (addrs : List Address) (logs : List LogEntry) :
    Discovered addrs logs (logs.foldl discoverStep (addrs, [])) := by
  induction logs using reverseRecOn with
  | nil => exact ⟨by simp, by simp, by simp⟩
  | append_singleton logs l ih =>
    rw [foldl_append, foldl_cons, foldl_nil]
    generalize logs.foldl discoverStep (addrs, []) = s at ih ⊢
    obtain ⟨hknown, hsound, hcomplete⟩ := ih
    have hsound' : ∀ v n, (v, n) ∈ s.2 → v ∉ addrs ∧
        ∃ l' ∈ logs ++ [l], l'.event.registeredVault = some v ∧ l'.place.blockNumber = n := by
      intro v n hmem
      obtain ⟨hnew, l', hl', hvault⟩ := hsound v n hmem
      exact ⟨hnew, l', mem_append_left _ hl', hvault⟩
    have hmore : ∀ v, (∃ l' ∈ logs ++ [l], l'.event.registeredVault = some v) ↔
        (∃ l' ∈ logs, l'.event.registeredVault = some v) ∨ l.event.registeredVault = some v := by
      intro v
      simp [or_and_right, exists_or]
    simp only [discoverStep]
    cases hevent : l.event.registeredVault with
    | none =>
      refine ⟨?_, hsound', ?_⟩
      · intro v
        simp only [hmore, hevent, reduceCtorEq, or_false, hknown]
      · intro v hv hnew
        simp only [hmore, hevent, reduceCtorEq, or_false] at hv
        exact hcomplete v hv hnew
    | some vault =>
      simp only [hevent, Option.some.injEq] at hmore
      by_cases hmem : vault ∈ s.1
      · simp only [hmem, ↓reduceIte]
        have hold := (hknown vault).1 hmem
        refine ⟨?_, ?_, ?_⟩
        · intro v
          rw [hknown, hmore]
          constructor
          · rintro (hv | hv)
            · exact .inl hv
            · exact .inr (.inl hv)
          · rintro (hv | hv | rfl)
            · exact .inl hv
            · exact .inr hv
            · exact hold
        · intro v n hpair
          obtain ⟨⟨v', n'⟩, hmem', heq⟩ := mem_map.1 hpair
          split at heq
          · rename_i hv'
            simp only at hv'
            simp only [Prod.mk.injEq] at heq
            obtain ⟨rfl, rfl⟩ := heq
            rw [hv'] at hmem'
            obtain ⟨hnew, l', hl', hvault, hblock⟩ := hsound' _ n' hmem'
            refine ⟨hnew, ?_⟩
            obtain hmin | hmin := min_choice n' l.place.blockNumber
            · exact ⟨l', hl', hvault, by rw [hmin, hblock]⟩
            · exact ⟨l, by simp, hevent, hmin.symm⟩
          cases heq
          exact hsound' v n hmem'
        · intro v hv hnew
          have hpair : ∃ n, (v, n) ∈ s.2 := by
            apply hcomplete v _ hnew
            obtain hv | rfl := (hmore v).1 hv
            · exact hv
            · exact hold.resolve_left hnew
          obtain ⟨n, hn⟩ := hpair
          by_cases hv' : v = vault
          · exact ⟨min n l.place.blockNumber, mem_map.2 ⟨(v, n), hn, by simp [hv']⟩⟩
          · exact ⟨n, mem_map.2 ⟨(v, n), hn, by simp [hv']⟩⟩
      simp only [hmem, ↓reduceIte]
      refine ⟨?_, ?_, ?_⟩
      · intro v
        rw [mem_append, mem_singleton, hknown, hmore, or_assoc, eq_comm]
      · intro v n hpair
        rw [mem_append, mem_singleton] at hpair
        obtain hpair | hpair := hpair
        · exact hsound' v n hpair
        cases hpair
        exact ⟨fun hold => hmem ((hknown vault).2 (.inl hold)), l, by simp, hevent, rfl⟩
      · intro v hv hnew
        obtain hv | rfl := (hmore v).1 hv
        · obtain ⟨n, hn⟩ := hcomplete v hv hnew
          exact ⟨n, mem_append_left _ hn⟩
        · exact ⟨l.place.blockNumber, by simp⟩

/-- What a tick starts from: a range on a lawful chain, and answers that are right up to it. -/
structure Deployment.RangeOk (d : Deployment H) (db : Db H) (c : Chain) (lo hi : Nat) : Prop where
  lawful : d.Lawful c
  watches : d.cfg.WatchesRegistry
  floor : d.deployFloor ≤ lo
  nonempty : lo < hi
  vaults : d.VaultsOk c lo hi db.log.vaults
  ledgers : d.LedgersOk c lo hi db.ledgers db.log.vaults

theorem Deployment.discovered_spec (d : Deployment H) (db : Db H) (c : Chain) (lo hi : Nat) :
    Discovered (db.log.vaults.map VaultRow.vaultAddress)
      ((c.logs lo hi).filter fun l => decide (d.cfg.registry = some l.address)) (d.discovered db c lo hi) := by
  have hfold := discovered_foldl ((db.log.vaults.map VaultRow.vaultAddress).insertionSort (· ≤ ·))
    ((c.logs lo hi).filter fun l => decide (d.cfg.registry = some l.address))
  obtain ⟨hknown, hsound, hcomplete⟩ := hfold
  simp only [mem_insertionSort] at hknown hsound hcomplete
  exact ⟨hknown, hsound, hcomplete⟩

theorem exists_registered {p : LogEntry → Prop} :
    (∃ l ∈ (c.logs lo hi).filter (fun l => decide (d.cfg.registry = some l.address)),
      l.event.registeredVault = some v ∧ p l) ↔ ∃ l ∈ c.logs lo hi, d.Registers l v ∧ p l := by
  simp only [mem_filter, decide_eq_true_eq, Deployment.Registers, and_assoc]

namespace Deployment.RangeOk

open List

variable {db : Db H} (h : d.RangeOk db c lo hi)

include h

private theorem mem_discovered : v ∈ (d.discovered db c lo hi).1 ↔ v ∈ d.registered c hi := by
  have hregistered := @exists_registered _ d c lo hi v fun _ => True
  simp only [and_true] at hregistered
  rw [(d.discovered_spec db c lo hi).known, hregistered, mem_registered, mem_map,
    logs_append h.floor (le_of_lt h.nonempty)]
  constructor
  · rintro (⟨x, hx, rfl⟩ | ⟨l, hl, hv⟩)
    · obtain ⟨l, hl, hv, -⟩ := h.vaults.sound x hx
      rw [logs_append h.floor (le_of_lt h.nonempty)] at hl
      exact ⟨l, hl, hv⟩
    · exact ⟨l, mem_append_right _ hl, hv⟩
  · rintro ⟨l, hl, hv⟩
    rw [mem_append] at hl
    obtain hl | hl := hl
    · obtain ⟨x, hx, rfl⟩ := h.vaults.complete v (mem_registered.2 ⟨l, hl, hv⟩)
      exact .inl ⟨x, hx, rfl⟩
    · exact .inr ⟨l, hl, hv⟩

private theorem mem_ledgerVaults : v ∈ d.ledgerVaults db c lo hi ↔ v = d.cfg.vault ∨ v ∈ d.registered c hi := by
  rw [ledgerVaults, mem_cons, h.mem_discovered]

variable {read : Address × Nat}

theorem firstRead_cases (hread : read ∈ d.firstReads db c lo hi) : (read.1 = d.cfg.vault ∨ read.1 ∈ d.registered c hi) ∧
    ((∃ l ∈ c.logs lo hi, d.Registers l read.1 ∧ l.place.blockNumber = read.2) ∨
      read.2 = lo ∧ (read.1 = d.cfg.vault ∨ ∃ x ∈ db.log.vaults, x.vaultAddress = read.1)) := by
  simp only [firstReads, mem_map] at hread
  obtain ⟨v, hv, rfl⟩ := hread
  refine ⟨h.mem_ledgerVaults.1 hv, ?_⟩
  simp only
  cases hlookup : (d.discovered db c lo hi).2.lookup v with
  | some n =>
    obtain ⟨l₁, l₂, heq, -⟩ := lookup_eq_some_iff.1 hlookup
    have hmem : (v, n) ∈ (d.discovered db c lo hi).2 := by
      rw [heq]
      simp
    exact .inl (exists_registered.1 ((d.discovered_spec db c lo hi).sound v n hmem).2)
  | none =>
    refine .inr ⟨rfl, ?_⟩
    rw [ledgerVaults, mem_cons, (d.discovered_spec db c lo hi).known] at hv
    obtain hv | hv | hv := hv
    · exact .inl hv
    · exact .inr (mem_map.1 hv)
    by_cases hold : v ∈ db.log.vaults.map VaultRow.vaultAddress
    · exact .inr (mem_map.1 hold)
    obtain ⟨n, hn⟩ := (d.discovered_spec db c lo hi).complete v hv hold
    rw [lookup_eq_none_iff] at hlookup
    simpa using hlookup (v, n) hn

/-- What the first read of a vault without an answer says. -/
theorem firstRead_spec (hread : read ∈ d.firstReads db c lo hi) (hanswer : hasAnswer db.ledgers read.1 = false) :
    d.deployFloor ≤ read.2 ∧ read.2 < hi ∧
      (∀ ledger, c.ledgerAt read.1 read.2 = .ledger ledger → d.Names c read.1 ledger read.2) ∧
      ∀ ledger, d.StartLedger c hi read.1 ledger → c.ledgerAt read.1 read.2 = .ledger ledger := by
  obtain ⟨v, n⟩ := read
  obtain ⟨-, hcase⟩ := h.firstRead_cases hread
  have hunnamed : ∀ ledger, hasNamed db.ledgers v ledger ≠ true := by
    intro ledger hnamed
    obtain ⟨r, hr, hv, -⟩ := hasNamed_iff.1 hnamed
    simp only [hasAnswer_iff.2 ⟨r, hr, hv⟩, reduceCtorEq] at hanswer
  have hfloor := h.floor
  have hnonempty := h.nonempty
  simp only at hcase ⊢
  obtain ⟨l, hl, hregisters, rfl⟩ | ⟨rfl, hcase⟩ := hcase
  · have hlogged := logged_of_mem h.floor hl
    rw [mem_logs] at hl
    have hregistered : v ∈ d.registered c (l.place.blockNumber + 1) :=
      mem_registered.2 ⟨l, mem_logs_iff.2 ⟨hlogged, Nat.lt_succ_self _⟩, hregisters⟩
    refine ⟨by omega, hl.2.1, fun ledger hledger => ⟨by omega, .inr hregistered, hledger⟩, ?_⟩
    rintro ledger ⟨m, -, hstart, hledger⟩
    obtain ⟨-, rfl⟩ | ⟨-, l', hlogged', hregisters', rfl⟩ := hstart
    · exact h.lawful.unmoved l v _ ledger hlogged hregisters (le_refl _) (by omega) hledger
    · rwa [h.lawful.registeredOnce l l' v hlogged hlogged' hregisters hregisters']
  refine ⟨by omega, by omega, ?_, ?_⟩
  · intro ledger hledger
    by_cases hcfg : v = d.cfg.vault
    · exact ⟨by omega, .inl hcfg, hledger⟩
    -- a vault of the table, registered in the range, would have been asked at its registration
    obtain ⟨x, hx, rfl⟩ := hcase.resolve_left hcfg
    obtain ⟨l, hl, hregisters, -⟩ := h.vaults.sound x hx
    rw [mem_logs_iff] at hl
    refine ⟨by omega, .inr (mem_registered.2 ⟨l, mem_logs_iff.2 ⟨hl.1, ?_⟩, hregisters⟩), hledger⟩
    by_contra hlate
    have hledger' := h.lawful.unmoved l _ _ ledger hl.1 hregisters hfloor (by omega) hledger
    exact hunnamed ledger (h.ledgers.started _ (.inr ⟨x, hx, rfl⟩) ledger
      ⟨l.place.blockNumber, hl.2, .inr ⟨hcfg, l, hl.1, hregisters, rfl⟩, hledger'⟩)
  · intro ledger hstart
    by_cases hcfg : v = d.cfg.vault
    · obtain ⟨m, -, ⟨-, rfl⟩ | ⟨hne, -⟩, hledger⟩ := hstart
      · obtain hlt | heq := Nat.lt_or_eq_of_le hfloor
        · exact (hunnamed ledger (h.ledgers.complete _ v ledger hlt ⟨le_refl _, .inl hcfg, hledger⟩)).elim
        · rwa [← heq]
      · exact (hne hcfg).elim
    · exact (hunnamed ledger (h.ledgers.started v (.inr (hcase.resolve_left hcfg)) ledger hstart)).elim

private theorem rowOk_of_firstRows {r : LedgerRow} (hr : r ∈ d.firstRows db c lo hi) :
    d.RowOk c hi r ∧ ∀ ledger, d.StartLedger c hi r.vault ledger → r.ledger = some ledger := by
  obtain ⟨read, hread, hrow⟩ := mem_filterMap.1 hr
  unfold firstRow at hrow
  split at hrow
  · cases hrow
  rename_i hanswer
  obtain ⟨hfloor, hhi, hnames, hstart⟩ := h.firstRead_spec hread (by simpa using hanswer)
  have hvault := (h.firstRead_cases hread).1
  split at hrow
  · rename_i ledger hledger
    cases hrow
    refine ⟨⟨hfloor, hhi, hvault, ?_, by simp⟩, ?_⟩
    · rintro ledger' ⟨⟩
      exact hnames ledger hledger
    · intro ledger' hledger'
      have hsame := (hstart ledger' hledger').symm.trans hledger
      cases hsame
      rfl
  · rename_i hledger
    cases hrow
    refine ⟨⟨hfloor, hhi, hvault, by simp, fun _ => hledger⟩, ?_⟩
    intro ledger' hledger'
    have hsame := (hstart ledger' hledger').symm.trans hledger
    cases hsame
  · cases hrow

omit h in
private theorem insertLedgers_append (rows new : List LedgerRow) (r : LedgerRow) :
    insertLedgers rows (new ++ [r]) = insertNew LedgerRow.key r (insertLedgers rows new) := by
  simp [insertLedgers]

omit h in
theorem subset_insertLedgers (rows new : List LedgerRow) : rows ⊆ insertLedgers rows new :=
  fun _ hx => mem_foldl_insertNew_of_mem hx new

omit h in
theorem mem_of_mem_insertLedgers {rows new : List LedgerRow} {x : LedgerRow} (hx : x ∈ insertLedgers rows new) :
    x ∈ rows ∨ x ∈ new :=
  mem_of_mem_foldl_insertNew hx

omit h in
theorem exists_mem_insertLedgers {rows new : List LedgerRow} {r : LedgerRow} (hr : r ∈ new) :
    ∃ x ∈ insertLedgers rows new, x.key = r.key :=
  exists_mem_foldl_insertNew hr

private theorem ledgersOk_firstRows {new : List LedgerRow} (hnew : new ⊆ d.firstRows db c lo hi) :
    d.LedgersOk c lo hi (insertLedgers db.ledgers new) db.log.vaults := by
  induction new using reverseRecOn with
  | nil => exact h.ledgers
  | append_singleton new r ih =>
    rw [insertLedgers_append]
    obtain ⟨hrow, hstart⟩ := h.rowOk_of_firstRows (hnew (by simp : r ∈ new ++ [r]))
    apply (ih fun x hx => hnew (mem_append_left _ hx)).insert hrow
    exact fun ledger hledger => .inr (hstart ledger hledger)

private theorem hasNamed_start (hv : v = d.cfg.vault ∨ v ∈ d.registered c hi) (hstart : d.StartLedger c hi v ledger) :
    hasNamed (insertLedgers db.ledgers (d.firstRows db c lo hi)) v ledger = true := by
  by_cases hanswer : hasAnswer db.ledgers v = true
  · exact hasNamed_mono (subset_insertLedgers ..) (h.ledgers.started v (.inl hanswer) ledger hstart)
  rw [Bool.not_eq_true] at hanswer
  obtain ⟨n, hread⟩ : ∃ n, (v, n) ∈ d.firstReads db c lo hi :=
    ⟨_, mem_map.2 ⟨v, h.mem_ledgerVaults.2 hv, rfl⟩⟩
  have hledger := (h.firstRead_spec hread hanswer).2.2.2 ledger hstart
  have hrow : (⟨v, some ledger, n⟩ : LedgerRow) ∈ d.firstRows db c lo hi :=
    mem_filterMap.2 ⟨(v, n), hread, by simp [firstRow, hanswer, hledger]⟩
  obtain ⟨x, hx, hkey⟩ := exists_mem_insertLedgers hrow
  exact (h.ledgersOk_firstRows (.refl _)).hasNamed_of_key hx hkey hledger

private theorem mem_watchedNow {a : Address} : a ∈ d.watchedNow db c lo hi ↔
    a ∈ d.cfg.watchedAddresses ∨ a ∈ d.registered c hi ∨
      ∃ v, hasNamed (insertLedgers db.ledgers (d.firstRows db c lo hi)) v a = true := by
  simp only [watchedNow, mem_foldl_pushNew, h.watches.proxyOnlyAddresses, not_mem_nil, or_false,
    h.mem_discovered, or_assoc, mem_flatMap]
  refine or_congr_right (or_congr_right ?_)
  constructor
  · rintro ⟨⟨v, n⟩, hread, ha⟩
    refine ⟨v, ?_⟩
    unfold exclusionLedgersOf at ha
    split at ha
    · simp only [mem_filterMap, mem_filter, decide_eq_true_eq] at ha
      obtain ⟨r, ⟨hr, hv⟩, hledger⟩ := ha
      exact hasNamed_mono (subset_insertLedgers ..) (hasNamed_iff.2 ⟨r, hr, hv, hledger⟩)
    simp only [mem_filterMap, Option.mem_toList] at ha
    obtain ⟨r, hr, hledger⟩ := ha
    obtain ⟨x, hx, hkey⟩ := @exists_mem_insertLedgers db.ledgers (d.firstRows db c lo hi) r
      (mem_filterMap.2 ⟨_, hread, hr⟩)
    have hrow := (h.rowOk_of_firstRows (mem_filterMap.2 ⟨_, hread, hr⟩)).1.named a hledger
    have hvault : r.vault = v := by
      unfold firstRow at hr
      split at hr
      · cases hr
      · split at hr <;> cases hr <;> rfl
    rw [← hvault]
    exact (h.ledgersOk_firstRows (.refl _)).hasNamed_of_key hx hkey hrow.2.2
  · rintro ⟨v, hnamed⟩
    obtain ⟨r, hr, rfl, hledger⟩ := hasNamed_iff.1 hnamed
    obtain hr | hr := mem_of_mem_insertLedgers hr
    · refine ⟨_, mem_map.2 ⟨r.vault, h.mem_ledgerVaults.2 (h.ledgers.sound r hr).vault, rfl⟩, ?_⟩
      have hanswer := hasAnswer_iff.2 ⟨r, hr, rfl⟩
      simp only [exclusionLedgersOf, hanswer, ↓reduceIte, mem_filterMap, mem_filter, decide_eq_true_eq]
      exact ⟨r, ⟨hr, rfl⟩, hledger⟩
    obtain ⟨read, hread, hrow⟩ := mem_filterMap.1 hr
    refine ⟨read, hread, ?_⟩
    have hanswer : hasAnswer db.ledgers read.1 ≠ true := by
      intro hanswer
      simp [firstRow, hanswer] at hrow
    simp only [exclusionLedgersOf, hanswer, Bool.false_eq_true, ↓reduceIte, mem_filterMap, Option.mem_toList]
    exact ⟨r, hrow, hledger⟩

private theorem mainLogs_eq :
    d.mainLogs db c lo hi = (c.logs lo hi).filter fun l => decide (l.address ∈ d.watchedNow db c lo hi) := by
  simp [mainLogs, h.watches.proxyOnlyAddresses]

theorem mem_triggers : (v, n) ∈ d.triggers db c lo hi ↔ (v = d.cfg.vault ∨ v ∈ d.registered c hi) ∧ lo ≤ n ∧ n < hi ∧
    ∃ l ∈ c.entriesAt n, l.address = v ∧ l.event.isLedgerTrigger = true := by
  simp only [triggers, mem_map, mem_insertionSort, mem_dedup, mem_filter,
    Bool.and_eq_true, decide_eq_true_eq, h.mem_ledgerVaults, h.mainLogs_eq, mem_logs]
  constructor
  · rintro ⟨_, ⟨l, ⟨⟨⟨hlo, hhi, hl⟩, -⟩, htrigger, hv⟩, rfl⟩, heq⟩
    cases heq
    exact ⟨hv, hlo, hhi, l, hl, rfl, htrigger⟩
  · rintro ⟨hv, hlo, hhi, l, hl, rfl, htrigger⟩
    have hblock := block_of_mem_entriesAt hl
    subst hblock
    refine ⟨toLex (l.address, l.place.blockNumber), ⟨l, ⟨⟨⟨hlo, hhi, hl⟩, ?_⟩, htrigger, hv⟩, rfl⟩, rfl⟩
    rw [h.mem_watchedNow]
    obtain hv | hv := hv
    · rw [hv]
      exact .inl (vault_mem_watchedAddresses d.cfg)
    · exact .inr (.inl hv)

omit h in
theorem pairwise_triggers : (d.triggers db c lo hi).Pairwise fun a b => a.1 = b.1 → a.2 ≤ b.2 := by
  rw [triggers, pairwise_map]
  refine (pairwise_insertionSort (· ≤ ·) _).imp ?_
  intro a b hab hv
  rw [Prod.Lex.le_iff] at hab
  obtain hlt | ⟨-, hle⟩ := hab
  · rw [hv] at hlt
    exact (lt_irrefl _ hlt).elim
  · exact hle

end Deployment.RangeOk

variable {known : List LedgerRow} {triggers : List (Address × Nat)}

theorem mem_movedRows (hr : r ∈ movedRows c known triggers) :
    ∃ ledger, r.ledger = some ledger ∧ (r.vault, r.blockNumber) ∈ triggers ∧
      c.ledgerAt r.vault r.blockNumber = .ledger ledger ∧ hasNamed known r.vault ledger = false := by
  induction triggers generalizing known with
  | nil => cases hr
  | cons trigger triggers ih =>
    obtain ⟨v, n⟩ := trigger
    have htail : ∀ known', known ⊆ known' → r ∈ movedRows c known' triggers →
        ∃ ledger, r.ledger = some ledger ∧ (r.vault, r.blockNumber) ∈ (v, n) :: triggers ∧
          c.ledgerAt r.vault r.blockNumber = .ledger ledger ∧ hasNamed known r.vault ledger = false := by
      intro known' hsub hr
      obtain ⟨ledger, hledger, hmem, hread, hnew⟩ := ih hr
      refine ⟨ledger, hledger, mem_cons_of_mem _ hmem, hread, ?_⟩
      cases hnamed : hasNamed known r.vault ledger with
      | false => rfl
      | true =>
        rw [hasNamed_mono hsub hnamed] at hnew
        cases hnew
    unfold movedRows at hr
    split at hr
    · rename_i ledger hread
      split at hr
      · exact htail known (.refl _) hr
      rename_i hnew
      obtain rfl | hr := mem_cons.1 hr
      · exact ⟨ledger, rfl, mem_cons_self, hread, by simpa using hnew⟩
      · exact htail _ (subset_append_left _ _) hr
    · exact htail known (.refl _) hr

theorem exists_movedRows (hsorted : triggers.Pairwise fun a b => a.1 = b.1 → a.2 ≤ b.2) (hmem : (v, n) ∈ triggers)
    (hread : c.ledgerAt v n = .ledger ledger) : hasNamed known v ledger = true ∨
      ∃ r ∈ movedRows c known triggers, r.vault = v ∧ r.ledger = some ledger ∧ r.blockNumber ≤ n := by
  induction triggers generalizing known with
  | nil => cases hmem
  | cons trigger triggers ih =>
    obtain ⟨v', n'⟩ := trigger
    rw [pairwise_cons] at hsorted
    unfold movedRows
    obtain heq | hmem := mem_cons.1 hmem
    · cases heq
      simp only [hread]
      split
      · rename_i hnamed
        exact .inl hnamed
      · exact .inr ⟨_, mem_cons_self, rfl, rfl, le_refl _⟩
    split
    · rename_i ledger' hread'
      split
      · exact ih hsorted.2 hmem
      obtain hnamed | ⟨r, hr, hr'⟩ := @ih (known ++ [⟨v', some ledger', n'⟩]) hsorted.2 hmem
      · obtain ⟨x, hx, hv, hledger⟩ := hasNamed_iff.1 hnamed
        rw [mem_append, mem_singleton] at hx
        obtain hx | rfl := hx
        · exact .inl (hasNamed_iff.2 ⟨x, hx, hv, hledger⟩)
        · exact .inr ⟨_, mem_cons_self, hv, hledger, hsorted.1 (v, n) hmem hv⟩
      · exact .inr ⟨r, mem_cons_of_mem _ hr, hr'⟩
    · exact ih hsorted.2 hmem

namespace Deployment.RangeOk

variable {db : Db H} (h : d.RangeOk db c lo hi)

include h

private theorem rowOk_of_moved {r : LedgerRow} (hr : r ∈ d.moved db c lo hi) :
    d.RowOk c hi r ∧ ∀ ledger, d.StartLedger c hi r.vault ledger →
      hasNamed (insertLedgers db.ledgers (d.firstRows db c lo hi)) r.vault ledger = true := by
  obtain ⟨ledger, hledger, htrigger, hread, hnew⟩ := mem_movedRows hr
  obtain ⟨hvault, hlo, hhi, -⟩ := h.mem_triggers.1 htrigger
  have hfloor := h.floor
  refine ⟨⟨by omega, hhi, hvault, ?_, by simp [hledger]⟩, fun ledger' hstart => h.hasNamed_start hvault hstart⟩
  intro ledger' hledger'
  rw [hledger, Option.some.injEq] at hledger'
  subst hledger'
  refine ⟨by omega, ?_, hread⟩
  by_cases hcfg : r.vault = d.cfg.vault
  · exact .inl hcfg
  -- before its registration a vault names no other ledger than at it
  obtain ⟨l, hl, hregisters⟩ := mem_registered.1 (hvault.resolve_left hcfg)
  rw [mem_logs_iff] at hl
  refine .inr (mem_registered.2 ⟨l, mem_logs_iff.2 ⟨hl.1, ?_⟩, hregisters⟩)
  by_contra hlate
  have hread' := h.lawful.unmoved l _ _ ledger hl.1 hregisters (by omega) (by omega) hread
  rw [h.hasNamed_start hvault ⟨_, hl.2, .inr ⟨hcfg, l, hl.1, hregisters, rfl⟩, hread'⟩] at hnew
  cases hnew

private theorem ledgersOk_moved {new : List LedgerRow} (hnew : new ⊆ d.moved db c lo hi) :
    d.LedgersOk c lo hi (insertLedgers (insertLedgers db.ledgers (d.firstRows db c lo hi)) new) db.log.vaults := by
  induction new using reverseRecOn with
  | nil => exact h.ledgersOk_firstRows (.refl _)
  | append_singleton new r ih =>
    rw [insertLedgers_append]
    obtain ⟨hrow, hstart⟩ := h.rowOk_of_moved (hnew (by simp : r ∈ new ++ [r]))
    apply (ih fun x hx => hnew (mem_append_left _ hx)).insert hrow
    exact fun ledger hledger => .inl (hasNamed_mono (subset_insertLedgers ..) (hstart ledger hledger))

theorem ledgersOk_take (k : Nat) :
    d.LedgersOk c lo hi (insertLedgers db.ledgers ((d.ledgerRows db c lo hi).take k)) db.log.vaults := by
  obtain hle | hle := le_total k (d.firstRows db c lo hi).length
  · rw [ledgerRows, take_append_of_le_length hle]
    exact h.ledgersOk_firstRows (take_subset _ _)
  rw [ledgerRows, take_append, take_of_length_le hle, insertLedgers, foldl_append]
  exact h.ledgersOk_moved (take_subset _ _)

omit h in
theorem insertLedgers_ledgerRows : insertLedgers db.ledgers (d.ledgerRows db c lo hi) =
    insertLedgers (insertLedgers db.ledgers (d.firstRows db c lo hi)) (d.moved db c lo hi) := by
  rw [ledgerRows, insertLedgers, foldl_append]
  rfl

private theorem hasNamed_or_moved (hn : n < hi) (hnames : d.Names c v ledger n) :
    hasNamed (insertLedgers db.ledgers (d.firstRows db c lo hi)) v ledger = true ∨
      ∃ r ∈ d.moved db c lo hi, r.vault = v ∧ r.ledger = some ledger ∧ r.blockNumber ≤ n := by
  obtain ⟨m, hm, hnames', horigin⟩ := h.lawful.origin hnames
  have hvault : v = d.cfg.vault ∨ v ∈ d.registered c hi := hnames'.2.1.imp_right (registered_mono (by omega))
  obtain hlt | hle := lt_or_ge m lo
  · exact .inl (hasNamed_mono (subset_insertLedgers ..) (h.ledgers.complete m v ledger hlt hnames'))
  obtain hstart | htrigger := horigin
  · exact .inl (h.hasNamed_start hvault ⟨m, by omega, hstart, hnames'.2.2⟩)
  obtain hnamed | ⟨r, hr, hv, hledger, hblock⟩ := exists_movedRows pairwise_triggers
    (h.mem_triggers.2 ⟨hvault, hle, by omega, htrigger⟩) hnames'.2.2
  · exact .inl hnamed
  · exact .inr ⟨r, hr, hv, hledger, by omega⟩

theorem ledgersOk_ledgerRows {vaults : List VaultRow} (hvaults : ∀ x ∈ vaults, x.vaultAddress ∈ d.registered c hi) :
    d.LedgersOk c hi hi (insertLedgers db.ledgers (d.ledgerRows db c lo hi)) vaults := by
  rw [insertLedgers_ledgerRows]
  have hok := h.ledgersOk_moved (List.Subset.refl _)
  refine ⟨hok.sound, ?_, ?_⟩
  · intro n v ledger hn hnames
    obtain hnamed | ⟨r, hr, hv, hledger, -⟩ := h.hasNamed_or_moved hn hnames
    · exact hasNamed_mono (subset_insertLedgers ..) hnamed
    obtain ⟨x, hx, hkey⟩ := exists_mem_insertLedgers hr
    rw [← hv]
    exact hok.hasNamed_of_key hx hkey ((h.rowOk_of_moved hr).1.named ledger hledger).2.2
  · intro v hv ledger hstart
    apply hasNamed_mono (subset_insertLedgers ..)
    refine h.hasNamed_start ?_ hstart
    obtain hv | ⟨x, hx, rfl⟩ := hv
    · obtain ⟨r, hr, rfl⟩ := hasAnswer_iff.1 hv
      exact (hok.sound r hr).vault
    · exact .inr (hvaults x hx)

private theorem watched_of_watchedNow {a : Address} (ha : a ∈ d.watchedNow db c lo hi) : a ∈ d.watched c hi := by
  rw [h.mem_watchedNow] at ha
  obtain ha | ha | ⟨v, hnamed⟩ := ha
  · exact mem_watched.2 (.inl ha)
  · exact mem_watched.2 (.inr (.inl ha))
  · exact mem_watched.2 (.inr (.inr ⟨v, (h.ledgersOk_firstRows (.refl _)).mem_named hnamed⟩))

variable {l : LogEntry}

private theorem isExclusion_of_lateLogs (hl : l ∈ d.lateLogs db c lo hi) : l.event.isExclusion = true := by
  simp only [lateLogs, mem_filter, Bool.and_eq_true] at hl
  obtain ⟨hlog, -, hmoved⟩ := hl
  split at hmoved
  · rename_i n hn
    have hmem := min?_mem hn
    simp only [mem_map, mem_filter, decide_eq_true_eq] at hmem
    obtain ⟨r, ⟨hr, hledger⟩, -⟩ := hmem
    have hrow := (h.rowOk_of_moved hr).1
    exact h.lawful.ledgerEvents l hi r.vault (logged_of_mem h.floor hlog)
      (mem_named.2 ⟨_, hrow.below, hrow.named l.address hledger⟩)
  · cases hmoved

omit h in
theorem mem_logs_of_tickLogs (hl : l ∈ d.tickLogs db c lo hi) : l ∈ c.logs lo hi := by
  rw [tickLogs, mem_append] at hl
  obtain hl | hl := hl
  · exact mem_of_mem_filter (mem_of_mem_filter hl)
  · exact mem_of_mem_filter hl

theorem filter_statements : (d.statements db c lo hi).filter Statement.isTable = d.rows c lo hi hi := by
  have hlate : (d.lateLogs db c lo hi).flatMap d.rowsOf = [] := by
    rw [flatMap_eq_nil_iff]
    exact fun l hl => rowsOf_of_isExclusion (h.isExclusion_of_lateLogs hl)
  have hrows : (d.statements db c lo hi).filter Statement.isTable = (d.tickLogs db c lo hi).flatMap d.rowsOf := by
    rw [statements, filter_flatMap]
    exact flatMap_congr fun l hl => filter_handleLog _ hl
  rw [hrows, tickLogs, flatMap_append, hlate, append_nil, h.mainLogs_eq, Deployment.rows]
  -- the two filters differ only in logs of ledgers
  have hsame : ∀ logs : List LogEntry, (∀ l ∈ logs, l ∈ c.logs lo hi) →
      (logs.filter fun l => decide (l.address ∈ d.watchedNow db c lo hi)).flatMap d.rowsOf =
        (logs.filter fun l => decide (l.address ∈ d.watched c hi)).flatMap d.rowsOf := by
    intro logs hlogs
    induction logs with
    | nil => rfl
    | cons l logs ih =>
      have ih := ih fun l' hl' => hlogs l' (mem_cons_of_mem _ hl')
      by_cases hnow : l.address ∈ d.watchedNow db c lo hi
      · have hwatched := h.watched_of_watchedNow hnow
        simp only [filter_cons, hnow, hwatched, decide_true, ↓reduceIte, flatMap_cons, ih]
      by_cases hwatched : l.address ∈ d.watched c hi
      · have hempty : d.rowsOf l = [] := by
          apply rowsOf_of_isExclusion
          obtain hcfg | hregistered | ⟨v, hnamed⟩ := mem_watched.1 hwatched
          · exact (hnow (h.mem_watchedNow.2 (.inl hcfg))).elim
          · exact (hnow (h.mem_watchedNow.2 (.inr (.inl hregistered)))).elim
          · exact h.lawful.ledgerEvents l hi v (logged_of_mem h.floor (hlogs l mem_cons_self)) hnamed
        simp only [filter_cons, hnow, hwatched, decide_true, decide_false, Bool.false_eq_true, ↓reduceIte,
          flatMap_cons, hempty, nil_append, ih]
      · simp only [filter_cons, hnow, hwatched, decide_false, Bool.false_eq_true, ↓reduceIte, ih]
  exact hsame _ fun l hl => hl

private theorem vaultOfExclusionLedger_iff :
    vaultOfExclusionLedger (insertLedgers db.ledgers (d.ledgerRows db c lo hi)) ledger = some v ↔
      (ledger, v) ∈ d.named c hi := by
  have hok : d.LedgersOk c hi hi (insertLedgers db.ledgers (d.ledgerRows db c lo hi)) [] :=
    h.ledgersOk_ledgerRows (by simp)
  generalize insertLedgers db.ledgers (d.ledgerRows db c lo hi) = rows at hok
  have hsound : ∀ v, vaultOfExclusionLedger rows ledger = some v → (ledger, v) ∈ d.named c hi := by
    intro v hv
    have hmem := min?_mem hv
    simp only [mem_map, mem_filter, decide_eq_true_eq] at hmem
    obtain ⟨r, ⟨hr, hledger⟩, rfl⟩ := hmem
    exact hok.mem_named (hasNamed_iff.2 ⟨r, hr, rfl, hledger⟩)
  constructor
  · exact hsound v
  · intro hnamed
    obtain ⟨n, hn, hnames⟩ := mem_named.1 hnamed
    obtain ⟨r, hr, rfl, hledger⟩ := hasNamed_iff.1 (hok.complete n v ledger hn hnames)
    cases hlookup : vaultOfExclusionLedger rows ledger with
    | none =>
      rw [vaultOfExclusionLedger, min?_eq_none_iff, map_eq_nil_iff, filter_eq_nil_iff] at hlookup
      simpa [hledger] using hlookup r hr
    | some v' => rw [h.lawful.owner hi ledger _ v' hnamed (hsound v' hlookup)]

theorem isExclusion_of_statements {r : ExclusionRow} (hr : .exclusion r ∈ d.statements db c lo hi) :
    d.IsExclusion c hi r := by
  obtain ⟨l, hl, hst⟩ := mem_flatMap.1 hr
  obtain ⟨v, hv, hrow⟩ := mem_handleLog_exclusion.1 hst
  have hlog := mem_logs_of_tickLogs hl
  rw [h.vaultOfExclusionLedger_iff] at hv
  refine ⟨l, mem_logs_iff.2 ⟨logged_of_mem h.floor hlog, (mem_logs.1 hlog).2.1⟩, v, hv, hrow⟩

theorem statements_of_isExclusion {r : ExclusionRow} (hl : l ∈ c.logs lo hi)
    (hnamed : (l.address, v) ∈ d.named c hi) (hrow : exclusionRow v l = some r) :
    .exclusion r ∈ d.statements db c lo hi := by
  refine mem_flatMap.2 ⟨l, ?_, mem_handleLog_exclusion.2 ⟨v, h.vaultOfExclusionLedger_iff.2 hnamed, hrow⟩⟩
  rw [tickLogs, mem_append]
  by_cases hnow : l.address ∈ d.watchedNow db c lo hi
  · rw [h.mainLogs_eq]
    exact .inl (mem_filter.2 ⟨hl, by simpa using hnow⟩)
  -- the ledger was named by an upgrade in the range, and the log came after it
  refine .inr (mem_filter.2 ⟨hl, ?_⟩)
  have hlogged := logged_of_mem h.floor hl
  obtain ⟨n, hn, hnames⟩ := mem_named.1 (h.lawful.ledgerSilent l hi v hlogged hnamed)
  have hhi := (mem_logs.1 hl).2.1
  obtain hfirst | ⟨x, hx, -, hledger, hblock⟩ := h.hasNamed_or_moved (by omega) hnames
  · exact (hnow (h.mem_watchedNow.2 (.inr (.inr ⟨v, hfirst⟩)))).elim
  have hmem : x.blockNumber ∈ ((d.moved db c lo hi).filter fun r => decide (r.ledger = some l.address)).map
      LedgerRow.blockNumber := mem_map.2 ⟨x, mem_filter.2 ⟨hx, by simpa using hledger⟩, rfl⟩
  cases hfrom : movedFrom (d.moved db c lo hi) l.address with
  | none =>
    rw [movedFrom, min?_eq_none_iff] at hfrom
    rw [hfrom] at hmem
    cases hmem
  | some m =>
    have hle : m ≤ x.blockNumber := (min?_eq_some_iff.1 hfrom).2 _ hmem
    simp only [Bool.and_eq_true, decide_eq_true_eq]
    exact ⟨hnow, by omega⟩

theorem registers_of_statements {x : VaultRow} (hx : .vault x ∈ d.statements db c lo hi) :
    ∃ l ∈ c.logs lo hi, d.Registers l x.vaultAddress ∧ l.place.blockNumber = x.registeredBlock := by
  obtain ⟨l, hl, hst⟩ := mem_flatMap.1 hx
  have hof := statement_of_handleLog hst
  obtain ⟨name, hevent⟩ := hof.vault x rfl
  have hlog := mem_logs_of_tickLogs hl
  have hvault : l.event.registeredVault = some x.vaultAddress := by rw [hevent]; rfl
  refine ⟨l, hlog, ⟨?_, hvault⟩, hof.block.symm⟩
  rw [tickLogs, mem_append, h.mainLogs_eq] at hl
  obtain hl | hl := hl
  · have hnow : l.address ∈ d.watchedNow db c lo hi := by simpa using (mem_filter.1 hl).2
    exact h.lawful.registrar l hi _ (logged_of_mem h.floor hlog) (h.watched_of_watchedNow hnow) hvault
  have hexclusion := h.isExclusion_of_lateLogs hl
  rw [hevent] at hexclusion
  cases hexclusion

theorem statements_of_registers {l : LogEntry} (hl : l ∈ c.logs lo hi) (hregisters : d.Registers l v) :
    ∃ x, .vault x ∈ d.statements db c lo hi ∧ x.vaultAddress = v := by
  obtain ⟨hregistry, hvault⟩ := hregisters
  have hmem : l ∈ d.tickLogs db c lo hi := by
    rw [tickLogs, mem_append, h.mainLogs_eq]
    refine .inl (mem_filter.2 ⟨hl, ?_⟩)
    simpa using h.mem_watchedNow.2 (.inl (h.watches.mem hregistry))
  cases hevent : l.event with
  | vaultRegistered vault name =>
    rw [hevent, Event.registeredVault, Option.some.injEq] at hvault
    subst hvault
    refine ⟨⟨vault, name, riskLabelFromVaultName name, 0, l.place.blockNumber, l.place.txHash, none⟩, ?_, rfl⟩
    exact mem_flatMap.2 ⟨l, hmem, by simp [handleLog, hevent]⟩
  | _ =>
    rw [hevent] at hvault
    cases hvault

end Deployment.RangeOk

end RobotMoney.Indexer
