import RobotMoney.Indexer.Rollback

/-!
# The chain that the indexer follows

A chain is the list of its blocks, and the hash of a block stands for the chain up to it.  Which contracts the indexer
watches is itself read off the chain: the registry names vaults, and each vault its exclusion ledger.  Bounds on blocks
are exclusive here: `b` stands for the blocks below `b`.

`decoded` says what the tables should hold: what handling the logs of all watched contracts leaves.  `Lawful` collects
what the contracts promise about their logs.
-/

namespace RobotMoney.Indexer

open Evm List

/-- What one `exclusionLedger()` read of a vault said. -/
inductive LedgerRead where
  | ledger (address : Address)
  | noLedger
  | unknown
  deriving DecidableEq, Repr

/-- A log of a block; `event` is `none` for a topic that the indexer does not subscribe to. -/
structure ChainLog where
  address : Address
  txHash : Word
  event : Option Event
  deriving DecidableEq, Repr

/-- A block, with what `exclusionLedger()` of each vault answers after it. -/
structure ChainBlock where
  timestamp : Nat
  logs : List ChainLog
  exclusionLedgers : List (Address × LedgerRead)
  deriving DecidableEq, Repr

abbrev Chain := List ChainBlock

/-- The logs of block `n` with a subscribed topic. -/
def ChainBlock.entries (block : ChainBlock) (n : Nat) : List LogEntry :=
  block.logs.zipIdx.filterMap fun (log, i) => log.event.map fun event => ⟨log.address, ⟨n, i, log.txHash⟩, event⟩

def Chain.entriesAt (chain : Chain) (n : Nat) : List LogEntry :=
  match chain[n]? with
  | some block => block.entries n
  | none => []

/-- The logs of the blocks from `lo` on and below `hi`. -/
def Chain.logs (c : Chain) (lo hi : Nat) : List LogEntry := (List.range' lo (hi - lo)).flatMap c.entriesAt

/-- `exclusionLedger()` of a vault at block `n`. -/
def Chain.ledgerAt (chain : Chain) (vault : Address) (n : Nat) : LedgerRead :=
  match chain[n]? with
  | some block => (block.exclusionLedgers.lookup vault).getD .unknown
  | none => .unknown

def Chain.timestampOf (chain : Chain) (n : Nat) : Option Int := (chain[n]?).map fun block => asI64 block.timestamp

/-- The chains have the same blocks below `b`. -/
def Agree (chain e : Chain) (b : Nat) : Prop := ∀ n < b, chain[n]? = e[n]?

instance (chain e : Chain) (b : Nat) : Decidable (Agree chain e b) :=
  inferInstanceAs (Decidable (∀ n < b, chain[n]? = e[n]?))

section Chains

variable {c e : Chain} {lo mid hi b n : Nat} {l : LogEntry}

theorem Agree.mono (h : Agree c e b) (hle : n ≤ b) : Agree c e n := fun m hm => h m (by omega)

theorem Agree.symm (h : Agree c e b) : Agree e c b := fun m hm => (h m hm).symm

theorem block_of_mem_entriesAt (h : l ∈ c.entriesAt n) : l.place.blockNumber = n := by
  unfold Chain.entriesAt at h
  split at h
  · simp only [ChainBlock.entries, mem_filterMap, Option.map_eq_some_iff] at h
    obtain ⟨-, -, -, -, rfl⟩ := h
    rfl
  · cases h

theorem mem_logs : l ∈ c.logs lo hi ↔
    lo ≤ l.place.blockNumber ∧ l.place.blockNumber < hi ∧ l ∈ c.entriesAt l.place.blockNumber := by
  simp only [Chain.logs, mem_flatMap, mem_range'_1]
  constructor
  · rintro ⟨n, hn, hl⟩
    rw [block_of_mem_entriesAt hl]
    exact ⟨hn.1, by omega, hl⟩
  · rintro ⟨hlo, hhi, hl⟩
    exact ⟨_, ⟨hlo, by omega⟩, hl⟩

theorem logs_append (hlo : lo ≤ mid) (hhi : mid ≤ hi) : c.logs lo hi = c.logs lo mid ++ c.logs mid hi := by
  have hsplit : range' lo (hi - lo) = range' lo (mid - lo) ++ range' mid (hi - mid) := by
    have happend := @range'_append lo (mid - lo) (hi - mid) 1
    rw [one_mul, show lo + (mid - lo) = mid by omega, show mid - lo + (hi - mid) = hi - lo by omega] at happend
    exact happend.symm
  rw [Chain.logs, hsplit, flatMap_append]
  rfl

@[simp] theorem logs_self : c.logs lo lo = [] := by simp [Chain.logs]

theorem Agree.entriesAt (h : Agree c e b) (hn : n < b) : c.entriesAt n = e.entriesAt n := by
  simp only [Chain.entriesAt, h n hn]

theorem Agree.ledgerAt (h : Agree c e b) (hn : n < b) (vault : Address) : c.ledgerAt vault n = e.ledgerAt vault n := by
  simp only [Chain.ledgerAt, h n hn]

theorem Agree.timestampOf (h : Agree c e b) (hn : n < b) : c.timestampOf n = e.timestampOf n := by
  simp only [Chain.timestampOf, h n hn]

theorem Agree.logs (h : Agree c e hi) : c.logs lo hi = e.logs lo hi := by
  simp only [Chain.logs]
  apply flatMap_congr
  intro n hn
  rw [mem_range'_1] at hn
  exact h.entriesAt (by omega)

theorem pairwise_logs (c : Chain) (lo hi : Nat) : (c.logs lo hi).Pairwise fun a b => a.place.pos < b.place.pos := by
  have hblock : ∀ n, (c.entriesAt n).Pairwise fun a b => a.place.pos < b.place.pos := by
    intro n
    unfold Chain.entriesAt
    split
    · simp only [ChainBlock.entries, pairwise_filterMap]
      rw [pairwise_iff_getElem]
      intro i j hi hj hij a ha b hb
      simp only [getElem_zipIdx, Option.map_eq_some_iff] at ha hb
      obtain ⟨_, -, rfl⟩ := ha
      obtain ⟨_, -, rfl⟩ := hb
      simp only [LogPlace.pos, Prod.Lex.toLex_lt_toLex]
      exact .inr ⟨trivial, by omega⟩
    · exact .nil
  rw [Chain.logs, pairwise_flatMap]
  refine ⟨fun n _ => hblock n, ?_⟩
  apply List.Pairwise.imp _ pairwise_lt_range'
  intro m n hmn a ha b hb
  simp only [LogPlace.pos, Prod.Lex.toLex_lt_toLex, block_of_mem_entriesAt ha, block_of_mem_entriesAt hb]
  omega

end Chains

/-- `push` of an address that is not there yet. -/
def pushNew (addrs : List Address) (a : Address) : List Address := if a ∈ addrs then addrs else addrs ++ [a]

@[simp] theorem mem_pushNew {addrs : List Address} {a x : Address} :
    x ∈ pushNew addrs a ↔ x ∈ addrs ∨ x = a := by
  unfold pushNew
  split
  · rename_i ha
    constructor
    · exact .inl
    · rintro (hx | rfl)
      · exact hx
      · exact ha
  · simp

theorem mem_foldl_pushNew {new addrs : List Address} {x : Address} :
    x ∈ new.foldl pushNew addrs ↔ x ∈ addrs ∨ x ∈ new := by
  induction new generalizing addrs with
  | nil => simp
  | cons a new ih => simp [ih, or_assoc]

def Config.watchedAddresses (cfg : Config) : List Address :=
  let addrs := cfg.gateway.toList ++ [cfg.vault]
  let addrs := if cfg.multiVaultEvents then addrs ++ cfg.registry.toList else addrs
  (cfg.portfolioRouter.toList ++ cfg.consensusReceipt.toList ++ cfg.routerGovernance.toList ++ cfg.timelock.toList ++
    cfg.safe.toList).foldl pushNew addrs

def Config.proxyOnlyAddresses (cfg : Config) : List Address :=
  cfg.registry.toList.filter fun r => decide (r ∉ cfg.watchedAddresses)

theorem vault_mem_watchedAddresses (cfg : Config) : cfg.vault ∈ cfg.watchedAddresses := by
  simp only [Config.watchedAddresses, mem_foldl_pushNew]
  split <;> simp

theorem consensusReceipt_mem_watchedAddresses {cfg : Config} {a : Address} (h : cfg.consensusReceipt = some a) :
    a ∈ cfg.watchedAddresses := by
  simp only [Config.watchedAddresses, mem_foldl_pushNew, h]
  simp

/-- With the events of the registry on, or without a registry, every log of the registry is kept. -/
def Config.WatchesRegistry (cfg : Config) : Prop := cfg.registry = none ∨ cfg.multiVaultEvents = true

theorem Config.WatchesRegistry.mem {cfg : Config} (h : cfg.WatchesRegistry) {a : Address} (ha : cfg.registry = some a) :
    a ∈ cfg.watchedAddresses := by
  obtain h | h := h
  · rw [ha] at h
    cases h
  simp only [Config.watchedAddresses, mem_foldl_pushNew, h, ha]
  simp

theorem Config.WatchesRegistry.proxyOnlyAddresses {cfg : Config} (h : cfg.WatchesRegistry) :
    cfg.proxyOnlyAddresses = [] := by
  rw [Config.proxyOnlyAddresses, filter_eq_nil_iff]
  intro a ha
  simpa using h.mem (Option.mem_toList.1 ha)

/-- A deployment of the indexer, and what it relies on from the chain: the hash of a block stands for the chain up to
it, and the hash of a transaction for its sender and nonce, so for the contract that it creates. -/
structure Deployment (H : Type) where
  cfg : Config
  deployFloor : Nat
  hash : Chain → H
  hash_injective : Function.Injective hash
  contractOf : Word → Option Address

variable {H : Type} (d : Deployment H)

def Event.registeredVault : Event → Option Address
  | .vaultRegistered vault _ => some vault
  | _ => none

def Deployment.Registers (l : LogEntry) (vault : Address) : Prop :=
  d.cfg.registry = some l.address ∧ l.event.registeredVault = some vault

def Deployment.registered (c : Chain) (b : Nat) : List Address :=
  (c.logs d.deployFloor b).filterMap fun l => if d.cfg.registry = some l.address then l.event.registeredVault else none

/-- The vaults whose ledgers are watched name them: the configured vault from the floor on, the others from their
registration on. -/
def Deployment.Names (c : Chain) (vault ledger : Address) (n : Nat) : Prop :=
  d.deployFloor ≤ n ∧ (vault = d.cfg.vault ∨ vault ∈ d.registered c (n + 1)) ∧ c.ledgerAt vault n = .ledger ledger

def Deployment.named (c : Chain) (b : Nat) : List (Address × Address) :=
  (List.range' d.deployFloor (b - d.deployFloor)).flatMap fun n =>
    (d.cfg.vault :: d.registered c (n + 1)).filterMap fun vault =>
      match c.ledgerAt vault n with
      | .ledger ledger => some (ledger, vault)
      | _ => none

/-- The contracts watched by the blocks below `b`. -/
def Deployment.watched (c : Chain) (b : Nat) : List Address :=
  d.cfg.watchedAddresses ++ d.registered c b ++ (d.named c b).map Prod.fst

/-- The logs below `b` of the contracts watched by then. -/
def Deployment.canonicalLogs (c : Chain) (b : Nat) : List LogEntry :=
  (c.logs d.deployFloor b).filter fun l => decide (l.address ∈ d.watched c b)

def Deployment.created (logs : List LogEntry) : List (Word × Address) :=
  logs.filterMap fun l => (d.contractOf l.place.txHash).map fun contract => (l.place.txHash, contract)

/-- What the tables should hold of a chain below `b`. -/
def Deployment.decoded (c : Chain) (b : Nat) : LogState :=
  handleAll d.cfg (fun ledger => (d.named c b).lookup ledger) (d.created (d.canonicalLogs c b)) c.timestampOf .empty
    (d.canonicalLogs c b)

section Watched

variable {d} {c e : Chain} {b n : Nat} {l : LogEntry} {v ledger : Address}

theorem mem_registered : v ∈ d.registered c b ↔ ∃ l ∈ c.logs d.deployFloor b, d.Registers l v := by
  simp only [Deployment.registered, mem_filterMap, Deployment.Registers]
  constructor
  · rintro ⟨l, hl, hv⟩
    split at hv
    · rename_i hregistry
      exact ⟨l, hl, hregistry, hv⟩
    · cases hv
  · rintro ⟨l, hl, hregistry, hv⟩
    exact ⟨l, hl, by rw [if_pos hregistry, hv]⟩

theorem mem_named : (ledger, v) ∈ d.named c b ↔ ∃ n < b, d.Names c v ledger n := by
  simp only [Deployment.named, mem_flatMap, mem_range'_1, mem_filterMap, Deployment.Names]
  constructor
  · rintro ⟨n, ⟨hfloor, hn⟩, v', hv', hmatch⟩
    split at hmatch
    · rename_i ledger' hread
      cases hmatch
      exact ⟨n, by omega, hfloor, mem_cons.1 hv', hread⟩
    · cases hmatch
  · rintro ⟨n, hn, hfloor, hv, hread⟩
    exact ⟨n, ⟨hfloor, by omega⟩, v, mem_cons.2 hv, by rw [hread]⟩

theorem mem_watched {a : Address} : a ∈ d.watched c b ↔
    a ∈ d.cfg.watchedAddresses ∨ a ∈ d.registered c b ∨ ∃ v, (a, v) ∈ d.named c b := by
  simp [Deployment.watched]

theorem logs_mono {lo : Nat} (h : n ≤ b) (hl : l ∈ c.logs lo n) : l ∈ c.logs lo b := by
  rw [mem_logs] at hl ⊢
  exact ⟨hl.1, by omega, hl.2.2⟩

theorem registered_mono (h : n ≤ b) (hv : v ∈ d.registered c n) : v ∈ d.registered c b := by
  obtain ⟨l, hl, hregisters⟩ := mem_registered.1 hv
  exact mem_registered.2 ⟨l, logs_mono h hl, hregisters⟩

theorem named_mono (h : n ≤ b) (hv : (ledger, v) ∈ d.named c n) : (ledger, v) ∈ d.named c b := by
  obtain ⟨m, hm, hnames⟩ := mem_named.1 hv
  exact mem_named.2 ⟨m, by omega, hnames⟩

theorem Agree.registered (h : Agree c e b) : d.registered c b = d.registered e b := by
  simp only [Deployment.registered, h.logs]

theorem Agree.names (h : Agree c e b) (hn : n < b) : d.Names c v ledger n ↔ d.Names e v ledger n := by
  simp only [Deployment.Names, h.ledgerAt hn, (h.mono (show n + 1 ≤ b by omega)).registered]

theorem Agree.named (h : Agree c e b) : d.named c b = d.named e b := by
  simp only [Deployment.named]
  apply flatMap_congr
  intro n hn
  rw [mem_range'_1] at hn
  simp only [h.ledgerAt (show n < b by omega), (h.mono (show n + 1 ≤ b by omega)).registered]

theorem Agree.watched (h : Agree c e b) : d.watched c b = d.watched e b := by
  simp only [Deployment.watched, h.registered, h.named]

end Watched

/-- `Upgraded` and `Initialized`: the events with which a vault can move to another ledger. -/
def Event.isLedgerTrigger : Event → Bool
  | .upgraded _ | .initialized => true
  | _ => false

def Deployment.Logged (c : Chain) (l : LogEntry) : Prop :=
  d.deployFloor ≤ l.place.blockNumber ∧ l ∈ c.entriesAt l.place.blockNumber

/-- What the contracts promise about their logs. -/
structure Deployment.Lawful (c : Chain) : Prop where
  /-- Of the watched contracts only the registry registers vaults. -/
  registrar : ∀ l b v, d.Logged c l → l.address ∈ d.watched c b → l.event.registeredVault = some v →
    d.cfg.registry = some l.address
  registeredOnce : ∀ l l' v, d.Logged c l → d.Logged c l' → d.Registers l v → d.Registers l' v → l = l'
  /-- A vault names another ledger only by an upgrade or a reinitializer. -/
  moves : ∀ v n ledger, d.deployFloor ≤ n → c.ledgerAt v (n + 1) = .ledger ledger →
    c.ledgerAt v n = .ledger ledger ∨ ∃ l ∈ c.entriesAt (n + 1), l.address = v ∧ l.event.isLedgerTrigger = true
  /-- No vault moves to another ledger before its registration. -/
  unmoved : ∀ l v n ledger, d.Logged c l → d.Registers l v → d.deployFloor ≤ n → n ≤ l.place.blockNumber →
    c.ledgerAt v n = .ledger ledger → c.ledgerAt v l.place.blockNumber = .ledger ledger
  /-- A ledger has one vault, emits nothing but exclusion records, and none of them before the vault names it. -/
  owner : ∀ b ledger v v', (ledger, v) ∈ d.named c b → (ledger, v') ∈ d.named c b → v = v'
  ledgerEvents : ∀ l b v, d.Logged c l → (l.address, v) ∈ d.named c b → l.event.isExclusion = true
  ledgerSilent : ∀ l b v, d.Logged c l → (l.address, v) ∈ d.named c b →
    (l.address, v) ∈ d.named c (l.place.blockNumber + 1)
  /-- A ledger opens and finalizes an exclusion once. -/
  exclusionKeys : ∀ l l' b v v' r r', d.Logged c l → d.Logged c l' → (l.address, v) ∈ d.named c b →
    (l'.address, v') ∈ d.named c b → exclusionRow v l = some r → exclusionRow v' l' = some r' → r.key = r'.key → l = l'
  /-- A receipt is released once, after it is recorded. -/
  recorded : ∀ l id a t, d.Logged c l → d.cfg.consensusReceipt = some l.address → l.event = .receiptReleased id a t →
    ∃ l', d.Logged c l' ∧ l'.address = l.address ∧ l'.place.pos < l.place.pos ∧
      ∃ s n h u r, l'.event = .receiptRecorded id s n h u r
  releasedOnce : ∀ l l' id a t a' t', d.Logged c l → d.Logged c l' → d.cfg.consensusReceipt = some l.address →
    d.cfg.consensusReceipt = some l'.address → l.event = .receiptReleased id a t →
      l'.event = .receiptReleased id a' t' →
    l = l'

/-- The vaults registered below `b` that have logs below `n` are watched by then. -/
def Deployment.Settled (c : Chain) (n b : Nat) : Prop :=
  ∀ l ∈ c.logs d.deployFloor n, l.address ∈ d.registered c b → l.address ∈ d.watched c n

section Lawful

variable {d} {c e : Chain} {b n lo : Nat} {l : LogEntry} {v ledger : Address}

theorem mem_logs_iff : l ∈ c.logs d.deployFloor b ↔ d.Logged c l ∧ l.place.blockNumber < b := by
  rw [mem_logs, Deployment.Logged]
  tauto

theorem logged_of_mem (hlo : d.deployFloor ≤ lo) (h : l ∈ c.logs lo b) : d.Logged c l := by
  rw [mem_logs] at h
  exact ⟨by omega, h.2.2⟩

theorem Agree.logged (h : Agree c e b) (hl : l.place.blockNumber < b) : d.Logged c l ↔ d.Logged e l := by
  rw [Deployment.Logged, Deployment.Logged, h.entriesAt hl]

theorem Agree.settled (h : Agree c e b) (hn : n ≤ b) : d.Settled c n b ↔ d.Settled e n b := by
  rw [Deployment.Settled, Deployment.Settled, (h.mono hn).logs, h.registered, (h.mono hn).watched]

theorem Deployment.Settled.refl (c : Chain) (n : Nat) : d.Settled c n n := by
  intro l _ hregistered
  exact mem_watched.2 (.inr (.inl hregistered))

private theorem Deployment.watched_mono {a : Address} (h : n ≤ b) (ha : a ∈ d.watched c n) : a ∈ d.watched c b := by
  obtain hcfg | hregistered | ⟨v, hnamed⟩ := mem_watched.1 ha
  · exact mem_watched.2 (.inl hcfg)
  · exact mem_watched.2 (.inr (.inl (registered_mono h hregistered)))
  · exact mem_watched.2 (.inr (.inr ⟨v, named_mono h hnamed⟩))

theorem Deployment.Settled.watched_iff (hsettled : d.Settled c n b) (hlawful : d.Lawful c) (hn : n ≤ b)
    (hl : l ∈ c.logs d.deployFloor n) : l.address ∈ d.watched c b ↔ l.address ∈ d.watched c n := by
  constructor
  · intro h
    obtain hcfg | hregistered | ⟨v, hnamed⟩ := mem_watched.1 h
    · exact mem_watched.2 (.inl hcfg)
    · exact hsettled l hl hregistered
    rw [mem_logs_iff] at hl
    exact mem_watched.2 (.inr (.inr ⟨v, named_mono (by omega) (hlawful.ledgerSilent l b v hl.1 hnamed)⟩))
  · exact Deployment.watched_mono hn

end Lawful

end RobotMoney.Indexer
