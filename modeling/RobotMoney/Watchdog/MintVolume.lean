import RobotMoney.Watchdog.Volume

/-!
# What mint volume counts

The deposits of one block, as the calls that make them and the logs that these emit.  A deposit of the gateway emits the
`Deposit` of its destination and an `AgentDeposit`, which does not name the destination: the indexer fills in the vault
of its configuration.  The netting is per transaction and vault, so mint volume is right exactly when no transaction has
more gateway deposits elsewhere than direct deposits into that vault (`mint_volume_exact_iff`).
-/

namespace RobotMoney.Watchdog

open Evm Indexer SqlTable List

/-- A leg of a router deposit. -/
structure RouterLeg where
  vault : Address
  amount : Nat
  shares : Nat
  weightBps : Nat
  deriving DecidableEq, Repr

/-- The calls that deposit USDC into vaults. -/
inductive DepositCall where
  /-- `RobotMoneyGateway.depositTo`. -/
  | depositTo (paymentId orderId : Word) (agent shareReceiver destination : Address)
      (amount sharesMinted windowId : Nat)
  /-- `PortfolioRouter.deposit` and `depositFor`. -/
  | routerDeposit (receiver : Address) (legs : List RouterLeg)
  /-- `deposit` or `mint` of a vault. -/
  | vaultDeposit (vault caller receiver : Address) (assets shares : Nat)
  deriving DecidableEq, Repr

structure DepositTx where
  hash : Word
  calls : List DepositCall
  deriving DecidableEq, Repr

section Calls

variable (gateway router : Address)

/-- The logs of a call that the indexer keeps a deposit of.  The router is not a token, so `depositTo` reverts on it. -/
def DepositCall.logs : DepositCall → List (Address × Indexer.Event)
  | .depositTo paymentId orderId agent shareReceiver destination amount sharesMinted windowId =>
    if destination = router then []
    else
      [(destination, .deposit gateway shareReceiver amount sharesMinted),
        (gateway, .agentDeposit paymentId orderId agent shareReceiver amount sharesMinted windowId)]
  | .routerDeposit receiver legs =>
    legs.flatMap fun leg =>
      [(leg.vault, .deposit router receiver leg.amount leg.shares),
        (router, .routerDeposit receiver leg.vault leg.amount leg.shares leg.weightBps)]
  | .vaultDeposit vault caller receiver assets shares => [(vault, .deposit caller receiver assets shares)]

def DepositCall.paid : DepositCall → List (Address × Nat)
  | .depositTo _ _ _ _ destination amount _ _ => if destination = router then [] else [(destination, amount)]
  | _ => []

def DepositCall.credited (vault : Address) (c : DepositCall) : List (Address × Nat) :=
  (c.paid router).map fun p => (vault, p.2)

def DepositCall.routed : DepositCall → List (Address × Nat)
  | .routerDeposit _ legs => legs.map fun leg => (leg.vault, leg.amount)
  | _ => []

def DepositCall.direct : DepositCall → List (Address × Nat)
  | .vaultDeposit vault _ _ assets _ => [(vault, assets)]
  | _ => []

def DepositCall.deposited (c : DepositCall) : List (Address × Nat) := c.paid router ++ c.routed ++ c.direct

def depositLogs (txs : List DepositTx) : List (Word × Address × Indexer.Event) :=
  txs.flatMap fun tx => (tx.calls.flatMap (DepositCall.logs gateway router)).map fun l => (tx.hash, l)

end Calls

open Watchdog.DepositCall

def placeLogs (blockNumber : Nat) (index : Nat → Nat) (logs : List (Word × Address × Indexer.Event)) (start : Nat) :
    List LogEntry :=
  (logs.zipIdx start).map fun (l, i) => ⟨l.2.1, ⟨blockNumber, index i, l.1⟩, l.2.2⟩

def into (vault : Address) (deposits : List (Address × Nat)) : Nat := groupSum Prod.fst Prod.snd deposits vault

def DepositTx.by (way : DepositCall → List (Address × Nat)) (tx : DepositTx) : List (Address × Nat) :=
  tx.calls.flatMap way

def deposits (router : Address) (txs : List DepositTx) : List (Address × Nat) :=
  txs.flatMap (DepositTx.by (deposited router))

/-- What the gateway deposits in a transaction into other vaults than `vault`. -/
def DepositTx.paidElsewhere (router vault : Address) (tx : DepositTx) : Nat :=
  sumOf Prod.snd ((tx.by (paid router)).filter fun p => decide (p.1 ≠ vault))

def rowsBy (blockNumber : Nat) (way : DepositCall → List (Address × Nat)) (txs : List DepositTx) : List SourceRow :=
  txs.flatMap fun tx => (tx.by way).map fun p => ⟨blockNumber, tx.hash, p.1, p.2⟩

def agentRow (cfg : Indexer.Config) (blockNumber : Nat) (l : Word × Address × Indexer.Event) : Option SourceRow :=
  match l.2.2 with
  | .agentDeposit _ _ _ _ amount _ _ =>
    if cfg.gateway = some l.2.1 then some ⟨blockNumber, l.1, cfg.vault, amount⟩ else none
  | _ => none

def legRow (blockNumber : Nat) (l : Word × Address × Indexer.Event) : Option SourceRow :=
  match l.2.2 with
  | .routerDeposit _ vault amount _ _ => some ⟨blockNumber, l.1, vault, amount⟩
  | _ => none

def depositRow (blockNumber : Nat) (l : Word × Address × Indexer.Event) : Option SourceRow :=
  match l.2.2 with
  | .deposit _ _ assets _ => some ⟨blockNumber, l.1, l.2.1, assets⟩
  | _ => none

def IsDepositEvent : Indexer.Event → Prop
  | .agentDeposit .. | .routerDeposit .. | .deposit .. => True
  | _ => False

/-- No row of the block stands at or above an index. -/
structure RowsBelow (blockNumber i : Nat) (t : Tables) : Prop where
  events : ∀ r ∈ t.events, r.place.blockNumber = blockNumber → r.place.logIndex < i
  deposits : ∀ r ∈ t.deposits, r.place.blockNumber = blockNumber → r.place.logIndex < i

variable {cfg : Indexer.Config} {vaultOfExclusionLedger : Address → Option Address} {created : List (Word × Address)}
  {timestampOf : Nat → Option Int} {blockNumber i : Nat} {t : Tables}

section

variable (h : RowsBelow blockNumber i t)

include h

private theorem RowsBelow.mono {j : Nat} (hij : i ≤ j) : RowsBelow blockNumber j t := by
  constructor
  · intro r hr hblock
    have := h.events r hr hblock
    omega
  · intro r hr hblock
    have := h.deposits r hr hblock
    omega

private theorem RowsBelow.insertNew_event {row : EventRow}
    (hblock : row.place.blockNumber = blockNumber) (hindex : row.place.logIndex = i) :
    insertNew EventRow.key row t.events = t.events ++ [row] := by
  apply insertNew_of_fresh
  intro x hx hkey
  simp only [EventRow.key, LogPlace.pos, Prod.mk.injEq, EmbeddingLike.apply_eq_iff_eq] at hkey
  have := h.events x hx (by omega)
  omega

private theorem RowsBelow.insertAgentDeposit {row : DepositRow}
    (hblock : row.place.blockNumber = blockNumber) (hindex : row.place.logIndex = i) :
    ∃ registration, insertAgentDeposit row t.policies t.deposits =
      t.deposits ++ [{ row with registration := registration }] := by
  refine ⟨_, insertNew_of_fresh ?_⟩
  intro x hx hkey
  simp only [DepositRow.pos, LogPlace.pos, EmbeddingLike.apply_eq_iff_eq, Prod.mk.injEq] at hkey
  have := h.deposits x hx (by omega)
  omega

private theorem RowsBelow.append_event {row : EventRow} (hindex : row.place.logIndex = i) :
    RowsBelow blockNumber (i + 1) { t with events := t.events ++ [row] } := by
  constructor
  · intro r hr hblock
    rw [mem_append, mem_singleton] at hr
    obtain hr | rfl := hr
    · have := h.events r hr hblock
      omega
    · omega
  · intro r hr hblock
    have := h.deposits r hr hblock
    omega

private theorem RowsBelow.append_deposit {row : DepositRow} (hindex : row.place.logIndex = i) :
    RowsBelow blockNumber (i + 1) { t with deposits := t.deposits ++ [row] } := by
  constructor
  · intro r hr hblock
    have := h.events r hr hblock
    omega
  · intro r hr hblock
    rw [mem_append, mem_singleton] at hr
    obtain hr | rfl := hr
    · have := h.deposits r hr hblock
      omega
    · omega

end

/-- What one log of a deposit adds to the sources. -/
structure Adds (cfg : Indexer.Config) (blockNumber : Nat) (l : Word × Address × Indexer.Event) (t t' : Tables) :
    Prop where
  agents : agentDeposits t' = agentDeposits t ++ (agentRow cfg blockNumber l).toList
  legs : routerDepositLegs t' = routerDepositLegs t ++ (legRow blockNumber l).toList
  deposits : vaultTransferEvents .deposit t' = vaultTransferEvents .deposit t ++ (depositRow blockNumber l).toList

private theorem adds_handleLog (h : RowsBelow blockNumber i t) {hash : Word} {a : Address} {e : Indexer.Event}
    (he : IsDepositEvent e) :
    RowsBelow blockNumber (i + 1) ((handleLog cfg vaultOfExclusionLedger created ⟨a, ⟨blockNumber, i, hash⟩, e⟩).foldl
        (Statement.execTables timestampOf) t) ∧
      Adds cfg blockNumber (hash, a, e) t ((handleLog cfg vaultOfExclusionLedger created
        ⟨a, ⟨blockNumber, i, hash⟩, e⟩).foldl (Statement.execTables timestampOf) t) := by
  cases e with
  | agentDeposit paymentId orderId agent shareReceiver amount sharesMinted windowId =>
    simp only [handleLog]
    split
    · rename_i hgateway
      simp only [handleGatewayLog, foldl_cons, foldl_nil, Statement.execTables]
      obtain ⟨registration, hrow⟩ := @RowsBelow.insertAgentDeposit _ _ _ h ⟨⟨blockNumber, i, hash⟩, paymentId, orderId,
        agent, shareReceiver, amount, sharesMinted, asI64 windowId, some cfg.vault, some a, none⟩ rfl rfl
      rw [hrow, h.insertNew_event rfl rfl]
      refine ⟨?_, ?_, ?_, ?_⟩
      · constructor
        · exact (h.append_event rfl).events
        · exact (h.append_deposit rfl).deposits
      · simp [agentDeposits, agentRow, hgateway]
      · simp [routerDepositLegs, legRow]
      · simp [vaultTransferEvents, depositRow]
    rename_i hgateway
    refine ⟨h.mono (Nat.le_succ i), ?_, ?_, ?_⟩
    · simp [agentRow, hgateway]
    · simp [legRow]
    · simp [depositRow]
  | routerDeposit depositor vault amount shares weightBps =>
    simp only [handleLog, foldl_cons, foldl_nil, Statement.execTables]
    rw [h.insertNew_event rfl rfl]
    refine ⟨h.append_event rfl, ?_, ?_, ?_⟩
    · simp [agentDeposits, agentRow]
    · simp [routerDepositLegs, legRow]
    · simp [vaultTransferEvents, depositRow]
  | deposit caller owner assets shares =>
    simp only [handleLog, foldl_cons, foldl_nil, Statement.execTables]
    rw [h.insertNew_event rfl rfl]
    refine ⟨⟨(h.append_event rfl).events, (h.mono (Nat.le_succ i)).deposits⟩, ?_, ?_, ?_⟩
    · simp [agentDeposits, agentRow]
    · simp [routerDepositLegs, legRow]
    · simp [vaultTransferEvents, depositRow]
  | _ => cases he

theorem adds_placeLogs {index : Nat → Nat} (hindex : StrictMono index) {logs : List (Word × Address × Indexer.Event)}
    (hlogs : ∀ l ∈ logs, IsDepositEvent l.2.2) {start : Nat} (h : RowsBelow blockNumber (index start) t) :
    let t' := ((placeLogs blockNumber index logs start).flatMap (handleLog cfg vaultOfExclusionLedger created)).foldl
      (Statement.execTables timestampOf) t
    agentDeposits t' = agentDeposits t ++ logs.filterMap (agentRow cfg blockNumber) ∧
      routerDepositLegs t' = routerDepositLegs t ++ logs.filterMap (legRow blockNumber) ∧
      vaultTransferEvents .deposit t' = vaultTransferEvents .deposit t ++ logs.filterMap (depositRow blockNumber) := by
  induction logs generalizing t start with
  | nil => simp [placeLogs]
  | cons l logs ih =>
    obtain ⟨hash, a, e⟩ := l
    obtain ⟨hbelow, hadds⟩ := @adds_handleLog cfg vaultOfExclusionLedger created timestampOf _ _ _ h hash a e
      (hlogs _ mem_cons_self)
    have hrest := ih (fun l hl => hlogs l (mem_cons_of_mem _ hl)) (hbelow.mono (hindex (Nat.lt_succ_self start)))
    simp only [placeLogs, zipIdx_cons, map_cons, flatMap_cons, foldl_append] at hrest ⊢
    obtain ⟨hagents, hlegs, hdeposits⟩ := hrest
    rw [hagents, hlegs, hdeposits, hadds.agents, hadds.legs, hadds.deposits, filterMap_cons, filterMap_cons,
      filterMap_cons]
    refine ⟨?_, ?_, ?_⟩
    · cases agentRow cfg blockNumber (hash, a, e) <;> simp
    · cases legRow blockNumber (hash, a, e) <;> simp
    · cases depositRow blockNumber (hash, a, e) <;> simp

section Rows

variable {gateway router : Address} {txs : List DepositTx}

private theorem isDepositEvent_of_logs {c : DepositCall} {l : Address × Indexer.Event} (h : l ∈ c.logs gateway router) :
    IsDepositEvent l.2 := by
  cases c with
  | depositTo paymentId orderId agent shareReceiver destination amount sharesMinted windowId =>
    simp only [logs] at h
    split at h
    · cases h
    simp only [mem_cons, not_mem_nil, or_false] at h
    obtain rfl | rfl := h <;> trivial
  | routerDeposit receiver legs =>
    simp only [logs, mem_flatMap, mem_cons, not_mem_nil, or_false] at h
    obtain ⟨leg, -, rfl | rfl⟩ := h <;> trivial
  | vaultDeposit vault caller receiver assets shares =>
    simp only [logs, mem_singleton] at h
    subst h
    trivial

private theorem filterMap_depositLogs (row : Word × Address × Indexer.Event → Option SourceRow)
    (way : DepositCall → List (Address × Nat))
    (h : ∀ (c : DepositCall) (hash : Word), ((c.logs gateway router).map fun l => (hash, l)).filterMap row =
      (way c).map fun p => ⟨blockNumber, hash, p.1, p.2⟩) :
    (depositLogs gateway router txs).filterMap row = rowsBy blockNumber way txs := by
  simp only [rowsBy, depositLogs, filterMap_flatMap, DepositTx.by, map_flatMap]
  congr 1
  funext tx
  congr 1
  funext c
  exact h c tx.hash

private theorem filterMap_agentRow (hgateway : cfg.gateway = some gateway) :
    (depositLogs gateway router txs).filterMap (agentRow cfg blockNumber) =
      rowsBy blockNumber (credited router cfg.vault) txs := by
  have hrows : ∀ (c : DepositCall) (hash : Word),
      ((c.logs gateway router).map fun l => (hash, l)).filterMap (agentRow cfg blockNumber) =
        (c.credited router cfg.vault).map fun p => ⟨blockNumber, hash, p.1, p.2⟩ := by
    intro c hash
    cases c with
    | depositTo paymentId orderId agent shareReceiver destination amount sharesMinted windowId =>
      simp only [logs, credited, paid]
      split
      · rfl
      · simp [agentRow, hgateway, filterMap_cons]
    | routerDeposit receiver legs =>
      simp [logs, credited, paid, agentRow, filterMap_flatMap, map_flatMap,
        filterMap_cons]
    | vaultDeposit vault caller receiver assets shares =>
      simp [logs, credited, paid, agentRow, filterMap_cons]
  exact filterMap_depositLogs _ _ hrows

private theorem filterMap_legRow : (depositLogs gateway router txs).filterMap (legRow blockNumber) =
    rowsBy blockNumber routed txs := by
  apply filterMap_depositLogs _ _
  intro c hash
  cases c with
  | depositTo paymentId orderId agent shareReceiver destination amount sharesMinted windowId =>
    simp only [logs, routed]
    split <;> simp [legRow, filterMap_cons]
  | routerDeposit receiver legs =>
    induction legs with
    | nil => rfl
    | cons leg legs ih =>
      simp only [logs, routed, flatMap_cons, map_append, filterMap_append,
        map_cons, filterMap_cons, legRow] at ih ⊢
      simp [ih]
  | vaultDeposit vault caller receiver assets shares =>
    simp [logs, routed, legRow, filterMap_cons]

private theorem filterMap_depositRow : (depositLogs gateway router txs).filterMap (depositRow blockNumber) =
    rowsBy blockNumber (deposited router) txs := by
  apply filterMap_depositLogs _ _
  intro c hash
  cases c with
  | depositTo paymentId orderId agent shareReceiver destination amount sharesMinted windowId =>
    simp only [logs, deposited, paid, routed, direct]
    split <;> simp [depositRow, filterMap_cons]
  | routerDeposit receiver legs =>
    simp only [deposited, paid, direct, nil_append, append_nil]
    induction legs with
    | nil => rfl
    | cons leg legs ih =>
      simp only [logs, routed, flatMap_cons, map_append, filterMap_append,
        map_cons, filterMap_cons, depositRow] at ih ⊢
      simp [ih]
  | vaultDeposit vault caller receiver assets shares =>
    simp [logs, deposited, paid, routed, direct, depositRow]

theorem mem_rowsBy {way : DepositCall → List (Address × Nat)} {r : SourceRow} (h : r ∈ rowsBy blockNumber way txs) :
    r.blockNumber = blockNumber ∧ ∃ tx ∈ txs, r.txHash = tx.hash := by
  simp only [rowsBy, mem_flatMap, mem_map] at h
  obtain ⟨tx, htx, p, -, rfl⟩ := h
  exact ⟨rfl, tx, htx, rfl⟩

private theorem groupSum_rowsBy (way : DepositCall → List (Address × Nat)) (hnodup : (txs.map DepositTx.hash).Nodup)
    {tx : DepositTx} (htx : tx ∈ txs) (v : Address) :
    groupSum SourceRow.group SourceRow.amount (rowsBy blockNumber way txs) (blockNumber, tx.hash, v) =
      into v (tx.by way) := by
  have hother : ∀ us : List DepositTx, tx.hash ∉ us.map DepositTx.hash →
      groupSum SourceRow.group SourceRow.amount (rowsBy blockNumber way us) (blockNumber, tx.hash, v) = 0 := by
    intro us hus
    apply groupSum_of_not_mem
    intro r hr hgroup
    obtain ⟨-, u, hu, hhash⟩ := mem_rowsBy hr
    simp only [SourceRow.group, Prod.mk.injEq] at hgroup
    exact hus (mem_map.2 ⟨u, hu, by rw [← hhash, hgroup.2.1]⟩)
  have hown : groupSum SourceRow.group SourceRow.amount
      ((tx.by way).map fun p => (⟨blockNumber, tx.hash, p.1, p.2⟩ : SourceRow)) (blockNumber, tx.hash, v) =
        into v (tx.by way) := by
    induction tx.by way with
    | nil => rfl
    | cons p ps ih =>
      rw [map_cons, groupSum_cons, ih]
      simp [into, groupSum_cons, SourceRow.group]
  induction txs with
  | nil => cases htx
  | cons u us ih =>
    rw [map_cons, nodup_cons] at hnodup
    rw [rowsBy, flatMap_cons, groupSum_append, ← rowsBy]
    obtain rfl | htx := mem_cons.1 htx
    · rw [hown, hother us hnodup.1, add_zero]
    have hne : u.hash ≠ tx.hash := fun heq => hnodup.1 (heq ▸ mem_map_of_mem htx)
    rw [ih hnodup.2 htx, groupSum_of_not_mem, zero_add]
    intro r hr hgroup
    obtain ⟨p, -, rfl⟩ := mem_map.1 hr
    simp only [SourceRow.group, Prod.mk.injEq] at hgroup
    exact hne hgroup.2.1

def ofVaults (g : Address → Bool) (rows : List SourceRow) : List SourceRow := rows.filter fun r => g r.vault

private theorem groupSum_ofVaults (g : Address → Bool) (rows : List SourceRow) (k : Nat × Word × Address) :
    groupSum SourceRow.group SourceRow.amount (ofVaults g rows) k =
      if g k.2.2 then groupSum SourceRow.group SourceRow.amount rows k else 0 := by
  induction rows with
  | nil => simp [ofVaults, groupSum]
  | cons r rows ih =>
    rw [groupSum_cons, ofVaults, filter_cons]
    by_cases hgroup : r.group = k
    · subst hgroup
      rw [if_pos rfl]
      split
      · rename_i hg
        rw [groupSum_cons, if_pos rfl, ← ofVaults, ih]
        simp [SourceRow.group, hg]
      rename_i hg
      rw [← ofVaults, ih]
      simp [SourceRow.group, hg]
    rw [if_neg hgroup]
    split
    · rw [groupSum_cons, if_neg hgroup, ← ofVaults, ih]
      simp
    rw [← ofVaults, ih]
    simp

/-- In no transaction do gateway and router account for more than a vault of the filter got. -/
def DepositsCovered (router vault : Address) (g : Address → Bool) (tx : DepositTx) : Prop :=
  ∀ v, g v = true →
    into v (tx.by routed) + into v (tx.by (credited router vault)) ≤
      into v (tx.by (deposited router))

def blockKeys (blockNumber : Nat) (router vault : Address) (txs : List DepositTx) : Finset (Nat × Word × Address) :=
  ((rowsBy blockNumber (deposited router) txs ++ rowsBy blockNumber routed txs ++
    rowsBy blockNumber (credited router vault) txs).map SourceRow.group).toFinset

private theorem group_mem_blockKeys {vault : Address} {r : SourceRow}
    (h : r ∈ rowsBy blockNumber (deposited router) txs ∨ r ∈ rowsBy blockNumber routed txs ∨
      r ∈ rowsBy blockNumber (credited router vault) txs) :
    r.group ∈ blockKeys blockNumber router vault txs := by
  rw [blockKeys, mem_toFinset]
  apply mem_map_of_mem
  simpa [or_assoc] using h

private theorem exists_of_mem_blockKeys {vault : Address} {k : Nat × Word × Address}
    (h : k ∈ blockKeys blockNumber router vault txs) : ∃ tx ∈ txs, k = (blockNumber, tx.hash, k.2.2) := by
  simp only [blockKeys, mem_toFinset, mem_map, mem_append] at h
  have hrow : ∃ way r, r ∈ rowsBy blockNumber way txs ∧ r.group = k := by
    obtain ⟨r, (hr | hr) | hr, hgroup⟩ := h
    · exact ⟨_, r, hr, hgroup⟩
    · exact ⟨_, r, hr, hgroup⟩
    · exact ⟨_, r, hr, hgroup⟩
  obtain ⟨way, r, hr, rfl⟩ := hrow
  obtain ⟨hblock, tx, htx, hhash⟩ := mem_rowsBy hr
  exact ⟨tx, htx, by rw [← hblock, ← hhash]; rfl⟩

/-- The three sources, cut by a filter, are the rows of the block of some vaults. -/
structure Sources (filter : SourceRow → Bool) (t : Tables) (blockNumber : Nat) (router vault : Address)
    (txs : List DepositTx) (g : Address → Bool) : Prop where
  agents : (agentDeposits t).filter filter = ofVaults g (rowsBy blockNumber (credited router vault) txs)
  legs : (routerDepositLegs t).filter filter = ofVaults g (rowsBy blockNumber routed txs)
  deposits : (vaultTransferEvents .deposit t).filter filter =
    ofVaults g (rowsBy blockNumber (deposited router) txs)

variable {filter : SourceRow → Bool} {vault : Address} {g : Address → Bool}

/-- Mint volume is at least what was deposited, and more than that where a transaction is not covered. -/
theorem Sources.sumOf_mintSources (h : Sources filter t blockNumber router vault txs g)
    (hnodup : (txs.map DepositTx.hash).Nodup) :
    sumOf SourceRow.amount (ofVaults g (rowsBy blockNumber (deposited router) txs)) ≤
        sumOf Prod.snd (mintSources filter t) ∧ (sumOf Prod.snd (mintSources filter t) =
          sumOf SourceRow.amount (ofVaults g (rowsBy blockNumber (deposited router) txs)) ↔
        ∀ tx ∈ txs, DepositsCovered router vault g tx) := by
  have hkeys : ∀ {way} {r : SourceRow}, r ∈ ofVaults g (rowsBy blockNumber way txs) → r ∈ rowsBy blockNumber way txs :=
    fun hr => mem_of_mem_filter hr
  have hsum := @Watchdog.sumOf_mintSources filter t (blockKeys blockNumber router vault txs)
    (fun r hr => group_mem_blockKeys (.inr (.inr (hkeys (h.agents ▸ hr)))))
    (fun r hr => group_mem_blockKeys (.inr (.inl (hkeys (h.legs ▸ hr)))))
    (fun r hr => group_mem_blockKeys (.inl (hkeys (h.deposits ▸ hr))))
  have hdeposited := @sumOf_eq_sum_groupSum _ _ _ SourceRow.group SourceRow.amount _
    (blockKeys blockNumber router vault txs)
    fun r hr => group_mem_blockKeys (.inl (hkeys hr))
  rw [h.agents, h.legs, h.deposits] at hsum
  rw [hsum, hdeposited]
  constructor
  · exact Finset.sum_le_sum fun k _ => le_max_left _ _
  · rw [eq_comm, Finset.sum_eq_sum_iff_of_le fun k _ => le_max_left _ _]
    simp only [groupSum_ofVaults, left_eq_sup]
    constructor
    · intro hall tx htx v hg
      have hsums := fun way => @groupSum_rowsBy blockNumber txs way hnodup tx htx v
      rw [← hsums, ← hsums, ← hsums]
      by_cases hk : (blockNumber, tx.hash, v) ∈ blockKeys blockNumber router vault txs
      · simpa [hg] using hall _ hk
      -- a key that no row has
      have hnone : ∀ way, (∀ r ∈ rowsBy blockNumber way txs, r.group ∈ blockKeys blockNumber router vault txs) →
          groupSum SourceRow.group SourceRow.amount (rowsBy blockNumber way txs) (blockNumber, tx.hash, v) = 0 := by
        intro way hway
        exact groupSum_of_not_mem fun r hr hgroup => hk (hgroup ▸ hway r hr)
      rw [hnone _ fun r hr => group_mem_blockKeys (.inr (.inl hr)),
        hnone _ fun r hr => group_mem_blockKeys (.inr (.inr hr))]
      exact Nat.zero_le _
    · intro hall k hk
      obtain ⟨tx, htx, heq⟩ := exists_of_mem_blockKeys hk
      rw [heq]
      split
      · rename_i hg
        have hsums := fun way => @groupSum_rowsBy blockNumber txs way hnodup tx htx k.2.2
        rw [hsums, hsums, hsums]
        exact hall tx htx _ hg
      · exact le_refl _

private theorem into_by_deposited (tx : DepositTx) (v : Address) : into v (tx.by (deposited router)) =
    into v (tx.by (paid router)) + into v (tx.by routed) + into v
    (tx.by direct) := by
  simp only [DepositTx.by, into]
  induction tx.calls with
  | nil => rfl
  | cons c cs ih =>
    simp only [flatMap_cons, groupSum_append, ih, deposited]
    omega

private theorem into_by_credited (tx : DepositTx) (v : Address) : into v (tx.by (credited router vault)) =
    if v = vault then into vault (tx.by (paid router)) + tx.paidElsewhere router vault else 0 := by
  have hmap : tx.by (credited router vault) =
      (tx.by (paid router)).map fun p => (vault, p.2) := by
    simp only [DepositTx.by, map_flatMap]
    rfl
  rw [hmap, DepositTx.paidElsewhere, into, into]
  induction tx.by (paid router) with
  | nil => simp [groupSum]
  | cons p ps ih =>
    rw [map_cons, groupSum_cons, ih, groupSum_cons, filter_cons]
    by_cases hv : v = vault
    · subst hv
      by_cases hp : p.1 = v
      · simp [hp]
        omega
      simp [hp]
      omega
    · rw [if_neg (Ne.symm hv), if_neg hv, if_neg hv]

private theorem depositsCovered_iff (tx : DepositTx) : DepositsCovered router vault (fun _ => true) tx ↔
    tx.paidElsewhere router vault ≤ into vault (tx.by direct) := by
  simp only [DepositsCovered, into_by_deposited, into_by_credited, forall_const]
  constructor
  · intro h
    have := h vault
    rw [if_pos rfl] at this
    omega
  · intro h v
    split
    · subst v
      omega
    · omega

private theorem DepositsCovered.of_true {tx : DepositTx} (h : DepositsCovered router vault (fun _ => true) tx) :
    DepositsCovered router vault g tx :=
  fun v _ => h v rfl

private theorem sumOf_rowsBy (g : Address → Bool) : sumOf SourceRow.amount
    (ofVaults g (rowsBy blockNumber (deposited router) txs)) =
      sumOf Prod.snd ((deposits router txs).filter fun p => g p.1) := by
  simp only [sumOf, ofVaults, rowsBy, deposits, filter_flatMap, map_flatMap, filter_map, map_map]
  rfl

private theorem paidElsewhere_le {tx : DepositTx} (htx : tx ∈ txs) :
    tx.paidElsewhere router vault ≤ sumOf Prod.snd (deposits router txs) := by
  have hpaid : List.Sublist (tx.by (paid router)) (tx.by (deposited router)) := by
    apply List.Sublist.flatMap_right
    intro c _
    rw [deposited, append_assoc]
    exact sublist_append_left _ _
  have hall : List.Sublist (tx.by (deposited router)) (deposits router txs) := by
    rw [deposits, flatMap_def]
    exact sublist_flatten_of_mem (mem_map_of_mem htx)
  exact sumOf_le_of_sublist ((filter_sublist).trans (hpaid.trans hall))

private theorem filter_eq_ofVaults (hf : ∀ r, filter r = (atBlock blockNumber r && g r.vault))
    {way : DepositCall → List (Address × Nat)} {rows : List SourceRow} (hrows : ∀ r ∈ rows,
      r.blockNumber ≠ blockNumber) :
    (rows ++ rowsBy blockNumber way txs).filter filter = ofVaults g (rowsBy blockNumber way txs) := by
  rw [filter_append, ofVaults]
  have hold : rows.filter filter = [] := by
    rw [filter_eq_nil_iff]
    intro r hr
    simp [hf, atBlock, hrows r hr]
  rw [hold, nil_append]
  apply filter_congr
  intro r hr
  simp [hf, atBlock, (mem_rowsBy hr).1]

private theorem sources_of_block (hgateway : cfg.gateway = some gateway) {index : Nat → Nat} (hindex : StrictMono index)
    {s : LogState} (hfresh : RowsBelow blockNumber 0 s.tables)
    (hf : ∀ r, filter r = (atBlock blockNumber r && g r.vault)) :
    Sources filter (handleAll cfg vaultOfExclusionLedger created timestampOf s
      (placeLogs blockNumber index (depositLogs gateway router txs) 0)).tables blockNumber router cfg.vault txs g := by
  have hevents : ∀ l ∈ depositLogs gateway router txs, IsDepositEvent l.2.2 := by
    intro l hl
    simp only [depositLogs, mem_flatMap, mem_map] at hl
    obtain ⟨tx, -, x, ⟨c, -, hx⟩, rfl⟩ := hl
    exact isDepositEvent_of_logs hx
  have hadds := @adds_placeLogs cfg vaultOfExclusionLedger created timestampOf _ _ _ hindex _ hevents 0
    (hfresh.mono (Nat.zero_le _))
  simp only [filterMap_agentRow hgateway, filterMap_legRow, filterMap_depositRow] at hadds
  obtain ⟨hagents, hlegs, hdeposits⟩ := hadds
  rw [handleAll_eq, execAll_eq]
  constructor
  · rw [hagents]
    apply filter_eq_ofVaults hf
    intro r hr hblock
    simp only [agentDeposits, mem_filterMap, Option.map_eq_some_iff] at hr
    obtain ⟨x, hx, v, -, rfl⟩ := hr
    exact absurd (hfresh.deposits x hx hblock) (Nat.not_lt_zero _)
  · rw [hlegs]
    apply filter_eq_ofVaults hf
    intro r hr hblock
    simp only [routerDepositLegs, mem_filterMap] at hr
    obtain ⟨x, hx, hrow⟩ := hr
    split at hrow
    · cases hrow
      exact absurd (hfresh.events _ hx hblock) (Nat.not_lt_zero _)
    · cases hrow
  · rw [hdeposits]
    apply filter_eq_ofVaults hf
    intro r hr hblock
    simp only [vaultTransferEvents, mem_filterMap] at hr
    obtain ⟨x, hx, hrow⟩ := hr
    split at hrow
    · split at hrow
      · cases hrow
        exact absurd (hfresh.events _ hx hblock) (Nat.not_lt_zero _)
      · cases hrow
    · cases hrow

/-- Mint volume is the USDC deposited into the vaults, in all and for each of them, exactly when no transaction deposits
more through the gateway into other vaults than directly into the vault of the configuration. -/
theorem mint_volume_exact_iff (hgateway : cfg.gateway = some gateway) (hnodup : (txs.map DepositTx.hash).Nodup)
    {index : Nat → Nat} (hindex : StrictMono index) (s : LogState) (hfresh : RowsBelow blockNumber 0 s.tables) :
    let t := (handleAll cfg vaultOfExclusionLedger created timestampOf s
      (placeLogs blockNumber index (depositLogs gateway router txs) 0)).tables
    (mintVolumePerBlock t blockNumber = sumOf Prod.snd (deposits router txs) ∧
        ∀ v, mintVolumePerBlockForVault t blockNumber (addressBytes v) = into v (deposits router txs)) ↔
      (∀ tx ∈ txs, tx.paidElsewhere router cfg.vault ≤ into cfg.vault (tx.by direct)) ∧
        sumOf Prod.snd (deposits router txs) < 2 ^ 128 := by
  intro t
  have hsources : ∀ filter g, (∀ r, filter r = (atBlock blockNumber r && g r.vault)) →
      Sources filter t blockNumber router cfg.vault txs g := fun filter g hf =>
        sources_of_block hgateway hindex hfresh hf
  obtain ⟨hle, hiff⟩ := (hsources (atBlock blockNumber) (fun _ => true) (by simp)).sumOf_mintSources hnodup
  simp only [sumOf_rowsBy, filter_true, depositsCovered_iff] at hle hiff
  constructor
  · rintro ⟨htotal, -⟩
    rw [mintVolumePerBlock, mintVolume, decimalToU128] at htotal
    split at htotal
    · rename_i hfits
      exact ⟨hiff.1 htotal, by omega⟩
    · -- a total of zero has nothing to pay elsewhere
      rename_i hlarge
      have hcovered : ∀ tx ∈ txs, tx.paidElsewhere router cfg.vault ≤ into cfg.vault (tx.by direct) := by
        intro tx htx
        have := @paidElsewhere_le router txs cfg.vault tx htx
        omega
      have := hiff.2 hcovered
      omega
  · rintro ⟨hcovered, hfits⟩
    have htotal := hiff.2 hcovered
    refine ⟨by rw [mintVolumePerBlock, mintVolume, decimalToU128, htotal, if_pos hfits], ?_⟩
    intro v
    have hfilter : ∀ r, atBlockOf blockNumber (addressBytes v) r = (atBlock blockNumber r && decide (r.vault = v)) := by
      intro r
      simp only [atBlockOf, addressBytes_injective.eq_iff]
    obtain ⟨-, hiff⟩ := (hsources _ (fun a => decide (a = v)) hfilter).sumOf_mintSources hnodup
    have hvault := hiff.2 fun tx htx => ((depositsCovered_iff tx).2 (hcovered tx htx)).of_true
    rw [sumOf_rowsBy] at hvault
    have hle : into v (deposits router txs) ≤ sumOf Prod.snd (deposits router txs) :=
      sumOf_le_of_sublist filter_sublist
    rw [mintVolumePerBlockForVault, mintVolume, decimalToU128, hvault, ← groupSum, ← into, if_pos (by omega)]

end Rows

def mintConfig : Indexer.Config := ⟨some 50, 7, none, none, some 60, none, none, none, 100, none, true⟩

/-- A gateway deposit into the vault of the configuration, a router deposit and a direct deposit, in one transaction. -/
def mixedTx : DepositTx :=
  ⟨1, [.depositTo 1 2 3 4 7 100 100 0, .routerDeposit 5 [⟨7, 20, 20, 4000⟩, ⟨8, 30, 30, 6000⟩],
    .vaultDeposit 9 5 5 40 40]⟩

theorem mint_volume_exact_of_mixedTx :
    let t := (handleAll mintConfig (fun _ => none) [] (fun _ => none) .empty
      (placeLogs 5 id (depositLogs 50 60 [mixedTx]) 0)).tables
    mintVolumePerBlock t 5 = 190 ∧ mintVolumePerBlockForVault t 5 (addressBytes 7) = 120 := by
  intro t
  have hfresh : RowsBelow 5 0 LogState.empty.tables := by
    constructor <;> simp [LogState.empty, Tables.empty]
  obtain ⟨htotal, hvaults⟩ :=
    (@mint_volume_exact_iff mintConfig (fun _ => none) [] (fun _ => none) 5 50 60 [mixedTx] rfl
    (by decide) id strictMono_id .empty hfresh).2 ⟨by decide, by decide⟩
  exact ⟨htotal, hvaults 7⟩

/-- A gateway deposit into another vault is counted twice, once for each vault. -/
theorem mint_volume_doubled :
    let txs := [DepositTx.mk 1 [.depositTo 1 2 3 4 8 100 100 0]]
    let t := (handleAll mintConfig (fun _ => none) [] (fun _ => none) .empty
      (placeLogs 5 id (depositLogs 50 60 txs) 0)).tables
    sumOf Prod.snd (deposits 60 txs) = 100 ∧ mintVolumePerBlock t 5 = 200 ∧
      into 7 (deposits 60 txs) = 0 ∧ mintVolumePerBlockForVault t 5 (addressBytes 7) = 100 := by
  decide +kernel

end RobotMoney.Watchdog
