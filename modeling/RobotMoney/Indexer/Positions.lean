import RobotMoney.Basket.InKind
import RobotMoney.Indexer.Rollback

/-!
# Wallet positions

The newest row of `wallet_positions` of an owner is the sum of the `Deposit` and `Withdraw` events of the vault.  The
vaults have a third way to change a balance: `BasketVault.redeemInKind` burns shares and emits `RedeemedInKind` only,
which the indexer reads as a snapshot trigger.  So the positions follow the balances exactly as long as nothing is
redeemed in kind (`positions_match_iff`).

A history is told in share calls, which every vault has in common; `basketStep_refines` says that the calls of a basket
vault are such share calls.
-/

namespace RobotMoney.Indexer

open Evm SqlTable Basket List Function

variable {cfg : Config} {vaultOfExclusionLedger : Address → Option Address} {created : List (Word × Address)}
  {timestampOf : Nat → Option Int}

def rowsOf (positions : List PositionRow) (contract owner : Address) : List PositionRow :=
  positions.filter fun r => decide (r.contract = contract ∧ r.owner = owner)

def position (positions : List PositionRow) (contract owner : Address) : Nat :=
  (((rowsOf positions contract owner).argmax PositionRow.blockNumber).map PositionRow.shares).getD 0

/-- The rows as the logs before `pos` left them: one row a key, and no row ahead of `pos`. -/
structure RowsBefore (pos : Nat ×ₗ Nat) (positions : List PositionRow) : Prop where
  keys : (positions.map PositionRow.key).Nodup
  before : ∀ r ∈ positions, ∃ i, r.lastLogIndex = some i ∧ toLex (r.blockNumber, i) < pos

variable {positions : List PositionRow}

private theorem RowsBefore.mono {pos pos' : Nat ×ₗ Nat} (h : RowsBefore pos positions)
    (hle : pos ≤ pos') : RowsBefore pos' positions where
  keys := h.keys
  before := by
    intro r hr
    obtain ⟨i, hi, hlt⟩ := h.before r hr
    exact ⟨i, hi, hlt.trans_le hle⟩

def PositionDelta.pos (d : PositionDelta) : Nat ×ₗ Nat := toLex (d.blockNumber, d.logIndex)

variable {d : PositionDelta}

private theorem RowsBefore.block_le (h : RowsBefore d.pos positions)
    {r : PositionRow} (hr : r ∈ positions) : r.blockNumber ≤ d.blockNumber := by
  obtain ⟨i, -, hlt⟩ := h.before r hr
  simp only [PositionDelta.pos, Prod.Lex.toLex_lt_toLex] at hlt
  omega

private theorem RowsBefore.eq_of_key {pos : Nat ×ₗ Nat} (h : RowsBefore pos positions)
    {r r' : PositionRow} (hr : r ∈ positions) (hr' : r' ∈ positions) (hkey : r.key = r'.key) : r = r' :=
  inj_on_of_nodup_map h.keys hr hr' hkey

private theorem rowsBefore_nil (pos : Nat ×ₗ Nat) : RowsBefore pos [] := by
  constructor <;> simp

def PositionDelta.newRow (d : PositionDelta) (prior : Nat) : PositionRow :=
  ⟨d.contract, d.owner, d.blockNumber, d.apply prior, some d.logIndex⟩

def PositionDelta.updateRow (d : PositionDelta) (prior : Nat) (r : PositionRow) : PositionRow :=
  if r.key = d.key then { r with shares := d.apply prior, lastLogIndex := some d.logIndex } else r

@[simp] theorem PositionDelta.contract_updateRow (d : PositionDelta) (prior : Nat) (r : PositionRow) :
    (d.updateRow prior r).contract = r.contract := by
  unfold PositionDelta.updateRow
  split <;> rfl

@[simp] theorem PositionDelta.owner_updateRow (d : PositionDelta) (prior : Nat) (r : PositionRow) :
    (d.updateRow prior r).owner = r.owner := by
  unfold PositionDelta.updateRow
  split <;> rfl

@[simp] theorem PositionDelta.blockNumber_updateRow (d : PositionDelta) (prior : Nat) (r : PositionRow) :
    (d.updateRow prior r).blockNumber = r.blockNumber := by
  unfold PositionDelta.updateRow
  split <;> rfl

/-- The two ways in which a change in order is applied: to a new row over the newest one, or to the row of its block,
which is the newest one. -/
theorem applyWalletPositionDelta_cases (h : RowsBefore d.pos positions) : ((∀ r ∈ positions, r.key ≠ d.key) ∧
      applyWalletPositionDelta d positions = positions ++ [d.newRow (position positions d.contract d.owner)]) ∨
    (∃ row ∈ positions, row.key = d.key ∧ row.shares = position positions d.contract d.owner ∧
      applyWalletPositionDelta d positions = positions.map (d.updateRow row.shares)) := by
  cases hfind : positions.find? fun r => decide (r.key = d.key) with
  | none =>
    left
    have hnone : ∀ r ∈ positions, r.key ≠ d.key := by
      intro r hr
      simpa using find?_eq_none.1 hfind r hr
    refine ⟨hnone, ?_⟩
    -- no row of the block: the rows below it are all the rows
    have hbelow : positionBelow positions d.contract d.owner d.blockNumber =
        (rowsOf positions d.contract d.owner).argmax PositionRow.blockNumber := by
      unfold positionBelow rowsOf
      congr 1
      apply filter_congr
      intro r hr
      have hle := h.block_le hr
      have hkey := hnone r hr
      simp only [PositionRow.key, PositionDelta.key, ne_eq, Prod.mk.injEq, not_and] at hkey
      rw [decide_eq_decide]
      constructor
      · rintro ⟨hc, ho, -⟩
        exact ⟨hc, ho⟩
      · rintro ⟨hc, ho⟩
        have hne := hkey hc ho
        exact ⟨hc, ho, by omega⟩
    simp only [applyWalletPositionDelta, hfind, hbelow]
    rfl
  | some row =>
    right
    have hmem := mem_of_find?_eq_some hfind
    have hkey : row.key = d.key := by simpa using find?_some hfind
    obtain ⟨i, hi, hlt⟩ := h.before row hmem
    have hblock : row.blockNumber = d.blockNumber := congrArg (fun k => k.2.2) hkey
    have hcontract : row.contract = d.contract := congrArg (fun k => k.1) hkey
    have howner : row.owner = d.owner := congrArg (fun k => k.2.1) hkey
    refine ⟨row, hmem, hkey, ?_, ?_⟩
    · have hnewest : (rowsOf positions d.contract d.owner).argmax PositionRow.blockNumber = some row := by
        apply argmax_eq_of_newest
        · simp [rowsOf, hmem, hcontract, howner]
        · intro x hx hne
          simp only [rowsOf, mem_filter, decide_eq_true_eq] at hx
          obtain ⟨hx, hxc, hxo⟩ := hx
          have hle := h.block_le hx
          have hkey' : x.key ≠ row.key := fun heq => hne (h.eq_of_key hx hmem heq)
          simp only [PositionRow.key, hxc, hxo, hcontract, howner, ne_eq, Prod.mk.injEq, true_and] at hkey'
          omega
      simp [position, hnewest]
    · simp only [PositionDelta.pos, Prod.Lex.toLex_lt_toLex, hblock, lt_self_iff_false, true_and, false_or] at hlt
      simp only [applyWalletPositionDelta, hfind, hi]
      rw [if_neg (by omega)]
      rfl

/-- What a change does to the positions: it is applied to the position of its owner, and the others stay. -/
theorem position_applyWalletPositionDelta (h : RowsBefore d.pos positions) (contract owner : Address) :
    position (applyWalletPositionDelta d positions) contract owner =
      if contract = d.contract ∧ owner = d.owner then d.apply (position positions contract owner)
      else position positions contract owner := by
  obtain ⟨hnone, heq⟩ | ⟨row, hrow, hkey, hshares, heq⟩ := applyWalletPositionDelta_cases h
  · rw [heq]
    split
    · rename_i hpair
      obtain ⟨rfl, rfl⟩ := hpair
      have hnewest : (rowsOf (positions ++ [d.newRow (position positions d.contract d.owner)]) d.contract
        d.owner).argmax
          PositionRow.blockNumber = some (d.newRow (position positions d.contract d.owner)) := by
        have hown : (d.newRow (position positions d.contract d.owner)).contract = d.contract ∧
            (d.newRow (position positions d.contract d.owner)).owner = d.owner := ⟨rfl, rfl⟩
        simp only [rowsOf, filter_append, filter_cons, hown, and_self, decide_true, ↓reduceIte,
          filter_nil]
        apply argmax_append_of_newest
        intro x hx
        simp only [mem_filter, decide_eq_true_eq] at hx
        obtain ⟨hx, hxc, hxo⟩ := hx
        have hle := h.block_le hx
        have hne := hnone x hx
        simp only [PositionRow.key, PositionDelta.key, hxc, hxo, ne_eq, Prod.mk.injEq, true_and] at hne
        show x.blockNumber < d.blockNumber
        omega
      rw [position, hnewest]
      rfl
    rename_i hpair
    have hrows : rowsOf (positions ++ [d.newRow (position positions d.contract d.owner)]) contract owner =
        rowsOf positions contract owner := by
      have hother : ¬(d.contract = contract ∧ d.owner = owner) := fun ⟨hc, ho⟩ => hpair ⟨hc.symm, ho.symm⟩
      simp [rowsOf, filter_append, PositionDelta.newRow, hother]
    rw [position, hrows]
    rfl
  have hcontract : row.contract = d.contract := congrArg (fun k => k.1) hkey
  have howner : row.owner = d.owner := congrArg (fun k => k.2.1) hkey
  have hblock : row.blockNumber = d.blockNumber := congrArg (fun k => k.2.2) hkey
  rw [heq]
  split
  · rename_i hpair
    obtain ⟨rfl, rfl⟩ := hpair
    have hnewest : (rowsOf (positions.map (d.updateRow row.shares)) d.contract d.owner).argmax
        PositionRow.blockNumber = some (d.updateRow row.shares row) := by
      apply argmax_eq_of_newest
      · simp only [rowsOf, mem_filter, mem_map, decide_eq_true_eq]
        exact ⟨⟨row, hrow, rfl⟩, by simpa using hcontract, by simpa using howner⟩
      · intro x hx hne
        simp only [rowsOf, mem_filter, mem_map, decide_eq_true_eq] at hx
        obtain ⟨⟨y, hy, rfl⟩, hyc, hyo⟩ := hx
        simp only [PositionDelta.contract_updateRow, PositionDelta.owner_updateRow] at hyc hyo
        -- the only row of the key is the updated one
        have hykey : y.key ≠ row.key := fun heq' => hne (by rw [h.eq_of_key hy hrow heq'])
        have hle := h.block_le hy
        simp only [PositionRow.key, hyc, hyo, hcontract, howner, ne_eq, Prod.mk.injEq, true_and] at hykey
        simp only [PositionDelta.blockNumber_updateRow]
        omega
    rw [position, hnewest, ← hshares]
    simp [PositionDelta.updateRow, hkey]
  rename_i hpair
  have hrows : rowsOf (positions.map (d.updateRow row.shares)) contract owner = rowsOf positions contract owner := by
    have hfix : ∀ r ∈ rowsOf positions contract owner, d.updateRow row.shares r = r := by
      intro r hr
      simp only [rowsOf, mem_filter, decide_eq_true_eq] at hr
      apply if_neg
      intro hr'
      have hc : r.contract = d.contract := congrArg (fun k => k.1) hr'
      have ho : r.owner = d.owner := congrArg (fun k => k.2.1) hr'
      exact hpair ⟨hr.2.1.symm.trans hc, hr.2.2.symm.trans ho⟩
    have hsame : ((fun r : PositionRow => decide (r.contract = contract ∧ r.owner = owner)) ∘
        d.updateRow row.shares) = fun r => decide (r.contract = contract ∧ r.owner = owner) := by
      funext r
      simp
    rw [rowsOf, filter_map, hsame]
    conv_rhs => rw [← map_id (rowsOf positions contract owner)]
    exact map_congr_left hfix
  rw [position, hrows]
  rfl

private theorem RowsBefore.apply (h : RowsBefore d.pos positions)
    {pos : Nat ×ₗ Nat} (hlt : d.pos < pos) : RowsBefore pos (applyWalletPositionDelta d positions) := by
  obtain ⟨hnone, heq⟩ | ⟨row, -, -, -, heq⟩ := applyWalletPositionDelta_cases h
  · rw [heq]
    constructor
    · rw [map_append, nodup_append]
      refine ⟨h.keys, by simp, ?_⟩
      intro k hk k' hk' heq'
      obtain ⟨r, hr, rfl⟩ := mem_map.1 hk
      rw [map_singleton, mem_singleton] at hk'
      exact hnone r hr (heq'.trans hk')
    · intro r hr
      rw [mem_append, mem_singleton] at hr
      obtain hr | rfl := hr
      · exact (h.mono hlt.le).before r hr
      · exact ⟨d.logIndex, rfl, hlt⟩
  rw [heq]
  constructor
  · have hkeys : (positions.map (d.updateRow row.shares)).map PositionRow.key = positions.map PositionRow.key := by
      rw [map_map]
      apply map_congr_left
      intro r hr
      simp [PositionRow.key]
    rw [hkeys]
    exact h.keys
  · intro r hr
    obtain ⟨y, hy, rfl⟩ := mem_map.1 hr
    rw [PositionDelta.blockNumber_updateRow]
    by_cases hykey : y.key = d.key
    · have hyblock : y.blockNumber = d.blockNumber := congrArg (fun k => k.2.2) hykey
      refine ⟨d.logIndex, by simp [PositionDelta.updateRow, hykey], ?_⟩
      rw [hyblock]
      exact hlt
    have hfix : d.updateRow row.shares y = y := if_neg hykey
    rw [hfix]
    exact (h.mono hlt.le).before y hy

/-- The change that a log makes to the positions: only `Deposit` and `Withdraw` make one. -/
def positionDelta (log : LogEntry) : Option PositionDelta :=
  match log.event with
  | .deposit _ owner _ shares =>
    some ⟨log.address, owner, log.place.blockNumber, log.place.logIndex, shares, true⟩
  | .withdraw _ _ owner _ shares =>
    some ⟨log.address, owner, log.place.blockNumber, log.place.logIndex, shares, false⟩
  | _ => none

private theorem positionDelta_pos {log : LogEntry} (h : positionDelta log = some d) : d.pos = log.place.pos := by
  unfold positionDelta at h
  split at h <;> simp only [Option.some.injEq, reduceCtorEq] at h <;> subst h <;> rfl

private theorem positions_execAll {sts : List Statement} (h : ∀ d, .walletPosition d ∉ sts) (s : LogState) :
    (execAll timestampOf s sts).tables.positions = s.tables.positions := by
  induction sts generalizing s with
  | nil => rfl
  | cons st sts ih =>
    have hrest := ih (fun d hd => h d (mem_cons_of_mem _ hd)) (st.exec timestampOf s)
    have hone : (st.exec timestampOf s).tables.positions = s.tables.positions := by
      cases st with
      | walletPosition d => exact (h d mem_cons_self).elim
      | _ => rfl
    exact hrest.trans hone

private theorem position_notMem_handleGatewayLog (log : LogEntry) (d : PositionDelta) :
    .walletPosition d ∉ handleGatewayLog cfg log := by
  unfold handleGatewayLog
  split <;> simp

private theorem position_notMem_handleAdminLog (log : LogEntry) (d : PositionDelta) :
    .walletPosition d ∉ handleAdminLog cfg created log := by
  unfold handleAdminLog
  split
  · simp
  simp only [mem_cons, reduceCtorEq, false_or]
  split <;> simp

private theorem positions_handleLog (s : LogState) (log : LogEntry) :
    (execAll timestampOf s (handleLog cfg vaultOfExclusionLedger created log)).tables.positions =
      match positionDelta log with
      | some d => applyWalletPositionDelta d s.tables.positions
      | none => s.tables.positions := by
  cases hevent : log.event
  case deposit caller owner assets shares =>
    simp [positionDelta, handleLog, hevent, execAll, Statement.exec, Statement.execTables]
  case withdraw caller receiver owner assets shares =>
    simp [positionDelta, handleLog, hevent, execAll, Statement.exec, Statement.execTables]
  all_goals
    simp only [positionDelta, hevent]
    apply positions_execAll
    intro d
    simp only [handleLog, hevent]
  case agentDeposit | agentDepositRouted | agentWithdrawal | agentAuthorized | agentOwnershipTransferred
    | agentRevoked =>
    split
    · exact position_notMem_handleGatewayLog log d
    · simp
  case callScheduled | callExecuted | cancelled | minDelayChange | safeExecution | safeOwner | safeChangedThreshold |
      upgraded | upgradesFrozen => exact position_notMem_handleAdminLog log d
  case receiptRecorded | receiptReleased => split <;> simp
  case exclusionOpened | exclusionRecoveryCredited | exclusionFinalized | exclusionClaimed => split <;> simp
  all_goals simp

/-- The shares of a vault, with the supply that `_mint` checks. -/
structure ShareLedger where
  balance : Balances
  totalSupply : Nat
  supply_eq : ∑ a, balance a = totalSupply
  supply_lt : totalSupply < wordSize

inductive ShareError where
  | invalidReceiver
  | invalidSender
  | insufficientBalance
  | panic (p : Panic)
  deriving DecidableEq, Repr

/-- The calls of a vault that mint and burn shares, with the amounts the vault works out.  Whether the caller may make
the call is up to the vault. -/
inductive ShareCall where
  /-- `deposit` and `mint`. -/
  | deposit (caller receiver : Address) (assets shares : Nat)
  /-- `withdraw` and `redeem`. -/
  | withdraw (caller receiver owner : Address) (assets shares : Nat)
  | redeemInKind (receiver owner : Address) (shares : Nat)
  deriving DecidableEq, Repr

namespace ShareLedger

private theorem sum_empty : ∑ _ : Address, 0 = 0 := by simp

def empty : ShareLedger where
  balance := fun _ => 0
  totalSupply := 0
  supply_eq := sum_empty
  supply_lt := by decide

def mint (l : ShareLedger) (account : Address) (value : Nat) : Except ShareError ShareLedger :=
  if account = 0 then .error .invalidReceiver
  else if h : l.totalSupply + value < wordSize then
    .ok
      { balance := update l.balance account (l.balance account + value)
        totalSupply := l.totalSupply + value
        supply_eq := by
          have hsum := sum_update_add l.balance account (l.balance account + value)
          have hold := l.supply_eq
          omega
        supply_lt := h }
  else .error (.panic .arithmetic)

def burn (l : ShareLedger) (account : Address) (value : Nat) : Except ShareError ShareLedger :=
  if account = 0 then .error .invalidSender
  else if h : value ≤ l.balance account then
    .ok
      { balance := update l.balance account (l.balance account - value)
        totalSupply := l.totalSupply - value
        supply_eq := by
          have hsum := sum_update_add l.balance account (l.balance account - value)
          have hold := l.supply_eq
          omega
        supply_lt := by
          have hold := l.supply_lt
          omega }
  else .error .insufficientBalance

variable {l l' : ShareLedger} {account : Address} {value : Nat}

private theorem mint_eq_ok : l.mint account value = .ok l' ↔
    account ≠ 0 ∧ l.totalSupply + value < wordSize ∧ l'.totalSupply = l.totalSupply + value ∧
      l'.balance = update l.balance account (l.balance account + value) := by
  unfold mint
  split
  · simp_all
  split
  · cases l'
    simp_all [eq_comm, and_comm]
  · simp_all

private theorem burn_eq_ok : l.burn account value = .ok l' ↔
    account ≠ 0 ∧ value ≤ l.balance account ∧ l'.totalSupply = l.totalSupply - value ∧
      l'.balance = update l.balance account (l.balance account - value) := by
  unfold burn
  split
  · simp_all
  split
  · cases l'
    simp_all [eq_comm, and_comm]
  · simp_all

private theorem balance_lt (l : ShareLedger) (account : Address) : l.balance account < wordSize := by
  have hle : l.balance account ≤ ∑ a, l.balance a :=
    Finset.single_le_sum (fun a _ => Nat.zero_le (l.balance a)) (Finset.mem_univ account)
  have hsupply := l.supply_eq
  have hlt := l.supply_lt
  omega

end ShareLedger

def shareStep (l : ShareLedger) : ShareCall → Except ShareError ShareLedger
  | .deposit _ receiver _ shares => l.mint receiver shares
  | .withdraw _ _ owner _ shares => l.burn owner shares
  | .redeemInKind _ owner shares => l.burn owner shares

def ShareCall.event : ShareCall → Event
  | .deposit caller receiver assets shares => .deposit caller receiver assets shares
  | .withdraw caller receiver owner assets shares => .withdraw caller receiver owner assets shares
  | .redeemInKind receiver owner shares => .redeemedInKind owner receiver shares

/-- A call of a basket vault, with the market, the venues and the gas it meets. -/
inductive BasketCall where
  | deposit (m : Market) (venue : SwapVenue) (caller receiver : Address) (assets : Nat)
  | mint (m : Market) (venue : SwapVenue) (caller receiver : Address) (shares : Nat)
  | redeem (m : Market) (venue : SwapVenue) (gas : Nat) (caller : Address) (shares : Nat) (receiver owner : Address)
  | redeemInKind (gas : Nat) (caller : Address) (shares : Nat) (receiver owner : Address)

def basketStep (v : BasketVault) : BasketCall → Except BasketError (BasketVault × ShareCall)
  | .deposit m venue caller receiver assets => do
    let (v', minted) ← v.deposit m venue caller receiver assets
    .ok (v', .deposit caller receiver assets minted)
  | .mint m venue caller receiver shares => do
    let assets ← v.previewMint m shares
    let (v', minted) ← v.mint m venue caller receiver shares
    .ok (v', .deposit caller receiver assets minted)
  | .redeem m venue gas caller shares receiver owner => do
    let (v', net) ← v.redeem m venue gas caller shares receiver owner
    .ok (v', .withdraw caller receiver owner net shares)
  | .redeemInKind gas caller shares receiver owner => do
    let (v', _) ← v.redeemInKind gas caller shares receiver owner
    .ok (v', .redeemInKind receiver owner shares)

def SharesOf (v : BasketVault) (l : ShareLedger) : Prop := l.balance = v.shares ∧ l.totalSupply = v.totalSupply

variable {v v' : BasketVault}

private theorem exists_mint {l : ShareLedger} {receiver : Address} {amount : Nat} (hl : SharesOf v l)
    (h : v.Mints v' receiver amount) : ∃ l', l.mint receiver amount = .ok l' ∧ SharesOf v' l' := by
  obtain ⟨hbalance, hsupply⟩ := hl
  obtain ⟨hreceiver, hlt, hsupply', hshares'⟩ := h
  rw [← hsupply] at hlt hsupply'
  rw [← hbalance] at hshares'
  exact ⟨⟨v'.shares, v'.totalSupply, v'.supply_eq, by omega⟩,
    ShareLedger.mint_eq_ok.2 ⟨hreceiver, hlt, hsupply', hshares'⟩, rfl, rfl⟩

private theorem exists_burn {l : ShareLedger} {owner : Address} {amount : Nat} (hl : SharesOf v l)
    (h : v.Burns v' owner amount) : ∃ l', l.burn owner amount = .ok l' ∧ SharesOf v' l' := by
  obtain ⟨hbalance, hsupply⟩ := hl
  obtain ⟨howner, hle, hsupply', hshares'⟩ := h
  rw [← hsupply] at hsupply'
  rw [← hbalance] at hle hshares'
  have hlt := l.supply_lt
  exact ⟨⟨v'.shares, v'.totalSupply, v'.supply_eq, by omega⟩,
    ShareLedger.burn_eq_ok.2 ⟨howner, hle, hsupply', hshares'⟩, rfl, rfl⟩

theorem basketStep_refines {l : ShareLedger} {c : BasketCall} {sc : ShareCall} (hl : SharesOf v l)
    (h : basketStep v c = .ok (v', sc)) : ∃ l', shareStep l sc = .ok l' ∧ SharesOf v' l' := by
  cases c with
  | deposit m venue caller receiver assets =>
    simp only [basketStep, bind_eq_ok, Except.ok.injEq, Prod.mk.injEq] at h
    obtain ⟨⟨v₁, minted⟩, hdeposit, rfl, rfl⟩ := h
    simp only [BasketVault.deposit, bind_eq_ok] at hdeposit
    obtain ⟨-, -, limit, -, -, -, -, -, hdeposit⟩ := hdeposit
    exact exists_mint hl (BasketVault.mints_internalDeposit hdeposit)
  | mint m venue caller receiver shares =>
    simp only [basketStep, bind_eq_ok, Except.ok.injEq, Prod.mk.injEq] at h
    obtain ⟨assets, -, ⟨v₁, minted⟩, hmint, rfl, rfl⟩ := h
    simp only [BasketVault.mint, bind_eq_ok] at hmint
    obtain ⟨-, -, -, -, limit, -, -, -, assets', -, hmint⟩ := hmint
    exact exists_mint hl (BasketVault.mints_internalDeposit hmint)
  | redeem m venue gas caller shares receiver owner =>
    simp only [basketStep, bind_eq_ok, Except.ok.injEq, Prod.mk.injEq] at h
    obtain ⟨⟨v₁, net⟩, hredeem, rfl, rfl⟩ := h
    simp only [BasketVault.redeem, bind_eq_ok] at hredeem
    obtain ⟨-, -, -, -, -, -, -, -, hredeem⟩ := hredeem
    exact exists_burn hl (BasketVault.burns_internalWithdraw hredeem)
  | redeemInKind gas caller shares receiver owner =>
    simp only [basketStep, bind_eq_ok, Except.ok.injEq, Prod.mk.injEq] at h
    obtain ⟨⟨v₁, payments⟩, hredeem, rfl, rfl⟩ := h
    exact exists_burn hl (BasketVault.burns_redeemInKind hredeem)

/-- What happens on the chain, in order: a call of a vault, or a log that is neither a `Deposit` nor a `Withdraw`. -/
inductive Activity where
  | call (vault : Address) (place : LogPlace) (c : ShareCall)
  | other (log : LogEntry)

def Activity.place : Activity → LogPlace
  | .call _ place _ => place
  | .other log => log.place

def Activity.logs (vaults : Address → ShareLedger) : Activity → List LogEntry
  | .call vault place c =>
    match shareStep (vaults vault) c with
    | .ok _ => [⟨vault, place, c.event⟩]
    | .error _ => []
  | .other log => [log]

def Activity.exec (vaults : Address → ShareLedger) : Activity → Address → ShareLedger
  | .call vault _ c => update vaults vault (Evm.exec shareStep (vaults vault) c)
  | .other _ => vaults

def sharesAfter (history : List Activity) : Address → ShareLedger :=
  history.foldl Activity.exec fun _ => .empty

def logsFrom (vaults : Address → ShareLedger) : List Activity → List LogEntry
  | [] => []
  | a :: history => a.logs vaults ++ logsFrom (a.exec vaults) history

def logsOf (history : List Activity) : List LogEntry := logsFrom (fun _ => .empty) history

/-- The history is in chain order, and its other logs are other logs. -/
structure InOrder (history : List Activity) : Prop where
  order : history.Pairwise fun a b => a.place.pos < b.place.pos
  other : ∀ log, .other log ∈ history → positionDelta log = none

/-- `wallet_positions` after the indexer has handled the logs of a history. -/
def positionsAfter (cfg : Config) (vaultOfExclusionLedger : Address → Option Address) (created : List (Word × Address))
    (timestampOf : Nat → Option Int) (history : List Activity) : List PositionRow :=
  (handleAll cfg vaultOfExclusionLedger created timestampOf .empty (logsOf history)).tables.positions

private theorem sharesAfter_append (history : List Activity) (a : Activity) :
    sharesAfter (history ++ [a]) = a.exec (sharesAfter history) := by
  simp [sharesAfter]

private theorem logsFrom_append (vaults : Address → ShareLedger) (history : List Activity) (a : Activity) :
    logsFrom vaults (history ++ [a]) = logsFrom vaults history ++ a.logs (history.foldl Activity.exec vaults) := by
  induction history generalizing vaults with
  | nil => simp [logsFrom]
  | cons b history ih => simp [logsFrom, ih]

private theorem logsOf_append (history : List Activity) (a : Activity) :
    logsOf (history ++ [a]) = logsOf history ++ a.logs (sharesAfter history) :=
  logsFrom_append ..

variable {history : List Activity}

private theorem InOrder.left {rest : List Activity} (h : InOrder (history ++ rest)) : InOrder history where
  order := (pairwise_append.1 h.order).1
  other := fun log hlog => h.other log (mem_append_left _ hlog)

variable {a : Activity}

theorem InOrder.pos_lt {b : Activity} (h : InOrder (history ++ [a])) (hb : b ∈ history) : b.place.pos < a.place.pos :=
  (pairwise_append.1 h.order).2.2 b hb a (mem_singleton_self a)

private theorem logs_cases (vaults : Address → ShareLedger) (a : Activity) :
    a.logs vaults = [] ∨ ∃ l, a.logs vaults = [l] ∧ l.place = a.place := by
  cases a with
  | call vault place c =>
    simp only [Activity.logs]
    split
    · exact .inr ⟨_, rfl, rfl⟩
    · exact .inl rfl
  | other log => exact .inr ⟨log, rfl, rfl⟩

private theorem positionsAfter_append (history : List Activity) (a : Activity) :
    positionsAfter cfg vaultOfExclusionLedger created timestampOf (history ++ [a]) =
      match (a.logs (sharesAfter history)).head?.bind positionDelta with
      | some d => applyWalletPositionDelta d (positionsAfter cfg vaultOfExclusionLedger created timestampOf history)
      | none => positionsAfter cfg vaultOfExclusionLedger created timestampOf history := by
  obtain hlogs | ⟨l, hlogs, -⟩ := logs_cases (sharesAfter history) a
  · simp [positionsAfter, logsOf_append, hlogs]
  simp only [positionsAfter, logsOf_append, hlogs, head?_cons, Option.bind_some, handleAll_append,
    positions_handleLog]

theorem rowsBefore_positionsAfter (h : InOrder history) {pos : Nat ×ₗ Nat} (hpos : ∀ a ∈ history, a.place.pos < pos) :
    RowsBefore pos (positionsAfter cfg vaultOfExclusionLedger created timestampOf history) := by
  induction history using reverseRecOn generalizing pos with
  | nil => exact rowsBefore_nil pos
  | append_singleton history a ih =>
    have hbefore := ih h.left fun b hb => hpos b (mem_append_left _ hb)
    have hself := ih h.left (fun b hb => h.pos_lt hb)
    rw [positionsAfter_append]
    split
    · rename_i d hd
      obtain hlogs | ⟨l, hlogs, hplace⟩ := logs_cases (sharesAfter history) a
      · simp [hlogs] at hd
      simp only [hlogs, head?_cons, Option.bind_some] at hd
      have hd' : d.pos = a.place.pos := by rw [positionDelta_pos hd, hplace]
      rw [← hd'] at hself
      apply hself.apply
      rw [hd']
      exact hpos a (by simp)
    · exact hbefore

def Matches (cfg : Config) (vaultOfExclusionLedger : Address → Option Address) (created : List (Word × Address))
    (timestampOf : Nat → Option Int) (history : List Activity) : Prop :=
  ∀ vault owner, position (positionsAfter cfg vaultOfExclusionLedger created timestampOf history) vault owner =
    (sharesAfter history vault).balance owner

def RedeemsInKind (vaults : Address → ShareLedger) (a : Activity) : Prop :=
  ∃ vault place receiver owner shares l, a = .call vault place (.redeemInKind receiver owner shares) ∧
    shareStep (vaults vault) (.redeemInKind receiver owner shares) = .ok l ∧ 0 < shares

private theorem logs_of_ok {vaults : Address → ShareLedger} {vault : Address} {place : LogPlace} {c : ShareCall}
    {l : ShareLedger}
    (h : shareStep (vaults vault) c = .ok l) :
    (Activity.call vault place c).logs vaults = [⟨vault, place, c.event⟩] := by
  simp [Activity.logs, h]

private theorem exec_of_step {vaults : Address → ShareLedger} {vault : Address} {place : LogPlace} {c : ShareCall}
    {l : ShareLedger}
    (h : shareStep (vaults vault) c = .ok l) :
    (Activity.call vault place c).exec vaults = update vaults vault l := by
  simp [Activity.exec, Evm.exec_of_ok h]

private theorem Matches.of_eq (h : Matches cfg vaultOfExclusionLedger created timestampOf history)
    (hdelta : (a.logs (sharesAfter history)).head?.bind positionDelta = none)
    (hbalance : ∀ vault, (a.exec (sharesAfter history) vault).balance = (sharesAfter history vault).balance) :
    Matches cfg vaultOfExclusionLedger created timestampOf (history ++ [a]) := by
  intro vault owner
  simp only [positionsAfter_append, hdelta, sharesAfter_append, hbalance]
  exact h vault owner

private theorem Matches.of_delta {l : ShareLedger}
    (hh : InOrder (history ++ [a])) (h : Matches cfg vaultOfExclusionLedger created timestampOf history)
    (hdelta : (a.logs (sharesAfter history)).head?.bind positionDelta = some d) (hpos : d.pos = a.place.pos)
    (hexec : a.exec (sharesAfter history) = update (sharesAfter history) d.contract l)
    (hbalance : l.balance = update (sharesAfter history d.contract).balance d.owner
      (d.apply ((sharesAfter history d.contract).balance d.owner))) :
    Matches cfg vaultOfExclusionLedger created timestampOf (history ++ [a]) := by
  intro vault owner
  have hrows : RowsBefore d.pos (positionsAfter cfg vaultOfExclusionLedger created timestampOf history) := by
    rw [hpos]
    exact rowsBefore_positionsAfter hh.left fun b hb => hh.pos_lt hb
  simp only [positionsAfter_append, hdelta, sharesAfter_append, hexec]
  rw [position_applyWalletPositionDelta hrows, h vault owner]
  rcases eq_or_ne vault d.contract with rfl | hvault
  · rw [update_self, hbalance]
    rcases eq_or_ne owner d.owner with rfl | howner
    · simp
    · simp [howner]
  · simp [hvault]

/-- Every activity but a redemption in kind keeps the positions equal to the balances. -/
theorem Matches.append (hh : InOrder (history ++ [a]))
    (h : Matches cfg vaultOfExclusionLedger created timestampOf history)
    (hkind : ¬RedeemsInKind (sharesAfter history) a) :
    Matches cfg vaultOfExclusionLedger created timestampOf (history ++ [a]) := by
  cases a with
  | other log =>
    have hnone := hh.other log (by simp)
    exact h.of_eq (by simp [Activity.logs, hnone]) fun vault => rfl
  | call vault place c =>
    cases hstep : shareStep (sharesAfter history vault) c with
    | error e =>
      have hsame : (Activity.call vault place c).exec (sharesAfter history) = sharesAfter history := by
        simp [Activity.exec, Evm.exec_of_error hstep]
      exact h.of_eq (by simp [Activity.logs, hstep]) fun vault' => by rw [hsame]
    | ok l =>
      have hlogs := @logs_of_ok _ _ place _ _ hstep
      have hexec := @exec_of_step _ _ place _ _ hstep
      cases c with
      | deposit caller receiver assets shares =>
        obtain ⟨-, -, -, hbalance⟩ := ShareLedger.mint_eq_ok.1 hstep
        apply h.of_delta hh (by rw [hlogs]; rfl) rfl hexec
        -- the supply bounds the balance, so the sum is not capped
        have hlt := l.balance_lt receiver
        rw [hbalance, update_self] at hlt
        rw [hbalance]
        simp only [PositionDelta.apply, u256Max, ↓reduceIte]
        rw [Nat.min_eq_left]
        unfold wordSize at hlt
        omega
      | withdraw caller receiver owner assets shares =>
        obtain ⟨-, -, -, hbalance⟩ := ShareLedger.burn_eq_ok.1 hstep
        exact h.of_delta hh (by rw [hlogs]; rfl) rfl hexec hbalance
      | redeemInKind receiver owner shares =>
        obtain ⟨-, -, -, hbalance⟩ := ShareLedger.burn_eq_ok.1 hstep
        have hzero : shares = 0 := by
          by_contra hne
          exact hkind ⟨vault, place, receiver, owner, shares, l, rfl, hstep, Nat.pos_of_ne_zero hne⟩
        apply h.of_eq
        · rw [hlogs]
          rfl
        · intro vault'
          rw [hexec]
          rcases eq_or_ne vault' vault with rfl | hne
          · rw [update_self, hbalance, hzero]
            simp
          · rw [update_of_ne hne]

private theorem not_matches_of_redeemsInKind (h : Matches cfg vaultOfExclusionLedger created timestampOf history)
    (hkind : RedeemsInKind (sharesAfter history) a) :
    ¬Matches cfg vaultOfExclusionLedger created timestampOf (history ++ [a]) := by
  obtain ⟨vault, place, receiver, owner, shares, l, rfl, hstep, hpos⟩ := hkind
  intro hmatch
  have hlogs := @logs_of_ok _ _ place _ _ hstep
  have hexec := @exec_of_step _ _ place _ _ hstep
  obtain ⟨-, hle, -, hbalance⟩ := ShareLedger.burn_eq_ok.1 hstep
  have hbefore := h vault owner
  have hafter := hmatch vault owner
  have hdelta : ((Activity.call vault place (.redeemInKind receiver owner shares)).logs
      (sharesAfter history)).head?.bind positionDelta = none := by
    rw [hlogs]
    rfl
  simp only [positionsAfter_append, hdelta, sharesAfter_append, hexec, update_self, hbalance] at hafter
  omega

/-- Positions and balances agree all along a history exactly if nothing is redeemed in kind. -/
theorem positions_match_iff (cfg : Config) (vaultOfExclusionLedger : Address → Option Address)
    (created : List (Word × Address)) (timestampOf : Nat → Option Int) (history : List Activity)
    (hh : InOrder history) :
    (∀ pre, pre <+: history → ∀ vault owner,
      position (positionsAfter cfg vaultOfExclusionLedger created timestampOf pre) vault owner =
        (sharesAfter pre vault).balance owner) ↔
      ∀ pre a, pre ++ [a] <+: history → ¬RedeemsInKind (sharesAfter pre) a := by
  constructor
  · intro hmatch pre a hpre hkind
    have hbefore : Matches cfg vaultOfExclusionLedger created timestampOf pre :=
      hmatch pre ((prefix_append pre [a]).trans hpre)
    exact not_matches_of_redeemsInKind hbefore hkind (hmatch (pre ++ [a]) hpre)
  · intro hkind pre hpre
    induction pre using reverseRecOn with
    | nil =>
      intro vault owner
      rfl
    | append_singleton pre a ih =>
      have hbefore := ih ((prefix_append pre [a]).trans hpre)
      have horder : InOrder (pre ++ [a]) := by
        obtain ⟨rest, rfl⟩ := hpre
        exact hh.left
      exact Matches.append horder hbefore (hkind pre a hpre)

def sampleHistory : List Activity :=
  [.call 7 ⟨10, 0, 1⟩ (.deposit 5 5 100 40), .call 7 ⟨10, 2, 2⟩ (.deposit 6 5 30 10),
    .call 7 ⟨11, 1, 3⟩ (.withdraw 5 5 5 45 20)]

private theorem inOrder_sampleHistory : InOrder sampleHistory where
  order := by
    simp only [sampleHistory, Activity.place, LogPlace.pos]
    decide
  other := by simp [sampleHistory]

theorem positions_match_of_sampleHistory : InOrder sampleHistory ∧
    ∀ pre, pre <+: sampleHistory → ∀ vault owner,
      position (positionsAfter sampleConfig (fun _ => none) [] (fun _ => none) pre) vault owner =
        (sharesAfter pre vault).balance owner := by
  refine ⟨inOrder_sampleHistory, (positions_match_iff _ _ _ _ _ inOrder_sampleHistory).2 ?_⟩
  rintro pre a hpre ⟨vault, place, receiver, owner, shares, l, rfl, -, -⟩
  have hmem := hpre.subset (mem_append_right _ (mem_singleton_self _))
  simp [sampleHistory] at hmem

/-- Ten shares, all redeemed in kind: the position stays. -/
theorem position_after_redeemInKind :
    InOrder [.call 7 ⟨10, 0, 1⟩ (.deposit 5 5 100 10), .call 7 ⟨11, 0, 2⟩ (.redeemInKind 5 5 10)] ∧
    position (positionsAfter sampleConfig (fun _ => none) [] (fun _ => none)
      [.call 7 ⟨10, 0, 1⟩ (.deposit 5 5 100 10), .call 7 ⟨11, 0, 2⟩ (.redeemInKind 5 5 10)]) 7 5 = 10 ∧
    (sharesAfter [.call 7 ⟨10, 0, 1⟩ (.deposit 5 5 100 10), .call 7 ⟨11, 0, 2⟩ (.redeemInKind 5 5 10)] 7).balance
      5 = 0 := by
  refine ⟨⟨?_, by simp⟩, by decide +kernel, by decide +kernel⟩
  simp only [Activity.place, LogPlace.pos]
  decide

end RobotMoney.Indexer
