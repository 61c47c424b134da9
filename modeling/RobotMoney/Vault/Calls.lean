import RobotMoney.Vault.Ops

/-!
# The entry points of the vault

The ERC-4626 flows, the levers of governance and of the emergency key, and the step function of the whole system: a
transaction is a call of the vault, or the outside world moving on.
-/

namespace RobotMoney

open Evm Function

namespace Vault

variable {σ : Type} (d : Deployment) (env : Outside σ)

def onlyRole (s : Vault σ) (role : VaultRole) (sender : Address) : Except Revert Unit :=
  revertIf (s.hasRole role sender = false) .unauthorized

/-- `_depositAt`: `nav` is the net asset value before `assets` moves into the vault. -/
def depositAt (s : Vault σ) (caller receiver : Address) (assets shares nav : Nat) : Except Revert (Vault σ) := do
  revertIf (s.shutdown = true) .vaultShutdown
  revertIf (s.retired = true) .vaultRetired
  revertIf (s.perDepositCap < assets) .perDepositCapExceeded
  let totalAfter ← add nav assets
  revertIf (s.tvlCap < totalAfter) .tvlCapExceeded
  revertIf (s.activeCount = 0) .noActiveAdapters
  let usdc ← moveUsdc s.book.usdc caller d.vault assets
  let book ← { s.book with usdc := usdc }.mint d receiver shares
  { s with book := book }.routeDeposit d env assets totalAfter

def deposit (s : Vault σ) (caller : Address) (assets : Nat) (receiver : Address) : Except Revert (Nat × Vault σ) := do
  revertIf (s.depositsPaused = true) .depositsArePaused
  let nav ← s.totalAssets d env
  let maxAssets ← s.maxDepositAt d env nav
  revertIf (maxAssets < assets) (.exceededMaxDeposit receiver assets maxAssets)
  let supply ← add s.book.totalSupply virtualShares
  let nav' ← add nav 1
  let shares ← mulDiv .floor assets supply nav'
  let s ← s.depositAt d env caller receiver assets shares nav
  .ok (shares, s)

def mint (s : Vault σ) (caller : Address) (shares : Nat) (receiver : Address) : Except Revert (Nat × Vault σ) := do
  revertIf (s.depositsPaused = true) .depositsArePaused
  let maxShares ← s.maxMint d env
  revertIf (maxShares < shares) (.exceededMaxMint receiver shares maxShares)
  let assets ← s.previewMint d env shares
  let nav ← s.totalAssets d env
  let s ← s.depositAt d env caller receiver assets shares nav
  .ok (assets, s)

def approve (s : Vault σ) (owner spender : Address) (value : Nat) : Except Revert (Vault σ) := do
  revertIf (owner = 0) (.share .invalidApprover)
  revertIf (spender = 0) (.share .invalidSpender)
  let allowance := update s.allowance owner (update (s.allowance owner) spender value)
  .ok { s with allowance := allowance }

/-- `_spendAllowance`: an allowance of `type(uint256).max` is never spent. -/
def spendAllowance (s : Vault σ) (owner spender : Address) (value : Nat) : Except Revert (Vault σ) :=
  if s.allowance owner spender = maxUint then .ok s
  else do
    revertIf (s.allowance owner spender < value)
      (.share (.insufficientAllowance spender (s.allowance owner spender) value))
    s.approve owner spender (s.allowance owner spender - value)

/-- `_pullProportional`: idle USDC first, the rest from the counted adapters; the result is what was realised. -/
def pullProportional (s : Vault σ) (needed : Nat) : Except Revert (Nat × Vault σ) :=
  if needed = 0 then .ok (0, s)
  else if needed ≤ s.idle d then .ok (needed, s)
  else do
    let (pulled, s') ← s.pullFromAdapters d env (needed - s.idle d)
    let realized ← add (s.idle d) pulled
    .ok (min realized needed, s')

/-- The payouts at the end of `_withdraw`: the fee, if any, then the assets. -/
def payOut (s : Vault σ) (receiver : Address) (assets fee : Nat) : Except Revert (Vault σ) := do
  let usdc ← (if 0 < fee then moveUsdc s.book.usdc d.vault s.feeRecipient fee else .ok s.book.usdc)
  let usdc ← moveUsdc usdc d.vault receiver assets
  .ok { s with book := { s.book with usdc := usdc } }

def zeroPayoutGuard (s : Vault σ) (gross shares : Nat) : Except Revert Unit :=
  if gross = 0 ∧ shares ≠ 0 then do
    let blocked ← s.anyActiveBlocked d env false
    revertIf (blocked = true) .zeroPayoutDuringExclusion
  else .ok ()

/-- `_withdraw`. -/
def withdrawAt (s : Vault σ) (caller receiver owner : Address) (assets shares : Nat) : Except Revert (Vault σ) := do
  let s ← (if caller ≠ owner then s.spendAllowance owner caller shares else .ok s)
  let gross ← s.convertToAssets d env shares .floor
  let fee ← sub gross assets
  s.zeroPayoutGuard d env gross shares
  let (realized, s) ← s.pullProportional d env gross
  revertIf (realized < gross) .feeNotCovered
  let book ← s.book.burn d owner shares
  { s with book := book }.payOut d receiver assets fee

def withdraw (s : Vault σ) (caller : Address) (assets : Nat) (receiver owner : Address) :
    Except Revert (Nat × Vault σ) := do
  let maxAssets ← s.maxWithdraw d env owner
  revertIf (maxAssets < assets) (.exceededMaxWithdraw owner assets maxAssets)
  let shares ← s.previewWithdraw d env assets
  let s ← s.withdrawAt d env caller receiver owner assets shares
  .ok (shares, s)

def redeem (s : Vault σ) (caller : Address) (shares : Nat) (receiver owner : Address) :
    Except Revert (Nat × Vault σ) := do
  revertIf (s.maxRedeem owner < shares) (.exceededMaxRedeem owner shares (s.maxRedeem owner))
  let assets ← s.previewRedeem d env shares
  let s ← s.withdrawAt d env caller receiver owner assets shares
  .ok (assets, s)

def transferShares (s : Vault σ) (source target : Address) (value : Nat) : Except Revert (Vault σ) := do
  let book ← s.book.transferShares d source target value
  .ok { s with book := book }

def transferSharesFrom (s : Vault σ) (spender source target : Address) (value : Nat) : Except Revert (Vault σ) := do
  let s ← s.spendAllowance source spender value
  s.transferShares d source target value

def syncExclusions (s : Vault σ) (block : Block) (restoring : Bool) : Except Revert (Vault σ) := do
  let (s, opened) ← s.syncLoop d env block s.book.totalSupply restoring
  .ok (s.markExclusionOpened opened)

def setAdapterAllowed (s : Vault σ) (block : Block) (a : Address) (value : Bool) : Except Revert (Vault σ) := do
  revertIf (a = 0) .zeroAddress
  { s with allowed := update s.allowed a value }.syncExclusions d env block value

def setAdapterCodeHashAllowed (s : Vault σ) (block : Block) (codeHash : Nat) (value : Bool) :
    Except Revert (Vault σ) := do
  revertIf (codeHash = 0) .invalidParam
  { s with codeHashAllowed := update s.codeHashAllowed codeHash value }.syncExclusions d env block value

def emergencyWithdraw (s : Vault σ) (block : Block) : Except Revert (Vault σ) := do
  let (s, opened) ← { s with depositsPaused := true }.emergencyWithdrawAll d env block s.book.totalSupply
  .ok (s.markExclusionOpened opened)

def emergencyWithdrawAdapter (s : Vault σ) (block : Block) (i : Nat) : Except Revert (Vault σ) := do
  let (s, opened) ← { s with depositsPaused := true }.emergencyWithdrawOne d env block s.book.totalSupply i
  .ok (s.markExclusionOpened opened)

def emergencyExcludeAdapter (s : Vault σ) (block : Block) (i : Nat) : Except Revert (Vault σ) := do
  let (s, opened) ← s.emergencyExclude d env block s.book.totalSupply i
  .ok (s.markExclusionOpened opened)

def forceRemove (s : Vault σ) (block : Block) (i : Nat) : Except Revert (Vault σ) := do
  let (s, opened) ← { s with depositsPaused := true }.forceRemoveAdapter d env block s.book.totalSupply i
  .ok (s.markExclusionOpened opened)

def adminRebalance (s : Vault σ) (block : Block) (targets : List Nat) : Except Revert (Vault σ) := do
  let (s, opened) ← s.adminRebalancePull d env block s.book.totalSupply targets
  let s ← (s.markExclusionOpened opened).adminRebalanceAllocate d env targets
  .ok { s with lastRebalanceAt := block.timestamp.val }

/-- The last line of `rebalance`: idle USDC goes back into the adapters. -/
def routeIdle (s : Vault σ) : Except Revert (Vault σ) :=
  if s.idle d = 0 then .ok s
  else do
    let nav ← s.totalAssets d env
    s.routeDeposit d env (s.idle d) nav

def rebalance (s : Vault σ) (block : Block) (sender : Address) : Except Revert (Vault σ) := do
  revertIf (s.hasRole .admin sender = false ∧ s.hasRole .keeper sender = false) .unauthorizedRebalancer
  let available ← add s.lastRebalanceAt s.minRebalanceInterval
  revertIf (block.timestamp.val < available) .rebalanceTooSoon
  revertIf (s.depositsPaused = true) .depositsArePaused
  revertIf (s.shutdown = true) .vaultShutdown
  revertIf (s.activeCount = 0) .noActiveAdapters
  let s := { s with lastRebalanceAt := block.timestamp.val }
  let nav ← s.totalAssets d env
  let cap ← mul nav s.maxRebalanceBpsPerCall
  let s ← s.rebalancePull d env nav (cap / maxBps)
  s.routeIdle d env

def setMaxRebalanceBpsPerCall (s : Vault σ) (newBps : Nat) : Except Revert (Vault σ) := do
  revertIf (newBps = 0 ∨ 5000 < newBps) .invalidParam
  .ok { s with maxRebalanceBpsPerCall := newBps }

def setMinRebalanceInterval (s : Vault σ) (newInterval : Nat) : Except Revert (Vault σ) := do
  revertIf (newInterval < 3600) .invalidParam
  .ok { s with minRebalanceInterval := newInterval }

def setRegistry (s : Vault σ) (newRegistry : Address) : Except Revert (Vault σ) := do
  revertIf (newRegistry = 0) .zeroAddress
  revertIf (s.registry ≠ 0) .registryAlreadySet
  .ok { s with registry := newRegistry }

/-- `retire` and `unretire`. -/
def setRetired (s : Vault σ) (sender : Address) (value : Bool) : Except Revert (Vault σ) := do
  revertIf (sender ≠ s.registry) .onlyRegistry
  .ok { s with retired := value }

def restoreVault (s : Vault σ) (newTvlCap : Nat) : Except Revert (Vault σ) := do
  revertIf (s.shutdown = false) .notShutdown
  revertIf (newTvlCap = 0) .invalidCap
  revertIf (newTvlCap < s.perDepositCap) .invalidParam
  .ok { s with shutdown := false, tvlCap := newTvlCap }

def setTvlCap (s : Vault σ) (newCap : Nat) : Except Revert (Vault σ) := do
  revertIf (0 < newCap ∧ newCap < s.perDepositCap) .invalidParam
  .ok { s with tvlCap := newCap }

def setPerDepositCap (s : Vault σ) (newCap : Nat) : Except Revert (Vault σ) := do
  revertIf (0 < s.tvlCap ∧ s.tvlCap < newCap) .invalidParam
  .ok { s with perDepositCap := newCap }

def setExitFeeBps (s : Vault σ) (newBps : Nat) : Except Revert (Vault σ) := do
  revertIf (maxExitFeeBps < newBps) .invalidFee
  .ok { s with exitFeeBps := newBps }

def setFeeRecipient (s : Vault σ) (newRecipient : Address) : Except Revert (Vault σ) := do
  revertIf (newRecipient = 0) .zeroAddress
  .ok { s with feeRecipient := newRecipient }

def setRole (s : Vault σ) (role : VaultRole) (account : Address) (held : Bool) : Vault σ :=
  { s with hasRole := update s.hasRole role (update (s.hasRole role) account held) }

end Vault

inductive VaultCall (σ : Type) where
  | deposit (assets : Nat) (receiver : Address)
  | mint (shares : Nat) (receiver : Address)
  | withdraw (assets : Nat) (receiver owner : Address)
  | redeem (shares : Nat) (receiver owner : Address)
  | approve (spender : Address) (value : Nat)
  | transferShares (target : Address) (value : Nat)
  | transferSharesFrom (source target : Address) (value : Nat)
  | addAdapter (adapter : Address) (capBps : Nat)
  | removeAdapter (index : Nat)
  | setAdapterCap (index newCapBps : Nat)
  | setAdapterMaxExposure (index cap : Nat)
  | setAdapterAllowed (adapter : Address) (value : Bool)
  | setAdapterCodeHashAllowed (codeHash : Nat) (value : Bool)
  | syncExclusions
  | rebalance
  | adminRebalance (targets : List Nat)
  | emergencyWithdraw
  | emergencyWithdrawAdapter (index : Nat)
  | emergencyExcludeAdapter (index : Nat)
  | forceRemoveAdapter (index : Nat)
  | recoverRemovedAdapter (index amount : Nat)
  | pauseDeposits
  | unpauseDeposits
  | shutdownVault
  | restoreVault (newTvlCap : Nat)
  | setRegistry (newRegistry : Address)
  | setRetired (value : Bool)
  | setMaxRebalanceBpsPerCall (newBps : Nat)
  | setMinRebalanceInterval (newInterval : Nat)
  | setTvlCap (newCap : Nat)
  | setPerDepositCap (newCap : Nat)
  | setExitFeeBps (newBps : Nat)
  | setFeeRecipient (newRecipient : Address)
  | setRole (role : VaultRole) (account : Address) (held : Bool)
  | renounceRole (role : VaultRole)
  | outside (calls : List OutsideCall) (hidden : σ)

/-- A transaction: who calls what in which block. -/
structure Tx (σ : Type) where
  sender : Address
  block : Block
  call : VaultCall σ

open Vault in
def vaultCall {σ : Type} (d : Deployment) (env : Outside σ) (s : Vault σ) (sender : Address) (block : Block) :
    VaultCall σ → Except Revert (Vault σ)
  | .deposit assets receiver => do .ok (← s.deposit d env sender assets receiver).2
  | .mint shares receiver => do .ok (← s.mint d env sender shares receiver).2
  | .withdraw assets receiver owner => do .ok (← s.withdraw d env sender assets receiver owner).2
  | .redeem shares receiver owner => do .ok (← s.redeem d env sender shares receiver owner).2
  | .approve spender value => s.approve sender spender value
  | .transferShares target value => s.transferShares d sender target value
  | .transferSharesFrom source target value => s.transferSharesFrom d sender source target value
  | .addAdapter a capBps => do s.onlyRole .admin sender; s.addAdapter d env a capBps
  | .removeAdapter i => do s.onlyRole .admin sender; s.removeAdapter d env i
  | .setAdapterCap i newCapBps => do s.onlyRole .admin sender; s.setAdapterCap i newCapBps
  | .setAdapterMaxExposure i cap => do s.onlyRole .admin sender; s.setAdapterMaxExposure d env i cap
  | .setAdapterAllowed a value => do s.onlyRole .admin sender; s.setAdapterAllowed d env block a value
  | .setAdapterCodeHashAllowed codeHash value => do
    s.onlyRole .admin sender
    s.setAdapterCodeHashAllowed d env block codeHash value
  | .syncExclusions => s.syncExclusions d env block true
  | .rebalance => s.rebalance d env block sender
  | .adminRebalance targets => do s.onlyRole .admin sender; s.adminRebalance d env block targets
  | .emergencyWithdraw => do s.onlyRole .emergency sender; s.emergencyWithdraw d env block
  | .emergencyWithdrawAdapter i => do s.onlyRole .emergency sender; s.emergencyWithdrawAdapter d env block i
  | .emergencyExcludeAdapter i => do s.onlyRole .emergency sender; s.emergencyExcludeAdapter d env block i
  | .forceRemoveAdapter i => do s.onlyRole .emergency sender; s.forceRemove d env block i
  | .recoverRemovedAdapter i amount => do s.onlyRole .emergency sender; s.recoverRemoved d env i amount
  | .pauseDeposits => do s.onlyRole .emergency sender; .ok { s with depositsPaused := true }
  | .unpauseDeposits => do s.onlyRole .admin sender; .ok { s with depositsPaused := false }
  | .shutdownVault => do s.onlyRole .emergency sender; .ok { s with shutdown := true, tvlCap := 0 }
  | .restoreVault newTvlCap => do s.onlyRole .admin sender; s.restoreVault newTvlCap
  | .setRegistry newRegistry => do s.onlyRole .admin sender; s.setRegistry newRegistry
  | .setRetired value => s.setRetired sender value
  | .setMaxRebalanceBpsPerCall newBps => do s.onlyRole .admin sender; s.setMaxRebalanceBpsPerCall newBps
  | .setMinRebalanceInterval newInterval => do s.onlyRole .admin sender; s.setMinRebalanceInterval newInterval
  | .setTvlCap newCap => do s.onlyRole .admin sender; s.setTvlCap newCap
  | .setPerDepositCap newCap => do s.onlyRole .admin sender; s.setPerDepositCap newCap
  | .setExitFeeBps newBps => do s.onlyRole .admin sender; s.setExitFeeBps newBps
  | .setFeeRecipient newRecipient => do s.onlyRole .admin sender; s.setFeeRecipient newRecipient
  | .setRole role account held => do s.onlyRole .admin sender; .ok (s.setRole role account held)
  | .renounceRole role => .ok (s.setRole role sender false)
  | .outside calls w => .ok (s.applyEffect d ⟨0, calls, w⟩)

def vaultStep {σ : Type} (d : Deployment) (env : Outside σ) (s : Vault σ) (tx : Tx σ) : Except Revert (Vault σ) :=
  vaultCall d env { s with trace := [] } tx.sender tx.block tx.call

/-- What `initialize` checks about its arguments. -/
structure InitArgs where
  tvlCap : Nat
  perDepositCap : Nat
  exitFeeBps : Nat
  feeRecipient : Address
  admin : Address
  emergencyResponder : Address

/-- `initialize`: an empty registry, no shares, and a fresh ledger. -/
def Vault.initialize {σ : Type} (p : InitArgs) (usdc : Balances) (hidden : σ) : Except Revert (Vault σ) := do
  revertIf (p.feeRecipient = 0 ∨ p.admin = 0 ∨ p.emergencyResponder = 0) .zeroAddress
  revertIf (maxExitFeeBps < p.exitFeeBps) .invalidFee
  revertIf (0 < p.tvlCap ∧ p.tvlCap < p.perDepositCap) .invalidParam
  .ok {
    adapters := []
    allowed := fun _ => false
    codeHashAllowed := fun _ => false
    openExclusionOf := fun _ => 0
    book := .init usdc
    allowance := fun _ _ => 0
    tvlCap := p.tvlCap
    perDepositCap := p.perDepositCap
    exitFeeBps := p.exitFeeBps
    feeRecipient := p.feeRecipient
    shutdown := false
    retired := false
    registry := 0
    depositsPaused := false
    maxRebalanceBpsPerCall := 2500
    minRebalanceInterval := 43200
    lastRebalanceAt := 0
    hasRole := fun role a => match role with
      | .admin => a == p.admin
      | .emergency => a == p.emergencyResponder
      | .keeper => false
    hidden := hidden
    trace := [] }

/-- Adapters to evaluate runs on: each keeps a balance, pays what it is asked for and takes what it is given.  The vault
has no `VAULT()` view. -/
def Outside.sample : Outside (Address → Nat) where
  codehash := fun _ _ => 7
  usdcView := fun _ _ => ⟨true, 32, 3⟩
  vaultView := fun _ a => if a = 1 then ⟨false, 0, 0⟩ else ⟨true, 32, 1⟩
  maxExposure := fun _ _ => ⟨false, 0, 0⟩
  venueWithdrawable := fun _ _ => ⟨false, 0, 0⟩
  totalAssets := fun w a => .returned (w a)
  withdraw := fun w a x =>
    if x ≤ w a then .returned ⟨x, [.issueUsdc 1 x], update w a (w a - x)⟩ else .reverted
  deploy := fun w a x => .returned ⟨0, [], update w a (w a + x)⟩
  setMaxExposure := fun _ _ _ => .reverted

def InitArgs.sample : InitArgs where
  tvlCap := 10 ^ 12
  perDepositCap := 10 ^ 12
  exitFeeBps := 30
  feeRecipient := 20
  admin := 21
  emergencyResponder := 22

/-- The states the system reaches after `initialize`. -/
def Vault.Reached {σ : Type} (d : Deployment) (env : Outside σ) (s : Vault σ) : Prop :=
  ∃ p usdc hidden s₀, Vault.initialize p usdc hidden = .ok s₀ ∧ Reachable (vaultStep d env) s₀ s

/-- What is reached when account 5 holds 1000 USDC at the start. -/
theorem Vault.sample_reached {σ : Type} (env : Outside σ) (hidden : σ) (txs : List (Tx σ)) :
    ∃ s₀, Vault.initialize .sample (update (fun _ => 0) 5 1000) hidden = .ok s₀ ∧
      (run (vaultStep .sample env) s₀ txs).Reached .sample env :=
  ⟨_, rfl, .sample, update (fun _ => 0) 5 1000, hidden, _, rfl, txs, rfl⟩

end RobotMoney
