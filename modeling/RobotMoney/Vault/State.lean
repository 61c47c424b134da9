import RobotMoney.Evm.Machine
import RobotMoney.Ledger.ExclusionLedger

/-!
# The vault and the world around it

`RobotMoneyVault` prices its shares over idle USDC and the balances its strategy adapters report.  The adapters are
other contracts: what they answer is a function of a state `σ` of the outside world that the vault does not see
(`Outside`), and a call that is not static may change that state, move USDC and, since share transfers and ledger
claims are open to everyone, act on the share book as well (`Effect`).  Nothing is assumed here about how adapters
behave.

This module holds the storage of the vault and its view functions, up to the ERC-4626 previews.  Gas floors, events
and the reentrancy guard are left out; a call the guard would stop is not among the `OutsideCall`s.
-/

namespace RobotMoney

open Evm

/-- Answer to a low-level `staticcall`: the success flag, the length of the returned data and its first word. -/
structure StaticReply where
  ok : Bool
  length : Nat
  word : Nat
  deriving DecidableEq, Repr

/-- What anyone may do to the share book, also in the middle of a call of the vault. -/
inductive OutsideCall where
  | transferShares (source target : Address) (value : Nat)
  | claim (id : Nat) (holder : Address)
  | claimAll (holder : Address)
  | returnSurplus
  | issueUsdc (account : Address) (value : Nat)
  | moveUsdc (source target : Address) (value : Nat)
  deriving DecidableEq, Repr

def OutsideCall.toBook : OutsideCall → BookCall
  | .transferShares source target value => .transferShares source target value
  | .claim id holder => .claim id holder
  | .claimAll holder => .claimAll holder
  | .returnSurplus => .returnSurplus
  | .issueUsdc account value => .issueUsdc account value
  | .moveUsdc source target value => .moveUsdc source target value

def outsideStep (d : Deployment) (b : ShareBook) (c : OutsideCall) : Except Revert ShareBook :=
  match c with
  | .moveUsdc source _ _ => do
    revertIf (source = d.vault) (.usdc .insufficientBalance)
    bookStep d b c.toBook
  | _ => bookStep d b c.toBook

/-- What a call that is not static brings about: its return value, what happens on the share book while it runs, and
the outside state after it. -/
structure Effect (σ : Type) where
  returned : Nat
  calls : List OutsideCall
  hidden : σ

/-- The contracts outside: the adapters, seen through the calls the vault makes. -/
structure Outside (σ : Type) where
  codehash : σ → Address → Nat
  usdcView : σ → Address → StaticReply
  vaultView : σ → Address → StaticReply
  maxExposure : σ → Address → StaticReply
  venueWithdrawable : σ → Address → StaticReply
  totalAssets : σ → Address → Reply Nat
  withdraw : σ → Address → Nat → Reply (Effect σ)
  deploy : σ → Address → Nat → Reply (Effect σ)
  setMaxExposure : σ → Address → Nat → Reply (Effect σ)

def maxBps : Nat := 10000

def maxExitFeeBps : Nat := 100

def maxAdapters : Nat := 20

/-- `10 ** _decimalsOffset()`: the virtual shares. -/
def virtualShares : Nat := 10 ^ 18

/-- One registry entry. -/
structure AdapterInfo where
  adapter : Address
  capBps : Nat
  active : Bool
  deriving DecidableEq, Repr

inductive VaultRole where
  | admin
  | emergency
  | keeper
  deriving DecidableEq, Repr

/-- What a call did that the storage does not show: a record opened over the given share balances, an adapter called
with the checkpoint switch in the given position. -/
inductive Event where
  | opened (id : Nat) (shares : Balances)
  | contacted (adapter : Address) (switch : Bool)

/-- The vault with its ledger, and the outside state.  `trace` is the history of the current call. -/
structure Vault (σ : Type) where
  adapters : List AdapterInfo
  allowed : Address → Bool
  codeHashAllowed : Nat → Bool
  openExclusionOf : Nat → Nat
  book : ShareBook
  allowance : Address → Address → Nat
  tvlCap : Nat
  perDepositCap : Nat
  exitFeeBps : Nat
  feeRecipient : Address
  shutdown : Bool
  retired : Bool
  registry : Address
  depositsPaused : Bool
  maxRebalanceBpsPerCall : Nat
  minRebalanceInterval : Nat
  lastRebalanceAt : Nat
  hasRole : VaultRole → Address → Bool
  hidden : σ
  trace : List Event

namespace Vault

variable {σ : Type} (d : Deployment) (env : Outside σ)

def idle (s : Vault σ) : Nat := s.book.usdc d.vault

def entry (s : Vault σ) (i : Nat) : Except Revert AdapterInfo := orPanic .outOfBounds s.adapters[i]?

/-- `abi.decode(data, (address))` of a word: the upper 96 bits must be zero. -/
def decodeAddress (word : Nat) : Except Revert Address :=
  if h : word < 2 ^ 160 then .ok ⟨word, h⟩ else .error .abiDecode

def answers (r : StaticReply) (expected : Address) : Except Revert Bool :=
  if r.ok = false ∨ r.length ≠ 32 then .ok false
  else do
    let a ← decodeAddress r.word
    .ok (a = expected)

def isEligible (s : Vault σ) (a : Address) : Except Revert Bool :=
  if s.allowed a = false then .ok false
  else if s.codeHashAllowed (env.codehash s.hidden a) = false then .ok false
  else do
    let usdcOk ← answers (env.usdcView s.hidden a) d.usdc
    if usdcOk then answers (env.vaultView s.hidden a) d.vault else .ok false

def isUsable (s : Vault σ) (i : Nat) : Except Revert Bool :=
  if s.openExclusionOf i ≠ 0 then .ok false
  else do
    let e ← s.entry i
    s.isEligible d env e.adapter

def isCounted (s : Vault σ) (i : Nat) : Except Revert Bool := do
  let e ← s.entry i
  if e.active then s.isUsable d env i else .ok false

def requireView (a : Address) (r : StaticReply) (expected : Address) (mismatch : Address → Revert) :
    Except Revert Unit := do
  revertIf (r.ok = false ∨ r.length ≠ 32) (.adapterCompatibilityCheckFailed a)
  let reported ← decodeAddress r.word
  revertIf (reported ≠ expected) (mismatch reported)

def requireEligible (s : Vault σ) (a : Address) : Except Revert Unit := do
  revertIf (s.allowed a = false) (.adapterNotAllowed a)
  revertIf (s.codeHashAllowed (env.codehash s.hidden a) = false)
    (.adapterCodeHashNotAllowed a (env.codehash s.hidden a))
  requireView a (env.usdcView s.hidden a) d.usdc (.adapterAssetMismatch a d.usdc)
  requireView a (env.vaultView s.hidden a) d.vault (.adapterVaultMismatch a d.vault)

/-- One round of `anyActiveBlocked`; once an entry blocks, the loop has returned. -/
def blocks (s : Vault σ) (venues : Bool) (blocked : Bool) (i : Nat) : Except Revert Bool :=
  if blocked then .ok true
  else do
    let e ← s.entry i
    if e.active = false then .ok false
    else do
      let usable ← s.isUsable d env i
      if usable = false then .ok true
      else
        let r := env.venueWithdrawable s.hidden e.adapter
        .ok (venues && r.ok && r.length == 32 && r.word == 0)

def anyActiveBlocked (s : Vault σ) (venues : Bool) : Except Revert Bool :=
  (List.range s.adapters.length).foldlM (s.blocks d env venues) false

def activeCount (s : Vault σ) : Nat := s.adapters.countP (·.active)

def reported (s : Vault σ) (a : Address) : Except Revert Nat := (env.totalAssets s.hidden a).value (.callFailed a)

/-- One round of `totalAssets`. -/
def addCounted (s : Vault σ) (sum i : Nat) : Except Revert Nat := do
  let counted ← s.isCounted d env i
  if counted then do
    let e ← s.entry i
    let balance ← s.reported env e.adapter
    add sum balance
  else .ok sum

def totalAssets (s : Vault σ) : Except Revert Nat :=
  (List.range s.adapters.length).foldlM (s.addCounted d env) (s.idle d)

def convertToShares (s : Vault σ) (assets : Nat) (r : Rounding) : Except Revert Nat := do
  let supply ← add s.book.totalSupply virtualShares
  let nav ← s.totalAssets d env
  let nav' ← add nav 1
  mulDiv r assets supply nav'

def convertToAssets (s : Vault σ) (shares : Nat) (r : Rounding) : Except Revert Nat := do
  let nav ← s.totalAssets d env
  let nav' ← add nav 1
  let supply ← add s.book.totalSupply virtualShares
  mulDiv r shares nav' supply

def grossToNet (s : Vault σ) (gross : Nat) : Except Revert Nat := do
  let fee ← mulDiv .floor gross s.exitFeeBps maxBps
  sub gross fee

def netToGross (s : Vault σ) (net : Nat) : Except Revert Nat :=
  if s.exitFeeBps = 0 then .ok net
  else do
    let kept ← sub maxBps s.exitFeeBps
    mulDiv .ceil net maxBps kept

def previewRedeem (s : Vault σ) (shares : Nat) : Except Revert Nat := do
  let gross ← s.convertToAssets d env shares .floor
  s.grossToNet gross

def previewWithdraw (s : Vault σ) (assets : Nat) : Except Revert Nat := do
  let gross ← s.netToGross assets
  s.convertToShares d env gross .ceil

def previewMint (s : Vault σ) (shares : Nat) : Except Revert Nat := s.convertToAssets d env shares .ceil

def maxWithdraw (s : Vault σ) (owner : Address) : Except Revert Nat := do
  let gross ← s.convertToAssets d env (s.book.shares owner) .floor
  let kept ← sub maxBps s.exitFeeBps
  mulDiv .floor gross kept maxBps

def maxRedeem (s : Vault σ) (owner : Address) : Nat := s.book.shares owner

def depositsClosed (s : Vault σ) : Except Revert Bool :=
  if s.depositsPaused || s.shutdown || s.retired || s.activeCount == 0 then .ok true
  else s.anyActiveBlocked d env true

/-- `type(uint256).max`. -/
def maxUint : Nat := wordSize - 1

def capsUnbounded (s : Vault σ) : Bool := s.tvlCap == maxUint && s.perDepositCap == maxUint

def maxDepositAt (s : Vault σ) (nav : Nat) : Except Revert Nat := do
  let closed ← s.depositsClosed d env
  if closed then .ok 0
  else if s.capsUnbounded then .ok maxUint
  else if s.tvlCap ≤ nav then .ok 0
  else .ok (min s.perDepositCap (s.tvlCap - nav))

def maxDeposit (s : Vault σ) : Except Revert Nat := do
  let closed ← s.depositsClosed d env
  if closed then .ok 0
  else if s.capsUnbounded then .ok maxUint
  else do
    let nav ← s.totalAssets d env
    s.maxDepositAt d env nav

def maxMint (s : Vault σ) : Except Revert Nat := do
  let assets ← s.maxDeposit d env
  if assets = maxUint then .ok maxUint else s.convertToShares d env assets .floor

end Vault

end RobotMoney
