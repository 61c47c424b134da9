import RobotMoney.Evm.LowerBound
import RobotMoney.Ledger.Reverts

/-!
# The exclusion ledger

`ExclusionLedger` keeps one record per exclusion of an adapter: the share supply when the record opened, the USDC
recovered since and the USDC paid out.  What a holder owned at the snapshot is reconstructed lazily: once a record
exists the vault reports every share balance change before it happens, and the first report after record `id` stores
the balance as it stood at `id`.  `balanceAt` looks that checkpoint up by binary search and falls through to the live
balance when the holder has not moved since.

The functions take the share balances of the vault and the USDC balances as arguments, since the contract reads both
from other contracts.  Events are left out.
-/

namespace RobotMoney

open Evm Function

/-- One exclusion record. -/
structure Exclusion where
  adapterIndex : Nat
  adapter : Address
  openedBlock : Nat
  openedAt : Nat
  finalized : Bool
  snapshotSupply : Nat
  adapterValue : Nat
  recoveredUsdc : Nat
  claimedUsdc : Nat
  deriving DecidableEq, Repr

def Exclusion.zero : Exclusion := ⟨0, 0, 0, 0, false, 0, 0, 0, 0⟩

/-- Balance of one holder as it stood at snapshot `id`. -/
structure Checkpoint where
  id : Nat
  balance : Nat
  deriving DecidableEq, Repr

/-- Storage of the ledger; the checkpoints of a holder are oldest first. -/
structure Ledger where
  exclusionCount : Nat
  exclusions : Nat → Exclusion
  claimed : Nat → Address → Nat
  heldUsdc : Nat
  checkpoints : Address → List Checkpoint

def Ledger.init : Ledger where
  exclusionCount := 0
  exclusions := fun _ => .zero
  claimed := fun _ _ => 0
  heldUsdc := 0
  checkpoints := fun _ => []

def onlyVault (d : Deployment) (sender : Address) : Except Revert Unit := revertIf (sender ≠ d.vault) .onlyVault

namespace Ledger

variable (d : Deployment)

/-- `open`: a new record with a snapshot of the supply.  `reply` is what the adapter answers to `totalAssets()`. -/
def openRecord (l : Ledger) (sender : Address) (adapterIndex : Nat) (adapter : Address) (snapshotSupply : Nat)
    (reply : Reply Nat) (block : Block) : Except Revert (Nat × Ledger) := do
  onlyVault d sender
  let reported ← reply.caught (.callFailed adapter)
  let id ← add l.exclusionCount 1
  let openedBlock ← castUint 48 block.number
  let openedAt ← castUint 40 block.timestamp.val
  .ok (id, { l with
    exclusionCount := id
    exclusions := update l.exclusions id
      { adapterIndex, adapter, openedBlock, openedAt, finalized := false, snapshotSupply,
        adapterValue := reported.getD 0, recoveredUsdc := 0, claimedUsdc := 0 } })

/-- `id` names no record that still accepts recovery. -/
def NotOpen (l : Ledger) (id : Nat) : Prop :=
  id = 0 ∨ l.exclusionCount < id ∨ (l.exclusions id).finalized = true

instance (l : Ledger) (id : Nat) : Decidable (l.NotOpen id) := inferInstanceAs (Decidable (_ ∨ _ ∨ _))

def credit (l : Ledger) (sender : Address) (id amount : Nat) : Except Revert Ledger := do
  onlyVault d sender
  revertIf (l.NotOpen id) (.exclusionNotOpen id)
  let recovered ← add (l.exclusions id).recoveredUsdc amount
  let held ← add l.heldUsdc amount
  .ok { l with
    exclusions := update l.exclusions id { l.exclusions id with recoveredUsdc := recovered }
    heldUsdc := held }

def finalize (l : Ledger) (sender : Address) (id : Nat) : Except Revert Ledger := do
  onlyVault d sender
  revertIf (l.NotOpen id) (.exclusionNotOpen id)
  .ok { l with exclusions := update l.exclusions id { l.exclusions id with finalized := true } }

/-- `_checkpoint`: store the balance of `account` before a change, once per snapshot. -/
def checkpointAccount (l : Ledger) (shares : Balances) (account : Address) (current : Nat) :
    Except Revert Ledger :=
  let cps := l.checkpoints account
  if (cps.getLast?).any (fun c => current ≤ c.id) then .ok l
  else do
    let id ← castUint 48 current
    let balance ← castUint 208 (shares account)
    .ok { l with checkpoints := update l.checkpoints account (cps ++ [⟨id, balance⟩]) }

def checkpoint (l : Ledger) (sender : Address) (shares : Balances) (source target : Address) :
    Except Revert Ledger := do
  onlyVault d sender
  let current := l.exclusionCount
  let l ← (if source ≠ 0 then l.checkpointAccount shares source current else .ok l)
  if target ≠ 0 then l.checkpointAccount shares target current else .ok l

def balanceAt (l : Ledger) (shares : Balances) (holder : Address) (id : Nat) : Nat :=
  if id = 0 ∨ l.exclusionCount < id then 0
  else
    let cps := l.checkpoints holder
    let lo := lowerBound (fun i => (cps[i]?).any (fun c => c.id < id)) cps.length 0 cps.length
    match cps[lo]? with
    | none => shares holder
    | some c => c.balance

def claimable (l : Ledger) (shares : Balances) (id : Nat) (holder : Address) : Except Revert Nat :=
  let e := l.exclusions id
  if e.snapshotSupply = 0 then .ok 0
  else do
    let owed ← mulDiv .floor e.recoveredUsdc (l.balanceAt shares holder id) e.snapshotSupply
    let paid := l.claimed id holder
    .ok (if paid < owed then owed - paid else 0)

def claim (l : Ledger) (shares usdc : Balances) (id : Nat) (holder : Address) :
    Except Revert (Nat × Ledger × Balances) := do
  let amount ← l.claimable shares id holder
  if amount = 0 then .ok (0, l, usdc)
  else do
    let paid ← add (l.claimed id holder) amount
    let claimedUsdc ← add (l.exclusions id).claimedUsdc amount
    let held ← sub l.heldUsdc amount
    let l' := { l with
      claimed := update l.claimed id (update (l.claimed id) holder paid)
      exclusions := update l.exclusions id { l.exclusions id with claimedUsdc }
      heldUsdc := held }
    let usdc' ← moveUsdc usdc d.ledger holder amount
    .ok (amount, l', usdc')

/-- One round of the loop of `claimAll`.  The increment of a loop that runs to `id <= n` is checked. -/
def claimNext (shares : Balances) (holder : Address) (x : Nat × Ledger × Balances) (id : Nat) :
    Except Revert (Nat × Ledger × Balances) := do
  let (amount, l, usdc) ← x.2.1.claim d shares x.2.2 id holder
  let total ← add x.1 amount
  let _ ← (add id 1 : Except Revert Nat)
  .ok (total, l, usdc)

def claimAll (l : Ledger) (shares usdc : Balances) (holder : Address) : Except Revert (Nat × Ledger × Balances) :=
  (List.range' 1 l.exclusionCount).foldlM (claimNext d shares holder) (0, l, usdc)

/-- `returnSurplus`: USDC above `heldUsdc` goes back to the vault. -/
def returnSurplus (l : Ledger) (usdc : Balances) : Except Revert (Nat × Balances) :=
  let bal := usdc d.ledger
  if bal ≤ l.heldUsdc then .ok (0, usdc)
  else do
    let usdc' ← moveUsdc usdc d.ledger d.vault (bal - l.heldUsdc)
    .ok (bal - l.heldUsdc, usdc')

end Ledger

/-- What the vault and its ledger share: the share token, the checkpoint switch, the ledger and the USDC balances. -/
structure ShareBook where
  shares : Balances
  totalSupply : Nat
  snapshots : Bool
  ledger : Ledger
  usdc : Balances

namespace ShareBook

variable (d : Deployment)

def init (usdc : Balances) : ShareBook where
  shares := fun _ => 0
  totalSupply := 0
  snapshots := false
  ledger := .init
  usdc := usdc

def balanceAt (b : ShareBook) (holder : Address) (id : Nat) : Nat := b.ledger.balanceAt b.shares holder id

/-- First half of `ERC20._update`: take the shares from `source`, or issue them when it is the zero account. -/
def debit (b : ShareBook) (source : Address) (value : Nat) : Except Revert ShareBook :=
  if source = 0 then do
    let supply ← add b.totalSupply value
    .ok { b with totalSupply := supply }
  else do
    revertIf (b.shares source < value) (.share (.insufficientBalance source (b.shares source) value))
    .ok { b with shares := update b.shares source (b.shares source - value) }

/-- `ERC20._update`: the zero account stands for minting and burning. -/
def erc20Update (b : ShareBook) (source target : Address) (value : Nat) : Except Revert ShareBook := do
  let b ← b.debit source value
  if target = 0 then .ok { b with totalSupply := b.totalSupply - value }
  else .ok { b with shares := update b.shares target (b.shares target + value) }

/-- `RobotMoneyVault._update`: once the switch is on, both balances are reported before they change. -/
def update (b : ShareBook) (source target : Address) (value : Nat) : Except Revert ShareBook := do
  let ledger ← (if b.snapshots then b.ledger.checkpoint d d.vault b.shares source target else .ok b.ledger)
  { b with ledger := ledger }.erc20Update source target value

def mint (b : ShareBook) (account : Address) (value : Nat) : Except Revert ShareBook := do
  revertIf (account = 0) (.share .invalidReceiver)
  b.update d 0 account value

def burn (b : ShareBook) (account : Address) (value : Nat) : Except Revert ShareBook := do
  revertIf (account = 0) (.share .invalidSender)
  b.update d account 0 value

def transferShares (b : ShareBook) (source target : Address) (value : Nat) : Except Revert ShareBook := do
  revertIf (source = 0) (.share .invalidSender)
  revertIf (target = 0) (.share .invalidReceiver)
  b.update d source target value

/-- `ledger.open` with the current supply, as every lever of the vault calls it. -/
def openRecord (b : ShareBook) (adapterIndex : Nat) (adapter : Address) (reply : Reply Nat) (block : Block) :
    Except Revert (Nat × ShareBook) := do
  let (id, ledger) ← b.ledger.openRecord d d.vault adapterIndex adapter b.totalSupply reply block
  .ok (id, { b with ledger := ledger })

def markExclusionOpened (b : ShareBook) (opened : Bool) : ShareBook :=
  if opened then { b with snapshots := true } else b

/-- The last two lines of `_credit`: the recovered USDC moves to the ledger and is booked there. -/
def credit (b : ShareBook) (id amount : Nat) : Except Revert ShareBook := do
  let usdc ← moveUsdc b.usdc d.vault d.ledger amount
  let ledger ← b.ledger.credit d d.vault id amount
  .ok { b with usdc := usdc, ledger := ledger }

def finalize (b : ShareBook) (id : Nat) : Except Revert ShareBook := do
  let ledger ← b.ledger.finalize d d.vault id
  .ok { b with ledger := ledger }

def checkpoint (b : ShareBook) (source target : Address) : Except Revert ShareBook := do
  let ledger ← b.ledger.checkpoint d d.vault b.shares source target
  .ok { b with ledger := ledger }

def claim (b : ShareBook) (id : Nat) (holder : Address) : Except Revert (Nat × ShareBook) := do
  let (amount, ledger, usdc) ← b.ledger.claim d b.shares b.usdc id holder
  .ok (amount, { b with ledger := ledger, usdc := usdc })

def claimAll (b : ShareBook) (holder : Address) : Except Revert (Nat × ShareBook) := do
  let (total, ledger, usdc) ← b.ledger.claimAll d b.shares b.usdc holder
  .ok (total, { b with ledger := ledger, usdc := usdc })

def returnSurplus (b : ShareBook) : Except Revert (Nat × ShareBook) := do
  let (amount, usdc) ← b.ledger.returnSurplus d b.usdc
  .ok (amount, { b with usdc := usdc })

end ShareBook

/-- The calls that touch the share book: share movements, the vault's writes to the ledger, the permissionless calls
of the ledger, and USDC moving around. -/
inductive BookCall where
  | mint (account : Address) (value : Nat)
  | burn (account : Address) (value : Nat)
  | transferShares (source target : Address) (value : Nat)
  | openRecord (adapterIndex : Nat) (adapter : Address) (reply : Reply Nat) (block : Block)
  | markExclusionOpened
  | credit (id amount : Nat)
  | finalize (id : Nat)
  | checkpoint (source target : Address)
  | claim (id : Nat) (holder : Address)
  | claimAll (holder : Address)
  | returnSurplus
  | issueUsdc (account : Address) (value : Nat)
  | moveUsdc (source target : Address) (value : Nat)

def bookStep (d : Deployment) (b : ShareBook) : BookCall → Except Revert ShareBook
  | .mint account value => b.mint d account value
  | .burn account value => b.burn d account value
  | .transferShares source target value => b.transferShares d source target value
  | .openRecord i adapter reply block => do .ok (← b.openRecord d i adapter reply block).2
  | .markExclusionOpened => .ok (b.markExclusionOpened true)
  | .credit id amount => b.credit d id amount
  | .finalize id => b.finalize d id
  | .checkpoint source target => b.checkpoint d source target
  | .claim id holder => do .ok (← b.claim d id holder).2
  | .claimAll holder => do .ok (← b.claimAll d holder).2
  | .returnSurplus => do .ok (← b.returnSurplus d).2
  | .issueUsdc account value => .ok { b with usdc := update b.usdc account (b.usdc account + value) }
  | .moveUsdc source target value => do
    revertIf (source = d.ledger) (.usdc .insufficientBalance)
    .ok { b with usdc := ← RobotMoney.moveUsdc b.usdc source target value }

def BookCall.MovesShares : BookCall → Prop
  | .mint .. | .burn .. | .transferShares .. => True
  | _ => False

/-- The vault's promise: while a record exists, shares move only with the switch on. -/
def SwitchOn (b : ShareBook) (c : BookCall) : Prop :=
  c.MovesShares → b.ledger.exclusionCount ≠ 0 → b.snapshots = true

end RobotMoney
