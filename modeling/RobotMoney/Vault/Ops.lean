import RobotMoney.Vault.State

/-!
# The registry loops of the vault

`RobotMoneyVaultOps`: deposit routing, proportional pulls, registry writes, exclusion records, emergency drains and
rebalance legs.  Every loop runs over the registry indices `0 … length - 1`; a round that the loop condition would
skip leaves the loop state as it is.  A call of an adapter is logged in `trace` together with the position of the
checkpoint switch, and so is the opening of a record.
-/

namespace RobotMoney

open Evm Function

namespace Vault

variable {σ : Type} (d : Deployment) (env : Outside σ)

def indices (s : Vault σ) : List Nat := List.range s.adapters.length

/-- Log a call of `a`. -/
def contact (s : Vault σ) (a : Address) : Vault σ := { s with trace := s.trace ++ [.contacted a s.book.snapshots] }

/-- Log the static calls `isEligible` makes: none when the address or its code is not allowed. -/
def probe (s : Vault σ) (a : Address) : Vault σ :=
  if s.allowed a && s.codeHashAllowed (env.codehash s.hidden a) then s.contact a else s

def applyEffect (s : Vault σ) (eff : Effect σ) : Vault σ :=
  { s with book := run (outsideStep d) s.book eff.calls, hidden := eff.hidden }

/-- `adapter.withdraw(amount)`, a plain call. -/
def callWithdraw (s : Vault σ) (a : Address) (amount : Nat) : Except Revert (Nat × Vault σ) := do
  let eff ← (env.withdraw s.hidden a amount).value (.callFailed a)
  .ok (eff.returned, (s.contact a).applyEffect d eff)

def callDeploy (s : Vault σ) (a : Address) (amount : Nat) : Except Revert (Vault σ) := do
  let eff ← (env.deploy s.hidden a amount).value (.callFailed a)
  .ok ((s.contact a).applyEffect d eff)

/-- The slice of the `rank`-th of `active` adapters: the difference of two prefix shares of `total`. -/
def equalWeightBalance (total rank active : Nat) : Except Revert Nat :=
  if active = 0 then .ok 0
  else do
    let base := maxBps / active
    let extra := maxBps % active
    let cumBefore := base * rank + (if rank < extra then rank else extra)
    let cumAfter := cumBefore + base + (if rank < extra then 1 else 0)
    let upper ← mul total cumAfter
    let lower ← mul total cumBefore
    sub (upper / maxBps) (lower / maxBps)

/-- `_allocate`: move USDC into entry `i` and deploy it; the result is what the adapter kept, measured by the vault's
own balance. -/
def allocate (s : Vault σ) (i amount : Nat) : Except Revert (Nat × Vault σ) := do
  let e ← s.entry i
  s.requireEligible d env e.adapter
  let before := s.idle d
  let usdc ← moveUsdc s.book.usdc d.vault e.adapter amount
  let s ← { s with book := { s.book with usdc := usdc } }.callDeploy d env e.adapter amount
  let now ← add (s.idle d) amount
  let handedBack ← sub now before
  .ok (amount - handedBack, s)

/-- `_ceiling`: the `capBps` slice, lowered to the adapter's own exposure cap when it reports one. -/
def ceiling (s : Vault σ) (totalAfter i : Nat) : Except Revert Nat := do
  let e ← s.entry i
  let slice ← mul totalAfter e.capBps
  let r := env.maxExposure s.hidden e.adapter
  if r.ok = true ∧ r.length = 32 ∧ r.word ≠ 0 ∧ r.word < slice / maxBps then .ok r.word else .ok (slice / maxBps)

/-- `Route`, with the vault it works on, the rank of the next active entry and the pass-1 reads. -/
structure Route (σ : Type) where
  vault : Vault σ
  totalAfter : Nat
  remaining : Nat
  capHeadroom : Nat
  refused : Nat
  rank : Nat
  cachedBalance : Nat → Nat

/-- `_pass1Leg`, which also stores the cached read. -/
def pass1Leg (r : Route σ) (i shareBalance : Nat) : Except Revert (Route σ) := do
  let capBalance ← r.vault.ceiling env r.totalAfter i
  let targetBalance := min shareBalance capBalance
  let e ← r.vault.entry i
  let currentBalance ← r.vault.reported env e.adapter
  if targetBalance ≤ currentBalance then do
    let capHeadroom ← add r.capHeadroom (capBalance - currentBalance)
    let cached ← add currentBalance 1
    .ok { r with capHeadroom, cachedBalance := update r.cachedBalance i cached }
  else do
    let allocation := min (targetBalance - currentBalance) r.remaining
    let (placed, vault) ← r.vault.allocate d env i allocation
    let remaining ← sub r.remaining placed
    if placed < allocation then
      .ok { r with vault, remaining, refused := r.refused ||| (2 ^ i % wordSize),
                   cachedBalance := update r.cachedBalance i 0 }
    else do
      let filled ← add currentBalance allocation
      let capHeadroom ← add r.capHeadroom (capBalance - filled)
      .ok { r with vault, remaining, capHeadroom, cachedBalance := update r.cachedBalance i 0 }

/-- One round of `_routePass1`. -/
def routePass1 (active : Nat) (r : Route σ) (i : Nat) : Except Revert (Route σ) :=
  if r.remaining = 0 then .ok r
  else do
    let e ← r.vault.entry i
    if e.active = false then .ok r
    else do
      let shareBalance ← equalWeightBalance r.totalAfter r.rank active
      let r := { r with rank := r.rank + 1 }
      let usable ← r.vault.isUsable d env i
      if usable then pass1Leg d env r i shareBalance else .ok r

def pass2Balance (r : Route σ) (a : Address) (cached : Nat) : Except Revert Nat :=
  if cached = 0 then r.vault.reported env a else .ok (cached - 1)

/-- One round of `_routePass2`. -/
def routePass2 (useCache : Bool) (r : Route σ) (i : Nat) : Except Revert (Route σ) :=
  if r.remaining = 0 then .ok r
  else do
    let e ← r.vault.entry i
    if e.active = false ∨ r.refused.testBit i = true then .ok r
    else do
      let usable ← r.vault.isUsable d env i
      if usable then do
        let currentBalance ← pass2Balance env r e.adapter (if useCache then r.cachedBalance i else 0)
        let capBalance ← r.vault.ceiling env r.totalAfter i
        if capBalance ≤ currentBalance then .ok r
        else do
          let allocation := min (capBalance - currentBalance) r.remaining
          let (placed, vault) ← r.vault.allocate d env i allocation
          let remaining ← sub r.remaining placed
          .ok { r with vault, remaining }
      else .ok r

def routeDeposit (s : Vault σ) (amount totalAfter : Nat) : Except Revert (Vault σ) :=
  if amount = 0 then .ok s
  else do
    let r ← s.indices.foldlM (routePass1 d env s.activeCount)
      { vault := s, totalAfter, remaining := amount, capHeadroom := 0, refused := 0, rank := 0,
        cachedBalance := fun _ => 0 }
    if 0 < r.remaining ∧ 0 < r.capHeadroom then do
      let r ← s.indices.foldlM (routePass2 d env (r.remaining == amount && r.refused == 0)) r
      .ok r.vault
    else .ok r.vault

def sumCounted (s : Vault σ) (x : Nat × Option Nat) (i : Nat) : Except Revert (Nat × Option Nat) := do
  let counted ← s.isCounted d env i
  if counted then do
    let e ← s.entry i
    let balance ← s.reported env e.adapter
    let total ← add x.1 balance
    .ok (total, some i)
  else .ok x

structure Pull (σ : Type) where
  vault : Vault σ
  remaining : Nat
  pulled : Nat

/-- Withdraw `pull` from `a` and book what it says it paid. -/
def pullLeg (p : Pull σ) (a : Address) (pull : Nat) : Except Revert (Pull σ) :=
  if pull = 0 then .ok p
  else do
    let (actual, vault) ← p.vault.callWithdraw d env a pull
    let pulled ← add p.pulled actual
    .ok { vault, pulled, remaining := p.remaining - actual }

/-- The share of one adapter in the whole request; the last counted one takes the flooring remainder. -/
def proportion (needed totalInAdapters balance remaining : Nat) (last : Bool) : Except Revert Nat :=
  if last then .ok remaining
  else do
    let product ← mul needed balance
    .ok (product / totalInAdapters)

/-- One round of pass 1: a proportional pull, capped at what is left and at the balance. -/
def pullPass1 (needed totalInAdapters : Nat) (lastCounted : Option Nat) (p : Pull σ) (i : Nat) :
    Except Revert (Pull σ) :=
  if p.remaining = 0 then .ok p
  else do
    let counted ← p.vault.isCounted d env i
    if counted then do
      let e ← p.vault.entry i
      let balance ← p.vault.reported env e.adapter
      let share ← proportion needed totalInAdapters balance p.remaining (lastCounted == some i)
      pullLeg d env p e.adapter (min (min share p.remaining) balance)
    else .ok p

def pullPass2 (p : Pull σ) (i : Nat) : Except Revert (Pull σ) :=
  if p.remaining = 0 then .ok p
  else do
    let counted ← p.vault.isCounted d env i
    if counted then do
      let e ← p.vault.entry i
      let balance ← p.vault.reported env e.adapter
      pullLeg d env p e.adapter (min balance p.remaining)
    else .ok p

def pullFromAdapters (s : Vault σ) (needed : Nat) : Except Revert (Nat × Vault σ) := do
  let (totalInAdapters, lastCounted) ← s.indices.foldlM (s.sumCounted d env) (0, none)
  revertIf (totalInAdapters < needed) (.insufficientAdapterLiquidity needed totalInAdapters)
  let p ← s.indices.foldlM (pullPass1 d env needed totalInAdapters lastCounted) ⟨s, needed, 0⟩
  let p ← s.indices.foldlM (pullPass2 d env) p
  revertIf (0 < p.remaining) (.insufficientAdapterLiquidity needed (needed - p.remaining))
  .ok (p.pulled, p.vault)

/-- `ledger.open` for entry `i`; the ledger asks the adapter for its balance first. -/
def openExclusion (s : Vault σ) (block : Block) (i : Nat) (a : Address) (supply : Nat) :
    Except Revert (Vault σ) := do
  let (id, ledger) ← s.book.ledger.openRecord d d.vault i a supply (env.totalAssets s.hidden a) block
  let s := s.contact a
  .ok { s with
    book := { s.book with ledger := ledger }
    openExclusionOf := update s.openExclusionOf i id
    trace := s.trace ++ [.opened id s.book.shares] }

/-- `_credit`: the USDC that arrived since `before` goes into record `id`. -/
def credit (s : Vault σ) (id before : Nat) : Except Revert (Vault σ) :=
  if id = 0 then .ok s
  else do
    let recovered ← sub (s.idle d) before
    if recovered = 0 then .ok s
    else do
      let book ← s.book.credit d id recovered
      .ok { s with book := book }

/-- `_finalize`: close the open record of entry `i`, if any. -/
def finalize (s : Vault σ) (i : Nat) : Except Revert (Vault σ) :=
  if s.openExclusionOf i = 0 then .ok s
  else do
    let book ← s.book.finalize d (s.openExclusionOf i)
    .ok { s with book := book, openExclusionOf := update s.openExclusionOf i 0 }

/-- `_drain`: withdraw the whole reported balance, tolerant of a failing adapter, and credit it to record `id`.  The
flag is false when the adapter failed. -/
def drain (s : Vault σ) (a : Address) (id : Nat) : Except Revert (Bool × Vault σ) := do
  let s := s.contact a
  match ← (env.totalAssets s.hidden a).caught (.callFailed a) with
  | none => .ok (false, s)
  | some 0 => .ok (true, s)
  | some (balance + 1) =>
    let before := s.idle d
    let s := s.contact a
    match ← (env.withdraw s.hidden a (balance + 1)).caught (.callFailed a) with
    | none => .ok (false, s)
    | some eff => do
      let s ← (s.applyEffect d eff).credit d id before
      .ok (true, s)

/-- `_restore`: drain entry `i` into its open record and close it. -/
def restore (s : Vault σ) (i : Nat) : Except Revert (Vault σ) := do
  let e ← s.entry i
  let (ok, s) ← s.drain d env e.adapter (s.openExclusionOf i)
  revertIf (ok = false) .adapterNotEmpty
  s.finalize d i

/-- One round of `syncExclusions`. -/
def syncEntry (block : Block) (supply : Nat) (restoring : Bool) (x : Vault σ × Bool) (i : Nat) :
    Except Revert (Vault σ × Bool) := do
  let e ← x.1.entry i
  if e.active = false then .ok x
  else do
    let s := x.1.probe env e.adapter
    let eligible ← s.isEligible d env e.adapter
    if s.openExclusionOf i = 0 then
      if eligible = true ∨ supply = 0 then .ok (s, x.2)
      else do
        let s ← s.openExclusion d env block i e.adapter supply
        .ok (s, true)
    else if eligible = true ∧ restoring = true then do
      let s ← s.restore d env i
      .ok (s, x.2)
    else .ok (s, x.2)

/-- `syncExclusions` of the library: the flag tells whether a record opened. -/
def syncLoop (s : Vault σ) (block : Block) (supply : Nat) (restoring : Bool) : Except Revert (Vault σ × Bool) :=
  s.indices.foldlM (syncEntry d env block supply restoring) (s, false)

def markExclusionOpened (s : Vault σ) (opened : Bool) : Vault σ :=
  { s with book := s.book.markExclusionOpened opened }

def requireActive (s : Vault σ) (i : Nat) : Except Revert AdapterInfo :=
  match s.adapters[i]? with
  | some e => if e.active then .ok e else .error .adapterNotFound
  | none => .error .adapterNotFound

def settle (a : Address) (s : Vault σ) (i : Nat) : Except Revert (Vault σ) := do
  let e ← s.entry i
  if e.adapter = a ∧ s.openExclusionOf i ≠ 0 then s.restore d env i else .ok s

def addAdapter (s : Vault σ) (a : Address) (capBps : Nat) : Except Revert (Vault σ) := do
  revertIf (a = 0) .zeroAddress
  revertIf (capBps = 0 ∨ maxBps < capBps) .invalidCap
  revertIf (s.adapters.any (fun e => e.active && e.adapter == a) = true) (.adapterAlreadyActive a)
  revertIf (maxAdapters ≤ s.activeCount) .maxAdaptersReached
  s.requireEligible d env a
  let s ← s.indices.foldlM (settle d env a) s
  .ok { s with adapters := s.adapters ++ [⟨a, capBps, true⟩] }

def deactivate (s : Vault σ) (i : Nat) : Vault σ :=
  { s with adapters := s.adapters.modify i fun e => { e with active := false } }

def removeAdapter (s : Vault σ) (i : Nat) : Except Revert (Vault σ) := do
  let e ← s.requireActive i
  let balance ← s.reported env e.adapter
  revertIf (0 < balance) .adapterNotEmpty
  (s.deactivate i).finalize d i

def setAdapterCap (s : Vault σ) (i newCapBps : Nat) : Except Revert (Vault σ) := do
  let _ ← s.requireActive i
  revertIf (newCapBps = 0 ∨ maxBps < newCapBps) .invalidCap
  .ok { s with adapters := s.adapters.modify i fun e => { e with capBps := newCapBps } }

def setAdapterMaxExposure (s : Vault σ) (i cap : Nat) : Except Revert (Vault σ) := do
  let e ← s.requireActive i
  let eff ← (env.setMaxExposure s.hidden e.adapter cap).value (.callFailed e.adapter)
  .ok ((s.contact e.adapter).applyEffect d eff)

/-- `_emergencyPull`: drain entry `i` into its open record, or into idle when it has none. -/
def emergencyPull (s : Vault σ) (i : Nat) : Except Revert (Vault σ) := do
  let e ← s.entry i
  let (_, s) ← s.drain d env e.adapter (s.openExclusionOf i)
  .ok s

/-- One round of the drain loop of `emergencyWithdrawAll`. -/
def emergencyPullActive (s : Vault σ) (i : Nat) : Except Revert (Vault σ) := do
  let e ← s.entry i
  if e.active = false then .ok s else s.emergencyPull d env i

def emergencyWithdrawAll (s : Vault σ) (block : Block) (supply : Nat) : Except Revert (Vault σ × Bool) := do
  let (s, opened) ← s.syncLoop d env block supply false
  let s ← s.indices.foldlM (emergencyPullActive d env) s
  .ok (s, opened)

def emergencyWithdrawOne (s : Vault σ) (block : Block) (supply i : Nat) : Except Revert (Vault σ × Bool) := do
  let _ ← s.requireActive i
  let (s, opened) ← s.syncLoop d env block supply false
  let s ← s.emergencyPull d env i
  .ok (s, opened)

def emergencyExclude (s : Vault σ) (block : Block) (supply i : Nat) : Except Revert (Vault σ × Bool) := do
  let e ← s.requireActive i
  { s with allowed := update s.allowed e.adapter false }.syncLoop d env block supply false

/-- The tail of `forceRemoveAdapter` after the read of the balance: a record closes when the adapter reports that it is
empty, and opens when it does not and shares exist. -/
def forceRemoved (s : Vault σ) (block : Block) (supply i : Nat) (a : Address) (balance : Option Nat) :
    Except Revert (Vault σ × Bool) :=
  if balance = some 0 then do
    let s ← s.finalize d i
    .ok (s, false)
  else if s.openExclusionOf i = 0 ∧ supply ≠ 0 then do
    let s ← s.openExclusion d env block i a supply
    .ok (s, true)
  else .ok (s, false)

def forceRemoveAdapter (s : Vault σ) (block : Block) (supply i : Nat) : Except Revert (Vault σ × Bool) := do
  let e ← s.requireActive i
  let s := (s.deactivate i).contact e.adapter
  let balance ← (env.totalAssets s.hidden e.adapter).caught (.callFailed e.adapter)
  s.forceRemoved d env block supply i e.adapter balance

/-- The middle of `recoverRemoved`: one tranche into record `id`. -/
def recoverTranche (s : Vault σ) (a : Address) (id amount : Nat) : Except Revert (Vault σ) :=
  if amount = 0 then .ok s
  else do
    let before := s.idle d
    let (_, s) ← s.callWithdraw d env a amount
    s.credit d id before

/-- The end of `recoverRemoved`: the record closes once the adapter reports that it is empty. -/
def closeWhenEmpty (s : Vault σ) (i : Nat) (a : Address) : Except Revert (Vault σ) := do
  let s := s.contact a
  let left ← (env.totalAssets s.hidden a).caught (.callFailed a)
  if left = some 0 then s.finalize d i else .ok s

def recoverRemoved (s : Vault σ) (i amount : Nat) : Except Revert (Vault σ) :=
  match s.adapters[i]? with
  | none => .error .adapterNotFound
  | some e => do
    revertIf (e.active = true) .adapterNotFound
    revertIf (s.openExclusionOf i = 0) (.noOpenExclusion i)
    let id := s.openExclusionOf i
    let s := s.contact e.adapter
    let balance ← (env.totalAssets s.hidden e.adapter).caught (.callFailed e.adapter)
    let s ← s.recoverTranche d env e.adapter id (min amount (balance.getD amount))
    s.closeWhenEmpty d env i e.adapter

structure Rebalance (σ : Type) where
  vault : Vault σ
  moved : Nat
  rank : Nat

/-- One round of `rebalancePull`. -/
def rebalanceEntry (total maxMove active : Nat) (r : Rebalance σ) (i : Nat) : Except Revert (Rebalance σ) := do
  let e ← r.vault.entry i
  if e.active = false ∨ maxMove ≤ r.moved then .ok r
  else do
    let target ← equalWeightBalance total r.rank active
    let r := { r with rank := r.rank + 1 }
    let usable ← r.vault.isUsable d env i
    if usable then do
      let current ← r.vault.reported env e.adapter
      if current ≤ target then .ok r
      else do
        let _ ← (add r.moved (current - target) : Except Revert Nat)
        let pull := min (maxMove - r.moved) (current - target)
        if pull = 0 then .ok r
        else do
          let (actual, vault) ← r.vault.callWithdraw d env e.adapter pull
          let moved ← add r.moved actual
          .ok { r with vault, moved }
    else .ok r

def rebalancePull (s : Vault σ) (total maxMove : Nat) : Except Revert (Vault σ) := do
  let r ← s.indices.foldlM (rebalanceEntry d env total maxMove s.activeCount) ⟨s, 0, 0⟩
  .ok r.vault

/-- One round of `adminRebalancePull`: the excess over the target leaves the adapter, for its record if it has one. -/
def pullToTarget (targets : List Nat) (x : Vault σ × Nat) (i : Nat) : Except Revert (Vault σ × Nat) := do
  let e ← x.1.entry i
  if e.active = false then .ok x
  else do
    let s := x.1.contact e.adapter
    let current ← s.reported env e.adapter
    let target ← orPanic .outOfBounds targets[i]?
    if target < current then do
      let before := s.idle d
      let (actual, s) ← s.callWithdraw d env e.adapter (current - target)
      let moved ← add x.2 actual
      let s ← s.credit d (s.openExclusionOf i) before
      .ok (s, moved)
    else .ok (s, x.2)

def adminRebalancePull (s : Vault σ) (block : Block) (supply : Nat) (targets : List Nat) :
    Except Revert (Vault σ × Bool) := do
  revertIf (targets.length ≠ s.adapters.length) .invalidParam
  let (s, opened) ← s.syncLoop d env block supply true
  let (s, _) ← s.indices.foldlM (pullToTarget d env targets) (s, 0)
  .ok (s, opened)

/-- One round of `adminRebalanceAllocate`. -/
def allocateToTarget (targets : List Nat) (x : Vault σ × Nat) (i : Nat) : Except Revert (Vault σ × Nat) :=
  if x.2 = 0 then .ok x
  else do
    let e ← x.1.entry i
    if e.active = false then .ok x
    else do
      let current ← x.1.reported env e.adapter
      let target ← orPanic .outOfBounds targets[i]?
      if current < target then do
        let allocation := min (target - current) x.2
        let (placed, s) ← x.1.allocate d env i allocation
        let idle ← sub x.2 placed
        .ok (s, idle)
      else .ok x

def adminRebalanceAllocate (s : Vault σ) (targets : List Nat) : Except Revert (Vault σ) := do
  let (s, _) ← s.indices.foldlM (allocateToTarget d env targets) (s, s.idle d)
  .ok s

end Vault

end RobotMoney
