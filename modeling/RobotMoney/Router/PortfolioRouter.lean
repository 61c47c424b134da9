import RobotMoney.Evm.Token

/-!
# The portfolio router

`PortfolioRouter` splits a USDC deposit over vaults by a weight vector.  One pass decides which legs are available and
what each of them gets: a leg must be active and eligible in the registry and open for deposits by its own
`maxDeposit`, the amount is split over the available legs, and every funded leg is asked for a quote.  A quote that
reverts drops its leg, and the split runs again over the rest.  `previewDeposit` reports that pass; `depositTo` pulls
the amount from the caller, runs the pass and deposits into the funded legs.

The vaults are other contracts: what they answer is a function of the whole world around the router, and a deposit into
one of them may change that world.  Arrays that run parallel to the weight vector are functions of the index, read
below its length only.  The gas floor and the reentrancy guard are left out.
-/

namespace RobotMoney

open Evm Function List

inductive VaultStatus where
  | active
  | depositsPaused
  | retired
  deriving DecidableEq, Repr

/-- What the router reads of `VaultRegistry`. -/
structure VaultRegistry where
  registered : Address → Bool
  status : Address → VaultStatus
  routerEligible : Address → Bool

inductive RouterError where
  | panic (p : Panic)
  | usdc (e : TokenError)
  | callFailed (target : Address)
  | zeroAddress
  | notRegistered
  | noWeightsSet
  | noFundedLeg
  | minSharesLengthMismatch
  | slippageExceeded
  | legSkippedWithFloor (vault : Address)
  | routerCapExceeded
  | vaultCapExceeded
  | vaultNotActive (vault : Address) (status : VaultStatus)
  | vaultAssetMismatch (vault vaultAsset : Address)
  | vaultAssetUnreadable (vault : Address)
  | vaultNotRouterEligible (vault : Address)
  | usdcLegTransferFailed (vault : Address)
  | usdcCustodyInvariantViolated
  deriving DecidableEq, Repr

instance : Panics RouterError where
  panic := .panic

def VaultRegistry.getVault (r : VaultRegistry) (vault : Address) : Except RouterError VaultStatus := do
  revertIf (r.registered vault = false) .notRegistered
  .ok (r.status vault)

/-- Everything around the router: the registry, USDC, and a state the router does not see. -/
structure RouterWorld (σ : Type) where
  registry : VaultRegistry
  usdc : Token
  hidden : σ

/-- What the deposit into a vault brings about: the shares it returns, the calls of USDC made while it runs, and the
registry and the outside state after it. -/
structure LegEffect (σ : Type) where
  shares : Nat
  calls : List TokenCall
  registry : VaultRegistry
  hidden : σ

/-- The vaults, seen through the calls the router makes. -/
structure RoutedVaults (σ : Type) where
  hasCode : RouterWorld σ → Address → Bool
  asset : RouterWorld σ → Address → Reply Address
  maxDeposit : RouterWorld σ → Address → Address → Reply Nat
  previewDeposit : RouterWorld σ → Address → Nat → Reply Nat
  deposit : RouterWorld σ → Address → Nat → Address → Reply (LegEffect σ)

/-- `address(this)` and the `usdc` of the router. -/
structure RouterDeployment where
  router : Address
  usdc : Address

/-- One entry of a weight vector. -/
structure Leg where
  vault : Address
  bps : Nat
  deriving DecidableEq, Repr

def vaultAt (legs : List Leg) (i : Nat) : Address := (legs[i]?.map Leg.vault).getD 0

def bpsAt (legs : List Leg) (i : Nat) : Nat := (legs[i]?.map Leg.bps).getD 0

structure PortfolioRouter where
  routerCap : Nat
  vaultCap : Address → Nat
  weights : List Leg
  votedWeightsActive : Bool
  defaultWeights : List Leg

/-- `_effectiveWeights`: the voted vector when it is active, the default vector otherwise. -/
def PortfolioRouter.effectiveWeights (r : PortfolioRouter) : List Leg :=
  if r.votedWeightsActive then r.weights else r.defaultWeights

/-- The event `RouterDeposit`. -/
structure RouterDeposit where
  depositor : Address
  vault : Address
  amount : Nat
  shares : Nat
  weightBps : Nat
  deriving DecidableEq, Repr

section Views

variable {σ : Type} (d : RouterDeployment) (env : RoutedVaults σ)

def isRouterEligible (w : RouterWorld σ) (vault : Address) : Except RouterError Bool :=
  if vault = 0 then .ok false
  else if env.hasCode w vault = false then .ok false
  else do
    match ← (env.asset w vault).caught (.callFailed vault) with
    | none => .ok false
    | some vaultAsset => .ok (vaultAsset == d.usdc && w.registry.routerEligible vault)

/-- `_isDepositable`: active, eligible, and open by its own `maxDeposit`. -/
def isDepositable (w : RouterWorld σ) (vault : Address) : Except RouterError Bool :=
  if w.registry.registered vault = false then .ok false
  else if w.registry.status vault ≠ .active then .ok false
  else do
    let eligible ← isRouterEligible d env w vault
    if eligible then
      match ← (env.maxDeposit w vault d.router).caught (.callFailed vault) with
      | none => .ok false
      | some cap => .ok (cap != 0)
    else .ok false

def requireRouterEligible (w : RouterWorld σ) (vault : Address) : Except RouterError Unit := do
  revertIf (env.hasCode w vault = false) (.vaultAssetUnreadable vault)
  match ← (env.asset w vault).caught (.callFailed vault) with
  | none => .error (.vaultAssetUnreadable vault)
  | some vaultAsset =>
    revertIf (vaultAsset ≠ d.usdc) (.vaultAssetMismatch vault vaultAsset)
    revertIf (w.registry.routerEligible vault = false) (.vaultNotRouterEligible vault)

def addBps (legs : List Leg) (available : Nat → Bool) (sum i : Nat) : Except RouterError Nat :=
  if available i then add sum (bpsAt legs i) else .ok sum

structure Split where
  legAmounts : Nat → Nat
  allocated : Nat
  lastAvailable : Nat

/-- One round of the split: the share of leg `i`, rounded down.  The last available leg that carries weight takes what
rounding leaves. -/
def splitLeg (legs : List Leg) (available : Nat → Bool) (amount availableBps : Nat) (s : Split) (i : Nat) :
    Except RouterError Split :=
  if available i then do
    let product ← mul amount (bpsAt legs i)
    let allocated ← add s.allocated (product / availableBps)
    .ok {
      legAmounts := update s.legAmounts i (product / availableBps)
      allocated
      lastAvailable := if bpsAt legs i ≠ 0 then i else s.lastAvailable }
  else .ok s

def splitAcrossAvailable (legs : List Leg) (available : Nat → Bool) (amount : Nat) :
    Except RouterError (Nat → Nat) := do
  let availableBps ← (range legs.length).foldlM (addBps legs available) 0
  if availableBps = 0 then .ok fun _ => 0
  else do
    let s ← (range legs.length).foldlM (splitLeg legs available amount availableBps) ⟨fun _ => 0, 0, 0⟩
    if s.allocated < amount then do
      let last ← add (s.legAmounts s.lastAvailable) (amount - s.allocated)
      .ok (update s.legAmounts s.lastAvailable last)
    else .ok s.legAmounts

structure Quotes where
  available : Nat → Bool
  legAmounts : Nat → Nat
  estShares : Nat → Nat
  dropped : Bool

/-- Ask leg `i` for a quote, if it is available and funded; a revert drops it. -/
def quoteLeg (w : RouterWorld σ) (legs : List Leg) (q : Quotes) (i : Nat) : Except RouterError Quotes :=
  if q.available i = false ∨ q.legAmounts i = 0 then .ok q
  else do
    match ← (env.previewDeposit w (vaultAt legs i) (q.legAmounts i)).caught (.callFailed (vaultAt legs i)) with
    | some shares => .ok { q with estShares := update q.estShares i shares }
    | none => .ok {
        q with
        available := update q.available i false
        estShares := update q.estShares i 0
        dropped := true }

def quoteRound (w : RouterWorld σ) (legs : List Leg) (amount : Nat) (q : Quotes) : Except RouterError Quotes := do
  let legAmounts ← splitAcrossAvailable legs q.available amount
  (range legs.length).foldlM (quoteLeg env w legs) { q with legAmounts, dropped := false }

/-- The loop, for at most `fuel` rounds. -/
def quoteRounds (w : RouterWorld σ) (legs : List Leg) (amount : Nat) : Nat → Quotes → Except RouterError Quotes
  | 0, q => .ok q
  | fuel + 1, q => do
    let q ← quoteRound env w legs amount q
    if q.dropped then quoteRounds w legs amount fuel q else .ok q

def markDepositable (w : RouterWorld σ) (legs : List Leg) (available : Nat → Bool) (i : Nat) :
    Except RouterError (Nat → Bool) := do
  let depositable ← isDepositable d env w (vaultAt legs i)
  .ok (update available i depositable)

/-- `_availabilityAndAmounts`.  Every round but the last drops a leg, so there are at most `n + 1` of them
(`quoteRounds_settled`). -/
def availabilityAndAmounts (w : RouterWorld σ) (legs : List Leg) (amount : Nat) : Except RouterError Quotes := do
  let available ← (range legs.length).foldlM (markDepositable d env w legs) fun _ => false
  quoteRounds env w legs amount (legs.length + 1) ⟨available, fun _ => 0, fun _ => 0, true⟩

structure LegPreview where
  vault : Address
  weightBps : Nat
  legAmount : Nat
  estShares : Nat
  unavailable : Bool
  deriving DecidableEq, Repr

def legPreview (legs : List Leg) (q : Quotes) (i : Nat) : LegPreview where
  vault := vaultAt legs i
  weightBps := bpsAt legs i
  legAmount := q.legAmounts i
  estShares := q.estShares i
  unavailable := !q.available i

def PortfolioRouter.previewDeposit (r : PortfolioRouter) (w : RouterWorld σ) (amount : Nat) :
    Except RouterError (List LegPreview) := do
  let legs := r.effectiveWeights
  let q ← availabilityAndAmounts d env w legs amount
  .ok ((range legs.length).map (legPreview legs q))

def RouterWorld.apply (w : RouterWorld σ) (eff : LegEffect σ) : RouterWorld σ where
  registry := eff.registry
  usdc := run (othersStep d.router) w.usdc eff.calls
  hidden := eff.hidden

/-- `_executeLeg`: the shares received, and the world after it. -/
def executeLeg (r : PortfolioRouter) (w : RouterWorld σ) (receiver vault : Address) (legAmount : Nat) :
    Except RouterError (Nat × RouterWorld σ) := do
  let status ← w.registry.getVault vault
  revertIf (status ≠ .active) (.vaultNotActive vault status)
  revertIf (r.vaultCap vault ≠ 0 ∧ r.vaultCap vault < legAmount) .vaultCapExceeded
  requireRouterEligible d env w vault
  let w := { w with usdc := w.usdc.approve d.router vault legAmount }
  match ← (env.deposit w vault legAmount receiver).caught (.callFailed vault) with
  | none => .error (.usdcLegTransferFailed vault)
  | some eff => .ok (eff.shares, w.apply d eff)

/-- The state of `_executeLegs`. -/
structure Execution (σ : Type) where
  world : RouterWorld σ
  sharesPerLeg : Nat → Nat
  log : List RouterDeposit

/-- The caller set a floor on leg `i` above `shares`. -/
def FloorAbove (minSharesPerLeg : List Nat) (i shares : Nat) : Prop :=
  minSharesPerLeg.length ≠ 0 ∧ shares < minSharesPerLeg.getD i 0

instance (minSharesPerLeg : List Nat) (i shares : Nat) : Decidable (FloorAbove minSharesPerLeg i shares) :=
  inferInstanceAs (Decidable (_ ∧ _))

/-- One round of `_executeLegs`.  A skipped leg delivers no shares, so it must not have a floor. -/
def executeNext (r : PortfolioRouter) (receiver : Address) (legs : List Leg) (q : Quotes) (minSharesPerLeg : List Nat)
    (x : Execution σ) (i : Nat) : Except RouterError (Execution σ) :=
  if q.available i = false ∨ q.legAmounts i = 0 then do
    revertIf (FloorAbove minSharesPerLeg i 0) (.legSkippedWithFloor (vaultAt legs i))
    .ok x
  else do
    let (shares, world) ← executeLeg d env r x.world receiver (vaultAt legs i) (q.legAmounts i)
    revertIf (FloorAbove minSharesPerLeg i shares) .slippageExceeded
    .ok {
      world
      sharesPerLeg := update x.sharesPerLeg i shares
      log := x.log ++ [⟨receiver, vaultAt legs i, q.legAmounts i, shares, bpsAt legs i⟩] }

/-- `_executeLegs`: the router's balance must end where it was. -/
def executeLegs (r : PortfolioRouter) (w : RouterWorld σ) (receiver : Address) (legs : List Leg) (q : Quotes)
    (minSharesPerLeg : List Nat) (usdcBalanceBefore : Nat) : Except RouterError (Execution σ) := do
  let x ← (range legs.length).foldlM (executeNext d env r receiver legs q minSharesPerLeg) ⟨w, fun _ => 0, []⟩
  revertIf (x.world.usdc.balance d.router ≠ usdcBalanceBefore) .usdcCustodyInvariantViolated
  .ok x

/-- Some leg satisfies `p`. -/
def anyLeg (legs : List Leg) (p : Nat → Bool) : Bool := (range legs.length).any p

/-- `safeTransferFrom` of the deposit. -/
def pullFromCaller (w : RouterWorld σ) (caller : Address) (amount : Nat) : Except RouterError (RouterWorld σ) := do
  let usdc ← (w.usdc.transferFrom d.router caller d.router amount).mapError RouterError.usdc
  .ok { w with usdc := usdc }

/-- `_depositTo`: the shares per leg, the world after it and the events. -/
def PortfolioRouter.depositTo (r : PortfolioRouter) (w : RouterWorld σ) (caller receiver : Address) (amount : Nat)
    (minSharesPerLeg : List Nat) : Except RouterError (List Nat × RouterWorld σ × List RouterDeposit) := do
  let legs := r.effectiveWeights
  revertIf (legs.length = 0) .noWeightsSet
  revertIf (r.routerCap ≠ 0 ∧ r.routerCap < amount) .routerCapExceeded
  let usdcBalanceBefore := w.usdc.balance d.router
  let w ← pullFromCaller d w caller amount
  revertIf (minSharesPerLeg.length ≠ 0 ∧ minSharesPerLeg.length ≠ legs.length) .minSharesLengthMismatch
  let q ← availabilityAndAmounts d env w legs amount
  revertIf (anyLeg legs q.available = false) .noWeightsSet
  revertIf (anyLeg legs (fun i => q.available i && q.legAmounts i != 0) = false) .noFundedLeg
  let x ← executeLegs d env r w receiver legs q minSharesPerLeg usdcBalanceBefore
  .ok ((range legs.length).map x.sharesPerLeg, x.world, x.log)

end Views

/-- The router, the world around it and the events so far. -/
structure RouterState (σ : Type) where
  router : PortfolioRouter
  world : RouterWorld σ
  log : List RouterDeposit

inductive DepositCall where
  | deposit (amount : Nat) (minSharesPerLeg : List Nat)
  | depositFor (receiver : Address) (amount : Nat) (minSharesPerLeg : List Nat)
  deriving DecidableEq, Repr

namespace DepositCall

def amount : DepositCall → Nat
  | .deposit amount _ => amount
  | .depositFor _ amount _ => amount

def minSharesPerLeg : DepositCall → List Nat
  | .deposit _ floors => floors
  | .depositFor _ _ floors => floors

def receiver (caller : Address) : DepositCall → Address
  | .deposit _ _ => caller
  | .depositFor receiver _ _ => receiver

end DepositCall

/-- `deposit` and `depositFor`; the latter refuses the zero receiver. -/
def RouterState.deposit {σ : Type} (d : RouterDeployment) (env : RoutedVaults σ) (s : RouterState σ) (caller : Address)
    (c : DepositCall) : Except RouterError (List Nat × RouterState σ) := do
  (match c with
    | .deposit _ _ => .ok ()
    | .depositFor receiver _ _ => revertIf (receiver = 0) .zeroAddress)
  let (sharesPerLeg, world, log) ←
    s.router.depositTo d env s.world caller (c.receiver caller) c.amount c.minSharesPerLeg
  .ok (sharesPerLeg, { s with world := world, log := s.log ++ log })

def routerStep {σ : Type} (d : RouterDeployment) (env : RoutedVaults σ) (s : RouterState σ)
    (tx : Address × DepositCall) :
    Except RouterError (RouterState σ) := do
  .ok (← s.deposit d env tx.1 tx.2).2

end RobotMoney
