import RobotMoney.Router.PortfolioRouter

/-!
# The vault registry (`VaultRegistry`)

The registry keeps the lifecycle status and the router eligibility of every vault.  Two facts of it are stored a second
time in other contracts: a vault's own `retired` flag, written through the hooks `retire` and `unretire` that only its
linked registry may call, and the default weight vector of a `PortfolioRouter`, which has to span the eligible vaults.
All three contracts are one system here, with every call that writes either side of the two facts.

Contracts at other addresses are of no interest beyond accepting or refusing the hooks.  A router may belong to another
registry; what that one admits into the router's vector is not restricted.
-/

namespace RobotMoney.Registry

open Evm Except Function List

inductive RegistryError where
  | accessControlUnauthorizedAccount (account : Address)
  | zeroAddress
  | alreadyRegistered
  | notRegistered
  | staleDefaultWeightsLength (expectedLength defaultLength : Nat)
  | routerUnlinkBlocked (defaultLength : Nat)
  | routerNotLinked
  | retireWhileRouterEligible (vault : Address)
  | registryAlreadySet
  | onlyRegistry
  | lengthMismatch
  | vaultNotActive (vault : Address) (status : VaultStatus)
  | vaultAssetUnreadable (vault : Address)
  | vaultAssetMismatch (vault vaultAsset : Address)
  | vaultNotRouterEligible (vault : Address)
  | duplicateVault (vault : Address)
  | invalidWeightSum
  | callFailed (target : Address)
  | panic (p : Panic)
  deriving DecidableEq, Repr

instance registryPanics : Panics RegistryError := ⟨.panic⟩

/-- The part of a vault that the registry writes, and the link that lets it. -/
structure RetirableVault where
  registry : Address
  retired : Bool
  deriving DecidableEq, Repr

/-- What is at an address: nothing, a vault, or another contract. -/
inductive Contract where
  | absent
  | vault (v : RetirableVault)
  | foreign (accepts : Bool)
  deriving DecidableEq, Repr

/-- The part of a `PortfolioRouter` that default weights concern; `registry` and `usdc` have no setter. -/
structure LinkedRouter where
  registry : Address
  usdc : Address
  defaultWeights : List Leg
  deriving DecidableEq, Repr

structure System where
  registry : VaultRegistry
  routerEligibleCount : Nat
  router : Address
  contracts : Address → Contract
  routers : Address → Option LinkedRouter

/-- The registry's own address, and who holds the admin role of each contract. -/
structure RegistrySite where
  self : Address
  self_ne_zero : self ≠ 0
  registryAdmin : Address → Bool
  vaultAdmin : (vault account : Address) → Bool
  routerAdmin : (router account : Address) → Bool

/-- An account that calls a vault directly: not the zero address, and not the registry, which only makes the calls its
code makes. -/
def Caller (site : RegistrySite) := { a : Address // a ≠ 0 ∧ a ≠ site.self }

/-- `setRegistry` of a vault: once. -/
def RetirableVault.setRegistry (v : RetirableVault) (newRegistry : Address) : Except RegistryError RetirableVault := do
  revertIf (newRegistry = 0) .zeroAddress
  revertIf (v.registry ≠ 0) .registryAlreadySet
  .ok { v with registry := newRegistry }

/-- The shape of `retire` and `unretire`: only the linked registry, and a no-op when nothing changes. -/
def RetirableVault.setRetired (v : RetirableVault) (sender : Address) (retired : Bool) :
    Except RegistryError RetirableVault := do
  revertIf (sender ≠ v.registry) .onlyRegistry
  .ok { v with retired := retired }

def RetirableVault.retire (v : RetirableVault) (sender : Address) : Except RegistryError RetirableVault :=
  v.setRetired sender true

def RetirableVault.unretire (v : RetirableVault) (sender : Address) : Except RegistryError RetirableVault :=
  v.setRetired sender false

namespace System

variable (site : RegistrySite)

def setContract (s : System) (a : Address) (c : Contract) : System :=
  { s with contracts := update s.contracts a c }

def callHook (s : System) (vault : Address) (hook : RetirableVault → Except RegistryError RetirableVault) :
    Except RegistryError System :=
  match s.contracts vault with
  | .absent => .error (.callFailed vault)
  | .foreign accepts => do
    revertIf (accepts = false) (.callFailed vault)
    .ok s
  | .vault v => do
    let v' ← hook v
    .ok (s.setContract vault (.vault v'))

def callVault (s : System) (vault : Address) (call : RetirableVault → Except RegistryError RetirableVault) :
    Except RegistryError System :=
  match s.contracts vault with
  | .vault v => do
    let v' ← call v
    .ok (s.setContract vault (.vault v'))
  | _ => .error (.callFailed vault)

def setStatus (s : System) (vault : Address) (status : VaultStatus) : System :=
  { s with registry := { s.registry with status := update s.registry.status vault status } }

def onlyAdmin (sender : Address) : Except RegistryError Unit :=
  revertIf (site.registryAdmin sender = false) (.accessControlUnauthorizedAccount sender)

def registerVault (s : System) (sender vault : Address) : Except RegistryError System := do
  onlyAdmin site sender
  revertIf (vault = 0) .zeroAddress
  revertIf (s.registry.registered vault = true) .alreadyRegistered
  .ok (({ s with registry :=
    { s.registry with registered := update s.registry.registered vault true } } : System).setStatus
      vault .active)

def retire (s : System) (sender vault : Address) : Except RegistryError System := do
  onlyAdmin site sender
  revertIf (s.registry.registered vault = false) .notRegistered
  revertIf (s.registry.routerEligible vault = true) (.retireWhileRouterEligible vault)
  (s.setStatus vault .retired).callHook vault (·.retire site.self)

def reactivate (s : System) (sender vault : Address) : Except RegistryError System := do
  onlyAdmin site sender
  revertIf (s.registry.registered vault = false) .notRegistered
  (s.setStatus vault .active).callHook vault (·.unretire site.self)

/-- The hook `setVaultStatus` drives. -/
def statusHook (newStatus : VaultStatus) (v : RetirableVault) : Except RegistryError RetirableVault :=
  if newStatus = .active then v.unretire site.self else v.retire site.self

/-- `setVaultStatus`: an address without code is skipped. -/
def setVaultStatus (s : System) (sender vault : Address) (newStatus : VaultStatus) : Except RegistryError System := do
  onlyAdmin site sender
  revertIf (s.registry.registered vault = false) .notRegistered
  revertIf (newStatus = .retired ∧ s.registry.routerEligible vault = true) (.retireWhileRouterEligible vault)
  if s.contracts vault ≠ .absent then (s.setStatus vault newStatus).callHook vault (statusHook site newStatus)
  else .ok (s.setStatus vault newStatus)

/-- `router.defaultWeightsLength()`. -/
def defaultWeightsLength (s : System) (router : Address) : Except RegistryError Nat :=
  match s.routers router with
  | none => .error (.callFailed router)
  | some r => .ok r.defaultWeights.length

/-- `_requireRouterEligible` of a router, with the vaults' answers to `asset()`. -/
def requireRouterEligible (s : System) (usdc : Address) (assets : Address → Reply Address) (vault : Address) :
    Except RegistryError Unit := do
  revertIf (s.contracts vault = .absent) (.vaultAssetUnreadable vault)
  match ← (assets vault).caught (.callFailed vault) with
  | none => .error (.vaultAssetUnreadable vault)
  | some vaultAsset =>
    revertIf (vaultAsset ≠ usdc) (.vaultAssetMismatch vault vaultAsset)
    revertIf (s.registry.routerEligible vault = false) (.vaultNotRouterEligible vault)

/-- `_requireActiveAndEligible` of a router of this registry. -/
def requireActiveAndEligible (s : System) (usdc : Address) (assets : Address → Reply Address) (vault : Address) :
    Except RegistryError Unit := do
  revertIf (s.registry.registered vault = false) .notRegistered
  revertIf (s.registry.status vault ≠ .active) (.vaultNotActive vault (s.registry.status vault))
  s.requireRouterEligible usdc assets vault

def requireAdmitted (s : System) (r : LinkedRouter) (assets : Address → Reply Address) (vault : Address) :
    Except RegistryError Unit :=
  if r.registry = site.self then s.requireActiveAndEligible r.usdc assets vault else .ok ()

/-- The loop of `_setDefaultWeights`, with the vaults before the current one, which `_requireNotRepeated` scans, and
the sum of their weights. -/
def checkLegs (s : System) (r : LinkedRouter) (assets : Address → Reply Address) :
    (earlier : List Address) → List Leg → (total : Nat) → Except RegistryError Nat
  | _, [], total => .ok total
  | earlier, leg :: rest, total => do
    revertIf (leg.vault = 0) .zeroAddress
    s.requireAdmitted site r assets leg.vault
    revertIf (leg.vault ∈ earlier) (.duplicateVault leg.vault)
    let total ← add total leg.bps
    checkLegs s r assets (earlier ++ [leg.vault]) rest total

/-- `_setDefaultWeights`. -/
def internalSetDefaultWeights (s : System) (router : Address) (r : LinkedRouter) (assets : Address → Reply Address)
    (vaults : List Address) (bps : List Nat) : Except RegistryError System := do
  revertIf (vaults.length ≠ bps.length) .lengthMismatch
  revertIf (r.registry = site.self ∧ vaults.length ≠ s.routerEligibleCount) .lengthMismatch
  let legs := zipWith Leg.mk vaults bps
  let total ← s.checkLegs site r assets [] legs 0
  revertIf (total ≠ 10000) .invalidWeightSum
  .ok { s with routers := update s.routers router (some { r with defaultWeights := legs }) }

/-- `setDefaultWeights` of a router. -/
def setDefaultWeights (s : System) (sender router : Address) (assets : Address → Reply Address) (vaults : List Address)
    (bps : List Nat) : Except RegistryError System :=
  match s.routers router with
  | none => .error (.callFailed router)
  | some r => do
    revertIf (site.routerAdmin router sender = false) (.accessControlUnauthorizedAccount sender)
    s.internalSetDefaultWeights site router r assets vaults bps

/-- `applyMigrationDefaultWeights`, called by the registry. -/
def applyMigrationDefaultWeights (s : System) (router : Address) (assets : Address → Reply Address)
    (vaults : List Address) (bps : List Nat) : Except RegistryError System :=
  match s.routers router with
  | none => .error (.callFailed router)
  | some r => do
    revertIf (site.self ≠ r.registry) .onlyRegistry
    s.internalSetDefaultWeights site router r assets vaults bps

def flippedCount (count : Nat) (eligible : Bool) : Except RegistryError Nat :=
  if eligible then add count 1 else sub count 1

def setEligible (s : System) (vault : Address) (eligible : Bool) (count : Nat) : System :=
  { s with
    registry := { s.registry with routerEligible := update s.registry.routerEligible vault eligible }
    routerEligibleCount := count }

/-- The stale-length guard of `setRouterEligible`. -/
def requireFreshLength (s : System) (newCount : Nat) : Except RegistryError Unit :=
  if s.router ≠ 0 then do
    let defaultLength ← s.defaultWeightsLength s.router
    revertIf (defaultLength ≠ 0 ∧ defaultLength ≠ newCount) (.staleDefaultWeightsLength newCount defaultLength)
  else .ok ()

def setRouterEligible (s : System) (sender vault : Address) (eligible : Bool) : Except RegistryError System := do
  onlyAdmin site sender
  revertIf (s.registry.registered vault = false) .notRegistered
  if s.registry.routerEligible vault = eligible then .ok s
  else do
    let newCount ← flippedCount s.routerEligibleCount eligible
    s.requireFreshLength newCount
    .ok (s.setEligible vault eligible newCount)

/-- The flip of `migrateEligibility`. -/
def flipEligibility (s : System) (vault : Address) (eligible : Bool) : Except RegistryError System :=
  if s.registry.routerEligible vault = eligible then .ok s
  else do
    let newCount ← flippedCount s.routerEligibleCount eligible
    .ok (s.setEligible vault eligible newCount)

def migrateEligibility (s : System) (sender vault : Address) (eligible : Bool) (assets : Address → Reply Address)
    (defaultVaults : List Address) (defaultBps : List Nat) : Except RegistryError System := do
  onlyAdmin site sender
  revertIf (s.registry.registered vault = false) .notRegistered
  revertIf (s.router = 0) .routerNotLinked
  let s ← s.flipEligibility vault eligible
  s.applyMigrationDefaultWeights site s.router assets defaultVaults defaultBps

/-- The unlink guard of `setRouter`. -/
def requireUnlinkable (s : System) (newRouter : Address) : Except RegistryError Unit :=
  if newRouter = 0 ∧ s.router ≠ 0 then do
    let defaultLength ← s.defaultWeightsLength s.router
    revertIf (defaultLength ≠ 0) (.routerUnlinkBlocked defaultLength)
  else .ok ()

def setRouter (s : System) (sender newRouter : Address) : Except RegistryError System := do
  onlyAdmin site sender
  s.requireUnlinkable newRouter
  .ok { s with router := newRouter }

end System

inductive RegistryCall (site : RegistrySite) where
  | registerVault (sender vault : Address)
  | retire (sender vault : Address)
  | reactivate (sender vault : Address)
  | setVaultStatus (sender vault : Address) (newStatus : VaultStatus)
  | setRouterEligible (sender vault : Address) (eligible : Bool)
  | migrateEligibility (sender vault : Address) (eligible : Bool) (assets : Address → Reply Address)
      (defaultVaults : List Address) (defaultBps : List Nat)
  | setRouter (sender newRouter : Address)
  | setDefaultWeights (sender router : Address) (assets : Address → Reply Address) (vaults : List Address)
      (bps : List Nat)
  | vaultSetRegistry (sender vault newRegistry : Address)
  | vaultRetire (caller : Caller site) (vault : Address)
  | vaultUnretire (caller : Caller site) (vault : Address)

def registryStep (site : RegistrySite) (s : System) : RegistryCall site → Except RegistryError System
  | .registerVault sender vault => s.registerVault site sender vault
  | .retire sender vault => s.retire site sender vault
  | .reactivate sender vault => s.reactivate site sender vault
  | .setVaultStatus sender vault newStatus => s.setVaultStatus site sender vault newStatus
  | .setRouterEligible sender vault eligible => s.setRouterEligible site sender vault eligible
  | .migrateEligibility sender vault eligible assets vaults bps =>
    s.migrateEligibility site sender vault eligible assets vaults bps
  | .setRouter sender newRouter => s.setRouter site sender newRouter
  | .setDefaultWeights sender router assets vaults bps => s.setDefaultWeights site sender router assets vaults bps
  | .vaultSetRegistry sender vault newRegistry => do
    revertIf (site.vaultAdmin vault sender = false) (.accessControlUnauthorizedAccount sender)
    s.callVault vault (·.setRegistry newRegistry)
  | .vaultRetire caller vault => s.callVault vault (·.retire caller.val)
  | .vaultUnretire caller vault => s.callVault vault (·.unretire caller.val)

/-- A new registry among deployed contracts: nothing is registered, eligible or linked, and a vault that may come to
follow this registry is not retired. -/
structure System.Fresh (site : RegistrySite) (s : System) : Prop where
  registered : ∀ v, s.registry.registered v = false
  routerEligible : ∀ v, s.registry.routerEligible v = false
  routerEligibleCount : s.routerEligibleCount = 0
  router : s.router = 0
  vaults : ∀ a v, s.contracts a = .vault v → v.registry = 0 ∨ v.registry = site.self → v.retired = false
  zero : s.routers 0 = none

def RegistrySite.sample : RegistrySite where
  self := 9
  self_ne_zero := by decide
  registryAdmin a := a = 1
  vaultAdmin _ a := a = 1
  routerAdmin _ a := a = 1

/-- Vaults at 5 and 6 without a link, and a router of this registry at 7 without default weights. -/
def System.sample : System where
  registry := ⟨fun _ => false, fun _ => .active, fun _ => false⟩
  routerEligibleCount := 0
  router := 0
  contracts a := if a = 5 ∨ a = 6 then .vault ⟨0, false⟩ else .absent
  routers a := if a = 7 then some ⟨9, 2, []⟩ else none

theorem System.sample_fresh : sample.Fresh .sample where
  registered _ := rfl
  routerEligible _ := rfl
  routerEligibleCount := rfl
  router := rfl
  vaults a v hv _ := by
    simp only [System.sample] at hv
    split at hv
    · cases hv
      rfl
    · cases hv
  zero := rfl

section Lifecycle

variable {site : RegistrySite} {s s' : System} {sender vault : Address} {st : VaultStatus}

@[simp] theorem RetirableVault.setRetired_eq_ok {v v' : RetirableVault} {sender : Address} {retired : Bool} :
    v.setRetired sender retired = .ok v' ↔ sender = v.registry ∧ v' = { v with retired := retired } := by
  rw [eq_comm (a := v')]
  simp [RetirableVault.setRetired, bind_eq_ok]

@[simp] theorem RetirableVault.setRegistry_eq_ok {v v' : RetirableVault} {newRegistry : Address} :
    v.setRegistry newRegistry = .ok v' ↔
      newRegistry ≠ 0 ∧ v.registry = 0 ∧ v' = { v with registry := newRegistry } := by
  rw [eq_comm (a := v')]
  simp [RetirableVault.setRegistry, bind_eq_ok]

private theorem System.statusHook_eq_ok {v v' : RetirableVault} : statusHook site st v = .ok v' ↔
    site.self = v.registry ∧ v' = { v with retired := decide (st ≠ .active) } := by
  unfold statusHook RetirableVault.unretire RetirableVault.retire
  split <;> simp [*]

/-- What a status change leaves behind: the new status, and the flag it stands for on a vault that follows this
registry.  A vault that does not follow it makes the whole call revert. -/
inductive System.StatusChanged (site : RegistrySite) (s : System) (vault : Address) (st : VaultStatus) :
    System → Prop
  | vault {v : RetirableVault} (hv : s.contracts vault = .vault v) (hl : v.registry = site.self) :
      StatusChanged site s vault st
        ((s.setStatus vault st).setContract vault (.vault { v with retired := decide (st ≠ .active) }))
  | other (hv : ∀ v, s.contracts vault ≠ .vault v) : StatusChanged site s vault st (s.setStatus vault st)

private theorem System.callHook_statusHook (h : (s.setStatus vault st).callHook vault (statusHook site st) = .ok s') :
    s.StatusChanged site vault st s' := by
  unfold callHook at h
  split at h
  case h_1 hc => cases h
  case h_2 hc =>
    simp only [bind_eq_ok, ok.injEq] at h
    obtain ⟨u, -, rfl⟩ := h
    refine .other fun v hv => ?_
    rw [show s.contracts vault = .foreign _ from hc] at hv
    cases hv
  case h_3 v hc =>
    simp only [bind_eq_ok, statusHook_eq_ok, ok.injEq] at h
    obtain ⟨v', ⟨hl, rfl⟩, rfl⟩ := h
    exact .vault hc hl.symm

theorem System.registerVault_ok (h : s.registerVault site sender vault = .ok s') : s.registry.registered vault = false ∧
      s' = ({ s with registry :=
        { s.registry with registered := update s.registry.registered vault true } } : System).setStatus vault
          .active := by
  simp only [registerVault, bind_eq_ok, revertIf_eq_ok, ok.injEq] at h
  obtain ⟨u, -, u', -, u'', hr, rfl⟩ := h
  exact ⟨by simpa using hr, rfl⟩

theorem System.retire_ok (h : s.retire site sender vault = .ok s') :
    s.registry.registered vault = true ∧ s.registry.routerEligible vault = false ∧
      s.StatusChanged site vault .retired s' := by
  simp only [System.retire, bind_eq_ok, revertIf_eq_ok] at h
  obtain ⟨u, -, u', hr, u'', he, h⟩ := h
  exact ⟨by simpa using hr, by simpa using he, callHook_statusHook h⟩

theorem System.reactivate_ok (h : s.reactivate site sender vault = .ok s') :
    s.registry.registered vault = true ∧ s.StatusChanged site vault .active s' := by
  simp only [reactivate, bind_eq_ok, revertIf_eq_ok] at h
  obtain ⟨u, -, u', hr, h⟩ := h
  exact ⟨by simpa using hr, callHook_statusHook h⟩

theorem System.setVaultStatus_ok (h : s.setVaultStatus site sender vault st = .ok s') :
    s.registry.registered vault = true ∧ (st = .retired → s.registry.routerEligible vault = false) ∧
      s.StatusChanged site vault st s' := by
  simp only [setVaultStatus, bind_eq_ok, revertIf_eq_ok] at h
  obtain ⟨u, -, u', hr, u'', he, h⟩ := h
  refine ⟨by simpa using hr, fun hs => by simpa [hs] using he, ?_⟩
  split at h
  case isTrue hc => exact callHook_statusHook h
  case isFalse hc =>
    rw [← ok.inj h]
    refine .other fun v hv => ?_
    simp [hv] at hc

theorem System.callVault_ok {call : RetirableVault → Except RegistryError RetirableVault}
    (h : s.callVault vault call = .ok s') :
    ∃ v v', s.contracts vault = .vault v ∧ call v = .ok v' ∧ s' = s.setContract vault (.vault v') := by
  unfold callVault at h
  split at h
  case h_1 v hc =>
    simp only [bind_eq_ok, ok.injEq] at h
    obtain ⟨v', hcall, rfl⟩ := h
    exact ⟨v, v', hc, hcall, rfl⟩
  case h_2 hc => cases h

end Lifecycle

section Eligibility

variable {site : RegistrySite} {s s' : System} {sender vault router : Address} {eligible : Bool}
  {r : LinkedRouter} {assets : Address → Reply Address} {vaults : List Address} {bps : List Nat}

def LinkedRouter.defaultVaults (r : LinkedRouter) : List Address := r.defaultWeights.map Leg.vault

@[simp] theorem LinkedRouter.length_defaultVaults : r.defaultVaults.length = r.defaultWeights.length :=
  length_map ..

def System.ActiveAndEligible (s : System) (vault : Address) : Prop :=
  s.registry.status vault = .active ∧ s.registry.routerEligible vault = true

private theorem System.requireActiveAndEligible_ok {usdc : Address} {u : Unit}
    (h : s.requireActiveAndEligible usdc assets vault = .ok u) : s.ActiveAndEligible vault := by
  simp only [requireActiveAndEligible, requireRouterEligible, bind_eq_ok, revertIf_eq_ok] at h
  obtain ⟨u₁, -, u₂, hs, u₃, -, reply, -, h⟩ := h
  cases reply with
  | none => cases h
  | some vaultAsset =>
    simp only [bind_eq_ok, revertIf_eq_ok] at h
    obtain ⟨u₄, -, he⟩ := h
    exact ⟨by simpa using hs, by simpa using he⟩

private theorem System.checkLegs_ok {earlier : List Address} {legs : List Leg} {total n : Nat} (hn : earlier.Nodup)
    (h : s.checkLegs site r assets earlier legs total = .ok n) : (earlier ++ legs.map Leg.vault).Nodup ∧
      (r.registry = site.self → ∀ v ∈ legs.map Leg.vault, s.ActiveAndEligible v) := by
  induction legs generalizing earlier total with
  | nil => simpa using hn
  | cons leg rest ih =>
    simp only [checkLegs, bind_eq_ok, revertIf_eq_ok] at h
    obtain ⟨u, -, u', hadmitted, u'', hfresh, total', -, h⟩ := h
    have hn' : (earlier ++ [leg.vault]).Nodup := by
      rw [nodup_append]
      refine ⟨hn, nodup_singleton _, ?_⟩
      rintro a ha b hb rfl
      exact hfresh (mem_singleton.1 hb ▸ ha)
    obtain ⟨hnodup, hall⟩ := ih hn' h
    refine ⟨by simpa using hnodup, fun hr v hv => ?_⟩
    rw [map_cons, mem_cons] at hv
    rcases hv with rfl | hv
    · rw [requireAdmitted, if_pos hr] at hadmitted
      exact requireActiveAndEligible_ok hadmitted
    · exact hall hr v hv

theorem System.internalSetDefaultWeights_ok (h : s.internalSetDefaultWeights site router r assets vaults bps = .ok s') :
    ∃ r', r'.registry = r.registry ∧ r'.defaultVaults = vaults ∧
      (r.registry = site.self → vaults.length = s.routerEligibleCount ∧ vaults.Nodup ∧
        ∀ v ∈ vaults, s.ActiveAndEligible v) ∧
      s' = { s with routers := update s.routers router (some r') } := by
  simp only [internalSetDefaultWeights, bind_eq_ok, revertIf_eq_ok, ok.injEq] at h
  obtain ⟨u, hlen, u', hcount, total, hlegs, u'', -, rfl⟩ := h
  have hvaults : (zipWith Leg.mk vaults bps).map Leg.vault = vaults := by
    rw [map_zipWith]
    have := map_fst_zip (Nat.le_of_eq (not_not.1 hlen))
    rwa [map_zip_eq_zipWith] at this
  obtain ⟨hnodup, hall⟩ := checkLegs_ok nodup_nil hlegs
  rw [hvaults] at hnodup hall
  refine ⟨{ r with defaultWeights := zipWith Leg.mk vaults bps }, rfl, hvaults, fun hr => ?_, rfl⟩
  exact ⟨by simpa [hr] using hcount, hnodup, hall hr⟩

/-- What a flip of the flag leaves behind: nothing when the flag is as asked, else the flag and the count. -/
inductive System.Flipped (s : System) (vault : Address) (eligible : Bool) : System → Prop
  | same (h : s.registry.routerEligible vault = eligible) : Flipped s vault eligible s
  | flip {n : Nat} (h : s.registry.routerEligible vault ≠ eligible)
      (hn : System.flippedCount s.routerEligibleCount eligible = .ok n) :
      Flipped s vault eligible (s.setEligible vault eligible n)

theorem System.setRouterEligible_ok (h : s.setRouterEligible site sender vault eligible = .ok s') :
    s.Flipped vault eligible s' ∧ (s' = s ∨ s.router = 0 ∨ ∃ r, s.routers s.router = some r ∧
        (r.defaultVaults = [] ∨ r.defaultVaults.length = s'.routerEligibleCount)) := by
  simp only [setRouterEligible, bind_eq_ok, revertIf_eq_ok] at h
  obtain ⟨u, -, u', -, h⟩ := h
  split at h
  case isTrue he =>
    rw [← ok.inj h]
    exact ⟨.same he, .inl rfl⟩
  case isFalse he =>
    simp only [bind_eq_ok, ok.injEq] at h
    obtain ⟨n, hn, u'', hfresh, rfl⟩ := h
    refine ⟨.flip he hn, .inr ?_⟩
    unfold requireFreshLength at hfresh
    split at hfresh
    case isFalse h0 => exact .inl (not_not.1 h0)
    case isTrue h0 =>
      simp only [bind_eq_ok, revertIf_eq_ok, defaultWeightsLength] at hfresh
      obtain ⟨len, hlen, hguard⟩ := hfresh
      cases hr : s.routers s.router with
      | none => simp [hr] at hlen
      | some r =>
        rw [hr, ok.injEq] at hlen
        refine .inr ⟨r, rfl, ?_⟩
        rw [← length_eq_zero_iff, LinkedRouter.length_defaultVaults, hlen]
        by_contra hcon
        exact hguard (not_or.1 hcon)

theorem System.flipEligibility_ok (h : s.flipEligibility vault eligible = .ok s') : s.Flipped vault eligible s' := by
  unfold flipEligibility at h
  split at h
  case isTrue he =>
    rw [← ok.inj h]
    exact .same he
  case isFalse he =>
    simp only [bind_eq_ok, ok.injEq] at h
    obtain ⟨n, hn, rfl⟩ := h
    exact .flip he hn

/-- A default vector is written on a router: on one of this registry, with as many vaults as are eligible, all
different, active and eligible. -/
inductive System.VectorSet (site : RegistrySite) (s : System) (router : Address) (vaults : List Address) :
    System → Prop
  | mk {r r' : LinkedRouter} (hr : s.routers router = some r) (hreg : r'.registry = r.registry)
      (hv : r'.defaultVaults = vaults)
      (hspan : r.registry = site.self → vaults.length = s.routerEligibleCount ∧ vaults.Nodup ∧
        ∀ v ∈ vaults, s.ActiveAndEligible v) :
      VectorSet site s router vaults { s with routers := update s.routers router (some r') }

theorem System.setDefaultWeights_ok (h : s.setDefaultWeights site sender router assets vaults bps = .ok s') :
    s.VectorSet site router vaults s' := by
  unfold setDefaultWeights at h
  split at h
  case h_1 hr => cases h
  case h_2 r hr =>
    simp only [bind_eq_ok] at h
    obtain ⟨u, -, h⟩ := h
    obtain ⟨r', hreg, hv, hspan, rfl⟩ := internalSetDefaultWeights_ok h
    exact .mk hr hreg hv hspan

private theorem System.applyMigrationDefaultWeights_ok
    (h : s.applyMigrationDefaultWeights site router assets vaults bps = .ok s') :
    s.VectorSet site router vaults s' ∧ ∀ r, s.routers router = some r → r.registry = site.self := by
  unfold applyMigrationDefaultWeights at h
  split at h
  case h_1 hr => cases h
  case h_2 r hr =>
    simp only [bind_eq_ok, revertIf_eq_ok] at h
    obtain ⟨u, hself, h⟩ := h
    obtain ⟨r', hreg, hv, hspan, rfl⟩ := internalSetDefaultWeights_ok h
    refine ⟨.mk hr hreg hv hspan, fun r₁ hr₁ => ?_⟩
    obtain rfl : r = r₁ := Option.some.inj (hr.symm.trans hr₁)
    exact (not_not.1 hself).symm

theorem System.migrateEligibility_ok (h : s.migrateEligibility site sender vault eligible assets vaults bps = .ok s') :
    ∃ t, s.Flipped vault eligible t ∧ t.VectorSet site t.router vaults s' ∧
      ∀ r, t.routers t.router = some r → r.registry = site.self := by
  simp only [migrateEligibility, bind_eq_ok, revertIf_eq_ok] at h
  obtain ⟨u, -, u', -, u'', -, t, ht, h⟩ := h
  obtain ⟨hset, hself⟩ := applyMigrationDefaultWeights_ok h
  exact ⟨t, flipEligibility_ok ht, hset, hself⟩

theorem System.setRouter_ok {newRouter : Address} (h : s.setRouter site sender newRouter = .ok s') :
    s' = { s with router := newRouter } := by
  simp only [setRouter, bind_eq_ok, ok.injEq] at h
  obtain ⟨u, -, u', -, rfl⟩ := h
  rfl

end Eligibility

end RobotMoney.Registry
