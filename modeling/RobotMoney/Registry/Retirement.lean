import RobotMoney.Registry.VaultRegistry
import RobotMoney.Vault.Calls

/-!
# The registry and its vaults agree on retirement

A vault keeps its own `retired` flag, and the registry keeps a status for it.  The hooks that write the flag answer to
the vault's link only, and the link is set once.  So the flag of a vault that follows this registry, or may still come
to follow it, is a function of the registry's two fields for it (`retiredFlag`), and it is clear as long as there is no
link (`Follows`).  Every call keeps that, since the calls that change a status write the flag in the same transaction
or revert.
-/

namespace RobotMoney.Registry

open Evm Registry.System

variable {site : RegistrySite} {s s' : System}

def System.retiredFlag (s : System) (a : Address) : Bool :=
  s.registry.registered a && decide (s.registry.status a ≠ .active)

/-- A vault that has no link or is linked to this registry carries the registry's flag; without a link it is clear. -/
structure System.Follows (site : RegistrySite) (s : System) (a : Address) (v : RetirableVault) : Prop where
  flag : v.registry = 0 ∨ v.registry = site.self → v.retired = s.retiredFlag a
  unlinked : v.registry = 0 → v.retired = false

def System.InStep (site : RegistrySite) (s : System) : Prop :=
  ∀ a v, s.contracts a = .vault v → s.Follows site a v

private theorem System.Fresh.inStep (h : s.Fresh site) : s.InStep site := by
  intro a v hv
  constructor
  · intro hl
    rw [h.vaults a v hv hl]
    simp [retiredFlag, h.registered]
  · intro h0
    exact h.vaults a v hv (.inl h0)

variable {a vault : Address} {v : RetirableVault}

theorem System.Follows.congr (h : s.Follows site a v) (hf : s'.retiredFlag a = s.retiredFlag a) : s'.Follows site a v :=
  ⟨fun hl => by rw [hf]; exact h.flag hl, h.unlinked⟩

private theorem System.InStep.congr (h : s.InStep site) (hc : s'.contracts = s.contracts)
    (hr : s'.registry.registered = s.registry.registered) (hs : s'.registry.status = s.registry.status) :
    s'.InStep site := by
  intro a v hv
  rw [hc] at hv
  refine (h a v hv).congr ?_
  simp only [retiredFlag, hr, hs]

private theorem System.retiredFlag_setStatus_of_ne {st : VaultStatus} (hne : a ≠ vault) :
    (s.setStatus vault st).retiredFlag a = s.retiredFlag a := by
  simp [retiredFlag, setStatus, hne]

private theorem System.InStep.registerVault {sender vault : Address} (h : s.InStep site)
    (hx : s.registerVault site sender vault = .ok s') : s'.InStep site := by
  obtain ⟨hfresh, rfl⟩ := registerVault_ok hx
  intro a v hv
  refine (h a v hv).congr ?_
  rcases eq_or_ne a vault with rfl | hne
  · simp [retiredFlag, setStatus, hfresh]
  · simp [retiredFlag, setStatus, hne]

private theorem System.InStep.statusChanged {st : VaultStatus} (h : s.InStep site)
    (hreg : s.registry.registered vault = true) (hx : s.StatusChanged site vault st s') : s'.InStep site := by
  cases hx with
  | @vault v hv hl =>
    intro a w hw
    rcases eq_or_ne a vault with rfl | hne
    · obtain rfl : _ = w := by simpa [setContract] using hw
      constructor
      · intro _
        simp [retiredFlag, setStatus, setContract, hreg]
      · intro h0
        exact absurd (hl.symm.trans h0) site.self_ne_zero
    have hw' : s.contracts a = .vault w := by simpa [setContract, setStatus, hne] using hw
    exact (h a w hw').congr (retiredFlag_setStatus_of_ne hne)
  | other hv =>
    intro a w hw
    have hne : a ≠ vault := by
      rintro rfl
      exact hv w hw
    exact (h a w hw).congr (retiredFlag_setStatus_of_ne hne)

theorem System.InStep.callVault {call : RetirableVault → Except RegistryError RetirableVault} (h : s.InStep site)
    (hcall : ∀ v v', s.Follows site vault v → call v = .ok v' → s.Follows site vault v')
    (hx : s.callVault vault call = .ok s') : s'.InStep site := by
  obtain ⟨v, v', hv, hv', rfl⟩ := callVault_ok hx
  intro a w hw
  rcases eq_or_ne a vault with rfl | hne
  · obtain rfl : v' = w := by simpa [setContract] using hw
    exact (hcall v v' (h a v hv) hv').congr rfl
  have hw' : s.contracts a = .vault w := by simpa [setContract, hne] using hw
  exact (h a w hw').congr rfl

private theorem System.Follows.setRegistry {a newRegistry : Address} {v v' : RetirableVault} (h : s.Follows site a v)
    (hx : v.setRegistry newRegistry = .ok v') : s.Follows site a v' := by
  obtain ⟨hne, h0, rfl⟩ := RetirableVault.setRegistry_eq_ok.1 hx
  constructor
  · intro _
    exact h.flag (.inl h0)
  · intro h0'
    exact absurd h0' hne

private theorem System.Follows.setRetired {v v' : RetirableVault} (caller : Caller site) {retired : Bool}
    (hx : v.setRetired caller.val retired = .ok v') : s.Follows site a v' := by
  obtain ⟨hsender, rfl⟩ := RetirableVault.setRetired_eq_ok.1 hx
  obtain ⟨h0, hself⟩ := caller.property
  constructor
  · rintro (hl | hl)
    · exact absurd (hsender.trans hl) h0
    · exact absurd (hsender.trans hl) hself
  · intro hl
    exact absurd (hsender.trans hl) h0

private theorem System.Flipped.lifecycle {eligible : Bool} (h : s.Flipped vault eligible s') :
    s'.contracts = s.contracts ∧ s'.registry.registered = s.registry.registered ∧
      s'.registry.status = s.registry.status := by
  cases h with
  | same _ => exact ⟨rfl, rfl, rfl⟩
  | flip _ _ => exact ⟨rfl, rfl, rfl⟩

theorem System.VectorSet.fields {router : Address} {vaults : List Address} (h : s.VectorSet site router vaults s') :
    s'.contracts = s.contracts ∧ s'.registry = s.registry ∧ s'.routerEligibleCount = s.routerEligibleCount ∧
      s'.router = s.router := by
  cases h
  exact ⟨rfl, rfl, rfl, rfl⟩

private theorem System.InStep.step {c : RegistryCall site} (h : s.InStep site) (hx : registryStep site s c = .ok s') :
    s'.InStep site := by
  cases c with
  | registerVault sender vault => exact h.registerVault hx
  | retire sender vault =>
    obtain ⟨hreg, -, hchanged⟩ := retire_ok hx
    exact h.statusChanged hreg hchanged
  | reactivate sender vault =>
    obtain ⟨hreg, hchanged⟩ := reactivate_ok hx
    exact h.statusChanged hreg hchanged
  | setVaultStatus sender vault newStatus =>
    obtain ⟨hreg, -, hchanged⟩ := setVaultStatus_ok hx
    exact h.statusChanged hreg hchanged
  | setRouterEligible sender vault eligible =>
    obtain ⟨hc, hr, hs⟩ := (setRouterEligible_ok hx).1.lifecycle
    exact h.congr hc hr hs
  | migrateEligibility sender vault eligible assets vaults bps =>
    obtain ⟨t, hflip, hset, -⟩ := migrateEligibility_ok hx
    obtain ⟨hc, hr, hs⟩ := hflip.lifecycle
    obtain ⟨hc', hr', -, -⟩ := hset.fields
    refine h.congr (hc'.trans hc) ?_ ?_
    · rw [hr', hr]
    · rw [hr', hs]
  | setRouter sender newRouter =>
    rw [setRouter_ok hx]
    exact h.congr rfl rfl rfl
  | setDefaultWeights sender router assets vaults bps =>
    obtain ⟨hc, hr, -, -⟩ := (setDefaultWeights_ok hx).fields
    exact h.congr hc (by rw [hr]) (by rw [hr])
  | vaultSetRegistry sender vault newRegistry =>
    simp only [registryStep, bind_eq_ok] at hx
    obtain ⟨u, -, hx⟩ := hx
    exact h.callVault (fun v v' hv hv' => hv.setRegistry hv') hx
  | vaultRetire caller vault | vaultUnretire caller vault =>
    exact h.callVault (fun v v' _ hv' => .setRetired caller hv') hx

/-- In every reachable state, a registered vault that follows this registry is retired exactly when its status is not
active. -/
theorem retirement_agrees {s₀ : System} (h₀ : s₀.Fresh site) (h : Reachable (registryStep site) s₀ s) {a : Address}
    {v : RetirableVault} (hv : s.contracts a = .vault v) (hl : v.registry = site.self)
    (hr : s.registry.registered a = true) : s.registry.status a ≠ .active ↔ v.retired = true := by
  have hstep : s.InStep site := h.invariant h₀.inStep fun _ _ _ hs hx => hs.step hx
  rw [(hstep a v hv).flag (.inr hl)]
  simp [retiredFlag, hr]

def samplePause : List (RegistryCall .sample) :=
  [.vaultSetRegistry 1 5 9, .registerVault 1 5, .setVaultStatus 1 5 .depositsPaused]

theorem retirement_agrees_paused :
    let s := run (registryStep .sample) .sample samplePause
    s.contracts 5 = .vault ⟨9, true⟩ ∧
      (s.registry.status 5 ≠ .active ↔ (⟨9, true⟩ : RetirableVault).retired = true) := by
  intro s
  have hv : s.contracts 5 = .vault ⟨9, true⟩ := by decide +kernel
  refine ⟨hv, ?_⟩
  exact retirement_agrees sample_fresh ⟨samplePause, rfl⟩ hv rfl (by decide +kernel)

section Vault

variable {σ : Type} {v v' : Vault σ}

def retirable (v : Vault σ) : RetirableVault := ⟨v.registry, v.retired⟩

theorem setRegistry_retirable {newRegistry : Address} (h : v.setRegistry newRegistry = .ok v') :
    (retirable v).setRegistry newRegistry = .ok (retirable v') := by
  simp only [Vault.setRegistry, bind_eq_ok, revertIf_eq_ok, Except.ok.injEq] at h
  obtain ⟨u, hne, u', h0, rfl⟩ := h
  exact RetirableVault.setRegistry_eq_ok.2 ⟨hne, not_not.1 h0, rfl⟩

theorem setRetired_retirable {sender : Address} {retired : Bool} (h : v.setRetired sender retired = .ok v') :
    (retirable v).setRetired sender retired = .ok (retirable v') := by
  simp only [Vault.setRetired, bind_eq_ok, revertIf_eq_ok, Except.ok.injEq] at h
  obtain ⟨u, hsender, rfl⟩ := h
  exact RetirableVault.setRetired_eq_ok.2 ⟨not_not.1 hsender, rfl⟩

end Vault

end RobotMoney.Registry
