import RobotMoney.Registry.Eligibility

/-!
# What a default vector lists

`_setDefaultWeights` compares the length of the vector with the count of the registry, asks for every vault to be
active and eligible, and refuses a vault that came before.  It never goes through the eligible vaults.  Since the count
is their number (`System.Counted`), a vector that passes is a permutation of them, and its weights add up to 10000
(`default_vector_is_permutation`).
-/

namespace RobotMoney.Registry

open Evm List

variable {site : RegistrySite} {s s' : System}

/-- A vector on a router of the system: the vaults and the weights are stored as given, the vaults are the eligible
ones, each once, and the weights add up. -/
structure System.Lists (s : System) (router : Address) (vaults : List Address) (bps : List Nat) : Prop where
  stored : ∃ r, s.routers router = some r ∧ r.defaultVaults = vaults ∧ r.defaultWeights.map Leg.bps = bps
  perm : vaults.Perm s.eligibleVaults.toList
  sum : bps.sum = 10000

def RegistryCall.vector (s : System) : RegistryCall site → Option (Address × List Address × List Nat)
  | .setDefaultWeights _ router _ vaults bps => some (router, vaults, bps)
  | .migrateEligibility _ _ _ _ vaults bps => some (s.router, vaults, bps)
  | _ => none

private theorem checkLegs_total {r : LinkedRouter} {assets : Address → Reply Address} {earlier : List Address}
    {legs : List Leg} {total n : Nat} (h : s.checkLegs site r assets earlier legs total = .ok n) :
    n = total + (legs.map Leg.bps).sum := by
  induction legs generalizing earlier total with
  | nil =>
    cases h
    simp
  | cons leg rest ih =>
    simp only [System.checkLegs, bind_eq_ok, add_eq_ok] at h
    obtain ⟨-, -, -, -, -, -, total', ⟨-, rfl⟩, h⟩ := h
    have hrest := ih h
    rw [map_cons, sum_cons]
    omega

theorem System.Counted.perm {vaults : List Address} (hs : s.Counted) (hlen : vaults.length = s.routerEligibleCount)
    (hn : vaults.Nodup) (hall : ∀ v ∈ vaults, s.registry.routerEligible v = true) :
    vaults.Perm s.eligibleVaults.toList := by
  rw [perm_ext_iff_of_nodup hn (Finset.nodup_toList _)]
  intro v
  rw [Finset.mem_toList, System.mem_eligibleVaults]
  exact hs.mem_iff hlen hn hall v

private theorem System.Counted.internalSetDefaultWeights (hs : s.Counted) {router : Address} {r : LinkedRouter}
    {assets : Address → Reply Address} {vaults : List Address} {bps : List Nat} (hself : r.registry = site.self)
    (h : s.internalSetDefaultWeights site router r assets vaults bps = .ok s') : s'.Lists router vaults bps := by
  obtain ⟨r', -, hvaults, hspan, hr'⟩ := System.internalSetDefaultWeights_ok h
  obtain ⟨hlen, hnodup, hall⟩ := hspan hself
  simp only [System.internalSetDefaultWeights, bind_eq_ok, revertIf_eq_ok, not_not, Except.ok.injEq] at h
  obtain ⟨-, hsame, -, -, total, htotal, -, rfl, rfl⟩ := h
  have hbps : (zipWith Leg.mk vaults bps).map Leg.bps = bps := by
    rw [map_zipWith]
    have hsnd := map_snd_zip (Nat.le_of_eq hsame.symm)
    rwa [map_zip_eq_zipWith] at hsnd
  have hsum := checkLegs_total htotal
  rw [hbps] at hsum
  have hstored := congrArg (fun t : System => t.routers router) hr'
  simp only [Function.update_self, Option.some.injEq] at hstored
  refine ⟨⟨_, Function.update_self .., hstored ▸ hvaults, hbps⟩, ?_, by omega⟩
  have hperm := hs.perm hlen hnodup fun v hv => (hall v hv).2
  exact hperm

/-- In every run of the registry its count is the number of the eligible vaults, and every call after it that sets a
default vector on a router of the registry sets a permutation of the eligible vaults, with weights that add up to
10000. -/
theorem default_vector_is_permutation {s₀ : System} (h₀ : s₀.Fresh site) (cs : List (RegistryCall site)) {s : System}
    (hs : run (registryStep site) s₀ cs = s) :
    s.routerEligibleCount = s.eligibleVaults.card ∧
      ∀ c s' router vaults bps r, registryStep site s c = .ok s' → c.vector s = some (router, vaults, bps) →
        s.routers router = some r → r.registry = site.self → s'.Lists router vaults bps := by
  have hcounted : s.Counted := by
    rw [← hs]
    exact run_invariant (fun s c s' hs hx => hs.moved (registryStep_moved hx)) h₀.counted cs
  refine ⟨hcounted, ?_⟩
  intro c s' router vaults bps r hx hvector hr hself
  cases c with
  | setDefaultWeights sender router' assets vaults' bps' =>
    obtain ⟨rfl, rfl, rfl⟩ : router' = router ∧ vaults' = vaults ∧ bps' = bps :=
      by simpa [RegistryCall.vector] using hvector
    simp only [registryStep, System.setDefaultWeights, hr, bind_eq_ok] at hx
    obtain ⟨-, -, hx⟩ := hx
    exact hcounted.internalSetDefaultWeights hself hx
  | migrateEligibility sender vault eligible assets vaults' bps' =>
    obtain ⟨rfl, rfl, rfl⟩ : s.router = router ∧ vaults' = vaults ∧ bps' = bps := by
      simpa [RegistryCall.vector] using hvector
    simp only [registryStep, System.migrateEligibility, bind_eq_ok] at hx
    obtain ⟨-, -, -, -, -, -, t, ht, hx⟩ := hx
    have hflipped := System.flipEligibility_ok ht
    have hrouter : t.router = s.router := by cases hflipped <;> rfl
    rw [System.applyMigrationDefaultWeights, hrouter, hflipped.routers, hr] at hx
    simp only [bind_eq_ok] at hx
    obtain ⟨-, -, hx⟩ := hx
    exact (hflipped.counted hcounted).internalSetDefaultWeights hself hx
  | _ => cases hvector

/-- The second vault of the sample becomes eligible by a migration that lists it first. -/
theorem default_vector_is_permutation_migrated :
    ∃ s', registryStep .sample (run (registryStep .sample) .sample (sampleListing ++ [.setRouter 1 7]))
        (.migrateEligibility 1 6 true (fun _ => .returned 2) [6, 5] [4000, 6000]) = .ok s' ∧
      s'.Lists 7 [6, 5] [4000, 6000] := by
  have hr : (run (registryStep .sample) .sample (sampleListing ++ [.setRouter 1 7])).routers 7 = some ⟨9, 2, []⟩ := by
    decide +kernel
  cases hx : registryStep .sample (run (registryStep .sample) .sample (sampleListing ++ [.setRouter 1 7]))
      (.migrateEligibility 1 6 true (fun _ => .returned 2) [6, 5] [4000, 6000]) with
  | ok s' =>
    exact ⟨s', rfl, (default_vector_is_permutation System.sample_fresh _ rfl).2 _ s' 7 [6, 5] [4000, 6000] _ hx
      (by decide +kernel) hr rfl⟩
  | error e =>
    have hok : (registryStep .sample (run (registryStep .sample) .sample (sampleListing ++ [.setRouter 1 7]))
        (.migrateEligibility 1 6 true (fun _ => .returned 2) [6, 5] [4000, 6000])).toBool = true := by decide +kernel
    rw [hx] at hok
    cases hok

end RobotMoney.Registry
