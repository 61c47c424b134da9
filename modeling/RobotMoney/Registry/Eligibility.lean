import RobotMoney.Registry.Retirement

/-!
# Router eligibility, retirement and default weights

Two rules tie eligibility to the other facts of the system.  A retired vault is not eligible, and the default vector of
the linked router is empty or lists the eligible vaults.  Both are guarded in one direction only.  Retirement asks for
eligibility, but `setRouterEligible` does not ask for the status; a change of eligibility asks for the linked router's
vector, but `setRouter` does not ask for the vector of the router it links.  So each rule holds along the runs that
stay clear of its unguarded call, and fails after it.

That `migrateEligibility` needs no condition is a matter of counting: the count is the number of eligible vaults
(`Counted`), so a vector of that length without repetitions, all active and eligible, lists every eligible vault, and
the vault that has just become eligible is active.
-/

namespace RobotMoney.Registry

open Evm List Function Registry.System Finset

variable {site : RegistrySite} {s s' : System}

/-- The fields that eligibility and default weights are stored in. -/
structure System.SameEligibility (s s' : System) : Prop where
  routerEligible : s'.registry.routerEligible = s.registry.routerEligible
  routerEligibleCount : s'.routerEligibleCount = s.routerEligibleCount
  router : s'.router = s.router
  routers : s'.routers = s.routers

/-- The calls by their effect.  A lifecycle call retires only a vault that is not eligible. -/
inductive System.Moved (site : RegistrySite) (s : System) : RegistryCall site → System → Prop
  | lifecycle {c : RegistryCall site} {s' : System} (same : s.SameEligibility s')
      (retired : ∀ v, s.registry.routerEligible v = true → s'.registry.status v = .retired →
        s.registry.status v = .retired) : Moved site s c s'
  | eligible {sender vault : Address} {eligible : Bool} {s' : System} (flipped : s.Flipped vault eligible s')
      (guard : s' = s ∨ s.router = 0 ∨ ∃ r, s.routers s.router = some r ∧
        (r.defaultVaults = [] ∨ r.defaultVaults.length = s'.routerEligibleCount)) :
      Moved site s (.setRouterEligible sender vault eligible) s'
  | migrated {sender vault : Address} {eligible : Bool} {assets : Address → Reply Address} {vaults : List Address}
      {bps : List Nat} {t s' : System} (flipped : s.Flipped vault eligible t)
      (set : t.VectorSet site t.router vaults s') (own : ∀ r, t.routers t.router = some r → r.registry = site.self) :
      Moved site s (.migrateEligibility sender vault eligible assets vaults bps) s'
  | linked {sender newRouter : Address} : Moved site s (.setRouter sender newRouter) { s with router := newRouter }
  | weighted {sender router : Address} {assets : Address → Reply Address} {vaults : List Address} {bps : List Nat}
      {s' : System} (set : s.VectorSet site router vaults s') :
      Moved site s (.setDefaultWeights sender router assets vaults bps) s'

variable {vault : Address} {st : VaultStatus} {c : RegistryCall site} {eligible : Bool} {vaults : List Address}

section

variable (h : s.StatusChanged site vault st s')

include h

private theorem System.StatusChanged.sameEligibility : s.SameEligibility s' := by
  cases h with
  | vault hv hl => exact ⟨rfl, rfl, rfl, rfl⟩
  | other hv => exact ⟨rfl, rfl, rfl, rfl⟩

theorem System.StatusChanged.status_eq : s'.registry.status = update s.registry.status vault st := by
  cases h with
  | vault hv hl => rfl
  | other hv => rfl

private theorem System.StatusChanged.moved
    (hguard : st = .retired → s.registry.routerEligible vault = false) (c : RegistryCall site) : s.Moved site c s' := by
  refine .lifecycle h.sameEligibility fun v he hs => ?_
  rw [h.status_eq] at hs
  rcases eq_or_ne v vault with rfl | hne
  · rw [update_self] at hs
    rw [hguard hs] at he
    cases he
  · rwa [update_of_ne hne] at hs

end

private theorem System.callVault_moved {call : RetirableVault → Except RegistryError RetirableVault}
    (h : s.callVault vault call = .ok s') (c : RegistryCall site) : s.Moved site c s' := by
  obtain ⟨v, v', -, -, rfl⟩ := callVault_ok h
  exact .lifecycle ⟨rfl, rfl, rfl, rfl⟩ fun _ _ hs => hs

theorem registryStep_moved (hx : registryStep site s c = .ok s') : s.Moved site c s' := by
  cases c with
  | registerVault sender vault =>
    obtain ⟨-, rfl⟩ := registerVault_ok hx
    refine .lifecycle ⟨rfl, rfl, rfl, rfl⟩ fun v _ hs => ?_
    rcases eq_or_ne v vault with rfl | hne
    · simp [setStatus] at hs
    · simpa [setStatus, hne] using hs
  | retire sender vault =>
    obtain ⟨-, he, hchanged⟩ := retire_ok hx
    exact hchanged.moved (fun _ => he) _
  | reactivate sender vault =>
    obtain ⟨-, hchanged⟩ := reactivate_ok hx
    exact hchanged.moved (fun hs => by cases hs) _
  | setVaultStatus sender vault newStatus =>
    obtain ⟨-, he, hchanged⟩ := setVaultStatus_ok hx
    exact hchanged.moved he _
  | setRouterEligible sender vault eligible =>
    obtain ⟨hflip, hguard⟩ := setRouterEligible_ok hx
    exact .eligible hflip hguard
  | migrateEligibility sender vault eligible assets vaults bps =>
    obtain ⟨t, hflip, hset, hown⟩ := migrateEligibility_ok hx
    exact .migrated hflip hset hown
  | setRouter sender newRouter =>
    rw [setRouter_ok hx]
    exact .linked
  | setDefaultWeights sender router assets vaults bps => exact .weighted (setDefaultWeights_ok hx)
  | vaultSetRegistry sender vault newRegistry =>
    simp only [registryStep, bind_eq_ok] at hx
    obtain ⟨u, -, hx⟩ := hx
    exact callVault_moved hx _
  | vaultRetire caller vault => exact callVault_moved hx _
  | vaultUnretire caller vault => exact callVault_moved hx _

def System.eligibleVaults (s : System) : Finset Address :=
  univ.filter fun v => s.registry.routerEligible v = true

@[simp] theorem System.mem_eligibleVaults {v : Address} :
    v ∈ s.eligibleVaults ↔ s.registry.routerEligible v = true := by
  simp [eligibleVaults]

def System.Counted (s : System) : Prop := s.routerEligibleCount = s.eligibleVaults.card

theorem System.Fresh.counted (h : s.Fresh site) : s.Counted := by
  have hempty : s.eligibleVaults = ∅ := by
    ext v
    simp [h.routerEligible]
  rw [System.Counted, hempty, h.routerEligibleCount, card_empty]

section

variable (hs : s.Counted)

include hs

theorem System.Flipped.counted (h : s.Flipped vault eligible s') : s'.Counted := by
  cases h with
  | same _ => exact hs
  | @flip n he hn =>
    unfold System.Counted at hs ⊢
    cases eligible with
    | true =>
      have hset : (s.setEligible vault true n).eligibleVaults = insert vault s.eligibleVaults := by
        ext v
        rcases eq_or_ne v vault with rfl | hne
        · simp [setEligible]
        · simp [setEligible, hne]
      have hnot : vault ∉ s.eligibleVaults := by simpa using he
      simp only [flippedCount, if_true, add_eq_ok] at hn
      rw [hset, card_insert_of_notMem hnot, ← hs]
      exact hn.2
    | false =>
      have hset : (s.setEligible vault false n).eligibleVaults = s.eligibleVaults.erase vault := by
        ext v
        rcases eq_or_ne v vault with rfl | hne
        · simp [setEligible]
        · simp [setEligible, hne]
      have hmem : vault ∈ s.eligibleVaults := by simpa using he
      simp only [flippedCount, Bool.false_eq_true, if_false, sub_eq_ok] at hn
      rw [hset, card_erase_of_mem hmem, ← hs]
      exact hn.2

private theorem System.Counted.congr (he : s'.registry.routerEligible = s.registry.routerEligible)
    (hc : s'.routerEligibleCount = s.routerEligibleCount) : s'.Counted := by
  unfold System.Counted eligibleVaults at hs ⊢
  rw [he, hc]
  exact hs

theorem System.VectorSet.counted {router : Address} (h : s.VectorSet site router vaults s') : s'.Counted := by
  obtain ⟨-, hr, hc, -⟩ := h.fields
  exact hs.congr (by rw [hr]) hc

theorem System.Counted.moved (h : s.Moved site c s') : s'.Counted := by
  cases h with
  | lifecycle same _ => exact hs.congr same.routerEligible same.routerEligibleCount
  | eligible flipped _ => exact flipped.counted hs
  | migrated flipped set _ => exact set.counted (flipped.counted hs)
  | linked => exact hs
  | weighted set => exact set.counted hs

theorem System.Counted.mem_iff (hlen : vaults.length = s.routerEligibleCount) (hn : vaults.Nodup)
    (hall : ∀ v ∈ vaults, s.registry.routerEligible v = true) (v : Address) :
    v ∈ vaults ↔ s.registry.routerEligible v = true := by
  have hsub : vaults.toFinset ⊆ s.eligibleVaults := by
    intro w hw
    rw [mem_eligibleVaults]
    exact hall w (mem_toFinset.1 hw)
  have hcard : s.eligibleVaults.card ≤ vaults.toFinset.card := by
    rw [toFinset_card_of_nodup hn, hlen, hs]
  rw [← mem_toFinset, eq_of_subset_of_card_le hsub hcard, mem_eligibleVaults]

end

def System.RetiredIneligible (s : System) : Prop :=
  ∀ v, s.registry.routerEligible v = true → s.registry.status v ≠ .retired

/-- The call, if it goes through, does not make a retired vault eligible by `setRouterEligible`. -/
def GrantsToUnretired (s : System) (c : RegistryCall site) : Prop :=
  (registryStep site s c).isOk → match c with
    | .setRouterEligible _ vault eligible => eligible = true → s.registry.status vault ≠ .retired
    | _ => True

private theorem System.RetiredIneligible.flipped (hs : s.RetiredIneligible) (h : s.Flipped vault eligible s')
    (hgrant : eligible = true → s.registry.status vault ≠ .retired) : s'.RetiredIneligible := by
  cases h with
  | same _ => exact hs
  | flip _ _ =>
    intro v hv
    rcases eq_or_ne v vault with rfl | hne
    · exact hgrant (by simpa [setEligible] using hv)
    · exact hs v (by simpa [setEligible, hne] using hv)

private theorem System.RetiredIneligible.vectorSet (hc : s.Counted) (h : s.VectorSet site s.router vaults s')
    (hown : ∀ r, s.routers s.router = some r → r.registry = site.self) : s'.RetiredIneligible := by
  cases h with
  | mk hr hreg hv hspan =>
    obtain ⟨hlen, hnodup, hall⟩ := hspan (hown _ hr)
    intro v hv hretired
    have hmem : v ∈ vaults := (hc.mem_iff hlen hnodup (fun w hw => (hall w hw).2) v).2 hv
    have hactive := (hall v hmem).1
    rw [show s.registry.status v = .retired from hretired] at hactive
    cases hactive

private theorem System.RetiredIneligible.moved (hs : s.RetiredIneligible) (hc : s.Counted) (hok : GrantsToUnretired s c)
    (hx : registryStep site s c = .ok s') : s'.RetiredIneligible := by
  have hgrants := hok (hx ▸ rfl)
  cases registryStep_moved hx with
  | lifecycle same retired =>
    intro v hv hretired
    rw [same.routerEligible] at hv
    exact hs v hv (retired v hv hretired)
  | eligible flipped _ => exact hs.flipped flipped hgrants
  | migrated flipped set own => exact .vectorSet (flipped.counted hc) set own
  | linked => exact hs
  | weighted set =>
    obtain ⟨-, hr, -, -⟩ := set.fields
    unfold System.RetiredIneligible
    rw [hr]
    exact hs

/-- In every run in which no `setRouterEligible(v, true)` of a retired vault goes through, no vault is ever both retired
and eligible. -/
theorem retired_ineligible_of_grantsToUnretired {s₀ : System} (h₀ : s₀.Fresh site) {cs : List (RegistryCall site)}
    (hcs : Along (registryStep site) GrantsToUnretired s₀ cs) (v : Address)
    (hv : (run (registryStep site) s₀ cs).registry.routerEligible v = true) :
    (run (registryStep site) s₀ cs).registry.status v ≠ .retired := by
  have hstart : s₀.Counted ∧ s₀.RetiredIneligible := by
    refine ⟨h₀.counted, fun w hw => ?_⟩
    rw [h₀.routerEligible] at hw
    cases hw
  have hrun : (run (registryStep site) s₀ cs).Counted ∧ (run (registryStep site) s₀ cs).RetiredIneligible := by
    refine Along.invariant (P := fun s => s.Counted ∧ s.RetiredIneligible) ?_ hstart hcs
    rintro s c s' ⟨hc, hs⟩ hok hx
    exact ⟨hc.moved (registryStep_moved hx), hs.moved hc hok hx⟩
  exact hrun.2 v hv

/-- The vault at 5 follows the registry, is registered and becomes eligible; then it is dropped and retired. -/
def sampleRetirement : List (RegistryCall .sample) :=
  [.vaultSetRegistry 1 5 9, .registerVault 1 5, .setRouterEligible 1 5 true, .setRouterEligible 1 5 false,
    .retire 1 5]

theorem retired_ineligible_before_regrant :
    let s := run (registryStep .sample) .sample (sampleRetirement.take 3)
    s.registry.routerEligible 5 = true ∧ s.registry.status 5 ≠ .retired := by
  intro s
  have hv : s.registry.routerEligible 5 = true := by decide +kernel
  refine ⟨hv, ?_⟩
  refine retired_ineligible_of_grantsToUnretired sample_fresh ?_ 5 hv
  exact ⟨fun _ => trivial, fun _ => trivial, fun _ _ => by decide +kernel, trivial⟩

/-- A vault that was retired in the documented order becomes eligible again while it is retired. -/
theorem retired_vault_becomes_eligible :
    System.sample.Fresh .sample ∧
      let s := run (registryStep .sample) .sample (sampleRetirement ++ [.setRouterEligible 1 5 true])
      s.registry.routerEligible 5 = true ∧ s.registry.status 5 = .retired :=
  ⟨sample_fresh, by decide +kernel⟩

/-- What default weights should be: none, or as many as there are eligible vaults, and then exactly these. -/
def System.Spanned (s : System) (vaults : List Address) : Prop :=
  (vaults.length = 0 ∨ vaults.length = s.routerEligibleCount) ∧
    (vaults.length = s.routerEligibleCount →
      vaults.Nodup ∧ ∀ v, v ∈ vaults ↔ s.registry.routerEligible v = true)

/-- The call, if it goes through, does not bring a vector under the link that is out of step with eligibility: a router
is linked only while its vector is empty or lists the eligible vaults, and a vector set on a linked router of another
registry does the same. -/
def LinksInStep (s : System) (c : RegistryCall site) : Prop :=
  (registryStep site s c).isOk → match c with
    | .setRouter _ newRouter => ∀ r, s.routers newRouter = some r → s.Spanned r.defaultVaults
    | .setDefaultWeights _ router _ vaults _ =>
      router = s.router → ∀ r, s.routers router = some r → r.registry = site.self ∨ s.Spanned vaults
    | _ => True

/-- The linked router's vector spans the eligible vaults; no router is at the zero address. -/
structure System.WeightsInStep (s : System) : Prop where
  counted : s.Counted
  zero : s.routers 0 = none
  spanned : ∀ r, s.routers s.router = some r → s.Spanned r.defaultVaults

private theorem System.Counted.spanned_nil (hs : s.Counted) : s.Spanned [] := by
  refine ⟨.inl rfl, fun hlen => ⟨nodup_nil, fun v => ?_⟩⟩
  exact hs.mem_iff hlen nodup_nil (fun w hw => absurd hw not_mem_nil) v

private theorem System.Counted.spanned_of_eligible (hs : s.Counted) (hlen : vaults.length = s.routerEligibleCount)
    (hn : vaults.Nodup) (hall : ∀ v ∈ vaults, s.ActiveAndEligible v) : s.Spanned vaults :=
  ⟨.inr hlen, fun _ => ⟨hn, hs.mem_iff hlen hn fun v hv => (hall v hv).2⟩⟩

theorem System.Spanned.congr (h : s.Spanned vaults) (he : s'.registry.routerEligible = s.registry.routerEligible)
    (hc : s'.routerEligibleCount = s.routerEligibleCount) : s'.Spanned vaults := by
  unfold System.Spanned at h ⊢
  rw [he, hc]
  exact h

private theorem System.Fresh.weightsInStep (h : s.Fresh site) : s.WeightsInStep where
  counted := h.counted
  zero := h.zero
  spanned r hr := by
    rw [h.router, h.zero] at hr
    cases hr

private theorem System.flippedCount_ne {count n : Nat} (h : flippedCount count eligible = .ok n) : n ≠ count := by
  unfold flippedCount at h
  split at h
  · have := (add_eq_ok.1 h).2
    omega
  obtain ⟨hpos, hn⟩ := sub_eq_ok.1 h
  omega

private theorem System.WeightsInStep.flipped (hs : s.WeightsInStep) (h : s.Flipped vault eligible s')
    (guard : s' = s ∨ s.router = 0 ∨ ∃ r, s.routers s.router = some r ∧
    (r.defaultVaults = [] ∨ r.defaultVaults.length = s'.routerEligibleCount)) :
    s'.WeightsInStep := by
  have hc : s'.Counted := h.counted hs.counted
  cases h with
  | same _ => exact hs
  | @flip n he hn =>
    refine ⟨hc, hs.zero, fun r hr => ?_⟩
    have hr' : s.routers s.router = some r := hr
    rcases guard with heq | h0 | ⟨r₁, hr₁, hlen⟩
    · rw [heq]
      exact hs.spanned r hr'
    · rw [h0, hs.zero] at hr'
      cases hr'
    obtain rfl : r₁ = r := Option.some.inj (hr₁.symm.trans hr')
    have hnil : r₁.defaultVaults = [] := by
      rcases hlen with hnil | hlen
      · exact hnil
      rcases (hs.spanned r₁ hr').1 with hzero | hcount
      · exact length_eq_zero_iff.1 hzero
      · exact absurd (hlen.symm.trans hcount) (flippedCount_ne hn)
    rw [hnil]
    exact hc.spanned_nil

private theorem System.WeightsInStep.vectorSet {router : Address} (hc : s.Counted) (hz : s.routers 0 = none)
    (hold : router ≠ s.router → ∀ r, s.routers s.router = some r → s.Spanned r.defaultVaults)
    (hnew : router = s.router → ∀ r, s.routers router = some r → r.registry = site.self ∨ s.Spanned vaults)
    (h : s.VectorSet site router vaults s') : s'.WeightsInStep := by
  have hc' : s'.Counted := h.counted hc
  cases h with
  | @mk r r' hr hreg hv hspan =>
    refine ⟨hc', ?_, fun r₁ hr₁ => ?_⟩
    · have hne : (0 : Address) ≠ router := by
        rintro rfl
        rw [hz] at hr
        cases hr
      exact (update_of_ne hne ..).trans hz
    · have hr₁ : update s.routers router (some r') s.router = some r₁ := hr₁
      rcases eq_or_ne router s.router with rfl | hne
      · rw [update_self] at hr₁
        obtain rfl : r' = r₁ := Option.some.inj hr₁
        rw [hv]
        rcases hnew rfl r hr with hself | hspanned
        · obtain ⟨hlen, hnodup, hall⟩ := hspan hself
          exact (hc.spanned_of_eligible hlen hnodup hall).congr rfl rfl
        · exact hspanned.congr rfl rfl
      rw [update_of_ne hne.symm] at hr₁
      exact (hold hne r₁ hr₁).congr rfl rfl

theorem System.Flipped.routers (h : s.Flipped vault eligible s') : s'.routers = s.routers := by
  cases h with
  | same _ => rfl
  | flip _ _ => rfl

private theorem System.WeightsInStep.moved (hs : s.WeightsInStep) (hok : LinksInStep s c)
    (hx : registryStep site s c = .ok s') : s'.WeightsInStep := by
  have hlinks := hok (hx ▸ rfl)
  have hmoved := registryStep_moved hx
  have hc : s'.Counted := hs.counted.moved hmoved
  cases hmoved with
  | lifecycle same _ =>
    refine ⟨hc, same.routers ▸ hs.zero, fun r hr => ?_⟩
    rw [same.routers, same.router] at hr
    exact (hs.spanned r hr).congr same.routerEligible same.routerEligibleCount
  | eligible flipped guard => exact hs.flipped flipped guard
  | migrated flipped set own =>
    refine .vectorSet (flipped.counted hs.counted) ?_ ?_ ?_ set
    · rw [flipped.routers]
      exact hs.zero
    · exact fun hne => absurd rfl hne
    · exact fun _ r hr => .inl (own r hr)
  | linked => exact ⟨hs.counted, hs.zero, fun r hr => (hlinks r hr).congr rfl rfl⟩
  | weighted set => exact .vectorSet hs.counted hs.zero (fun _ => hs.spanned) hlinks set

/-- In every run that links only routers whose vector is in step, the linked router's default vector is empty or a
list of the eligible vaults. -/
theorem default_weights_span_eligible {s₀ : System} (h₀ : s₀.Fresh site) {cs : List (RegistryCall site)}
    (hcs : Along (registryStep site) LinksInStep s₀ cs) {s : System} (hs : run (registryStep site) s₀ cs = s)
    {r : LinkedRouter} (hr : s.routers s.router = some r) :
    (r.defaultWeights.length = 0 ∨ r.defaultWeights.length = s.routerEligibleCount) ∧
      (r.defaultWeights.length = s.routerEligibleCount →
        r.defaultVaults.Nodup ∧ ∀ v, v ∈ r.defaultVaults ↔ s.registry.routerEligible v = true) := by
  subst hs
  have hrun : (run (registryStep site) s₀ cs).WeightsInStep :=
    Along.invariant (P := System.WeightsInStep) (fun s c s' hs hok hx => hs.moved hok hx)
      h₀.weightsInStep hcs
  have hspanned := hrun.spanned r hr
  unfold System.Spanned at hspanned
  rwa [LinkedRouter.length_defaultVaults] at hspanned

/-- Both vaults of the sample follow the registry and are registered, and the first is eligible. -/
def sampleListing : List (RegistryCall .sample) :=
  [.vaultSetRegistry 1 5 9, .vaultSetRegistry 1 6 9, .registerVault 1 5, .registerVault 1 6,
    .setRouterEligible 1 5 true]

/-- The router is linked while its vector is empty, gets one, and takes the second vault by a migration. -/
def sampleMigration : List (RegistryCall .sample) :=
  [.setRouter 1 7, .setDefaultWeights 1 7 (fun _ => .returned 2) [5] [10000],
    .migrateEligibility 1 6 true (fun _ => .returned 2) [5, 6] [4000, 6000]]

theorem default_weights_span_eligible_migrated :
    let s := run (registryStep .sample) .sample (sampleListing ++ sampleMigration)
    s.routers s.router = some ⟨9, 2, [⟨5, 4000⟩, ⟨6, 6000⟩]⟩ ∧
      (2 = s.routerEligibleCount → ∀ v, v ∈ [5, 6] ↔ s.registry.routerEligible v = true) := by
  intro s
  have hr : s.routers s.router = some ⟨9, 2, [⟨5, 4000⟩, ⟨6, 6000⟩]⟩ := by
    decide +kernel
  refine ⟨hr, ?_⟩
  have hcs : Along (registryStep .sample) LinksInStep .sample (sampleListing ++ sampleMigration) := by
    refine along_append.2 ⟨⟨fun _ => trivial, fun _ => trivial, fun _ => trivial, fun _ => trivial, fun _ => trivial,
      trivial⟩, ?_, ?_, fun _ => trivial, trivial⟩
    · intro _ r hr
      have hempty : (run (registryStep .sample) .sample sampleListing).routers 7 = some ⟨9, 2, []⟩ := by
        decide +kernel
      obtain rfl := Option.some.inj (hempty.symm.trans hr)
      exact ⟨.inl rfl, fun hlen => absurd hlen (by decide +kernel)⟩
    · intro _ _ r hr
      have hempty : (run (registryStep .sample) .sample (sampleListing ++ [.setRouter 1 7])).routers 7 =
          some ⟨9, 2, []⟩ := by
        decide +kernel
      obtain rfl := Option.some.inj (hempty.symm.trans hr)
      exact .inl rfl
  exact fun hlen => ((default_weights_span_eligible sample_fresh hcs rfl hr).2 hlen).2

/-- A router that gets its vector before it is linked, and is linked after a second vault has become eligible. -/
theorem stale_router_linked :
    System.sample.Fresh .sample ∧
      let s := run (registryStep .sample) .sample (sampleListing ++
        [.setDefaultWeights 1 7 (fun _ => .returned 2) [5] [10000], .setRouterEligible 1 6 true, .setRouter 1 7])
      s.router = 7 ∧ s.routerEligibleCount = 2 ∧
        (s.routers s.router).map (fun r => r.defaultWeights.length) = some 1 :=
  ⟨sample_fresh, by decide +kernel⟩

end RobotMoney.Registry
