import RobotMoney.Basket.AssetRegistry

/-!
# The configuration of a basket

`setTwapWindow` and `setMaxSlippageBps` check a setting against the assets of the moment, and `addAsset` changes the
assets afterwards without looking at the settings.

* A window is stored per token and outlives the removal of its asset, while a re-add checks its pool for the default
  window: every pool in use was checked for its window as long as no re-add finds a stored window that is wider than
  what its new pool was checked for, and no longer (`windows_checked_iff`).
* The slippage bound is no lower than the fee of every asset in use as long as no asset with a higher fee is added, and
  no longer (`slippage_floor_iff`).
-/

namespace RobotMoney.Basket

open Evm List BasketVault

inductive ConfigError where
  | asset (e : AssetError)
  | invalidTwapWindow (window : Nat)
  deriving DecidableEq

def minTwapWindow : Nat := 600

def maxTwapWindow : Nat := 86400

/-- The arguments of `__BasketVault_init`. -/
structure InitParams where
  usdc : Address
  swapRouter : Address
  tvlCap : Nat
  perDepositCap : Nat
  exitFeeBps : Nat
  feeRecipient : Address
  admin : Address
  emergencyResponder : Address
  caps_lt : tvlCap < wordSize ∧ perDepositCap < wordSize

namespace BasketVault

private theorem none_ne_usdc (usdc : Address) : ∀ a ∈ ([] : List AssetInfo), a.token ≠ usdc := by simp

private theorem no_shares : ∑ a : Address, (fun _ => 0 : Balances) a = 0 := by simp

/-- `__BasketVault_init` of the vault at `self`, to which tokens may have been sent before. -/
def init (self : Address) (wallet : Wallet) (initialSlippageBps : Nat) (p : InitParams) :
    Except BasketError BasketVault :=
  if p.usdc = 0 ∨ p.swapRouter = 0 ∨ p.feeRecipient = 0 ∨ p.admin = 0 ∨ p.emergencyResponder = 0 then
    .error .zeroAddress
  else if hfee : maxExitFeeBps < p.exitFeeBps then .error .invalidFee
  else if hslippage : maxSlippageCeiling < initialSlippageBps then .error .invalidParam
  else .ok {
    self := self
    usdcToken := p.usdc
    assets := []
    twapWindow := fun _ => 0
    tvlCap := p.tvlCap
    perDepositCap := p.perDepositCap
    exitFeeBps := p.exitFeeBps
    feeRecipient := p.feeRecipient
    maxSlippageBps := initialSlippageBps
    navDeviationGuardBps := 0
    shutdown := false
    depositsPaused := false
    retired := false
    wallet := wallet
    shares := fun _ => 0
    totalSupply := 0
    allowance := fun _ _ => 0
    caps_lt := p.caps_lt
    slippage_le := Nat.le_of_not_lt hslippage
    fee_le := Nat.le_of_not_lt hfee
    tokens_nodup := nodup_nil
    tokens_ne_usdc := none_ne_usdc p.usdc
    supply_eq := no_shares }

def activeAssetForToken (v : BasketVault) (token : Address) : Option AssetInfo :=
  v.assets.find? fun a => a.active && a.token == token

/-- `setTwapWindow`, where `r` is what the pool of the asset answers. -/
def setTwapWindow (v : BasketVault) (isAdmin : Bool) (r : PoolReading) (token : Address) (window : Nat) :
    Except ConfigError BasketVault := do
  revertIf (isAdmin = false) (.asset .unauthorizedAccount)
  revertIf (window < minTwapWindow ∨ maxTwapWindow < window) (.invalidTwapWindow window)
  match v.activeAssetForToken token with
  | none => .error (.asset (.basket .assetNotFound))
  | some a => do
    (requireObservationHistory r a.pool window).mapError .asset
    .ok { v with twapWindow := Function.update v.twapWindow token window }

end BasketVault

inductive ConfigCall where
  | addAsset (isAdmin : Bool) (r : PoolReading) (a : AssetInfo)
  | removeAsset (isAdmin : Bool) (m : Market) (index : Nat)
  | setTwapWindow (isAdmin : Bool) (r : PoolReading) (token : Address) (window : Nat)
  | setMaxSlippageBps (isAdmin : Bool) (newBps : Nat)
  | trade (wallet : Wallet)

/-- One call; `trade` is any flow of tokens in between. -/
def configStep (maxAssets : Nat) (v : BasketVault) : ConfigCall → Except ConfigError BasketVault
  | .addAsset isAdmin r a => (v.addVettedAsset maxAssets isAdmin r a).mapError .asset
  | .removeAsset isAdmin m index => (v.removeAssetAs isAdmin m index).mapError .asset
  | .setTwapWindow isAdmin r token window => v.setTwapWindow isAdmin r token window
  | .setMaxSlippageBps isAdmin newBps => do
    revertIf (isAdmin = false) (.asset .unauthorizedAccount)
    (v.setMaxSlippageBps newBps).mapError fun e => .asset (.basket e)
  | .trade wallet => .ok { v with wallet := wallet }

def checkOf (v : BasketVault) : ConfigCall → List (Address × Nat)
  | .addAsset _ _ a => [(a.pool, defaultTwapWindow)]
  | .setTwapWindow _ _ token window => ((v.activeAssetForToken token).map fun a => (a.pool, window)).toList
  | _ => []

/-- A vault with the history checks that the pools passed so far. -/
structure AuditedVault where
  vault : BasketVault
  passed : List (Address × Nat)

def auditStep (maxAssets : Nat) (x : AuditedVault) (c : ConfigCall) : Except ConfigError AuditedVault := do
  let v ← configStep maxAssets x.vault c
  .ok ⟨v, x.passed ++ checkOf x.vault c⟩

namespace BasketVault

open List Except

variable {v v' : BasketVault} {maxAssets : Nat} {c : ConfigCall}

theorem mem_of_addEntry {assets assets' : List AssetInfo} {a b : AssetInfo} (h : addEntry assets a = .ok assets')
    (hb : b ∈ assets') : b = { a with active := true } ∨ b ∈ assets := by
  induction assets generalizing assets' with
  | nil =>
    cases h
    exact .inl (mem_singleton.1 hb)
  | cons c rest ih =>
    unfold addEntry at h
    split at h
    · simp only [bind_eq_ok, ok.injEq] at h
      obtain ⟨rest', hrest, rfl⟩ := h
      rcases mem_cons.1 hb with rfl | hb
      · exact .inr mem_cons_self
      · exact (ih hrest hb).imp_right (mem_cons_of_mem _)
    simp only [bind_eq_ok, ok.injEq] at h
    obtain ⟨-, -, rfl⟩ := h
    rcases mem_cons.1 hb with rfl | hb
    · exact .inl rfl
    · exact .inr (mem_cons_of_mem _ hb)

variable {a : AssetInfo} {x y : AuditedVault} {assets : List AssetInfo}

private theorem mem_addEntry_of {assets assets' : List AssetInfo} (h : addEntry assets a = .ok assets') :
    { a with active := true } ∈ assets' ∧ ∀ b ∈ assets, b.active = true → b ∈ assets' := by
  induction assets generalizing assets' with
  | nil =>
    cases h
    exact ⟨mem_singleton_self _, fun b hb => absurd hb not_mem_nil⟩
  | cons c rest ih =>
    unfold addEntry at h
    split at h
    · simp only [bind_eq_ok, ok.injEq] at h
      obtain ⟨rest', hrest, rfl⟩ := h
      obtain ⟨hadded, hkept⟩ := ih hrest
      refine ⟨mem_cons_of_mem _ hadded, fun b hb hact => ?_⟩
      rcases mem_cons.1 hb with rfl | hb
      · exact mem_cons_self
      · exact mem_cons_of_mem _ (hkept b hb hact)
    simp only [bind_eq_ok, revertIf_eq_ok, ok.injEq] at h
    obtain ⟨-, hinactive, rfl⟩ := h
    refine ⟨mem_cons_self, fun b hb hact => ?_⟩
    rcases mem_cons.1 hb with rfl | hb
    · exact absurd hact hinactive
    · exact mem_cons_of_mem _ hb

theorem addVettedAsset_spec {isAdmin : Bool} {r : PoolReading} (h : v.addVettedAsset maxAssets isAdmin r a = .ok v') :
    addEntry v.assets a = .ok v'.assets ∧ v'.twapWindow = v.twapWindow ∧ v'.maxSlippageBps = v.maxSlippageBps ∧
      requireObservationHistory r a.pool defaultTwapWindow = .ok () := by
  simp only [addVettedAsset, vetAsset, requirePoolUsable, bind_eq_ok, mapError_eq_ok] at h
  obtain ⟨-, -, -, -, -, -, pair, ⟨-, -, -, -, -, -, read, -, -, -, checked, hhistory, -⟩, h⟩ := h
  refine ⟨(addAsset_eq_ok h).2, ?_, ?_, hhistory⟩
  all_goals
    unfold addAsset at h
    repeat' split at h
    all_goals cases h
    rfl

private theorem setMaxSlippageBps_spec {newBps : Nat} (h : v.setMaxSlippageBps newBps = .ok v') :
    v'.assets = v.assets ∧ v'.twapWindow = v.twapWindow ∧ v'.maxSlippageBps = newBps ∧
      v.minSlippageFloorBps ≤ newBps := by
  unfold setMaxSlippageBps at h
  split at h
  · cases h
  split at h
  · cases h
  rename_i hfloor
  cases h
  exact ⟨rfl, rfl, rfl, Nat.le_of_not_lt hfloor⟩

private theorem activeAssetForToken_eq_some {token : Address} (h : v.activeAssetForToken token = some a) :
    a ∈ v.assets ∧ a.active = true ∧ a.token = token := by
  have hfound := find?_some h
  simp only [Bool.and_eq_true, beq_iff_eq] at hfound
  exact ⟨mem_of_find?_eq_some h, hfound⟩

theorem eq_of_token_eq {a b : AssetInfo} (ha : a ∈ v.assets) (hb : b ∈ v.assets) (h : a.token = b.token) : a = b :=
  inj_on_of_nodup_map v.tokens_nodup ha hb h

/-- Every active asset's pool passed the history check for at least the window of the asset. -/
def WindowsChecked (x : AuditedVault) : Prop :=
  ∀ a ∈ x.vault.assets, a.active = true →
    ∃ window, (a.pool, window) ∈ x.passed ∧ x.vault.effectiveTwapWindow a.token ≤ window

def Serves (m : Market) (passed : List (Address × Nat)) : Prop :=
  ∀ pool window, (pool, window) ∈ passed → ∀ w ≤ window, (m.observe pool w).isSome = true

def WindowsServed (x : AuditedVault) : Prop :=
  ∀ m, Serves m x.passed → ∀ a ∈ x.vault.assets, a.active = true →
    (m.observe a.pool (x.vault.effectiveTwapWindow a.token)).isSome = true

private theorem WindowsChecked.served (h : WindowsChecked x) : WindowsServed x := by
  intro m hm a ha hact
  obtain ⟨window, hpassed, hle⟩ := h a ha hact
  exact hm a.pool window hpassed _ hle

/-- If the call adds an asset, the window stored for its token is no wider than the default, or than one its pool has
passed the check for before. -/
def WindowCovered (maxAssets : Nat) (x : AuditedVault) (c : ConfigCall) : Prop :=
  ∀ isAdmin r a, c = .addAsset isAdmin r a → (∃ v, configStep maxAssets x.vault c = .ok v) →
    x.vault.effectiveTwapWindow a.token ≤ defaultTwapWindow ∨
      ∃ window, (a.pool, window) ∈ x.passed ∧ x.vault.effectiveTwapWindow a.token ≤ window

private theorem auditStep_eq_ok : auditStep maxAssets x c = .ok y ↔
      configStep maxAssets x.vault c = .ok y.vault ∧ y.passed = x.passed ++ checkOf x.vault c := by
  simp only [auditStep, bind_eq_ok, ok.injEq]
  constructor
  · rintro ⟨v, hv, rfl⟩
    exact ⟨hv, rfl⟩
  · rintro ⟨hv, hpassed⟩
    exact ⟨_, hv, by rw [← hpassed]⟩

private theorem windowsChecked_mono (hx : WindowsChecked x)
    (hassets : ∀ a ∈ y.vault.assets, a.active = true → a ∈ x.vault.assets)
    (hwindow : y.vault.twapWindow = x.vault.twapWindow) (hpassed : ∀ p ∈ x.passed, p ∈ y.passed) :
    WindowsChecked y := by
  intro a ha hact
  obtain ⟨window, hmem, hle⟩ := hx a (hassets a ha hact) hact
  refine ⟨window, hpassed _ hmem, ?_⟩
  unfold effectiveTwapWindow at hle ⊢
  rw [hwindow]
  exact hle

/-- A call that returns keeps the windows checked exactly when it covers the window of what it adds. -/
theorem windowsChecked_step (hx : WindowsChecked x) (h : auditStep maxAssets x c = .ok y) :
    WindowsChecked y ↔ WindowCovered maxAssets x c := by
  obtain ⟨hstep, hpassed⟩ := auditStep_eq_ok.1 h
  have hgrow : ∀ p ∈ x.passed, p ∈ y.passed := fun p hp => by
    rw [hpassed]
    exact mem_append_left _ hp
  cases c with
  | addAsset isAdmin r a =>
    obtain ⟨hentry, hwindow, -, -⟩ := addVettedAsset_spec (mapError_eq_ok.1 hstep)
    have hsame : y.vault.effectiveTwapWindow a.token = x.vault.effectiveTwapWindow a.token := by
      unfold effectiveTwapWindow
      rw [hwindow]
    constructor
    · intro hy isAdmin' r' a' hc _
      cases hc
      obtain ⟨window, hmem, hle⟩ := hy _ (mem_addEntry_of hentry).1 rfl
      dsimp only at hmem hle
      rw [hpassed] at hmem
      rw [hsame] at hle
      rcases mem_append.1 hmem with hmem | hmem
      · exact .inr ⟨window, hmem, hle⟩
      obtain ⟨-, rfl⟩ := Prod.mk.inj (mem_singleton.1 hmem)
      exact .inl hle
    · intro hcovered b hb hact
      rcases mem_of_addEntry hentry hb with rfl | hb
      · dsimp only
        rw [hsame, hpassed]
        rcases hcovered isAdmin r a rfl ⟨_, hstep⟩ with hle | ⟨window, hmem, hle⟩
        · exact ⟨_, mem_append_right _ (mem_singleton_self _), hle⟩
        · exact ⟨window, mem_append_left _ hmem, hle⟩
      obtain ⟨window, hmem, hle⟩ := hx b hb hact
      refine ⟨window, hgrow _ hmem, ?_⟩
      unfold effectiveTwapWindow at hle ⊢
      rw [hwindow]
      exact hle
  | removeAsset isAdmin m index =>
    simp only [configStep, removeAssetAs, bind_eq_ok, mapError_eq_ok] at hstep
    obtain ⟨-, -, hstep⟩ := hstep
    obtain ⟨hn, hu, hy⟩ := removeAsset_eq_ok hstep
    refine iff_of_true (windowsChecked_mono hx (fun a ha hact => ?_) (by rw [hy]) hgrow) (fun _ _ _ hc => by cases hc)
    rw [hy] at ha
    exact active_of_deactivateEntry ha hact
  | setTwapWindow isAdmin r token w =>
    refine iff_of_true ?_ (fun _ _ _ hc => by cases hc)
    cases hfound : x.vault.activeAssetForToken token with
    | none =>
      simp only [configStep, setTwapWindow, hfound, bind_eq_ok] at hstep
      obtain ⟨-, -, -, -, hstep⟩ := hstep
      cases hstep
    | some a =>
      simp only [configStep, setTwapWindow, hfound, bind_eq_ok, revertIf_eq_ok, ok.injEq] at hstep
      obtain ⟨-, -, -, hrange, -, -, hy⟩ := hstep
      obtain ⟨ha, -, htoken⟩ := activeAssetForToken_eq_some hfound
      have hpos : w ≠ 0 := by
        unfold minTwapWindow at hrange
        omega
      intro b hb hact
      rw [← hy] at hb ⊢
      by_cases hbt : b.token = token
      · -- the asset of the call, whose pool passes for the new window
        obtain rfl : b = a := eq_of_token_eq hb ha (hbt.trans htoken.symm)
        refine ⟨w, ?_, ?_⟩
        · rw [hpassed]
          exact mem_append_right _ (by simp [checkOf, hfound])
        · simp [effectiveTwapWindow, hbt, hpos]
      obtain ⟨window, hmem, hle⟩ := hx b hb hact
      refine ⟨window, hgrow _ hmem, ?_⟩
      unfold effectiveTwapWindow at hle ⊢
      simpa only [Function.update_of_ne hbt] using hle
  | setMaxSlippageBps isAdmin newBps =>
    refine iff_of_true ?_ (fun _ _ _ hc => by cases hc)
    simp only [configStep, bind_eq_ok, mapError_eq_ok] at hstep
    obtain ⟨-, -, hstep⟩ := hstep
    obtain ⟨hassets, hwindow, -, -⟩ := setMaxSlippageBps_spec hstep
    exact windowsChecked_mono hx (fun _ ha _ => hassets ▸ ha) hwindow hgrow
  | trade wallet =>
    refine iff_of_true ?_ (fun _ _ _ hc => by cases hc)
    have hy : { x.vault with wallet := wallet } = y.vault := ok.inj hstep
    refine windowsChecked_mono hx (fun _ ha _ => ?_) ?_ hgrow
    · rw [← hy] at ha
      exact ha
    · rw [← hy]

def SlippageFloored (v : BasketVault) : Prop := v.minSlippageFloorBps ≤ v.maxSlippageBps

private theorem foldl_floor_le {start bound : Nat} :
    assets.foldl (fun floorBps a => if a.active then max floorBps (a.swapFee / 100) else floorBps) start ≤ bound ↔
      start ≤ bound ∧ ∀ a ∈ assets, a.active = true → a.swapFee / 100 ≤ bound := by
  induction assets generalizing start with
  | nil => simp
  | cons a rest ih =>
    rw [foldl_cons, ih]
    by_cases hact : a.active = true
    · simp only [hact, if_true, forall_mem_cons, true_implies]
      rw [Nat.max_le, and_assoc]
    · simp only [hact, Bool.false_eq_true, if_false, forall_mem_cons, false_implies, true_and]

private theorem minSlippageFloorBps_le_iff {bound : Nat} :
    v.minSlippageFloorBps ≤ bound ↔ ∀ a ∈ v.assets, a.active = true → a.swapFee / 100 ≤ bound := by
  unfold minSlippageFloorBps
  rw [foldl_floor_le]
  simp

def FeeWithinSlippage (maxAssets : Nat) (v : BasketVault) (c : ConfigCall) : Prop :=
  ∀ isAdmin r a, c = .addAsset isAdmin r a → (∃ v', configStep maxAssets v c = .ok v') →
    a.swapFee / 100 ≤ v.maxSlippageBps

private theorem slippageFloored_step (hv : v.SlippageFloored) (h : configStep maxAssets v c = .ok v') :
    v'.SlippageFloored ↔ v.FeeWithinSlippage maxAssets c := by
  unfold SlippageFloored at hv ⊢
  rw [minSlippageFloorBps_le_iff] at hv ⊢
  cases c with
  | addAsset isAdmin r a =>
    obtain ⟨hentry, -, hbound, -⟩ := addVettedAsset_spec (mapError_eq_ok.1 h)
    rw [hbound]
    constructor
    · intro hv' isAdmin' r' a' hc _
      cases hc
      exact hv' { a with active := true } (mem_addEntry_of hentry).1 rfl
    · intro hfee b hb hact
      rcases mem_of_addEntry hentry hb with rfl | hb
      · exact hfee isAdmin r a rfl ⟨_, h⟩
      · exact hv b hb hact
  | removeAsset isAdmin m index =>
    simp only [configStep, removeAssetAs, bind_eq_ok, mapError_eq_ok] at h
    obtain ⟨-, -, h⟩ := h
    obtain ⟨hn, hu, rfl⟩ := removeAsset_eq_ok h
    exact iff_of_true (fun a ha hact => hv a (active_of_deactivateEntry ha hact) hact) (fun _ _ _ hc => by cases hc)
  | setTwapWindow isAdmin r token window =>
    refine iff_of_true ?_ (fun _ _ _ hc => by cases hc)
    simp only [configStep, setTwapWindow, bind_eq_ok] at h
    obtain ⟨-, -, -, -, h⟩ := h
    split at h
    · cases h
    simp only [bind_eq_ok, ok.injEq] at h
    obtain ⟨-, -, rfl⟩ := h
    exact hv
  | setMaxSlippageBps isAdmin newBps =>
    refine iff_of_true ?_ (fun _ _ _ hc => by cases hc)
    simp only [configStep, bind_eq_ok, mapError_eq_ok] at h
    obtain ⟨-, -, h⟩ := h
    obtain ⟨hassets, -, hbound, hfloor⟩ := setMaxSlippageBps_spec h
    rw [hassets, hbound]
    exact minSlippageFloorBps_le_iff.1 hfloor
  | trade wallet =>
    cases h
    exact iff_of_true hv (fun _ _ _ hc => by cases hc)

private theorem init_spec {self : Address} {wallet : Wallet} {initialSlippageBps : Nat} {p : InitParams}
    (h : init self wallet initialSlippageBps p = .ok v) : v.assets = [] ∧ ∀ token, v.twapWindow token = 0 := by
  unfold init at h
  repeat' split at h
  all_goals cases h
  exact ⟨rfl, fun _ => rfl⟩

end BasketVault

/-- Every pool in use was checked for its window, and so serves it, in every state of a run exactly when every asset the
run adds finds its stored window covered. -/
theorem windows_checked_iff (maxAssets : Nat) (self : Address) (wallet : Wallet) (initialSlippageBps : Nat)
    (p : InitParams) (v₀ : BasketVault) (h₀ : init self wallet initialSlippageBps p = .ok v₀)
    (cs : List ConfigCall) :
    (∀ ds, ds <+: cs → BasketVault.WindowsChecked (run (auditStep maxAssets) ⟨v₀, []⟩ ds) ∧
      BasketVault.WindowsServed (run (auditStep maxAssets) ⟨v₀, []⟩ ds)) ↔
    Along (auditStep maxAssets) (BasketVault.WindowCovered maxAssets) ⟨v₀, []⟩ cs := by
  have hboth : ∀ x, BasketVault.WindowsChecked x ∧ BasketVault.WindowsServed x ↔ BasketVault.WindowsChecked x :=
    fun x => and_iff_left_of_imp BasketVault.WindowsChecked.served
  simp only [hboth]
  refine forall_prefix_iff_along ?_ ?_
  · intro x c hx
    cases h : auditStep maxAssets x c with
    | ok y =>
      rw [exec_of_ok h]
      exact windowsChecked_step hx h
    | error e =>
      rw [exec_of_error h]
      refine iff_of_true hx ?_
      rintro isAdmin r a rfl ⟨v, hv⟩
      rw [auditStep, hv, ok_bind] at h
      cases h
  · intro a ha
    rw [(init_spec h₀).1] at ha
    exact absurd ha not_mem_nil

def InitParams.sample : InitParams where
  usdc := 60
  swapRouter := 59
  tvlCap := 10 ^ 12
  perDepositCap := 10 ^ 12
  exitFeeBps := 0
  feeRecipient := 9
  admin := 7
  emergencyResponder := 8
  caps_lt := ⟨by decide, by decide⟩

def emptyWallet : Wallet := ⟨⟨fun _ => 0, fun _ _ => 0⟩, fun _ => 0⟩

def addOn (pool : Address) : ConfigCall := .addAsset true (usablePool 61) ⟨61, pool, 500, true, 0, .v3⟩

/-- Token 61 is added on pool 100, given a window of a day, removed, and added on the given pool. -/
def addedAgainOn (pool : Address) : List ConfigCall :=
  [addOn 100, .setTwapWindow true { usablePool 61 with cardinality := .returned 43201 } 61 86400,
    .removeAsset true parMarket 0, addOn pool]

private theorem not_addAsset {x : AuditedVault} {c : ConfigCall} (h : ∀ isAdmin r a, c ≠ .addAsset isAdmin r a) :
    BasketVault.WindowCovered 10 x c := fun isAdmin r a hc _ => absurd hc (h isAdmin r a)

/-- Back on its old pool, the token has a pool that was checked for a day. -/
theorem windows_checked_iff_same_pool :
    ∃ v₀, init 50 emptyWallet 100 .sample = .ok v₀ ∧ ∀ ds, ds <+: addedAgainOn 100 →
      BasketVault.WindowsChecked (run (auditStep 10) ⟨v₀, []⟩ ds) ∧
      BasketVault.WindowsServed (run (auditStep 10) ⟨v₀, []⟩ ds) := by
  obtain ⟨v₀, h₀⟩ : ∃ v₀, init 50 emptyWallet 100 .sample = .ok v₀ := ⟨_, rfl⟩
  refine ⟨v₀, h₀, (windows_checked_iff 10 50 emptyWallet 100 .sample v₀ h₀ _).2 ⟨?_, not_addAsset ?_,
    not_addAsset ?_, ?_, trivial⟩⟩
  · intro isAdmin r a hc _
    cases h₀
    cases hc
    exact .inl (by decide +kernel)
  · intro _ _ _ hc
    cases hc
  · intro _ _ _ hc
    cases hc
  · intro isAdmin r a hc _
    cases h₀
    cases hc
    exact .inr ⟨86400, by decide +kernel, by decide +kernel⟩

def youngMarket : Market :=
  { parMarket with observe := fun pool window => if pool ≠ 100 ∧ 1800 < window then none else some (0, 0) }

/-- On a new pool it keeps the window of a day, though the pool was checked for half an hour: while every pool serves
what it was checked for, the token has no price. -/
theorem window_outlives_pool :
    ∃ v₀ a, init 50 emptyWallet 100 .sample = .ok v₀ ∧
      a ∈ (run (auditStep 10) ⟨v₀, []⟩ (addedAgainOn 101)).vault.assets ∧ a.active = true ∧
      BasketVault.Serves youngMarket (run (auditStep 10) ⟨v₀, []⟩ (addedAgainOn 101)).passed ∧
      (run (auditStep 10) ⟨v₀, []⟩ (addedAgainOn 101)).vault.twapUsdcValue youngMarket a 1 = .error .externalRevert ∧
      ¬ BasketVault.WindowsChecked (run (auditStep 10) ⟨v₀, []⟩ (addedAgainOn 101)) := by
  obtain ⟨v₀, h₀⟩ : ∃ v₀, init 50 emptyWallet 100 .sample = .ok v₀ := ⟨_, rfl⟩
  obtain ⟨x, hx⟩ : ∃ x, run (auditStep 10) ⟨v₀, []⟩ (addedAgainOn 101) = x := ⟨_, rfl⟩
  have hpassed : x.passed = [(100, 1800), (100, 86400), (101, 1800)] := by
    cases h₀
    subst hx
    decide +kernel
  have hentry : ⟨61, 101, 500, true, 0, .v3⟩ ∈ x.vault.assets := by
    cases h₀
    subst hx
    decide +kernel
  have hwindow : x.vault.effectiveTwapWindow 61 = 86400 := by
    cases h₀
    subst hx
    decide +kernel
  have hprice : x.vault.twapUsdcValue youngMarket ⟨61, 101, 500, true, 0, .v3⟩ 1 = .error .externalRevert := by
    cases h₀
    subst hx
    decide +kernel
  refine ⟨v₀, ⟨61, 101, 500, true, 0, .v3⟩, h₀, ?_⟩
  rw [hx]
  refine ⟨hentry, rfl, ?_, hprice, ?_⟩
  · intro pool window hmem w hle
    rw [hpassed] at hmem
    simp only [mem_cons, not_mem_nil, or_false, Prod.mk.injEq] at hmem
    have hyoung : ¬ (pool ≠ 100 ∧ 1800 < w) := by
      rcases hmem with ⟨rfl, rfl⟩ | ⟨rfl, rfl⟩ | ⟨rfl, rfl⟩
      · exact fun h => h.1 rfl
      · exact fun h => h.1 rfl
      · omega
    simp only [youngMarket, if_neg hyoung, Option.isSome_some]
  · intro h
    obtain ⟨window, hmem, hle⟩ := h _ hentry rfl
    rw [hpassed] at hmem
    rw [hwindow] at hle
    simp only [mem_cons, not_mem_nil, or_false, Prod.mk.injEq] at hmem
    rcases hmem with ⟨hpool, -⟩ | ⟨hpool, -⟩ | ⟨-, rfl⟩
    · exact absurd hpool (by decide)
    · exact absurd hpool (by decide)
    · exact absurd hle (by decide)

/-- The slippage bound is no lower than the floor in every state of a run exactly when every asset the run adds has a
fee within the bound of the moment. -/
theorem slippage_floor_iff (maxAssets : Nat) (self : Address) (wallet : Wallet) (initialSlippageBps : Nat)
    (p : InitParams) (v₀ : BasketVault) (h₀ : init self wallet initialSlippageBps p = .ok v₀)
    (cs : List ConfigCall) :
    (∀ ds, ds <+: cs → (run (configStep maxAssets) v₀ ds).minSlippageFloorBps ≤
      (run (configStep maxAssets) v₀ ds).maxSlippageBps) ↔
    Along (configStep maxAssets) (BasketVault.FeeWithinSlippage maxAssets) v₀ cs := by
  refine forall_prefix_iff_along (P := BasketVault.SlippageFloored) ?_ ?_
  · intro v c hv
    cases h : configStep maxAssets v c with
    | ok v' =>
      rw [exec_of_ok h]
      exact slippageFloored_step hv h
    | error e =>
      rw [exec_of_error h]
      refine iff_of_true hv ?_
      rintro isAdmin r a rfl ⟨v', hv'⟩
      rw [h] at hv'
      cases hv'
  · unfold BasketVault.SlippageFloored
    rw [minSlippageFloorBps_le_iff, (init_spec h₀).1]
    exact fun a ha => absurd ha not_mem_nil

/-- The default bound of one percent covers a pool with a fee of five basis points. -/
theorem slippage_floor_iff_default :
    ∃ v₀, init 50 emptyWallet 100 .sample = .ok v₀ ∧ ∀ ds, ds <+: [addOn 100] →
      (run (configStep 10) v₀ ds).minSlippageFloorBps ≤ (run (configStep 10) v₀ ds).maxSlippageBps := by
  obtain ⟨v₀, h₀⟩ : ∃ v₀, init 50 emptyWallet 100 .sample = .ok v₀ := ⟨_, rfl⟩
  refine ⟨v₀, h₀, (slippage_floor_iff 10 50 emptyWallet 100 .sample v₀ h₀ _).2 ⟨?_, trivial⟩⟩
  intro isAdmin r a hc _
  cases h₀
  cases hc
  decide +kernel

/-- A bound of zero is accepted while there is no asset, and stays when one is added. -/
theorem slippage_bound_below_floor :
    ∃ v₀, init 50 emptyWallet 100 .sample = .ok v₀ ∧
      (run (configStep 10) v₀ [.setMaxSlippageBps true 0, addOn 100]).maxSlippageBps = 0 ∧
      (run (configStep 10) v₀ [.setMaxSlippageBps true 0, addOn 100]).minSlippageFloorBps = 5 :=
  ⟨_, rfl, by decide +kernel, by decide +kernel⟩

end RobotMoney.Basket
