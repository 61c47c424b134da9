import RobotMoney.Basket.Redeem

/-!
# The asset registry of a basket

`addAsset` with the checks it makes of the adapter and of the pool, `removeAsset` and `emergencyUnwind`, as a machine.
The array of assets only grows: a removal leaves an inactive entry, and adding its token again turns that entry back
on.

* No two entries have one token, and there are never more than `maxAssets` of them.
* The length is checked before an entry is looked for, so in a full registry a removed token cannot come back: re-adds
  go through in every run in which none of them meets a full registry, and in no other (`readds_iff_not_full`).
-/

namespace RobotMoney.Basket

open Evm List Except

inductive AssetError where
  | basket (e : BasketError)
  | unauthorizedAccount
  | adapterCodeHashNotAllowed
  | executionPoolMismatch
  | tokenHasNoCode (token : Address)
  | insufficientPoolCardinality (pool : Address) (required actual : Nat)
  | insufficientObservationHistory (pool : Address) (requiredWindow : Nat)
  | insufficientPoolLiquidity (pool : Address) (required actual : Nat)
  | emergencyFloorUnavailable (token : Address)
  deriving DecidableEq

def baseBlockSeconds : Nat := 2

def minPoolLiquidity : Nat := 10 ^ 6

/-- What `addAsset` reads of the world: the code of the token, the allowlist at the code hash of the adapter, and the
pool.  `poolParam` is the tick spacing of an Aerodrome pool and the fee of any other, `observes` whether the pool serves
the window. -/
structure PoolReading where
  adapterAllowed : Bool
  poolParam : Reply Nat
  tokenCodeLength : Nat
  tokenIsB20 : Bool
  pair : Reply PoolPair
  cardinality : Reply Nat
  observes : Bool
  liquidity : Reply Nat

def requireAllowedAdapter (adapter : Address) (allowed : Bool) : Except AssetError Unit :=
  revertIf (adapter ≠ 0 ∧ allowed = false) .adapterCodeHashNotAllowed

def requireExecutionPoolMatchesTwap (r : PoolReading) (swapFee : Nat) : Except AssetError Unit :=
  if swapFee = 0 then .ok ()
  else do
    let poolParam ← r.poolParam.value (.basket .externalRevert)
    revertIf (poolParam ≠ swapFee) .executionPoolMismatch

def requireObservationHistory (r : PoolReading) (pool : Address) (twapWindow : Nat) : Except AssetError Unit := do
  let cardinality ← r.cardinality.value (.basket .externalRevert)
  let required := (twapWindow / baseBlockSeconds + 1) % 2 ^ 16
  revertIf (cardinality < required) (.insufficientPoolCardinality pool required cardinality)
  revertIf (r.observes = false) (.insufficientObservationHistory pool twapWindow)

/-- `requirePoolUsable`, with the tokens of the pool. -/
def requirePoolUsable (r : PoolReading) (pool token usdc : Address) (twapWindow minLiquidity : Nat) :
    Except AssetError PoolPair := do
  revertIf (r.tokenCodeLength < 2 ∧ r.tokenIsB20 = false) (.tokenHasNoCode token)
  let pair ← r.pair.value (.basket .externalRevert)
  revertIf (¬ ((pair.token0 = token ∧ pair.token1 = usdc) ∨ (pair.token1 = token ∧ pair.token0 = usdc)))
    (.basket .poolTokenMismatch)
  requireObservationHistory r pool twapWindow
  let liquidity ← r.liquidity.value (.basket .externalRevert)
  revertIf (liquidity < minLiquidity) (.insufficientPoolLiquidity pool minLiquidity liquidity)
  .ok pair

namespace BasketVault

/-- The checks of `addAsset` on its adapter and its pool. -/
def vetAsset (v : BasketVault) (r : PoolReading) (a : AssetInfo) : Except AssetError PoolPair := do
  requireAllowedAdapter a.adapter r.adapterAllowed
  requireExecutionPoolMatchesTwap r a.swapFee
  requirePoolUsable r a.pool a.token v.usdcToken defaultTwapWindow minPoolLiquidity

/-- `addAsset` in full, its entry written by `addAsset`. -/
def addVettedAsset (v : BasketVault) (maxAssets : Nat) (isAdmin : Bool) (r : PoolReading) (a : AssetInfo) :
    Except AssetError BasketVault := do
  revertIf (isAdmin = false) .unauthorizedAccount
  revertIf (a.token = 0 ∨ a.pool = 0) (.basket .zeroAddress)
  revertIf (v.assets.length ≥ maxAssets) (.basket .maxAssetsReached)
  let pair ← v.vetAsset r a
  (v.addAsset maxAssets pair a).mapError .basket

/-- `removeAsset` for its admin. -/
def removeAssetAs (v : BasketVault) (isAdmin : Bool) (m : Market) (index : Nat) : Except AssetError BasketVault := do
  revertIf (isAdmin = false) .unauthorizedAccount
  (v.removeAsset m index).mapError .basket

/-- `_emergencyFloor`, where `minUsdcOut` is the configured minimum of each token: no floor for dust, and the configured
minimum alone while the price cannot be read. -/
def emergencyFloor (v : BasketVault) (m : Market) (minUsdcOut : Address → Nat) (a : AssetInfo) (bal : Nat) :
    Except AssetError (Option Nat) :=
  match v.twapUsdcValue m a bal with
  | .ok twapValue => do
    let twapFloor ← (v.applySlippage twapValue).mapError .basket
    .ok (if twapFloor = 0 then none else some (max twapFloor (minUsdcOut a.token)))
  | .error _ => do
    revertIf (minUsdcOut a.token = 0) (.emergencyFloorUnavailable a.token)
    .ok (some (minUsdcOut a.token))

/-- One round of `unwindAll`. -/
def unwindLeg (v : BasketVault) (m : Market) (venue : SwapVenue) (minUsdcOut : Address → Nat) (w : Wallet)
    (a : AssetInfo) : Except AssetError Wallet :=
  if a.active = false then .ok w
  else if w.held a.token = 0 then .ok w
  else do
    match ← v.emergencyFloor m minUsdcOut a (w.held a.token) with
    | none => .ok w
    | some floor => do
      let (wallet, _) ← (orRevert (venue w ⟨a, true, w.held a.token, floor⟩)).mapError .basket
      .ok wallet

/-- `emergencyUnwind`: deposits are halted and every active asset is sold. -/
def emergencyUnwind (v : BasketVault) (isResponder : Bool) (m : Market) (venue : SwapVenue)
    (minUsdcOut : Address → Nat) : Except AssetError BasketVault := do
  revertIf (isResponder = false) .unauthorizedAccount
  let wallet ← v.assets.foldlM (v.unwindLeg m venue minUsdcOut) v.wallet
  .ok { v with depositsPaused := true, wallet := wallet }

end BasketVault

inductive RegistryCall where
  | addAsset (isAdmin : Bool) (r : PoolReading) (a : AssetInfo)
  | removeAsset (isAdmin : Bool) (m : Market) (index : Nat)
  | emergencyUnwind (isResponder : Bool) (m : Market) (venue : SwapVenue) (minUsdcOut : Address → Nat)

def registryStep (maxAssets : Nat) (v : BasketVault) : RegistryCall → Except AssetError BasketVault
  | .addAsset isAdmin r a => v.addVettedAsset maxAssets isAdmin r a
  | .removeAsset isAdmin m index => v.removeAssetAs isAdmin m index
  | .emergencyUnwind isResponder m venue minUsdcOut => v.emergencyUnwind isResponder m venue minUsdcOut

variable {assets : List AssetInfo} {a : AssetInfo}

private theorem addEntry_of_inactive (hn : (assets.map (·.token)).Nodup) {a b : AssetInfo} {i : Nat}
    (hb : assets[i]? = some b) (htoken : b.token = a.token) (hinactive : b.active = false) :
    addEntry assets a = .ok (assets.set i { a with active := true }) := by
  induction assets generalizing i with
  | nil => cases hb
  | cons c rest ih =>
    obtain ⟨hc, hrest⟩ := nodup_cons.1 (map_cons ▸ hn)
    cases i with
    | zero =>
      obtain rfl : c = b := by simpa using hb
      simp [addEntry, htoken, hinactive, revertIf]
    | succ i =>
      rw [getElem?_cons_succ] at hb
      have hne : c.token ≠ a.token := by
        intro h
        exact hc (mem_map.2 ⟨b, mem_of_getElem? hb, htoken.trans h.symm⟩)
      simp [addEntry, hne, ih hrest hb]

private theorem length_addEntry {assets assets' : List AssetInfo} (h : addEntry assets a = .ok assets') :
    assets'.length ≤ assets.length + 1 := by
  induction assets generalizing assets' with
  | nil =>
    cases h
    exact Nat.le_refl _
  | cons c rest ih =>
    unfold addEntry at h
    split at h
    · simp only [bind_eq_ok, ok.injEq] at h
      obtain ⟨rest', hrest, rfl⟩ := h
      have := ih hrest
      simp only [length_cons]
      omega
    simp only [bind_eq_ok, ok.injEq] at h
    obtain ⟨-, -, rfl⟩ := h
    simp

theorem active_of_deactivateEntry {index : Nat} (h : a ∈ deactivateEntry assets index) (hact : a.active = true) :
    a ∈ assets := by
  unfold deactivateEntry at h
  obtain ⟨i, hi⟩ := mem_iff_getElem?.1 h
  rw [getElem?_modify] at hi
  obtain ⟨b, hb, rfl⟩ := Option.map_eq_some_iff.1 hi
  by_cases hindex : index = i
  · rw [if_pos hindex] at hact
    cases hact
  rw [if_neg hindex]
  exact mem_of_getElem? hb

namespace BasketVault

variable {v v' : BasketVault} {maxAssets : Nat}

variable {pair : PoolPair} {a : AssetInfo} {r : PoolReading}

theorem addAsset_eq_ok (h : v.addAsset maxAssets pair a = .ok v') :
    v.assets.length < maxAssets ∧ addEntry v.assets a = .ok v'.assets := by
  unfold addAsset at h
  split at h
  · cases h
  split at h
  · cases h
  rename_i hroom
  split at h
  · split at h
    · cases h
    rename_i assets hentry
    cases h
    exact ⟨by omega, hentry⟩
  · cases h

private theorem addAsset_returns {assets : List AssetInfo} (hzero : ¬ (a.token = 0 ∨ a.pool = 0))
    (hroom : v.assets.length < maxAssets)
    (hpair : (pair.token0 = a.token ∧ pair.token1 = v.usdcToken) ∨ (pair.token1 = a.token ∧ pair.token0 = v.usdcToken))
    (hentry : addEntry v.assets a = .ok assets) : ∃ v', v.addAsset maxAssets pair a = .ok v' ∧ v'.assets = assets := by
  unfold addAsset
  rw [if_neg hzero, if_neg (by omega), dif_pos hpair]
  split
  · rename_i e herror
    rw [hentry] at herror
    cases herror
  rename_i assets' hentry'
  rw [hentry] at hentry'
  cases hentry'
  exact ⟨_, rfl, rfl⟩

theorem removeAsset_eq_ok {m : Market} {index : Nat} (h : v.removeAsset m index = .ok v') :
    ∃ hn hu, v' = { v with
      assets := deactivateEntry v.assets index
      tokens_nodup := hn
      tokens_ne_usdc := hu } := by
  unfold removeAsset at h
  split at h
  · cases h
  split at h
  · cases h
  dsimp only at h
  split at h
  · simp only [bind_eq_ok, ok.injEq] at h
    obtain ⟨-, -, -, -, rfl⟩ := h
    exact ⟨_, _, rfl⟩
  simp only [ok_bind, ok.injEq] at h
  exact ⟨_, _, h.symm⟩

private theorem length_registryStep {c : RegistryCall} (hv : v.assets.length ≤ maxAssets)
    (h : registryStep maxAssets v c = .ok v') : v'.assets.length ≤ maxAssets := by
  cases c with
  | addAsset isAdmin r a =>
    simp only [registryStep, addVettedAsset, bind_eq_ok, mapError_eq_ok] at h
    obtain ⟨-, -, -, -, -, -, pair, -, h⟩ := h
    obtain ⟨hroom, hentry⟩ := addAsset_eq_ok h
    have hlength := length_addEntry hentry
    omega
  | removeAsset isAdmin m index =>
    simp only [registryStep, removeAssetAs, bind_eq_ok, mapError_eq_ok] at h
    obtain ⟨-, -, h⟩ := h
    obtain ⟨-, -, rfl⟩ := removeAsset_eq_ok h
    exact (length_modify ..).trans_le hv
  | emergencyUnwind isResponder m venue minUsdcOut =>
    simp only [registryStep, emergencyUnwind, bind_eq_ok, ok.injEq] at h
    obtain ⟨-, -, w, -, rfl⟩ := h
    exact hv

private theorem pair_of_vetAsset (h : v.vetAsset r a = .ok pair) :
    (pair.token0 = a.token ∧ pair.token1 = v.usdcToken) ∨ (pair.token1 = a.token ∧ pair.token0 = v.usdcToken) := by
  simp only [vetAsset, requirePoolUsable, bind_eq_ok, revertIf_eq_ok, not_not, ok.injEq] at h
  obtain ⟨-, -, -, -, -, -, read, -, -, hpair, -, -, -, -, -, -, rfl⟩ := h
  exact hpair

/-- A removed token is added again, and all checks but that of the length pass. -/
structure IsReAdd (v : BasketVault) (r : PoolReading) (a : AssetInfo) : Prop where
  nonzero : a.token ≠ 0 ∧ a.pool ≠ 0
  vetted : ∃ pair, v.vetAsset r a = .ok pair
  entry : ∃ b ∈ v.assets, b.token = a.token ∧ b.active = false

def Reactivates (v v' : BasketVault) (a : AssetInfo) : Prop :=
  ∃ (i : Nat) (b : AssetInfo), v.assets[i]? = some b ∧ b.token = a.token ∧ b.active = false ∧
    v'.assets = v.assets.set i { a with active := true }

private theorem reAdd_iff (h : v.IsReAdd r a) :
    (∃ v', v.addVettedAsset maxAssets true r a = .ok v' ∧ v.Reactivates v' a) ↔ v.assets.length < maxAssets := by
  constructor
  · rintro ⟨v', hcall, -⟩
    simp only [addVettedAsset, bind_eq_ok, mapError_eq_ok] at hcall
    obtain ⟨-, -, -, -, -, -, pair, -, hcall⟩ := hcall
    exact (addAsset_eq_ok hcall).1
  · intro hroom
    obtain ⟨pair, hpair⟩ := h.vetted
    obtain ⟨b, hb, htoken, hinactive⟩ := h.entry
    obtain ⟨i, hi⟩ := mem_iff_getElem?.1 hb
    have hzero : ¬ (a.token = 0 ∨ a.pool = 0) := not_or.2 h.nonzero
    obtain ⟨v', hv', hassets⟩ := addAsset_returns hzero hroom (pair_of_vetAsset hpair)
      (addEntry_of_inactive v.tokens_nodup hi htoken hinactive)
    refine ⟨v', ?_, i, b, hi, htoken, hinactive, hassets⟩
    simp only [addVettedAsset, bind_eq_ok, revertIf_eq_ok, mapError_eq_ok]
    exact ⟨(), by simp, (), hzero, (), by omega, pair, hpair, hv'⟩

private theorem reAdd_full (h : v.IsReAdd r a) (hfull : maxAssets ≤ v.assets.length) :
    v.addVettedAsset maxAssets true r a = .error (.basket .maxAssetsReached) := by
  have hzero : ¬ (a.token = 0 ∨ a.pool = 0) := not_or.2 h.nonzero
  rw [addVettedAsset, revertIf_of_not _ (by simp), ok_bind, revertIf_of_not _ hzero, ok_bind,
    revertIf_of _ hfull, error_bind]

def ReAddsGoThrough (maxAssets : Nat) (v : BasketVault) (c : RegistryCall) : Prop :=
  ∀ r a, c = .addAsset true r a → v.IsReAdd r a →
    ∃ v', registryStep maxAssets v c = .ok v' ∧ v.Reactivates v' a

def ReAddsWithRoom (maxAssets : Nat) (v : BasketVault) (c : RegistryCall) : Prop :=
  ∀ r a, c = .addAsset true r a → v.IsReAdd r a → v.assets.length < maxAssets

private theorem reAddsGoThrough_iff (v : BasketVault) (c : RegistryCall) :
    v.ReAddsGoThrough maxAssets c ↔ v.ReAddsWithRoom maxAssets c := by
  constructor
  · rintro h r a rfl hreadd
    exact (reAdd_iff hreadd).1 (h r a rfl hreadd)
  · rintro h r a rfl hreadd
    exact (reAdd_iff hreadd).2 (h r a rfl hreadd)

end BasketVault

/-- In every run from an empty registry the entries have different tokens and are no more than `maxAssets`, and every
re-add of the run goes through if and only if each of them finds fewer entries than that. -/
theorem readds_iff_not_full (maxAssets : Nat) (v₀ : BasketVault) (h₀ : v₀.assets = []) (cs : List RegistryCall) :
    (((run (registryStep maxAssets) v₀ cs).assets.map (·.token)).Nodup ∧
      (run (registryStep maxAssets) v₀ cs).assets.length ≤ maxAssets) ∧
    (Along (registryStep maxAssets) (BasketVault.ReAddsGoThrough maxAssets) v₀ cs ↔
      Along (registryStep maxAssets) (BasketVault.ReAddsWithRoom maxAssets) v₀ cs) := by
  refine ⟨⟨BasketVault.tokens_nodup _, ?_⟩, ?_⟩
  · refine run_invariant (P := fun v : BasketVault => v.assets.length ≤ maxAssets) ?_ ?_ cs
    · intro v c v' hv hc
      exact BasketVault.length_registryStep hv hc
    · rw [h₀]
      exact Nat.zero_le _
  · exact along_congr BasketVault.reAddsGoThrough_iff

private theorem no_token_usdc : ∀ a ∈ ([] : List AssetInfo), a.token ≠ freshBasket.usdcToken := by simp

def emptyBasket : BasketVault :=
  { freshBasket with assets := [], tokens_nodup := nodup_nil, tokens_ne_usdc := no_token_usdc }

def usablePool (token : Address) : PoolReading where
  adapterAllowed := false
  poolParam := .returned 500
  tokenCodeLength := 1000
  tokenIsB20 := false
  pair := if h : token ≠ 60 then .returned ⟨token, 60, h⟩ else .reverted
  cardinality := .returned 901
  observes := true
  liquidity := .returned (10 ^ 6)

def addToken (token : Address) : RegistryCall := .addAsset true (usablePool token) ⟨token, 100, 500, true, 0, .v3⟩

/-- A token added, removed and added again while there is room. -/
theorem readds_iff_not_full_round_trip :
    Along (registryStep 10) (BasketVault.ReAddsGoThrough 10) emptyBasket
      [addToken 61, .removeAsset true parMarket 0, addToken 61] := by
  refine (readds_iff_not_full 10 emptyBasket rfl _).2.2 ⟨?_, ?_, ?_, trivial⟩
  · exact fun r a _ _ => show emptyBasket.assets.length < 10 by decide
  · rintro r a h -
    cases h
  · intro r a _ _
    decide +kernel

/-- Ten tokens, one of them removed: it cannot come back, though every other check passes. -/
theorem readd_refused_when_full :
    ∃ (cs : List RegistryCall) (r : PoolReading) (a : AssetInfo),
      (run (registryStep 10) emptyBasket cs).IsReAdd r a ∧
      registryStep 10 (run (registryStep 10) emptyBasket cs) (.addAsset true r a) =
        .error (.basket .maxAssetsReached) ∧
      ¬ Along (registryStep 10) (BasketVault.ReAddsGoThrough 10) emptyBasket (cs ++ [.addAsset true r a]) := by
  obtain ⟨cs, hcs⟩ : ∃ cs : List RegistryCall,
    cs = ([61, 62, 63, 64, 65, 66, 67, 68, 69, 70] : List Address).map addToken ++
      [.removeAsset true parMarket 0] := ⟨_, rfl⟩
  have hfull : (run (registryStep 10) emptyBasket cs).assets.length = 10 := by
    subst hcs
    decide +kernel
  have hentry : ⟨61, 100, 500, false, 0, .v3⟩ ∈ (run (registryStep 10) emptyBasket cs).assets := by
    subst hcs
    decide +kernel
  have hvet : ((run (registryStep 10) emptyBasket cs).vetAsset (usablePool 61) ⟨61, 100, 500, true, 0, .v3⟩).isOk =
      true := by
    subst hcs
    decide +kernel
  have hreadd : (run (registryStep 10) emptyBasket cs).IsReAdd (usablePool 61) ⟨61, 100, 500, true, 0, .v3⟩ := by
    refine ⟨by decide, ?_, _, hentry, rfl, rfl⟩
    cases hpair : (run (registryStep 10) emptyBasket cs).vetAsset (usablePool 61) ⟨61, 100, 500, true, 0, .v3⟩ with
    | ok pair => exact ⟨pair, rfl⟩
    | error e =>
      rw [hpair] at hvet
      cases hvet
  have hrefused : registryStep 10 (run (registryStep 10) emptyBasket cs)
      (.addAsset true (usablePool 61) ⟨61, 100, 500, true, 0, .v3⟩) = .error (.basket .maxAssetsReached) :=
    BasketVault.reAdd_full hreadd hfull.ge
  refine ⟨cs, _, _, hreadd, hrefused, fun halong => ?_⟩
  obtain ⟨hlast, -⟩ := (along_append.1 halong).2
  obtain ⟨v', hcall, -⟩ := hlast _ _ rfl hreadd
  rw [hrefused] at hcall
  cases hcall

end RobotMoney.Basket
