import RobotMoney.Basket.Market

/-!
# The basket vault (`BasketVault`)

A vault that holds a basket of tokens bought and sold against USDC.  Shares are minted on the value the swaps of a
deposit really brought in and redeemed against the USDC the swaps of an exit really paid out.  Swaps run outside the
vault (`SwapVenue`): they may do anything to what the vault holds, and what a caller can count on is stated where it
is used.

The record carries the facts that its writers maintain: the bounds of the setters, one entry a token in the asset list,
and a share supply that is the sum of the balances.
-/

namespace RobotMoney.Basket

open Evm List Function

/-- `MAX_SLIPPAGE_BPS`. -/
def maxSlippageCeiling : Nat := 500

def maxExitFeeBps : Nat := 100

def defaultTwapWindow : Nat := 1800

/-- `10 ** _decimalsOffset()`. -/
def virtualShares : Nat := 10 ^ 18

/-- `type(uint256).max`. -/
def maxUint : Nat := wordSize - 1

/-- USDC, with everybody's balance of it, and what the vault holds of each basket token. -/
structure Wallet where
  usdc : Token
  held : Address → Nat

structure BasketVault where
  self : Address
  usdcToken : Address
  assets : List AssetInfo
  twapWindow : Address → Nat
  tvlCap : Nat
  perDepositCap : Nat
  exitFeeBps : Nat
  feeRecipient : Address
  maxSlippageBps : Nat
  navDeviationGuardBps : Nat
  shutdown : Bool
  depositsPaused : Bool
  retired : Bool
  wallet : Wallet
  shares : Balances
  totalSupply : Nat
  allowance : Address → Address → Nat
  caps_lt : tvlCap < wordSize ∧ perDepositCap < wordSize
  /-- `setMaxSlippageBps` and the initializer reject more. -/
  slippage_le : maxSlippageBps ≤ maxSlippageCeiling
  /-- `setExitFeeBps` and the initializer reject more. -/
  fee_le : exitFeeBps ≤ maxExitFeeBps
  /-- `addAsset` reuses the entry of a token that has one. -/
  tokens_nodup : (assets.map (·.token)).Nodup
  /-- The pool of an asset pairs it with USDC. -/
  tokens_ne_usdc : ∀ a ∈ assets, a.token ≠ usdcToken
  supply_eq : ∑ a, shares a = totalSupply

/-- `reuseOrRejectDuplicate` and the push after it: an entry of the token is reused if it is inactive and refused if it
is active, and a new token is pushed. -/
def addEntry (assets : List AssetInfo) (a : AssetInfo) : Except BasketError (List AssetInfo) :=
  match assets with
  | [] => .ok [{ a with active := true }]
  | b :: rest =>
    if b.token ≠ a.token then do
      let rest ← addEntry rest a
      .ok (b :: rest)
    else do
      revertIf (b.active = true) .assetAlreadyActive
      .ok ({ a with active := true } :: rest)

private theorem mem_addEntry {assets assets' : List AssetInfo} {a b : AssetInfo} (h : addEntry assets a = .ok assets')
    (hb : b ∈ assets') : b.token = a.token ∨ b ∈ assets := by
  induction assets generalizing assets' with
  | nil =>
    cases h
    simp only [mem_singleton] at hb
    exact .inl (by rw [hb])
  | cons c rest ih =>
    unfold addEntry at h
    split at h
    · simp only [bind_eq_ok, Except.ok.injEq] at h
      obtain ⟨rest', hrest, rfl⟩ := h
      simp only [mem_cons] at hb ⊢
      rcases hb with rfl | hb
      · exact .inr (.inl rfl)
      rcases ih hrest hb with h | h
      · exact .inl h
      · exact .inr (.inr h)
    simp only [bind_eq_ok, Except.ok.injEq] at h
    obtain ⟨-, -, rfl⟩ := h
    simp only [mem_cons] at hb ⊢
    rcases hb with rfl | hb
    · exact .inl rfl
    · exact .inr (.inr hb)

private theorem addEntry_nodup {assets assets' : List AssetInfo} {a : AssetInfo} (hn : (assets.map (·.token)).Nodup)
    (h : addEntry assets a = .ok assets') : (assets'.map (·.token)).Nodup := by
  induction assets generalizing assets' with
  | nil =>
    cases h
    exact nodup_singleton _
  | cons c rest ih =>
    rw [map_cons, nodup_cons] at hn
    unfold addEntry at h
    split at h
    · rename_i hc
      simp only [bind_eq_ok, Except.ok.injEq] at h
      obtain ⟨rest', hrest, rfl⟩ := h
      rw [map_cons, nodup_cons]
      refine ⟨?_, ih hn.2 hrest⟩
      intro hmem
      obtain ⟨b, hb, hbc⟩ := mem_map.1 hmem
      rcases mem_addEntry hrest hb with h | h
      · exact hc (hbc.symm.trans h)
      · exact hn.1 (mem_map.2 ⟨b, h, hbc⟩)
    rename_i hc
    simp only [bind_eq_ok, Except.ok.injEq] at h
    obtain ⟨-, -, rfl⟩ := h
    rw [map_cons, nodup_cons]
    rw [not_not] at hc
    exact ⟨by rw [← hc]; exact hn.1, hn.2⟩

/-- The write of `deactivateAsset`. -/
def deactivateEntry (assets : List AssetInfo) (index : Nat) : List AssetInfo :=
  assets.modify index fun a => { a with active := false }

private theorem map_token_deactivateEntry (assets : List AssetInfo) (index : Nat) :
    (deactivateEntry assets index).map (·.token) = assets.map (·.token) := by
  unfold deactivateEntry
  induction assets generalizing index with
  | nil => simp
  | cons a rest ih =>
    cases index with
    | zero => simp
    | succ i => simp [ih]

/-- The two tokens of a pool, which its factory requires to differ. -/
structure PoolPair where
  token0 : Address
  token1 : Address
  distinct : token0 ≠ token1

namespace BasketVault

def idle (v : BasketVault) : Nat := v.wallet.usdc.balance v.self

def effectiveTwapWindow (v : BasketVault) (token : Address) : Nat :=
  if v.twapWindow token = 0 then defaultTwapWindow else v.twapWindow token

def twapUsdcValue (v : BasketVault) (m : Market) (a : AssetInfo) (tokenAmount : Nat) : Except BasketError Nat :=
  m.quote a a.token v.usdcToken tokenAmount (v.effectiveTwapWindow a.token)

def twapTokenValue (v : BasketVault) (m : Market) (a : AssetInfo) (usdcAmount : Nat) : Except BasketError Nat :=
  m.quote a v.usdcToken a.token usdcAmount (v.effectiveTwapWindow a.token)

def activeAssetCount (v : BasketVault) : Nat := v.assets.countP (·.active)

/-- The value one asset adds to `totalAssets`. -/
def legValue (v : BasketVault) (m : Market) (a : AssetInfo) : Except BasketError Nat :=
  if a.active = false then .ok 0
  else if v.wallet.held a.token > 0 then v.twapUsdcValue m a (v.wallet.held a.token)
  else .ok 0

def totalAssets (v : BasketVault) (m : Market) : Except BasketError Nat :=
  v.assets.foldlM (fun sum a => do
    let value ← v.legValue m a
    add sum value) v.idle

/-- `minSlippageFloorBps`: the highest fee tier of an active asset. -/
def minSlippageFloorBps (v : BasketVault) : Nat :=
  v.assets.foldl (fun floorBps a => if a.active then max floorBps (a.swapFee / 100) else floorBps) 0

def setMaxSlippageBps (v : BasketVault) (newBps : Nat) : Except BasketError BasketVault :=
  if h : newBps > maxSlippageCeiling then .error .invalidParam
  else if newBps < v.minSlippageFloorBps then .error (.slippageBelowPoolFeeFloor newBps v.minSlippageFloorBps)
  else .ok { v with maxSlippageBps := newBps, slippage_le := Nat.le_of_not_lt h }

def convertToShares (v : BasketVault) (m : Market) (assets : Nat) (r : Rounding) : Except BasketError Nat := do
  let supply ← add v.totalSupply virtualShares
  let ta ← v.totalAssets m
  let backing ← add ta 1
  mulDiv r assets supply backing

def convertToAssets (v : BasketVault) (m : Market) (shares : Nat) (r : Rounding) : Except BasketError Nat := do
  let ta ← v.totalAssets m
  let backing ← add ta 1
  let supply ← add v.totalSupply virtualShares
  mulDiv r shares backing supply

def applySlippage (v : BasketVault) (usdcValue : Nat) : Except BasketError Nat := do
  let scaled ← mul usdcValue (maxBps - v.maxSlippageBps)
  .ok (scaled / maxBps)

def slippageFloor (v : BasketVault) (m : Market) (a : AssetInfo) (amount : Nat) : Except BasketError Nat := do
  let value ← v.twapUsdcValue m a amount
  v.applySlippage value

def previewDepositFloor (v : BasketVault) (m : Market) (assets : Nat) : Except BasketError Nat := do
  let effectiveAssets ← mulDiv .floor assets (maxBps - v.maxSlippageBps) maxBps
  v.convertToShares m effectiveAssets .floor

def checkNavDeviation (v : BasketVault) (m : Market) : Except BasketError Unit :=
  if v.navDeviationGuardBps = 0 then .ok ()
  else v.assets.foldlM (fun _ a =>
    if a.active = false then .ok ()
    else do
      let probe ← v.twapTokenValue m a (10 ^ 6)
      m.requireWithinDeviation a.pool a.token v.usdcToken (v.effectiveTwapWindow a.token) probe
        v.navDeviationGuardBps) ()

def isDust (v : BasketVault) (m : Market) (a : AssetInfo) (bal : Nat) : Except BasketError Bool := do
  let floor ← v.slippageFloor m a bal
  .ok (floor = 0)

/-- `BasketViews.checkSellAnchor`: dust is priced only on the refusal path. -/
def checkSellAnchor (v : BasketVault) (m : Market) : Except BasketError Unit :=
  if v.navDeviationGuardBps = 0 then .ok ()
  else v.assets.foldlM (fun _ a =>
    if a.active = false ∨ a.venue ≠ .v4 then .ok ()
    else if v.wallet.held a.token = 0 then .ok ()
    else do
      let belowBps ← m.spotBelowSellAnchorBps a.pool a.token v.usdcToken
      if belowBps > v.navDeviationGuardBps then do
        let dust ← v.isDust m a (v.wallet.held a.token)
        revertIf (dust = false) (.spotBelowSellAnchor a.token belowBps v.navDeviationGuardBps)
      else .ok ()) ()

def checkMarket (v : BasketVault) (m : Market) (sell : Bool) : Except BasketError Unit :=
  if sell then v.checkSellAnchor m else v.checkNavDeviation m

def previewDeposit (v : BasketVault) (m : Market) (assets : Nat) : Except BasketError Nat := do
  v.checkMarket m false
  v.previewDepositFloor m assets

def previewMint (v : BasketVault) (m : Market) (shares : Nat) : Except BasketError Nat := do
  let grossAssets ← v.convertToAssets m shares .ceil
  mulDiv .ceil grossAssets maxBps (maxBps - v.maxSlippageBps)

/-- What the slippage bound leaves of the pro-rata value in `previewRedeem`. -/
def previewAfterSlippage (v : BasketVault) (m : Market) (shares : Nat) : Except BasketError Nat := do
  let gross ← v.convertToAssets m shares .floor
  mulDiv .floor gross (maxBps - v.maxSlippageBps) maxBps

def previewRedeem (v : BasketVault) (m : Market) (shares : Nat) : Except BasketError Nat := do
  let afterSlippage ← v.previewAfterSlippage m shares
  let fee ← mulDiv .floor afterSlippage v.exitFeeBps maxBps
  sub afterSlippage fee

def maxDeposit (v : BasketVault) (m : Market) : Except BasketError Nat :=
  if v.depositsPaused = true ∨ v.shutdown = true ∨ v.retired = true then .ok 0
  else if v.activeAssetCount = 0 then .ok 0
  else if v.tvlCap = maxUint ∧ v.perDepositCap = maxUint then .ok maxUint
  else do
    let current ← v.totalAssets m
    if current ≥ v.tvlCap then .ok 0
    else
      let headroom := v.tvlCap - current
      .ok (if v.perDepositCap < headroom then v.perDepositCap else headroom)

def maxMint (v : BasketVault) (m : Market) : Except BasketError Nat := do
  let assets ← v.maxDeposit m
  if assets = maxUint then .ok maxUint else v.previewDepositFloor m assets

end BasketVault

/-- A swap as `_executeSwap` requests it: `sell` is token to USDC. -/
structure SwapCall where
  asset : AssetInfo
  sell : Bool
  amountIn : Nat
  minAmountOut : Nat

/-- The venues during one transaction: what a swap leaves in the wallet and what it reports; `none` is a revert. -/
abbrev SwapVenue := Wallet → SwapCall → Option (Wallet × Nat)

namespace BasketVault

/-- `_mint` of shares. -/
def mintShares (v : BasketVault) (receiver : Address) (amount : Nat) : BasketVault :=
  { v with
    shares := update v.shares receiver (v.shares receiver + amount)
    totalSupply := v.totalSupply + amount
    supply_eq := by
      have hsum := sum_update_add v.shares receiver (v.shares receiver + amount)
      have hold := v.supply_eq
      omega }

/-- `_burn` of shares, within the balance. -/
def burnShares (v : BasketVault) (owner : Address) (amount : Nat) (h : amount ≤ v.shares owner) : BasketVault :=
  { v with
    shares := update v.shares owner (v.shares owner - amount)
    totalSupply := v.totalSupply - amount
    supply_eq := by
      have hsum := sum_update_add v.shares owner (v.shares owner - amount)
      have hold := v.supply_eq
      omega }

/-- One round of `_routeDeposit`: the first active asset takes the remainder. -/
def routeLeg (v : BasketVault) (m : Market) (venue : SwapVenue) (perAsset remainder : Nat)
    (s : Bool × Wallet) (a : AssetInfo) : Except BasketError (Bool × Wallet) :=
  if a.active = false then .ok s
  else
    let swapIn := if s.1 then perAsset + remainder else perAsset
    if swapIn = 0 then .ok (false, s.2)
    else do
      let quoted ← v.twapTokenValue m a swapIn
      let minOut ← v.applySlippage quoted
      let (wallet, _) ← orRevert (venue s.2 ⟨a, false, swapIn, minOut⟩)
      .ok (false, wallet)

def routeDeposit (v : BasketVault) (m : Market) (venue : SwapVenue) (usdcAmount : Nat) :
    Except BasketError BasketVault :=
  let n := v.activeAssetCount
  if n = 0 ∨ usdcAmount = 0 then .ok v
  else do
    let perAsset := usdcAmount / n
    let remainder := usdcAmount - perAsset * n
    let (_, wallet) ← v.assets.foldlM (v.routeLeg m venue perAsset remainder) (true, v.wallet)
    .ok { v with wallet := wallet }

def withUsdc (v : BasketVault) (r : Except TokenError Token) : Except BasketError BasketVault :=
  match r with
  | .ok t => .ok { v with wallet := { v.wallet with usdc := t } }
  | .error e => .error (.token e)

/-- `_deposit`, with the shares it mints (`_lastMintedShares`). -/
def internalDeposit (v : BasketVault) (m : Market) (venue : SwapVenue) (caller receiver : Address) (usdcAmount : Nat) :
    Except BasketError (BasketVault × Nat) := do
  revertIf (usdcAmount > v.perDepositCap) .perDepositCapExceeded
  revertIf (v.activeAssetCount = 0) .noActiveAssets
  let taBefore ← v.totalAssets m
  let projected ← add taBefore usdcAmount
  revertIf (projected > v.tvlCap) .tvlCapExceeded
  let v₁ ← v.withUsdc (v.wallet.usdc.transferFrom v.self caller v.self usdcAmount)
  let v₁ ← v₁.routeDeposit m venue usdcAmount
  let slippageFloor ← mulDiv .floor usdcAmount (maxBps - v.maxSlippageBps) maxBps
  let taAfter ← v₁.totalAssets m
  let realizedDelta ← sub taAfter taBefore
  revertIf (realizedDelta < slippageFloor) (.depositBelowSlippageFloor realizedDelta slippageFloor)
  let supply ← add v.totalSupply virtualShares
  let backing ← add taBefore 1
  let mintShares ← mulDiv .floor realizedDelta supply backing
  revertIf (receiver = 0) (.token .invalidReceiver)
  let _ ← add v.totalSupply mintShares
  .ok (v₁.mintShares receiver mintShares, mintShares)

/-- `deposit`: returns the shares really minted. -/
def deposit (v : BasketVault) (m : Market) (venue : SwapVenue) (caller receiver : Address) (assets : Nat) :
    Except BasketError (BasketVault × Nat) := do
  revertIf (v.depositsPaused = true) .depositsArePaused
  let limit ← v.maxDeposit m
  revertIf (assets > limit) .exceededMaxDeposit
  let _ ← v.previewDeposit m assets
  v.internalDeposit m venue caller receiver assets

/-- `mint`, with the shares really minted in place of the assets it returns. -/
def mint (v : BasketVault) (m : Market) (venue : SwapVenue) (caller receiver : Address) (shares : Nat) :
    Except BasketError (BasketVault × Nat) := do
  revertIf (v.depositsPaused = true) .depositsArePaused
  v.checkMarket m false
  let limit ← v.maxMint m
  revertIf (shares > limit) .exceededMaxMint
  let assets ← v.previewMint m shares
  v.internalDeposit m venue caller receiver assets

/-- `_spendAllowance`: an unlimited allowance is not spent. -/
def spendAllowance (v : BasketVault) (owner spender : Address) (value : Nat) : Except BasketError BasketVault :=
  if v.allowance owner spender = maxUint then .ok v
  else do
    revertIf (v.allowance owner spender < value) .insufficientAllowance
    .ok { v with
      allowance := update v.allowance owner
        (update (v.allowance owner) spender (v.allowance owner spender - value)) }

def spendFor (v : BasketVault) (caller owner : Address) (shares : Nat) : Except BasketError BasketVault :=
  if caller ≠ owner then v.spendAllowance owner caller shares else .ok v

def payFee (v : BasketVault) (fee : Nat) : Except BasketError BasketVault :=
  if fee > 0 then v.withUsdc (v.wallet.usdc.transfer v.self v.feeRecipient fee) else .ok v

/-- One round of `_sellProportional`: the pro-rata amount of one active asset is sold for no less than the floor of one
unit less of it, and skipped when that floor is zero. -/
def sellLeg (v : BasketVault) (m : Market) (venue : SwapVenue) (shares supplyBefore : Nat) (s : Nat × Wallet)
    (a : AssetInfo) : Except BasketError (Nat × Wallet) :=
  if a.active = false then .ok s
  else if s.2.held a.token = 0 then .ok s
  else do
    let sellAmount ← mulDiv .floor (s.2.held a.token) shares supplyBefore
    if sellAmount = 0 then .ok s
    else do
      let minUsdcOut ← v.slippageFloor m a (sellAmount - 1)
      if minUsdcOut = 0 then .ok s
      else do
        let (wallet, received) ← orRevert (venue s.2 ⟨a, true, sellAmount, minUsdcOut⟩)
        let usdcOut ← add s.1 received
        .ok (usdcOut, wallet)

def idleShare (v : BasketVault) (shares supplyBefore : Nat) : Except BasketError Nat :=
  if v.idle > 0 then mulDiv .floor v.idle shares supplyBefore else .ok 0

def sellProportional (v : BasketVault) (m : Market) (venue : SwapVenue) (shares supplyBefore : Nat) :
    Except BasketError (Nat × Wallet) := do
  let usdcOut ← v.idleShare shares supplyBefore
  v.assets.foldlM (v.sellLeg m venue shares supplyBefore) (usdcOut, v.wallet)

/-- `_withdraw`, with the USDC it pays (`_lastWithdrawnAssets`). -/
def internalWithdraw (v : BasketVault) (m : Market) (venue : SwapVenue) (caller receiver owner : Address)
    (shares : Nat) : Except BasketError (BasketVault × Nat) := do
  let v₁ ← v.spendFor caller owner shares
  revertIf (owner = 0) .invalidSender
  if h : shares ≤ v₁.shares owner then do
    let v₂ := v₁.burnShares owner shares h
    let (usdcReceived, wallet) ← v₂.sellProportional m venue shares v.totalSupply
    let fee ← mulDiv .floor usdcReceived v.exitFeeBps maxBps
    let net ← sub usdcReceived fee
    let v₃ ← { v₂ with wallet := wallet }.payFee fee
    let v₄ ← v₃.withUsdc (v₃.wallet.usdc.transfer v.self receiver net)
    .ok (v₄, net)
  else .error .insufficientShares

/-- `REDEEM_BASE_GAS` and `REDEEM_GAS_PER_ASSET`. -/
def redeemGasFloor (v : BasketVault) : Nat := 300000 + v.assets.length * 400000

/-- `redeem`: returns the USDC really paid. -/
def redeem (v : BasketVault) (m : Market) (venue : SwapVenue) (gas : Nat) (caller : Address) (shares : Nat)
    (receiver owner : Address) : Except BasketError (BasketVault × Nat) := do
  revertIf (gas < v.redeemGasFloor) (.insufficientGas gas v.redeemGasFloor)
  v.checkMarket m true
  revertIf (shares > v.shares owner) .exceededMaxRedeem
  let _ ← v.previewRedeem m shares
  v.internalWithdraw m venue caller receiver owner shares

/-- `addAsset` after the vetting of its adapter and of the pool's fee tier, history and liquidity, which only refuses
more. -/
def addAsset (v : BasketVault) (maxAssets : Nat) (pair : PoolPair) (a : AssetInfo) : Except BasketError BasketVault :=
  if a.token = 0 ∨ a.pool = 0 then .error .zeroAddress
  else if v.assets.length ≥ maxAssets then .error .maxAssetsReached
  else if hpair : (pair.token0 = a.token ∧ pair.token1 = v.usdcToken) ∨
      (pair.token1 = a.token ∧ pair.token0 = v.usdcToken) then
    match h : addEntry v.assets a with
    | .error e => .error e
    | .ok assets => .ok { v with
        assets := assets
        tokens_nodup := addEntry_nodup v.tokens_nodup h
        tokens_ne_usdc := by
          have hne : a.token ≠ v.usdcToken := by
            rcases hpair with ⟨h0, h1⟩ | ⟨h1, h0⟩
            · exact fun e => pair.distinct (h0.trans (e.trans h1.symm))
            · exact fun e => pair.distinct (h0.trans (e.symm.trans h1.symm))
          intro b hb
          rcases mem_addEntry h hb with hb | hb
          · rw [hb]
            exact hne
          · exact v.tokens_ne_usdc b hb }
  else .error .poolTokenMismatch

/-- `deactivateAsset`: an active entry of which the vault holds at most dust. -/
def removeAsset (v : BasketVault) (m : Market) (index : Nat) : Except BasketError BasketVault :=
  match v.assets[index]? with
  | none => .error .assetNotFound
  | some a =>
    if a.active = false then .error .assetNotFound
    else do
      if v.wallet.held a.token > 0 then do
        let floor ← v.slippageFloor m a (v.wallet.held a.token)
        revertIf (floor > 0) .assetStillHeld
      else .ok ()
      .ok { v with
        assets := deactivateEntry v.assets index
        tokens_nodup := by
          rw [map_token_deactivateEntry]
          exact v.tokens_nodup
        tokens_ne_usdc := by
          intro b hb
          have htoken : b.token ∈ v.assets.map (·.token) := by
            rw [← map_token_deactivateEntry v.assets index]
            exact List.mem_map.2 ⟨b, hb, rfl⟩
          obtain ⟨c, hc, hcb⟩ := List.mem_map.1 htoken
          rw [← hcb]
          exact v.tokens_ne_usdc c hc }

end BasketVault

end RobotMoney.Basket
