import RobotMoney.Evm.Token

/-!
# Prices of a basket (`TickMath`, `TwapTickMath`, `BasketViews`)

What a basket vault reads of the world to price its assets: the tick accumulators and the live tick of each pool, the
age of a recorder's history, and the quotes of swap adapters.  `Market` is one such reading; prices are constant
within a transaction, so one reading serves a whole call.  Ticks turn into prices as in the vendored `TickMath`, and
the two market checks, the deviation guard on entry and the sell anchor on exit, compare prices at ticks.
-/

namespace RobotMoney.Basket

open Evm

inductive Venue where
  | v3
  | v4
  | aerodrome
  deriving DecidableEq, Repr

structure AssetInfo where
  token : Address
  pool : Address
  swapFee : Nat
  active : Bool
  adapter : Address
  venue : Venue
  deriving DecidableEq, Repr

inductive BasketError where
  | zeroAddress
  | invalidParam
  | invalidFee
  | insufficientGas (available required : Nat)
  | depositsArePaused
  | perDepositCapExceeded
  | noActiveAssets
  | tvlCapExceeded
  | depositBelowSlippageFloor (realizedDelta floor : Nat)
  | exceededMaxDeposit
  | exceededMaxMint
  | exceededMaxRedeem
  | insufficientShares
  | invalidSender
  | insufficientAllowance
  | maxAssetsReached
  | assetAlreadyActive
  | assetNotFound
  | assetStillHeld
  | poolTokenMismatch
  | slippageBelowPoolFeeFloor (newBps floorBps : Nat)
  | tickOutOfBounds
  | navMarketDeviationExceeded (token : Address) (deviationBps thresholdBps : Nat)
  | spotBelowSellAnchor (token : Address) (belowBps thresholdBps : Nat)
  | token (e : TokenError)
  | externalRevert
  | panic (p : Panic)
  deriving DecidableEq, Repr

instance basketPanics : Panics BasketError := ⟨.panic⟩

def orRevert {α : Type} : Option α → Except BasketError α
  | some a => .ok a
  | none => .error .externalRevert

@[simp] theorem orRevert_eq_ok {α : Type} {o : Option α} {a : α} : orRevert o = .ok a ↔ o = some a := by
  cases o <;> simp [orRevert]

def maxBps : Nat := 10000

def maxTick : Nat := 887272

/-- The factors of `getSqrtRatioAtTick` after the first, by bit of the tick. -/
def ratioFactors : List (Nat × Nat) :=
  [(0x2, 0xfff97272373d413259a46990580e213a),
    (0x4, 0xfff2e50f5f656932ef12357cf3c7fdcc),
    (0x8, 0xffe5caca7e10e4e61c3624eaa0941cd0),
    (0x10, 0xffcb9843d60f6159c9db58835c926644),
    (0x20, 0xff973b41fa98c081472e6896dfb254c0),
    (0x40, 0xff2ea16466c96a3843ec78b326b52861),
    (0x80, 0xfe5dee046a99a2a811c461f1969c3053),
    (0x100, 0xfcbe86c7900a88aedcffc83b479aa3a4),
    (0x200, 0xf987a7253ac413176f2b074cf7815e54),
    (0x400, 0xf3392b0822b70005940c7a398e4b70f3),
    (0x800, 0xe7159475a2c29b7443b29c7fa6e889d9),
    (0x1000, 0xd097f3bdfd2022b8845ad8f792aa5825),
    (0x2000, 0xa9f746462d870fdf8a65dc1f90e061e5),
    (0x4000, 0x70d869a156d2a1b890bb3df62baf32f7),
    (0x8000, 0x31be135f97d08fd981231505542fcfa6),
    (0x10000, 0x9aa508b5b7a84e1c677de54f3e99bc9),
    (0x20000, 0x5d6af8dedb81196699c329225ee604),
    (0x40000, 0x2216e584f5fa1ea926041bedfe98),
    (0x80000, 0x48a170391f7dc42444e8fa2)]

def getSqrtRatioAtTick (tick : Int) : Except BasketError Nat := do
  let absTick := tick.natAbs
  revertIf (absTick > maxTick) .tickOutOfBounds
  let first := if absTick &&& 0x1 ≠ 0 then 0xfffcb933bd6fad37aa2d162d1a594001 else 0x100000000000000000000000000000000
  let ratio := ratioFactors.foldl (fun r f => if absTick &&& f.1 ≠ 0 then (r * f.2) >>> 128 else r) first
  let ratio := if tick > 0 then (wordSize - 1) / ratio else ratio
  .ok ((ratio >>> 32) + if ratio % 2 ^ 32 = 0 then 0 else 1)

def priceFromTick (tick : Int) (baseToken quoteToken : Address) (baseAmount : Nat) : Except BasketError Nat := do
  let sqrtP ← getSqrtRatioAtTick tick
  if sqrtP < 2 ^ 128 then
    let ratioX192 ← mul sqrtP sqrtP
    if baseToken < quoteToken then mulDiv .floor baseAmount ratioX192 (2 ^ 192)
    else mulDiv .floor baseAmount (2 ^ 192) ratioX192
  else
    let ratioX128 ← mulDiv .floor sqrtP sqrtP (2 ^ 64)
    if baseToken < quoteToken then mulDiv .floor baseAmount ratioX128 (2 ^ 128)
    else mulDiv .floor baseAmount (2 ^ 128) ratioX128

/-- What the vault can read during one transaction; `none` is a revert of the pool or the adapter. -/
structure Market where
  now : Nat
  /-- `observe([window, 0])` of a pool: the two tick cumulatives. -/
  observe : (pool : Address) → (window : Nat) → Option (Int × Int)
  /-- The live tick in `slot0`. -/
  slot0Tick : (pool : Address) → Option Int
  oldestObservation : (pool : Address) → Option Nat
  /-- `twapPrice` of a swap adapter. -/
  twapPrice : (adapter pool base quote : Address) → (amount window : Nat) → Option Nat

namespace Market

/-- `TwapTickMath.meanTick`: the mean over the window, rounded toward negative infinity. -/
def meanTick (m : Market) (pool : Address) (window : Nat) : Except BasketError Int := do
  let (before, after) ← orRevert (m.observe pool window)
  let delta := after - before
  revertIf (delta < -2 ^ 55 ∨ 2 ^ 55 ≤ delta) (.panic .arithmetic)
  revertIf (window = 0) (.panic .divisionByZero)
  let tick := (Int.tdiv delta window).bmod (2 ^ 24)
  .ok (if delta < 0 ∧ Int.tmod delta window ≠ 0 then tick - 1 else tick)

def deviationBps (m : Market) (pool token quote : Address) (window probeAmount : Nat) : Except BasketError Nat :=
  if probeAmount = 0 then .ok 0
  else do
    let mean ← m.meanTick pool window
    let twapVal ← priceFromTick mean token quote probeAmount
    if twapVal = 0 then .ok 0
    else do
      let spotTick ← orRevert (m.slot0Tick pool)
      let spotVal ← priceFromTick spotTick token quote probeAmount
      let diff := if twapVal > spotVal then twapVal - spotVal else spotVal - twapVal
      mulDiv .floor diff maxBps twapVal

def requireWithinDeviation (m : Market) (pool token quote : Address) (window probeAmount thresholdBps : Nat) :
    Except BasketError Unit :=
  if thresholdBps = 0 ∨ probeAmount = 0 then .ok ()
  else do
    let dev ← m.deviationBps pool token quote window probeAmount
    revertIf (dev > thresholdBps) (.navMarketDeviationExceeded token dev thresholdBps)

/-- `SELL_ANCHOR_WINDOW`. -/
def sellAnchorWindowSeconds : Nat := 14400

def sellAnchorProbeUsdc : Nat := 10 ^ 12

/-- `BasketViews.sellAnchorWindow`, on 32-bit block times. -/
def sellAnchorWindow (m : Market) (pool : Address) : Except BasketError Nat := do
  let oldest ← orRevert (m.oldestObservation pool)
  let age ← sub (m.now % 2 ^ 32) oldest
  .ok (if age < sellAnchorWindowSeconds then age else sellAnchorWindowSeconds)

def spotBelowSellAnchorBps (m : Market) (pool token usdc : Address) : Except BasketError Nat := do
  let window ← m.sellAnchorWindow pool
  if window = 0 then .ok 0
  else do
    let mean ← m.meanTick pool window
    let anchorTokens ← priceFromTick mean usdc token sellAnchorProbeUsdc
    let spotTick ← orRevert (m.slot0Tick pool)
    let spotTokens ← priceFromTick spotTick usdc token sellAnchorProbeUsdc
    if spotTokens ≤ anchorTokens then .ok 0
    else mulDiv .floor (spotTokens - anchorTokens) maxBps spotTokens

/-- `_twapQuote`: the built-in Uniswap V3 path. -/
def twapQuote (m : Market) (pool tokenIn tokenOut : Address) (amountIn window : Nat) : Except BasketError Nat :=
  if amountIn = 0 then .ok 0
  else do
    let mean ← m.meanTick pool window
    priceFromTick mean tokenIn tokenOut amountIn

/-- `_twapUsdcValue` and `_twapTokenValue`, one for each direction: the adapter's quote when the asset has an adapter,
the built-in path otherwise. -/
def quote (m : Market) (a : AssetInfo) (tokenIn tokenOut : Address) (amountIn window : Nat) : Except BasketError Nat :=
  if a.adapter ≠ 0 then orRevert (m.twapPrice a.adapter a.pool tokenIn tokenOut amountIn window)
  else m.twapQuote a.pool tokenIn tokenOut amountIn window

end Market

end RobotMoney.Basket
