import RobotMoney.Evm.Machine

/-!
# The price recorder (`UniswapV4PriceRecorder`)

A hookless pool keeps no observations of its own, so this contract records the pool's tick in a ring of observations
and answers the `observe` call of a Uniswap V3 pool.  Times are the `uint32` block timestamps, ticks are `int24` and
cumulatives `int56`, with the checked arithmetic of the language; the pool is seen only through the storage word
`data` that `extsload` returns.  `meanTick` is the reader of `TwapTickMath`.
-/

namespace RobotMoney

open Evm

/-- `MAX_STALENESS`, in seconds. -/
def maxStaleness : Nat := 1800

def maxTickStepPerSecond : Nat := 10

/-- `CLAMP_ELAPSED_CAP`, in seconds. -/
def clampElapsedCap : Nat := 60

inductive RecorderError where
  | poolNotInitialized
  | observationTooOld
  | staleRecorder (lastRecordedAt nowTs : Nat)
  | panic (p : Panic)
  | outOfGas
  deriving DecidableEq, Repr

instance recorderPanics : Panics RecorderError := ⟨.panic⟩

/-- `uint32(x)`. -/
def uint32 (x : Nat) : Nat := x % 2 ^ 32

/-- `int24(x)`: the low 24 bits, as a signed number. -/
def int24 (x : Int) : Int := x.bmod (2 ^ 24)

/-- A result of `int56` arithmetic, which must fit. -/
def int56 (x : Int) : Except RecorderError Int :=
  if -2 ^ 55 ≤ x ∧ x < 2 ^ 55 then .ok x else .error (.panic .arithmetic)

structure Observation where
  blockTimestamp : Nat
  tickCumulative : Int
  initialized : Bool
  deriving DecidableEq, Repr

def Observation.unset : Observation := ⟨0, 0, false⟩

/-- The `uint16` fields of `State`: the write position lies inside the ring, and the ring inside its next size. -/
structure RingState where
  index : Nat
  cardinality : Nat
  cardinalityNext : Nat
  index_lt : index < cardinality
  cardinality_le : cardinality ≤ cardinalityNext
  next_lt : cardinalityNext < 2 ^ 16
  deriving DecidableEq

structure Recorder where
  observations : Nat → Observation
  lastTick : Int
  ring : RingState

/-- The ring after the next write: it widens only when the write position stands at its end. -/
def RingState.widened (s : RingState) : Nat :=
  if s.cardinalityNext > s.cardinality ∧ s.index = s.cardinality - 1 then s.cardinalityNext else s.cardinality

theorem RingState.widened_bounds (s : RingState) : s.cardinality ≤ s.widened ∧ s.widened ≤ s.cardinalityNext := by
  have := s.cardinality_le
  unfold RingState.widened
  split <;> omega

def RingState.advance (s : RingState) : RingState where
  index := (s.index + 1) % s.widened
  cardinality := s.widened
  cardinalityNext := s.cardinalityNext
  index_lt := Nat.mod_lt _ (by have := s.widened_bounds; have := s.index_lt; omega)
  cardinality_le := s.widened_bounds.2
  next_lt := s.next_lt

def RingState.raise (s : RingState) (next : Nat) (h : next < 2 ^ 16) (hle : s.cardinalityNext ≤ next) : RingState :=
  { s with
    cardinalityNext := next
    cardinality_le := Nat.le_trans s.cardinality_le hle
    next_lt := h }

def Recorder.newest (r : Recorder) : Observation := r.observations r.ring.index

/-- The oldest snapshot: the slot after the newest, or slot `0` when the ring has not wrapped yet. -/
def Recorder.oldest (r : Recorder) : Observation :=
  let o := r.observations ((r.ring.index + 1) % r.ring.cardinality)
  if o.initialized then o else r.observations 0

/-- `_readSlot0`, from the pool's storage word: the square root price and the tick. -/
def readSlot0 (data : Nat) : Nat × Int := (data % 2 ^ 160, int24 ((data / 2 ^ 160 % 2 ^ 24 : Nat) : Int))

/-- `_clamp`: from `prev` towards `live`, by a step that the elapsed time bounds. -/
def clampTick (prev live : Int) (elapsed : Nat) : Int :=
  let e := if elapsed > clampElapsedCap then clampElapsedCap else elapsed
  let maxStep : Int := ((maxTickStepPerSecond * e : Nat) : Int)
  let lo := prev - maxStep
  let hi := prev + maxStep
  int24 (if live < lo then lo else if live > hi then hi else live)

/-- A cumulative extended by `tick` over `delta` seconds. -/
def extendCumulative (cumulative tick : Int) (delta : Nat) : Except RecorderError Int := do
  let weighted ← int56 (tick * (delta : Int))
  int56 (cumulative + weighted)

def Recorder.deploy (now data : Nat) : Except RecorderError Recorder := do
  let (sqrtPriceX96, tick) := readSlot0 data
  revertIf (sqrtPriceX96 = 0) .poolNotInitialized
  .ok
    { observations := Function.update (fun _ => Observation.unset) 0 ⟨uint32 now, 0, true⟩
      lastTick := tick
      ring := ⟨0, 1, 1, by decide, by decide, by decide⟩ }

/-- `record`: nothing when this timestamp is recorded already, else one more snapshot. -/
def Recorder.record (r : Recorder) (now data : Nat) : Except RecorderError (Recorder × Bool) :=
  let last := r.newest
  let ts := uint32 now
  if last.blockTimestamp = ts then .ok (r, false)
  else do
    let (sqrtPriceX96, liveTick) := readSlot0 data
    revertIf (sqrtPriceX96 = 0) .poolNotInitialized
    let delta ← sub ts last.blockTimestamp
    -- the elapsed interval is weighted with the tick recorded before it, never with the live one
    let cumulative ← extendCumulative last.tickCumulative r.lastTick delta
    let ring := r.ring.advance
    .ok
      ({ observations := Function.update r.observations ring.index ⟨ts, cumulative, true⟩
         lastTick := clampTick r.lastTick liveTick delta
         ring := ring }, true)

/-- The loop of `grow`: touch the slots from `current` on, which stay uninitialised. -/
def touchSlots (observations : Nat → Observation) (current count : Nat) : Nat → Observation :=
  (List.range' current count).foldl
    (fun obs i => Function.update obs i { obs i with blockTimestamp := 1 }) observations

def Recorder.grow (r : Recorder) (next : Fin (2 ^ 16)) : Recorder :=
  if h : next.val ≤ r.ring.cardinalityNext then r
  else
    { r with
      observations := touchSlots r.observations r.ring.cardinalityNext (next.val - r.ring.cardinalityNext)
      ring := r.ring.raise next.val next.isLt (by omega) }

def transform (last : Observation) (ts : Nat) (tick : Int) : Except RecorderError Observation := do
  let delta ← sub ts last.blockTimestamp
  let cumulative ← extendCumulative last.tickCumulative tick delta
  .ok ⟨ts, cumulative, true⟩

/-- `_binarySearch`, with a bound on its rounds: the two neighbouring snapshots around `target`. -/
def Recorder.binarySearch (r : Recorder) (target : Nat) :
    Nat → Nat → Nat → Except RecorderError (Observation × Observation)
  | 0, _, _ => .error .outOfGas
  | rounds + 1, lo, hi =>
    let i := (lo + hi) / 2
    let beforeOrAt := r.observations (i % r.ring.cardinality)
    if beforeOrAt.initialized = false then r.binarySearch target rounds (i + 1) hi
    else
      let atOrAfter := r.observations ((i + 1) % r.ring.cardinality)
      if beforeOrAt.blockTimestamp ≤ target ∧ target ≤ atOrAfter.blockTimestamp then .ok (beforeOrAt, atOrAfter)
      else if ¬ beforeOrAt.blockTimestamp ≤ target then do
        let hi ← sub i 1
        r.binarySearch target rounds lo hi
      else r.binarySearch target rounds (i + 1) hi

/-- `_surrounding`: the snapshots before and after `target`, the later one extrapolated past the newest. -/
def Recorder.surrounding (r : Recorder) (target : Nat) : Except RecorderError (Observation × Observation) :=
  if r.newest.blockTimestamp ≤ target then
    if r.newest.blockTimestamp = target then .ok (r.newest, Observation.unset)
    else do
      let atOrAfter ← transform r.newest target r.lastTick
      .ok (r.newest, atOrAfter)
  else do
    revertIf (r.oldest.blockTimestamp > target) .observationTooOld
    let lo := (r.ring.index + 1) % r.ring.cardinality
    r.binarySearch target r.ring.cardinality lo (lo + r.ring.cardinality - 1)

/-- The straight line between two snapshots, at `target`. -/
def interpolate (beforeOrAt atOrAfter : Observation) (target : Nat) : Except RecorderError Int := do
  let observationTimeDelta ← sub atOrAfter.blockTimestamp beforeOrAt.blockTimestamp
  let targetDelta ← sub target beforeOrAt.blockTimestamp
  let rise ← int56 (atOrAfter.tickCumulative - beforeOrAt.tickCumulative)
  revertIf (observationTimeDelta = 0) (.panic .divisionByZero)
  let slope ← int56 (rise.tdiv (observationTimeDelta : Int))
  extendCumulative beforeOrAt.tickCumulative slope targetDelta

def Recorder.observeSingle (r : Recorder) (time secondsAgo : Nat) : Except RecorderError Int :=
  if secondsAgo = 0 then
    if r.newest.blockTimestamp ≠ time then do
      let last ← transform r.newest time r.lastTick
      .ok last.tickCumulative
    else .ok r.newest.tickCumulative
  else do
    revertIf (secondsAgo > time) .observationTooOld
    let target := time - secondsAgo
    let (beforeOrAt, atOrAfter) ← r.surrounding target
    if target = beforeOrAt.blockTimestamp then .ok beforeOrAt.tickCumulative
    else if target = atOrAfter.blockTimestamp then .ok atOrAfter.tickCumulative
    else interpolate beforeOrAt atOrAfter target

/-- `observe`: the tick cumulatives, with the zeros of the V3 shape. -/
def Recorder.observe (r : Recorder) (now : Nat) (secondsAgos : List Nat) :
    Except RecorderError (List Int × List Nat) := do
  let time := uint32 now
  let lastTs := r.newest.blockTimestamp
  let age ← sub time lastTs
  revertIf (age > maxStaleness) (.staleRecorder lastTs time)
  let tickCumulatives ← secondsAgos.mapM (r.observeSingle time)
  .ok (tickCumulatives, secondsAgos.map fun _ => 0)

def Recorder.oldestObservation (r : Recorder) : Nat := r.oldest.blockTimestamp

/-- `TwapTickMath.meanTick`: the mean tick over the last `window` seconds, rounded towards minus infinity. -/
def Recorder.meanTick (r : Recorder) (now window : Nat) : Except RecorderError Int := do
  let (tickCumulatives, _) ← r.observe now [window, 0]
  let first ← orPanic .outOfBounds tickCumulatives[0]?
  let second ← orPanic .outOfBounds tickCumulatives[1]?
  let delta ← int56 (second - first)
  revertIf (window = 0) (.panic .divisionByZero)
  let tick := int24 (delta.tdiv (window : Int))
  if delta < 0 ∧ delta.tmod (window : Int) ≠ 0 then
    if -2 ^ 23 ≤ tick - 1 then .ok (tick - 1) else .error (.panic .arithmetic)
  else .ok tick

/-- One snapshot as it was made: when, with which tick, and how wide the ring was then. -/
structure RecordEntry where
  time : Nat
  tick : Int
  cardinality : Nat
  deriving DecidableEq, Repr

/-- The recorder, the clock below `2 ^ 32`, and the snapshots made so far, newest first. -/
structure RecorderState where
  recorder : Recorder
  now : Nat
  now_lt : now < 2 ^ 32
  history : List RecordEntry

/-- Time passes, or anyone calls; `data` is the pool's word at the moment of the call. -/
inductive RecorderCall where
  | advance (t : Fin (2 ^ 32))
  | record (data : Nat)
  | grow (next : Fin (2 ^ 16))
  deriving DecidableEq, Repr

/-- The clock after a block stamped `t`: it never runs backwards. -/
def RecorderState.wait (s : RecorderState) (t : Fin (2 ^ 32)) : RecorderState :=
  { s with
    now := max s.now t.val
    now_lt := by have := s.now_lt; have := t.isLt; omega }

def recorderStep (s : RecorderState) : RecorderCall → Except RecorderError RecorderState
  | .advance t => .ok (s.wait t)
  | .record data => do
    let (r, recorded) ← s.recorder.record s.now data
    if recorded then
      .ok { s with recorder := r, history := ⟨s.now, r.lastTick, r.ring.cardinality⟩ :: s.history }
    else .ok { s with recorder := r }
  | .grow next => .ok { s with recorder := s.recorder.grow next }

/-- A recorder just deployed at time `now` on an initialised pool with the storage word `data`. -/
def RecorderState.deployed (now : Fin (2 ^ 32)) (data : Nat) : Except RecorderError RecorderState := do
  let r ← Recorder.deploy now.val data
  .ok ⟨r, now.val, now.isLt, [⟨now.val, r.lastTick, 1⟩]⟩

end RobotMoney
