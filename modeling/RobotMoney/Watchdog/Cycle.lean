import RobotMoney.Effect.Program
import RobotMoney.Watchdog.Pager
import RobotMoney.Watchdog.Volume

/-!
# The polls of the watchdog (`watchdog.rs`, `pause.rs`, `config.rs`, `liveness.rs`)

A poll is a program: it reads the indexed head and its cursor, evaluates each block in between, sends the alerts and the
pause of a breach, and moves the cursor.  Each request is answered by the database, the receiver of the alerts or a
node, and may fail; one whose answer is lost has taken place and is reported as failed.  A dispatch that exceeds its
time is a request that fails or whose answer is lost.

The indexer writes to the same database between any two requests.  The other monitors of the process have records of
their own in the table of the pager.
-/

open Effect

namespace RobotMoney.Watchdog

open Evm Indexer SqlTable

inductive ActionMode where
  | pause
  | alert
  | pauseAndAlert
  deriving DecidableEq, Repr

def ActionMode.includesPause : ActionMode → Bool
  | .pause | .pauseAndAlert => true
  | .alert => false

def ActionMode.includesAlert : ActionMode → Bool
  | .alert | .pauseAndAlert => true
  | .pause => false

structure GlobalThresholds where
  perBlockMintLimitUsdc : Text
  perHourMintLimitUsdc : Text
  perBlockBurnLimitUsdc : Text
  perHourBurnLimitUsdc : Text
  deriving DecidableEq, Repr

structure VaultThresholds where
  perBlockMintLimitUsdc : Option Text
  perHourMintLimitUsdc : Option Text
  perBlockBurnLimitUsdc : Option Text
  perHourBurnLimitUsdc : Option Text
  deriving DecidableEq, Repr

structure IndexerLagBudget where
  maxLagBlocks : Int
  maxSilenceSecs : Int
  maxCursorLagBlocks : Int
  deriving DecidableEq, Repr

/-- What the cycles read of the configuration.  The address of the gateway is there when the text given for it is
one. -/
structure Config where
  chainId : Int
  thresholds : GlobalThresholds
  /-- The entries of the map, in the order of its iteration. -/
  vault : List (Text × VaultThresholds)
  nodup : (vault.map Prod.fst).Nodup
  mode : ActionMode
  webhookUrl : Option Text
  gatewayRpcUrl : Option Text
  gatewayAddress : Option Address
  pauser : Option Address
  pauseFeeBumpBps : Nat
  indexerLag : IndexerLagBudget

/-- `parse::<u128>`. -/
def parseU128 (t : Text) : Option Nat :=
  let digits := match t with
    | '+' :: rest => rest
    | _ => t
  if digits ≠ [] ∧ digits.all Char.isDigit = true then
    let n := Nat.ofDigitChars 10 digits 0
    if n < 2 ^ 128 then some n else none
  else none

def limitOf (t : Text) : Nat := (parseU128 t).getD 0

def hexDigit (c : Char) : Option Nat :=
  if '0' ≤ c ∧ c ≤ '9' then some (c.toNat - '0'.toNat)
  else if 'a' ≤ c ∧ c ≤ 'f' then some (c.toNat - 'a'.toNat + 10)
  else if 'A' ≤ c ∧ c ≤ 'F' then some (c.toNat - 'A'.toNat + 10)
  else none

/-- `hex::decode`. -/
def hexDecode : Text → Option (List UInt8)
  | [] => some []
  | [_] => none
  | hi :: lo :: rest => do
    let h ← hexDigit hi
    let l ← hexDigit lo
    let bytes ← hexDecode rest
    return UInt8.ofNat (16 * h + l) :: bytes

/-- `trim_start_matches("0x")`. -/
def trimHexMark : Text → Text
  | '0' :: 'x' :: rest => trimHexMark rest
  | t => t

def decodeVaultHex (vaultHex : Text) : Option (List UInt8) := hexDecode (trimHexMark vaultHex)

/-- One comparison of a volume with a limit: of all vaults, or of one, whose key in the configuration and bytes are
given. -/
structure Check where
  kind : ThresholdKind
  vault : Option (Text × List UInt8)
  limit : Nat
  deriving DecidableEq, Repr

def checksOf (vault : Option (Text × List UInt8)) (mintBlock mintHour burnBlock burnHour : Text) : List Check :=
  [⟨.perBlockMint, vault, limitOf mintBlock⟩, ⟨.perHourMint, vault, limitOf mintHour⟩,
    ⟨.perBlockBurn, vault, limitOf burnBlock⟩, ⟨.perHourBurn, vault, limitOf burnHour⟩]

def Config.globalChecks (cfg : Config) : List Check :=
  checksOf none cfg.thresholds.perBlockMintLimitUsdc cfg.thresholds.perHourMintLimitUsdc
    cfg.thresholds.perBlockBurnLimitUsdc cfg.thresholds.perHourBurnLimitUsdc

def Config.vaultChecks (cfg : Config) (entry : Text × VaultThresholds) : List Check :=
  match decodeVaultHex entry.1 with
  | none => []
  | some bytes =>
    checksOf (some (entry.1, bytes)) (entry.2.perBlockMintLimitUsdc.getD cfg.thresholds.perBlockMintLimitUsdc)
      (entry.2.perHourMintLimitUsdc.getD cfg.thresholds.perHourMintLimitUsdc)
      (entry.2.perBlockBurnLimitUsdc.getD cfg.thresholds.perBlockBurnLimitUsdc)
      (entry.2.perHourBurnLimitUsdc.getD cfg.thresholds.perHourBurnLimitUsdc)

def Config.checks (cfg : Config) : List Check := cfg.globalChecks ++ cfg.vault.flatMap cfg.vaultChecks

def hourWindowSecs : Int := 3600

section Check

variable {H : Type}

def Check.volume (check : Check) (db : Db H) (blockNumber : Nat) (now : Int) : Nat :=
  match check.kind, check.vault with
  | .perBlockMint, none => mintVolumePerBlock db.log.tables blockNumber
  | .perHourMint, none => mintVolumePerHour db blockNumber now hourWindowSecs
  | .perBlockBurn, none => burnVolumePerBlock db.log.tables blockNumber
  | .perHourBurn, none => burnVolumePerHour db blockNumber now hourWindowSecs
  | .perBlockMint, some (_, bytes) => mintVolumePerBlockForVault db.log.tables blockNumber bytes
  | .perHourMint, some (_, bytes) => mintVolumePerHourForVault db blockNumber now hourWindowSecs bytes
  | .perBlockBurn, some (_, bytes) => burnVolumePerBlockForVault db.log.tables blockNumber bytes
  | .perHourBurn, some (_, bytes) => burnVolumePerHourForVault db blockNumber now hourWindowSecs bytes

def Check.breach (check : Check) (chainId : Int) (blockNumber volume : Nat) : List BreachEvent :=
  if check.limit < volume then [⟨check.kind, check.limit, volume, chainId, blockNumber,
    check.vault.map Prod.fst⟩] else []

def latestBlockTimestamp (db : Db H) : Option Int := (db.blocks.map HeaderRow.timestamp).max?

def blockAnchor (db : Db H) (blockNumber : Nat) : Int :=
  (db.timestampOf blockNumber).getD ((latestBlockTimestamp db).getD 0)

def Config.breaches (cfg : Config) (db : Db H) (blockNumber : Nat) : List BreachEvent :=
  cfg.checks.flatMap fun check =>
    check.breach cfg.chainId blockNumber (check.volume db blockNumber (blockAnchor db blockNumber))

end Check

/-- `IndexerProgress`, without the text of the last error. -/
structure IndexerProgress where
  lagBlocks : Option Int
  sinceSuccessSecs : Option Int
  deriving DecidableEq, Repr

def IndexerProgress.isBehind (p : IndexerProgress) (budget : IndexerLagBudget) : Bool :=
  p.lagBlocks.any (fun l => decide (budget.maxLagBlocks < l)) ||
    p.sinceSuccessSecs.any (fun s => decide (budget.maxSilenceSecs < s))

inductive Request where
  | latestIndexedBlock
  | loadCursor
  | readIndexerProgress
  | touchCursor
  | blockTimestamp (blockNumber : Nat)
  | latestBlockTimestamp
  | volume (blockNumber : Nat) (now : Int) (check : Check)
  | unixNow
  | loadPagerState (dedupKey : Text)
  | dispatchAlert (event : BreachEvent)
  | savePagerState (dedupKey : Text) (state : PagerState)
  | clearPagerStates (start : Text)
  | ethGetTransactionCount
  | ethGasPrice
  | sendPause (nonce gasPrice : Nat)
  | depositsPaused
  | advanceCursor (blockNumber : Nat)
  | sleep
  deriving DecidableEq, Repr

abbrev Fallible (α : Type) := Except Unit α

def Fallible.isOk {α : Type} : Fallible α → Bool
  | .ok _ => true
  | .error _ => false

abbrev Answer : Request → Type
  | .latestIndexedBlock | .loadCursor => Fallible (Option Nat)
  | .readIndexerProgress => Fallible IndexerProgress
  | .blockTimestamp _ | .latestBlockTimestamp => Fallible (Option Int)
  | .volume .. | .ethGetTransactionCount | .ethGasPrice | .clearPagerStates _ => Fallible Nat
  | .unixNow => Int
  | .loadPagerState _ => Fallible (Option PagerState)
  | .depositsPaused | .advanceCursor _ => Fallible Bool
  | .touchCursor | .dispatchAlert _ | .savePagerState .. | .sendPause .. => Fallible Unit
  | .sleep => Unit

inductive Outcome where
  | ok
  /-- The request has not taken place. -/
  | failed
  /-- The request has taken place, and is reported as failed. -/
  | lost
  deriving DecidableEq, Repr

/-- What the environment chooses: the outcome, and the values that come from outside the database. -/
structure Reply where
  outcome : Outcome
  number : Nat
  flag : Bool
  time : Int
  progress : IndexerProgress
  deriving DecidableEq, Repr

/-- The tables, and what the running poll knows.  `pending` has what a tick of the indexer has yet to write, and the
cursor that it records when it is done. -/
structure State (H : Type) where
  db : Db H
  pending : Option (List (Write H) × Option Nat)
  /-- `watchdog_cursor.last_processed_block`. -/
  cursor : Option Nat
  /-- How often `watchdog_cursor.updated_at` was set. -/
  heartbeats : Nat
  pager : List PagerRow
  /-- The indexed head that the running poll has read. -/
  polled : Option Nat
  /-- The block that the running poll evaluates. -/
  current : Option Nat

structure Exchange (H : Type) where
  state : State H
  request : Request
  reply : Reply

/-- The state, with all requests so far, the newest first. -/
structure World (H : Type) where
  state : State H
  log : List (Exchange H)

variable {H : Type}

def Reply.read {α : Type} (r : Reply) (a : α) : Fallible α := if r.outcome = .ok then .ok a else .error ()

/-- A number that a node returns; one that is no `u64` is an error. -/
def Reply.readNumber (r : Reply) : Fallible Nat := if r.number < 2 ^ 64 then r.read r.number else .error ()

def Reply.write (r : Reply) (s s' : State H) : State H := if r.outcome = .failed then s else s'

/-- The head of the newest run, as `advance_cursor` reads it. -/
def newestIndexedBlock (db : Db H) : Option Nat := (db.runs.filterMap id).getLast?

/-- Whether `advance_cursor` refreshes the heartbeat. -/
def State.refreshes (s : State H) (blockNumber : Nat) (maxCursorLagBlocks : Int) : Bool :=
  s.cursor.isNone ||
    decide ((((newestIndexedBlock s.db).getD blockNumber : Nat) : Int) - blockNumber ≤ maxCursorLagBlocks)

def State.advanceCursor (s : State H) (blockNumber : Nat) (maxCursorLagBlocks : Int) : State H :=
  { s with
    cursor := some blockNumber
    heartbeats := if s.refreshes blockNumber maxCursorLagBlocks then s.heartbeats + 1 else s.heartbeats }

def State.touchCursor (s : State H) : State H :=
  { s with heartbeats := if s.cursor.isSome then s.heartbeats + 1 else s.heartbeats }

section Host

variable (cfg : Config)

def effect (s : State H) (r : Reply) : (q : Request) → State H × Answer q
  | .latestIndexedBlock =>
    ({ s with polled := if r.outcome = .ok then s.db.lastIndexedBlock else none, current := none },
      r.read s.db.lastIndexedBlock)
  | .loadCursor => (s, r.read s.cursor)
  | .readIndexerProgress => (s, r.read r.progress)
  | .touchCursor => (r.write s s.touchCursor, r.read ())
  | .blockTimestamp blockNumber => ({ s with current := some blockNumber }, r.read (s.db.timestampOf blockNumber))
  | .latestBlockTimestamp => (s, r.read (latestBlockTimestamp s.db))
  | .volume blockNumber now check => (s, r.read (check.volume s.db blockNumber now))
  | .unixNow => (s, r.time)
  | .loadPagerState dedupKey => (s, r.read (loadPagerState s.pager cfg.chainId dedupKey))
  | .dispatchAlert _ => (s, r.read ())
  | .savePagerState dedupKey state =>
    (r.write s { s with pager := savePagerState s.pager cfg.chainId dedupKey state }, r.read ())
  | .clearPagerStates start =>
    (r.write s { s with pager := clearPagerStatesWithStart s.pager cfg.chainId start },
      r.read (s.pager.length - (clearPagerStatesWithStart s.pager cfg.chainId start).length))
  | .ethGetTransactionCount => (s, r.readNumber)
  | .ethGasPrice => (s, r.readNumber)
  | .sendPause .. => (s, r.read ())
  | .depositsPaused => (s, r.read r.flag)
  | .advanceCursor blockNumber =>
    (r.write s (s.advanceCursor blockNumber cfg.indexerLag.maxCursorLagBlocks),
      r.read (s.refreshes blockNumber cfg.indexerLag.maxCursorLagBlocks))
  | .sleep => ({ s with polled := none, current := none }, ())

def World.perform (w : World H) (q : Request) (r : Reply) : World H × Answer q :=
  (⟨(effect cfg w.state r q).1, ⟨w.state, q, r⟩ :: w.log⟩, (effect cfg w.state r q).2)

inductive Interference where
  /-- The indexer starts a tick on this chain; what the tick before had yet to write is given up. -/
  | begin (chain : Chain)
  /-- The indexer does the next write of its tick, or records that the tick is done. -/
  | index
  /-- Another monitor, or the watchdog of another chain, saves a record. -/
  | save (chainId : Int) (dedupKey : Text) (state : PagerState)
  /-- The watchdog of another chain clears the records of a block. -/
  | clear (chainId : Int) (start : Text)

variable (d : Indexer.Deployment H) [DecidableEq H]

def recorded (db : Db H) (c : Chain) : Option Nat :=
  match d.target db c with
  | some target => some target
  | none => d.lastIndexed db c

def State.index (s : State H) : State H :=
  match s.pending with
  | some (write :: rest, head) => { s with db := write.exec s.db, pending := some (rest, head) }
  | some ([], head) => { s with db := { s.db with runs := s.db.runs ++ [head] }, pending := none }
  | none => s

def State.interfere (s : State H) : Interference → State H
  | .begin chain => { s with pending := some (d.writes s.db chain, recorded d s.db chain) }
  | .index => s.index
  | .save chainId dedupKey state => { s with pager := savePagerState s.pager chainId dedupKey state }
  | .clear chainId start => { s with pager := clearPagerStatesWithStart s.pager chainId start }

def watchdogHost : Host Request Answer (World H) Reply Interference where
  perform := World.perform cfg
  interfere w e := { w with state := w.state.interfere d e }
  restart w := { w with state := { w.state with polled := none, current := none } }

end Host

inductive CycleResult where
  | ok
  | breached (kinds : List ThresholdKind)
  | noData
  | breachUndelivered (kinds : List ThresholdKind)
  | indexerBehind (progress : IndexerProgress)
  deriving DecidableEq, Repr

abbrev Code := Program Request Answer

def breachRepageSecs : Nat := 2 ^ 63 - 1

def bumpGasPrice (gasPrice feeBumpBps : Nat) : Nat :=
  min (min (gasPrice * (10000 + feeBumpBps)) (2 ^ 128 - 1) / 10000) (2 ^ 64 - 1)

def readAnchor (blockNumber : Nat) : Code (Fallible Int) :=
  .ask (.blockTimestamp blockNumber) fun
  | .error e => .done (.error e)
  | .ok (some timestamp) => .done (.ok timestamp)
  | .ok none =>
    .ask .latestBlockTimestamp fun
    | .error e => .done (.error e)
    | .ok latest => .done (.ok (latest.getD 0))

section Code

variable (cfg : Config)

def readBreaches (blockNumber : Nat) (now : Int) : List Check → Code (Fallible (List BreachEvent))
  | [] => .done (.ok [])
  | check :: rest =>
    .ask (.volume blockNumber now check) fun
    | .error e => .done (.error e)
    | .ok volume =>
      readBreaches blockNumber now rest >>= fun
      | .error e => .done (.error e)
      | .ok breaches => .done (.ok (check.breach cfg.chainId blockNumber volume ++ breaches))

def commitPage (pager : AlertPager) (dedupKey : Text) (now : Int) (action : PageAction) (sent : Fallible Unit) :
    Code Unit :=
  if (pager.onPageResult now action sent.isOk).2 then
    .ask (.savePagerState dedupKey (pager.onPageResult now action sent.isOk).1.state) fun _ => .done ()
  else .done ()

/-- What is known of an alert.  A record that cannot be read is not one of a delivery. -/
def knownState : Fallible (Option PagerState) → PagerState
  | .ok state => state.getD .default
  | .error _ => .default

def sendBreach (now : Int) (event : BreachEvent) (state : PagerState) : Code Nat :=
  if state.firing then .done 0
  else if (AlertPager.fromState breachRepageSecs state).onFiring now ≠ .trigger then .done 0
  else
    .ask (.dispatchAlert event) fun sent =>
      commitPage (.fromState breachRepageSecs state) (volumeBreachDedupKey event) now .trigger sent >>= fun _ =>
        .done (if sent.isOk then 0 else 1)

def dispatchBreach (now : Int) (event : BreachEvent) : Code Nat :=
  .ask (.loadPagerState (volumeBreachDedupKey event)) fun loaded => sendBreach now event (knownState loaded)

def dispatchAlerts (now : Int) : List BreachEvent → Code Nat
  | [] => .done 0
  | event :: rest =>
    dispatchBreach now event >>= fun n =>
      dispatchAlerts now rest >>= fun undelivered => .done (n + undelivered)

def triggerPause : Code Bool :=
  .ask .ethGetTransactionCount fun
  | .error _ => .done false
  | .ok nonce =>
    .ask .ethGasPrice fun
    | .error _ => .done false
    | .ok gasPrice => .ask (.sendPause nonce (bumpGasPrice gasPrice cfg.pauseFeeBumpBps)) fun sent => .done sent.isOk

def triggerPauseOnce : Code Bool :=
  if cfg.pauser.isSome && cfg.gatewayAddress.isSome then triggerPause cfg else .done false

def pauseConfirmedOnChain : Code Bool :=
  if cfg.gatewayRpcUrl.isSome && cfg.gatewayAddress.isSome then
    .ask .depositsPaused fun
    | .ok paused => .done paused
    | .error _ => .done false
  else .done false

def submittedBefore : Fallible (Option PagerState) → Bool
  | .ok (some state) => state.firing
  | _ => false

def sendPauseOnce (blockNumber : Nat) (now : Int) (undelivered : Nat) (submitted : Bool) : Code Unit :=
  triggerPauseOnce cfg >>= fun sent =>
    if sent && decide (0 < undelivered) && !submitted then
      .ask (.savePagerState (volumeBreachPauseKey cfg.chainId blockNumber) ⟨true, some now⟩) fun _ => .done ()
    else .done ()

/-- The pause of a breach: sent, unless one was submitted before and the chain shows that it landed. -/
def pauseBreach (blockNumber : Nat) (now : Int) (undelivered : Nat) : Code Unit :=
  .ask (.loadPagerState (volumeBreachPauseKey cfg.chainId blockNumber)) fun loaded =>
    (if submittedBefore loaded then pauseConfirmedOnChain cfg else .done false) >>= fun landed =>
      if landed then .done () else sendPauseOnce cfg blockNumber now undelivered (submittedBefore loaded)

def Config.alerts : Bool := cfg.mode.includesAlert && cfg.webhookUrl.isSome

def dispatch (blockNumber : Nat) (breaches : List BreachEvent) : Code CycleResult :=
  .ask .unixNow fun now =>
    (if cfg.alerts then dispatchAlerts now breaches else .done 0) >>= fun undelivered =>
      (if cfg.mode.includesPause then pauseBreach cfg blockNumber now undelivered else .done ()) >>= fun _ =>
        .done (if 0 < undelivered then .breachUndelivered (breaches.map BreachEvent.kind)
          else .breached (breaches.map BreachEvent.kind))

def runCycle (blockNumber : Nat) : Code (Fallible CycleResult) :=
  readAnchor blockNumber >>= fun
  | .error e => .done (.error e)
  | .ok now =>
    readBreaches cfg blockNumber now cfg.checks >>= fun
    | .error e => .done (.error e)
    | .ok breaches =>
      if breaches = [] then .done (.ok .ok)
      else dispatch cfg blockNumber breaches >>= fun result => .done (.ok result)

def mergeKinds (all kinds : List ThresholdKind) : List ThresholdKind :=
  kinds.foldl (fun all k => if k ∈ all then all else all ++ [k]) all

/-- The loop of `run_cycles_since_cursor`. -/
def cyclesOver : List Nat → List ThresholdKind → Code (Fallible CycleResult)
  | [], all => .done (.ok (if all = [] then .ok else .breached all))
  | blockNumber :: rest, all =>
    runCycle cfg blockNumber >>= fun
    | .error e => .done (.error e)
    | .ok (.breachUndelivered kinds) => .done (.ok (.breachUndelivered (mergeKinds all kinds)))
    | .ok (.breached kinds) =>
      .ask (.advanceCursor blockNumber) fun
      | .error e => .done (.error e)
      | .ok _ =>
        .ask (.clearPagerStates (volumeBreachBlockStart cfg.chainId blockNumber)) fun _ =>
          cyclesOver rest (mergeKinds all kinds)
    | .ok _ =>
      .ask (.advanceCursor blockNumber) fun
      | .error e => .done (.error e)
      | .ok _ => cyclesOver rest all

def runCyclesSinceCursor (latestIndexedBlock : Nat) : Code (Fallible CycleResult) :=
  .ask .loadCursor fun
  | .error e => .done (.error e)
  | .ok cursor =>
    let fromBlock := (cursor.map (· + 1)).getD latestIndexedBlock
    if latestIndexedBlock < fromBlock then
      .ask .readIndexerProgress fun
      | .error e => .done (.error e)
      | .ok progress =>
        if progress.isBehind cfg.indexerLag then .done (.ok (.indexerBehind progress))
        else
          .ask .touchCursor fun
          | .error e => .done (.error e)
          | .ok _ => .done (.ok .noData)
    else cyclesOver cfg (List.range' fromBlock (latestIndexedBlock + 1 - fromBlock)) []

def poll : Code Unit :=
  .ask .latestIndexedBlock fun
  | .ok (some latestIndexedBlock) => runCyclesSinceCursor cfg latestIndexedBlock >>= fun _ =>
      .ask .sleep fun _ => .done ()
  | _ => .ask .sleep fun _ => .done ()

end Code

end RobotMoney.Watchdog
