import RobotMoney.Effect.Parallel
import RobotMoney.Publish.Manifest

/-!
# Govern runs and pause-all

A govern run takes rows of calls through the timelock: it schedules an operation, waits for the delay, executes it and
reads the effect back, with a record of each phase in the run manifest.  A pause-all writes an entry in the manifest and
pauses the vaults.  Both are programs here: they ask the manifest, the timelock and the signers, and are answered.

Before an unpause is executed, the pauses in the manifest are compared with the number that was reserved for its
schedule (`refuseIfPausedSince`).
-/

open Effect

namespace RobotMoney.Publish

open Evm

abbrev OperationId := Nat

/-- The rows, with the values that a run names.  `other` stands for the further rows that are run on demand. -/
inductive GovernRow where
  | unpause (vault : String)
  | redeployVault (key : String) (ordinal : Nat)
  | registerSubmitter (submitter : Address)
  | retireVault (vault : Address) (weights : List Nat)
  | freezeUpgrades
  | upgradeProxy (proxy : String) (implementation : Address) (migration : Option String)
  | other (name : String) (reschedules : Bool)
  deriving DecidableEq, Repr

def GovernRow.name : GovernRow → RowName
  | .unpause vault => .unpause vault
  | .redeployVault key ordinal => .redeployVault key ordinal
  | .registerSubmitter submitter => .registerSubmitter submitter
  | .retireVault vault _ => .retireVault vault
  | .freezeUpgrades => .freezeUpgrades
  | .upgradeProxy proxy implementation migration => .upgradeProxy proxy implementation migration
  | .other name _ => .other name

def GovernRow.key (row : GovernRow) : RecordKey := .row row.name

/-- The operation of a row ends with an unpause: an `unpause-` row, or a redeploy, whose last call opens the new
vault. -/
def GovernRow.reopens : GovernRow → Bool
  | .unpause _ => true
  | .redeployVault _ _ => true
  | _ => false

/-- What the calls and the salt of an operation are made of. -/
structure OperationKey where
  row : GovernRow
  round : Option Nat
  plan : Option RowPlan
  deriving DecidableEq, Repr

structure GovernConfig where
  /-- `operationId`, the hash that the timelock computes. -/
  operationId : OperationKey → OperationId
  /-- The unpause rows of the stage, by vault. -/
  unpauseRows : List String
  unpauseRows_nodup : unpauseRows.Nodup
  /-- The vaults of `GOVERN_UNPAUSE_VAULTS`. -/
  unpauseVaults : List String
  /-- For each `--owner-signer`, whether it is an owner of the Safe. -/
  ownerSigners : List Bool
  threshold : Nat

inductive GovernError where
  | usage
  | govern
  | pending
  | tool
  deriving DecidableEq, Repr

structure OperationState where
  isOperation : Bool
  pending : Bool
  ready : Bool
  done : Bool
  readyAt : Nat
  deriving DecidableEq, Repr

inductive GovernRequest where
  | loadRunManifest
  | saveRunManifest (m : RunManifest)
  | reserveManifestSeq (m : RunManifest)
  | operationState (id : OperationId)
  | depositsPaused (vault : String)
  /-- What a row reads and refuses before anything of it is on the timelock. -/
  | preflight (row : GovernRow)
  /-- The plan of a row, from the records on disk and the chain. -/
  | plan (row : GovernRow)
  /-- The pauses on disk, in `livePauses`. -/
  | loadPauses
  /-- What a row reads again right before its operation is executed. -/
  | beforeExecute (row : GovernRow)
  | scheduleOnTimelock (id : OperationId)
  | executeOnTimelock (id : OperationId)
  | signTx
  | sendSchedule (row : GovernRow) (id : OperationId)
  | sendExecute (row : GovernRow) (id : OperationId)
  | verifyTimelockEffect (id : OperationId)
  | readBack (row : GovernRow) (plan : Option RowPlan)
  /-- Waiting for the latest ready time: a sleep or a warp, or the run ends as pending. -/
  | wait (ready : Nat)
  /-- The reads of the evidence entry of a row. -/
  | evidence (row : GovernRow)
  | beginPauseEntry (e : PauseFields)
  | updatePauseEntry (entry : PauseEntry)
  /-- `pauseDeposits()` on a vault, and its read-back. -/
  | pauseVault (vault : String)
  deriving DecidableEq, Repr

/-- The result of a pause-all on one vault. -/
structure PauseVaultResult where
  text : String
  covered : Bool
  deriving DecidableEq, Repr

def Content : GovernRequest → Type
  | .loadRunManifest => Option RunManifest
  | .saveRunManifest _ => RunManifest
  | .reserveManifestSeq _ => Nat × RunManifest
  | .operationState _ => OperationState
  | .depositsPaused _ => Bool
  | .plan _ => RowPlan
  | .loadPauses => List PauseEntry
  | .readBack _ _ => List String
  | .beginPauseEntry _ => Option PauseEntry
  | .pauseVault _ => PauseVaultResult
  | _ => Unit

abbrev Answer (q : GovernRequest) : Type := Except GovernError (Content q)

abbrev Govern (α : Type) := ExceptT GovernError (Program GovernRequest Answer) α

def ask (q : GovernRequest) : Govern (Content q) := ExceptT.mk (Program.request q)

def operationState (id : OperationId) : Govern OperationState := ask (.operationState id)

def saveRunManifest (m : RunManifest) : Govern RunManifest := ask (.saveRunManifest m)

def reserveManifestSeq (m : RunManifest) : Govern (Nat × RunManifest) := ask (.reserveManifestSeq m)

def depositsPaused (vault : String) : Govern Bool := ask (.depositsPaused vault)

def loadPauses : Govern (Option (List PauseEntry)) :=
  ExceptT.mk (Program.ask GovernRequest.loadPauses fun x => .done (.ok x.toOption))

def readBack (row : GovernRow) (plan : Option RowPlan) : Govern (List String) := ask (.readBack row plan)

def require (q : GovernRequest) : Govern Unit := do
  let _ ← ask q
  pure ()

def rowComplete : Option RowRecord → Bool
  | none => false
  | some r => r.skipped || r.executed.isSome || r.cancelled.isSome

section Phases

variable (cfg : GovernConfig)

/-- The signing loop of `signAndExecute`: the number of signatures. -/
def signLoop (signed : Nat) : List Bool → Govern Nat
  | [] => pure signed
  | isOwner :: rest =>
    if cfg.threshold ≤ signed then pure signed
    else if isOwner then do
      require .signTx
      signLoop (signed + 1) rest
    else signLoop signed rest

/-- `signAndExecute`, up to the send. -/
def signAll : Govern Unit := do
  let signed ← signLoop cfg 0 cfg.ownerSigners
  if signed < cfg.threshold then throw .govern else pure ()

/-- `rec.scheduled = sched; state[name] = rec; save()`. -/
def saveScheduled (row : GovernRow) (r : RowRecord) (seq : Nat) (id : OperationId) (m : RunManifest) :
    Govern RunManifest :=
  saveRunManifest (m.setRecord row.key { r with scheduled := some ⟨some seq, some id⟩ })

/-- `schedulePhase`.  The number is reserved before the send; an operation that is found on the timelock gets the number
0, so that every pause counts as newer. -/
def schedulePhase (row : GovernRow) (id : OperationId) (m : RunManifest) : Govern RunManifest :=
  let r := (m.record row.key).getD { round := some 1 }
  if r.scheduled.isSome then pure m
  else do
    let st ← operationState id
    if st.isOperation then saveScheduled row r 0 id m
    else do
      let reserved ← reserveManifestSeq m
      require (.scheduleOnTimelock id)
      signAll cfg
      require (.sendSchedule row id)
      require (.operationState id)
      saveScheduled row r reserved.1 id reserved.2

/-- `livePauses`: the pauses on disk and in memory. -/
def livePauses (m : RunManifest) (disk : Option (List PauseEntry)) : List PauseEntry :=
  sortBySeq (bySeq (m.pauses.getD []) (disk.getD []))

def refuseIfPausedSince (row : GovernRow) (id : OperationId) (m : RunManifest) : Govern RunManifest :=
  if row.reopens = false then pure m
  else
    match m.record row.key with
    | none => pure m
    | some r =>
      match r.scheduled with
      | none => pure m
      | some sched =>
        if r.executed.isSome then pure m
        else do
          let disk ← loadPauses
          let live := livePauses m disk
          let m := { m with pauses := some live }
          if live.all (fun e => e.seq ≤ sched.seq.getD 0) then pure m
          else do
            let st ← operationState id
            if st.done || !st.isOperation then pure m else throw .govern

def GovernRow.rereads : GovernRow → Bool
  | .retireVault _ _ => true
  | .upgradeProxy _ _ _ => true
  | .redeployVault _ _ => true
  | _ => false

/-- `rec.executed = ex; save()`, once the effect reads back. -/
def saveExecuted (row : GovernRow) (r : RowRecord) (id : OperationId) (m : RunManifest) : Govern RunManifest := do
  let bad ← readBack row r.plan
  if bad ≠ [] then throw .govern
  else saveRunManifest (m.setRecord row.key { r with executed := some ⟨none, some id⟩ })

def executePhase (row : GovernRow) (id : OperationId) (m : RunManifest) : Govern RunManifest :=
  let r := (m.record row.key).getD {}
  if r.executed.isSome then pure m
  else do
    let m ← refuseIfPausedSince row id m
    let st ← operationState id
    if st.done then saveExecuted row r id m
    else do
      if row.rereads then require (.beforeExecute row) else pure ()
      require (.executeOnTimelock id)
      signAll cfg
      require (.sendExecute row id)
      require (.verifyTimelockEffect id)
      saveExecuted row r id m

/-- The states of the operations: the latest time at which one that is not ready becomes so. -/
def pollReady (latest : Nat) : List OperationId → Govern Nat
  | [] => pure latest
  | id :: rest => do
    let st ← operationState id
    if st.ready || st.done then pollReady latest rest
    else if st.pending then pollReady (max latest st.readyAt) rest
    else throw .govern

/-- `waitReady`, for a process that polls at most `polls` times. -/
def waitReady (ids : List OperationId) : Nat → Govern Unit
  | 0 => throw .pending
  | polls + 1 => do
    let latest ← pollReady 0 ids
    if latest = 0 then pure ()
    else do
      require (.wait latest)
      waitReady ids polls

def round (row : GovernRow) (id : OperationId) (polls : Nat) (m : RunManifest) : Govern RunManifest := do
  let m ← schedulePhase cfg row id m
  if ((m.record row.key).getD {}).executed.isSome then executePhase cfg row id m
  else do
    waitReady [id] polls
    executePhase cfg row id m

end Phases

/-- The least number from `k` on that gives a free key. -/
def firstFree (m : RunManifest) (key : Nat → RecordKey) : Nat → Nat → Nat
  | 0, k => k
  | fuel + 1, k => if (m.record (key k)).isSome then firstFree m key fuel (k + 1) else k

def GovernRow.archiveKey (row : GovernRow) (n k : Nat) : RecordKey :=
  match row with
  | .redeployVault _ _ => .cancelled row.name k
  | _ => .cancelledRound row.name n k

def GovernRow.keptPlan (row : GovernRow) (r : RowRecord) : Option RowPlan :=
  match row with
  | .redeployVault _ _ => r.plan
  | _ => none

/-- The record of a row whose operation was cancelled is put aside, and the row starts again in the same round. -/
def reopened (row : GovernRow) (r : RowRecord) (m : RunManifest) : RunManifest :=
  let n := r.round.getD 1
  let k := firstFree m (row.archiveKey n) (m.govern.length + 1) 1
  (m.setRecord (row.archiveKey n k) r).setRecord row.key { round := some n, plan := row.keptPlan r }

def recordedOperation (m : RunManifest) (row : GovernRow) : Option OperationId :=
  ((m.record row.key).bind (·.scheduled)).bind (·.operationId)

/-- A row whose operation is gone from the timelock, and not done, was cancelled through the Safe. -/
def rescheduleIfCancelled (row : GovernRow) (m : RunManifest) : Govern RunManifest :=
  match m.record row.key, recordedOperation m row with
  | some r, some id =>
    if rowComplete (some r) then pure m
    else do
      let st ← operationState id
      if st.isOperation || st.done then pure m else saveRunManifest (reopened row r m)
  | _, _ => pure m

section Rows

variable (cfg : GovernConfig)

def roundOf (m : RunManifest) (row : GovernRow) : Nat := ((m.record row.key).bind (·.round)).getD 1

/-- Nothing of the round is on the timelock yet: the row checks what it starts from. -/
def checkFresh (row : GovernRow) (id : OperationId) (m : RunManifest) : Govern Unit :=
  if ((m.record row.key).bind (·.scheduled)).isSome then pure ()
  else do
    let st ← operationState id
    if st.isOperation then pure () else require (.preflight row)

def namesOther (m : RunManifest) (row : GovernRow) (id : OperationId) : Bool :=
  match recordedOperation m row with
  | some prior => prior ≠ id
  | none => false

/-- A row of one call without rounds: `register-submitter`. -/
def singleRow (row : GovernRow) (polls : Nat) (m : RunManifest) : Govern RunManifest :=
  let id := cfg.operationId ⟨row, none, none⟩
  if namesOther m row id then throw .usage
  else if rowComplete (m.record row.key) then pure m
  else do
    checkFresh row id m
    let m ← saveRunManifest (m.setRecord row.key ((m.record row.key).getD { round := some 1 }))
    round cfg row id polls m

/-- A row whose cancelled operation is scheduled again: `retire-vault`. -/
def roundsRow (row : GovernRow) (polls : Nat) (m : RunManifest) : Govern RunManifest := do
  let m ← rescheduleIfCancelled row m
  if rowComplete (m.record row.key) then pure m
  else
    let id := cfg.operationId ⟨row, some (roundOf m row), none⟩
    if namesOther m row id then throw .usage
    else do
      checkFresh row id m
      round cfg row id polls (m.setRecord row.key ((m.record row.key).getD { round := some 1 }))

/-- The plan in the record, or a new one that is saved before anything is scheduled. -/
def planOf (row : GovernRow) (m : RunManifest) : Govern (RowPlan × RunManifest) :=
  match (m.record row.key).bind (·.plan) with
  | some plan => pure (plan, m)
  | none => do
    let plan : RowPlan ← ask (.plan row)
    let m ← saveRunManifest (m.setRecord row.key { (m.record row.key).getD { round := some 1 } with plan := some plan })
    pure (plan, m)

/-- A row with a plan: `freeze-upgrades` and `upgrade-proxy`. -/
def plannedRow (row : GovernRow) (polls : Nat) (m : RunManifest) : Govern RunManifest :=
  if rowComplete (m.record row.key) then pure m
  else do
    let planned ← planOf row m
    round cfg row (cfg.operationId ⟨row, none, some planned.1⟩) polls planned.2

def conflicts (m : RunManifest) (row : GovernRow) : Bool :=
  m.govern.any fun r =>
    match r.1 with
    | .cancelled _ _ => false
    | .cancelledRound _ _ _ => false
    | key => key ≠ row.key && r.2.scheduled.isSome && r.2.executed.isNone && r.2.cancelled.isNone

def redeployRow (row : GovernRow) (polls : Nat) (m : RunManifest) : Govern RunManifest := do
  require (.preflight row)
  let m ← rescheduleIfCancelled row m
  if conflicts m row then throw .govern
  else if rowComplete (m.record row.key) then pure m
  else do
    let planned ← planOf row m
    let id := cfg.operationId ⟨row, none, some planned.1⟩
    if namesOther planned.2 row id then throw .usage else round cfg row id polls planned.2

/-- The part of `runSet` that opens a round of one row and schedules it. -/
def scheduleUnpause (vault : String) (m : RunManifest) : Govern (RunManifest × Option OperationId) :=
  let row := GovernRow.unpause vault
  if cfg.unpauseVaults.contains vault = false then do
    let m ← saveRunManifest (m.setRecord row.key { skipped := true })
    pure (m, none)
  else do
    require (.preflight row)
    let id := cfg.operationId ⟨row, some (roundOf m row), none⟩
    if ((m.record row.key).bind (·.scheduled)).isNone then do
      let st ← operationState id
      if st.isOperation then pure ()
      else do
        let paused ← depositsPaused vault
        if paused then pure () else throw .govern
    else pure ()
    let m ← schedulePhase cfg row id m
    pure (m, some id)

def nextRound (row : GovernRow) (r : RowRecord) (m : RunManifest) : RunManifest :=
  let n := r.round.getD 1
  (m.setRecord (.round row.name n) r).setRecord row.key { round := some (n + 1) }

/-- One row of `runSet`; `selected` is the row that the operator named. -/
def openUnpause (selected : Option String) (vault : String) (m : RunManifest) :
    Govern (RunManifest × Option OperationId) := do
  let row := GovernRow.unpause vault
  let m ← if selected = some vault then rescheduleIfCancelled row m else pure m
  if rowComplete (m.record row.key) then
    let r := (m.record row.key).getD {}
    if r.executed.isSome then do
      let paused ← depositsPaused vault
      if paused then
        if selected = some vault then do
          let m ← saveRunManifest (nextRound row r m)
          scheduleUnpause cfg vault m
        else throw .govern
      else pure (m, none)
    else pure (m, none)
  else scheduleUnpause cfg vault m

/-- The loop of `runSet` over its rows: those that are live. -/
def openAll (selected : Option String) : List String → RunManifest → List (GovernRow × OperationId) →
    Govern (RunManifest × List (GovernRow × OperationId))
  | [], m, live => pure (m, live)
  | vault :: rest, m, live => do
    let opened ← openUnpause cfg selected vault m
    openAll selected rest opened.1 (live ++ (opened.2.map fun id => (GovernRow.unpause vault, id)).toList)

def refuseAll : List (GovernRow × OperationId) → RunManifest → Govern RunManifest
  | [], m => pure m
  | (row, id) :: rest, m => do
    let m ← refuseIfPausedSince row id m
    refuseAll rest m

def executeAll : List (GovernRow × OperationId) → RunManifest → Govern RunManifest
  | [], m => pure m
  | (row, id) :: rest, m => do
    let m ← executePhase cfg row id m
    executeAll rest m

def runSet (selected : Option String) (vaults : List String) (polls : Nat) (m : RunManifest) : Govern RunManifest := do
  let opened ← openAll cfg selected vaults m []
  let m ← refuseAll opened.2 opened.1
  waitReady (opened.2.map (·.2)) polls
  executeAll cfg opened.2 m

inductive GovernRun where
  /-- The govern stage: every unpause row. -/
  | stage (polls : Nat)
  /-- A row that the operator named. -/
  | row (r : GovernRow) (polls : Nat)
  | pauseAll (e : PauseFields) (vaults : List String)

def runRow (row : GovernRow) (polls : Nat) (m : RunManifest) : Govern RunManifest :=
  match row with
  | .unpause vault => runSet cfg (some vault) [vault] polls m
  | .redeployVault _ _ => redeployRow cfg row polls m
  | .registerSubmitter _ => singleRow cfg row polls m
  | .retireVault _ _ => roundsRow cfg row polls m
  | .freezeUpgrades => plannedRow cfg row polls m
  | .upgradeProxy _ _ _ => plannedRow cfg row polls m
  | .other _ reschedules => if reschedules then roundsRow cfg row polls m else singleRow cfg row polls m

def withManifest (body : RunManifest → Govern RunManifest) : Govern Unit := do
  let loaded : Option RunManifest ← ask .loadRunManifest
  match loaded with
  | none => throw .govern
  | some m => do
    let m ← body m
    require (.saveRunManifest m)

/-- `record` of pause-all: a manifest that cannot be written does not stop the pause. -/
def recordEntry (entry : Option PauseEntry) (results : List PauseVaultResult) (done : Bool) :
    Program GovernRequest Answer Unit :=
  match entry with
  | none => .done ()
  | some e =>
    let written : PauseEntry := { e with
      vaults := results.map (·.text)
      status := if done then .done else e.status
      allPaused := if done then some (results.all (·.covered)) else e.allPaused }
    .ask (.updatePauseEntry written) fun _ => .done ()

def pauseVaults (entry : Option PauseEntry) : List String → List PauseVaultResult →
    Program GovernRequest Answer (List PauseVaultResult)
  | [], results => .done results
  | vault :: rest, results =>
    .ask (.pauseVault vault) fun x =>
      let result : Option PauseVaultResult := x.toOption
      let results := results ++ [result.getD ⟨"", false⟩]
      recordEntry entry results false >>= fun _ => pauseVaults entry rest results

/-- `pauseAll`: the entry is written before the first vault is paused. -/
def pauseAll (e : PauseFields) (vaults : List String) : Program GovernRequest Answer Unit :=
  .ask (.beginPauseEntry e) fun x =>
    let began : Option (Option PauseEntry) := x.toOption
    let entry := began.bind id
    pauseVaults entry vaults [] >>= fun results => recordEntry entry results true

def GovernRun.program : GovernRun → Program GovernRequest Answer Unit
  | .stage polls => (withManifest (runSet cfg none cfg.unpauseRows polls)).run >>= fun _ => .done ()
  | .row r polls =>
    (withManifest fun m => do
      let m ← runRow cfg r polls m
      require (.evidence r)
      pure m).run >>= fun _ => .done ()
  | .pauseAll e vaults => Publish.pauseAll e vaults

end Rows

end RobotMoney.Publish
