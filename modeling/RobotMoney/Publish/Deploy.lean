import RobotMoney.Effect.Program
import RobotMoney.Publish.Manifest

/-!
# The deployer stages

`publish contracts` deploys in stages: it creates the Safe, runs a forge script for each further stage, and has the Safe
prove its control once before the handover.  Each stage must start at the nonce that the frozen counts give, keeps a
record in the run manifest, and is skipped by `--resume` once it is recorded done.

The stages are programs here: they ask the chain, forge, the files and the operator, and are answered.
-/

open Effect List

namespace RobotMoney.Publish.Deploy

inductive StageKind where
  | safe
  | libs
  | forge
  deriving DecidableEq, Repr

/-- A row of `DEPLOYER_STAGES`, with its frozen count. -/
structure StageRow where
  kind : StageKind
  count : Nat
  deriving DecidableEq, Repr

structure DeployConfig where
  /-- `DEPLOYER_STAGES`, in the order of the table. -/
  rows : List StageRow
  /-- How many of them stand before prove-control; the gateway system has none. -/
  proofAt : Option Nat
  /-- A production run of the vaults system: the deployer is a fresh account. -/
  fromZero : Bool
  rows_ne : rows ≠ []
  /-- The Safe is the first row; control is proven after it and before the handover. -/
  safe_first : ∀ i row, rows[i]? = some row → row.kind = .safe → i = 0
  proofAt_bounds : ∀ k, proofAt = some k → 0 < k ∧ k < rows.length

/-- `StageRecord`, with the fields that the stages read.  `deployerTxs` is that of the adoption of an adopted stage, and
`safe` says whether the predicted address of the Safe is recorded. -/
structure StageRecord where
  status : StageStatus
  startNonce : Nat
  endNonce : Option Nat := none
  safe : Bool := false
  deployerTxs : Option Nat := none
  deriving DecidableEq, Repr

/-- The fields of the run manifest that the stages use.  Of the control proof it keeps the transaction: its nonce, when
the deployer has sent it. -/
structure DeployManifest where
  stages : Nat → Option StageRecord := fun _ => none
  proof : Option (Option Nat) := none
  deployerStartNonce : Option Nat := none

def DeployManifest.setStage (m : DeployManifest) (i : Nat) (r : StageRecord) : DeployManifest :=
  { m with stages := Function.update m.stages i (some r) }

inductive DeployError where
  | resume
  | nonce
  | manifest
  | countMismatch
  | libsAdoption
  | simulation
  | broadcast
  | safe
  | control
  | tool
  deriving DecidableEq, Repr

/-- The reads of the deployer's nonce, by their place. -/
inductive NonceRead where
  /-- At the start of a stage. -/
  | start (i : Nat)
  /-- Before the Safe is created. -/
  | expected
  /-- After a broadcast or a creation. -/
  | after (i : Nat)
  /-- After an existing Safe was adopted. -/
  | adopted (i : Nat)
  /-- When the libs stage is adopted. -/
  | libs (i : Nat)
  deriving DecidableEq, Repr

/-- What a simulation plans: its transactions, and the creations that it leaves out and that are on chain with the
build's code. -/
structure Simulation where
  planned : Nat
  adoptable : Nat
  deriving DecidableEq, Repr

inductive RowName where
  | stage (i : Nat)
  | proveControl
  deriving DecidableEq, Repr

inductive DeployRequest where
  /-- The command line: `--resume`, and the rows that it names. -/
  | options
  | loadRunManifest
  | saveRunManifest (m : DeployManifest)
  | deployerNonce (read : NonceRead)
  /-- What a stage checks before anything else. -/
  | gate (i : Nat)
  /-- `existsSync(outPath)`, for the manifest that the stage writes. -/
  | outExists (i : Nat)
  | removeOut (i : Nat)
  /-- The manifest of the broadcast that is resumed is put back. -/
  | restoreOut (i : Nat)
  | writeOut (i : Nat)
  | simulate (i : Nat)
  /-- The pin of the timelock, the adoption and the linked libraries. -/
  | checkSimulation (i : Nat)
  | checkBalance
  | confirm (i : Nat)
  | broadcast (i : Nat) (resuming : Bool)
  /-- The transactions in forge's broadcast file. -/
  | readTxCount (i : Nat)
  | checkOut (i : Nat)
  /-- What `createSafe` checks before the operator is asked. -/
  | planSafe
  | sendSafe (i : Nat)
  | connectSafe
  | verifyCreatedSafe
  | safeNonce
  | signProof
  | sendProof
  /-- The proof that is found on chain. -/
  | landedProof

def Content : DeployRequest → Type
  | .options => Bool × (RowName → Bool)
  | .loadRunManifest => Option DeployManifest
  | .deployerNonce _ => Nat
  | .outExists _ => Bool
  | .simulate _ => Simulation
  | .readTxCount _ => Nat
  | .safeNonce => Nat
  | .sendProof => Nat
  | .landedProof => Option Nat
  | _ => Unit

abbrev Answer (q : DeployRequest) : Type := Except DeployError (Content q)

abbrev Stage (α : Type) := ExceptT DeployError (Program DeployRequest Answer) α

def ask (q : DeployRequest) : Stage (Content q) := ExceptT.mk (Program.request q)

def require (q : DeployRequest) : Stage Unit := do
  let _ ← ask q
  pure ()

def deployerNonce (read : NonceRead) : Stage Nat := ask (.deployerNonce read)

def saveRunManifest (m : DeployManifest) : Stage Unit := require (.saveRunManifest m)

def outExists (i : Nat) : Stage Bool := ask (.outExists i)

/-- `body`, and what is done before an error of it is thrown on. -/
def cleaning {α : Type} (cleanup : Stage Unit) (body : Stage α) : Stage α :=
  ExceptT.mk (body.run >>= fun
    | .ok a => .done (.ok a)
    | .error e => cleanup.run >>= fun _ => .done (.error e))

section Counts

variable (cfg : DeployConfig)

def DeployConfig.row (i : Nat) : StageRow := cfg.rows.getD i ⟨.forge, 0⟩

/-- `adoptedTxs`, for one stage. -/
def adoptedTxs (m : DeployManifest) (i : Nat) : Option Nat :=
  match m.stages i with
  | some r => if r.status = .done then r.deployerTxs else none
  | none => none

/-- `effectiveCounts`: an adopted stage counts the transactions that the deployer has sent for it. -/
def effectiveCount (m : DeployManifest) (i : Nat) : Nat := (adoptedTxs m i).getD (cfg.row i).count

/-- What `effectiveCounts` throws on. -/
def adoptionOutside (m : DeployManifest) : Bool :=
  (range cfg.rows.length).any fun i => (cfg.row i).count < (adoptedTxs m i).getD 0

def proofNoncesBefore (i : Nat) : Nat :=
  match cfg.proofAt with
  | some k => if k ≤ i then 1 else 0
  | none => 0

def proofTxNonces : Nat := if cfg.proofAt.isSome then 1 else 0

/-- The sum of the effective counts of the rows before `i`. -/
def sumCounts (m : DeployManifest) (i : Nat) : Nat := ((range i).map (effectiveCount cfg m)).sum

def expectedStartNonce (m : DeployManifest) (i start : Nat) : Nat := start + sumCounts cfg m i + proofNoncesBefore cfg i

def recordedStartNonce (m : DeployManifest) : Nat := if cfg.fromZero then 0 else m.deployerStartNonce.getD 0

/-- `finalNonceCheck`, for a run that has executed a deployer stage: whether the nonce passes, when every stage is
done. -/
def finalNonceCheck (m : DeployManifest) (nonce : Nat) : Option Bool :=
  if (range cfg.rows.length).all (fun i => (m.stages i).any (·.status = .done)) then
    some (nonce = recordedStartNonce cfg m + sumCounts cfg m cfg.rows.length + proofTxNonces cfg)
  else none

end Counts

section Stages

variable (cfg : DeployConfig)

def runStartNonce (i : Nat) (m : DeployManifest) (nonce0 : Nat) : Stage (Nat × DeployManifest) :=
  if cfg.fromZero then pure (0, m)
  else
    match m.deployerStartNonce with
    | none =>
      if i ≠ 0 || (range cfg.rows.length).any (fun j => (m.stages j).isSome) then throw .nonce
      else do
        let m := { m with deployerStartNonce := some nonce0 }
        saveRunManifest m
        pure (nonce0, m)
    | some recorded =>
      match m.stages 0 with
      | some first => if first.startNonce ≠ recorded then throw .nonce else pure (recorded, m)
      | none => if nonce0 ≠ recorded then throw .nonce else pure (recorded, m)

/-- `prior?.status === "started"`. -/
def isStarted (prior : Option StageRecord) : Bool := prior.any (·.status = .started)

/-- The transactions of the libs stage, none of which the simulation plans, are on chain. -/
def adoptLibsStage (i startNonce : Nat) (m : DeployManifest) : Stage DeployManifest := do
  require (.checkSimulation i)
  let nonce ← deployerNonce (.libs i)
  if nonce ≠ startNonce ∧ nonce ≠ startNonce + (cfg.row i).count then throw .nonce
  else do
    let m := m.setStage i
      { status := .done, startNonce, endNonce := some nonce, deployerTxs := some (nonce - startNonce) }
    saveRunManifest m
    pure m

/-- The simulation of a stage and its checks: how many creations are adopted; or the libs stage is adopted as a
whole. -/
def simulateStage (i startNonce : Nat) (m : DeployManifest) : Stage (DeployManifest ⊕ Simulation) := do
  let sim : Simulation ← ask (.simulate i)
  if sim.planned = 0 then
    if (cfg.row i).kind = .libs then do
      let m ← adoptLibsStage cfg i startNonce m
      pure (.inl m)
    else throw .simulation
  else
    let adopted := if (cfg.row i).count ≤ sim.planned ∨ (cfg.row i).kind = .libs then 0 else sim.adoptable
    if sim.planned + adopted ≠ (cfg.row i).count then throw .countMismatch
    else do
      require (.checkSimulation i)
      pure (.inr ⟨sim.planned, adopted⟩)

/-- The count checks after a broadcast: the end of the stage, and what an adopted stage has sent. -/
def checkCounts (i startNonce : Nat) (resuming : Bool) (sim : Simulation) (sent nonce1 : Nat) : Stage (Option Nat) :=
  if sim.adoptable = 0 then
    if sent ≠ (cfg.row i).count ∨ nonce1 ≠ startNonce + (cfg.row i).count then throw .countMismatch else pure none
  else
    let lo := if resuming then (cfg.row i).count - sim.adoptable else sim.planned
    let hi := if resuming then (cfg.row i).count else sim.planned
    if nonce1 < startNonce + lo ∨ startNonce + hi < nonce1 ∨ nonce1 ≠ startNonce + sent then throw .countMismatch
    else pure (some sent)

def readAfterWrite (i target nonce1 : Nat) : Stage Nat :=
  if nonce1 < target then do
    let nonce1 ← deployerNonce (.after i)
    if nonce1 < target then throw .countMismatch else pure nonce1
  else pure nonce1

/-- The part of `runForgeStage` from the broadcast on. -/
def broadcastStage (i startNonce : Nat) (resuming : Bool) (sim : Simulation) (m : DeployManifest) :
    Stage DeployManifest := do
  require (.broadcast i resuming)
  let nonce1 ← deployerNonce (.after i)
  let sent : Nat ← ask (.readTxCount i)
  let nonce1 ← readAfterWrite i (startNonce + sent) nonce1
  let deployerTxs ← checkCounts cfg i startNonce resuming sim sent nonce1
  let written ← outExists i
  if written = false then throw .manifest
  else do
    require (.checkOut i)
    let m := m.setStage i { status := .done, startNonce, endNonce := some nonce1, deployerTxs }
    saveRunManifest m
    pure m

/-- The part of `runForgeStage` from the simulation on. -/
def forgeStage (i startNonce : Nat) (resuming kept : Bool) (m : DeployManifest) : Stage DeployManifest := do
  let simulated ← cleaning
    (if resuming then (if kept then require (.restoreOut i) else pure ()) else require (.removeOut i))
    (simulateStage cfg i startNonce m)
  match simulated with
  | .inl m => pure m
  | .inr sim => do
    if kept then require (.restoreOut i) else require (.removeOut i)
    require .checkBalance
    let m := m.setStage i { status := .started, startNonce }
    saveRunManifest m
    require (.confirm i)
    broadcastStage cfg i startNonce resuming sim m

/-- `runForgeStage`.  `controlProofGate` stands before the row after prove-control. -/
def runForgeStage (resume : Bool) (i : Nat) (m : DeployManifest) : Stage DeployManifest :=
  if cfg.proofAt = some i ∧ m.proof.isNone then throw .control
  else do
    require (.gate i)
    let nonce0 ← deployerNonce (.start i)
    let started ← runStartNonce cfg i m nonce0
    let m := started.2
    if adoptionOutside cfg m then throw .libsAdoption
    else
      let wantStart := expectedStartNonce cfg m i started.1
      let resuming := resume && isStarted (m.stages i) && wantStart < nonce0 && nonce0 ≤ wantStart + (cfg.row i).count
      if nonce0 ≠ wantStart ∧ resuming = false then throw .nonce
      else do
        let startNonce := if isStarted (m.stages i) then ((m.stages i).map (·.startNonce)).getD nonce0 else nonce0
        let there ← outExists i
        if there ∧ resuming = false then throw .manifest
        else forgeStage cfg i startNonce resuming (resuming && there) m

/-- `createSafe`, with the confirmation that `runSafeStage` gives it: the predicted address is recorded before the
send. -/
def createSafe (i nonce0 : Nat) (m : DeployManifest) : Stage DeployManifest := do
  require .planSafe
  let nonce ← deployerNonce .expected
  if nonce ≠ nonce0 then throw .safe
  else do
    require (.confirm i)
    let m := m.setStage i { status := .started, startNonce := nonce0, safe := true }
    saveRunManifest m
    require (.sendSafe i)
    require .connectSafe
    require .verifyCreatedSafe
    let after ← deployerNonce (.after i)
    let after ← readAfterWrite i (nonce0 + 1) after
    if after ≠ nonce0 + 1 then throw .safe else pure m

def runSafeStage (resume : Bool) (i : Nat) (m : DeployManifest) : Stage DeployManifest := do
  let nonce0 ← deployerNonce (.start i)
  let there ← outExists i
  match m.stages i with
  | some prior =>
    if resume ∧ prior.safe ∧ there = false then do
      require .connectSafe
      require .verifyCreatedSafe
      require (.writeOut i)
      let last ← deployerNonce (.adopted i)
      let m := m.setStage i { prior with status := .done, endNonce := some last }
      saveRunManifest m
      pure m
    else fresh nonce0 there
  | none => fresh nonce0 there
where
  /-- A Safe is created. -/
  fresh (nonce0 : Nat) (there : Bool) : Stage DeployManifest := do
    let started ← runStartNonce cfg i m nonce0
    if nonce0 ≠ expectedStartNonce cfg {} i started.1 then throw .nonce
    else if there then throw .manifest
    else do
      let m ← createSafe i nonce0 started.2
      require (.writeOut i)
      let last ← deployerNonce (.after i)
      if last ≠ nonce0 + (cfg.row i).count then throw .countMismatch
      else do
        let m := m.setStage i { status := .done, startNonce := nonce0, endNonce := some last, safe := true }
        saveRunManifest m
        pure m

/-- `runProveControl`: the Safe executes one call to itself, or one that has landed is adopted. -/
def runProveControl (resume : Bool) (m : DeployManifest) : Stage DeployManifest := do
  require .connectSafe
  let nonce : Nat ← ask .safeNonce
  if nonce = 0 then do
    require .signProof
    let sent : Nat ← ask .sendProof
    let m := { m with proof := some (some sent) }
    saveRunManifest m
    pure m
  else if resume = false ∨ nonce ≠ 1 then throw .control
  else do
    let landed : Option Nat ← ask .landedProof
    let m := { m with proof := some landed }
    saveRunManifest m
    pure m

def DeployConfig.table : List RowName :=
  let stages := (range cfg.rows.length).map RowName.stage
  match cfg.proofAt with
  | some k => stages.take k ++ .proveControl :: stages.drop k
  | none => stages

def isDone (prior : Option StageRecord) : Bool := prior.any (·.status = .done)

/-- The loop of `runStages`. -/
def runRows (resume : Bool) : List RowName → DeployManifest → Stage DeployManifest
  | [], m => pure m
  | .proveControl :: rest, m =>
    if resume && m.proof.isSome then runRows resume rest m
    else do
      let m ← runProveControl resume m
      runRows resume rest m
  | .stage i :: rest, m =>
    if resume && isDone (m.stages i) then runRows resume rest m
    else do
      let m ← if (cfg.row i).kind = .safe then runSafeStage cfg resume i m else runForgeStage cfg resume i m
      runRows resume rest m

/-- `Object.keys(manifest.stages).length > 0`. -/
def hasStages (m : DeployManifest) : Bool :=
  m.proof.isSome || (range cfg.rows.length).any fun i => (m.stages i).isSome

/-- `runStages`, for the rows that are named. -/
def runStages (resume : Bool) (named : RowName → Bool) : Stage Unit := do
  let loaded : Option DeployManifest ← ask .loadRunManifest
  match loaded with
  | none => do
    let _ ← runRows cfg resume (cfg.table.filter named) {}
    pure ()
  | some m =>
    if resume = false ∧ hasStages cfg m then throw .resume
    else do
      let _ ← runRows cfg resume (cfg.table.filter named) m
      pure ()

/-- A run of `publish contracts`. -/
def publish : Program DeployRequest Answer Unit :=
  (do
    let o : Bool × (RowName → Bool) ← ask .options
    runStages cfg o.1 o.2 : Stage Unit).run >>= fun _ => .done ()

end Stages

end RobotMoney.Publish.Deploy
