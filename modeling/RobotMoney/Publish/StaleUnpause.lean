import RobotMoney.Publish.Govern

/-!
# No stale unpause

A pause-all that is begun after an unpause was scheduled makes the unpause stale.  Govern runs and pause-all runs share
the manifest and the timelock here, in any order of their requests, with crashes at any point and with operations that
are scheduled, cancelled and executed by hand through the Safe.

The number that a record keeps of a schedule is at most that of every pause that was begun since (`Since`).  It follows
that the check before an execution finds every pause that was begun by then.  A pause that is begun after the check and
before the transaction leaves is not seen.
-/

open Effect Function List

namespace RobotMoney.Publish

open Evm

inductive OperationStatus where
  | unset
  | pending
  | done
  deriving DecidableEq, Repr

inductive GovernEvent where
  | manifest (e : ManifestEvent)
  /-- An operation was scheduled on the timelock. -/
  | scheduled (id : OperationId)
  /-- A process has read the pauses on disk, or has failed to. -/
  | checked (p : Nat) (ok : Bool)
  deriving DecidableEq, Repr

/-- The manifest file and the timelock, with what happened, the newest first. -/
structure GovernWorld where
  disk : Option RunManifest
  timelock : OperationId → OperationStatus
  log : List GovernEvent

/-- What the environment chooses of an answer: whether a request succeeds, whether a transaction that is sent takes
place, and the values that are not part of the world. -/
structure GovernReply where
  ok : Bool := true
  took : Bool := true
  flag : Bool := true
  readyAt : Nat := 0
  plan : RowPlan := .freeze []
  problems : List String := []
  result : PauseVaultResult := ⟨"", true⟩

/-- What is done by hand through the Safe. -/
inductive SafeEvent where
  | schedule (id : OperationId)
  | cancel (id : OperationId)
  | execute (id : OperationId)

def GovernRequest.manifestCall : GovernRequest → Option ManifestCall
  | .saveRunManifest m => some (.saveRunManifest m)
  | .reserveManifestSeq m => some (.reserveManifestSeq m)
  | .beginPauseEntry e => some (.beginPauseEntry e)
  | .updatePauseEntry entry => some (.updatePauseEntry entry)
  | _ => none

namespace GovernWorld

def start (pauses : Option (List PauseEntry)) (seqHigh : Option Nat) : GovernWorld :=
  ⟨some { govern := [], pauses := pauses, seqHigh := seqHigh }, fun _ => .unset, []⟩

def write (w : GovernWorld) (call : ManifestCall) : GovernWorld :=
  match call.body w.disk with
  | none => w
  | some (file, event) => { w with disk := some file, log := .manifest event :: w.log }

def schedule (w : GovernWorld) (id : OperationId) : GovernWorld :=
  { w with timelock := update w.timelock id .pending, log := .scheduled id :: w.log }

def setStatus (w : GovernWorld) (id : OperationId) (status : OperationStatus) : GovernWorld :=
  { w with timelock := update w.timelock id status }

def stateOf (w : GovernWorld) (id : OperationId) (r : GovernReply) : OperationState where
  isOperation := w.timelock id ≠ .unset
  pending := w.timelock id = .pending
  ready := w.timelock id = .pending && r.flag
  done := w.timelock id = .done
  readyAt := r.readyAt

def answer {α : Type} (r : GovernReply) (a : α) : Except GovernError α := if r.ok then .ok a else .error .tool

def next (w : GovernWorld) (p : Nat) (q : GovernRequest) (r : GovernReply) : GovernWorld :=
  match q.manifestCall with
  | some call => if r.ok then w.write call else w
  | none =>
    match q with
    | .loadPauses => { w with log := .checked p r.ok :: w.log }
    | .sendSchedule _ id => if r.took ∧ w.timelock id = .unset then w.schedule id else w
    | .sendExecute _ id => if r.took ∧ w.timelock id = .pending then w.setStatus id .done else w
    | _ => w

def reply (w : GovernWorld) : (q : GovernRequest) → GovernReply → Answer q
  | .loadRunManifest, r => answer r w.disk
  | .saveRunManifest m, r => answer r (mergeDisk m w.disk)
  | .reserveManifestSeq m, r =>
    let merged := mergeDisk m w.disk
    answer r (nextManifestSeq merged, { merged with seqHigh := some (nextManifestSeq merged) })
  | .operationState id, r => answer r (w.stateOf id r)
  | .depositsPaused _, r => answer r r.flag
  | .preflight _, r => answer r ()
  | .plan _, r => answer r r.plan
  | .loadPauses, r => answer r (entriesOf w.disk)
  | .beforeExecute _, r => answer r ()
  | .scheduleOnTimelock id, r => if w.timelock id = .unset then answer r () else .error .tool
  | .executeOnTimelock id, r => if w.timelock id = .pending then answer r () else .error .tool
  | .signTx, r => answer r ()
  | .sendSchedule _ id, r => if r.took ∧ w.timelock id = .unset then answer r () else .error .tool
  | .sendExecute _ id, r => if r.took ∧ w.timelock id = .pending then answer r () else .error .tool
  | .verifyTimelockEffect id, r => if w.timelock id = .done then answer r () else .error .tool
  | .readBack _ _, r => answer r r.problems
  | .wait _, r => answer r ()
  | .evidence _, r => answer r ()
  | .beginPauseEntry e, r => answer r (w.disk.map fun disk => openEntry disk e)
  | .updatePauseEntry _, r => answer r ()
  | .pauseVault _, r => answer r r.result

def interfere (w : GovernWorld) : SafeEvent → GovernWorld
  | .schedule id => if w.timelock id = .unset then w.schedule id else w
  | .cancel id => if w.timelock id = .pending then w.setStatus id .unset else w
  | .execute id => if w.timelock id = .pending then w.setStatus id .done else w

end GovernWorld

theorem of_answer {α : Type} {r : GovernReply} {a b : α} (h : GovernWorld.answer r a = .ok b) :
    r.ok = true ∧ a = b := by
  unfold GovernWorld.answer at h
  split_ifs at h with hr
  cases h
  exact ⟨hr, rfl⟩

def governHost (cfg : GovernConfig) : Shared GovernRequest Answer GovernWorld GovernReply SafeEvent GovernRun where
  main := GovernRun.program cfg
  perform w p q r := (w.next p q r, w.reply q r)
  interfere := GovernWorld.interfere

/-- The numbers of the pauses that were begun since an operation was last scheduled. -/
def begunSince : List GovernEvent → OperationId → List Nat
  | [], _ => []
  | .scheduled i :: older, id => if i = id then [] else begunSince older id
  | .manifest (.began e) :: older, id => e.seq :: begunSince older id
  | _ :: older, id => begunSince older id

def GovernWorld.Stale (w : GovernWorld) (id : OperationId) : Prop :=
  ∃ e ∈ entriesOf w.disk, e.seq ∈ begunSince w.log id

instance decidableStale (w : GovernWorld) (id : OperationId) : Decidable (w.Stale id) :=
  inferInstanceAs (Decidable (∃ e ∈ entriesOf w.disk, e.seq ∈ begunSince w.log id))

/-- The last read of the pauses by the process succeeded, and no pause was begun after it. -/
def Quiet (p : Nat) : List GovernEvent → Prop
  | [] => False
  | .checked q ok :: older => if q = p then ok = true else Quiet p older
  | .manifest (.began _) :: _ => False
  | _ :: older => Quiet p older

instance decidableQuiet (p : Nat) : (log : List GovernEvent) → Decidable (Quiet p log)
  | [] => isFalse id
  | .checked q ok :: older =>
    if h : q = p then decidable_of_iff (ok = true) (by rw [Quiet, if_pos h])
    else
      have := decidableQuiet p older
      decidable_of_iff (Quiet p older) (by rw [Quiet, if_neg h])
  | .manifest (.began _) :: _ => isFalse id
  | .manifest (.updated _) :: older => decidableQuiet p older
  | .manifest (.reserved _) :: older => decidableQuiet p older
  | .manifest .saved :: older => decidableQuiet p older
  | .scheduled _ :: older => decidableQuiet p older

def sending (c : Crew GovernRequest Answer GovernWorld) (p : Nat) : Option (GovernRow × OperationId) :=
  match c.code p with
  | .ask (.sendExecute row id) _ => some (row, id)
  | _ => none

def manifestLog (log : List GovernEvent) : List ManifestEvent :=
  log.filterMap fun
    | .manifest e => some e
    | _ => none

/-- What a step of the process `o`, or of the environment, may change. -/
structure Moves (o : Option Nat) (w w' : GovernWorld) : Prop where
  high : highOf w.disk ≤ highOf w'.disk
  log : w'.log = w.log ∨ ∃ ev, w'.log = ev :: w.log ∧ (∀ e, ev = .manifest (.began e) → highOf w.disk < e.seq) ∧
    ∀ q ok, ev = .checked q ok → o = some q
  unset : ∀ id, w.timelock id = .unset → w'.timelock id ≠ .unset → w'.log = .scheduled id :: w.log
  done : ∀ id, w.timelock id = .done → w'.timelock id = .done

def Stable (p : Nat) (F : GovernWorld → Prop) : Prop := ∀ o w w', o ≠ some p → Moves o w w' → F w → F w'

def Kept (F : GovernWorld → Prop) : Prop := ∀ o w w', Moves o w w' → F w → F w'

theorem Kept.stable {F : GovernWorld → Prop} (h : Kept F) (p : Nat) : Stable p F := fun o w w' _ => h o w w'

theorem Stable.and {F G : GovernWorld → Prop} {p : Nat} (hF : Stable p F) (hG : Stable p G) :
    Stable p fun w => F w ∧ G w :=
  fun o w w' ho hmoves h => ⟨hF o w w' ho hmoves h.1, hG o w w' ho hmoves h.2⟩

theorem Kept.and {F G : GovernWorld → Prop} (hF : Kept F) (hG : Kept G) : Kept fun w => F w ∧ G w :=
  fun o w w' hmoves h => ⟨hF o w w' hmoves h.1, hG o w w' hmoves h.2⟩

private theorem Moves.refl (o : Option Nat) (w : GovernWorld) : Moves o w w :=
  ⟨le_rfl, .inl rfl, fun _ h h' => absurd h h', fun _ h => h⟩

section World

variable {w : GovernWorld} {o : Option Nat} {id : OperationId}

private theorem moves_write (o : Option Nat) (w : GovernWorld) (call : ManifestCall) : Moves o w (w.write call) := by
  unfold GovernWorld.write
  cases hbody : call.body w.disk with
  | none => exact Moves.refl o w
  | some out =>
    obtain ⟨file, event⟩ := out
    obtain ⟨hhigh, hbegan⟩ := highOf_body hbody
    refine ⟨hhigh, .inr ⟨.manifest event, rfl, ?_, ?_⟩, fun _ h h' => absurd h h', fun _ h => h⟩
    · rintro e ⟨⟩
      exact hbegan e rfl
    · intro q ok hev
      cases hev

private theorem moves_schedule (o : Option Nat) (hw : w.timelock id = .unset) : Moves o w (w.schedule id) := by
  refine ⟨le_rfl, .inr ⟨.scheduled id, rfl, (fun e he => nomatch he), fun q ok he => nomatch he⟩, ?_, ?_⟩
  · intro i hi hi'
    by_cases heq : i = id
    · rw [heq]
      rfl
    · exact absurd ((update_of_ne heq ..).trans hi) hi'
  · intro i hi
    have hne : i ≠ id := by
      rintro rfl
      rw [hw] at hi
      cases hi
    exact (update_of_ne hne ..).trans hi

private theorem moves_setStatus (o : Option Nat) {status : OperationStatus} (hw : w.timelock id = .pending) :
    Moves o w (w.setStatus id status) := by
  have hother : ∀ i, w.timelock i ≠ .pending → (w.setStatus id status).timelock i = w.timelock i := by
    intro i hi
    apply update_of_ne
    rintro rfl
    exact hi hw
  refine ⟨le_rfl, .inl rfl, ?_, ?_⟩
  · intro i hi hi'
    rw [hother i (by rw [hi]; decide)] at hi'
    exact absurd hi hi'
  · intro i hi
    rw [hother i (by rw [hi]; decide)]
    exact hi

private theorem moves_checked (p : Nat) (ok : Bool) (w : GovernWorld) :
    Moves (some p) w { w with log := .checked p ok :: w.log } := by
  refine ⟨le_rfl, .inr ⟨_, rfl, (fun e he => nomatch he), ?_⟩, fun _ h h' => absurd h h', fun _ h => h⟩
  rintro q ok ⟨⟩
  rfl

theorem moves_interfere (w : GovernWorld) (e : SafeEvent) : Moves none w (w.interfere e) := by
  cases e with
  | schedule id =>
    rw [GovernWorld.interfere]
    split_ifs with hw
    · exact moves_schedule none hw
    · exact Moves.refl none w
  | cancel id | execute id =>
    rw [GovernWorld.interfere]
    split_ifs with hw
    · exact moves_setStatus none hw
    · exact Moves.refl none w

theorem moves_next (w : GovernWorld) {p : Nat} {q : GovernRequest} (r : GovernReply)
    (ho : q = .loadPauses → o = some p) :
    Moves o w (w.next p q r) := by
  unfold GovernWorld.next
  split
  · split_ifs
    · exact moves_write _ w _
    · exact Moves.refl _ w
  split
  · rw [ho rfl]
    exact moves_checked p r.ok w
  · split_ifs with hw
    · exact moves_schedule _ hw.2
    · exact Moves.refl _ w
  · split_ifs with hw
    · exact moves_setStatus _ hw.2
    · exact Moves.refl _ w
  · exact Moves.refl _ w

end World

/-- Every pause that was begun since the operation was last scheduled has a greater number. -/
def Since (id : OperationId) (seq : Nat) (w : GovernWorld) : Prop :=
  seq ≤ highOf w.disk ∧ ∀ n ∈ begunSince w.log id, seq < n

theorem kept_since (id : OperationId) (seq : Nat) : Kept (Since id seq) := by
  rintro o w w' hmoves ⟨hle, hlt⟩
  refine ⟨hle.trans hmoves.high, ?_⟩
  rcases hmoves.log with hlog | ⟨ev, hlog, hbegan, -⟩
  · rw [hlog]
    exact hlt
  rw [hlog]
  cases ev with
  | scheduled i =>
    rw [begunSince]
    split_ifs
    · exact fun n hn => absurd hn not_mem_nil
    · exact hlt
  | checked q ok => exact hlt
  | manifest e =>
    cases e with
    | began e =>
      intro n hn
      rcases mem_cons.1 hn with rfl | hn
      · exact hle.trans_lt (hbegan e rfl)
      · exact hlt n hn
    | updated e => exact hlt
    | reserved n => exact hlt
    | saved => exact hlt

def operationKey (row : GovernRow) (r : RowRecord) : OperationKey :=
  match row with
  | .unpause _ => ⟨row, some (r.round.getD 1), none⟩
  | _ => ⟨row, none, r.plan⟩

def GovernRow.Fits (row : GovernRow) (r : RowRecord) : Prop :=
  match row with
  | .redeployVault _ _ => r.plan.isSome
  | _ => True

def Tracks (row : GovernRow) (id : OperationId) (m : RunManifest) (w : GovernWorld) : Prop :=
  row.reopens = true → ∀ r sched, m.record row.key = some r → r.scheduled = some sched →
    row.Fits r ∧ Since id (sched.seq.getD 0) w

private theorem kept_tracks (row : GovernRow) (id : OperationId) (m : RunManifest) : Kept (Tracks row id m) := by
  intro o w w' hmoves h hrow r sched hr hsched
  obtain ⟨hfits, hsince⟩ := h hrow r sched hr hsched
  exact ⟨hfits, kept_since id _ o w w' hmoves hsince⟩

section Safety

variable (cfg : GovernConfig)

def currentId (m : RunManifest) (row : GovernRow) : OperationId :=
  cfg.operationId (operationKey row ((m.record row.key).getD { round := some 1 }))

def Numbered (m : RunManifest) (w : GovernWorld) : Prop := ∀ row, Tracks row (currentId cfg m row) m w

theorem kept_numbered (m : RunManifest) : Kept (Numbered cfg m) :=
  fun o w w' hmoves h row => kept_tracks row _ m o w w' hmoves (h row)

variable {cfg}

theorem Numbered.congr {m m' : RunManifest} {w : GovernWorld} (h : Numbered cfg m w)
    (hm : ∀ row : GovernRow, m'.record row.key = m.record row.key) : Numbered cfg m' w := by
  intro row hrow r sched hr hsched
  have hid : currentId cfg m' row = currentId cfg m row := by rw [currentId, currentId, hm]
  rw [hid]
  exact h row hrow r sched ((hm row).symm.trans hr) hsched

variable (cfg) in
/-- The invariant: the manifest on disk is a record of the writes, and its rows have the right numbers. -/
structure GovernInv (w : GovernWorld) : Prop where
  recorded : Recorded w.disk (manifestLog w.log)
  positive : ∀ e, GovernEvent.manifest (.began e) ∈ w.log → 0 < e.seq
  numbered : ∀ m, w.disk = some m → Numbered cfg m w

variable {w : GovernWorld}

private theorem GovernInv.same {w' : GovernWorld} {o : Option Nat} (h : GovernInv cfg w) (hmoves : Moves o w w')
    (hdisk : w'.disk = w.disk) (hlog : manifestLog w'.log = manifestLog w.log)
    (hbegan : ∀ e, GovernEvent.manifest (.began e) ∈ w'.log →
      GovernEvent.manifest (.began e) ∈ w.log) : GovernInv cfg w' where
  recorded := by
    rw [hdisk, hlog]
    exact h.recorded
  positive e he := h.positive e (hbegan e he)
  numbered m hm := kept_numbered cfg m o w w' hmoves (h.numbered m (hdisk.symm.trans hm))

private theorem GovernInv.write (h : GovernInv cfg w) (call : ManifestCall)
    (hfile : ∀ file event, call.body w.disk = some (file, event) →
      Numbered cfg file w) : GovernInv cfg (w.write call) := by
  have hmoves := moves_write none w call
  unfold GovernWorld.write at hmoves ⊢
  cases hbody : call.body w.disk with
  | none => exact h
  | some out =>
    obtain ⟨file, event⟩ := out
    rw [hbody] at hmoves
    constructor
    · exact h.recorded.body hbody
    · intro e he
      rcases mem_cons.1 he with heq | he
      · cases heq
        exact Nat.zero_lt_of_lt ((highOf_body hbody).2 e rfl)
      · exact h.positive e he
    · rintro m ⟨⟩
      exact kept_numbered cfg _ none w _ hmoves (hfile file event hbody)

private theorem numbered_mergeDisk {m : RunManifest} (h : Numbered cfg m w) (disk : Option RunManifest) :
    Numbered cfg (mergeDisk m disk) w := h.congr fun _ => rfl

/-- The manifest that a request writes, when it comes from the memory of the process. -/
def GovernRequest.saves : GovernRequest → Option RunManifest
  | .saveRunManifest m => some m
  | .reserveManifestSeq m => some m
  | _ => none

/-- A request keeps the invariant when what it saves has the right numbers. -/
theorem GovernInv.next (h : GovernInv cfg w) (p : Nat) (q : GovernRequest) (r : GovernReply)
    (hsaves : ∀ m, q.saves = some m → Numbered cfg m w) : GovernInv cfg (w.next p q r) := by
  have hmoves : Moves (some p) w (w.next p q r) := moves_next w r fun _ => rfl
  unfold GovernWorld.next at hmoves ⊢
  cases hcall : q.manifestCall with
  | some call =>
    dsimp only
    split_ifs
    · refine h.write call fun file event hbody => ?_
      cases q with
      | saveRunManifest m =>
        cases hcall
        cases hbody
        exact numbered_mergeDisk (hsaves m rfl) w.disk
      | reserveManifestSeq m =>
        cases hcall
        cases hbody
        exact (numbered_mergeDisk (hsaves m rfl) w.disk).congr fun _ => rfl
      | beginPauseEntry e | updatePauseEntry e =>
        cases hcall
        obtain ⟨disk, hdisk, heq⟩ := Option.map_eq_some_iff.1 hbody
        cases heq
        exact (h.numbered disk hdisk).congr fun _ => rfl
      | _ => cases hcall
    · exact h
  | none =>
    rw [hcall] at hmoves
    dsimp only at hmoves ⊢
    split at hmoves
    · refine h.same hmoves rfl rfl fun e he => ?_
      rcases mem_cons.1 he with heq | he
      · cases heq
      · exact he
    · split_ifs at hmoves ⊢
      · refine h.same hmoves rfl rfl fun e he => ?_
        rcases mem_cons.1 he with heq | he
        · cases heq
        · exact he
      · exact h
    · split_ifs at hmoves ⊢
      · exact h.same hmoves rfl rfl fun e he => he
      · exact h
    · exact h

theorem GovernInv.interfere (h : GovernInv cfg w) (e : SafeEvent) : GovernInv cfg (w.interfere e) := by
  have hmoves := moves_interfere w e
  cases e with
  | schedule id =>
    rw [GovernWorld.interfere] at hmoves ⊢
    split_ifs at hmoves ⊢
    · refine h.same hmoves rfl rfl fun e he => ?_
      rcases mem_cons.1 he with heq | he
      · cases heq
      · exact he
    · exact h
  | cancel id | execute id =>
    rw [GovernWorld.interfere] at hmoves ⊢
    split_ifs at hmoves ⊢
    · exact h.same hmoves rfl rfl fun e he => he
    · exact h

end Safety

end RobotMoney.Publish
