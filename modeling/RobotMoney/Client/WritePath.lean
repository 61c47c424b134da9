import RobotMoney.Client.ReplayCache

/-!
# The write path of the payment client

`open_session` and `WriteSession::submit` of `write_path.rs`, the only path that broadcasts a payment, with the failover
client it sends through.  One invocation runs under the lock of its agent from beginning to end, so the invocations of
an agent come one after the other; everything an invocation meets on its way (the keystore, the files, every endpoint's
answers) is given beforehand (`Outcomes`), and may be anything.

The list `sent` is not in the program: it has the transactions handed to the endpoints, newest first, with what became
of each.
-/

namespace RobotMoney.Client

open Evm List

variable {W : Type}

/-- The errors of a JSON-RPC call. -/
inductive RpcError where
  | transport (message : String)
  | server (code : Int) (message : String)
  | decode (message : String)
  deriving DecidableEq, Repr

/-- The errors of the write path; the refusals of preflight and verification keep their name. -/
inductive RmpcError (W : Type) where
  | softwareSignerDisallowed
  | concurrentInvocation
  | orderIdAlreadySubmitted (txHash : W)
  | txReverted (txHash : W)
  | rpc (e : RpcError)
  | other (name : String)
  deriving DecidableEq

/-- Why the write path stopped; a refusal after the broadcast names the transaction. -/
inductive WriteAbort (W : Type) where
  | startup
  | refused (e : RmpcError W) (txHash : Option W)
  deriving DecidableEq

/-- What one endpoint does with `eth_sendRawTransaction`; it may take the transaction and its answer be lost. -/
inductive SendOutcome where
  | accepted
  | acceptedUnanswered (e : RpcError)
  | rejected (e : RpcError)
  deriving DecidableEq, Repr

/-- `FailoverRpcClient::send_raw_transaction`: the first answer, or the last error.  A client has an endpoint, so the
error for none is never met. -/
def sendRawTransaction (txHash : W) : List SendOutcome → Option RpcError → Except RpcError W
  | [], lastErr => .error (lastErr.getD (.transport "endpoints is non-empty"))
  | .accepted :: _, _ => .ok txHash
  | .acceptedUnanswered e :: rest, _ => sendRawTransaction txHash rest (some e)
  | .rejected e :: rest, _ => sendRawTransaction txHash rest (some e)

def anyAccepted : List SendOutcome → Bool
  | [] => false
  | .rejected _ :: rest => anyAccepted rest
  | _ :: _ => true

/-- What one endpoint answers to `eth_getTransactionReceipt`; a receipt has the status of the execution. -/
inductive ReceiptAnswer where
  | receipt (status : Bool)
  | pending
  | failed (e : RpcError)
  deriving DecidableEq, Repr

def getTransactionReceipt : List ReceiptAnswer → Bool → Option RpcError → Except RpcError (Option Bool)
  | [], true, _ => .ok none
  | [], false, lastErr => .error (lastErr.getD (.transport "endpoints is non-empty"))
  | .receipt status :: _, _, _ => .ok (some status)
  | .pending :: rest, _, lastErr => getTransactionReceipt rest true lastErr
  | .failed e :: rest, sawNone, _ => getTransactionReceipt rest sawNone (some e)

/-- `wait_for_receipt_with`: `polls n` has the endpoints' answers in the `n`th round. -/
def waitForReceiptWith : Nat → (Nat → List ReceiptAnswer) → Except RpcError Bool
  | 0, _ => .error (.transport "timeout waiting for receipt")
  | n + 1, polls => do
    let receipt ← getTransactionReceipt (polls 0) false none
    match receipt with
    | some status => .ok status
    | none => waitForReceiptWith n fun k => polls (k + 1)

def waitForSuccessfulReceipt (txHash : W) (maxAttempts : Nat) (polls : Nat → List ReceiptAnswer) :
    Except (RmpcError W) Unit :=
  match waitForReceiptWith maxAttempts polls with
  | .error e => .error (.rpc e)
  | .ok false => .error (.txReverted txHash)
  | .ok true => .ok ()

inductive LockOutcome where
  | acquired
  | held
  | failed
  deriving DecidableEq, Repr

/-- What an invocation meets, in the order it meets it. -/
structure Outcomes (W : Type) where
  loadSigner : Except (WriteAbort W) Unit
  resolvesStateDir : Bool
  lock : LockOutcome
  opensCache : Bool
  readsCache : Bool
  buildsClients : Bool
  /-- The deadline, the preflight and the gas limit. -/
  preflight : Except (WriteAbort W) Unit
  /-- The error of a simulation that names one; any other simulation lets the write go on. -/
  simulation : Option (RmpcError W)
  /-- The fee bid, the nonce and the signature: the hash of the signed transaction. -/
  signedEnvelope : Except (WriteAbort W) W
  reverifyGateway : Option (RmpcError W)
  reverifyVault : Option (RmpcError W)
  endpoints : List SendOutcome
  insertWrite : FileWrite
  replayDeadline : Nat
  receiptTimeoutSecs : Nat
  polls : Nat → List ReceiptAnswer
  removeWrite : FileWrite
  executedUnder : Option (RmpcError W)

/-- An invocation: its configured chain, its request and what it meets. -/
structure Invocation (W : Type) where
  chainId : Fin (2 ^ 64)
  request : WriteRequest W
  outcomes : Outcomes W

/-- A transaction that was handed to the endpoints. -/
structure SentTx (W : Type) where
  key : W
  txHash : W
  /-- Some endpoint took it. -/
  accepted : Bool
  /-- The broadcast returned its hash. -/
  returned : Bool
  /-- The insert into the replay cache succeeded. -/
  recorded : Bool
  /-- A receipt with status 0 was seen. -/
  reverted : Bool
  deriving DecidableEq

structure ClientState (W : Type) where
  file : CacheFile W
  sent : List (SentTx W)

/-- The end of an invocation: whether it signed, and what it reports. -/
structure Finished (W : Type) where
  state : ClientState W
  signed : Bool
  result : Except (WriteAbort W) W

section Invoke

variable (h : AbiHash W) (agent : Address)

def Invocation.replayKey (i : Invocation W) : W := i.request.replayKey h i.chainId agent

/-- The replay lookup of `open_session`. -/
def replayLookup (file : CacheFile W) (i : Invocation W) : Except (WriteAbort W) Unit :=
  match if i.outcomes.readsCache then file.lookup (i.replayKey h agent) else none with
  | none => .error .startup
  | some (some priorTx) => .error (.refused (.orderIdAlreadySubmitted priorTx) (some priorTx))
  | some none => .ok ()

def acquireLock (o : Outcomes W) : Except (WriteAbort W) Unit :=
  match o.lock with
  | .acquired => .ok ()
  | .held => .error (.refused .concurrentInvocation none)
  | .failed => .error .startup

def openSession (file : CacheFile W) (i : Invocation W) : Except (WriteAbort W) Unit := do
  i.outcomes.loadSigner
  revertIf (i.outcomes.resolvesStateDir = false) .startup
  acquireLock i.outcomes
  revertIf (i.outcomes.opensCache = false) .startup
  replayLookup h agent file i
  revertIf (i.outcomes.buildsClients = false) .startup

/-- The steps of `submit` up to the broadcast: the hash of the transaction to send. -/
def prepare (o : Outcomes W) : Except (WriteAbort W × Bool) W :=
  match o.simulation with
  | some e => .error (.refused e none, false)
  | none =>
    match o.signedEnvelope with
    | .error abort => .error (abort, false)
    | .ok txHash =>
      match o.reverifyGateway <|> o.reverifyVault with
      | some e => .error (.refused e none, true)
      | none => .ok txHash

variable [DecidableEq W]

/-- The steps of `submit` after a broadcast that returned the hash. -/
def settle (s : ClientState W) (i : Invocation W) (txHash : W) : Finished W :=
  let key := i.replayKey h agent
  let entry := ⟨i.request.orderId, i.request.idempotencyKey, i.outcomes.replayDeadline, txHash⟩
  -- a failed insert is only logged
  let (file, recorded) := s.file.insert i.outcomes.insertWrite key entry
  let sent := ⟨key, txHash, anyAccepted i.outcomes.endpoints, true, recorded, false⟩
  let maxAttempts := max (min i.outcomes.receiptTimeoutSecs (2 ^ 32 - 1)) 1
  match waitForSuccessfulReceipt txHash maxAttempts i.outcomes.polls with
  | .error (.txReverted hash) =>
    let (file, _) := file.remove i.outcomes.removeWrite key
    ⟨⟨file, { sent with reverted := true } :: s.sent⟩, true, .error (.refused (.txReverted hash) (some txHash))⟩
  | .error e => ⟨⟨file, sent :: s.sent⟩, true, .error (.refused e (some txHash))⟩
  | .ok () =>
    match i.outcomes.executedUnder with
    | some e => ⟨⟨file, sent :: s.sent⟩, true, .error (.refused e (some txHash))⟩
    | none => ⟨⟨file, sent :: s.sent⟩, true, .ok txHash⟩

def submit (s : ClientState W) (i : Invocation W) : Finished W :=
  match prepare i.outcomes with
  | .error (abort, signed) => ⟨s, signed, .error abort⟩
  | .ok txHash =>
    match sendRawTransaction txHash i.outcomes.endpoints none with
    | .error e =>
      let sent := ⟨i.replayKey h agent, txHash, anyAccepted i.outcomes.endpoints, false, false, false⟩
      ⟨⟨s.file, sent :: s.sent⟩, true, .error (.refused (.rpc e) none)⟩
    | .ok txHash => settle h agent s i txHash

def invoke (s : ClientState W) (i : Invocation W) : Finished W :=
  match openSession h agent s.file i with
  | .error abort => ⟨s, false, .error abort⟩
  | .ok () =>
    match i.outcomes.preflight with
    | .error abort => ⟨s, false, .error abort⟩
    | .ok () => submit h agent s i

def invokeAll (s : ClientState W) (is : List (Invocation W)) : ClientState W :=
  is.foldl (fun s i => (invoke h agent s i).state) s

end Invoke

def FileWrite.Clean (w : FileWrite) : Prop := w = .written ∨ w = .untouched

def Outcomes.Clean (o : Outcomes W) : Prop := o.insertWrite.Clean ∧ o.removeWrite.Clean

namespace CacheFile

variable [DecidableEq W] {file : CacheFile W} {w : FileWrite} {key k : W}

private theorem lookup_insert_of_ne (hw : w.Clean) (hk : k ≠ key) (entry : CacheEntry W) :
    (file.insert w key entry).1.lookup k = file.lookup k := by
  cases file with
  | damaged => rfl
  | readable entries =>
    rcases hw with rfl | rfl
    · simp [insert, rewrite, lookup, Function.update_of_ne hk]
    · rfl

private theorem lookup_remove_of_ne (hw : w.Clean) (hk : k ≠ key) : (file.remove w key).1.lookup k = file.lookup k := by
  cases file with
  | damaged => rfl
  | readable entries =>
    rcases hw with rfl | rfl
    · simp [remove, rewrite, lookup, Function.update_of_ne hk]
    · rfl

private theorem lookup_insert_self {entry : CacheEntry W} (h : (file.insert w key entry).2 = true) :
    (file.insert w key entry).1.lookup key = some (some entry.txHash) := by
  cases file with
  | damaged => cases h
  | readable entries =>
    cases w with
    | written => simp [insert, rewrite, lookup]
    | untouched => cases h
    | emptied => cases h
    | torn => cases h

end CacheFile

section Kept

variable {h : AbiHash W} {agent : Address} {s : ClientState W} {i : Invocation W}

private theorem lookup_of_openSession {u : Unit} (hx : openSession h agent s.file i = .ok u) :
    s.file.lookup (i.replayKey h agent) = some none := by
  simp only [openSession, bind_eq_ok] at hx
  obtain ⟨u₁, -, u₂, -, u₃, -, u₄, -, u₅, hlookup, -⟩ := hx
  unfold replayLookup at hlookup
  split at hlookup
  · cases hlookup
  · cases hlookup
  rename_i heq
  split at heq
  · exact heq
  · cases heq

private theorem openSession_of_entry {txHash : W} (hentry : s.file.lookup (i.replayKey h agent) = some (some txHash)) :
    (∃ abort, openSession h agent s.file i = .error abort) ∧
      (i.outcomes.loadSigner = .ok () → i.outcomes.resolvesStateDir = true → i.outcomes.lock = .acquired →
        i.outcomes.opensCache = true → i.outcomes.readsCache = true →
        openSession h agent s.file i = .error (.refused (.orderIdAlreadySubmitted txHash) (some txHash))) := by
  constructor
  · cases hopen : openSession h agent s.file i with
    | error abort => exact ⟨abort, rfl⟩
    | ok u =>
      rw [lookup_of_openSession hopen] at hentry
      cases hentry
  · intro hsigner hdir hlock hcache hread
    simp [openSession, hsigner, hdir, acquireLock, hlock, hcache, replayLookup, hread, hentry, revertIf, bind,
      Except.bind]

variable [DecidableEq W]

def ClientState.Recorded (s : ClientState W) : Prop :=
  ∀ t ∈ s.sent, t.recorded = true → t.reverted = false → s.file.lookup t.key = some (some t.txHash)

private theorem recorded_insert (hs : s.Recorded) {w : FileWrite} (hw : w.Clean) {key : W}
    (hne : ∀ t ∈ s.sent, t.recorded = true → t.reverted = false → t.key ≠ key) {entry : CacheEntry W}
    {accepted : Bool} : ClientState.Recorded ⟨(s.file.insert w key entry).1,
      ⟨key, entry.txHash, accepted, true, (s.file.insert w key entry).2, false⟩ :: s.sent⟩ := by
  intro t ht hrecorded hreverted
  rcases mem_cons.1 ht with rfl | ht
  · exact CacheFile.lookup_insert_self hrecorded
  rw [CacheFile.lookup_insert_of_ne hw (hne t ht hrecorded hreverted)]
  exact hs t ht hrecorded hreverted

/-- The step of the broadcast and the receipt: the key is new, so no other entry is touched. -/
theorem ClientState.Recorded.settle (hs : s.Recorded) (hclean : i.outcomes.Clean)
    (hnew : s.file.lookup (i.replayKey h agent) = some none) (txHash : W) :
    (settle h agent s i txHash).state.Recorded := by
  obtain ⟨hinsert, hremove⟩ := hclean
  have hne : ∀ t ∈ s.sent, t.recorded = true → t.reverted = false → t.key ≠ i.replayKey h agent := by
    intro t ht hrecorded hreverted hkey
    have hentry := hs t ht hrecorded hreverted
    rw [hkey, hnew] at hentry
    cases hentry
  unfold Client.settle
  dsimp only
  split
  · -- reverted: the new transaction needs no entry
    intro t ht hrecorded hreverted
    rcases mem_cons.1 ht with rfl | ht
    · cases hreverted
    rw [CacheFile.lookup_remove_of_ne hremove (hne t ht hrecorded hreverted),
      CacheFile.lookup_insert_of_ne hinsert (hne t ht hrecorded hreverted)]
    exact hs t ht hrecorded hreverted
  · exact recorded_insert hs hinsert hne
  split
  · exact recorded_insert hs hinsert hne
  · exact recorded_insert hs hinsert hne
private theorem ClientState.Recorded.invoke (hs : s.Recorded) (hclean : i.outcomes.Clean) :
    (invoke h agent s i).state.Recorded := by
  unfold Client.invoke
  split
  · exact hs
  rename_i hopen
  have hnew := lookup_of_openSession hopen
  split
  · exact hs
  unfold submit
  split
  · exact hs
  split
  · intro t ht hrecorded hreverted
    rcases mem_cons.1 ht with rfl | ht
    · cases hrecorded
    · exact hs t ht hrecorded hreverted
  · exact hs.settle hclean hnew _

private theorem ClientState.Recorded.invokeAll (hs : s.Recorded) {is : List (Invocation W)}
    (hclean : ∀ i ∈ is, i.outcomes.Clean) : (invokeAll h agent s is).Recorded := by
  induction is generalizing s with
  | nil => exact hs
  | cons i is ih =>
    apply ih (hs.invoke (hclean i (mem_cons_self ..)))
    intro j hj
    exact hclean j (mem_cons_of_mem _ hj)

end Kept

/-- After any sequence of invocations whose failed cache writes leave the file as it was: a transaction whose broadcast
returned, whose insert succeeded and that was not seen reverted is in the cache, and an invocation for the same key
signs nothing and changes nothing; once it holds the lock and reads the cache, it is refused under that
transaction. -/
theorem recorded_payment_refused [DecidableEq W] (h : AbiHash W) (agent : Address) (file : CacheFile W)
    (is : List (Invocation W)) (hclean : ∀ i ∈ is, i.outcomes.Clean) :
    let s := invokeAll h agent ⟨file, []⟩ is
    ∀ t ∈ s.sent, t.returned = true → t.recorded = true → t.reverted = false →
      s.file.lookup t.key = some (some t.txHash) ∧
        ∀ i : Invocation W, i.replayKey h agent = t.key →
          (invoke h agent s i).signed = false ∧ (invoke h agent s i).state = s ∧
            (i.outcomes.loadSigner = .ok () → i.outcomes.resolvesStateDir = true → i.outcomes.lock = .acquired →
              i.outcomes.opensCache = true → i.outcomes.readsCache = true →
              (invoke h agent s i).result =
                .error (.refused (.orderIdAlreadySubmitted t.txHash) (some t.txHash))) := by
  intro s t ht _ hrecorded hreverted
  have hs : s.Recorded := ClientState.Recorded.invokeAll (by intro t ht; cases ht) hclean
  have hentry := hs t ht hrecorded hreverted
  refine ⟨hentry, ?_⟩
  intro i hi
  obtain ⟨⟨abort, habort⟩, hrefused⟩ := openSession_of_entry (i := i) (by rw [hi]; exact hentry)
  refine ⟨by rw [invoke, habort], by rw [invoke, habort], ?_⟩
  intro hsigner hdir hlock hcache hread
  rw [invoke, hrefused hsigner hdir hlock hcache hread]

private theorem chainId_lt : 8453 < 2 ^ 64 := by decide

/-- A deposit under the order id 1 that one endpoint takes and whose receipt does not come. -/
def sampleInvocation (insertWrite : FileWrite) : Invocation (List Nat) where
  chainId := ⟨8453, chainId_lt⟩
  request := ⟨50, [1], [1], 5, none⟩
  outcomes :=
    { loadSigner := .ok (), resolvesStateDir := true, lock := .acquired, opensCache := true, readsCache := true
      buildsClients := true, preflight := .ok (), simulation := none, signedEnvelope := .ok [9]
      reverifyGateway := none, reverifyVault := none, endpoints := [.accepted], insertWrite, replayDeadline := 100
      receiptTimeoutSecs := 1, polls := fun _ => [.pending], removeWrite := .written, executedUnder := none }

theorem recorded_payment_refused_after_timeout :
    let s := invokeAll (abiHash sampleEncoding) 7 ⟨.readable fun _ => none, []⟩ [sampleInvocation .written]
    (invoke (abiHash sampleEncoding) 7 s (sampleInvocation .written)).result =
      .error (.refused (.orderIdAlreadySubmitted [9]) (some [9])) := by
  intro s
  have hclean : ∀ i ∈ [sampleInvocation .written], i.outcomes.Clean := by
    intro i hi
    obtain rfl := mem_singleton.1 hi
    exact ⟨.inl rfl, .inl rfl⟩
  have hsent := recorded_payment_refused (abiHash sampleEncoding) 7 (.readable fun _ => none) _ hclean
    ⟨(sampleInvocation .written).replayKey (abiHash sampleEncoding) 7, [9], true, true, true, false⟩
    (mem_singleton.2 rfl) rfl rfl rfl
  exact (hsent.2 (sampleInvocation .written) rfl).2.2 rfl rfl rfl rfl rfl

/-- The same deposit when the insert fails: an endpoint has it, no receipt came, the cache has no entry, and the next
invocation signs another transaction for it. -/
theorem unrecorded_payment_signed_again :
    let s := invokeAll (abiHash sampleEncoding) 7 ⟨.readable fun _ => none, []⟩ [sampleInvocation .untouched]
    (∃ t ∈ s.sent, t.key = (sampleInvocation .untouched).replayKey (abiHash sampleEncoding) 7 ∧ t.accepted = true ∧
      t.reverted = false ∧ s.file.lookup t.key = some none) ∧
      (invoke (abiHash sampleEncoding) 7 s (sampleInvocation .untouched)).signed = true := by
  intro s
  refine ⟨⟨_, mem_singleton.2 rfl, rfl, rfl, rfl, rfl⟩, ?_⟩
  decide +kernel

end RobotMoney.Client
