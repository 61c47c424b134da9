import RobotMoney.Watchdog.Cycle

/-!
# What a poll asks, and when

Each request of a poll is allowed by the requests before it: the cursor is moved to a block only after a cycle over the
block that has read every volume and has settled every alert, an alert is sent only after its record was looked up, a
record is saved only after its delivery, and so on (`Allowed`).  A poll makes only such requests (`follows_poll`),
whatever it is answered and whatever happens between two requests, and the results about whole runs follow from this
alone.
-/

open Effect

namespace RobotMoney.Watchdog

open Evm Indexer SqlTable List

variable {H : Type}

def Request.isStart : Request → Bool
  | .blockTimestamp _ => true
  | _ => false

/-- The exchanges of the running cycle: those since the timestamp of its block was asked for. -/
def sinceStart : List (Exchange H) → List (Exchange H)
  | [] => []
  | x :: older => if x.request.isStart then [x] else x :: sinceStart older

theorem sinceStart_subset (log : List (Exchange H)) : sinceStart log ⊆ log := by
  induction log with
  | nil => exact fun _ hx => hx
  | cons x older ih =>
    intro y hy
    unfold sinceStart at hy
    split at hy
    · exact mem_cons.mpr (.inl (mem_singleton.mp hy))
    obtain rfl | hy := mem_cons.mp hy
    · exact mem_cons_self
    · exact mem_cons_of_mem _ (ih hy)

def Exchange.Did (x : Exchange H) (q : Request) : Prop := x.request = q ∧ x.reply.outcome = .ok

def Anchored (cycle : List (Exchange H)) (blockNumber : Nat) (now : Int) : Prop :=
  ∃ x ∈ cycle, x.Did (.blockTimestamp blockNumber) ∧
    (x.state.db.timestampOf blockNumber = some now ∨
      x.state.db.timestampOf blockNumber = none ∧
        ∃ y ∈ cycle, y.Did .latestBlockTimestamp ∧ now = (latestBlockTimestamp y.state.db).getD 0)

section Protocol

variable (cfg : Config)

def Config.breachOf (blockNumber : Nat) (now : Int) (p : Check × Db H) : List BreachEvent :=
  p.1.breach cfg.chainId blockNumber (p.1.volume p.2 blockNumber now)

/-- The cycle has read the volume of every check, on the tables given with it, and the breaches are these. -/
def Evaluation (cycle : List (Exchange H)) (blockNumber : Nat) (breaches : List BreachEvent) : Prop :=
  ∃ now, Anchored cycle blockNumber now ∧ ∃ reads : List (Check × Db H), reads.map Prod.fst = cfg.checks ∧
    (∀ p ∈ reads, ∃ x ∈ cycle, x.Did (.volume blockNumber now p.1) ∧ x.state.db = p.2) ∧
    breaches = reads.flatMap (cfg.breachOf blockNumber now)

def Exchange.record (x : Exchange H) (dedupKey : Text) : Option PagerState :=
  loadPagerState x.state.pager cfg.chainId dedupKey

/-- The cycle has sent an alert and had it acknowledged, or has found a record of it. -/
def Delivered (cycle : List (Exchange H)) (event : BreachEvent) : Prop :=
  (∃ x ∈ cycle, x.Did (.dispatchAlert event)) ∨
    ∃ x ∈ cycle, x.Did (.loadPagerState (volumeBreachDedupKey event)) ∧
      ∃ state, x.record cfg (volumeBreachDedupKey event) = some state ∧ (state.firing = true ∨ state.lastPagedAt ≠ none)

def Exchange.IsPause (x : Exchange H) : Prop :=
  (∃ nonce gasPrice, x.request = .sendPause nonce gasPrice) ∨
    (x.request = .ethGetTransactionCount ∨ x.request = .ethGasPrice) ∧ x.reply.readNumber = .error ()

def PauseTried (cycle : List (Exchange H)) : Prop :=
  (∃ x ∈ cycle, x.Did .depositsPaused ∧ x.reply.flag = true) ∨
    (cfg.pauser.isSome = true → cfg.gatewayAddress.isSome = true → ∃ x ∈ cycle, x.IsPause)

def Completed (cycle : List (Exchange H)) (blockNumber : Nat) : Prop :=
  ∃ breaches, Evaluation cfg cycle blockNumber breaches ∧
    (cfg.alerts = true → ∀ e ∈ breaches, Delivered cfg cycle e) ∧
    (cfg.mode.includesPause = true → breaches ≠ [] → PauseTried cfg cycle)

/-- The next block of a poll: the one after the cursor, or without a cursor the head. -/
def State.NextBlock (s : State H) (blockNumber : Nat) : Prop :=
  s.cursor = none ∧ s.polled = some blockNumber ∨ ∃ c, s.cursor = some c ∧ blockNumber = c + 1

def Allowed (x : Exchange H) (older : List (Exchange H)) : Prop :=
  match x.request with
  | .blockTimestamp blockNumber => x.state.NextBlock blockNumber
  | .volume blockNumber _ _ => x.state.current = some blockNumber
  | .dispatchAlert event =>
    (∃ blockNumber breaches, Evaluation cfg (sinceStart older) blockNumber breaches ∧ event ∈ breaches) ∧
      ∃ y older', older = y :: older' ∧ y.request = .loadPagerState (volumeBreachDedupKey event) ∧
        (y.reply.outcome = .ok → ((y.record cfg (volumeBreachDedupKey event)).getD .default).firing = false)
  | .savePagerState dedupKey state =>
    state.firing = true ∧ ∃ y older', older = y :: older' ∧
      ((∃ event, dedupKey = volumeBreachDedupKey event ∧ y.Did (.dispatchAlert event)) ∨
        ∃ blockNumber nonce gasPrice, dedupKey = volumeBreachPauseKey cfg.chainId blockNumber ∧
          y.Did (.sendPause nonce gasPrice))
  | .clearPagerStates start =>
    ∃ blockNumber y older', start = volumeBreachBlockStart cfg.chainId blockNumber ∧ older = y :: older' ∧
      y.Did (.advanceCursor blockNumber)
  | .sendPause nonce gasPrice =>
    ∃ y z older', older = y :: z :: older' ∧ y.Did .ethGasPrice ∧ z.Did .ethGetTransactionCount ∧
      nonce = z.reply.number ∧ gasPrice = bumpGasPrice y.reply.number cfg.pauseFeeBumpBps
  | .advanceCursor blockNumber =>
    x.state.NextBlock blockNumber ∧ x.state.current = some blockNumber ∧ Completed cfg (sinceStart older) blockNumber
  | .touchCursor => ∃ cursor head, x.state.cursor = some cursor ∧ x.state.polled = some head ∧ head ≤ cursor
  | _ => True

end Protocol

/-- What events leave as it is. -/
structure Same (w w' : World H) : Prop where
  log : w'.log = w.log
  cursor : w'.state.cursor = w.state.cursor
  polled : w'.state.polled = w.state.polled
  current : w'.state.current = w.state.current

private theorem Same.trans {w w' v : World H} (h : Same w w') (h' : Same w' v) : Same w v :=
  ⟨h'.log.trans h.log, h'.cursor.trans h.cursor, h'.polled.trans h.polled, h'.current.trans h.current⟩

private theorem Same.nextBlock {w v : World H} {b : Nat} (h : Same w v) (hnext : w.state.NextBlock b) :
    v.state.NextBlock b := by
  unfold State.NextBlock
  rw [h.cursor, h.polled]
  exact hnext

section Follows

variable (cfg : Config) (d : Indexer.Deployment H) [DecidableEq H] (rely : Rely Request (World H) Reply Interference)

def Asked (w w' : World H) : Prop :=
  ∃ q r, rely.reply w q r ∧ Allowed cfg ⟨w.state, q, r⟩ w.log ∧ w' = (w.perform cfg q r).1

/-- The program asks only what is allowed, and its result is as `post` says. -/
def Follows {α : Type} (post : α → World H → Prop) (p : Code α) (w : World H) : Prop :=
  p.Safe (watchdogHost cfg d) rely (Asked cfg rely) post w

theorem same_interfere (w : World H) (e : Interference) : Same w ((watchdogHost cfg d).interfere w e) := by
  cases e with
  | begin chain => exact ⟨rfl, rfl, rfl, rfl⟩
  | save chainId dedupKey state => exact ⟨rfl, rfl, rfl, rfl⟩
  | clear chainId start => exact ⟨rfl, rfl, rfl, rfl⟩
  | index =>
    simp only [watchdogHost, State.interfere, State.index]
    split <;> exact ⟨rfl, rfl, rfl, rfl⟩

variable {cfg d rely} {α β : Type} {w w' : World H}

private theorem same_of_reach (h : (watchdogHost cfg d).Reach rely w w') : Same w w' := by
  have hevent : ∀ v e, Same w v → rely.event v e → Same w ((watchdogHost cfg d).interfere v e) :=
    fun v e hv _ => hv.trans (same_interfere cfg d v e)
  exact h.invariant hevent ⟨rfl, rfl, rfl, rfl⟩

variable {post : α → World H → Prop}

private theorem follows_done {a : α} (h : post a w) : Follows cfg d rely post (.done a) w := h

private theorem follows_ask {q : Request} {next : Answer q → Code α}
    (h : ∀ w', Same w w' → ∀ r, Allowed cfg ⟨w'.state, q, r⟩ w'.log ∧
      Follows cfg d rely post (next (w'.perform cfg q r).2) (w'.perform cfg q r).1) :
    Follows cfg d rely post (.ask q next) w := by
  intro w' hreach r hr
  obtain ⟨hallowed, hnext⟩ := h w' (same_of_reach hreach) r
  exact ⟨⟨q, r, hr, hallowed, rfl⟩, hnext⟩

private theorem Follows.bind {post : β → World H → Prop} {mid : α → World H → Prop} {f : α → Code β} {p : Code α}
    (hp : Follows cfg d rely mid p w) (hf : ∀ a w, mid a w → Follows cfg d rely post (f a) w) :
    Follows cfg d rely post (p >>= f) w := Program.Safe.bind hp hf

private theorem Follows.mono {post post' : α → World H → Prop} {p : Code α} (hp : Follows cfg d rely post p w)
    (hpost : ∀ a w, post a w → post' a w) : Follows cfg d rely post' p w := Program.Safe.mono hp hpost

end Follows

def Request.isInner : Request → Bool
  | .latestIndexedBlock | .loadCursor | .readIndexerProgress | .touchCursor | .blockTimestamp _ | .advanceCursor _
      | .sleep =>
    false
  | _ => true

/-- The second world is later in the same cycle. -/
structure InCycle (w w' : World H) : Prop where
  cursor : w'.state.cursor = w.state.cursor
  polled : w'.state.polled = w.state.polled
  current : w'.state.current = w.state.current
  cycle : sinceStart w.log ⊆ sinceStart w'.log

section InCycle

variable {cfg : Config} {w w' v : World H}

private theorem InCycle.refl (w : World H) : InCycle w w := ⟨rfl, rfl, rfl, fun _ hx => hx⟩

private theorem InCycle.trans (h : InCycle w w') (h' : InCycle w' v) : InCycle w v :=
  ⟨h'.cursor.trans h.cursor, h'.polled.trans h.polled, h'.current.trans h.current, fun _ hx => h'.cycle (h.cycle hx)⟩

private theorem Same.inCycle (h : Same w w') : InCycle w w' := by
  refine ⟨h.cursor, h.polled, h.current, ?_⟩
  rw [h.log]
  exact fun _ hx => hx

theorem sinceStart_cons {x : Exchange H} {older : List (Exchange H)} (h : x.request.isStart = false) :
    sinceStart (x :: older) = x :: sinceStart older := by
  simp [sinceStart, h]

variable {q : Request}

private theorem Request.isInner.isStart (h : q.isInner = true) : q.isStart = false := by
  cases q <;> first | rfl | cases h

private theorem log_perform (w : World H) (q : Request) (r : Reply) :
    (w.perform cfg q r).1.log = ⟨w.state, q, r⟩ :: w.log := rfl

private theorem InCycle.perform (h : q.isInner = true) (w : World H) (r : Reply) : InCycle w (w.perform cfg q r).1 := by
  have hstate : (effect cfg w.state r q).1.cursor = w.state.cursor ∧
    (effect cfg w.state r q).1.polled = w.state.polled ∧
      (effect cfg w.state r q).1.current = w.state.current := by
    cases q with
    | savePagerState dedupKey state | clearPagerStates start =>
      simp only [effect, Reply.write]
      split <;> exact ⟨rfl, rfl, rfl⟩
    | _ => first | exact ⟨rfl, rfl, rfl⟩ | exact absurd h Bool.false_ne_true
  refine ⟨hstate.1, hstate.2.1, hstate.2.2, ?_⟩
  rw [log_perform, sinceStart_cons (Request.isInner.isStart h)]
  exact subset_cons_self _ _

private theorem mem_sinceStart_perform (h : q.isInner = true) (w : World H) (r : Reply) :
    ⟨w.state, q, r⟩ ∈ sinceStart (w.perform cfg q r).1.log := by
  rw [log_perform, sinceStart_cons (Request.isInner.isStart h)]
  exact mem_cons_self

variable {cycle cycle' : List (Exchange H)} {b : Nat}

theorem Anchored.mono {now : Int} (h : Anchored cycle b now) (hsub : cycle ⊆ cycle') : Anchored cycle' b now := by
  obtain ⟨x, hx, hdid, htime | ⟨hnone, y, hy, hlatest, htime⟩⟩ := h
  · exact ⟨x, hsub hx, hdid, .inl htime⟩
  · exact ⟨x, hsub hx, hdid, .inr ⟨hnone, y, hsub hy, hlatest, htime⟩⟩

theorem Evaluation.mono {breaches : List BreachEvent} (h : Evaluation cfg cycle b breaches) (hsub : cycle ⊆ cycle') :
    Evaluation cfg cycle' b breaches := by
  obtain ⟨now, hanchored, reads, hchecks, hreads, hbreaches⟩ := h
  refine ⟨now, hanchored.mono hsub, reads, hchecks, ?_, hbreaches⟩
  intro p hp
  obtain ⟨x, hx, hdid⟩ := hreads p hp
  exact ⟨x, hsub hx, hdid⟩

private theorem Delivered.mono {e : BreachEvent} (h : Delivered cfg cycle e) (hsub : cycle ⊆ cycle') :
    Delivered cfg cycle' e := by
  obtain ⟨x, hx, hdid⟩ | ⟨x, hx, hdid⟩ := h
  · exact .inl ⟨x, hsub hx, hdid⟩
  · exact .inr ⟨x, hsub hx, hdid⟩

private theorem PauseTried.mono (h : PauseTried cfg cycle) (hsub : cycle ⊆ cycle') : PauseTried cfg cycle' := by
  obtain ⟨x, hx, hpaused⟩ | hasked := h
  · exact .inl ⟨x, hsub hx, hpaused⟩
  refine .inr fun hpauser hgateway => ?_
  obtain ⟨x, hx, hpause⟩ := hasked hpauser hgateway
  exact ⟨x, hsub hx, hpause⟩

end InCycle

section Parts

variable {cfg : Config} {d : Indexer.Deployment H} [DecidableEq H] {rely : Rely Request (World H) Reply Interference}
    {w : World H}

variable {α : Type} {r : Reply} {b : Nat} {e : BreachEvent} {breaches : List BreachEvent}

theorem read_eq_ok {a a' : α} (h : r.read a = .ok a') : r.outcome = .ok ∧ a' = a := by
  unfold Reply.read at h
  split at h
  · rename_i hok
    cases h
    exact ⟨hok, rfl⟩
  · cases h

private theorem readNumber_eq_ok {n : Nat} (h : r.readNumber = .ok n) : r.outcome = .ok ∧ n = r.number := by
  unfold Reply.readNumber at h
  split at h
  · exact read_eq_ok h
  · cases h

theorem follows_inner {post : α → World H → Prop} {q : Request} {next : Answer q → Code α} (hq : q.isInner = true)
    (h : ∀ w', Same w w' → ∀ r, Allowed cfg ⟨w'.state, q, r⟩ w'.log ∧
    (InCycle w (w'.perform cfg q r).1 → ⟨w'.state, q, r⟩ ∈ sinceStart (w'.perform cfg q r).1.log →
      Follows cfg d rely post (next (w'.perform cfg q r).2) (w'.perform cfg q r).1)) :
    Follows cfg d rely post (.ask q next) w := by
  apply follows_ask
  intro w' hsame r
  obtain ⟨hallowed, hnext⟩ := h w' hsame r
  exact ⟨hallowed, hnext (hsame.inCycle.trans (.perform hq w' r)) (mem_sinceStart_perform hq w' r)⟩

/-- What is known when a block has been started. -/
structure Started (w w' : World H) (b : Nat) (now : Int) : Prop where
  cursor : w'.state.cursor = w.state.cursor
  polled : w'.state.polled = w.state.polled
  current : w'.state.current = some b
  anchored : Anchored (sinceStart w'.log) b now

private theorem follows_readAnchor (hnext : w.state.NextBlock b) :
    Follows cfg d rely (fun result w' => ∀ now, result = .ok now → Started w w' b now) (readAnchor b) w := by
  apply follows_ask
  intro w' hsame r
  refine ⟨hsame.nextBlock hnext, ?_⟩
  have hstart : ⟨w'.state, .blockTimestamp b, r⟩ ∈ sinceStart (w'.perform cfg (.blockTimestamp b) r).1.log := by
    simp [log_perform, sinceStart, Request.isStart]
  cases hread : (w'.perform cfg (.blockTimestamp b) r).2 with
  | error e => exact follows_done fun now h => nomatch h
  | ok timestamp =>
    obtain ⟨hok, rfl⟩ := read_eq_ok hread
    cases htime : w'.state.db.timestampOf b with
    | some timestamp =>
      apply follows_done
      rintro now ⟨⟩
      exact ⟨hsame.cursor, hsame.polled, rfl, _, hstart, ⟨rfl, hok⟩, .inl htime⟩
    | none =>
      refine follows_inner rfl fun v hv r' => ⟨trivial, fun hcycle hmem => ?_⟩
      cases hlatest : (v.perform cfg .latestBlockTimestamp r').2 with
      | error e => exact follows_done fun now h => nomatch h
      | ok latest =>
        obtain ⟨hok', rfl⟩ := read_eq_ok hlatest
        apply follows_done
        rintro now ⟨⟩
        refine ⟨hcycle.cursor.trans hsame.cursor, hcycle.polled.trans hsame.polled, hcycle.current, _,
          hcycle.cycle hstart, ⟨rfl, hok⟩, .inr ⟨htime, _, hmem, ⟨rfl, hok'⟩, rfl⟩⟩

private theorem follows_readBreaches (now : Int) (checks : List Check) (hcurrent : w.state.current = some b) :
    Follows cfg d rely (fun result w' => ∀ breaches, result = .ok breaches → InCycle w w' ∧
      ∃ reads : List (Check × Db H), reads.map Prod.fst = checks ∧
        (∀ p ∈ reads, ∃ x ∈ sinceStart w'.log, x.Did (.volume b now p.1) ∧ x.state.db = p.2) ∧
        breaches = reads.flatMap (cfg.breachOf b now)) (readBreaches cfg b now checks) w := by
  induction checks generalizing w with
  | nil =>
    apply follows_done
    rintro breaches ⟨⟩
    exact ⟨.refl w, [], rfl, by simp, rfl⟩
  | cons check rest ih =>
    refine follows_inner rfl fun v hv r => ⟨hv.current.trans hcurrent, fun hcycle hmem => ?_⟩
    cases hread : (v.perform cfg (.volume b now check) r).2 with
    | error e => exact follows_done fun breaches h => nomatch h
    | ok volume =>
      obtain ⟨hok, rfl⟩ := read_eq_ok hread
      refine (ih (hcycle.current.trans hcurrent)).bind ?_
      rintro (e | breaches) u hrest
      · exact follows_done fun breaches h => nomatch h
      · obtain ⟨hlater, reads, hchecks, hreads, rfl⟩ := hrest breaches rfl
        apply follows_done
        rintro _ ⟨⟩
        refine ⟨hcycle.trans hlater, (check, v.state.db) :: reads, by simp [hchecks], ?_, rfl⟩
        intro p hp
        obtain rfl | hp := mem_cons.mp hp
        · exact ⟨_, hlater.cycle hmem, ⟨rfl, hok⟩, rfl⟩
        · exact hreads p hp

theorem follows_commitPage {y : Exchange H} {older : List (Exchange H)} {sent : Fallible Unit} (pager : AlertPager)
    (now : Int) (hlog : w.log = y :: older) (hsent : sent.isOk = true → y.Did (.dispatchAlert e)) :
    Follows cfg d rely (fun _ w' => InCycle w w') (commitPage pager (volumeBreachDedupKey e) now .trigger sent) w := by
  unfold commitPage
  cases hok : sent.isOk with
  | false => exact follows_done (.refl w)
  | true =>
    simp only [AlertPager.onPageResult, ↓reduceIte]
    split
    · refine follows_inner rfl fun v hv r => ⟨?_, fun hcycle _ => follows_done hcycle⟩
      exact ⟨rfl, y, older, hv.log.trans hlog, .inl ⟨e, rfl, hsent hok⟩⟩
    · exact follows_done (.refl w)

private theorem onFiring_of_none {state : PagerState} (now : Int) (h : state.lastPagedAt = none) :
    (AlertPager.fromState breachRepageSecs state).onFiring now = .trigger := by
  simp [AlertPager.onFiring, AlertPager.blockedByRetryFloor, AlertPager.fromState, h]

private theorem exists_record {record : Option PagerState}
    (h : (knownState (r.read record)).firing = true ∨ (knownState (r.read record)).lastPagedAt ≠ none) :
    r.outcome = .ok ∧ record = some (knownState (r.read record)) := by
  unfold Reply.read at h ⊢
  split at h
  · rename_i hok
    cases record with
    | none => simp [knownState, PagerState.default] at h
    | some state => simp [hok, knownState]
  · simp [knownState, PagerState.default] at h

private theorem isOk_read {a : α} (h : Fallible.isOk (r.read a) = true) : r.outcome = .ok := by
  cases hread : r.read a with
  | ok a' => exact (read_eq_ok hread).1
  | error e =>
    rw [hread] at h
    cases h

private theorem follows_dispatchAlert {state : PagerState} {y : Exchange H} {older : List (Exchange H)} (now : Int)
    (heval : Evaluation cfg (sinceStart w.log) b breaches) (he : e ∈ breaches) (hlog : w.log = y :: older)
    (hload : y.request = .loadPagerState (volumeBreachDedupKey e))
    (hquiet : y.reply.outcome = .ok → ((y.record cfg (volumeBreachDedupKey e)).getD .default).firing = false) :
    Follows cfg d rely (fun n w' => InCycle w w' ∧ (n = 0 → Delivered cfg (sinceStart w'.log) e))
      (.ask (.dispatchAlert e) fun sent =>
        commitPage (.fromState breachRepageSecs state) (volumeBreachDedupKey e) now .trigger sent >>= fun _ =>
          .done (if sent.isOk then 0 else 1)) w := by
  refine follows_inner rfl fun v hv r => ⟨?_, fun hcycle hsent => ?_⟩
  · refine ⟨⟨b, breaches, ?_, he⟩, y, older, hv.log.trans hlog, hload, hquiet⟩
    rw [hv.log]
    exact heval
  · refine (follows_commitPage (.fromState breachRepageSecs state) now (log_perform ..)
      fun hok => ⟨rfl, isOk_read hok⟩).bind ?_
    intro _ u hu
    refine follows_done ⟨hcycle.trans hu, fun hn => ?_⟩
    have hok : Fallible.isOk (v.perform cfg (.dispatchAlert e) r).2 = true := by
      by_contra hno
      rw [if_neg hno] at hn
      cases hn
    exact .inl ⟨_, hu.cycle hsent, rfl, isOk_read hok⟩

theorem follows_dispatchBreach (now : Int) (heval : Evaluation cfg (sinceStart w.log) b breaches) (he : e ∈ breaches) :
    Follows cfg d rely (fun n w' =>
      InCycle w w' ∧ (n = 0 → Delivered cfg (sinceStart w'.log) e)) (dispatchBreach now e) w := by
  refine follows_inner rfl fun v hv r => ⟨trivial, fun hcycle hmem => ?_⟩
  generalize hstate : knownState (v.perform cfg (.loadPagerState (volumeBreachDedupKey e)) r).2 = state
  have hfound : state.firing = true ∨ state.lastPagedAt ≠ none →
      Delivered cfg (sinceStart (v.perform cfg (.loadPagerState (volumeBreachDedupKey e)) r).1.log) e := by
    intro hset
    rw [← hstate] at hset
    obtain ⟨hok, hrecord⟩ := exists_record hset
    exact .inr ⟨_, hmem, ⟨rfl, hok⟩, _, hrecord, hset⟩
  unfold sendBreach
  split
  · rename_i hfiring
    exact follows_done ⟨hcycle, fun _ => hfound (.inl hfiring)⟩
  split
  · rename_i hfiring haction
    exact follows_done ⟨hcycle, fun _ => hfound (.inr fun hnone => haction (onFiring_of_none now hnone))⟩
  rename_i hfiring haction
  refine (follows_dispatchAlert now (heval.mono hcycle.cycle) he (log_perform ..) rfl ?_).mono ?_
  · intro hok
    have hknown : knownState (v.perform cfg (.loadPagerState (volumeBreachDedupKey e)) r).2 =
        (loadPagerState v.state.pager cfg.chainId (volumeBreachDedupKey e)).getD .default := by
      simp only [World.perform, effect, Reply.read, show r.outcome = .ok from hok, ↓reduceIte, knownState]
    simpa [Exchange.record, ← hknown, hstate] using hfiring
  · rintro n u ⟨hlater, hdelivered⟩
    exact ⟨hcycle.trans hlater, hdelivered⟩

private theorem follows_dispatchAlerts (now : Int) (heval : Evaluation cfg (sinceStart w.log) b breaches)
    (es : List BreachEvent) (hes : es ⊆ breaches) :
    Follows cfg d rely (fun n w' => InCycle w w' ∧ (n = 0 → ∀ e ∈ es, Delivered cfg (sinceStart w'.log) e))
      (dispatchAlerts now es) w := by
  induction es generalizing w with
  | nil => exact follows_done ⟨.refl w, fun _ e he => nomatch he⟩
  | cons e rest ih =>
    refine (follows_dispatchBreach now heval (hes mem_cons_self)).bind ?_
    rintro n v ⟨hcycle, hfirst⟩
    refine (ih (heval.mono hcycle.cycle) fun x hx => hes (mem_cons_of_mem _ hx)).bind ?_
    rintro m u ⟨hlater, hrest⟩
    refine follows_done ⟨hcycle.trans hlater, ?_⟩
    intro hsum x hx
    obtain rfl | hx := mem_cons.mp hx
    · exact (hfirst (by omega)).mono hlater.cycle
    · exact hrest (by omega) x hx

theorem follows_triggerPause : Follows cfg d rely (fun sent w' => InCycle w w' ∧ (∃ x ∈ sinceStart w'.log, x.IsPause) ∧
      (sent = true → ∃ y older nonce gasPrice, w'.log = y :: older ∧ y.Did (.sendPause nonce gasPrice)))
      (triggerPause cfg) w := by
  refine follows_inner rfl fun v hv r => ⟨trivial, fun hcycle hmem => ?_⟩
  cases hread : (v.perform cfg .ethGetTransactionCount r).2 with
  | error e => exact follows_done ⟨hcycle, ⟨_, hmem, .inr ⟨.inl rfl, hread⟩⟩, fun h => nomatch h⟩
  | ok nonce =>
    obtain ⟨hok, rfl⟩ := readNumber_eq_ok hread
    refine follows_inner rfl fun u hu r' => ⟨trivial, fun hcycle' hmem' => ?_⟩
    cases hread' : (u.perform cfg .ethGasPrice r').2 with
    | error e => exact follows_done ⟨hcycle.trans hcycle', ⟨_, hmem', .inr ⟨.inr rfl, hread'⟩⟩, fun h => nomatch h⟩
    | ok gasPrice =>
      obtain ⟨hok', rfl⟩ := readNumber_eq_ok hread'
      refine follows_inner rfl fun z hz r'' => ⟨?_, fun hcycle'' hmem'' => ?_⟩
      · exact ⟨_, _, _, hz.log.trans (congrArg _ hu.log), ⟨rfl, hok'⟩, ⟨rfl, hok⟩, rfl, rfl⟩
      · refine follows_done ⟨(hcycle.trans hcycle').trans hcycle'', ⟨_, hmem'', .inl ⟨_, _, rfl⟩⟩, ?_⟩
        intro hsent
        exact ⟨_, _, _, _, log_perform .., rfl, isOk_read hsent⟩

private theorem follows_sendPauseOnce (b : Nat) (now : Int) (undelivered : Nat) (submitted : Bool) :
    Follows cfg d rely (fun _ w' => InCycle w w' ∧ PauseTried cfg (sinceStart w'.log))
      (sendPauseOnce cfg b now undelivered submitted) w := by
  have htrigger : Follows cfg d rely (fun sent w' => InCycle w w' ∧ PauseTried cfg (sinceStart w'.log) ∧
      (sent = true → ∃ y older nonce gasPrice, w'.log = y :: older ∧ y.Did (.sendPause nonce gasPrice)))
      (triggerPauseOnce cfg) w := by
    unfold triggerPauseOnce
    split
    · refine follows_triggerPause.mono ?_
      rintro sent w' ⟨hcycle, htried, hsent⟩
      exact ⟨hcycle, .inr fun _ _ => htried, hsent⟩
    rename_i hsome
    refine follows_done ⟨.refl w, .inr ?_, fun h => nomatch h⟩
    intro hpauser hgateway
    exact absurd (by simp [hpauser, hgateway]) hsome
  refine htrigger.bind ?_
  rintro sent v ⟨hcycle, htried, hsent⟩
  split
  · rename_i hrecorded
    simp only [Bool.and_eq_true] at hrecorded
    obtain ⟨y, older, nonce, gasPrice, hlog, hdid⟩ := hsent hrecorded.1.1
    refine follows_inner rfl fun u hu r => ⟨?_, fun hlater _ => ?_⟩
    · exact ⟨rfl, y, older, hu.log.trans hlog, .inr ⟨b, nonce, gasPrice, rfl, hdid⟩⟩
    · exact follows_done ⟨hcycle.trans hlater, htried.mono hlater.cycle⟩
  · exact follows_done ⟨hcycle, htried⟩

private theorem follows_pauseConfirmedOnChain :
    Follows cfg d rely (fun landed w' => InCycle w w' ∧ (landed = true → PauseTried cfg (sinceStart w'.log)))
      (pauseConfirmedOnChain cfg) w := by
  unfold pauseConfirmedOnChain
  split
  · refine follows_inner rfl fun v hv r => ⟨trivial, fun hcycle hmem => ?_⟩
    cases hread : (v.perform cfg .depositsPaused r).2 with
    | error e => exact follows_done ⟨hcycle, fun h => nomatch h⟩
    | ok paused =>
      obtain ⟨hok, rfl⟩ := read_eq_ok hread
      exact follows_done ⟨hcycle, fun hflag => .inl ⟨_, hmem, ⟨rfl, hok⟩, hflag⟩⟩
  · exact follows_done ⟨.refl w, fun h => nomatch h⟩

theorem follows_pauseBreach (b : Nat) (now : Int) (undelivered : Nat) : Follows cfg d rely (fun _ w' =>
      InCycle w w' ∧ PauseTried cfg (sinceStart w'.log)) (pauseBreach cfg b now undelivered) w := by
  refine follows_inner rfl fun v hv r => ⟨trivial, fun hcycle _ => ?_⟩
  generalize submittedBefore (v.perform cfg (.loadPagerState (volumeBreachPauseKey cfg.chainId b)) r).2 = submitted
  have hlanded : ∀ u : World H, Follows cfg d rely (fun landed w' => InCycle u w' ∧
      (landed = true → PauseTried cfg (sinceStart w'.log)))
      (if submitted then pauseConfirmedOnChain cfg else .done false) u := by
    intro u
    cases submitted with
    | true => exact follows_pauseConfirmedOnChain
    | false => exact follows_done ⟨.refl u, fun h => nomatch h⟩
  refine (hlanded _).bind ?_
  rintro (_ | _) u ⟨hlater, htried⟩
  · refine (follows_sendPauseOnce b now undelivered submitted).mono ?_
    rintro _ z ⟨hlast, htried⟩
    exact ⟨(hcycle.trans hlater).trans hlast, htried⟩
  · exact follows_done ⟨hcycle.trans hlater, htried rfl⟩

private theorem follows_dispatch (heval : Evaluation cfg (sinceStart w.log) b breaches) :
    Follows cfg d rely (fun result w' => InCycle w w' ∧
      ((∀ kinds, result ≠ .breachUndelivered kinds) → Completed cfg (sinceStart w'.log) b))
          (dispatch cfg b breaches) w := by
  refine follows_inner rfl fun v hv r => ⟨trivial, fun hcycle _ => ?_⟩
  have halerts : ∀ (now : Int) (u : World H), Evaluation cfg (sinceStart u.log) b breaches →
      Follows cfg d rely (fun n w' => InCycle u w' ∧
        (n = 0 → cfg.alerts = true → ∀ e ∈ breaches, Delivered cfg (sinceStart w'.log) e))
        (if cfg.alerts then dispatchAlerts now breaches else .done 0) u := by
    intro now u hu
    split
    · refine (follows_dispatchAlerts now hu breaches fun _ he => he).mono ?_
      rintro n z ⟨hlater, hdelivered⟩
      exact ⟨hlater, fun hn _ => hdelivered hn⟩
    rename_i hoff
    exact follows_done ⟨.refl u, fun _ hon => absurd hon hoff⟩
  have hpause : ∀ (now : Int) (undelivered : Nat) (u : World H), Follows cfg d rely (fun _ w' => InCycle u w' ∧
      (cfg.mode.includesPause = true → PauseTried cfg (sinceStart w'.log)))
      (if cfg.mode.includesPause then pauseBreach cfg b now undelivered else .done ()) u := by
    intro now undelivered u
    split
    · refine (follows_pauseBreach b now undelivered).mono ?_
      rintro _ z ⟨hlater, htried⟩
      exact ⟨hlater, fun _ => htried⟩
    rename_i hoff
    exact follows_done ⟨.refl u, fun hon => absurd hon hoff⟩
  refine (halerts _ _ (heval.mono hcycle.cycle)).bind ?_
  rintro undelivered u ⟨hsent, hdelivered⟩
  refine (hpause _ undelivered u).bind ?_
  rintro _ z ⟨hpaused, htried⟩
  refine follows_done ⟨(hcycle.trans hsent).trans hpaused, fun hresult => ?_⟩
  have hzero : undelivered = 0 := by
    by_contra hne
    exact hresult (breaches.map BreachEvent.kind) (if_pos (Nat.pos_of_ne_zero hne))
  refine ⟨breaches, heval.mono ((hcycle.trans hsent).trans hpaused).cycle, ?_, fun hon _ => htried hon⟩
  intro hon e he
  exact (hdelivered hzero hon e he).mono hpaused.cycle

theorem follows_runCycle (hnext : w.state.NextBlock b) : Follows cfg d rely (fun result w' =>
      ∀ outcome, result = .ok outcome → (∀ kinds, outcome ≠ .breachUndelivered kinds) →
      w'.state.cursor = w.state.cursor ∧ w'.state.polled = w.state.polled ∧ w'.state.current = some b ∧
        Completed cfg (sinceStart w'.log) b) (runCycle cfg b) w := by
  refine (follows_readAnchor hnext).bind ?_
  rintro (e | now) v hanchor
  · exact follows_done fun outcome h => nomatch h
  · have hstarted := hanchor now rfl
    refine (follows_readBreaches now cfg.checks hstarted.current).bind ?_
    rintro (e | breaches) u hreads
    · exact follows_done fun outcome h => nomatch h
    · obtain ⟨hcycle, reads, hchecks, hreads, hbreaches⟩ := hreads breaches rfl
      have heval : Evaluation cfg (sinceStart u.log) b breaches :=
        ⟨now, hstarted.anchored.mono hcycle.cycle, reads, hchecks, hreads, hbreaches⟩
      dsimp only
      split
      · rename_i hempty
        apply follows_done
        rintro outcome - -
        refine ⟨hcycle.cursor.trans hstarted.cursor, hcycle.polled.trans hstarted.polled,
          hcycle.current.trans hstarted.current, breaches, heval, ?_, fun _ hne => absurd hempty hne⟩
        intro _ e he
        simp [hempty] at he
      refine (follows_dispatch heval).bind ?_
      rintro result z ⟨hlater, hcompleted⟩
      apply follows_done
      rintro outcome ⟨⟩ hresult
      have hlast := hcycle.trans hlater
      exact ⟨hlast.cursor.trans hstarted.cursor, hlast.polled.trans hstarted.polled,
        hlast.current.trans hstarted.current, hcompleted hresult⟩

/-- What the loop of a poll needs before its next block; `n` blocks are left. -/
def Ready (s : State H) (b n : Nat) : Prop := n = 0 ∨ s.NextBlock b ∧ (s.cursor = none → n = 1)

theorem follows_advanceCursor {post : α → World H → Prop} {b n : Nat} {next : Answer (.advanceCursor b) → Code α}
    (hready : Ready w.state b (n + 1)) (hcurrent : w.state.current = some b)
    (hcompleted : Completed cfg (sinceStart w.log) b) (herror : ∀ e w', Follows cfg d rely post (next (.error e)) w')
    (hnext : ∀ (a : Bool) (y : Exchange H) w', w'.log = y :: w.log → y.Did (.advanceCursor b) →
      Ready w'.state (b + 1) n → Follows cfg d rely post (next (.ok a)) w') :
    Follows cfg d rely post (.ask (.advanceCursor b) next) w := by
  apply follows_ask
  intro v hv r
  obtain hzero | ⟨hblock, hfirst⟩ := hready
  · cases hzero
  refine ⟨⟨hv.nextBlock hblock, hv.current.trans hcurrent, ?_⟩, ?_⟩
  · rw [hv.log]
    exact hcompleted
  · cases hread : (v.perform cfg (.advanceCursor b) r).2 with
    | error e => exact herror e _
    | ok refreshed =>
      obtain ⟨hok, -⟩ := read_eq_ok hread
      refine hnext refreshed ⟨v.state, .advanceCursor b, r⟩ _ (by rw [log_perform, hv.log]) ⟨rfl,
        hok⟩ (.inr ⟨.inr ⟨b, ?_, rfl⟩, ?_⟩)
      · simp [World.perform, effect, Reply.write, hok, State.advanceCursor]
      · simp [World.perform, effect, Reply.write, hok, State.advanceCursor]

private theorem follows_cyclesOver (n b : Nat) (all : List ThresholdKind) (hready : Ready w.state b n) :
    Follows cfg d rely (fun _ _ => True) (cyclesOver cfg (List.range' b n) all) w := by
  induction n generalizing w b all with
  | zero => exact follows_done trivial
  | succ n ih =>
    rw [range'_succ, cyclesOver]
    have hnext : w.state.NextBlock b := by
      obtain hzero | ⟨hnext, -⟩ := hready
      · cases hzero
      · exact hnext
    refine (follows_runCycle hnext).bind ?_
    rintro (e | outcome) v hcycle
    · exact follows_done trivial
    · have hready' : (∀ kinds, outcome ≠ .breachUndelivered kinds) → Ready v.state b (n + 1) := by
        intro hdelivered
        obtain ⟨hcursor, hpolled, -⟩ := hcycle outcome rfl hdelivered
        unfold Ready State.NextBlock at hready ⊢
        rw [hcursor, hpolled]
        exact hready
      cases outcome with
      | breachUndelivered kinds => exact follows_done trivial
      | breached kinds =>
        obtain ⟨-, -, hcurrent, hcompleted⟩ := hcycle _ rfl (by simp)
        refine follows_advanceCursor (hready' (by simp)) hcurrent hcompleted (fun _ _ => follows_done trivial) ?_
        intro _ y u hlog hdid hnext
        apply follows_ask
        intro z hz r
        refine ⟨⟨b, y, v.log, rfl, hz.log.trans hlog, hdid⟩, ih _ _ ?_⟩
        have hkeep : InCycle u (z.perform cfg (.clearPagerStates (volumeBreachBlockStart cfg.chainId b)) r).1 :=
          hz.inCycle.trans (.perform rfl z r)
        unfold Ready State.NextBlock at hnext ⊢
        rw [hkeep.cursor, hkeep.polled]
        exact hnext
      | ok | noData | indexerBehind =>
        obtain ⟨-, -, hcurrent, hcompleted⟩ := hcycle _ rfl (by simp)
        refine follows_advanceCursor (hready' (by simp)) hcurrent hcompleted (fun _ _ => follows_done trivial) ?_
        intro _ _ u _ _ hnext
        exact ih _ _ hnext

private theorem follows_runCyclesSinceCursor {head : Nat} (hpolled : w.state.polled = some head) :
    Follows cfg d rely (fun _ _ => True) (runCyclesSinceCursor cfg head) w := by
  apply follows_ask
  intro v hv r
  refine ⟨trivial, ?_⟩
  cases hread : (v.perform cfg .loadCursor r).2 with
  | error e => exact follows_done trivial
  | ok cursor =>
    obtain ⟨hok, rfl⟩ := read_eq_ok hread
    dsimp only
    split
    · rename_i hquiet
      apply follows_ask
      intro u hu r'
      refine ⟨trivial, ?_⟩
      cases hprogress : (u.perform cfg .readIndexerProgress r').2 with
      | error e => exact follows_done trivial
      | ok progress =>
        dsimp only
        split
        · exact follows_done trivial
        apply follows_ask
        intro z hz r''
        refine ⟨?_, ?_⟩
        · cases hcursor : v.state.cursor with
          | none => simp [hcursor] at hquiet
          | some c =>
            refine ⟨c, head, hz.cursor.trans (hu.cursor.trans hcursor),
              hz.polled.trans (hu.polled.trans (hv.polled.trans hpolled)), ?_⟩
            simp [hcursor] at hquiet
            omega
        · cases (z.perform cfg .touchCursor r'').2 with
          | error e => exact follows_done trivial
          | ok a => exact follows_done trivial
    rename_i hnew
    refine follows_cyclesOver _ _ _ (.inr ⟨?_, ?_⟩)
    · cases hcursor : v.state.cursor with
      | none => exact .inl ⟨hcursor, hv.polled.trans hpolled⟩
      | some c => exact .inr ⟨c, hcursor, rfl⟩
    · intro hnone
      have hcursor : v.state.cursor = none := hnone
      simp [hcursor]

private theorem follows_poll (w : World H) : Follows cfg d rely (fun _ _ => True) (poll cfg) w := by
  have hsleep : ∀ v : World H, Follows cfg d rely (fun _ _ => True) (.ask .sleep fun _ => .done ()) v :=
    fun v => follows_ask fun u _ r => ⟨trivial, follows_done trivial⟩
  apply follows_ask
  intro v hv r
  refine ⟨trivial, ?_⟩
  cases hread : (v.perform cfg .latestIndexedBlock r).2 with
  | error e => exact hsleep _
  | ok head =>
    obtain ⟨hok, rfl⟩ := read_eq_ok hread
    cases hhead : v.state.db.lastIndexedBlock with
    | none => exact hsleep _
    | some head =>
      refine (follows_runCyclesSinceCursor ?_).bind fun _ u _ => hsleep u
      simp [World.perform, effect, hok, hhead]

end Parts

section Runs

variable (cfg : Config) (d : Indexer.Deployment H) [DecidableEq H]

def Exchange.after (x : Exchange H) : State H := (effect cfg x.state x.reply x.request).1

def worldAfter (w₀ : World H) (actions : List (Action Reply Interference)) : World H :=
  (run ((watchdogHost cfg d).machine (poll cfg)) ⟨w₀, poll cfg⟩ actions).world

def RunMeets (rely : Rely Request (World H) Reply Interference) (w₀ : World H)
    (actions : List (Action Reply Interference)) :
    Prop :=
  Along ((watchdogHost cfg d).machine (poll cfg)) (fun s a => a.Meets rely s) ⟨w₀, poll cfg⟩ actions

variable {cfg d} {rely : Rely Request (World H) Reply Interference} {w₀ : World H}
    {actions : List (Action Reply Interference)}

theorem invariant_worldAfter (inv : World H → Prop) (hrun : RunMeets cfg d rely w₀ actions) (h₀ : inv w₀)
    (hevent : ∀ w e, inv w → rely.event w e → inv ((watchdogHost cfg d).interfere w e))
    (hrestart : ∀ w, inv w → inv ((watchdogHost cfg d).restart w))
    (hperform : ∀ w q r, inv w → rely.reply w q r → Allowed cfg ⟨w.state, q, r⟩ w.log → inv (w.perform cfg q r).1) :
    inv (worldAfter cfg d w₀ actions) := by
  refine (safe_run (fun w _ => follows_poll w) hevent hrestart ?_ h₀ hrun).1
  rintro w w' hw ⟨q, r, hr, hallowed, rfl⟩
  exact hperform w q r hw hr hallowed

end Runs

theorem db_effect (cfg : Config) (s : State H) (q : Request) (r : Reply) : (effect cfg s r q).1.db = s.db := by
  cases q <;> simp only [effect, Reply.write] <;> (try split) <;> rfl

theorem runMeets_of_replies {cfg : Config} {d : Indexer.Deployment H} [DecidableEq H]
    {rely : Rely Request (World H) Reply Interference}
    (hreply : ∀ w q r, rely.reply w q r) {actions : List (Action Reply Interference)}
    (h : ∀ a ∈ actions, ∀ e, a ≠ .event e) (w₀ : World H) : RunMeets cfg d rely w₀ actions := by
  refine along_of_meets fun a ha s => ?_
  cases a with
  | event e => exact absurd rfl (h _ ha e)
  | restart => trivial
  | reply r => exact meets_reply hreply s r

def anything : Rely Request (World H) Reply Interference := ⟨fun _ _ => True, fun _ _ _ => True⟩

private theorem runMeets_anything {cfg : Config} {d : Indexer.Deployment H} [DecidableEq H] (w₀ : World H)
    (actions : List (Action Reply Interference)) : RunMeets cfg d anything w₀ actions := by
  refine along_of_meets fun a _ s => ?_
  cases a with
  | event e => trivial
  | restart => trivial
  | reply r => exact meets_reply (fun _ _ _ => trivial) s r

theorem logged_worldAfter (cfg : Config) (d : Indexer.Deployment H) [DecidableEq H] {w₀ : World H} (hlog : w₀.log = [])
    (actions : List (Action Reply Interference)) : Logged (Allowed cfg) (worldAfter cfg d w₀ actions).log := by
  refine invariant_worldAfter (fun w =>
    Logged (Allowed cfg) w.log) (runMeets_anything w₀ actions) ?_ ?_ (fun w hw => hw)
    fun w q r hw _ hallowed => ⟨hallowed, hw⟩
  · rw [hlog]
    trivial
  · intro w e hw _
    rw [(same_interfere cfg d w e).log]
    exact hw

end RobotMoney.Watchdog
