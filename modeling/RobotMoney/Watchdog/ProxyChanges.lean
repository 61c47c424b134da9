import RobotMoney.Watchdog.Delivery

/-!
# Alerts on upgrades and freezes (`upgrade_monitor.rs`)

A pass reads the governed proxy events from the table of the indexer and pages those without a record.  A record is kept
under contract, block and log index, and for good.  As long as no other event takes the place of one with a record,
each event above the baseline that has a record was acknowledged with its own content (`changes_paged`); an event that a
reorg puts in the place of a paged one has its record and is never paged (`replaced_change_not_paged`).

The indexer appears as its writes, one by one: a tick is a list of them (`foldl_tickEvents`).
-/

open Effect

namespace RobotMoney.Watchdog

open Evm Indexer SqlTable List

variable {H : Type}

def hexText (width n : Nat) : Text :=
  "0x".toList ++ (List.range width).map fun i => Nat.digitChar (n / 16 ^ (width - 1 - i) % 16)

structure ProxyChange where
  chainId : Int
  contract : Text
  eventName : Text
  blockNumber : Nat
  logIndex : Nat
  txHash : Text
  implementation : Option Text
  codeHash : Option Text
  deriving DecidableEq, Repr

def ProxyChange.dedupKey (c : ProxyChange) : Text :=
  OtherPage.dedupKey c.chainId (.proxyChange c.contract c.blockNumber c.logIndex)

def ProxyChange.frozen (c : ProxyChange) : Bool := decide (c.eventName = "UpgradesFrozen".toList)

def ProxyChange.summary (c : ProxyChange) : Text :=
  let implementation := c.implementation.getD "unknown".toList
  let place := " (block ".toList ++ decimal c.blockNumber ++ ", chain ".toList ++ decimalInt c.chainId ++ ")".toList
  if c.frozen then
    "RobotMoney watchdog: core contract ".toList ++ c.contract ++
      " upgrades permanently frozen at implementation ".toList ++ implementation ++ place
  else
    "RobotMoney watchdog: core contract ".toList ++ c.contract ++ " UPGRADED to implementation ".toList ++
      implementation ++ place ++ " — verify it is the reviewed release and update every signing client's pin".toList

/-- `ProxyChangePayload`, without its constant fields. -/
structure ProxyChangePayload where
  dedupKey : Text
  summary : Text
  severity : Text
  alertKind : Text
  chainId : Int
  contract : Text
  eventName : Text
  blockNumber : Nat
  txHash : Text
  implementation : Option Text
  codeHash : Option Text
  deriving DecidableEq, Repr

/-- What `dispatch_proxy_change_alert` posts. -/
def ProxyChange.payload (c : ProxyChange) : ProxyChangePayload where
  dedupKey := c.dedupKey
  summary := c.summary
  severity := if c.frozen then "warning".toList else "critical".toList
  alertKind := if c.frozen then "proxy_upgrades_frozen".toList else "proxy_upgraded".toList
  chainId := c.chainId
  contract := c.contract
  eventName := c.eventName
  blockNumber := c.blockNumber
  txHash := c.txHash
  implementation := c.implementation
  codeHash := c.codeHash

/-- A field of `detail` that is a string. -/
def detailField (event : AdminEvent) (name : String) : Option Text :=
  match event.detail.lookup name with
  | some (.address a) => some (hexText 40 a.val)
  | some (.word w) => some (hexText 64 w.toNat)
  | _ => none

/-- The change that a row of `admin_events` stands for: a proxy event without the mark of a deployment. -/
def changeOf (chainId : Int) : EventRow → Option ProxyChange
  | .admin place contract event =>
    if event.contractKind = .proxy ∧ event.deployment = false then
      some ⟨chainId, hexText 40 contract.val, event.eventName.toList, place.blockNumber, place.logIndex,
        hexText 64 place.txHash.toNat, detailField event "implementation", detailField event "code_hash"⟩
    else none
  | _ => none

def governedProxyChanges (chainId : Int) (db : Db H) : List ProxyChange :=
  (db.log.tables.events.filterMap (changeOf chainId)).insertionSort fun a b =>
    toLex (a.blockNumber, a.logIndex) ≤ toLex (b.blockNumber, b.logIndex)

inductive ProxyRequest where
  /-- Whether the process has just started. -/
  | begin
  | unixNow
  | storedBaseline
  | ranBefore
  | maxIndexedBlock
  | insertBaseline (baseline : Int)
  | governedProxyChanges
  | loadPagerState (dedupKey : Text)
  | dispatch (payload : ProxyChangePayload)
  | savePagerState (dedupKey : Text) (state : PagerState)
  | sleep
  deriving DecidableEq, Repr

abbrev ProxyAnswer : ProxyRequest → Type
  | .begin => Bool
  | .unixNow => Int
  | .storedBaseline => Fallible (Option Int)
  | .ranBefore => Fallible Bool
  | .maxIndexedBlock => Fallible (Option Nat)
  | .governedProxyChanges => Fallible (List ProxyChange)
  | .loadPagerState _ => Fallible (Option PagerState)
  | .insertBaseline _ | .dispatch _ | .savePagerState .. => Fallible Unit
  | .sleep => Unit

structure ProxyState (H : Type) where
  db : Db H
  /-- `watchdog_cursor`. -/
  cursor : Option Nat
  /-- `watchdog_proxy_baseline`. -/
  baseline : Option Int
  pager : List PagerRow
  starting : Bool

structure ProxyExchange (H : Type) where
  state : ProxyState H
  request : ProxyRequest
  reply : Reply

structure ProxyWorld (H : Type) where
  state : ProxyState H
  log : List (ProxyExchange H)

inductive ProxyEvent (H : Type) where
  /-- The indexer does a write. -/
  | write (write : Write H)
  /-- The indexer records a run. -/
  | ran (head : Option Nat)
  /-- The cycles of the watchdog move the cursor. -/
  | advance (blockNumber : Nat)
  /-- Another watchdog takes the baseline. -/
  | baseline (baseline : Int)
  /-- Another monitor, or the watchdog of another chain, saves a record. -/
  | save (chainId : Int) (dedupKey : Text) (state : PagerState)
  /-- The records of a block are cleared. -/
  | clear (chainId : Int) (start : Text)

section Host

variable (chainId : Int)

def Reply.writeProxy (r : Reply) (s s' : ProxyState H) : ProxyState H := if r.outcome = .failed then s else s'

def proxyEffect (s : ProxyState H) (r : Reply) : (q : ProxyRequest) → ProxyState H × ProxyAnswer q
  | .begin => ({ s with starting := false }, s.starting)
  | .unixNow => (s, r.time)
  | .storedBaseline => (s, r.read s.baseline)
  | .ranBefore => (s, r.read (s.cursor.isSome || s.pager.any fun row => decide (row.chainId = chainId)))
  | .maxIndexedBlock => (s, r.read s.db.lastIndexedBlock)
  | .insertBaseline b => (r.writeProxy s { s with baseline := s.baseline.or (some b) }, r.read ())
  | .governedProxyChanges => (s, r.read (governedProxyChanges chainId s.db))
  | .loadPagerState dedupKey => (s, r.read (loadPagerState s.pager chainId dedupKey))
  | .dispatch _ => (s, r.read ())
  | .savePagerState dedupKey state =>
    (r.writeProxy s { s with pager := savePagerState s.pager chainId dedupKey state }, r.read ())
  | .sleep => (s, ())

def ProxyWorld.perform (w : ProxyWorld H) (q : ProxyRequest) (r : Reply) : ProxyWorld H × ProxyAnswer q :=
  (⟨(proxyEffect chainId w.state r q).1, ⟨w.state, q, r⟩ :: w.log⟩, (proxyEffect chainId w.state r q).2)

def ProxyState.interfere (s : ProxyState H) : ProxyEvent H → ProxyState H
  | .write write => { s with db := write.exec s.db }
  | .ran head => { s with db := { s.db with runs := s.db.runs ++ [head] } }
  | .advance blockNumber => { s with cursor := some blockNumber }
  | .baseline b => { s with baseline := s.baseline.or (some b) }
  | .save chainId dedupKey state => { s with pager := savePagerState s.pager chainId dedupKey state }
  | .clear chainId start => { s with pager := clearPagerStatesWithStart s.pager chainId start }

def proxyHost : Host ProxyRequest ProxyAnswer (ProxyWorld H) Reply (ProxyEvent H) where
  perform := ProxyWorld.perform chainId
  interfere w e := { w with state := w.state.interfere e }
  restart w := { w with state := { w.state with starting := true } }

end Host

abbrev ProxyCode := Program ProxyRequest ProxyAnswer

def keepBaseline (b : Int) : ProxyCode (Fallible (Option Int)) :=
  .ask (.insertBaseline b) fun
  | .error e => .done (.error e)
  | .ok _ => .ask .storedBaseline fun stored => .done stored

def proxyChangeBaseline : ProxyCode (Fallible (Option Int)) :=
  .ask .storedBaseline fun
  | .error e => .done (.error e)
  | .ok (some b) => .done (.ok (some b))
  | .ok none =>
    .ask .ranBefore fun
    | .error e => .done (.error e)
    | .ok true => keepBaseline (-1)
    | .ok false =>
      .ask .maxIndexedBlock fun
      | .error e => .done (.error e)
      | .ok none => .done (.ok none)
      | .ok (some head) => keepBaseline head

/-- The loop of `alert_new_proxy_changes`: how many changes it has paged. -/
def pageChanges (webhookUrl : Option Text) (now : Int) (baseline : Option Int) :
    List ProxyChange → ProxyCode (Fallible Nat)
  | [] => .done (.ok 0)
  | change :: rest =>
    .ask (.loadPagerState change.dedupKey) fun
    | .error e => .done (.error e)
    | .ok state =>
      if state.any PagerState.firing then pageChanges webhookUrl now baseline rest
      else if baseline.any fun b => decide ((change.blockNumber : Int) ≤ b) then
        .ask (.savePagerState change.dedupKey ⟨true, none⟩) fun
        | .error e => .done (.error e)
        | .ok _ => pageChanges webhookUrl now baseline rest
      else if webhookUrl.isSome then
        .ask (.dispatch change.payload) fun
        | .error _ => pageChanges webhookUrl now baseline rest
        | .ok _ =>
          .ask (.savePagerState change.dedupKey ⟨true, some now⟩) fun
          | .error e => .done (.error e)
          | .ok _ => pageChanges webhookUrl now baseline rest >>= fun paged => .done (paged.map (· + 1))
      else pageChanges webhookUrl now baseline rest

def usedBaseline : Fallible (Option Int) → Option Int
  | .ok b => b
  | .error _ => none

def alertNewProxyChanges (webhookUrl : Option Text) (now : Int) : ProxyCode (Fallible Nat) :=
  proxyChangeBaseline >>= fun baseline =>
    .ask .governedProxyChanges fun
    | .error e => .done (.error e)
    | .ok changes => pageChanges webhookUrl now (usedBaseline baseline) changes

/-- A turn of the main loop, as far as it looks at proxies; the baseline is taken at the start of the process. -/
def proxyTurn (webhookUrl : Option Text) : ProxyCode Unit :=
  .ask .begin fun starting =>
    (if starting then proxyChangeBaseline else .done (.ok none)) >>= fun _ =>
      .ask .unixNow fun now =>
        alertNewProxyChanges webhookUrl now >>= fun _ => .ask .sleep fun _ => .done ()

def proxyChangeStart : Text := "proxy_change:".toList

/-- A change of this chain, whose contract is a text without a colon. -/
structure ProxyChange.Of (c : ProxyChange) (chainId : Int) : Prop where
  chain : c.chainId = chainId
  contract : ':' ∉ c.contract

private theorem digitChar_ne_colon : ∀ n < 16, Nat.digitChar n ≠ ':' := by
  decide

private theorem colon_notMem_hexText (width n : Nat) : ':' ∉ hexText width n := by
  unfold hexText
  rw [mem_append, mem_map]
  rintro (hmem | ⟨i, -, hdigit⟩)
  · revert hmem
    decide
  · exact digitChar_ne_colon _ (Nat.mod_lt _ (by decide)) hdigit

private theorem of_mem_governedProxyChanges {chainId : Int} {db : Db H} {c : ProxyChange}
    (h : c ∈ governedProxyChanges chainId db) :
    c.Of chainId := by
  unfold governedProxyChanges at h
  rw [mem_insertionSort, mem_filterMap] at h
  obtain ⟨row, -, hrow⟩ := h
  unfold changeOf at hrow
  split at hrow
  · split at hrow
    · cases hrow
      exact ⟨rfl, colon_notMem_hexText _ _⟩
    · cases hrow
  · cases hrow

section Keys

variable {chainId : Int} {c c' : ProxyChange}

private theorem ProxyChange.dedupKey_eq (c : ProxyChange) : c.dedupKey = proxyChangeStart ++ (decimalInt c.chainId ++
    ':' :: (c.contract ++ ':' :: (decimal c.blockNumber ++ ':' :: decimal c.logIndex))) :=
  append_assoc _ _ _

private theorem proxyChangeStart_isPrefix (c : ProxyChange) : proxyChangeStart <+: c.dedupKey := by
  rw [c.dedupKey_eq]
  exact ⟨_, rfl⟩

private theorem not_isPrefix_of_volumeBreach {start : Text} (h : "volume_breach:".toList <+: start) :
    ¬ start <+: c.dedupKey := by
  intro hstart
  obtain ⟨rest, hrest⟩ := h.trans hstart
  obtain ⟨tail, htail⟩ := proxyChangeStart_isPrefix c
  rw [← htail] at hrest
  exact absurd (cons.inj hrest).1 (by decide)

private theorem blockNumber_eq_of_dedupKey (hc : c.Of chainId) (hc' : c'.Of chainId) (h : c.dedupKey = c'.dedupKey) :
    c.blockNumber = c'.blockNumber := by
  rw [c.dedupKey_eq, c'.dedupKey_eq, hc.chain, hc'.chain, append_cancel_left_eq, append_cancel_left_eq] at h
  obtain ⟨-, hplace⟩ := append_delimiter_inj hc.contract hc'.contract (cons.inj h).2
  obtain ⟨hblock, -⟩ := append_delimiter_inj (colon_notMem_decimal _) (colon_notMem_decimal _) hplace
  exact decimal_injective hblock

end Keys

def isRecorded (chainId : Int) (pager : List PagerRow) (dedupKey : Text) : Bool :=
  (loadPagerState pager chainId dedupKey).any PagerState.firing

def ProxyExchange.Did (x : ProxyExchange H) (q : ProxyRequest) : Prop := x.request = q ∧ x.reply.outcome = .ok

instance (x : ProxyExchange H) (q : ProxyRequest) : Decidable (x.Did q) := inferInstanceAs (Decidable (_ ∧ _))

def ProxyExchange.Failed (x : ProxyExchange H) : Prop := x.reply.outcome ≠ .ok ∧ ∀ p, x.request ≠ .dispatch p

def sincePass : List (ProxyExchange H) → List (ProxyExchange H)
  | [] => []
  | x :: older => if x.request = .governedProxyChanges then [x] else x :: sincePass older

/-- The pass has sent a change, has found a record of it, or it is not above the baseline. -/
def Settled (chainId : Int) (s : ProxyState H) (pass : List (ProxyExchange H)) (c : ProxyChange) : Prop :=
  (∃ x ∈ pass, x.request = .dispatch c.payload) ∨
    (∃ x ∈ pass, x.Did (.loadPagerState c.dedupKey) ∧ isRecorded chainId x.state.pager c.dedupKey = true) ∨
    ∃ b, s.baseline = some b ∧ (c.blockNumber : Int) ≤ b

/-- The pass has settled every row that it has read, or a read or a write has failed. -/
def PassDone (chainId : Int) (s : ProxyState H) (pass : List (ProxyExchange H)) : Prop :=
  (∃ x ∈ pass, x.Failed) ∨
    ∃ x ∈ pass, x.Did .governedProxyChanges ∧ ∀ c ∈ governedProxyChanges chainId x.state.db, Settled chainId s pass c

def ProxyAllowed (chainId : Int) (x : ProxyExchange H) (older : List (ProxyExchange H)) : Prop :=
  match x.request with
  | .dispatch payload =>
    ∃ c : ProxyChange, c.Of chainId ∧ payload = c.payload ∧ isRecorded chainId x.state.pager c.dedupKey = false
  | .savePagerState dedupKey state =>
    state.firing = true ∧ ∃ c : ProxyChange, c.Of chainId ∧ dedupKey = c.dedupKey ∧
      ((∃ y older', older = y :: older' ∧ y.Did (.dispatch c.payload)) ∨
        ∃ b, x.state.baseline = some b ∧ (c.blockNumber : Int) ≤ b)
  | .sleep => PassDone chainId x.state (sincePass older)
  | _ => True

/-- Of an event of another party: the records of this chain's proxies are left to this watchdog. -/
def ProxyEvent.Foreign (chainId : Int) : ProxyEvent H → Prop
  | .save chainId' dedupKey _ => chainId' ≠ chainId ∨ ¬ proxyChangeStart <+: dedupKey
  | .clear chainId' start => chainId' ≠ chainId ∨ "volume_breach:".toList <+: start
  | _ => True

section Follows

variable (chainId : Int) (rely : Rely ProxyRequest (ProxyWorld H) Reply (ProxyEvent H))

def ProxyAsked (w w' : ProxyWorld H) : Prop :=
  ∃ q r, rely.reply w q r ∧ ProxyAllowed chainId ⟨w.state, q, r⟩ w.log ∧ w' = (w.perform chainId q r).1

/-- The program asks only what is allowed, and its result is as `post` says. -/
def ProxyFollows {α : Type} (post : α → ProxyWorld H → Prop) (p : ProxyCode α) (w : ProxyWorld H) : Prop :=
  p.Safe (proxyHost chainId) rely (ProxyAsked chainId rely) post w

/-- What the events of other parties leave as it is. -/
structure Quiet (w w' : ProxyWorld H) : Prop where
  log : w'.log = w.log
  baseline : ∀ b, w.state.baseline = some b → w'.state.baseline = some b
  records : ∀ c : ProxyChange,
    isRecorded chainId w'.state.pager c.dedupKey = isRecorded chainId w.state.pager c.dedupKey

/-- The second world is later in the same pass. -/
structure InPass (w w' : ProxyWorld H) : Prop where
  baseline : ∀ b, w.state.baseline = some b → w'.state.baseline = some b
  pass : sincePass w.log ⊆ sincePass w'.log

variable {chainId rely} {α β : Type} {w w' v : ProxyWorld H}

private theorem isRecorded_save {pager : List PagerRow} {chainId' : Int} {dedupKey key : Text} {state : PagerState}
    (h : ¬ (chainId' = chainId ∧ key = dedupKey)) :
    isRecorded chainId (savePagerState pager chainId' key state) dedupKey = isRecorded chainId pager dedupKey := by
  rw [isRecorded, loadPagerState_save, if_neg h, isRecorded]

private theorem quiet_interfere (w : ProxyWorld H) {e : ProxyEvent H} (he : e.Foreign chainId) :
    Quiet chainId w ((proxyHost chainId).interfere w e) := by
  cases e with
  | baseline b' =>
    refine ⟨rfl, fun b hb => ?_, fun _ => rfl⟩
    simp [proxyHost, ProxyState.interfere, hb]
  | save chainId' key state =>
    refine ⟨rfl, fun _ hb => hb, fun c => isRecorded_save ?_⟩
    rintro ⟨hchain, rfl⟩
    obtain hne | hkey := he
    · exact hne hchain
    · exact hkey (proxyChangeStart_isPrefix c)
  | clear chainId' start =>
    refine ⟨rfl, fun _ hb => hb, fun c => ?_⟩
    have hother : ¬ (chainId' = chainId ∧ start <+: c.dedupKey) := by
      rintro ⟨hchain, hstart⟩
      obtain hne | hkey := he
      · exact hne hchain
      · exact not_isPrefix_of_volumeBreach hkey hstart
    simp only [proxyHost, ProxyState.interfere, isRecorded, loadPagerState_clear hother]
  | _ => exact ⟨rfl, fun _ hb => hb, fun _ => rfl⟩

theorem quiet_of_reach (hrely : ∀ w e, rely.event w e → e.Foreign chainId) (h : (proxyHost chainId).Reach rely w w') :
    Quiet chainId w w' := by
  have hevent : ∀ v e, Quiet chainId w v → rely.event v e → Quiet chainId w ((proxyHost chainId).interfere v e) := by
    intro v e hv he
    have hquiet := quiet_interfere v (hrely v e he)
    exact ⟨hquiet.log.trans hv.log, fun b hb => hquiet.baseline b (hv.baseline b hb),
      fun c => (hquiet.records c).trans (hv.records c)⟩
  exact h.invariant hevent ⟨rfl, fun _ hb => hb, fun _ => rfl⟩

theorem baseline_perform (w : ProxyWorld H) (q : ProxyRequest) (r : Reply) {b : Int} (hb : w.state.baseline = some b) :
    (w.perform chainId q r).1.state.baseline = some b := by
  cases q with
  | insertBaseline b' =>
    simp only [ProxyWorld.perform, proxyEffect, Reply.writeProxy]
    split
    · exact hb
    · simp [hb]
  | savePagerState dedupKey state =>
    simp only [ProxyWorld.perform, proxyEffect, Reply.writeProxy]
    split <;> exact hb
  | _ => exact hb

private theorem InPass.trans (h : InPass w w') (h' : InPass w' v) : InPass w v :=
  ⟨fun b hb => h'.baseline b (h.baseline b hb), fun _ hx => h'.pass (h.pass hx)⟩

private theorem Quiet.inPass (h : Quiet chainId w w') : InPass w w' := by
  refine ⟨h.baseline, ?_⟩
  rw [h.log]
  exact fun _ hx => hx

variable {q : ProxyRequest}

private theorem sincePass_perform (hq : q ≠ .governedProxyChanges) (w : ProxyWorld H) (r : Reply) :
    sincePass (w.perform chainId q r).1.log = ⟨w.state, q, r⟩ :: sincePass w.log := if_neg hq

private theorem InPass.perform (hq : q ≠ .governedProxyChanges) (w : ProxyWorld H) (r : Reply) :
    InPass w (w.perform chainId q r).1 := by
  refine ⟨fun b => baseline_perform w q r, ?_⟩
  rw [sincePass_perform hq]
  exact subset_cons_self _ _

variable {post : α → ProxyWorld H → Prop}

theorem proxyFollows_done {a : α} (h : post a w) : ProxyFollows chainId rely post (.done a) w := h

theorem proxyFollows_ask (hrely : ∀ w e, rely.event w e → e.Foreign chainId) {next : ProxyAnswer q → ProxyCode α}
    (h : ∀ w', Quiet chainId w w' → ∀ r, ProxyAllowed chainId ⟨w'.state, q, r⟩ w'.log ∧
      ProxyFollows chainId rely post (next (w'.perform chainId q r).2) (w'.perform chainId q r).1) :
    ProxyFollows chainId rely post (.ask q next) w := by
  intro w' hreach r hr
  obtain ⟨hallowed, hnext⟩ := h w' (quiet_of_reach hrely hreach) r
  exact ⟨⟨q, r, hr, hallowed, rfl⟩, hnext⟩

private theorem ProxyFollows.bind {post : β → ProxyWorld H → Prop} {mid : α → ProxyWorld H → Prop}
    {f : α → ProxyCode β} {p : ProxyCode α}
    (hp : ProxyFollows chainId rely mid p w) (hf : ∀ a w, mid a w → ProxyFollows chainId rely post (f a) w) :
    ProxyFollows chainId rely post (p >>= f) w := Program.Safe.bind hp hf

theorem ProxyFollows.mono {post' : α → ProxyWorld H → Prop} {p : ProxyCode α} (hp : ProxyFollows chainId rely post p w)
    (hpost : ∀ a w, post a w → post' a w) : ProxyFollows chainId rely post' p w := Program.Safe.mono hp hpost

end Follows

section Pass

variable {chainId : Int} {rely : Rely ProxyRequest (ProxyWorld H) Reply (ProxyEvent H)} {w v : ProxyWorld H}
variable (hrely : ∀ w e, rely.event w e → e.Foreign chainId)

def Stored (result : Fallible (Option Int)) (w : ProxyWorld H) : Prop :=
  ∀ b, usedBaseline result = some b → w.state.baseline = some b

private theorem stored_error (w : ProxyWorld H) : Stored (.error ()) w := fun _ hb => nomatch hb

private theorem stored_read (w : ProxyWorld H) (r : Reply) :
    Stored (r.read w.state.baseline) (w.perform chainId .storedBaseline r).1 := by
  intro b hb
  unfold Reply.read at hb
  split at hb
  · exact hb
  · cases hb

include hrely

private theorem proxyFollows_keepBaseline (b : Int) : ProxyFollows chainId rely Stored (keepBaseline b) w := by
  refine proxyFollows_ask hrely fun v _ r => ⟨trivial, ?_⟩
  cases (v.perform chainId (.insertBaseline b) r).2 with
  | error e => exact proxyFollows_done (stored_error _)
  | ok a => exact proxyFollows_ask hrely fun u _ r' => ⟨trivial, proxyFollows_done (stored_read u r')⟩

private theorem proxyFollows_proxyChangeBaseline : ProxyFollows chainId rely Stored proxyChangeBaseline w := by
  refine proxyFollows_ask hrely fun v _ r => ⟨trivial, ?_⟩
  have hstored : Stored (v.perform chainId .storedBaseline r).2 (v.perform chainId .storedBaseline r).1 :=
    stored_read v r
  cases hread : (v.perform chainId .storedBaseline r).2 with
  | error e => exact proxyFollows_done (stored_error _)
  | ok stored =>
    rw [hread] at hstored
    cases stored with
    | some b => exact proxyFollows_done hstored
    | none =>
      refine proxyFollows_ask hrely fun u _ r' => ⟨trivial, ?_⟩
      cases (u.perform chainId .ranBefore r').2 with
      | error e => exact proxyFollows_done (stored_error _)
      | ok ran =>
        cases ran with
        | true => exact proxyFollows_keepBaseline hrely _
        | false =>
          refine proxyFollows_ask hrely fun z _ r'' => ⟨trivial, ?_⟩
          cases (z.perform chainId .maxIndexedBlock r'').2 with
          | error e => exact proxyFollows_done (stored_error _)
          | ok head =>
            cases head with
            | none => exact proxyFollows_done fun _ hb => nomatch hb
            | some head => exact proxyFollows_keepBaseline hrely _

omit hrely

private theorem Settled.later (h : InPass w v) {c : ProxyChange} (hc : Settled chainId w.state (sincePass w.log) c) :
    Settled chainId v.state (sincePass v.log) c := by
  obtain ⟨x, hx, hsent⟩ | ⟨x, hx, hfound⟩ | ⟨b, hb, hle⟩ := hc
  · exact .inl ⟨x, h.pass hx, hsent⟩
  · exact .inr (.inl ⟨x, h.pass hx, hfound⟩)
  · exact .inr (.inr ⟨b, h.baseline b hb, hle⟩)

private theorem PassDone.later (h : InPass w v) (hdone : PassDone chainId w.state (sincePass w.log)) :
    PassDone chainId v.state (sincePass v.log) := by
  obtain ⟨x, hx, hfailed⟩ | ⟨x, hx, hread, hall⟩ := hdone
  · exact .inl ⟨x, h.pass hx, hfailed⟩
  · exact .inr ⟨x, h.pass hx, hread, fun c hc => (hall c hc).later h⟩

def Paged (chainId : Int) (w : ProxyWorld H) (changes : List ProxyChange) (v : ProxyWorld H) : Prop :=
  InPass w v ∧ ((∃ x ∈ sincePass v.log, x.Failed) ∨ ∀ c ∈ changes, Settled chainId v.state (sincePass v.log) c)

private theorem paged_of_failed (h : InPass w v) {q : ProxyRequest} {r : Reply} (hq : q ≠ .governedProxyChanges)
    (hq' : ∀ p, q ≠ .dispatch p) (hr : r.outcome ≠ .ok) (changes : List ProxyChange) :
    Paged chainId w changes (v.perform chainId q r).1 := by
  refine ⟨h.trans (.perform hq v r), .inl ⟨⟨v.state, q, r⟩, ?_, hr, hq'⟩⟩
  rw [sincePass_perform hq]
  exact mem_cons_self

private theorem Paged.cons (h : InPass w v) {c : ProxyChange} {rest : List ProxyChange} {u : ProxyWorld H}
    (hc : Settled chainId v.state (sincePass v.log) c) (hrest : Paged chainId v rest u) : Paged chainId w
    (c :: rest) u := by
  refine ⟨h.trans hrest.1, hrest.2.imp_right fun hall c' hc' => ?_⟩
  obtain rfl | hc' := mem_cons.mp hc'
  · exact hc.later hrest.1
  · exact hall c' hc'

theorem ne_ok_of_read {α : Type} {r : Reply} {a : α} {e : Unit} (h : r.read a = .error e) : r.outcome ≠ .ok := by
  intro hok
  simp [Reply.read, hok] at h

include hrely

private theorem proxyFollows_pageChanges (url : Text) (now : Int) {baseline : Option Int} (changes : List ProxyChange)
    (hof : ∀ c ∈ changes, c.Of chainId) (hbaseline : ∀ b, baseline = some b → w.state.baseline = some b) :
    ProxyFollows chainId rely (fun _ v =>
      Paged chainId w changes v) (pageChanges (some url) now baseline changes) w := by
  induction changes generalizing w with
  | nil => exact proxyFollows_done ⟨⟨fun _ hb => hb, fun _ hx => hx⟩, .inr fun _ hc => nomatch hc⟩
  | cons c rest ih =>
    have hc := hof c mem_cons_self
    have hnext : ∀ v : ProxyWorld H, InPass w v → Settled chainId v.state (sincePass v.log) c →
        ProxyFollows chainId rely (fun _ u =>
            Paged chainId w (c :: rest) u) (pageChanges (some url) now baseline rest) v := by
      intro v hv hsettled
      have hrest := ih (w := v) (fun c' hc' => hof c' (mem_cons_of_mem _ hc')) fun b hb =>
        hv.baseline b (hbaseline b hb)
      exact hrest.mono fun _ u hu => hu.cons hv hsettled
    unfold pageChanges
    refine proxyFollows_ask hrely fun v hv r => ⟨trivial, ?_⟩
    have hload : InPass w (v.perform chainId (.loadPagerState c.dedupKey) r).1 :=
      hv.inPass.trans (.perform (by simp) v r)
    cases hread : (v.perform chainId (.loadPagerState c.dedupKey) r).2 with
    | error e => exact proxyFollows_done (paged_of_failed hv.inPass (by simp) (by simp) (ne_ok_of_read hread) _)
    | ok state =>
      obtain ⟨hok, rfl⟩ := read_eq_ok hread
      dsimp only
      split
      · rename_i hrecord
        refine hnext _ hload (.inr (.inl ⟨⟨v.state, _, r⟩, ?_, ⟨rfl, hok⟩, hrecord⟩))
        rw [sincePass_perform (by simp)]
        exact mem_cons_self
      rename_i hrecord
      split
      · rename_i hold
        obtain ⟨b, hb, hle⟩ : ∃ b, baseline = some b ∧ (c.blockNumber : Int) ≤ b := by
          cases baseline with
          | none => cases hold
          | some b => exact ⟨b, rfl, of_decide_eq_true hold⟩
        have hstored := hload.baseline b (hbaseline b hb)
        refine proxyFollows_ask hrely fun u hu r' => ⟨⟨rfl, c, hc, rfl, .inr ⟨b, hu.baseline b hstored, hle⟩⟩, ?_⟩
        have hu' := hload.trans hu.inPass
        cases hsaved : (u.perform chainId (.savePagerState c.dedupKey ⟨true, none⟩) r').2 with
        | error e => exact proxyFollows_done (paged_of_failed hu' (by simp) (by simp) (ne_ok_of_read hsaved) _)
        | ok a =>
          exact hnext _ (hu'.trans (.perform (by simp) u r'))
            (.inr (.inr ⟨b, baseline_perform u _ r' (hu.baseline b hstored), hle⟩))
      rw [if_pos (show (some url).isSome = true from rfl)]
      refine proxyFollows_ask hrely fun u hu r' => ⟨⟨c, hc, rfl, ?_⟩, ?_⟩
      · exact (hu.records c).trans (Bool.eq_false_iff.mpr hrecord)
      have hu' : InPass w (u.perform chainId (.dispatch c.payload) r').1 :=
        hload.trans (hu.inPass.trans (.perform (by simp) u r'))
      have hsent : Settled chainId (u.perform chainId (.dispatch c.payload) r').1.state
          (sincePass (u.perform chainId (.dispatch c.payload) r').1.log) c := by
        refine .inl ⟨⟨u.state, _, r'⟩, ?_, rfl⟩
        rw [sincePass_perform (by simp)]
        exact mem_cons_self
      cases hanswer : (u.perform chainId (.dispatch c.payload) r').2 with
      | error e => exact hnext _ hu' hsent
      | ok a =>
        refine proxyFollows_ask hrely fun z hz r'' =>
          ⟨⟨rfl, c, hc, rfl, .inl ⟨_, _, hz.log, rfl, (read_eq_ok hanswer).1⟩⟩, ?_⟩
        cases hsaved : (z.perform chainId (.savePagerState c.dedupKey ⟨true, some now⟩) r'').2 with
        | error e =>
          exact proxyFollows_done (paged_of_failed (hu'.trans hz.inPass) (by simp) (by simp) (ne_ok_of_read hsaved) _)
        | ok a =>
          have hz' : InPass _ (z.perform chainId (.savePagerState c.dedupKey ⟨true, some now⟩) r'').1 :=
            hz.inPass.trans (.perform (by simp) z r'')
          exact (hnext _ (hu'.trans hz') (hsent.later hz')).bind fun _ _ hpaged => proxyFollows_done hpaged

theorem proxyFollows_alertNewProxyChanges (url : Text) (now : Int) : ProxyFollows chainId rely (fun _ v =>
      PassDone chainId v.state (sincePass v.log)) (alertNewProxyChanges (some url) now) w := by
  refine (proxyFollows_proxyChangeBaseline hrely).bind fun baseline u hstored => ?_
  refine proxyFollows_ask hrely fun v hv r => ⟨trivial, ?_⟩
  have hpass : sincePass (v.perform chainId .governedProxyChanges r).1.log = [⟨v.state, .governedProxyChanges, r⟩] :=
    if_pos rfl
  cases hread : (v.perform chainId .governedProxyChanges r).2 with
  | error e =>
    refine proxyFollows_done (.inl ⟨⟨v.state, .governedProxyChanges, r⟩, ?_, ne_ok_of_read hread, by simp⟩)
    rw [hpass]
    exact mem_cons_self
  | ok changes =>
    obtain ⟨hok, rfl⟩ := read_eq_ok hread
    have hpaged := proxyFollows_pageChanges hrely url now (governedProxyChanges chainId v.state.db) (w :=
      (v.perform chainId .governedProxyChanges r).1)
      (fun c hc => of_mem_governedProxyChanges hc) (fun b hb => hv.baseline b (hstored b hb))
    refine hpaged.mono fun _ z hz => hz.2.imp_right fun hall =>
      ⟨⟨v.state, .governedProxyChanges, r⟩, hz.1.pass ?_, ⟨rfl, hok⟩, hall⟩
    rw [hpass]
    exact mem_cons_self

theorem proxyFollows_proxyTurn (url : Text) : ProxyFollows chainId rely (fun _ _ => True) (proxyTurn (some url)) w := by
  refine proxyFollows_ask hrely fun v _ r => ⟨trivial, ?_⟩
  refine ProxyFollows.bind (?_ : ProxyFollows chainId rely (fun _ _ => True) _ _) fun _ u _ =>
    proxyFollows_ask hrely fun z _ r' => ⟨trivial, ?_⟩
  · split
    · exact (proxyFollows_proxyChangeBaseline hrely).mono fun _ _ _ => trivial
    · exact proxyFollows_done trivial
  · refine (proxyFollows_alertNewProxyChanges hrely url _).bind fun _ x hx => ?_
    exact proxyFollows_ask hrely fun y hy r'' => ⟨hx.later hy.inPass, proxyFollows_done trivial⟩

end Pass

def Acknowledged (log : List (ProxyExchange H)) (c : ProxyChange) : Prop := ∃ x ∈ log, x.Did (.dispatch c.payload)

instance (log : List (ProxyExchange H)) (c : ProxyChange) : Decidable (Acknowledged log c) :=
  inferInstanceAs (Decidable (∃ x ∈ log, _))

def ProxyState.Above (s : ProxyState H) (c : ProxyChange) : Prop :=
  s.baseline.all (fun b : Int => decide (b < c.blockNumber)) = true

instance (s : ProxyState H) (c : ProxyChange) : Decidable (s.Above c) := inferInstanceAs (Decidable (_ = true))

/-- A write adds a change above the baseline only at a place that has no record, unless it was acknowledged itself. -/
def WriteInPlace (chainId : Int) (w : ProxyWorld H) (write : Write H) : Prop :=
  ∀ c ∈ governedProxyChanges chainId (write.exec w.state.db), c ∉ governedProxyChanges chainId w.state.db →
    w.state.Above c → isRecorded chainId w.state.pager c.dedupKey = true → Acknowledged w.log c

/-- When a place gets its record, the change there is the one just delivered, or was acknowledged before. -/
def SaveInPlace (chainId : Int) (w : ProxyWorld H) (dedupKey : Text) : Prop :=
  ∀ c ∈ governedProxyChanges chainId w.state.db, w.state.Above c → c.dedupKey = dedupKey →
    w.log.head?.map ProxyExchange.request = some (.dispatch c.payload) ∨ Acknowledged w.log c

def EventInPlace (chainId : Int) (w : ProxyWorld H) : ProxyEvent H → Prop
  | .write write => WriteInPlace chainId w write
  | e => e.Foreign chainId

def ReplyInPlace (chainId : Int) (w : ProxyWorld H) (r : Reply) : ProxyRequest → Prop
  | .savePagerState dedupKey _ => r.outcome ≠ .failed → SaveInPlace chainId w dedupKey
  | _ => True

def inPlace (chainId : Int) : Rely ProxyRequest (ProxyWorld H) Reply (ProxyEvent H) where
  event := EventInPlace chainId
  reply w q r := ReplyInPlace chainId w r q

section Invariant

variable {chainId : Int} {w w' : ProxyWorld H}

private theorem foreign_of_inPlace {e : ProxyEvent H} (h : (inPlace chainId).event w e) : e.Foreign chainId := by
  cases e with
  | write write => trivial
  | _ => exact h

/-- The invariant of the runs. -/
structure Known (chainId : Int) (w : ProxyWorld H) : Prop where
  /-- At a place with a record is a change that was acknowledged. -/
  rows : ∀ c ∈ governedProxyChanges chainId w.state.db, w.state.Above c →
    isRecorded chainId w.state.pager c.dedupKey = true → Acknowledged w.log c
  /-- What was saved is there. -/
  saved : ∀ x ∈ w.log, ∀ c : ProxyChange, ∀ state, x.request = .savePagerState c.dedupKey state →
    x.reply.outcome ≠ .failed → isRecorded chainId w.state.pager c.dedupKey = true
  /-- What the requests have needed, and what was known at each. -/
  logged : Logged (fun x older => ProxyAllowed chainId x older ∧ (∀ p, x.request = .dispatch p →
    ∀ y ∈ older, ∀ state, y.request = .savePagerState p.dedupKey state → y.reply.outcome = .failed)) w.log

private theorem above_mono (hbaseline : ∀ b, w.state.baseline = some b → w'.state.baseline = some b) {c : ProxyChange}
    (h : w'.state.Above c) : w.state.Above c := by
  unfold ProxyState.Above at h ⊢
  cases hb : w.state.baseline with
  | none => rfl
  | some b => rwa [hbaseline b hb] at h

private theorem Known.quiet (h : Known chainId w) (hquiet : Quiet chainId w w')
    (hrows : ∀ c ∈ governedProxyChanges chainId w'.state.db, w'.state.Above c →
      isRecorded chainId w.state.pager c.dedupKey = true → Acknowledged w.log c) :
    Known chainId w' := by
  refine ⟨fun c hc habove hrecord => ?_, fun x hx c state hrequest houtcome => ?_, ?_⟩
  · rw [hquiet.records] at hrecord
    rw [hquiet.log]
    exact hrows c hc habove hrecord
  · rw [hquiet.log] at hx
    rw [hquiet.records]
    exact h.saved x hx c state hrequest houtcome
  · rw [hquiet.log]
    exact h.logged

private theorem Known.interfere (h : Known chainId w) {e : ProxyEvent H} (he : (inPlace chainId).event w e) :
    Known chainId ((proxyHost chainId).interfere w e) := by
  have hquiet := quiet_interfere w (foreign_of_inPlace he)
  have hold : ∀ c ∈ governedProxyChanges chainId w.state.db, ((proxyHost chainId).interfere w e).state.Above c →
      isRecorded chainId w.state.pager c.dedupKey = true → Acknowledged w.log c := fun c hc habove =>
        h.rows c hc (above_mono hquiet.baseline habove)
  refine h.quiet hquiet ?_
  cases e with
  | write write =>
    intro c hc habove hrecord
    by_cases hmem : c ∈ governedProxyChanges chainId w.state.db
    · exact h.rows c hmem habove hrecord
    · exact he c hc hmem habove hrecord
  | _ => exact hold

variable {q : ProxyRequest} {r : Reply}

private theorem db_perform (w : ProxyWorld H) (q : ProxyRequest) (r : Reply) :
    (w.perform chainId q r).1.state.db = w.state.db := by
  cases q with
  | insertBaseline b | savePagerState dedupKey state =>
    simp only [ProxyWorld.perform, proxyEffect, Reply.writeProxy]
    split <;> rfl
  | _ => rfl

private theorem pager_perform (chainId : Int) (w : ProxyWorld H) (q : ProxyRequest) (r : Reply) :
    (∃ dedupKey state, q = .savePagerState dedupKey state ∧
        (w.perform chainId q r).1.state.pager = savePagerState w.state.pager chainId dedupKey state) ∨
      (∀ dedupKey state, q = .savePagerState dedupKey state → r.outcome = .failed) ∧
        (w.perform chainId q r).1.state.pager = w.state.pager := by
  cases q with
  | insertBaseline b =>
    refine .inr ⟨(fun _ _ hq => nomatch hq), ?_⟩
    simp only [ProxyWorld.perform, proxyEffect, Reply.writeProxy]
    split <;> rfl
  | savePagerState dedupKey state =>
    simp only [ProxyWorld.perform, proxyEffect, Reply.writeProxy]
    split
    · rename_i hfailed
      exact .inr ⟨fun _ _ _ => hfailed, rfl⟩
    · exact .inl ⟨dedupKey, state, rfl, rfl⟩
  | _ => exact .inr ⟨(fun _ _ hq => nomatch hq), rfl⟩

theorem isRecorded_save_self {pager : List PagerRow} {dedupKey : Text} {state : PagerState} (h : state.firing = true) :
    isRecorded chainId (savePagerState pager chainId dedupKey state) dedupKey = true := by
  rw [isRecorded, loadPagerState_save, if_pos ⟨rfl, rfl⟩]
  exact h

private theorem isRecorded_perform (hallowed : ProxyAllowed chainId ⟨w.state, q, r⟩ w.log) {key : Text}
    (h : isRecorded chainId w.state.pager key = true) : isRecorded chainId (w.perform chainId q r).1.state.pager key =
      true := by
  obtain ⟨dedupKey, state, rfl, hpager⟩ | ⟨-, hpager⟩ := pager_perform chainId w q r
  · rw [hpager]
    by_cases hkey : dedupKey = key
    · rw [hkey]
      exact isRecorded_save_self hallowed.1
    · rwa [isRecorded_save fun hsame => hkey hsame.2]
  · rwa [hpager]

private theorem Known.perform (h : Known chainId w) (hr : (inPlace chainId).reply w q r)
    (hallowed : ProxyAllowed chainId ⟨w.state, q, r⟩ w.log) : Known chainId (w.perform chainId q r).1 := by
  have habove : ∀ c, (w.perform chainId q r).1.state.Above c → w.state.Above c :=
    fun c => above_mono fun b => baseline_perform w q r
  constructor
  case rows =>
    intro c hc hc' hrecord
    rw [db_perform] at hc
    have hlog : Acknowledged w.log c → Acknowledged (w.perform chainId q r).1.log c :=
      fun ⟨x, hx, hdid⟩ => ⟨x, mem_cons_of_mem _ hx, hdid⟩
    have hbefore : isRecorded chainId w.state.pager c.dedupKey = true → Acknowledged (w.perform chainId q r).1.log c :=
      fun hthere => hlog (h.rows c hc (habove c hc') hthere)
    obtain ⟨dedupKey, state, rfl, hpager⟩ | ⟨-, hpager⟩ := pager_perform chainId w q r
    · by_cases hfailed : r.outcome = .failed
      · refine hbefore ?_
        simpa only [ProxyWorld.perform, proxyEffect, Reply.writeProxy, if_pos hfailed] using hrecord
      rw [hpager] at hrecord
      by_cases hkey : dedupKey = c.dedupKey
      · obtain ⟨-, c', hc₁, rfl, ⟨y, older, hhead, hdid⟩ | ⟨b, hb, hle⟩⟩ := hallowed
        · obtain hlast | hknown := hr hfailed c hc (habove c hc') hkey.symm
          · rw [hhead, head?_cons, Option.map_some, Option.some.injEq, hdid.1, ProxyRequest.dispatch.injEq] at hlast
            refine hlog ⟨y, by rw [hhead]; exact mem_cons_self, ?_⟩
            rw [← hlast]
            exact hdid
          · exact hlog hknown
        -- at or below the baseline
        have hlt := habove c hc'
        rw [ProxyState.Above, hb, ← blockNumber_eq_of_dedupKey hc₁ (of_mem_governedProxyChanges hc) hkey] at hlt
        exact absurd hle (not_le_of_gt (of_decide_eq_true hlt))
      · exact hbefore (by rwa [isRecorded_save fun hsame => hkey hsame.2] at hrecord)
    · exact hbefore (hpager ▸ hrecord)
  case saved =>
    intro x hx c state hrequest houtcome
    obtain rfl | hx := mem_cons.mp hx
    · obtain rfl : q = .savePagerState c.dedupKey state := hrequest
      obtain ⟨dedupKey, state', hq, hpager⟩ | ⟨hfailed, -⟩ :=
        pager_perform chainId w (.savePagerState c.dedupKey state) r
      · cases hq
        rw [hpager]
        exact isRecorded_save_self hallowed.1
      · exact absurd (hfailed _ _ rfl) houtcome
    · exact isRecorded_perform hallowed (h.saved x hx c state hrequest houtcome)
  case logged =>
    refine ⟨⟨hallowed, ?_⟩, h.logged⟩
    rintro p hq y hy state hsave
    obtain rfl : q = .dispatch p := hq
    obtain ⟨c, hc, rfl, hnot⟩ := hallowed
    by_contra houtcome
    rw [h.saved y hy c state hsave houtcome] at hnot
    cases hnot

end Invariant

section Runs

variable (chainId : Int) (url : Text)

def proxyWorldAfter (w₀ : ProxyWorld H) (actions : List (Action Reply (ProxyEvent H))) : ProxyWorld H :=
  (run ((proxyHost chainId).machine (proxyTurn (some url))) ⟨w₀, proxyTurn (some url)⟩ actions).world

def ProxyRunMeets (rely : Rely ProxyRequest (ProxyWorld H) Reply (ProxyEvent H)) (w₀ : ProxyWorld H)
    (actions : List (Action Reply (ProxyEvent H))) : Prop :=
  Along ((proxyHost chainId).machine (proxyTurn (some url))) (fun s a =>
    a.Meets rely s) ⟨w₀, proxyTurn (some url)⟩ actions

variable {chainId url}

private theorem known_proxyWorldAfter {w₀ : ProxyWorld H} {actions : List (Action Reply (ProxyEvent H))}
    (hrun : ProxyRunMeets chainId url (inPlace chainId) w₀ actions) (h₀ : Known chainId w₀) :
    Known chainId (proxyWorldAfter chainId url w₀ actions) := by
  have hmain : ∀ w : ProxyWorld H, Known chainId w →
      (proxyTurn (some url)).Safe (proxyHost chainId) (inPlace chainId) (ProxyAsked chainId (inPlace chainId))
          (fun _ _ => True) w :=
    fun w _ => proxyFollows_proxyTurn (fun _ _ he => foreign_of_inPlace he) url
  have hguar : ∀ w w' : ProxyWorld H, Known chainId w → ProxyAsked chainId (inPlace chainId) w w' →
      Known chainId w' := by
    rintro w _ hw ⟨q, r, hr, hallowed, rfl⟩
    exact hw.perform hr hallowed
  exact (safe_run hmain (fun w e hw he => hw.interfere he) (fun w hw =>
    ⟨hw.rows, hw.saved, hw.logged⟩) hguar h₀ hrun).1

def tickEvents (d : Indexer.Deployment H) [DecidableEq H] (db : Db H) (t : Tick) : List (ProxyEvent H) :=
  match t.failsAfter with
  | some k => ((d.writes db t.chain).take k).map .write
  | none => (d.writes db t.chain).map .write ++ [.ran (recorded d db t.chain)]

private theorem foldl_write (writes : List (Write H)) (s : ProxyState H) :
    (writes.map ProxyEvent.write).foldl ProxyState.interfere s = { s with db := writes.foldl Write.exec s.db } := by
  induction writes generalizing s with
  | nil => rfl
  | cons write rest ih => exact ih _

theorem foldl_tickEvents (d : Indexer.Deployment H) [DecidableEq H] (s : ProxyState H) (t : Tick) :
    (tickEvents d s.db t).foldl ProxyState.interfere s = { s with db := d.runOnce s.db t } := by
  unfold tickEvents Indexer.Deployment.runOnce
  cases t.failsAfter with
  | some k => exact foldl_write _ s
  | none =>
    dsimp only
    rw [foldl_append, foldl_write]
    rfl

/-- Along every run in which no change takes the place of one that was recorded, whatever fails and whenever the
process stops: a change above the baseline that has a record was acknowledged with its own content; each pass has sent
every change that it has read, unless it has a record or is not above the baseline, or a read or a write has failed; and
a change whose record was saved is not sent again. -/
theorem changes_paged (chainId : Int) (url : Text) (w₀ : ProxyWorld H) (actions : List (Action Reply (ProxyEvent H)))
    (hlog : w₀.log = []) (hfresh : ∀ c : ProxyChange, isRecorded chainId w₀.state.pager c.dedupKey = false)
    (hrun : ProxyRunMeets chainId url (inPlace chainId) w₀ actions) :
    (∀ c ∈ governedProxyChanges chainId (proxyWorldAfter chainId url w₀ actions).state.db,
      (proxyWorldAfter chainId url w₀ actions).state.Above c →
      isRecorded chainId (proxyWorldAfter chainId url w₀ actions).state.pager c.dedupKey = true →
        Acknowledged (proxyWorldAfter chainId url w₀ actions).log c) ∧
      ∀ newer x older, (proxyWorldAfter chainId url w₀ actions).log = newer ++ x :: older →
        (x.request = .sleep → PassDone chainId x.state (sincePass older)) ∧
        ∀ p, x.request = .dispatch p → ∀ y ∈ older, ∀ state, y.request = .savePagerState p.dedupKey state →
          y.reply.outcome = .failed := by
  have hknown : Known chainId (proxyWorldAfter chainId url w₀ actions) := by
    refine known_proxyWorldAfter hrun ⟨fun c _ _ hrecord => ?_, fun x hx => ?_, ?_⟩
    · rw [hfresh c] at hrecord
      cases hrecord
    · rw [hlog] at hx
      cases hx
    · rw [hlog]
      trivial
  refine ⟨hknown.rows, fun newer x older hsplit => ?_⟩
  have hlogged := hknown.logged
  rw [hsplit] at hlogged
  obtain ⟨hallowed, hsaved⟩ := hlogged.of_append
  refine ⟨fun hrequest => ?_, hsaved⟩
  unfold ProxyAllowed at hallowed
  rwa [hrequest] at hallowed

end Runs

instance (chainId : Int) : (e : ProxyEvent H) → Decidable (e.Foreign chainId)
  | .save .. => inferInstanceAs (Decidable (_ ∨ ¬ _))
  | .clear .. => inferInstanceAs (Decidable (_ ∨ _))
  | .write _ | .ran _ | .advance _ | .baseline _ => isTrue trivial

instance (chainId : Int) (w : ProxyWorld H) : (e : ProxyEvent H) → Decidable ((inPlace chainId).event w e)
  | .write write => inferInstanceAs (Decidable (∀ c ∈ governedProxyChanges chainId (write.exec w.state.db), _ →
      _ → _ → _))
  | .save chainId' dedupKey state =>
      inferInstanceAs (Decidable ((ProxyEvent.save chainId' dedupKey state : ProxyEvent H).Foreign chainId))
  | .clear chainId' start =>
      inferInstanceAs (Decidable ((ProxyEvent.clear chainId' start : ProxyEvent H).Foreign chainId))
  | .ran _ | .advance _ | .baseline _ => isTrue trivial

instance (chainId : Int) (w : ProxyWorld H) (r : Reply) : (q : ProxyRequest) → Decidable ((inPlace chainId).reply w q r)
  | .savePagerState .. => inferInstanceAs (Decidable (_ → ∀ c ∈ governedProxyChanges chainId w.state.db, _ → _ → _))
  | .begin | .unixNow | .storedBaseline | .ranBefore | .maxIndexedBlock | .insertBaseline _ | .governedProxyChanges |
    .loadPagerState _ | .dispatch _ | .sleep => isTrue trivial

def upgradeChain (hash : Nat) (implementation : Address) : Chain :=
  shortChain.take 3 ++ ⟨hash, [⟨7, 1, some (.upgraded implementation)⟩], []⟩ :: (List.range 7).map fun n =>
    emptyBlock (hash + n + 1)

def upgradeWorld : ProxyWorld Chain where
  state := ⟨followDeployment.runOnce .empty ⟨shortChain, none⟩, none, none, [], true⟩
  log := []

def proxyReplies (n : Nat) : List (Action Reply (ProxyEvent Chain)) :=
  List.replicate n (.reply ⟨.ok, 1, false, 1000, ⟨some 0, some 0⟩⟩)

def upgradeTick (db : Db Chain) (t : Tick) : List (Action Reply (ProxyEvent Chain)) :=
  (tickEvents followDeployment db t).map .event

/-- The watchdog starts, the upgrade of vault 7 is indexed, and a pass delivers and records it. -/
def upgradeRun : List (Action Reply (ProxyEvent Chain)) :=
  proxyReplies 10 ++ upgradeTick upgradeWorld.state.db ⟨upgradeChain 3 9, none⟩ ++ proxyReplies 9

/-- The block is replaced by one with another upgrade of the vault, and another pass is made. -/
def upgradeReorgRun : List (Action Reply (ProxyEvent Chain)) :=
  upgradeRun ++ upgradeTick (followDeployment.runOnce upgradeWorld.state.db ⟨upgradeChain 3 9, none⟩)
    ⟨upgradeChain 33 10, none⟩ ++ proxyReplies 7

theorem changes_paged_of_upgradeRun :
    (governedProxyChanges 8453 (proxyWorldAfter 8453 [] upgradeWorld upgradeRun).state.db).length = 1 ∧
      ∀ c ∈ governedProxyChanges 8453 (proxyWorldAfter 8453 [] upgradeWorld upgradeRun).state.db,
        isRecorded 8453 (proxyWorldAfter 8453 [] upgradeWorld upgradeRun).state.pager c.dedupKey = true ∧
          Acknowledged (proxyWorldAfter 8453 [] upgradeWorld upgradeRun).log c := by
  have hmeets : ProxyRunMeets 8453 [] (inPlace 8453) upgradeWorld upgradeRun := by
    unfold ProxyRunMeets
    decide +kernel
  have hpaged := (changes_paged 8453 [] upgradeWorld upgradeRun rfl (fun _ => rfl) hmeets).1
  have hrecorded : ∀ c ∈ governedProxyChanges 8453 (proxyWorldAfter 8453 [] upgradeWorld upgradeRun).state.db,
      (proxyWorldAfter 8453 [] upgradeWorld upgradeRun).state.Above c ∧
        isRecorded 8453 (proxyWorldAfter 8453 [] upgradeWorld upgradeRun).state.pager c.dedupKey = true := by
    decide +kernel
  exact ⟨by decide +kernel, fun c hc => ⟨(hrecorded c hc).2, hpaged c hc (hrecorded c hc).1 (hrecorded c hc).2⟩⟩

/-- At the end of a pass that has read everything, the upgrade that has come in the place of another is recorded and was
never acknowledged. -/
theorem replaced_change_not_paged :
    (proxyWorldAfter 8453 [] upgradeWorld upgradeReorgRun).log.head?.map ProxyExchange.request = some .sleep ∧
      (∀ x ∈ (proxyWorldAfter 8453 [] upgradeWorld upgradeReorgRun).log, x.reply.outcome = .ok) ∧
      (governedProxyChanges 8453 (proxyWorldAfter 8453 [] upgradeWorld upgradeReorgRun).state.db).length = 1 ∧
      ∀ c ∈ governedProxyChanges 8453 (proxyWorldAfter 8453 [] upgradeWorld upgradeReorgRun).state.db,
        (proxyWorldAfter 8453 [] upgradeWorld upgradeReorgRun).state.Above c ∧
          isRecorded 8453 (proxyWorldAfter 8453 [] upgradeWorld upgradeReorgRun).state.pager c.dedupKey = true ∧
          ¬ Acknowledged (proxyWorldAfter 8453 [] upgradeWorld upgradeReorgRun).log c := by
  refine ⟨by decide +kernel, by decide +kernel, by decide +kernel, by decide +kernel⟩

end RobotMoney.Watchdog
