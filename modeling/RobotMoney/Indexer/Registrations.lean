import RobotMoney.Indexer.Rollback

/-!
# Registrations

The indexer puts each row of `agent_policies` and `agent_deposits` under a registration.  `AgentAuthorized` stands for a
new registration and for a change of its policy alike, so the start of a registration is inferred from the row before:
there is none, it is a revoke, or it had expired.

A gateway's events come with the registration they belong to, the `n`-th one of the agent (`Emission`).  For events as
the gateway emits them (`Valid`), the inferred keys are the registrations and `query_registrations` calls active what
the gateway honours (`Indexed`).
-/

namespace RobotMoney.Indexer

open Evm SqlTable List Function Option

variable {cfg : Config} {vaultOfExclusionLedger : Address → Option Address} {created : List (Word × Address)}
  {timestampOf : Nat → Option Int}

inductive RegistrationStatus where
  | revoked
  | expired
  | active
  deriving DecidableEq, Repr

/-- `RegistrationRow`, without the columns that are shown only. -/
structure RegistrationRow where
  gateway : Option Address
  agent : Address
  registration : Nat × Nat
  owner : Option Address
  status : RegistrationStatus
  closed : Bool
  closedBlock : Option Nat
  fields : PolicyFields
  lastBlock : Option Nat
  deriving DecidableEq, Repr

def registrationRows (policies : List PolicyRow) (gateway : Option Address) (agent : Address)
    (registration : Nat × Nat) :
    List PolicyRow :=
  policies.filter fun p => decide (p.gateway = gateway ∧ p.agent = agent ∧ p.registration = registration)

/-- `live_valid_until`: that of the newest row that is not a revoke. -/
def liveValidUntil (rows : List PolicyRow) : Option Int :=
  ((rows.filter fun p => !p.revoked).argmax PolicyRow.pos).bind fun p => p.fields.validUntil

def registrationStatus (rows : List PolicyRow) (tip : Int) : RegistrationStatus :=
  if rows.any PolicyRow.revoked then .revoked
  else
    match liveValidUntil rows with
    | some v => if v < tip then .expired else .active
    | none => .active

/-- `mine`: the row an owner has in a registration, the newest authorization or, without one, the newest revoke. -/
def ownersRow (rows : List PolicyRow) (owner : Option Address) : Option PolicyRow :=
  let mine := rows.filter fun p => decide (p.owner = owner)
  ((mine.filter fun p => !p.revoked).argmax PolicyRow.pos).or ((mine.filter PolicyRow.revoked).argmax PolicyRow.pos)

def PolicyRow.group (p : PolicyRow) : Option Address × Address × (Nat × Nat) × Option Address :=
  (p.gateway, p.agent, p.registration, p.owner)

open PolicyRow

def projectRegistration (policies : List PolicyRow) (tip : Int)
    (g : Option Address × Address × (Nat × Nat) × Option Address) : Option RegistrationRow :=
  let rows := registrationRows policies g.1 g.2.1 g.2.2.1
  (ownersRow rows g.2.2.2).map fun p =>
    { gateway := g.1
      agent := g.2.1
      registration := g.2.2.1
      owner := g.2.2.2
      status := registrationStatus rows tip
      closed := rows.any revoked
      closedBlock := ((rows.filter revoked).argmax pos).map fun p => p.place.blockNumber
      fields := p.fields
      lastBlock := (rows.map fun p => p.place.blockNumber).max? }

/-- `query_registrations`: the registrations, narrowed to an owner, an agent and a gateway when given; the order of the
result is left out. -/
def queryRegistrations (policies : List PolicyRow) (tip : Int) (owner agent gateway : Option Address) :
    List RegistrationRow :=
  let groups := ((policies.map group).dedup).filter fun g =>
    (owner.all fun o => g.2.2.2 = some o) && (agent.all fun a => g.2.1 = a) && gateway.all fun w => g.1 = some w
  groups.filterMap (projectRegistration policies tip)

variable {policies : List PolicyRow} {agent gateway : Address} {place : Nat → LogPlace} {es : List Emission}
  {st : Address → Standing}

private theorem mem_queryRegistrations {tip : Int} {row : RegistrationRow}
    (h : row ∈ queryRegistrations policies tip none (some agent) none) :
    ∃ p ∈ policies, p.agent = agent ∧ row.registration = p.registration ∧
      row.status = registrationStatus (registrationRows policies p.gateway agent p.registration) tip := by
  simp only [queryRegistrations, List.mem_filterMap, List.mem_filter, List.mem_dedup, List.mem_map, all_none,
    Bool.true_and, Bool.and_true, all_some, decide_eq_true_eq] at h
  obtain ⟨g, ⟨⟨p, hp, rfl⟩, hagent⟩, hrow⟩ := h
  simp only [projectRegistration, group, map_eq_some_iff] at hrow hagent
  obtain ⟨q, -, rfl⟩ := hrow
  exact ⟨p, hp, hagent, rfl, by rw [hagent]⟩

private theorem exists_mem_queryRegistrations {p : PolicyRow} (hp : p ∈ policies) (tip : Int) :
    ∃ row ∈ queryRegistrations policies tip none (some p.agent) none, row.registration = p.registration ∧
      row.status = registrationStatus (registrationRows policies p.gateway p.agent p.registration) tip := by
  have hmine : (ownersRow (registrationRows policies p.gateway p.agent p.registration) p.owner).isSome := by
    have hmem : p ∈ (registrationRows policies p.gateway p.agent p.registration).filter
        fun q => decide (q.owner = p.owner) := by
      simp [registrationRows, hp]
    have hne : ∀ {l : List PolicyRow}, p ∈ l → (l.argmax pos).isSome := by
      intro l hl
      rw [isSome_iff_ne_none, ne_eq, argmax_eq_none]
      exact ne_nil_of_mem hl
    unfold ownersRow
    cases hrevoked : p.revoked
    · rw [isSome_or, Bool.or_eq_true]
      exact .inl (hne (mem_filter.2 ⟨hmem, by simp [hrevoked]⟩))
    · rw [isSome_or, Bool.or_eq_true]
      exact .inr (hne (mem_filter.2 ⟨hmem, hrevoked⟩))
  obtain ⟨q, hq⟩ := isSome_iff_exists.1 hmine
  have hproject : ∃ row, projectRegistration policies tip p.group = some row ∧ row.registration = p.registration ∧
      row.status = registrationStatus (registrationRows policies p.gateway p.agent p.registration) tip := by
    simp only [projectRegistration, group, hq]
    exact ⟨_, rfl, rfl, rfl⟩
  obtain ⟨row, hrow, hsame⟩ := hproject
  refine ⟨row, ?_, hsame⟩
  simp only [queryRegistrations, mem_filterMap, mem_filter, mem_dedup, all_none, Bool.true_and,
    Bool.and_true, all_some, decide_eq_true_eq]
  exact ⟨p.group, ⟨mem_map_of_mem hp, rfl⟩, hrow⟩

def lastPolicy (policies : List PolicyRow) (gateway agent : Address) : Option PolicyRow :=
  (policies.filter fun p => decide (p.gateway = some gateway ∧ p.agent = agent)).argmax pos

private theorem previousPolicy_eq {place : LogPlace} (h : ∀ p ∈ policies, p.pos < place.pos) (gateway agent : Address) :
    previousPolicy policies (some gateway) agent place = lastPolicy policies gateway agent := by
  unfold previousPolicy lastPolicy
  congr 1
  apply filter_congr
  intro p hp
  have hlt := h p hp
  simp [hlt]

private theorem lastPolicy_append {row : PolicyRow} (h : ∀ p ∈ policies, p.pos < row.pos) (gateway agent : Address) :
    lastPolicy (policies ++ [row]) gateway agent =
      if row.gateway = some gateway ∧ row.agent = agent then some row else lastPolicy policies gateway agent := by
  unfold lastPolicy
  split
  · rename_i hrow
    simp only [filter_append, filter_cons, hrow, and_self, decide_true, ↓reduceIte, filter_nil]
    apply argmax_append_of_newest
    intro p hp
    exact h p (mem_of_mem_filter hp)
  rename_i hrow
  simp [filter_append, hrow]

private theorem mem_of_lastPolicy {p : PolicyRow} (h : lastPolicy policies gateway agent = some p) :
    p ∈ policies ∧ p.gateway = some gateway ∧ p.agent = agent := by
  have hmem := argmax_mem h
  simpa using mem_filter.1 hmem

abbrev Registered := List PolicyRow × List DepositRow

def Tables.registered (t : Tables) : Registered := (t.policies, t.deposits)

/-- The columns of an `AgentAuthorized`. -/
def authorizedFields (validUntil maxPerPayment maxPerWindow : Nat) (shareReceiver : Address) : PolicyFields :=
  ⟨some (asI64 validUntil), some maxPerPayment, some maxPerWindow, none, some shareReceiver⟩

def registerLog (cfg : Config) (timestampOf : Nat → Option Int) (r : Registered) (log : LogEntry) : Registered :=
  match log.event with
  | .agentAuthorized agent owner validUntil maxPerPayment maxPerWindow shareReceiver =>
    (insertAgentPolicy timestampOf log.place agent owner false
      (authorizedFields validUntil maxPerPayment maxPerWindow shareReceiver) log.address r.1, r.2)
  | .agentRevoked agent owner =>
    (insertAgentPolicy timestampOf log.place agent owner true ⟨none, none, none, none, none⟩ log.address r.1, r.2)
  | .agentOwnershipTransferred agent newOwner =>
    (insertAgentOwnerTransfer log.place agent newOwner log.address r.1, r.2)
  | .agentDeposit paymentId orderId agent shareReceiver amount sharesMinted windowId =>
    (r.1, insertAgentDeposit ⟨log.place, paymentId, orderId, agent, shareReceiver, amount, sharesMinted, asI64 windowId,
      some cfg.vault, some log.address, none⟩ r.1 r.2)
  | .agentDepositRouted paymentId orderId agent shareReceiver amount sharesPerLeg windowId =>
    let totalShares := sharesPerLeg.foldl (fun acc s => min (acc + s) u256Max) 0
    (r.1, insertAgentDeposit ⟨log.place, paymentId, orderId, agent, shareReceiver, amount, totalShares, asI64 windowId,
      none, some log.address, none⟩ r.1 r.2)
  | _ => r

def Event.isRegistration : Event → Bool
  | .agentAuthorized .. | .agentRevoked .. | .agentOwnershipTransferred .. | .agentDeposit ..
  | .agentDepositRouted .. => true
  | _ => false

private theorem registered_handleLog (s : LogState) {log : LogEntry} (hgateway : cfg.gateway = some log.address)
    (hevent : log.event.isRegistration = true) :
    (execAll timestampOf s (handleLog cfg vaultOfExclusionLedger created log)).tables.registered =
      registerLog cfg timestampOf s.tables.registered log := by
  cases hlog : log.event <;> simp only [hlog, Event.isRegistration, Bool.false_eq_true] at hevent
  all_goals
    simp [handleLog, handleGatewayLog, hlog, hgateway, registerLog, execAll, Statement.exec, Statement.execTables,
      Tables.registered, authorizedFields]

def Statement.isRegistration : Statement → Bool
  | .agentDeposit _ | .agentPolicy .. | .ownerTransfer .. => true
  | _ => false

private theorem registered_execAll {sts : List Statement} (h : ∀ st ∈ sts, st.isRegistration = false) (s : LogState) :
    (execAll timestampOf s sts).tables.registered = s.tables.registered := by
  induction sts generalizing s with
  | nil => rfl
  | cons st sts ih =>
    have hrest := ih (fun st' hst' => h st' (mem_cons_of_mem _ hst')) (st.exec timestampOf s)
    have hone : (st.exec timestampOf s).tables.registered = s.tables.registered := by
      have hst := h st mem_cons_self
      cases st <;> first | rfl | cases hst
    exact hrest.trans hone

/-- The other logs leave the tables of the gateway alone. -/
theorem registered_handleLog_of_other (s : LogState) {log : LogEntry}
    (hother : ¬(cfg.gateway = some log.address ∧ log.event.isRegistration = true)) :
    (execAll timestampOf s (handleLog cfg vaultOfExclusionLedger created log)).tables.registered =
      s.tables.registered := by
  apply registered_execAll
  intro st hst
  cases hevent : log.event
  case agentWithdrawal =>
    simp only [handleLog, hevent] at hst
    split at hst
    · simp only [handleGatewayLog, hevent, mem_singleton] at hst
      rw [hst]
      rfl
    · cases hst
  case agentDeposit | agentDepositRouted | agentAuthorized | agentOwnershipTransferred | agentRevoked =>
    have hgateway : cfg.gateway ≠ some log.address := fun h => hother ⟨h, by rw [hevent]; rfl⟩
    simp [handleLog, hevent, hgateway] at hst
  case callScheduled | callExecuted | cancelled | minDelayChange | safeExecution | safeOwner | safeChangedThreshold |
      upgraded | upgradesFrozen =>
    simp only [handleLog, hevent, handleAdminLog] at hst
    split at hst
    · cases hst
    simp only [mem_cons] at hst
    obtain rfl | hst := hst
    · rfl
    split at hst
    · rw [mem_singleton] at hst
      rw [hst]
      rfl
    · cases hst
  case exclusionOpened | exclusionRecoveryCredited | exclusionFinalized | exclusionClaimed =>
    simp only [handleLog, hevent] at hst
    split at hst
    · cases hst
    obtain ⟨row, -, rfl⟩ := mem_map.1 hst
    rfl
  case receiptRecorded | receiptReleased =>
    simp only [handleLog, hevent] at hst
    split at hst
    · cases hst
    rw [mem_singleton] at hst
    rw [hst]
    rfl
  case depositsPaused | depositsUnpaused | snapshotTrigger | redeemedInKind | initialized =>
    simp only [handleLog, hevent, not_mem_nil] at hst
  all_goals
    simp only [handleLog, hevent, mem_cons, not_mem_nil, or_false] at hst
    rcases hst with rfl | rfl | rfl <;> rfl

def isRegistrationLog (gateway : Address) (l : LogEntry) : Bool := l.address = gateway && l.event.isRegistration

theorem registered_handleAll (hgateway : cfg.gateway = some gateway) (s : LogState) (logs : List LogEntry) :
    (handleAll cfg vaultOfExclusionLedger created timestampOf s logs).tables.registered =
      (logs.filter (isRegistrationLog gateway)).foldl (registerLog cfg timestampOf) s.tables.registered := by
  induction logs generalizing s with
  | nil => rfl
  | cons l logs ih =>
    rw [handleAll, foldl_cons, ← handleAll, ih]
    cases hl : isRegistrationLog gateway l
    · rw [filter_cons_of_neg (by rw [hl]; simp), registered_handleLog_of_other s]
      rintro ⟨haddress, hevent⟩
      rw [hgateway, some.injEq] at haddress
      rw [isRegistrationLog, hevent, haddress] at hl
      simp at hl
    · rw [filter_cons_of_pos hl, foldl_cons]
      simp only [isRegistrationLog, Bool.and_eq_true, decide_eq_true_eq] at hl
      rw [registered_handleLog s (by rw [hl.1]; exact hgateway) hl.2]

/-- An event of the gateway, with its block and the registration it belongs to: the `n`-th of the agent. -/
structure Emission where
  event : Event
  block : Block
  registration : Address × Nat

/-- How an agent stands: the number of its registrations, and when the live one runs out. -/
structure Standing where
  count : Nat
  live : Option Nat
  deriving DecidableEq, Repr

/-- What an event makes of the standing of its agent: a registration starts when none is live, changes before it runs
out, and is ended once.  The times fit into the signed columns. -/
inductive Advances (agent : Address) (s : Standing) : Emission → Standing → Prop
  | registered (owner : Address) (validUntil maxPerPayment maxPerWindow : Nat) (shareReceiver : Address) (block : Block)
      (hlive : s.live = none) (hfits : validUntil < 2 ^ 63) :
      Advances agent s ⟨.agentAuthorized agent owner validUntil maxPerPayment maxPerWindow shareReceiver, block,
        (agent, s.count + 1)⟩ ⟨s.count + 1, some validUntil⟩
  | updated (owner : Address) (validUntil maxPerPayment maxPerWindow : Nat) (shareReceiver : Address) (block : Block)
      (live : Nat) (hlive : s.live = some live) (hnow : block.timestamp.val ≤ live) (hfits : validUntil < 2 ^ 63) :
      Advances agent s ⟨.agentAuthorized agent owner validUntil maxPerPayment maxPerWindow shareReceiver, block,
        (agent, s.count)⟩ ⟨s.count, some validUntil⟩
  | ended (owner : Address) (block : Block) (live : Nat) (hlive : s.live = some live) :
      Advances agent s ⟨.agentRevoked agent owner, block, (agent, s.count)⟩ ⟨s.count, none⟩
  | deposited (paymentId orderId : Word) (shareReceiver : Address) (amount sharesMinted windowId : Nat) (block : Block)
      (live : Nat) (hlive : s.live = some live) :
      Advances agent s ⟨.agentDeposit paymentId orderId agent shareReceiver amount sharesMinted windowId, block,
        (agent, s.count)⟩ s

/-- Events as the gateway emits them, and how the agents stand after them. -/
inductive Valid : List Emission → (Address → Standing) → Prop
  | nil : Valid [] fun _ => ⟨0, none⟩
  | snoc {es : List Emission} {st : Address → Standing} (h : Valid es st) {agent : Address} {e : Emission} {s : Standing}
      (hstep : Advances agent (st agent) e s) : Valid (es ++ [e]) (Function.update st agent s)

/-- The logs of emissions, the `i`-th at `place i`. -/
def emissionLogs (gateway : Address) (place : Nat → LogPlace) (es : List Emission) : List LogEntry :=
  es.mapIdx fun i e => ⟨gateway, place i, e.event⟩

/-- The places of emissions: in chain order, each in the block of its emission. -/
structure Placed (place : Nat → LogPlace) (es : List Emission) : Prop where
  block : ∀ i e, es[i]? = some e → (place i).blockNumber = e.block.number
  order : ∀ i j, i < j → j < es.length → (place i).pos < (place j).pos

def registrationKey (place : Nat → LogPlace) (es : List Emission) (r : Address × Nat) : Nat × Nat :=
  let first := place (es.findIdx fun e => decide (e.registration = r))
  (first.blockNumber, first.logIndex)

private theorem Placed.left {es es' : List Emission} (h : Placed place (es ++ es')) : Placed place es where
  block := fun i e hi => h.block i e (by rw [List.getElem?_append_left (List.getElem?_eq_some_iff.1 hi).1, hi])
  order := fun i j hij hj => h.order i j hij (by rw [length_append]; omega)

private theorem Placed.injective (h : Placed place es) {i j : Nat} (hi : i < es.length) (hj : j < es.length)
    (heq : (place i).pos = (place j).pos) : i = j := by
  obtain hlt | rfl | hgt := Nat.lt_trichotomy i j
  · exact absurd heq (h.order i j hlt hj).ne
  · rfl
  · exact absurd heq.symm (h.order j i hgt hi).ne

private theorem registrationKey_append {r : Address × Nat} (h : ∃ e ∈ es, e.registration = r) (es' : List Emission) :
    registrationKey place (es ++ es') r = registrationKey place es r := by
  have hfind : (es ++ es').findIdx (fun e => decide (e.registration = r)) =
      es.findIdx fun e => decide (e.registration = r) := by
    rw [findIdx_append, if_pos]
    rw [findIdx_lt_length]
    obtain ⟨e, he, hr⟩ := h
    exact ⟨e, he, by simpa using hr⟩
  simp only [registrationKey, hfind]

private theorem registrationKey_append_of_new {e : Emission} (h : ∀ e' ∈ es, e'.registration ≠ e.registration) :
    registrationKey place (es ++ [e]) e.registration = ((place es.length).blockNumber, (place es.length).logIndex) := by
  have hfind : (es ++ [e]).findIdx (fun e' => decide (e'.registration = e.registration)) = es.length := by
    rw [findIdx_append, if_neg]
    · simp [findIdx_cons]
    · rw [findIdx_lt_length]
      rintro ⟨e', he', hr⟩
      exact h e' he' (by simpa using hr)
  simp only [registrationKey, hfind]

theorem registrationKey_injective (hplace : Placed place es) {r r' : Address × Nat}
    (h : ∃ e ∈ es, e.registration = r) (h' : ∃ e ∈ es, e.registration = r')
    (heq : registrationKey place es r = registrationKey place es r') : r = r' := by
  have hfound : ∀ {r : Address × Nat}, (∃ e ∈ es, e.registration = r) →
      ∃ hlt : es.findIdx (fun e => decide (e.registration = r)) < es.length,
        (es.get ⟨_, hlt⟩).registration = r := by
    rintro r ⟨e, he, hr⟩
    have hlt : es.findIdx (fun e => decide (e.registration = r)) < es.length :=
      findIdx_lt_length.2 ⟨e, he, by simpa using hr⟩
    have hget := @findIdx_getElem _ (fun e => decide (e.registration = r)) es hlt
    exact ⟨hlt, by simpa using hget⟩
  obtain ⟨hlt, hr⟩ := hfound h
  obtain ⟨hlt', hr'⟩ := hfound h'
  have hindex := hplace.injective hlt hlt' (congrArg toLex heq)
  rw [← hr, ← hr']
  simp only [hindex]

def Event.isRevoke : Event → Bool
  | .agentRevoked .. => true
  | _ => false

def Event.isAgentDeposit : Event → Bool
  | .agentDeposit .. => true
  | _ => false

private theorem Advances.registration {s s' : Standing} {e : Emission} (h : Advances agent s e s') :
    e.registration = (agent, s'.count) ∧ e.event.isRegistration = true := by
  cases h <;> exact ⟨rfl, rfl⟩

theorem Valid.count_pos (h : Valid es st) {a : Address} {v : Nat} (hlive : (st a).live = some v) :
    1 ≤ (st a).count ∧ v < 2 ^ 63 := by
  induction h generalizing v with
  | nil => cases hlive
  | @snoc es st h agent e s hstep ih =>
    by_cases ha : a = agent
    · subst ha
      rw [update_self] at hlive ⊢
      cases hstep with
      | registered _ _ _ _ _ _ _ hfits =>
        cases hlive
        exact ⟨Nat.le_add_left .., hfits⟩
      | updated _ _ _ _ _ _ live hold _ hfits =>
        cases hlive
        exact ⟨(ih hold).1, hfits⟩
      | ended _ _ _ _ => cases hlive
      | deposited _ _ _ _ _ _ _ _ _ => exact ih hlive
    rw [update_of_ne ha] at hlive ⊢
    exact ih hlive

theorem Valid.used (h : Valid es st) (a : Address) (n : Nat) :
    (∃ e ∈ es, e.registration = (a, n)) ↔ 1 ≤ n ∧ n ≤ (st a).count := by
  induction h with
  | nil =>
    simp
    omega
  | @snoc es st h agent e s hstep ih =>
    have hsplit : (∃ e' ∈ es ++ [e], e'.registration = (a, n)) ↔
        (∃ e' ∈ es, e'.registration = (a, n)) ∨ e.registration = (a, n) := by
      simp [or_and_right, exists_or]
    rw [hsplit, ih, hstep.registration.1, Prod.mk.injEq]
    by_cases ha : a = agent
    · subst ha
      rw [update_self]
      have hpos := @Valid.count_pos _ _ h a
      cases hstep with
      | registered _ _ _ _ _ _ _ _ =>
        simp only [true_and]
        omega
      | updated _ _ _ _ _ _ live hold _ _ | ended _ _ live hold | deposited _ _ _ _ _ _ _ live hold =>
        have := (hpos hold).1
        simp only [true_and]
        omega
    rw [update_of_ne ha]
    have hne : ¬agent = a := fun heq => ha heq.symm
    simp [hne]

private theorem Valid.revoked (h : Valid es st) (a : Address) (n : Nat) :
    (∃ e ∈ es, e.registration = (a, n) ∧ e.event.isRevoke = true) ↔
      1 ≤ n ∧ n ≤ (st a).count ∧ (n < (st a).count ∨ (st a).live = none) := by
  induction h with
  | nil =>
    simp
    omega
  | @snoc es st h agent e s hstep ih =>
    have hsplit : (∃ e' ∈ es ++ [e], e'.registration = (a, n) ∧ e'.event.isRevoke = true) ↔
        (∃ e' ∈ es, e'.registration = (a, n) ∧ e'.event.isRevoke = true) ∨
          (e.registration = (a, n) ∧ e.event.isRevoke = true) := by
      simp [or_and_right, exists_or]
    rw [hsplit, ih, hstep.registration.1, Prod.mk.injEq]
    by_cases ha : a = agent
    · subst ha
      rw [update_self]
      have hpos := @Valid.count_pos _ _ h a
      cases hstep with
      | registered _ _ _ _ _ _ hold _ =>
        simp only [Event.isRevoke, hold, Bool.false_eq_true, and_false, or_false, or_true, and_true, reduceCtorEq]
        omega
      | updated _ _ _ _ _ _ live hold _ _ | deposited _ _ _ _ _ _ _ live hold =>
        simp only [Event.isRevoke, hold, Bool.false_eq_true, and_false, or_false, reduceCtorEq]
      | ended _ _ live hold =>
        have := (hpos hold).1
        simp only [Event.isRevoke, hold, true_and, and_true, or_false, or_true, reduceCtorEq]
        omega
    rw [update_of_ne ha]
    have hne : ¬agent = a := fun heq => ha heq.symm
    simp [hne]

/-- The tables after events: each row is of an event and under the key of its registration, each event has its row, and
the newest row of an agent tells how the agent stands. -/
structure Indexed (gateway : Address) (place : Nat → LogPlace) (es : List Emission) (st : Address → Standing)
    (r : Registered) : Prop where
  sorted : r.1.Pairwise fun p q => p.pos < q.pos
  policies : ∀ p ∈ r.1, ∃ i e, es[i]? = some e ∧ p.place = place i ∧ p.gateway = some gateway ∧
    p.agent = e.registration.1 ∧ p.registration = registrationKey place es e.registration ∧ p.revoked = e.event.isRevoke
  deposits : ∀ d ∈ r.2, ∃ i e, es[i]? = some e ∧ d.place = place i ∧
    d.registration = some (registrationKey place es e.registration)
  policyOf : ∀ i e, es[i]? = some e → e.event.isAgentDeposit = false → ∃ p ∈ r.1, p.place = place i
  depositOf : ∀ i e, es[i]? = some e → e.event.isAgentDeposit = true → ∃ d ∈ r.2, d.place = place i
  live : ∀ a v, (st a).live = some v → ∃ p, lastPolicy r.1 gateway a = some p ∧ p.revoked = false ∧
    p.fields.validUntil = some (v : Int) ∧ p.registration = registrationKey place es (a, (st a).count)
  ended : ∀ a, (st a).live = none → ∀ p, lastPolicy r.1 gateway a = some p → p.revoked = true

theorem asI64_of_lt {v : Nat} (h : v < 2 ^ 63) : asI64 v = v := if_pos h

private theorem indexed_nil (gateway : Address) (place : Nat → LogPlace) :
    Indexed gateway place [] (fun _ => ⟨0, none⟩) ([], []) := by
  constructor <;> simp [lastPolicy]

section Step

variable {gateway : Address} {place : Nat → LogPlace} {es : List Emission} {st : Address → Standing} {r : Registered}
  {agent : Address} {e : Emission} {s : Standing}

private theorem Indexed.policy_lt (h : Indexed gateway place es st r) (hplace : Placed place (es ++ [e])) :
    ∀ p ∈ r.1, p.pos < (place es.length).pos := by
  intro p hp
  obtain ⟨i, e', hi, heq, -⟩ := h.policies p hp
  have hlt := (List.getElem?_eq_some_iff.1 hi).1
  rw [pos, heq]
  exact hplace.order i es.length hlt (by simp)

private theorem Indexed.deposit_lt (h : Indexed gateway place es st r) (hplace : Placed place (es ++ [e])) :
    ∀ d ∈ r.2, d.pos < (place es.length).pos := by
  intro d hd
  obtain ⟨i, e', hi, heq, -⟩ := h.deposits d hd
  have hlt := (List.getElem?_eq_some_iff.1 hi).1
  rw [DepositRow.pos, heq]
  exact hplace.order i es.length hlt (by simp)

private theorem registrationKey_of_mem {i : Nat} {e' : Emission} (hi : es[i]? = some e') :
    registrationKey place (es ++ [e]) e'.registration = registrationKey place es e'.registration :=
  registrationKey_append ⟨e', mem_of_getElem? hi, rfl⟩ [e]

theorem getElem?_append_of_some {i : Nat} {e' : Emission} (hi : es[i]? = some e') : (es ++ [e])[i]? = some e' := by
  rw [List.getElem?_append_left (List.getElem?_eq_some_iff.1 hi).1, hi]

private theorem getElem?_concat {e' : Emission} {i : Nat} (h : (es ++ [e])[i]? = some e') :
    es[i]? = some e' ∨ i = es.length ∧ e' = e := by
  rw [getElem?_append] at h
  split at h
  · exact .inl h
  have hlt := (List.getElem?_eq_some_iff.1 h).1
  simp only [length_singleton, Nat.lt_one_iff] at hlt
  rw [hlt, getElem?_cons_zero, some.injEq] at h
  exact .inr ⟨by omega, h.symm⟩

/-- An event that adds the row of a policy, the newest of its agent. -/
theorem Indexed.policy (h : Indexed gateway place es st r) (hplace : Placed place (es ++ [e])) {row : PolicyRow}
    (hrow : row.place = place es.length) (hgateway : row.gateway = some gateway) (hagent : row.agent = agent)
    (hkey : row.registration = registrationKey place (es ++ [e]) e.registration)
    (hrevoked : row.revoked = e.event.isRevoke) (hdeposit : e.event.isAgentDeposit = false)
    (hregistration : e.registration = (agent, s.count))
    (hlive : ∀ v, s.live = some v → row.revoked = false ∧ row.fields.validUntil = some (v : Int))
    (hended : s.live = none → row.revoked = true) (hvalid : Valid es st) :
    Indexed gateway place (es ++ [e]) (update st agent s) (r.1 ++ [row], r.2) := by
  have hlt : ∀ p ∈ r.1, p.pos < row.pos := by
    rw [pos, hrow]
    exact h.policy_lt hplace
  have hself : (es ++ [e])[es.length]? = some e := by simp
  have hlast : ∀ a, lastPolicy (r.1 ++ [row]) gateway a = if agent = a then some row else lastPolicy r.1 gateway a := by
    intro a
    rw [lastPolicy_append hlt]
    simp [hgateway, hagent]
  constructor
  · rw [pairwise_append]
    refine ⟨h.sorted, by simp, ?_⟩
    intro p hp q hq
    rw [mem_singleton] at hq
    rw [hq]
    exact hlt p hp
  · intro p hp
    rw [mem_append, mem_singleton] at hp
    obtain hp | rfl := hp
    · obtain ⟨i, e', hi, hp', hw, ha, hk, hr⟩ := h.policies p hp
      refine ⟨i, e', getElem?_append_of_some hi, hp', hw, ha, ?_, hr⟩
      rw [registrationKey_of_mem hi, hk]
    · exact ⟨es.length, e, hself, hrow, hgateway, by rw [hagent, hregistration], hkey, hrevoked⟩
  · intro d hd
    obtain ⟨i, e', hi, hd', hk⟩ := h.deposits d hd
    refine ⟨i, e', getElem?_append_of_some hi, hd', ?_⟩
    rw [registrationKey_of_mem hi, hk]
  · intro i e' hi hpolicy
    rcases getElem?_concat hi with hi | ⟨rfl, -⟩
    · obtain ⟨p, hp, heq⟩ := h.policyOf i e' hi hpolicy
      exact ⟨p, mem_append_left _ hp, heq⟩
    · exact ⟨row, by simp, hrow⟩
  · intro i e' hi hdeposit'
    rcases getElem?_concat hi with hi | ⟨-, rfl⟩
    · exact h.depositOf i e' hi hdeposit'
    rw [hdeposit] at hdeposit'
    cases hdeposit'
  · intro a v hv
    rw [hlast]
    by_cases ha : agent = a
    · subst ha
      rw [update_self] at hv ⊢
      obtain ⟨hnot, huntil⟩ := hlive v hv
      exact ⟨row, if_pos rfl, hnot, huntil, by rw [hkey, hregistration]⟩
    rw [update_of_ne fun heq => ha heq.symm] at hv ⊢
    obtain ⟨p, hp, hnot, huntil, hk⟩ := h.live a v hv
    refine ⟨p, by rw [if_neg ha, hp], hnot, huntil, ?_⟩
    rw [hk, registrationKey_append]
    rw [hvalid.used]
    exact ⟨(hvalid.count_pos hv).1, le_refl _⟩
  · intro a hnone p hp
    rw [hlast] at hp
    by_cases ha : agent = a
    · subst ha
      rw [update_self] at hnone
      rw [if_pos rfl, some.injEq] at hp
      rw [← hp]
      exact hended hnone
    rw [update_of_ne fun heq => ha heq.symm] at hnone
    rw [if_neg ha] at hp
    exact h.ended a hnone p hp

/-- An event that adds the row of a deposit. -/
theorem Indexed.deposit (h : Indexed gateway place es st r) {row : DepositRow}
    (hrow : row.place = place es.length) (hkey : row.registration =
      some (registrationKey place (es ++ [e]) e.registration))
    (hdeposit : e.event.isAgentDeposit = true) (hvalid : Valid es st) :
    Indexed gateway place (es ++ [e]) st (r.1, r.2 ++ [row]) := by
  have hself : (es ++ [e])[es.length]? = some e := by simp
  constructor
  · exact h.sorted
  · intro p hp
    obtain ⟨i, e', hi, hp', hw, ha, hk, hr⟩ := h.policies p hp
    refine ⟨i, e', getElem?_append_of_some hi, hp', hw, ha, ?_, hr⟩
    rw [registrationKey_of_mem hi, hk]
  · intro d hd
    rw [mem_append, mem_singleton] at hd
    obtain hd | rfl := hd
    · obtain ⟨i, e', hi, hd', hk⟩ := h.deposits d hd
      refine ⟨i, e', getElem?_append_of_some hi, hd', ?_⟩
      rw [registrationKey_of_mem hi, hk]
    · exact ⟨es.length, e, hself, hrow, hkey⟩
  · intro i e' hi hpolicy
    rcases getElem?_concat hi with hi | ⟨-, rfl⟩
    · exact h.policyOf i e' hi hpolicy
    rw [hdeposit] at hpolicy
    cases hpolicy
  · intro i e' hi hdeposit'
    rcases getElem?_concat hi with hi | ⟨rfl, -⟩
    · obtain ⟨d, hd, heq⟩ := h.depositOf i e' hi hdeposit'
      exact ⟨d, mem_append_left _ hd, heq⟩
    · exact ⟨row, by simp, hrow⟩
  · intro a v hv
    obtain ⟨p, hp, hnot, huntil, hk⟩ := h.live a v hv
    refine ⟨p, hp, hnot, huntil, ?_⟩
    rw [hk, registrationKey_append]
    rw [hvalid.used]
    exact ⟨(hvalid.count_pos hv).1, le_refl _⟩
  · exact h.ended

private theorem insertAgentPolicy_of_fresh {policies : List PolicyRow} {at_ : LogPlace} {agent owner gateway : Address}
    {revoked : Bool} {fields : PolicyFields} (h : ∀ p ∈ policies, p.pos < at_.pos) :
    insertAgentPolicy timestampOf at_ agent owner revoked fields gateway policies = policies ++
      [⟨at_, agent, some owner, revoked, fields, some gateway, if revoked then .revoked else .authorized,
        if isStart (lastPolicy policies gateway agent) (if revoked then .revoked else .authorized)
          (timestampOf at_.blockNumber) then (at_.blockNumber, at_.logIndex)
        else ((lastPolicy policies gateway agent).map registration).getD (at_.blockNumber,
            at_.logIndex)⟩] := by
  unfold insertAgentPolicy
  rw [previousPolicy_eq h]
  apply insertNew_of_fresh
  intro p hp
  exact (h p hp).ne

/-- Every event keeps the tables in step with the registrations. -/
theorem Indexed.registerLog (h : Indexed gateway place es st r) (hvalid : Valid es st)
    (hstep : Advances agent (st agent) e s) (hplace : Placed place (es ++ [e]))
    (htimestamp : timestampOf e.block.number = some (asI64 e.block.timestamp.val)) :
    Indexed gateway place (es ++ [e]) (update st agent s)
      (registerLog cfg timestampOf r ⟨gateway, place es.length, e.event⟩) := by
  have hlt := h.policy_lt hplace
  have hblock : (place es.length).blockNumber = e.block.number := hplace.block es.length e (by simp)
  obtain ⟨hregistration, -⟩ := hstep.registration
  cases hstep with
  | registered owner validUntil maxPerPayment maxPerWindow shareReceiver block hlive hfits =>
    simp only [Indexer.registerLog, insertAgentPolicy_of_fresh hlt]
    have hnew : ∀ e' ∈ es, e'.registration ≠ (agent, (st agent).count + 1) := by
      intro e' he' heq
      have hle := ((hvalid.used agent ((st agent).count + 1)).1 ⟨e', he', heq⟩).2
      omega
    have hstart : isStart (lastPolicy r.1 gateway agent) .authorized (timestampOf (place es.length).blockNumber) =
        true := by
      cases hprev : lastPolicy r.1 gateway agent with
      | none => rfl
      | some p => simp [isStart, h.ended agent hlive p hprev]
    refine h.policy hplace rfl rfl rfl ?_ rfl rfl hregistration ?_ (by simp) hvalid
    · rw [registrationKey_append_of_new hnew]
      simp [hstart]
    · rintro v ⟨⟩
      exact ⟨rfl, by rw [authorizedFields, asI64_of_lt hfits]⟩
  | updated owner validUntil maxPerPayment maxPerWindow shareReceiver block live hlive hnow hfits =>
    simp only [Indexer.registerLog, insertAgentPolicy_of_fresh hlt]
    obtain ⟨p, hprev, hnot, huntil, hkey⟩ := h.live agent live hlive
    obtain ⟨hpos, hlive'⟩ := hvalid.count_pos hlive
    -- the row before had not expired, so the change stays in its registration
    have hstart : isStart (some p) .authorized (timestampOf (place es.length).blockNumber) = false := by
      dsimp only at hblock htimestamp
      rw [hblock, htimestamp, asI64_of_lt (by omega)]
      simp only [isStart, hnot, huntil, decide_true, Bool.false_or, Bool.true_and, decide_eq_false_iff_not]
      omega
    refine h.policy hplace rfl rfl rfl ?_ rfl rfl hregistration ?_ (by simp) hvalid
    · rw [registrationKey_append ((hvalid.used agent _).2 ⟨hpos, le_refl _⟩), ← hkey]
      simp [hstart, hprev]
    · rintro v ⟨⟩
      exact ⟨rfl, by rw [authorizedFields, asI64_of_lt hfits]⟩
  | ended owner block live hlive =>
    simp only [Indexer.registerLog, insertAgentPolicy_of_fresh hlt]
    obtain ⟨p, hprev, hnot, -, hkey⟩ := h.live agent live hlive
    have hpos := (hvalid.count_pos hlive).1
    have hstart : isStart (some p) .revoked (timestampOf (place es.length).blockNumber) = false := by
      simp [isStart, hnot]
    refine h.policy hplace rfl rfl rfl ?_ rfl rfl hregistration (by simp) (by simp) hvalid
    rw [registrationKey_append ((hvalid.used agent _).2 ⟨hpos, le_refl _⟩), ← hkey]
    simp [hstart, hprev]
  | deposited paymentId orderId shareReceiver amount sharesMinted windowId block live hlive =>
    obtain ⟨p, hprev, hnot, -, hkey⟩ := h.live agent live hlive
    have hpos := (hvalid.count_pos hlive).1
    simp only [Indexer.registerLog, insertAgentDeposit, previousPolicy_eq hlt, hprev, hnot, Bool.false_eq_true,
      ↓reduceIte, update_eq_self]
    rw [insertNew_of_fresh]
    · refine h.deposit rfl ?_ rfl hvalid
      rw [registrationKey_append ((hvalid.used agent _).2 ⟨hpos, le_refl _⟩), ← hkey]
    · intro d hd
      exact (h.deposit_lt hplace d hd).ne

end Step

private theorem emissionLogs_append (gateway : Address) (place : Nat → LogPlace) (es : List Emission) (e : Emission) :
    emissionLogs gateway place (es ++ [e]) =
      emissionLogs gateway place es ++ [⟨gateway, place es.length, e.event⟩] := by
  simp [emissionLogs, mapIdx_append]

theorem Valid.indexed (h : Valid es st) (hplace : Placed place es)
    (htimestamp : ∀ e ∈ es, timestampOf e.block.number = some (asI64 e.block.timestamp.val)) :
    Indexed gateway place es st ((emissionLogs gateway place es).foldl (registerLog cfg timestampOf) ([], [])) := by
  induction h with
  | nil => exact indexed_nil gateway place
  | @snoc es st h agent e s hstep ih =>
    have hbefore := ih hplace.left fun e' he' => htimestamp e' (mem_append_left _ he')
    rw [emissionLogs_append, foldl_append]
    exact hbefore.registerLog h hstep hplace (htimestamp e (by simp))

def registrationAt (r : Registered) (log : LogEntry) : Option (Nat × Nat) :=
  if log.event.isAgentDeposit then
    (r.2.find? fun d => decide (d.pos = log.place.pos)).bind fun d => d.registration
  else (r.1.find? fun p => decide (p.pos = log.place.pos)).map registration

section Consequences

variable {gateway : Address} {place : Nat → LogPlace} {es : List Emission} {st : Address → Standing} {r : Registered}

theorem Indexed.registrationAt (h : Indexed gateway place es st r) (hplace : Placed place es) {i : Nat} {e : Emission}
    (hi : es[i]? = some e) :
    registrationAt r ⟨gateway, place i, e.event⟩ = some (registrationKey place es e.registration) := by
  have hlt := (List.getElem?_eq_some_iff.1 hi).1
  have hsame : ∀ {j : Nat} {e' : Emission}, es[j]? = some e' → (place j).pos = (place i).pos → e' = e := by
    intro j e' hj heq
    have hindex := hplace.injective (List.getElem?_eq_some_iff.1 hj).1 hlt heq
    rw [hindex, hi, some.injEq] at hj
    exact hj.symm
  unfold Indexer.registrationAt
  cases hdeposit : e.event.isAgentDeposit
  · obtain ⟨p, hp, hp'⟩ := h.policyOf i e hi hdeposit
    have hfound : (r.1.find? fun q => decide (q.pos = (place i).pos)).isSome := by
      rw [List.find?_isSome]
      exact ⟨p, hp, by simp [pos, hp']⟩
    obtain ⟨q, hq⟩ := isSome_iff_exists.1 hfound
    have hpos : q.pos = (place i).pos := by simpa using List.find?_some hq
    obtain ⟨j, e', hj, hq', -, -, hkey, -⟩ := h.policies q (List.mem_of_find?_eq_some hq)
    rw [pos, hq'] at hpos
    rw [if_neg (by simp), hq, map_some, hkey, hsame hj hpos]
  · obtain ⟨d, hd, hd'⟩ := h.depositOf i e hi hdeposit
    have hfound : (r.2.find? fun q => decide (q.pos = (place i).pos)).isSome := by
      rw [List.find?_isSome]
      exact ⟨d, hd, by simp [DepositRow.pos, hd']⟩
    obtain ⟨q, hq⟩ := isSome_iff_exists.1 hfound
    have hpos : q.pos = (place i).pos := by simpa using List.find?_some hq
    obtain ⟨j, e', hj, hq', hkey⟩ := h.deposits q (List.mem_of_find?_eq_some hq)
    rw [DepositRow.pos, hq'] at hpos
    rw [if_pos rfl, hq, bind_some, hkey, hsame hj hpos]

variable {a : Address}

section

variable (h : Indexed gateway place es st r)

include h

private theorem Indexed.lt_last {p q : PolicyRow}
    (hp : lastPolicy r.1 gateway a = some p) (hq : q ∈ r.1) (hgateway : q.gateway = some gateway)
    (hagent : q.agent = a) (hne : q ≠ p) : q.pos < p.pos := by
  have hle : q.pos ≤ p.pos := le_of_mem_argmax (by simp [hq, hgateway, hagent]) hp
  apply lt_of_le_of_ne hle
  intro heq
  have hnodup : (r.1.map pos).Nodup := (pairwise_map.2 h.sorted).nodup
  exact hne (inj_on_of_nodup_map hnodup hq (mem_of_lastPolicy hp).1 heq)

private theorem Indexed.mem_registrationRows (hplace : Placed place es) {n : Nat}
    (hused : ∃ e ∈ es, e.registration = (a, n)) {p : PolicyRow}
    (hp : p ∈ registrationRows r.1 (some gateway) a (registrationKey place es (a, n))) :
    p ∈ r.1 ∧ ∃ e ∈ es, e.registration = (a, n) ∧ p.revoked = e.event.isRevoke := by
  simp only [registrationRows, mem_filter, decide_eq_true_eq] at hp
  obtain ⟨hp, -, hagent, hregistration⟩ := hp
  obtain ⟨i, e, hi, -, -, -, hkey, hrevoked⟩ := h.policies p hp
  have he := mem_of_getElem? hi
  refine ⟨hp, e, he, ?_, hrevoked⟩
  rw [hkey] at hregistration
  exact registrationKey_injective hplace ⟨e, he, rfl⟩ hused hregistration

private theorem Indexed.policyRow (hplace : Placed place es) {i : Nat} {e : Emission}
    (hi : es[i]? = some e) (hpolicy : e.event.isAgentDeposit = false) :
    ∃ p ∈ registrationRows r.1 (some gateway) e.registration.1 (registrationKey place es e.registration),
      p.revoked = e.event.isRevoke := by
  obtain ⟨p, hp, hp'⟩ := h.policyOf i e hi hpolicy
  obtain ⟨j, e', hj, hj', hgateway, hagent, hkey, hrevoked⟩ := h.policies p hp
  have hindex : j = i := by
    apply hplace.injective (List.getElem?_eq_some_iff.1 hj).1 (List.getElem?_eq_some_iff.1 hi).1
    rw [← hj', hp']
  rw [hindex, hi, some.injEq] at hj
  rw [← hj] at hagent hkey hrevoked
  exact ⟨p, by simp [registrationRows, hp, hgateway, hagent, hkey], hrevoked⟩

private theorem Indexed.revoked_of_ended (hvalid : Valid es st)
    (hplace : Placed place es) {n : Nat} (hn : 1 ≤ n) (hle : n ≤ (st a).count)
    (hended : n < (st a).count ∨ (st a).live = none) (tip : Int) :
    registrationStatus (registrationRows r.1 (some gateway) a (registrationKey place es (a, n))) tip = .revoked := by
  obtain ⟨e, he, hregistration, hrevoke⟩ := (hvalid.revoked a n).2 ⟨hn, hle, hended⟩
  obtain ⟨i, hi⟩ := mem_iff_getElem?.1 he
  have hpolicy : e.event.isAgentDeposit = false := by
    cases hevent : e.event <;> simp_all [Event.isRevoke, Event.isAgentDeposit]
  obtain ⟨p, hp, hrevoked⟩ := h.policyRow hplace hi hpolicy
  rw [hregistration] at hp
  have hany : (registrationRows r.1 (some gateway) a (registrationKey place es (a, n))).any revoked = true :=
    any_eq_true.2 ⟨p, hp, by rw [hrevoked, hrevoke]⟩
  rw [registrationStatus, if_pos hany]

private theorem Indexed.status_of_live (hvalid : Valid es st) (hplace : Placed place es)
    {v : Nat} (hlive : (st a).live = some v) (tip : Int) :
    registrationStatus (registrationRows r.1 (some gateway) a (registrationKey place es (a, (st a).count))) tip =
      if (v : Int) < tip then .expired else .active := by
  obtain ⟨p, hlast, hnot, huntil, hkey⟩ := h.live a v hlive
  obtain ⟨hp, hgateway, hagent⟩ := mem_of_lastPolicy hlast
  have hused := (hvalid.used a (st a).count).2 ⟨(hvalid.count_pos hlive).1, le_refl _⟩
  have hopen : (registrationRows r.1 (some gateway) a (registrationKey place es (a, (st a).count))).any
    revoked =
      false := by
    rw [List.any_eq_false]
    intro q hq hrevoked
    obtain ⟨-, e, he, hregistration, heq⟩ := h.mem_registrationRows hplace hused hq
    have hended := ((hvalid.revoked a _).1 ⟨e, he, hregistration, by rw [← heq, hrevoked]⟩).2.2
    rw [hlive] at hended
    obtain hlt | hnone := hended
    · exact absurd hlt (lt_irrefl _)
    · cases hnone
  have hnewest : ((registrationRows r.1 (some gateway) a (registrationKey place es (a, (st a).count))).filter
      fun q => !q.revoked).argmax pos = some p := by
    apply argmax_eq_of_newest
    · simp [registrationRows, hp, hgateway, hagent, hkey, hnot]
    · intro q hq hne
      have hq' := mem_of_mem_filter hq
      simp only [registrationRows, mem_filter, decide_eq_true_eq] at hq'
      exact h.lt_last hlast hq'.1 hq'.2.1 hq'.2.2.1 hne
  rw [registrationStatus, hopen, liveValidUntil, hnewest]
  simp [huntil]

theorem Indexed.active_iff (hvalid : Valid es st) (hplace : Placed place es)
    (a : Address) (tip : Int) (key : Nat × Nat) :
    (∃ row ∈ queryRegistrations r.1 tip none (some a) none, row.registration = key ∧ row.status = .active) ↔
      ∃ v, (st a).live = some v ∧ tip ≤ v ∧ key = registrationKey place es (a, (st a).count) := by
  constructor
  · rintro ⟨row, hrow, rfl, hactive⟩
    obtain ⟨p, hp, hagent, hregistration, hstatus⟩ := mem_queryRegistrations hrow
    obtain ⟨i, e, hi, -, hgateway, hagent', hkey, -⟩ := h.policies p hp
    have hpair : e.registration = (a, e.registration.2) := by rw [← hagent, hagent']
    obtain ⟨hpos, hle⟩ := (hvalid.used a e.registration.2).1 ⟨e, mem_of_getElem? hi, hpair⟩
    rw [hgateway, hkey, hpair] at hstatus
    rw [hregistration, hkey, hpair]
    by_cases hended : e.registration.2 < (st a).count ∨ (st a).live = none
    · rw [h.revoked_of_ended hvalid hplace hpos hle hended tip, hactive] at hstatus
      cases hstatus
    obtain ⟨hcount, hlive⟩ := not_or.1 hended
    obtain ⟨v, hv⟩ := ne_none_iff_exists'.1 hlive
    have hlast : e.registration.2 = (st a).count := by omega
    rw [hlast, h.status_of_live hvalid hplace hv, hactive] at hstatus
    rw [hlast]
    split at hstatus
    · cases hstatus
    rename_i htip
    exact ⟨v, hv, by omega, rfl⟩
  · rintro ⟨v, hlive, htip, rfl⟩
    obtain ⟨p, hlast, -, -, hkey⟩ := h.live a v hlive
    obtain ⟨hp, hgateway, hagent⟩ := mem_of_lastPolicy hlast
    obtain ⟨row, hrow, hregistration, hstatus⟩ := exists_mem_queryRegistrations hp tip
    rw [hagent] at hrow hstatus
    refine ⟨row, hrow, by rw [hregistration, hkey], ?_⟩
    rw [hstatus, hgateway, hkey, h.status_of_live hvalid hplace hlive, if_neg (by omega)]

end

end Consequences

end RobotMoney.Indexer
