import RobotMoney.Gateway.Registered
import RobotMoney.Indexer.Registrations

/-!
# The registrations of the gateway, and those of the indexer

The gateway as a machine that emits its events, each with the registration it belongs to (`trackPayment`): a
registration is the `n`-th that `_register` started for its agent, and a payment belongs to the one it was checked
against.  The tables of the indexer group the rows in the same way, and its projection calls active what the gateway
honours (`registrations_match`), under three conditions: expiries and the time of the newest block are below `2 ^ 63`,
where the signed columns wrap, and no destination has the registration of the payment it is serving revoked, since the
event of the payment then follows the end of its registration.
-/

namespace RobotMoney.Indexer

open Evm GatewayWindows List Function Option Gateway Except

variable {W σ : Type}

variable {g g' : Gateway W} {account : Address}

private theorem agents_internalGrantRole {role : Role}
    (h : g.internalGrantRole role account = .ok g') : g'.agentOwner = g.agentOwner ∧ g'.agents = g.agents := by
  simp only [internalGrantRole, bind_eq_ok] at h
  obtain ⟨-, -, h⟩ := h
  split at h
  · cases h
    exact ⟨rfl, rfl⟩
  · split at h <;> cases h <;> exact ⟨rfl, rfl⟩

private theorem agents_internalRevokeRole {role : Role}
    (h : g.internalRevokeRole role account = .ok g') : g'.agentOwner = g.agentOwner ∧ g'.agents = g.agents := by
  unfold internalRevokeRole at h
  split at h
  · simp only [bind_eq_ok] at h
    obtain ⟨-, -, -, -, h⟩ := h
    split at h <;> cases h <;> exact ⟨rfl, rfl⟩
  cases h
  exact ⟨rfl, rfl⟩

variable {agent : Address}

private theorem agents_endRegistration (h : g.endRegistration agent = .ok g') :
    g'.agentOwner = update g.agentOwner agent 0 ∧ g'.agents = update g.agents agent .zero := by
  simp only [endRegistration, bind_eq_ok, ok.injEq] at h
  obtain ⟨g₁, hrevoke, rfl⟩ := h
  exact agents_internalRevokeRole hrevoke

variable {sender : Address}

private theorem agents_register {p : AgentPolicy} {now : Nat} (h : g.register sender agent p now = .ok g') :
    g'.agentOwner = update g.agentOwner agent sender ∧ g'.agents = update g.agents agent p ∧
      (g.agentOwner agent ≠ 0 → (g.agents agent).validUntil < now) ∧ now ≤ p.validUntil := by
  simp only [register, bind_eq_ok, ok.injEq] at h
  obtain ⟨-, -, g₁, hrelease, u, hvalid, g₂, hgrant, -, -, rfl⟩ := h
  obtain ⟨howner, hagents⟩ := agents_internalGrantRole hgrant
  have huntil : now ≤ p.validUntil := by
    simp only [validatePolicy, bind_eq_ok, revertIf_eq_ok] at hvalid
    obtain ⟨-, -, -, -, -, huntil, -⟩ := hvalid
    omega
  unfold releaseExpired at hrelease
  split at hrelease
  · simp only [bind_eq_ok, revertIf_eq_ok] at hrelease
    obtain ⟨-, hexpired, hend⟩ := hrelease
    obtain ⟨howner₁, hagents₁⟩ := agents_endRegistration hend
    refine ⟨?_, ?_, fun _ => by omega, huntil⟩
    · rw [howner, howner₁]
      simp
    · rw [hagents, hagents₁]
      simp
  rename_i hfree
  cases hrelease
  exact ⟨howner, hagents, fun hne => (hfree hne).elim, huntil⟩

section Reveal

variable [DecidableEq W] {enc : Encoding W}

private theorem agents_revealAuthorization {g g' : Gateway W} {sender : Address} {callData : Calldata} {block : Block}
    (h : g.revealAuthorization enc sender callData block = .ok g') :
    ∃ agent salt p, enc.decodeReveal callData = some (agent, salt, p) ∧
      g'.agentOwner = update g.agentOwner agent sender ∧ g'.agents = update g.agents agent p ∧
      (g.agentOwner agent ≠ 0 → (g.agents agent).validUntil < block.timestamp.val) ∧
      block.timestamp.val ≤ p.validUntil := by
  unfold revealAuthorization at h
  split at h
  · cases h
  rename_i agent salt p hdecode
  simp only [bind_eq_ok] at h
  obtain ⟨g₁, hown, g₂, hregister, hconsent⟩ := h
  have hfirst : g₁.agentOwner = g.agentOwner ∧ g₁.agents = g.agents := by
    simp only [consumeOwner, bind_eq_ok, ok.injEq] at hown
    obtain ⟨-, -, -, -, -, -, rfl⟩ := hown
    exact ⟨rfl, rfl⟩
  have hlast : g'.agentOwner = g₂.agentOwner ∧ g'.agents = g₂.agents := by
    unfold consumeConsent at hconsent
    split at hconsent
    · simp only [bind_eq_ok, ok.injEq] at hconsent
      obtain ⟨-, -, -, -, rfl⟩ := hconsent
      exact ⟨rfl, rfl⟩
    cases hconsent
    exact ⟨rfl, rfl⟩
  have heffect := agents_register hregister
  rw [hfirst.1, hfirst.2] at heffect
  exact ⟨agent, salt, p, hdecode, by rw [hlast.1, heffect.1], by rw [hlast.2, heffect.2.1], heffect.2.2⟩

end Reveal

private theorem agents_setPolicy {p : AgentPolicy} {now : Nat} (h : g.setPolicy sender agent p now = .ok g') :
    g'.agentOwner = g.agentOwner ∧ g'.agents = update g.agents agent p ∧ g.agentOwner agent = sender ∧
      now ≤ (g.agents agent).validUntil ∧ now ≤ p.validUntil := by
  simp only [setPolicy, bind_eq_ok, revertIf_eq_ok, validatePolicy, not_not, ok.injEq] at h
  obtain ⟨-, -, -, howner, -, hlive, -, ⟨-, -, -, -, -, huntil, -⟩, rfl⟩ := h
  exact ⟨rfl, rfl, howner, by omega, by omega⟩

private theorem agents_revokeAgent (h : g.revokeAgent sender agent = .ok g') :
    g'.agentOwner = update g.agentOwner agent 0 ∧ g'.agents = update g.agents agent .zero ∧ g.agentOwner agent ≠ 0 := by
  simp only [revokeAgent, bind_eq_ok, revertIf_eq_ok, not_or] at h
  obtain ⟨-, -, -, ⟨howner, -⟩, hend⟩ := h
  obtain ⟨howner', hagents'⟩ := agents_endRegistration hend
  exact ⟨howner', hagents', howner⟩

def authorized (agent owner : Address) (p : AgentPolicy) : Event :=
  .agentAuthorized agent owner p.validUntil p.maxPerPayment p.maxPerWindow p.shareReceiver

def policyOf (enc : Encoding W) : GatewayCall W → Option AgentPolicy
  | .revealAuthorization _ callData => (enc.decodeReveal callData).map fun x => x.2.2
  | .setPolicy _ _ p => some p
  | _ => none

/-- The events of a call that goes through; `count` is the number of registrations each agent has had. -/
def emissionsOf (enc : Encoding W) (s : GatewayState W) (count : Address → Nat) : GatewayCall W → List Emission
  | .revealAuthorization sender callData =>
    match enc.decodeReveal callData with
    | none => []
    | some (agent, _, p) =>
      -- `_register` ends an expired registration first
      (if s.gateway.agentOwner agent ≠ 0 then
        [⟨.agentRevoked agent (s.gateway.agentOwner agent), s.block, (agent, count agent)⟩] else []) ++
        [⟨authorized agent sender p, s.block, (agent, count agent + 1)⟩]
  | .setPolicy sender agent p => [⟨authorized agent sender p, s.block, (agent, count agent)⟩]
  | .revokeAgent _ agent => [⟨.agentRevoked agent (s.gateway.agentOwner agent), s.block, (agent, count agent)⟩]
  | _ => []

def countAfter (enc : Encoding W) (count : Address → Nat) : GatewayCall W → Address → Nat
  | .revealAuthorization _ callData =>
    match enc.decodeReveal callData with
    | none => count
    | some (agent, _, _) => update count agent (count agent + 1)
  | _ => count

/-- The gateway with its events so far. -/
structure Track (W : Type) where
  state : GatewayState W
  count : Address → Nat
  emissions : List Emission

def Track.standing (t : Track W) (a : Address) : Standing :=
  ⟨t.count a, if t.state.gateway.agentOwner a = 0 then none else some (t.state.gateway.agents a).validUntil⟩

variable {a : Address}

private theorem Track.standing_of_ne {t : Track W} (h : t.state.gateway.agentOwner a ≠ 0) :
    t.standing a = ⟨t.count a, some (t.state.gateway.agents a).validUntil⟩ := by
  simp [Track.standing, h]

private theorem Track.standing_of_eq {t : Track W} (h : t.state.gateway.agentOwner a = 0) :
    t.standing a = ⟨t.count a, none⟩ := by
  simp [Track.standing, h]

private theorem owner_ne_zero {g : Gateway W} (h : g.Registered) {a : Address} {now : BlockTime}
    (huntil : now.val ≤ (g.agents a).validUntil) : g.agentOwner a ≠ 0 := by
  cases h.account a with
  | registered howner _ _ _ => exact howner
  | unregistered _ _ hpolicy _ _ =>
    rw [hpolicy] at huntil
    have hpos := now.pos
    simp only [AgentPolicy.zero] at huntil
    omega

section Lifecycle

variable [DecidableEq W] (enc : Encoding W)

def trackCall (t : Track W) (c : GatewayCall W) : Track W :=
  match gatewayStep enc t.state c with
  | .ok s => ⟨s, countAfter enc t.count c, t.emissions ++ emissionsOf enc t.state t.count c⟩
  | .error _ => t

def ExpiryFits (s : GatewayState W) (c : GatewayCall W) : Prop :=
  ∀ s' p, gatewayStep enc s c = .ok s' → policyOf enc c = some p → p.validUntil < 2 ^ 63

/-- The events so far are those of the registrations of the gateway. -/
structure Track.Ok (t : Track W) : Prop where
  commitments : t.state.CommitmentsMatch enc
  registered : t.state.gateway.Registered
  valid : Valid t.emissions t.standing

variable {enc}

/-- What a call that goes through does to the owners and the policies. -/
inductive CallEffect (enc : Encoding W) (s s' : GatewayState W) : GatewayCall W → Prop
  | reveal (sender : Address) (callData : Calldata) (agent : Address) (salt : W) (p : AgentPolicy)
      (hdecode : enc.decodeReveal callData = some (agent, salt, p))
      (howner : s'.gateway.agentOwner = update s.gateway.agentOwner agent sender)
      (hagents : s'.gateway.agents = update s.gateway.agents agent p)
      (hexpired : s.gateway.agentOwner agent ≠ 0 → (s.gateway.agents agent).validUntil < s.block.timestamp.val)
      (huntil : s.block.timestamp.val ≤ p.validUntil) (hblock : s'.block = s.block) :
      CallEffect enc s s' (.revealAuthorization sender callData)
  | setPolicy (sender agent : Address) (p : AgentPolicy) (howner : s'.gateway.agentOwner = s.gateway.agentOwner)
      (hagents : s'.gateway.agents = update s.gateway.agents agent p)
      (hlive : s.block.timestamp.val ≤ (s.gateway.agents agent).validUntil)
      (huntil : s.block.timestamp.val ≤ p.validUntil) (hblock : s'.block = s.block) :
      CallEffect enc s s' (.setPolicy sender agent p)
  | revokeAgent (sender agent : Address)
      (howner : s'.gateway.agentOwner = update s.gateway.agentOwner agent 0)
      (hagents : s'.gateway.agents = update s.gateway.agents agent .zero)
      (hne : s.gateway.agentOwner agent ≠ 0) (hblock : s'.block = s.block) :
      CallEffect enc s s' (.revokeAgent sender agent)
  | other (c : GatewayCall W) (hemissions : ∀ count, emissionsOf enc s count c = [])
      (hcount : ∀ count, countAfter enc count c = count) (howner : s'.gateway.agentOwner = s.gateway.agentOwner)
      (hagents : s'.gateway.agents = s.gateway.agents) (hblock : (∀ n t, c ≠ .advance n t) → s'.block = s.block) :
      CallEffect enc s s' c

variable {c : GatewayCall W}

theorem gatewayStep_effect {s s' : GatewayState W} (hstep : gatewayStep enc s c = .ok s') : CallEffect enc s s' c := by
  cases c with
  | advance blocks t =>
    cases hstep
    exact .other _ (fun _ => rfl) (fun _ => rfl) rfl rfl fun h => (h blocks t rfl).elim
  | commitAuthorization sender hash =>
    cases hstep
    exact .other _ (fun _ => rfl) (fun _ => rfl) rfl rfl fun _ => rfl
  | revealAuthorization sender callData =>
    simp only [gatewayStep, bind_eq_ok, ok.injEq] at hstep
    obtain ⟨g, hreveal, rfl⟩ := hstep
    obtain ⟨agent, salt, p, hdecode, howner, hagents, hexpired, huntil⟩ := agents_revealAuthorization hreveal
    exact .reveal sender callData agent salt p hdecode howner hagents hexpired huntil rfl
  | setPolicy sender agent p =>
    simp only [gatewayStep, bind_eq_ok, ok.injEq] at hstep
    obtain ⟨g, hset, rfl⟩ := hstep
    obtain ⟨howner, hagents, -, hlive, huntil⟩ := agents_setPolicy hset
    exact .setPolicy sender agent p howner hagents hlive huntil rfl
  | revokeAgent sender agent =>
    simp only [gatewayStep, bind_eq_ok, ok.injEq] at hstep
    obtain ⟨g, hrevoke, rfl⟩ := hstep
    obtain ⟨howner, hagents, hne⟩ := agents_revokeAgent hrevoke
    exact .revokeAgent sender agent howner hagents hne rfl
  | grantRole sender role account =>
    simp only [gatewayStep, grantRole, bind_eq_ok, ok.injEq] at hstep
    obtain ⟨g, ⟨-, -, -, -, hgrant⟩, rfl⟩ := hstep
    obtain ⟨howner, hagents⟩ := agents_internalGrantRole hgrant
    exact .other _ (fun _ => rfl) (fun _ => rfl) howner hagents fun _ => rfl
  | revokeRole sender role account | renounceRole sender role confirmation =>
    simp only [gatewayStep, revokeRole, renounceRole, bind_eq_ok, ok.injEq] at hstep
    obtain ⟨g, ⟨-, -, -, -, hrevoke⟩, rfl⟩ := hstep
    obtain ⟨howner, hagents⟩ := agents_internalRevokeRole hrevoke
    exact .other _ (fun _ => rfl) (fun _ => rfl) howner hagents fun _ => rfl
  | pauseDeposits sender | unpauseDeposits sender =>
    simp only [gatewayStep, pauseDeposits, unpauseDeposits, bind_eq_ok, ok.injEq] at hstep
    obtain ⟨g, ⟨-, -, -, -, rfl⟩, rfl⟩ := hstep
    exact .other _ (fun _ => rfl) (fun _ => rfl) rfl rfl fun _ => rfl

private theorem state_trackCall (t : Track W) (c : GatewayCall W) :
    (trackCall enc t c).state = exec (gatewayStep enc) t.state c := by
  cases hstep : gatewayStep enc t.state c <;> simp [trackCall, exec, hstep]

variable {t : Track W}

private theorem trackCall_of_ok {s : GatewayState W} (h : gatewayStep enc t.state c = .ok s) :
    trackCall enc t c = ⟨s, countAfter enc t.count c, t.emissions ++ emissionsOf enc t.state t.count c⟩ := by
  simp [trackCall, h]

theorem trackCall_of_error {e : GatewayError} (h : gatewayStep enc t.state c = .error e) : trackCall enc t c = t := by
  simp [trackCall, h]

/-- Step lemma: every call keeps the events those of the registrations. -/
theorem Track.Ok.trackCall (h : t.Ok enc) (hfits : ExpiryFits enc t.state c) : (trackCall enc t c).Ok enc := by
  cases hstep : gatewayStep enc t.state c with
  | error e =>
    rw [trackCall_of_error hstep]
    exact h
  | ok s =>
    have hregistered := registered_step h.commitments h.registered hstep
    have hfits' := fun p => hfits s p hstep
    rw [trackCall_of_ok hstep]
    refine ⟨commitmentsMatch_step h.commitments hstep, hregistered, ?_⟩
    cases gatewayStep_effect hstep with
    | reveal sender callData agent salt p hdecode howner hagents hexpired huntil hblock =>
      have hp : p.validUntil < 2 ^ 63 := hfits' p (by simp [policyOf, hdecode])
      have hsender : sender ≠ 0 := by
        have hne := @owner_ne_zero _ s.gateway hregistered agent t.state.block.timestamp
        simp only [hagents, howner, update_self] at hne
        exact hne huntil
      have hstanding : ∀ es, Track.standing ⟨s, update t.count agent (t.count agent + 1), es⟩ =
          update t.standing agent ⟨t.count agent + 1, some p.validUntil⟩ := by
        intro es
        funext a
        by_cases ha : a = agent
        · subst ha
          simp [Track.standing, howner, hagents, hsender]
        · simp [Track.standing, howner, hagents, ha]
      simp only [countAfter, emissionsOf, hdecode, hstanding]
      by_cases hold : t.state.gateway.agentOwner agent = 0
      · have hfree := Track.standing_of_eq hold
        have hvalid := @Valid.snoc _ _ h.valid agent _ _ (.registered sender p.validUntil p.maxPerPayment p.maxPerWindow
          p.shareReceiver t.state.block (by rw [hfree]) hp)
        rw [hfree] at hvalid
        simpa [hold, authorized] using hvalid
      -- the expired registration ends before the new one starts
      have hlive := Track.standing_of_ne hold
      have hended := @Valid.snoc _ _ h.valid agent _ _ (.ended (t.state.gateway.agentOwner agent) t.state.block _
        (by rw [hlive]))
      have hvalid := @Valid.snoc _ _ hended agent _ _ (.registered sender p.validUntil p.maxPerPayment p.maxPerWindow
        p.shareReceiver t.state.block (by rw [update_self]) hp)
      simp only [hlive, update_self, update_idem, append_assoc] at hvalid
      rw [if_pos hold]
      exact hvalid
    | setPolicy sender agent p howner hagents hlive huntil hblock =>
      have hne := owner_ne_zero h.registered hlive
      have hvalid := @Valid.snoc _ _ h.valid agent _ _ (.updated sender p.validUntil p.maxPerPayment p.maxPerWindow
        p.shareReceiver t.state.block _ (by rw [Track.standing_of_ne hne]) hlive (hfits' p rfl))
      rw [Track.standing_of_ne hne] at hvalid
      have hstanding : ∀ es, Track.standing ⟨s, t.count, es⟩ =
          update t.standing agent ⟨t.count agent, some p.validUntil⟩ := by
        intro es
        funext a
        by_cases ha : a = agent
        · subst ha
          simp [Track.standing, howner, hagents, hne]
        · simp [Track.standing, howner, hagents, ha]
      simp only [countAfter, emissionsOf, hstanding]
      exact hvalid
    | revokeAgent sender agent howner hagents hne hblock =>
      have hvalid := @Valid.snoc _ _ h.valid agent _ _ (.ended (t.state.gateway.agentOwner agent) t.state.block _
        (by rw [Track.standing_of_ne hne]))
      rw [Track.standing_of_ne hne] at hvalid
      have hstanding : ∀ es, Track.standing ⟨s, t.count, es⟩ =
          update t.standing agent ⟨t.count agent, none⟩ := by
        intro es
        funext a
        by_cases ha : a = agent
        · subst ha
          simp [Track.standing, howner]
        · simp [Track.standing, howner, hagents, ha]
      simp only [countAfter, emissionsOf, hstanding]
      exact hvalid
    | other _ hemissions hcount howner hagents hblock =>
      have hstanding : Track.standing ⟨s, t.count, t.emissions⟩ = t.standing := by
        funext a
        simp [Track.standing, howner, hagents]
      rw [hemissions, hcount, append_nil, hstanding]
      exact h.valid

/-- A call that revokes `agent`. -/
def Revokes (enc : Encoding W) (s : GatewayState W) (agent : Address) (c : GatewayCall W) : Prop :=
  ∃ sender s', c = .revokeAgent sender agent ∧ gatewayStep enc s c = .ok s'

/-- The registration that a payment was checked against is still there. -/
structure Serving (t : Track W) (agent : Address) (count : Nat) (now : BlockTime) : Prop where
  time : t.state.block.timestamp = now
  live : now.val ≤ (t.state.gateway.agents agent).validUntil
  count : t.count agent = count

private theorem Serving.trackCall {agent : Address} {n : Nat} {now : BlockTime} (h : Serving t agent n now)
    (hregistered : t.state.gateway.Registered) (hblock : ∀ n t, c ≠ .advance n t)
    (hrevokes : ¬Revokes enc t.state agent c) : Serving (trackCall enc t c) agent n now := by
  cases hstep : gatewayStep enc t.state c with
  | error e =>
    rw [trackCall_of_error hstep]
    exact h
  | ok s =>
    obtain ⟨htime, hlive, hcount⟩ := h
    rw [trackCall_of_ok hstep]
    cases gatewayStep_effect hstep with
    | reveal sender callData agent' salt p hdecode howner hagents hexpired huntil hsame =>
      have hne : agent ≠ agent' := by
        rintro rfl
        have hlt := hexpired (owner_ne_zero hregistered hlive)
        rw [htime] at hlt
        omega
      exact ⟨by rw [hsame, htime], by simpa [hagents, hne] using hlive,
        by simpa [countAfter, hdecode, hne] using hcount⟩
    | setPolicy sender agent' p howner hagents hlive' huntil hsame =>
      refine ⟨by rw [hsame, htime], ?_, hcount⟩
      by_cases hne : agent = agent'
      · subst hne
        rw [htime] at huntil
        simpa [hagents] using huntil
      · simpa [hagents, hne] using hlive
    | revokeAgent sender agent' howner hagents hne hsame =>
      have hne : agent ≠ agent' := by
        rintro rfl
        exact hrevokes ⟨sender, s, rfl, hstep⟩
      exact ⟨by rw [hsame, htime], by simpa [hagents, hne] using hlive, hcount⟩
    | other _ hemissions hcount' howner hagents hsame =>
      exact ⟨by rw [hsame hblock, htime], by simpa [hagents] using hlive, by simpa [hcount'] using hcount⟩

end Lifecycle

private theorem agents_accrueDeposit {amount cap now : Nat} (h : g.accrueDeposit agent amount cap now = .ok g') :
    g'.agentOwner = g.agentOwner ∧ g'.agents = g.agents ∧ g'.commitments = g.commitments := by
  unfold accrueDeposit at h
  split at h
  · cases h
  cases h
  exact ⟨rfl, rfl, rfl⟩

/-- The gateway with its payments and its events so far. -/
structure PaymentTrack (W σ : Type) where
  state : PaymentState W σ
  count : Address → Nat
  emissions : List Emission

def PaymentTrack.gateway (t : PaymentTrack W σ) : Track W := ⟨t.state.registration, t.count, t.emissions⟩

section Payments

variable (enc : PaymentEncoding W) (site : GatewaySite) (out : Counterparties W σ) (bytes32 : W → Word)

/-- `depositTo` up to the calls that the destination makes back: the gateway then, and what the destination did. -/
def payment (s : PaymentState W σ) (sender : Address) (d : DepositTo W) :
    Except PaymentError (Gateway W × Deposited W σ) := do
  let g := s.registration.gateway
  let now := s.registration.block.timestamp.val
  checkPayment g sender d now
  revertIf (s.usedPaymentIds (paymentId enc site (d.intent sender)) = true) .paymentIdAlreadyUsed
  let p := g.agents sender
  let g ← g.accrueDeposit sender d.amount.val p.maxPerWindow now
  let o ← pullPayment site out s.outside sender d.amount.val
  let r ← executeVaultDeposit site out o d.destination p.shareReceiver d.amount.val
    (out.usdcBalance s.outside site.self)
  .ok (g, r)

private theorem payment_eq_ok {enc : PaymentEncoding W} {site : GatewaySite} {out : Counterparties W σ}
    {s : PaymentState W σ} {sender : Address} {d : DepositTo W} {g : Gateway W} {r : Deposited W σ}
    (h : payment enc site out s sender d = .ok (g, r)) : s.registration.gateway.hasRole .agent sender = true ∧
      s.registration.block.timestamp.val ≤ (s.registration.gateway.agents sender).validUntil ∧
      s.registration.gateway.accrueDeposit sender d.amount.val (s.registration.gateway.agents sender).maxPerWindow
        s.registration.block.timestamp.val = .ok g := by
  simp only [payment, checkPayment, bind_eq_ok, revertIf_eq_ok, ok.injEq, Prod.mk.injEq] at h
  obtain ⟨-, ⟨-, hrole, -, -, -, -, -, -, -, -, -, -, -, -, -, huntil, -⟩, -, -, g', haccrue, -, -, -, -, rfl, -⟩ := h
  exact ⟨by simpa using hrole, by omega, haccrue⟩

variable [DecidableEq W]

def depositEmission (t : PaymentTrack W σ) (sender : Address) (d : DepositTo W) (sharesMinted : Nat) : Emission where
  event := .agentDeposit (bytes32 (paymentId enc site (d.intent sender))) (bytes32 d.orderId) sender
    (t.state.registration.gateway.agents sender).shareReceiver d.amount.val sharesMinted
    (toUint64 (t.state.registration.block.timestamp.val / windowSeconds))
  block := t.state.registration.block
  registration := (sender, t.count sender)

def trackPayment (t : PaymentTrack W σ) : PaymentCall W σ → PaymentTrack W σ
  | .lifecycle c =>
    let t' := trackCall enc.toEncoding t.gateway c
    ⟨{ t.state with registration := t'.state }, t'.count, t'.emissions⟩
  | .depositTo sender d =>
    match payment enc site out t.state sender d with
    | .error _ => t
    | .ok (g, r) =>
      let t' := (r.callbacks.map (·.val)).foldl (trackCall enc.toEncoding)
        ⟨{ t.state.registration with gateway := g }, t.count, t.emissions⟩
      ⟨{ t.state with
          registration := t'.state
          usedPaymentIds := update t.state.usedPaymentIds (paymentId enc site (d.intent sender)) true
          outside := r.outside
          executed := d.intent sender :: t.state.executed },
        t'.count, t'.emissions ++ [depositEmission enc site bytes32 t sender d r.sharesMinted]⟩
  | .elsewhere o => ⟨{ t.state with outside := o }, t.count, t.emissions⟩

/-- What a call must meet: expiries fit, also in the calls that a destination makes back, and the destination does not
have the registration of the payment revoked. -/
def RegistrationsFit (s : PaymentState W σ) : PaymentCall W σ → Prop
  | .lifecycle c => ExpiryFits enc.toEncoding s.registration c
  | .depositTo sender d => ∀ g r, payment enc site out s sender d = .ok (g, r) →
    Along (gatewayStep enc.toEncoding)
      (fun s c => ExpiryFits enc.toEncoding s c ∧ ¬Revokes enc.toEncoding s sender c)
      { s.registration with gateway := g } (r.callbacks.map (·.val))
  | .elsewhere _ => True

variable {enc site out bytes32}

private theorem state_trackCalls (t : Track W) (cs : List (GatewayCall W)) :
    (cs.foldl (trackCall enc.toEncoding) t).state = run (gatewayStep enc.toEncoding) t.state cs := by
  induction cs generalizing t with
  | nil => rfl
  | cons c cs ih => rw [foldl_cons, ih, state_trackCall, run_cons]

private theorem depositTo_eq (s : PaymentState W σ) (sender : Address) (d : DepositTo W) :
    depositTo enc site out s sender d = payment enc site out s sender d >>= fun x =>
      .ok { s with
        registration :=
          run (gatewayStep enc.toEncoding) { s.registration with gateway := x.1 } (x.2.callbacks.map (·.val))
        usedPaymentIds := update s.usedPaymentIds (paymentId enc site (d.intent sender)) true
        outside := x.2.outside } := by
  simp [depositTo, payment]

private theorem state_trackPayment (t : PaymentTrack W σ) (c : PaymentCall W σ) :
    (trackPayment enc site out bytes32 t c).state = exec (paymentStep enc site out) t.state c := by
  cases c with
  | lifecycle c =>
    cases hstep : gatewayStep enc.toEncoding t.state.registration c with
    | error e | ok s =>
      simp [trackPayment, state_trackCall, exec, paymentStep, PaymentTrack.gateway, hstep]
  | depositTo sender d =>
    cases hpayment : payment enc site out t.state sender d with
    | error e =>
      simp [trackPayment, exec, paymentStep, depositTo_eq, hpayment]
    | ok x => simp [trackPayment, exec, paymentStep, depositTo_eq, hpayment, state_trackCalls]
  | elsewhere o => rfl

theorem Serving.trackCalls {t : Track W} {agent : Address} {n : Nat} {now : BlockTime} (h : Serving t agent n now)
    (hok : t.Ok enc.toEncoding) {cs : List (Callback W)} (hfits : Along (gatewayStep enc.toEncoding)
      (fun s c => ExpiryFits enc.toEncoding s c ∧ ¬Revokes enc.toEncoding s agent c) t.state (cs.map (·.val))) :
    Serving ((cs.map (·.val)).foldl (Indexer.trackCall enc.toEncoding) t) agent n now ∧
      ((cs.map (·.val)).foldl (Indexer.trackCall enc.toEncoding) t).Ok enc.toEncoding := by
  induction cs generalizing t with
  | nil => exact ⟨h, hok⟩
  | cons c cs ih =>
    obtain ⟨⟨hexpiry, hrevokes⟩, hrest⟩ := hfits
    rw [← state_trackCall] at hrest
    exact ih (h.trackCall hok.registered c.property hrevokes) (hok.trackCall hexpiry) hrest

/-- Step lemma: every call of the gateway with its payments keeps the events those of the registrations. -/
theorem ok_trackPayment {t : PaymentTrack W σ} (h : t.gateway.Ok enc.toEncoding) {c : PaymentCall W σ}
    (hfits : RegistrationsFit enc site out t.state c) :
    (trackPayment enc site out bytes32 t c).gateway.Ok enc.toEncoding := by
  cases c with
  | lifecycle c => exact h.trackCall hfits
  | depositTo sender d =>
    cases hpayment : payment enc site out t.state sender d with
    | error e =>
      simp only [trackPayment, hpayment]
      exact h
    | ok x =>
      obtain ⟨g, r⟩ := x
      obtain ⟨hrole, huntil, haccrue⟩ := payment_eq_ok hpayment
      obtain ⟨howner, hagents, hcommitments⟩ := agents_accrueDeposit haccrue
      have hstart : Track.Ok enc.toEncoding
          ⟨{ t.state.registration with gateway := g }, t.count, t.emissions⟩ := by
        refine ⟨⟨fun hash a => ?_, h.commitments.past, h.commitments.consented⟩,
          registered_accrueDeposit h.registered hrole haccrue, ?_⟩
        · show g.commitments _ = _
          rw [hcommitments]
          exact h.commitments.stored hash a
        · have hstanding : Track.standing ⟨{ t.state.registration with gateway := g }, t.count, t.emissions⟩ =
              t.gateway.standing := by
            funext a
            simp only [Track.standing, PaymentTrack.gateway, howner, hagents]
            rfl
          rw [hstanding]
          exact h.valid
      have hserving : Serving ⟨{ t.state.registration with gateway := g }, t.count, t.emissions⟩ sender (t.count sender)
          t.state.registration.block.timestamp := ⟨rfl, by rw [hagents]; exact huntil, rfl⟩
      obtain ⟨⟨htime, hlive, hcount⟩, hafter⟩ := hserving.trackCalls hstart (hfits g r hpayment)
      have hne := owner_ne_zero hafter.registered hlive
      simp only [trackPayment, hpayment]
      refine ⟨hafter.commitments, hafter.registered, ?_⟩
      have hvalid := @Valid.snoc _ _ hafter.valid sender _ _ (.deposited
        (bytes32 (paymentId enc site (d.intent sender))) (bytes32 d.orderId)
        (t.state.registration.gateway.agents sender).shareReceiver d.amount.val r.sharesMinted
        (toUint64 (t.state.registration.block.timestamp.val / windowSeconds)) t.state.registration.block _
        (by rw [Track.standing_of_ne hne]))
      rw [update_eq_self, Track.standing_of_ne hne, hcount] at hvalid
      exact hvalid
  | elsewhere o => exact h

private theorem ok_trackPayments {t : PaymentTrack W σ} (h : t.gateway.Ok enc.toEncoding) {cs : List (PaymentCall W σ)}
    (hfits : Along (paymentStep enc site out) (RegistrationsFit enc site out) t.state cs) :
    (cs.foldl (trackPayment enc site out bytes32) t).gateway.Ok enc.toEncoding ∧
      (cs.foldl (trackPayment enc site out bytes32) t).state = run (paymentStep enc site out) t.state cs := by
  induction cs generalizing t with
  | nil => exact ⟨h, rfl⟩
  | cons c cs ih =>
    obtain ⟨hfirst, hrest⟩ := hfits
    have hstate := @state_trackPayment _ _ enc site out bytes32 _ t c
    rw [← hstate] at hrest
    obtain ⟨hok, hrun⟩ := ih (ok_trackPayment h hfirst) hrest
    rw [foldl_cons, run_cons, ← hstate]
    exact ⟨hok, hrun⟩

end Payments

def PaymentTrack.init (g : Gateway W) (block : Block) (o : σ) : PaymentTrack W σ := ⟨.init g block o, fun _ => 0, []⟩

private theorem ok_init [DecidableEq W] {enc : PaymentEncoding W} {usdc admin pauser : Address}
    (h : Gateway.initialize usdc admin pauser = .ok g) (block : Block) (o : σ) :
    (PaymentTrack.init g block o).gateway.Ok enc.toEncoding := by
  obtain ⟨hne, rfl⟩ := initialize_eq_ok h
  refine ⟨⟨fun h a => rfl, fun a h b hb => (by cases hb), ?_⟩, registered_init hne, ?_⟩
  · intro newer older purpose account hash n heq
    simp [PaymentTrack.gateway, PaymentTrack.init, PaymentState.init] at heq
  · exact .nil

def Honours (g : Gateway W) (agent : Address) (now : Nat) : Prop :=
  g.agentOwner agent ≠ 0 ∧ now ≤ (g.agents agent).validUntil

/-- Registrations of the indexer are those of the gateway.  For every run whose calls meet the condition, with the logs
of the run handled in chain order among any others and the headers of their blocks stored:

* every event of the run has a row, and two rows have the same registration exactly if their events have;
* the projection calls active, at the time of the newest block, exactly the registration that the gateway honours
  then. -/
theorem registrations_match [DecidableEq W] (enc : PaymentEncoding W) (site : GatewaySite) (out : Counterparties W σ)
    (bytes32 : W → Word) {usdc admin pauser : Address} {g₀ : Gateway W}
    (h₀ : Gateway.initialize usdc admin pauser = .ok g₀) (block : Block) (o : σ) (cs : List (PaymentCall W σ))
    (hfits : Along (paymentStep enc site out) (RegistrationsFit enc site out) (.init g₀ block o) cs)
    (cfg : Config) (vaultOfExclusionLedger : Address → Option Address) (created : List (Word × Address))
    (timestampOf : Nat → Option Int) (hgateway : cfg.gateway = some site.self) (place : Nat → LogPlace)
    (logs : List LogEntry) (tip : BlockTime) (htip : tip.val < 2 ^ 63) :
    let t := cs.foldl (trackPayment enc site out bytes32) (.init g₀ block o)
    let g := (run (paymentStep enc site out) (.init g₀ block o) cs).registration.gateway
    let db := handleAll cfg vaultOfExclusionLedger created timestampOf .empty logs
    let key := fun i e => registrationAt db.tables.registered ⟨site.self, place i, Emission.event e⟩
    Placed place t.emissions → logs.filter (isRegistrationLog site.self) = emissionLogs site.self place t.emissions →
    (∀ e ∈ t.emissions, timestampOf e.block.number = some (asI64 e.block.timestamp.val)) →
    (∀ i e, t.emissions[i]? = some e → ∃ k, key i e = some k) ∧
    (∀ i j e e', t.emissions[i]? = some e → t.emissions[j]? = some e' →
      (key i e = key j e' ↔ e.registration = e'.registration)) ∧
    ∀ a k, (∃ row ∈ queryRegistrations db.tables.policies (asI64 tip.val) none (some a) none,
        row.registration = k ∧ row.status = .active) ↔
      Honours g a tip.val ∧ ∃ i e, t.emissions[i]? = some e ∧ e.registration = (a, t.count a) ∧ key i e = some k := by
  intro t g db key hplace hlogs htimestamp
  obtain ⟨hok, hrun⟩ := @ok_trackPayments _ _ enc site out bytes32 _ _ (ok_init h₀ block o) _ hfits
  have hvalid : Valid t.emissions t.gateway.standing := hok.valid
  have hregistered : db.tables.registered =
      (emissionLogs site.self place t.emissions).foldl (registerLog cfg timestampOf) ([], []) := by
    rw [registered_handleAll hgateway, hlogs]
    rfl
  have hindexed : Indexed site.self place t.emissions t.gateway.standing db.tables.registered := by
    rw [hregistered]
    exact hvalid.indexed hplace htimestamp
  have hkey : ∀ i e, t.emissions[i]? = some e → key i e = some (registrationKey place t.emissions e.registration) :=
    fun i e hi => hindexed.registrationAt hplace hi
  refine ⟨?_, ?_, ?_⟩
  · intro i e hi
    exact ⟨_, hkey i e hi⟩
  · intro i j e e' hi hj
    rw [hkey i e hi, hkey j e' hj, some.injEq]
    constructor
    · intro heq
      exact registrationKey_injective hplace ⟨e, mem_of_getElem? hi, rfl⟩ ⟨e', mem_of_getElem? hj, rfl⟩ heq
    · intro heq
      rw [heq]
  · intro a k
    have hactive := hindexed.active_iff hvalid hplace a (asI64 tip.val) k
    have hg : t.gateway.state.gateway = g := congrArg (fun s => s.registration.gateway) hrun
    rw [asI64_of_lt htip] at hactive ⊢
    refine hactive.trans ?_
    constructor
    · rintro ⟨v, hlive, hle, rfl⟩
      have hused := (hvalid.used a (t.count a)).2 ⟨(hvalid.count_pos hlive).1, le_refl _⟩
      obtain ⟨e, he, heq⟩ := hused
      obtain ⟨i, hi⟩ := mem_iff_getElem?.1 he
      simp only [Track.standing, hg] at hlive
      split at hlive
      · cases hlive
      · rename_i howner
        cases hlive
        refine ⟨⟨howner, by omega⟩, i, e, hi, heq, ?_⟩
        rw [hkey i e hi, heq]
        rfl
    · rintro ⟨⟨howner, hle⟩, i, e, hi, heq, hk⟩
      rw [hkey i e hi, some.injEq, heq] at hk
      refine ⟨(g.agents a).validUntil, ?_, by omega, hk.symm⟩
      simp [Track.standing, hg, howner]

private theorem placed_of_list {places : List LogPlace} {es : List Emission} {d : LogPlace}
    (hblocks : es.map (fun e => e.block.number) = places.map LogPlace.blockNumber)
    (horder : places.Pairwise fun p q => p.pos < q.pos) : Placed (fun i => places.getD i d) es := by
  have hlength : es.length = places.length := by simpa using congrArg length hblocks
  constructor
  · intro i e hi
    have hlt : i < places.length := hlength ▸ (List.getElem?_eq_some_iff.1 hi).1
    have hget : (es.map fun e => e.block.number)[i]? = (places.map LogPlace.blockNumber)[i]? := by rw [hblocks]
    rw [getElem?_map, getElem?_map, hi, getElem?_eq_getElem hlt, map_some, map_some, some.injEq] at hget
    rw [getD_eq_getElem?_getD, getElem?_eq_getElem hlt, getD_some, hget]
  · intro i j hij hj
    rw [hlength] at hj
    have hlt := pairwise_iff_getElem.1 horder i j (by omega) hj hij
    rwa [getD_eq_getElem?_getD, getD_eq_getElem?_getD, getElem?_eq_getElem hj,
      getElem?_eq_getElem (by omega)]

def sampleDeposit : DepositTo (List Nat) := ⟨[1], ⟨5, by decide⟩, 10, [2], 9, [], 3000000⟩

/-- The sample registration, a payment in its block, and a change of the policy in the next. -/
def sampleRun : List (PaymentCall (List Nat) (Token × (Address → Balances))) :=
  sampleRegistration ++ [.depositTo 7 sampleDeposit, .lifecycle (.advance 1 ⟨3, by decide, by decide⟩),
    .lifecycle (.setPolicy 3 7 samplePolicy)]

def samplePlaces : List LogPlace := [⟨2, 0, 1⟩, ⟨2, 3, 2⟩, ⟨3, 1, 3⟩]

def gatewayConfig : Config := ⟨some 50, 9, none, none, none, none, none, none, 100, none, true⟩

/-- The header of block `n` is stamped `n`. -/
def sampleTimestamps (n : Nat) : Option Int := some n

def sampleTrack : PaymentTrack (List Nat) (Token × (Address → Balances)) :=
  sampleRun.foldl (trackPayment sampleEncoding ⟨50, opDepositTo⟩ .plain fun _ => 0)
    (.init (.init 1 2) Block.sample sampleWorld)

section Plain

variable {enc : PaymentEncoding W} {site : GatewaySite}

theorem callbacks_of_plain {s : PaymentState W (Token × (Address → Balances))} {sender : Address} {d : DepositTo W}
    {g : Gateway W} {r : Deposited W (Token × (Address → Balances))} (h : payment enc site .plain s sender d =
      .ok (g, r)) :
    r.callbacks = [] := by
  simp only [payment, bind_eq_ok, ok.injEq, Prod.mk.injEq] at h
  obtain ⟨-, -, -, -, -, -, o, -, r', hdeposit, -, rfl⟩ := h
  simp only [executeVaultDeposit, bind_eq_ok, orRevert_eq_ok, ok.injEq] at hdeposit
  obtain ⟨-, -, o', -, r, hr, -, -, -, -, -, -, -, -, rfl⟩ := hdeposit
  simp only [Counterparties.plain] at hr
  split at hr
  · cases hr
    rfl
  · cases hr

private theorem fits_of_plain [DecidableEq W] {cs : List (PaymentCall W (Token × (Address → Balances)))}
    (h : ∀ c, .lifecycle c ∈ cs → ∀ p, policyOf enc.toEncoding c = some p → p.validUntil < 2 ^ 63)
    (s : PaymentState W (Token × (Address → Balances))) :
    Along (paymentStep enc site .plain) (RegistrationsFit enc site .plain) s cs := by
  induction cs generalizing s with
  | nil => trivial
  | cons c cs ih =>
    refine ⟨?_, ih (fun c hc => h c (mem_cons_of_mem _ hc)) _⟩
    cases c with
    | lifecycle c =>
      intro s' p _ hp
      exact h c mem_cons_self p hp
    | depositTo sender d =>
      intro g r hpayment
      rw [callbacks_of_plain hpayment]
      trivial
    | elsewhere o => trivial

end Plain

/-- Account 3 registers agent 7, the agent pays, and account 3 changes the policy: one registration, under the place of
its first event, and active at second 50. -/
theorem registrations_match_of_sampleRun :
    let logs := emissionLogs 50 (fun i => samplePlaces.getD i ⟨0, 0, 0⟩) sampleTrack.emissions
    let db := handleAll gatewayConfig (fun _ => none) [] sampleTimestamps .empty logs
    ∃ k, ∃ row ∈ queryRegistrations db.tables.policies 50 none (some 7) none, row.registration = k ∧
        row.status = .active := by
  intro logs db
  have hfits : ∀ c, PaymentCall.lifecycle c ∈ sampleRun → ∀ p, policyOf sampleEncoding.toEncoding c = some p →
      p.validUntil < 2 ^ 63 := by
    intro c hc p hp
    have hpolicy : p = samplePolicy := by
      simp only [sampleRun, sampleRegistration, cons_append, nil_append, mem_cons, PaymentCall.lifecycle.injEq,
        not_mem_nil, or_false, reduceCtorEq, false_or] at hc
      rcases hc with rfl | rfl | rfl | rfl | rfl | rfl
      · cases hp
      · cases hp
      · cases hp
      · exact (some.inj hp).symm
      · cases hp
      · exact (some.inj hp).symm
    rw [hpolicy]
    decide
  have hblocks : sampleTrack.emissions.map (fun e => e.block.number) = samplePlaces.map LogPlace.blockNumber := by
    decide +kernel
  have hlogs : logs.filter (isRegistrationLog 50) = logs := by decide +kernel
  have hheaders : sampleTrack.emissions.all
      (fun e => decide (sampleTimestamps e.block.number = some (asI64 e.block.timestamp.val))) = true := by
    decide +kernel
  obtain ⟨hkeys, -, hactive⟩ := registrations_match sampleEncoding ⟨50, opDepositTo⟩ .plain (fun _ => 0)
    (show Gateway.initialize 60 1 2 = .ok _ from rfl) Block.sample sampleWorld sampleRun
    (fits_of_plain hfits _) gatewayConfig (fun _ => none) [] sampleTimestamps rfl _ logs ⟨50, by decide, by decide⟩
    (by decide) (placed_of_list hblocks (by decide)) hlogs
    (fun e he => of_decide_eq_true (all_eq_true.1 hheaders e he))
  have hfirst : (sampleTrack.emissions[0]?).map Emission.registration = some (7, sampleTrack.count 7) :=
    by decide +kernel
  obtain ⟨e, he, hregistration⟩ := map_eq_some_iff.1 hfirst
  obtain ⟨k, hk⟩ := hkeys 0 e he
  refine ⟨k, (hactive 7 k).2 ⟨?_, 0, e, he, hregistration, hk⟩⟩
  constructor
  · decide +kernel
  · decide +kernel

/-- A policy without an end in sight: the first expiry that the signed column holds as a negative number. -/
def farPolicy : AgentPolicy := { samplePolicy with validUntil := 2 ^ 63 }

def farEncoding : PaymentEncoding (List Nat) := .spelled fun _ => some (7, [], farPolicy)

private theorem two_lt_stamps : 2 < 2 ^ 64 := by decide

/-- Account 3 registers agent 7 under the far policy, and sets the same policy again in the next block. -/
def farRun : List (PaymentCall (List Nat) (Token × (Address → Balances))) :=
  [.lifecycle (.commitAuthorization 3 (ownerHash farEncoding.toEncoding 7 3 [])),
    .lifecycle (.commitAuthorization 7 (consentHash farEncoding.toEncoding 3 [])),
    .lifecycle (.advance 1 ⟨2, Nat.two_pos, two_lt_stamps⟩), .lifecycle (.revealAuthorization 3 []),
    .lifecycle (.advance 1 ⟨3, by decide, by decide⟩), .lifecycle (.setPolicy 3 7 farPolicy)]

def farTrack : PaymentTrack (List Nat) (Token × (Address → Balances)) :=
  farRun.foldl (trackPayment farEncoding ⟨50, opDepositTo⟩ .plain fun _ =>
    0) (.init (.init 1 2) Block.sample sampleWorld)

def farPlaces : List LogPlace := [⟨2, 0, 1⟩, ⟨3, 1, 2⟩]

/-- The two events of one registration get different keys, and no registration is active although the gateway honours
it. -/
theorem registrations_differ_of_farRun :
    let place := fun i => farPlaces.getD i ⟨0, 0, 0⟩
    let logs := emissionLogs 50 place farTrack.emissions
    let db := handleAll gatewayConfig (fun _ => none) [] sampleTimestamps .empty logs
    Gateway.initialize 60 1 2 = .ok (Gateway.init 1 2 : Gateway (List Nat)) ∧ Placed place farTrack.emissions ∧
      (∀ e ∈ farTrack.emissions, sampleTimestamps e.block.number = some (asI64 e.block.timestamp.val)) ∧
      farTrack.emissions.map Emission.registration = [(7, 1), (7, 1)] ∧
      logs.map (registrationAt db.tables.registered) = [some (2, 0), some (3, 1)] ∧
      Honours (run (paymentStep farEncoding ⟨50, opDepositTo⟩ .plain) (.init (.init 1 2) Block.sample sampleWorld)
        farRun).registration.gateway 7 3 ∧
      ∀ row ∈ queryRegistrations db.tables.policies (asI64 3) none (some 7) none, row.status ≠ .active := by
  intro place logs db
  have hinit : Gateway.initialize 60 1 2 = .ok (Gateway.init 1 2 : Gateway (List Nat)) := by
    obtain ⟨g₀, h₀⟩ : ∃ g₀ : Gateway (List Nat), Gateway.initialize 60 1 2 = .ok g₀ := ⟨_, rfl⟩
    rw [h₀, (initialize_eq_ok h₀).2]
  have hblocks : farTrack.emissions.map (fun e => e.block.number) = farPlaces.map LogPlace.blockNumber := by
    decide +kernel
  have hheaders : farTrack.emissions.all
      (fun e => decide (sampleTimestamps e.block.number = some (asI64 e.block.timestamp.val))) = true := by
    decide +kernel
  refine ⟨hinit, placed_of_list hblocks (by decide), ?_, by decide +kernel, by decide +kernel, ⟨?_, ?_⟩, ?_⟩
  · intro e he
    exact of_decide_eq_true (all_eq_true.1 hheaders e he)
  · decide +kernel
  · decide +kernel
  · decide +kernel

end RobotMoney.Indexer
