import RobotMoney.Gateway.Registration

/-!
# Nobody is registered without consent

The gateway as a machine of calls by arbitrary accounts, with the history of commitments made and consumed.  The
stored commitments are exactly the pending ones of the history (`CommitmentsMatch`), because a storage key determines
the commit hash and the committer.  So a successful reveal consumes a commitment of its caller and, for another
agent, one of that agent for this caller and these exact bytes, and no other call makes an agent.
-/

namespace RobotMoney

open Evm List Function Gateway Except

variable {W : Type}

section Preimages

variable (enc : Encoding W)

theorem commitmentKey_injective {h h' : W} {a a' : Address} (e : commitmentKey enc h a = commitmentKey enc h' a') :
    h = h' ∧ a = a' := by
  have := enc.keccak_injective e
  simp only [Preimage.encode.injEq, cons.injEq, and_true] at this
  exact ⟨this.1, enc.word_injective this.2⟩

private theorem consentHash_injective {owner owner' : Address} {d d' : Calldata}
    (e : consentHash enc owner d = consentHash enc owner' d') : owner = owner' ∧ d = d' := by
  have := enc.keccak_injective e
  simp only [Preimage.encode.injEq, cons.injEq, and_true] at this
  have hd := enc.keccak_injective this.2
  exact ⟨enc.word_injective this.1, Preimage.data.inj hd⟩

private theorem ownerHash_ne_consentHash (agent owner : Address) (salt : W) (owner' : Address) (d : Calldata) :
    ownerHash enc agent owner salt ≠ consentHash enc owner' d := by
  intro e
  have := enc.keccak_injective e
  simp at this

end Preimages

/-- What a commitment is consumed for. -/
inductive Purpose where
  | registration
  | consent
  deriving DecidableEq, Repr

/-- The history of commitments: who made which one in which block, and when it was consumed. -/
inductive Act (W : Type) where
  | committed (account : Address) (hash : W) (block : Nat)
  | consumed (purpose : Purpose) (account : Address) (hash : W) (block : Nat)

/-- The gateway on the chain, with its history, newest first. -/
structure GatewayState (W : Type) where
  gateway : Gateway W
  block : Block
  history : List (Act W)

inductive GatewayCall (W : Type) where
  | advance (blocks : Nat) (t : BlockTime)
  | commitAuthorization (sender : Address) (commitHash : W)
  | revealAuthorization (sender : Address) (callData : Calldata)
  | setPolicy (sender agent : Address) (p : AgentPolicy)
  | revokeAgent (sender agent : Address)
  | grantRole (sender : Address) (role : Role) (account : Address)
  | revokeRole (sender : Address) (role : Role) (account : Address)
  | renounceRole (sender : Address) (role : Role) (callerConfirmation : Address)
  | pauseDeposits (sender : Address)
  | unpauseDeposits (sender : Address)

def revealActs (enc : Encoding W) (sender : Address) (callData : Calldata) (number : Nat) : List (Act W) :=
  match enc.decodeReveal callData with
  | none => []
  | some (agent, salt, _) =>
    if agent ≠ sender then
      [.consumed .consent agent (consentHash enc sender callData) number,
        .consumed .registration sender (ownerHash enc agent sender salt) number]
    else [.consumed .registration sender (ownerHash enc agent sender salt) number]

def gatewayStep [DecidableEq W] (enc : Encoding W) (s : GatewayState W) :
    GatewayCall W → Except GatewayError (GatewayState W)
  | .advance blocks t => .ok { s with block := ⟨s.block.number + blocks, s.block.timestamp.later t⟩ }
  | .commitAuthorization sender h =>
    .ok { s with
      gateway := s.gateway.commitAuthorization enc sender h s.block
      history := .committed sender h s.block.number :: s.history }
  | .revealAuthorization sender callData => do
    let g ← s.gateway.revealAuthorization enc sender callData s.block
    .ok { s with gateway := g, history := revealActs enc sender callData s.block.number ++ s.history }
  | .setPolicy sender agent p => do
    let g ← s.gateway.setPolicy sender agent p s.block.timestamp.val
    .ok { s with gateway := g }
  | .revokeAgent sender agent => do
    let g ← s.gateway.revokeAgent sender agent
    .ok { s with gateway := g }
  | .grantRole sender role account => do
    let g ← s.gateway.grantRole sender role account
    .ok { s with gateway := g }
  | .revokeRole sender role account => do
    let g ← s.gateway.revokeRole sender role account
    .ok { s with gateway := g }
  | .renounceRole sender role callerConfirmation => do
    let g ← s.gateway.renounceRole sender role callerConfirmation
    .ok { s with gateway := g }
  | .pauseDeposits sender => do
    let g ← s.gateway.pauseDeposits sender
    .ok { s with gateway := g }
  | .unpauseDeposits sender => do
    let g ← s.gateway.unpauseDeposits sender
    .ok { s with gateway := g }

def GatewayState.init (admin pauser : Address) (block : Block) : GatewayState W := ⟨.init admin pauser, block, []⟩

/-- The block of the commitment that `account` made for `hash` and that has not been consumed since. -/
def pending [DecidableEq W] : List (Act W) → Address → W → Option Nat
  | [], _, _ => none
  | .committed a h b :: rest, account, hash => if a = account ∧ h = hash then some b else pending rest account hash
  | .consumed _ a h _ :: rest, account, hash => if a = account ∧ h = hash then none else pending rest account hash

/-- Every consumption in the history is of a commitment the same account made itself and that was still pending, not
after it expired, and for a registration not in the block of the commitment. -/
def EveryConsumptionCommitted [DecidableEq W] (history : List (Act W)) : Prop :=
  ∀ newer older purpose account hash n, history = newer ++ .consumed purpose account hash n :: older →
    ∃ b, pending older account hash = some b ∧ b ≤ n ∧ n ≤ b + commitExpiryBlocks ∧
      (purpose = .registration → b + 1 ≤ n)

/-- No agent was added: the commitments are untouched, an owner is kept or cleared, and no account gained the agent
role. -/
structure Gateway.NoNewAgent (g g' : Gateway W) : Prop where
  commitments : g'.commitments = g.commitments
  owner : ∀ a, g'.agentOwner a = g.agentOwner a ∨ g'.agentOwner a = 0
  role : ∀ a, g'.hasRole .agent a = true → g.hasRole .agent a = true

private theorem NoNewAgent.refl (g : Gateway W) : g.NoNewAgent g := ⟨rfl, fun _ => .inl rfl, fun _ h => h⟩

variable {g g' : Gateway W} {role : Role} {account agent sender : Address}

private theorem internalGrantRole_spec (h : g.internalGrantRole role account = .ok g') :
    g'.commitments = g.commitments ∧ g'.agentOwner = g.agentOwner ∧
      ∀ r a, g'.hasRole r a = true → g.hasRole r a = true ∨ (r = role ∧ a = account) := by
  unfold internalGrantRole at h
  rw [bind_eq_ok] at h
  obtain ⟨-, -, h⟩ := h
  have hset : ∀ r a, (g.setRole role account true).hasRole r a = true →
      g.hasRole r a = true ∨ (r = role ∧ a = account) := by
    intro r a hr
    by_cases hra : r = role ∧ a = account
    · exact .inr hra
    · left; simpa [Gateway.setRole, hra] using hr
  split at h
  · cases h; exact ⟨rfl, rfl, fun _ _ h => .inl h⟩
  · split at h <;> cases h <;> exact ⟨rfl, rfl, hset⟩

private theorem internalRevokeRole_spec (h : g.internalRevokeRole role account = .ok g') :
    g'.commitments = g.commitments ∧ g'.agentOwner = g.agentOwner ∧
      ∀ r a, g'.hasRole r a = true → g.hasRole r a = true := by
  have hset : ∀ r a, (g.setRole role account false).hasRole r a = true → g.hasRole r a = true := by
    intro r a hr
    by_cases hra : r = role ∧ a = account
    · simp [Gateway.setRole, hra] at hr
    simp [Gateway.setRole] at hr
    exact hr.2
  unfold internalRevokeRole at h
  split at h
  · simp only [bind_eq_ok] at h
    obtain ⟨-, -, -, -, h⟩ := h
    split at h <;> cases h <;> exact ⟨rfl, rfl, hset⟩
  · cases h; exact ⟨rfl, rfl, fun _ _ h => h⟩

private theorem endRegistration_noNewAgent (h : g.endRegistration agent = .ok g') : g.NoNewAgent g' := by
  simp only [endRegistration, bind_eq_ok, ok.injEq] at h
  obtain ⟨g₁, hrev, rfl⟩ := h
  obtain ⟨hc, ho, hr⟩ := internalRevokeRole_spec hrev
  refine ⟨hc, fun a => ?_, fun a => hr _ a⟩
  show g₁.agentOwner a = g.agentOwner a ∨ g₁.agentOwner a = 0
  rw [ho]
  by_cases ha : a = agent
  · right; simp [ha]
  · left; simp [ha]

private theorem setPolicy_noNewAgent {p : AgentPolicy} {now : Nat} (h : g.setPolicy sender agent p now = .ok g') :
    g.NoNewAgent g' := by
  simp only [setPolicy, bind_eq_ok, ok.injEq] at h
  obtain ⟨-, -, -, -, -, -, -, -, rfl⟩ := h
  exact ⟨rfl, fun _ => .inl rfl, fun _ h => h⟩

private theorem revokeAgent_noNewAgent (h : g.revokeAgent sender agent = .ok g') : g.NoNewAgent g' := by
  simp only [revokeAgent, bind_eq_ok] at h
  obtain ⟨-, -, -, -, h⟩ := h
  exact endRegistration_noNewAgent h

private theorem grantRole_noNewAgent (h : g.grantRole sender role account = .ok g') : g.NoNewAgent g' := by
  simp only [grantRole, bind_eq_ok, revertIf_eq_ok] at h
  obtain ⟨-, hne, -, -, h⟩ := h
  obtain ⟨hc, ho, hr⟩ := internalGrantRole_spec h
  refine ⟨hc, fun a => .inl (by rw [ho]), fun a ha => ?_⟩
  rcases hr _ a ha with ha | ⟨rfl, -⟩
  · exact ha
  · exact absurd rfl hne

theorem noNewAgent_of_internalRevokeRole (h : g.internalRevokeRole role account = .ok g') : g.NoNewAgent g' := by
  obtain ⟨hc, ho, hr⟩ := internalRevokeRole_spec h
  exact ⟨hc, fun a => .inl (by rw [ho]), fun a => hr _ a⟩

private theorem register_spec {p : AgentPolicy} {now : Nat} (h : g.register sender agent p now = .ok g') :
    g'.commitments = g.commitments ∧ agent ≠ 0 ∧ g'.agentOwner agent = sender ∧
      (∀ a, a ≠ agent → g'.agentOwner a = g.agentOwner a ∨ g'.agentOwner a = 0) ∧
      ∀ a, g'.hasRole .agent a = true → g.hasRole .agent a = true ∨ a = agent := by
  simp only [register, bind_eq_ok, revertIf_eq_ok, ok.injEq] at h
  obtain ⟨-, hz, g₁, hrel, -, -, g₂, hgrant, -, -, rfl⟩ := h
  have h₁ : g.NoNewAgent g₁ := by
    unfold releaseExpired at hrel
    split at hrel
    · rw [bind_eq_ok] at hrel
      obtain ⟨-, -, hrel⟩ := hrel
      exact endRegistration_noNewAgent hrel
    · cases hrel; exact NoNewAgent.refl g
  obtain ⟨hc, ho, hr⟩ := internalGrantRole_spec hgrant
  refine ⟨hc.trans h₁.commitments, hz, by rw [ho]; simp, fun a ha => ?_, fun a ha => ?_⟩
  · rw [ho]
    simpa [ha] using h₁.owner a
  · rcases hr _ a ha with ha | ⟨-, rfl⟩
    · exact .inl (h₁.role a ha)
    · exact .inr rfl

section Reveal

variable [DecidableEq W] {enc : Encoding W}

/-- A commitment that can be revealed in block `n`. -/
private def Commitment.Ripe (c : Commitment) (n : Nat) : Prop :=
  c.committer ≠ 0 ∧ c.blockNumber + 1 ≤ n ∧ n ≤ c.blockNumber + commitExpiryBlocks

/-- What a successful reveal checked and cleared: the caller's own commitment, and the agent's consent when the agent
is not the caller. -/
private theorem reveal_spec {g g' : Gateway W} {sender : Address} {callData : Calldata} {block : Block}
    (h : g.revealAuthorization enc sender callData block = .ok g') :
    ∃ agent salt p, enc.decodeReveal callData = some (agent, salt, p) ∧
      (g.commitments (commitmentKey enc (ownerHash enc agent sender salt) sender)).Ripe block.number ∧
      (agent ≠ sender → agent ≠ 0 ∧
        (g.commitments (commitmentKey enc (consentHash enc sender callData) agent)).committer = agent ∧
        block.number ≤ (g.commitments (commitmentKey enc (consentHash enc sender callData) agent)).blockNumber +
          commitExpiryBlocks) ∧
      g'.commitments = (if agent ≠ sender then
        update (update g.commitments (commitmentKey enc (ownerHash enc agent sender salt) sender)
          Commitment.zero) (commitmentKey enc (consentHash enc sender callData) agent) Commitment.zero
        else update g.commitments (commitmentKey enc (ownerHash enc agent sender salt) sender)
          Commitment.zero) ∧
      g'.agentOwner agent = sender ∧
      (∀ a, a ≠ agent → g'.agentOwner a = g.agentOwner a ∨ g'.agentOwner a = 0) ∧
      ∀ a, g'.hasRole .agent a = true → g.hasRole .agent a = true ∨ a = agent := by
  unfold revealAuthorization at h
  split at h
  · cases h
  rename_i agent salt p hdec
  simp only [bind_eq_ok] at h
  obtain ⟨g₁, hown, g₂, hreg, hcons⟩ := h
  simp only [consumeOwner, bind_eq_ok, revertIf_eq_ok, ok.injEq] at hown
  obtain ⟨-, hfound, -, hold, -, hexp, rfl⟩ := hown
  obtain ⟨hcom, hz, howner, hothers, hrole⟩ := register_spec hreg
  refine ⟨agent, salt, p, hdec, ⟨hfound, by omega, by omega⟩, ?_, ?_⟩
  · intro hne
    simp only [consumeConsent, if_pos hne, bind_eq_ok, revertIf_eq_ok] at hcons
    obtain ⟨-, hby, -, hage, -⟩ := hcons
    have hkey : commitmentKey enc (consentHash enc sender callData) agent ≠
        commitmentKey enc (ownerHash enc agent sender salt) sender :=
      fun e => hne (commitmentKey_injective enc e).2
    rw [hcom] at hby hage
    simp only [setCommitment, update_of_ne hkey, ne_eq, not_not] at hby hage
    exact ⟨hz, hby, by omega⟩
  · unfold consumeConsent at hcons
    split at hcons
    · rename_i hne
      simp only [bind_eq_ok, ok.injEq] at hcons
      obtain ⟨-, -, -, -, rfl⟩ := hcons
      refine ⟨?_, howner, hothers, hrole⟩
      simp only [setCommitment, hcom, if_pos hne]
    rename_i hne
    cases hcons
    refine ⟨?_, howner, hothers, hrole⟩
    rw [hcom, if_neg hne]
    rfl

end Reveal

section Invariant

variable [DecidableEq W] (enc : Encoding W)

def slotOf (account : Address) : Option Nat → Commitment
  | some b => ⟨account, toUint64 b⟩
  | none => Commitment.zero

/-- The stored commitments are the pending ones of the history, none is from the future, and every consumption so far
was of a commitment made by the account itself. -/
structure GatewayState.CommitmentsMatch (s : GatewayState W) : Prop where
  stored : ∀ h a, s.gateway.commitments (commitmentKey enc h a) = slotOf a (pending s.history a h)
  past : ∀ a h b, pending s.history a h = some b → b ≤ s.block.number
  consented : EveryConsumptionCommitted s.history

variable {enc}

variable {history : List (Act W)} {s s' : GatewayState W}

private theorem everyConsumption_cons {act : Act W} (h : EveryConsumptionCommitted history)
    (hact : ∀ purpose account hash n, act = .consumed purpose account hash n → ∃ b, pending history account hash =
      some b ∧ b ≤ n ∧ n ≤ b + commitExpiryBlocks ∧ (purpose = .registration → b + 1 ≤ n)) :
    EveryConsumptionCommitted (act :: history) := by
  intro newer older purpose account hash n e
  cases newer with
  | nil =>
    simp only [nil_append, cons.injEq] at e
    obtain ⟨rfl, rfl⟩ := e
    exact hact purpose account hash n rfl
  | cons x newer =>
    simp only [cons_append, cons.injEq] at e
    exact h newer older purpose account hash n e.2

theorem toUint64_of_recent {b n : Nat} (hb : b ≤ n) (hn : n ≤ toUint64 b + commitExpiryBlocks) : toUint64 b = b := by
  unfold toUint64 commitExpiryBlocks at *
  omega

private theorem pending_of_slot {a : Address} {o : Option Nat} {n : Nat} (hz : (slotOf a o).committer ≠ 0)
    (hpast : ∀ b, o = some b → b ≤ n) (hexp : n ≤ (slotOf a o).blockNumber + commitExpiryBlocks) :
    ∃ b, o = some b ∧ (slotOf a o).blockNumber = b ∧ b ≤ n ∧ n ≤ b + commitExpiryBlocks := by
  cases o with
  | none => exact absurd rfl hz
  | some b =>
    have hb := hpast b rfl
    have := toUint64_of_recent hb hexp
    exact ⟨b, rfl, this, hb, by simpa [slotOf, this] using hexp⟩

private theorem reveal_consumes (hs : s.CommitmentsMatch enc) {sender : Address} {callData : Calldata}
    {g' : Gateway W} (h : s.gateway.revealAuthorization enc sender callData s.block = .ok g') :
    ∃ agent salt p, enc.decodeReveal callData = some (agent, salt, p) ∧
      (∃ b, pending s.history sender (ownerHash enc agent sender salt) = some b ∧ b + 1 ≤ s.block.number ∧
        s.block.number ≤ b + commitExpiryBlocks) ∧
      (agent ≠ sender → ∃ b, pending s.history agent (consentHash enc sender callData) = some b ∧
        b ≤ s.block.number ∧ s.block.number ≤ b + commitExpiryBlocks) := by
  obtain ⟨agent, salt, p, hdec, ⟨hz, hold, hexp⟩, hcons, -⟩ := reveal_spec h
  refine ⟨agent, salt, p, hdec, ?_, ?_⟩
  · rw [hs.stored] at hz hold hexp
    obtain ⟨b, hb, hslot, -, hle⟩ := pending_of_slot hz (fun b => hs.past _ _ b) hexp
    rw [hslot] at hold
    exact ⟨b, hb, hold, hle⟩
  · intro hne
    obtain ⟨hagent, hby, hage⟩ := hcons hne
    rw [hs.stored] at hby hage
    obtain ⟨b, hb, -, hpast, hle⟩ := pending_of_slot (by rw [hby]; exact hagent) (fun b => hs.past _ _ b) hage
    exact ⟨b, hb, hpast, hle⟩

private theorem pending_commit (history : List (Act W)) (a a' : Address) (h h' : W) (n : Nat) :
    pending (.committed a h n :: history) a' h' = if a = a' ∧ h = h' then some n else pending history a' h' := rfl

private theorem pending_consume (history : List (Act W)) (q : Purpose) (a a' : Address) (h h' : W) (n : Nat) :
    pending (.consumed q a h n :: history) a' h' = if a = a' ∧ h = h' then none else pending history a' h' := rfl

private theorem stored_consume {f : W → Commitment}
    (hf : ∀ h a, f (commitmentKey enc h a) = slotOf a (pending history a h)) (q : Purpose) (a₀ : Address) (h₀ : W)
    (n : Nat) (h : W) (a : Address) : update f (commitmentKey enc h₀ a₀) Commitment.zero (commitmentKey enc h a) =
      slotOf a (pending (.consumed q a₀ h₀ n :: history) a h) := by
  rw [pending_consume]
  by_cases e : a₀ = a ∧ h₀ = h
  · obtain ⟨rfl, rfl⟩ := e
    simp [slotOf]
  have hkey : commitmentKey enc h a ≠ commitmentKey enc h₀ a₀ := by
    intro hk
    obtain ⟨h1, h2⟩ := commitmentKey_injective enc hk
    exact e ⟨h2.symm, h1.symm⟩
  rw [update_of_ne hkey, hf, if_neg e]

private theorem past_consume {N : Nat} (hp : ∀ a h b, pending history a h = some b → b ≤ N) (q : Purpose)
    (a₀ : Address) (h₀ : W) (n : Nat) : ∀ a h b, pending (.consumed q a₀ h₀ n :: history) a h = some b → b ≤ N := by
  intro a h b hb
  rw [pending_consume] at hb
  split at hb
  · cases hb
  · exact hp a h b hb

private theorem commitmentsMatch_reveal (hs : s.CommitmentsMatch enc) {sender : Address} {callData : Calldata}
    (h : gatewayStep enc s (.revealAuthorization sender callData) = .ok s') : s'.CommitmentsMatch enc := by
  simp only [gatewayStep, bind_eq_ok, ok.injEq] at h
  obtain ⟨g', hrev, rfl⟩ := h
  obtain ⟨agent, salt, p, hdec, ⟨b, hb, hlo, hhi⟩, hcons⟩ := reveal_consumes hs hrev
  obtain ⟨agent', salt', p', hdec', -, -, hcom, -⟩ := reveal_spec hrev
  obtain ⟨rfl, rfl, rfl⟩ : agent = agent' ∧ salt = salt' ∧ p = p' := by
    rw [hdec] at hdec'
    simpa using hdec'
  -- the caller's commitment goes first, then the agent's consent
  have hreg : EveryConsumptionCommitted
      (.consumed .registration sender (ownerHash enc agent sender salt) s.block.number :: s.history) := by
    apply everyConsumption_cons hs.consented
    intro purpose account hash n e
    simp only [Act.consumed.injEq] at e
    obtain ⟨rfl, rfl, rfl, rfl⟩ := e
    exact ⟨b, hb, by omega, hhi, fun _ => hlo⟩
  have hstored := stored_consume hs.stored .registration sender (ownerHash enc agent sender salt) s.block.number
  have hpast := past_consume hs.past .registration sender (ownerHash enc agent sender salt) s.block.number
  by_cases hne : agent ≠ sender
  · obtain ⟨b', hb', hlo', hhi'⟩ := hcons hne
    rw [if_pos hne] at hcom
    constructor
    · intro h a
      show g'.commitments _ = slotOf a (pending (revealActs enc sender callData s.block.number ++ s.history) a h)
      simp only [revealActs, hdec, if_pos hne, hcom]
      exact stored_consume hstored .consent agent (consentHash enc sender callData) s.block.number h a
    · simp only [revealActs, hdec, if_pos hne]
      exact past_consume hpast .consent agent (consentHash enc sender callData) s.block.number
    · simp only [revealActs, hdec, if_pos hne]
      apply everyConsumption_cons hreg
      intro purpose account hash n e
      simp only [Act.consumed.injEq] at e
      obtain ⟨rfl, rfl, rfl, rfl⟩ := e
      refine ⟨b', ?_, hlo', hhi', fun h => by cases h⟩
      rw [pending_consume, if_neg (fun e => hne e.1.symm)]
      exact hb'
  rw [if_neg hne] at hcom
  constructor
  · intro h a
    show g'.commitments _ = slotOf a (pending (revealActs enc sender callData s.block.number ++ s.history) a h)
    simp only [revealActs, hdec, if_neg hne, hcom]
    exact hstored h a
  · simp only [revealActs, hdec, if_neg hne]
    exact hpast
  · simp only [revealActs, hdec, if_neg hne]
    exact hreg

private theorem gatewayStep_noNewAgent {c : GatewayCall W} (h : gatewayStep enc s c = .ok s')
    (hc : ∀ sender d, c ≠ .revealAuthorization sender d) (hc' : ∀ sender h, c ≠ .commitAuthorization sender h) :
    s.gateway.NoNewAgent s'.gateway ∧ s'.history = s.history ∧ s.block.number ≤ s'.block.number := by
  cases c with
  | advance blocks t =>
    cases h
    exact ⟨NoNewAgent.refl _, rfl, Nat.le_add_right ..⟩
  | commitAuthorization sender hash => exact absurd rfl (hc' sender hash)
  | revealAuthorization sender d => exact absurd rfl (hc sender d)
  | setPolicy sender agent p =>
    simp only [gatewayStep, bind_eq_ok, ok.injEq] at h
    obtain ⟨g, hg, rfl⟩ := h
    exact ⟨setPolicy_noNewAgent hg, rfl, le_rfl⟩
  | revokeAgent sender agent =>
    simp only [gatewayStep, bind_eq_ok, ok.injEq] at h
    obtain ⟨g, hg, rfl⟩ := h
    exact ⟨revokeAgent_noNewAgent hg, rfl, le_rfl⟩
  | grantRole sender role account =>
    simp only [gatewayStep, bind_eq_ok, ok.injEq] at h
    obtain ⟨g, hg, rfl⟩ := h
    exact ⟨grantRole_noNewAgent hg, rfl, le_rfl⟩
  | revokeRole sender role account | renounceRole sender role confirmation =>
    simp only [gatewayStep, revokeRole, renounceRole, bind_eq_ok, ok.injEq] at h
    obtain ⟨g, ⟨-, -, -, -, hg⟩, rfl⟩ := h
    exact ⟨noNewAgent_of_internalRevokeRole hg, rfl, le_rfl⟩
  | pauseDeposits sender | unpauseDeposits sender =>
    simp only [gatewayStep, pauseDeposits, unpauseDeposits, bind_eq_ok, ok.injEq] at h
    obtain ⟨g, ⟨-, -, -, -, rfl⟩, rfl⟩ := h
    exact ⟨⟨rfl, fun _ => .inl rfl, fun _ h => h⟩, rfl, le_rfl⟩

theorem commitmentsMatch_step {c : GatewayCall W} (hs : s.CommitmentsMatch enc) (h : gatewayStep enc s c = .ok s') :
    s'.CommitmentsMatch enc := by
  by_cases hrev : ∃ sender d, c = .revealAuthorization sender d
  · obtain ⟨sender, d, rfl⟩ := hrev
    exact commitmentsMatch_reveal hs h
  by_cases hcom : ∃ sender hash, c = .commitAuthorization sender hash
  · obtain ⟨sender, hash, rfl⟩ := hcom
    cases h
    constructor
    · intro h a
      show update s.gateway.commitments _ _ _ = slotOf a (pending (.committed sender hash _ :: _) a h)
      rw [pending_commit]
      by_cases e : sender = a ∧ hash = h
      · obtain ⟨rfl, rfl⟩ := e
        simp [slotOf]
      have hkey : commitmentKey enc h a ≠ commitmentKey enc hash sender := by
        intro hk
        obtain ⟨h1, h2⟩ := commitmentKey_injective enc hk
        exact e ⟨h2.symm, h1.symm⟩
      rw [update_of_ne hkey, hs.stored, if_neg e]
    · intro a h b hb
      rw [pending_commit] at hb
      split at hb
      · cases hb; exact le_rfl
      · exact hs.past a h b hb
    · exact everyConsumption_cons hs.consented (fun _ _ _ _ e => by cases e)
  push Not at hrev hcom
  obtain ⟨hno, hhist, hblock⟩ := gatewayStep_noNewAgent h hrev hcom
  constructor
  · intro h a
    rw [hhist, hno.commitments]
    exact hs.stored h a
  · intro a h b hb
    rw [hhist] at hb
    exact le_trans (hs.past a h b hb) hblock
  · rw [hhist]
    exact hs.consented

private theorem commitmentsMatch_run (admin pauser : Address) (block : Block) (cs : List (GatewayCall W)) :
    (run (gatewayStep enc) (GatewayState.init admin pauser block) cs).CommitmentsMatch enc := by
  apply run_invariant (P := fun s => s.CommitmentsMatch enc) (fun s c s' hs h => commitmentsMatch_step hs h)
  refine ⟨fun h a => rfl, fun a h b hb => (by cases hb), ?_⟩
  intro newer older purpose account hash n e
  simp [GatewayState.init] at e

end Invariant

private def lengthPrefixed : List (List Nat) → List Nat
  | [] => []
  | f :: fs => f.length :: f ++ lengthPrefixed fs

private theorem lengthPrefixed_injective : Function.Injective lengthPrefixed := by
  intro fs gs h
  induction fs generalizing gs with
  | nil =>
    cases gs with
    | nil => rfl
    | cons g gs => simp [lengthPrefixed] at h
  | cons f fs ih =>
    cases gs with
    | nil => simp [lengthPrefixed] at h
    | cons g gs =>
      simp only [lengthPrefixed, cons_append, cons.injEq] at h
      obtain ⟨hfg, hrest⟩ := append_inj h.2 h.1
      rw [hfg, ih hrest]

/-- An injective hash: words are lists of numbers and a digest spells its preimage out. -/
def Encoding.spelled (decodeReveal : Calldata → Option (Address × List Nat × AgentPolicy)) :
    Encoding (List Nat) where
  keccak
    | .encode fields => 0 :: lengthPrefixed fields
    | .data bytes => 1 :: bytes.map (·.val)
  word := fun a => [a.val]
  decodeReveal := decodeReveal
  keccak_injective := by
    intro p q h
    cases p <;> cases q <;> simp only [List.cons.injEq, true_and, Nat.zero_ne_one, Nat.one_ne_zero, false_and] at h
    · exact congrArg Preimage.encode (lengthPrefixed_injective h)
    · exact congrArg Preimage.data (List.map_injective_iff.2 Fin.val_injective h)
  word_injective := by
    intro a b h
    exact Fin.val_injective (List.cons.inj h).1

/-- Gateway consent.  In every state some run of the gateway reaches:

* the stored commitments are exactly the pending ones of the history, and every consumption in the history was of a
  commitment the same account had made itself, in time, and not consumed since;
* a successful reveal consumes the caller's own commitment to the agent, the caller and the salt, made at least one
  and at most `commitExpiryBlocks` blocks earlier, and, for another agent, that agent's own commitment to the caller
  and to the bytes of this very call;
* a hash committed to register is never one that consents, and a consent determines the caller and the calldata;
* a failed reveal consumes nothing, and only a reveal for an agent can give it an owner or the agent role. -/
theorem reveal_needs_both_commitments [DecidableEq W] (enc : Encoding W) (admin pauser : Address) (block : Block)
    (cs : List (GatewayCall W)) :
    let s := run (gatewayStep enc) (GatewayState.init admin pauser block) cs
    (∀ h a, s.gateway.commitments (commitmentKey enc h a) = slotOf a (pending s.history a h)) ∧
    EveryConsumptionCommitted s.history ∧
    (∀ sender callData s', gatewayStep enc s (.revealAuthorization sender callData) = .ok s' →
      ∃ agent salt p, enc.decodeReveal callData = some (agent, salt, p) ∧ s'.gateway.agentOwner agent = sender ∧
        (∃ b, pending s.history sender (ownerHash enc agent sender salt) = some b ∧ b + 1 ≤ s.block.number ∧
          s.block.number ≤ b + commitExpiryBlocks) ∧
        pending s'.history sender (ownerHash enc agent sender salt) = none ∧
        (agent ≠ sender →
          (∃ b, pending s.history agent (consentHash enc sender callData) = some b ∧ b ≤ s.block.number ∧
            s.block.number ≤ b + commitExpiryBlocks) ∧
          pending s'.history agent (consentHash enc sender callData) = none)) ∧
    (∀ agent owner salt owner' d, ownerHash enc agent owner salt ≠ consentHash enc owner' d) ∧
    (∀ owner owner' d d', consentHash enc owner d = consentHash enc owner' d' → owner = owner' ∧ d = d') ∧
    (∀ sender callData e, gatewayStep enc s (.revealAuthorization sender callData) = .error e →
      exec (gatewayStep enc) s (.revealAuthorization sender callData) = s) ∧
    (∀ c s' a, gatewayStep enc s c = .ok s' →
      (s'.gateway.agentOwner a ≠ 0 ∧ s'.gateway.agentOwner a ≠ s.gateway.agentOwner a) ∨
        (s'.gateway.hasRole .agent a = true ∧ s.gateway.hasRole .agent a = false) →
      ∃ sender callData salt p, c = .revealAuthorization sender callData ∧
        enc.decodeReveal callData = some (a, salt, p) ∧ s'.gateway.agentOwner a = sender) := by
  intro s
  have hs : s.CommitmentsMatch enc := commitmentsMatch_run admin pauser block cs
  clear_value s
  refine ⟨hs.stored, hs.consented, ?_, ownerHash_ne_consentHash enc, fun _ _ _ _ => consentHash_injective enc,
    fun _ _ _ h => exec_of_error h, ?_⟩
  · intro sender callData s' h
    simp only [gatewayStep, bind_eq_ok, ok.injEq] at h
    obtain ⟨g', hrev, rfl⟩ := h
    obtain ⟨agent, salt, p, hdec, hown, hcons⟩ := reveal_consumes hs hrev
    obtain ⟨agent', salt', p', hdec', -, -, -, howner, -⟩ := reveal_spec hrev
    obtain ⟨rfl, rfl, rfl⟩ : agent = agent' ∧ salt = salt' ∧ p = p' := by
      rw [hdec] at hdec'
      simpa using hdec'
    refine ⟨agent, salt, p, hdec, howner, hown, ?_, fun hne => ⟨hcons hne, ?_⟩⟩
    · simp only [revealActs, hdec]
      split
      · rename_i hne
        simp [pending_consume, hne]
      · simp [pending_consume]
    · simp [revealActs, hdec, hne, pending_consume]
  · intro c s' a h hnew
    by_cases hcom : ∃ sender hash, c = .commitAuthorization sender hash
    · obtain ⟨sender, hash, rfl⟩ := hcom
      cases h
      rcases hnew with ⟨-, hne⟩ | ⟨hnew, hold⟩
      · exact absurd rfl hne
      · exact absurd (hnew.symm.trans hold) (by decide)
    by_cases hrev : ∃ sender d, c = .revealAuthorization sender d
    · obtain ⟨sender, d, rfl⟩ := hrev
      simp only [gatewayStep, bind_eq_ok, ok.injEq] at h
      obtain ⟨g', hrev, rfl⟩ := h
      obtain ⟨agent, salt, p, hdec, -, -, -, howner, hothers, hrole⟩ := reveal_spec hrev
      have ha : a = agent := by
        by_contra hne
        rcases hnew with ⟨hz, hne'⟩ | ⟨hnew, hold⟩
        · rcases hothers a hne with h | h
          · exact hne' h
          · exact hz h
        · rcases hrole a hnew with h | h
          · exact absurd (h.symm.trans hold) (by decide)
          · exact hne h
      subst ha
      exact ⟨sender, d, salt, p, rfl, hdec, howner⟩
    · -- any other call keeps or clears owners and roles
      push Not at hcom hrev
      obtain ⟨hno, -, -⟩ := gatewayStep_noNewAgent h hrev hcom
      rcases hnew with ⟨hz, hne⟩ | ⟨hnew, hold⟩
      · rcases hno.owner a with h | h
        · exact absurd h hne
        · exact absurd h hz
      · exact absurd ((hno.role a hnew).symm.trans hold) (by decide)

/-- An owner and an agent that both committed, revealed one block later. -/
example :
    let p : AgentPolicy := ⟨true, 100, 5, 5, 3, [9], 0, 0, 0, []⟩
    let enc := Encoding.spelled fun _ => some (7, [], p)
    let cs := [.commitAuthorization 3 (ownerHash enc 7 3 []), .commitAuthorization 7 (consentHash enc 3 []),
      .advance 1 ⟨2, by decide, by decide⟩, .revealAuthorization 3 []]
    (run (gatewayStep enc) (GatewayState.init 1 2 ⟨10, ⟨1, by decide, by decide⟩⟩) cs).gateway.agentOwner 7 = 3 := by
  decide

end RobotMoney
