import RobotMoney.Evm.Chain
import RobotMoney.Gateway.Windows

/-!
# Agent registration (`RobotMoneyGateway`, `AccessRoles`)

The agent lifecycle of the gateway: two-step commitments, the consented reveal, policy updates and revocation, with
the role bookkeeping they go through.  Hashes are values of a type `W` of 32-byte words; the hash function and the
ABI decoder of the reveal's arguments are parameters (`Encoding`), with the injectivity of the hash as a field.
-/

namespace RobotMoney

open Evm GatewayWindows Function

abbrev Calldata := List (Fin 256)

/-- What the gateway hashes: the ABI encoding of a list of 32-byte fields, or the whole calldata. -/
inductive Preimage (W : Type) where
  | encode (fields : List W)
  | data (bytes : Calldata)

/-- Numbers of blocks after which a commitment expires (`COMMIT_EXPIRY_BLOCKS`). -/
def commitExpiryBlocks : Nat := 256

/-- Per-agent policy, with the retired withdraw members that must stay zero. -/
structure AgentPolicy where
  active : Bool
  validUntil : Nat
  maxPerPayment : Nat
  maxPerWindow : Nat
  shareReceiver : Address
  allowedDestinations : List Address
  assetRecipient : Address
  maxWithdrawPerPayment : Nat
  maxWithdrawPerWindow : Nat
  allowedSourceVaults : List Address
  deriving DecidableEq, Repr

/-- The zero policy a `delete` leaves. -/
def AgentPolicy.zero : AgentPolicy := ⟨false, 0, 0, 0, 0, [], 0, 0, 0, []⟩

/-- `keccak256`, the embedding of addresses into words, and the ABI decoder of `revealAuthorization`. -/
structure Encoding (W : Type) where
  keccak : Preimage W → W
  word : Address → W
  decodeReveal : Calldata → Option (Address × W × AgentPolicy)
  keccak_injective : Function.Injective keccak
  word_injective : Function.Injective word

/-- Roles of `AccessRoles`; any other `bytes32` role is `other`. -/
inductive Role where
  | defaultAdmin
  | admin
  | depositPauser
  | agent
  | other (id : Nat)
  deriving DecidableEq, Repr

/-- Errors of the registration surface. -/
inductive GatewayError where
  | zeroAddress
  | depositsArePaused
  | depositsNotPaused
  | invalidAmount
  | agentPolicyExpired
  | invalidValidUntil
  | notAgentOwner
  | agentAlreadyOwned
  | ownerConsentMissing
  | commitmentNotFound
  | commitmentExpired
  | commitmentTooRecent
  | shareReceiverNotAuthorized
  | emptyAllowedDestinations
  | retiredPolicyFieldNonZero
  | roleSeparationViolated
  | agentRoleNotManageable
  | lastAdminFloor
  | accessControlUnauthorizedAccount (account : Address) (role : Role)
  | accessControlBadConfirmation
  | malformedCalldata
  deriving DecidableEq, Repr

/-- Pending commitment; the zero committer means none. -/
structure Commitment where
  committer : Address
  blockNumber : Nat
  deriving DecidableEq, Repr

def Commitment.zero : Commitment := ⟨0, 0⟩

/-- Per-agent rolling deposit window summary. -/
structure DepositWindow where
  windowStart : Nat
  gross : Nat
  deriving DecidableEq, Repr

/-- Storage of the gateway that registration reads and writes. -/
structure Gateway (W : Type) where
  commitments : W → Commitment
  agents : Address → AgentPolicy
  agentOwner : Address → Address
  depositWindow : Address → RollingWindow
  agentDepositWindow : Address → DepositWindow
  depositsPaused : Bool
  hasRole : Role → Address → Bool
  adminCount : Nat
  defaultAdminCount : Nat

variable {W : Type}

def Gateway.isAdminTier (g : Gateway W) (account : Address) : Bool :=
  g.hasRole .admin account || g.hasRole .defaultAdmin account

/-- The separation check of `AccessRoles._grantRole`. -/
def Gateway.separationBlocks (g : Gateway W) (role : Role) (account : Address) : Bool :=
  match role with
  | .agent => g.isAdminTier account || g.hasRole .depositPauser account
  | .admin => g.hasRole .agent account || g.hasRole .depositPauser account
  | .defaultAdmin => g.hasRole .agent account || g.hasRole .depositPauser account
  | .depositPauser => g.hasRole .agent account || g.isAdminTier account
  | .other _ => false

def Gateway.setRole (g : Gateway W) (role : Role) (account : Address) (held : Bool) : Gateway W :=
  { g with hasRole := fun r a => if r = role ∧ a = account then held else g.hasRole r a }

/-- `_grantRole`: the separation check, the grant, and the admin-tier counters when it is new. -/
def Gateway.internalGrantRole (g : Gateway W) (role : Role) (account : Address) : Except GatewayError (Gateway W) := do
  revertIf (g.separationBlocks role account = true) .roleSeparationViolated
  if g.hasRole role account then .ok g
  else
    let g' := g.setRole role account true
    match role with
    | .admin => .ok { g' with adminCount := g.adminCount + 1 }
    | .defaultAdmin => .ok { g' with defaultAdminCount := g.defaultAdminCount + 1 }
    | _ => .ok g'

/-- `_revokeRole`: the last-admin floor, the revocation, and the admin-tier counters. -/
def Gateway.internalRevokeRole (g : Gateway W) (role : Role) (account : Address) : Except GatewayError (Gateway W) :=
  if g.hasRole role account then do
    revertIf (role = .admin ∧ g.adminCount = 1) .lastAdminFloor
    revertIf (role = .defaultAdmin ∧ g.defaultAdminCount = 1) .lastAdminFloor
    let g' := g.setRole role account false
    match role with
    | .admin => .ok { g' with adminCount := g.adminCount - 1 }
    | .defaultAdmin => .ok { g' with defaultAdminCount := g.defaultAdminCount - 1 }
    | _ => .ok g'
  else .ok g

/-- `_assertRoleSeparation`: at most one of the three tiers. -/
def Gateway.assertRoleSeparation (g : Gateway W) (account : Address) : Except GatewayError Unit :=
  revertIf ((g.isAdminTier account).toNat + (g.hasRole .depositPauser account).toNat +
    (g.hasRole .agent account).toNat > 1) .roleSeparationViolated

/-- The role that administers `role` (`getRoleAdmin`): `initialize` pins `AGENT_ROLE` to `ADMIN_ROLE`. -/
def roleAdmin : Role → Role
  | .agent => .admin
  | _ => .defaultAdmin

/-- `onlyRole(role)`. -/
def Gateway.onlyRole (g : Gateway W) (role : Role) (account : Address) : Except GatewayError Unit :=
  revertIf (g.hasRole role account = false) (.accessControlUnauthorizedAccount account role)

/-- Public `grantRole`. -/
def Gateway.grantRole (g : Gateway W) (sender : Address) (role : Role) (account : Address) :
    Except GatewayError (Gateway W) := do
  revertIf (role = .agent) .agentRoleNotManageable
  g.onlyRole (roleAdmin role) sender
  g.internalGrantRole role account

/-- Public `revokeRole`. -/
def Gateway.revokeRole (g : Gateway W) (sender : Address) (role : Role) (account : Address) :
    Except GatewayError (Gateway W) := do
  revertIf (role = .agent) .agentRoleNotManageable
  g.onlyRole (roleAdmin role) sender
  g.internalRevokeRole role account

/-- Public `renounceRole`. -/
def Gateway.renounceRole (g : Gateway W) (sender : Address) (role : Role) (callerConfirmation : Address) :
    Except GatewayError (Gateway W) := do
  revertIf (role = .agent) .agentRoleNotManageable
  revertIf (callerConfirmation ≠ sender) .accessControlBadConfirmation
  g.internalRevokeRole role callerConfirmation

def Gateway.pauseDeposits (g : Gateway W) (sender : Address) : Except GatewayError (Gateway W) := do
  g.onlyRole .depositPauser sender
  revertIf (g.depositsPaused = true) .depositsArePaused
  .ok { g with depositsPaused := true }

def Gateway.unpauseDeposits (g : Gateway W) (sender : Address) : Except GatewayError (Gateway W) := do
  g.onlyRole .admin sender
  revertIf (g.depositsPaused = false) .depositsNotPaused
  .ok { g with depositsPaused := false }

def validatePolicy (caller : Address) (p : AgentPolicy) (now : Nat) : Except GatewayError Unit := do
  revertIf (p.shareReceiver ≠ caller) .shareReceiverNotAuthorized
  revertIf (p.active = false) .invalidValidUntil
  revertIf (p.validUntil < now) .invalidValidUntil
  revertIf (p.maxPerPayment = 0 ∨ p.maxPerWindow = 0) .invalidAmount
  revertIf (p.maxPerPayment > p.maxPerWindow) .invalidAmount
  revertIf (p.allowedDestinations.length = 0) .emptyAllowedDestinations
  revertIf (0 ∈ p.allowedDestinations) .emptyAllowedDestinations
  revertIf (p.assetRecipient ≠ 0 ∨ p.maxWithdrawPerPayment ≠ 0 ∨ p.maxWithdrawPerWindow ≠ 0 ∨
    p.allowedSourceVaults.length ≠ 0) .retiredPolicyFieldNonZero

/-- `_endRegistration`: clear policy, owner, role and the deposit budget. -/
def Gateway.endRegistration (g : Gateway W) (agent : Address) : Except GatewayError (Gateway W) := do
  let g := { g with
    agents := update g.agents agent AgentPolicy.zero
    agentOwner := update g.agentOwner agent 0 }
  let g ← g.internalRevokeRole .agent agent
  .ok { g with
    depositWindow := update g.depositWindow agent (endRegistrationWindow (g.depositWindow agent))
    agentDepositWindow := update g.agentDepositWindow agent ⟨0, 0⟩ }

/-- The start of `_register`: an expired registration is ended first, a live one blocks. -/
def Gateway.releaseExpired (g : Gateway W) (agent : Address) (now : Nat) : Except GatewayError (Gateway W) :=
  if g.agentOwner agent ≠ 0 then do
    revertIf ((g.agents agent).validUntil ≥ now) .agentAlreadyOwned
    g.endRegistration agent
  else .ok g

def Gateway.register (g : Gateway W) (sender agent : Address) (p : AgentPolicy) (now : Nat) :
    Except GatewayError (Gateway W) := do
  revertIf (agent = 0) .zeroAddress
  let g ← g.releaseExpired agent now
  validatePolicy sender p now
  let g := { g with
    agentOwner := update g.agentOwner agent sender
    agents := update g.agents agent p }
  let g ← g.internalGrantRole .agent agent
  g.assertRoleSeparation agent
  .ok g

def Gateway.setPolicy (g : Gateway W) (sender agent : Address) (p : AgentPolicy) (now : Nat) :
    Except GatewayError (Gateway W) := do
  revertIf (agent = 0) .zeroAddress
  revertIf (g.agentOwner agent ≠ sender) .notAgentOwner
  revertIf ((g.agents agent).validUntil < now) .agentPolicyExpired
  validatePolicy sender p now
  .ok { g with agents := update g.agents agent p }

def Gateway.revokeAgent (g : Gateway W) (sender agent : Address) : Except GatewayError (Gateway W) := do
  revertIf (agent = 0) .zeroAddress
  revertIf (g.agentOwner agent = 0 ∨ (sender ≠ g.agentOwner agent ∧ sender ≠ agent)) .notAgentOwner
  g.endRegistration agent

section Commitments

variable [DecidableEq W] (enc : Encoding W)

def commitmentKey (commitHash : W) (committer : Address) : W :=
  enc.keccak (.encode [commitHash, enc.word committer])

/-- The owner's commit hash, `keccak256(abi.encode(agent, owner, salt))`. -/
def ownerHash (agent owner : Address) (salt : W) : W :=
  enc.keccak (.encode [enc.word agent, enc.word owner, salt])

/-- The agent's consent hash, `keccak256(abi.encode(owner, keccak256(callData)))`. -/
def consentHash (owner : Address) (callData : Calldata) : W :=
  enc.keccak (.encode [enc.word owner, enc.keccak (.data callData)])

def Gateway.setCommitment (g : Gateway W) (key : W) (c : Commitment) : Gateway W :=
  { g with commitments := update g.commitments key c }

def Gateway.commitAuthorization (g : Gateway W) (sender : Address) (commitHash : W) (block : Block) : Gateway W :=
  g.setCommitment (commitmentKey enc commitHash sender) ⟨sender, toUint64 block.number⟩

/-- Steps 1 to 4 of `revealAuthorization`: the caller's own commitment exists, is at least one block old, has not
expired, and is cleared. -/
def Gateway.consumeOwner (g : Gateway W) (sender agent : Address) (salt : W) (block : Block) :
    Except GatewayError (Gateway W) := do
  let key := commitmentKey enc (ownerHash enc agent sender salt) sender
  let c := g.commitments key
  revertIf (c.committer = 0) .commitmentNotFound
  revertIf (block.number ≤ c.blockNumber) .commitmentTooRecent
  revertIf (block.number > c.blockNumber + commitExpiryBlocks) .commitmentExpired
  .ok (g.setCommitment key Commitment.zero)

/-- Step 6 of `revealAuthorization`: an agent other than the caller must have committed to this caller and these
exact bytes. -/
def Gateway.consumeConsent (g : Gateway W) (sender agent : Address) (callData : Calldata) (block : Block) :
    Except GatewayError (Gateway W) :=
  if agent ≠ sender then do
    let key := commitmentKey enc (consentHash enc sender callData) agent
    let consent := g.commitments key
    revertIf (consent.committer ≠ agent) .ownerConsentMissing
    revertIf (block.number > consent.blockNumber + commitExpiryBlocks) .commitmentExpired
    .ok (g.setCommitment key Commitment.zero)
  else .ok g

/-- `revealAuthorization` on raw calldata, which the ABI decoder turns into the agent, the salt and the policy. -/
def Gateway.revealAuthorization (g : Gateway W) (sender : Address) (callData : Calldata) (block : Block) :
    Except GatewayError (Gateway W) :=
  match enc.decodeReveal callData with
  | none => .error .malformedCalldata
  | some (agent, salt, p) => do
    let g ← g.consumeOwner enc sender agent salt block
    let g ← g.register sender agent p block.timestamp.val
    g.consumeConsent enc sender agent callData block

end Commitments

/-- The gateway after `initialize`. -/
def Gateway.init (admin pauser : Address) : Gateway W where
  commitments := fun _ => Commitment.zero
  agents := fun _ => AgentPolicy.zero
  agentOwner := fun _ => 0
  depositWindow := fun _ => .empty
  agentDepositWindow := fun _ => ⟨0, 0⟩
  depositsPaused := false
  hasRole := fun r a => (r = .defaultAdmin ∧ a = admin) ∨ (r = .admin ∧ a = admin) ∨ (r = .depositPauser ∧ a = pauser)
  adminCount := 1
  defaultAdminCount := 1

/-- The proxy's storage before `initialize`. -/
def Gateway.blank : Gateway W where
  commitments := fun _ => Commitment.zero
  agents := fun _ => AgentPolicy.zero
  agentOwner := fun _ => 0
  depositWindow := fun _ => .empty
  agentDepositWindow := fun _ => ⟨0, 0⟩
  depositsPaused := false
  hasRole := fun _ _ => false
  adminCount := 0
  defaultAdminCount := 0

/-- `initialize`: no zero address, and the three grants. -/
def Gateway.initialize (usdc admin pauser : Address) : Except GatewayError (Gateway W) := do
  revertIf (usdc = 0) .zeroAddress
  revertIf (admin = 0) .zeroAddress
  revertIf (pauser = 0) .zeroAddress
  let g ← Gateway.blank.internalGrantRole .defaultAdmin admin
  let g ← g.internalGrantRole .admin admin
  g.internalGrantRole .depositPauser pauser

end RobotMoney
