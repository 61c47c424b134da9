import RobotMoney.Evm.HexText
import RobotMoney.Gateway.Registered

/-!
# The preflight of a payment (`Preflight::run`)

The checks that the payment client makes before it signs, on reads at one pinned block.  They are to mirror those of
`depositTo` (`DepositChecks`), at the time of that block; but the expiry is compared with the clock of the client's
host, and the sum of the window and the amount stops at the largest word where the gateway's overflows.  So they do only
where the two clocks are on the same side of the expiry (`preflight_mirrors_gateway_iff`).

The parsers of addresses and hashes and the hash of a code are given from outside.
-/

namespace RobotMoney.Client

open Evm GatewayWindows

inductive PreflightError where
  | chainIdMismatch
  | config (field : String)
  | codeHashMismatch
  | implementationNotApproved
  | implementationUnverified
  | depositsPaused
  | destinationNotSelected
  | agentNotAuthorized
  | agentBindingMismatch (field : String)
  | policyExpired
  | depositCapExceeded
  | allowanceInsufficient
  | balanceInsufficient
  | rpcServer
  deriving DecidableEq, Repr

/-- The part of the configuration that the preflight reads. -/
structure PreflightConfig where
  chainId : Nat
  gatewayAddress : String
  gatewayRuntimeHash : String
  gatewayImplementation : Option String
  gatewayImplementationRuntimeHash : Option String
  usdcAddress : String
  vaultAddress : String
  allowedDestinations : Option (List String)
  proxyImplementationHashes : Option (List String)
  shareReceiver : Option String
  agentOwner : Option String

structure PreflightInputs where
  signerAddress : Address
  amount : Nat
  vault : Address

structure PreflightReport where
  chainId : Nat
  gatewayImplementation : Option Address
  vaultImplementation : Option Address
  agentActive : Bool
  agentValidUntil : Nat
  shareReceiver : Address
  maxPerPayment : Nat
  maxPerWindow : Nat
  windowGross : Nat
  allowance : Nat
  balance : Nat
  deriving DecidableEq

/-- The chain at the pinned block.  `implementationSlot` is the ERC-1967 slot of an account, a word. -/
structure PinnedChain (W : Type) where
  chainId : Nat
  timestamp : Nat
  code : Address → List UInt8
  implementationSlot : Address → Nat
  gateway : Gateway W
  usdcAddress : Address
  usdc : Token
  vaultPaused : Address → Bool

/-- What the client relies on: the parsers and the hash. -/
structure ClientCode (H : Type) where
  parseAddress : String → Option Address
  parseHash : String → Option H
  keccak256 : List UInt8 → H

section Run

variable {W H : Type} [DecidableEq H] (k : ClientCode H) (cfg : PreflightConfig) (s : PinnedChain W)

def parseAddr (text field : String) : Except PreflightError Address :=
  match k.parseAddress text with
  | some a => .ok a
  | none => .error (.config field)

def parseB256 (text field : String) : Except PreflightError H :=
  match k.parseHash text with
  | some h => .ok h
  | none => .error (.config field)

def approvedGatewayImplementation : Except PreflightError (Option (Address × H)) :=
  match cfg.gatewayImplementation, cfg.gatewayImplementationRuntimeHash with
  | none, none => .ok none
  | some address, some hash => do
    let address ← parseAddr k address "gateway_implementation"
    let hash ← parseB256 k hash "gateway_implementation_runtime_hash"
    .ok (some (address, hash))
  | _, _ => .error (.config "gateway_implementation")

/-- The implementation behind a proxy, none for a zero slot; a word that is no address is refused. -/
def readImplementation (proxy : Address) : Except PreflightError (Option Address) := do
  revertIf (2 ^ 160 ≤ s.implementationSlot proxy) .implementationUnverified
  .ok (if s.implementationSlot proxy = 0 then none else some (Fin.ofNat (2 ^ 160) (s.implementationSlot proxy)))

def verifyGatewayCode : Except PreflightError (Option Address) := do
  let gateway ← parseAddr k cfg.gatewayAddress "gateway_address"
  let approved ← approvedGatewayImplementation k cfg
  revertIf (s.code gateway = []) .codeHashMismatch
  let expected ← parseB256 k cfg.gatewayRuntimeHash "gateway_runtime_hash"
  revertIf (k.keccak256 (s.code gateway) ≠ expected) .codeHashMismatch
  let live ← readImplementation s gateway
  match live, approved with
  | none, none => .ok none
  | some live, some (address, hash) => do
    revertIf (live ≠ address) .implementationNotApproved
    revertIf (s.code live = []) .implementationNotApproved
    revertIf (k.keccak256 (s.code live) ≠ hash) .implementationNotApproved
    .ok (some live)
  | _, _ => .error .implementationNotApproved

/-- The hashes that a proxy on the way may run, none if they are not set. -/
def approvedProxyHashes : Except PreflightError (Option (List H)) :=
  match cfg.proxyImplementationHashes with
  | none => .ok none
  | some list => do
    let hashes ← list.mapM fun h => parseB256 k h "proxy_implementation_hashes[]"
    .ok (some hashes)

/-- A vault that is no proxy needs no entry. -/
def verifyReachedProxy (proxy : Address) : Except PreflightError Unit := do
  let approved ← approvedProxyHashes k cfg
  let live ← readImplementation s proxy
  match live with
  | none => .ok ()
  | some live => do
    revertIf (s.code live = []) .implementationNotApproved
    revertIf (∀ list, approved = some list → k.keccak256 (s.code live) ∉ list) .implementationNotApproved

def selectedDestinations : Except PreflightError (List Address) :=
  match cfg.allowedDestinations with
  | some (first :: rest) => (first :: rest).mapM fun a => parseAddr k a "allowed_destinations[]"
  | _ => do
    let vault ← parseAddr k cfg.vaultAddress "vault_address"
    .ok [vault]

def requireSelectedDestination (vault : Address) : Except PreflightError Unit := do
  let selected ← selectedDestinations k cfg
  revertIf (vault ∉ selected) .destinationNotSelected

/-- A value that the configuration pins, if it does. -/
def checkBinding (configured : Option String) (key field : String) (onChain : Address) : Except PreflightError Unit :=
  match configured with
  | none => .ok ()
  | some text => do
    let pinned ← parseAddr k text key
    revertIf (onChain ≠ pinned) (.agentBindingMismatch field)

/-- The checks of the agent's record; `clock` is the client's. -/
def checkAgent (clock : Nat) (agent : Address) : Except PreflightError AgentPolicy := do
  let record := s.gateway.agents agent
  revertIf (record.active = false) .agentNotAuthorized
  checkBinding k cfg.shareReceiver "share_receiver" "agents(self).shareReceiver" record.shareReceiver
  checkBinding k cfg.agentOwner "agent_owner" "agentOwner(self)" (s.gateway.agentOwner agent)
  revertIf (record.validUntil < clock) .policyExpired
  .ok record

/-- `effectiveDepositWindowGross` of the gateway; a view that reverts is a failed read. -/
def readWindowGross (agent : Address) : Except PreflightError Nat :=
  match effectiveTotal (s.gateway.depositWindow agent) s.timestamp with
  | .ok gross => .ok gross
  | .error _ => .error .rpcServer

def saturatingAdd256 (a b : Nat) : Nat := min (a + b) (2 ^ 256 - 1)

def preflight (clock : Nat) (inputs : PreflightInputs) : Except PreflightError PreflightReport := do
  revertIf (s.chainId ≠ cfg.chainId) .chainIdMismatch
  let gateway ← parseAddr k cfg.gatewayAddress "gateway_address"
  let gatewayImplementation ← verifyGatewayCode k cfg s
  revertIf (s.gateway.depositsPaused = true) .depositsPaused
  let usdc ← parseAddr k cfg.usdcAddress "usdc_address"
  revertIf (s.usdcAddress ≠ usdc) (.config "usdc_address")
  requireSelectedDestination k cfg inputs.vault
  revertIf (s.vaultPaused inputs.vault = true) .depositsPaused
  verifyReachedProxy k cfg s inputs.vault
  let vaultImplementation ← readImplementation s inputs.vault
  let agent ← checkAgent k cfg s clock inputs.signerAddress
  revertIf (inputs.amount > agent.maxPerPayment) .depositCapExceeded
  let windowGross ← readWindowGross s inputs.signerAddress
  revertIf (saturatingAdd256 windowGross inputs.amount > agent.maxPerWindow) .depositCapExceeded
  let allowance := s.usdc.allowance inputs.signerAddress gateway
  revertIf (allowance < inputs.amount) .allowanceInsufficient
  let balance := s.usdc.balance inputs.signerAddress
  revertIf (balance < inputs.amount) .balanceInsufficient
  .ok ⟨s.chainId, gatewayImplementation, vaultImplementation, agent.active, agent.validUntil, agent.shareReceiver,
    agent.maxPerPayment, agent.maxPerWindow, windowGross, allowance, balance⟩

end Run

variable {W H : Type} [DecidableEq H] {k : ClientCode H} {cfg : PreflightConfig} {s : PinnedChain W} {clock : Nat}
  {inputs : PreflightInputs}

/-- The cap check of `accrue`. -/
def capCheck (w : RollingWindow) (now amount cap : Nat) : Except WindowError Unit := do
  let w ← prune w now
  let projected ← add w.total amount
  revertIf (projected > cap) .windowCapExceeded

/-- `accrue` records an amount only when it passes the check. -/
theorem capCheck_of_accrue {w : RollingWindow} {now amount cap : Nat} {r : RollingWindow × Nat × Nat}
    (h : accrueRollingDeposit w now amount cap = .ok r) : capCheck w now amount cap = .ok () := by
  simp only [accrueRollingDeposit, accrue, bind_eq_ok] at h
  obtain ⟨⟨w', within, oldest, total⟩, ⟨pruned, hprune, projected, hadd, hbranch⟩, _, hwithin, -⟩ := h
  rw [capCheck, hprune, ok_bind, hadd, ok_bind, revertIf_eq_ok]
  intro hover
  rw [if_pos hover] at hbranch
  cases hbranch
  simp at hwithin

/-- The checks that `depositTo` makes on the caller's policy and on its USDC, at a time. -/
structure DepositChecks (g : Gateway W) (usdc : Token) (self agent : Address) (amount now : Nat) : Prop where
  role : g.hasRole .agent agent = true
  active : (g.agents agent).active = true
  unexpired : now ≤ (g.agents agent).validUntil
  perPayment : amount ≤ (g.agents agent).maxPerPayment
  window : capCheck (g.depositWindow agent) now amount (g.agents agent).maxPerWindow = .ok ()
  allowance : amount ≤ usdc.allowance agent self
  balance : amount ≤ usdc.balance agent

/-- A payment that gets as far as the destination has passed the checks. -/
theorem depositChecks_of_payment {g g' : Gateway W} {usdc : Token} {self sender : Address} {d : DepositTo W} {now : Nat}
    (hcheck : checkPayment g sender d now = .ok ())
    (haccrue : g.accrueDeposit sender d.amount.val (g.agents sender).maxPerWindow now = .ok g') {usdc' : Token}
    (hpull : usdc.transferFrom self sender self d.amount.val = .ok usdc') :
    DepositChecks g usdc self sender d.amount.val now := by
  simp only [checkPayment, bind_eq_ok, revertIf_eq_ok] at hcheck
  obtain ⟨_, hrole, _, -, _, -, _, hpayment, _, -, _, -, _, hactive, _, hexpiry, -⟩ := hcheck
  have hwindow : capCheck (g.depositWindow sender) now d.amount.val (g.agents sender).maxPerWindow = .ok () := by
    unfold Gateway.accrueDeposit at haccrue
    split at haccrue
    · cases haccrue
    rename_i hok
    exact capCheck_of_accrue hok
  obtain ⟨hallowance, -, hbalance, -⟩ := Token.transferFrom_eq_ok.1 hpull
  exact ⟨by simpa using hrole, by simpa using hactive, by omega, by omega, hwindow, hallowance, hbalance⟩

/-- The pins of the configuration. -/
structure PinsHold (k : ClientCode H) (cfg : PreflightConfig) (s : PinnedChain W) (agent vault : Address) : Prop where
  chain : s.chainId = cfg.chainId
  gatewayCode : ∃ implementation, verifyGatewayCode k cfg s = .ok implementation
  usdc : k.parseAddress cfg.usdcAddress = some s.usdcAddress
  destination : ∃ selected, selectedDestinations k cfg = .ok selected ∧ vault ∈ selected
  vaultCode : verifyReachedProxy k cfg s vault = .ok ()
  shareReceiver : ∀ text, cfg.shareReceiver = some text →
    k.parseAddress text = some (s.gateway.agents agent).shareReceiver
  agentOwner : ∀ text, cfg.agentOwner = some text → k.parseAddress text = some (s.gateway.agentOwner agent)

/-- The checks of the client: those of the gateway at the pinned block, but for the client's own clock and for a sum
that is no word under the largest cap. -/
structure ClientChecks (g : Gateway W) (usdc : Token) (self agent : Address) (amount clock now : Nat) : Prop where
  role : g.hasRole .agent agent = true
  active : (g.agents agent).active = true
  unexpired : clock ≤ (g.agents agent).validUntil
  perPayment : amount ≤ (g.agents agent).maxPerPayment
  window : capCheck (g.depositWindow agent) now amount (g.agents agent).maxPerWindow = .ok () ∨
    ((g.agents agent).maxPerWindow = 2 ^ 256 - 1 ∧
      ∃ gross, effectiveTotal (g.depositWindow agent) now = .ok gross ∧ 2 ^ 256 ≤ gross + amount)
  allowance : amount ≤ usdc.allowance agent self
  balance : amount ≤ usdc.balance agent

omit [DecidableEq H] in
@[simp] theorem parseAddr_eq_ok {text field : String} {a : Address} :
    parseAddr k text field = .ok a ↔ k.parseAddress text = some a := by
  unfold parseAddr
  split <;> simp_all

omit [DecidableEq H] in
private theorem checkBinding_eq_ok {configured : Option String} {key field : String} {onChain : Address} {u : Unit} :
    checkBinding k configured key field onChain = .ok u ↔
      ∀ text, configured = some text → k.parseAddress text = some onChain := by
  cases configured with
  | none => simp [checkBinding]
  | some text =>
    simp only [checkBinding, bind_eq_ok, parseAddr_eq_ok, revertIf_eq_ok, ne_eq, not_not, Option.some.injEq, forall_eq']
    constructor
    · rintro ⟨pinned, hpinned, rfl⟩
      exact hpinned
    · intro h
      exact ⟨onChain, h, rfl⟩

omit [DecidableEq H] in
theorem checkAgent_eq_ok {agent : Address} {record : AgentPolicy} : checkAgent k cfg s clock agent = .ok record ↔
      record = s.gateway.agents agent ∧ record.active = true ∧
        (∀ text, cfg.shareReceiver = some text → k.parseAddress text = some record.shareReceiver) ∧
        (∀ text, cfg.agentOwner = some text → k.parseAddress text = some (s.gateway.agentOwner agent)) ∧
        clock ≤ record.validUntil := by
  simp only [checkAgent, bind_eq_ok, revertIf_eq_ok, Bool.not_eq_false, checkBinding_eq_ok, not_lt, Except.ok.injEq]
  constructor
  · rintro ⟨_, hactive, _, hreceiver, _, howner, _, hexpiry, rfl⟩
    exact ⟨rfl, hactive, hreceiver, howner, hexpiry⟩
  · rintro ⟨rfl, hactive, hreceiver, howner, hexpiry⟩
    exact ⟨(), hactive, (), hreceiver, (), howner, (), hexpiry, rfl⟩

/-- The sum that stops at the largest word, against the sum that overflows. -/
theorem saturatingAdd256_le_iff {w : RollingWindow} {now amount cap gross : Nat} (hcap : cap < 2 ^ 256)
    (hgross : effectiveTotal w now = .ok gross) :
    saturatingAdd256 gross amount ≤ cap ↔ capCheck w now amount cap = .ok () ∨
      (cap = 2 ^ 256 - 1 ∧ ∃ gross, effectiveTotal w now = .ok gross ∧ 2 ^ 256 ≤ gross + amount) := by
  have hcheck : capCheck w now amount cap = .ok () ↔ gross + amount < 2 ^ 256 ∧ gross + amount ≤ cap := by
    simp only [effectiveTotal, bind_eq_ok, Except.ok.injEq] at hgross
    obtain ⟨⟨head, count, total⟩, hloop, rfl⟩ := hgross
    simp only [capCheck, prune, hloop, ok_bind, bind_eq_ok, add_eq_ok, revertIf_eq_ok, not_lt]
    constructor
    · rintro ⟨_, ⟨hlt, rfl⟩, hle⟩
      exact ⟨hlt, hle⟩
    · rintro ⟨hlt, hle⟩
      exact ⟨_, ⟨hlt, rfl⟩, hle⟩
  have hsame : (∃ gross, effectiveTotal w now = .ok gross ∧ 2 ^ 256 ≤ gross + amount) ↔ 2 ^ 256 ≤ gross + amount := by
    simp [hgross]
  rw [hcheck, hsame, saturatingAdd256]
  omega

/-- The agent role goes with an active policy. -/
theorem role_of_active {g : Gateway W} (hg : g.Registered) {agent : Address} (h : (g.agents agent).active = true) :
    g.hasRole .agent agent = true := by
  cases hg.account agent with
  | unregistered _ _ policy =>
    rw [policy] at h
    cases h
  | registered _ role => exact role

/-- The preflight accepts exactly what the pins and the client's checks accept. -/
theorem preflight_accepts_iff (k : ClientCode H) (cfg : PreflightConfig) (s : PinnedChain W) (clock : Nat)
    (inputs : PreflightInputs) (hg : s.gateway.Registered)
    (hword : (s.gateway.agents inputs.signerAddress).maxPerWindow < 2 ^ 256)
    (hread : ∃ gross, effectiveTotal (s.gateway.depositWindow inputs.signerAddress) s.timestamp = .ok gross) :
    (∃ report, preflight k cfg s clock inputs = .ok report) ↔
      PinsHold k cfg s inputs.signerAddress inputs.vault ∧ s.gateway.depositsPaused = false ∧
        s.vaultPaused inputs.vault = false ∧ ∃ self, k.parseAddress cfg.gatewayAddress = some self ∧
          ClientChecks s.gateway s.usdc self inputs.signerAddress inputs.amount clock s.timestamp := by
  obtain ⟨gross, hgross⟩ := hread
  have hview : readWindowGross s inputs.signerAddress = .ok gross := by rw [readWindowGross, hgross]
  have hslot : verifyReachedProxy k cfg s inputs.vault = .ok () →
      ∃ implementation, readImplementation s inputs.vault = .ok implementation := by
    intro h
    simp only [verifyReachedProxy, bind_eq_ok] at h
    obtain ⟨_, -, implementation, himplementation, -⟩ := h
    exact ⟨implementation, himplementation⟩
  simp only [preflight, bind_eq_ok, revertIf_eq_ok, parseAddr_eq_ok, checkAgent_eq_ok, hview,
    requireSelectedDestination, ne_eq, not_not, Bool.not_eq_true, not_lt, Except.ok.injEq]
  constructor
  · rintro ⟨report, _, hchain, self, hself, implementation, hcode, _, hpaused, usdc, husdc, _, rfl, _,
      ⟨selected, hselected, hmem⟩, _, hvault, _, hproxy, live, hlive, record,
      ⟨rfl, hactive, hreceiver, howner, hexpiry⟩, _, hpayment, _, rfl, _, hwindow, _, hallowance, _, hbalance, -⟩
    exact ⟨⟨hchain, ⟨implementation, hcode⟩, husdc, ⟨selected, hselected, hmem⟩, hproxy, hreceiver, howner⟩, hpaused,
      hvault, self, hself, ⟨role_of_active hg hactive, hactive, hexpiry, hpayment,
        (saturatingAdd256_le_iff hword hgross).1 hwindow, hallowance, hbalance⟩⟩
  · rintro ⟨⟨hchain, ⟨implementation, hcode⟩, husdc, ⟨selected, hselected, hmem⟩, hproxy, hreceiver, howner⟩, hpaused,
      hvault, self, hself, ⟨-, hactive, hexpiry, hpayment, hwindow, hallowance, hbalance⟩⟩
    obtain ⟨live, hlive⟩ := hslot hproxy
    exact ⟨_, (), hchain, self, hself, implementation, hcode, (), hpaused, s.usdcAddress, husdc, (), rfl, (),
      ⟨selected, hselected, hmem⟩, (), hvault, (), hproxy, live, hlive, _,
      ⟨rfl, hactive, hreceiver, howner, hexpiry⟩, (), hpayment, gross, rfl, (),
      (saturatingAdd256_le_iff hword hgross).2 hwindow, (), hallowance, (), hbalance, rfl⟩

/-- The checks that look at no time: those of the policy's role and cap per payment, and of the USDC. -/
structure TimelessChecks (g : Gateway W) (usdc : Token) (self agent : Address) (amount : Nat) : Prop where
  role : g.hasRole .agent agent = true
  active : (g.agents agent).active = true
  perPayment : amount ≤ (g.agents agent).maxPerPayment
  allowance : amount ≤ usdc.allowance agent self
  balance : amount ≤ usdc.balance agent

/-- Where all else passes: if the window has room, the client's clock and the block are on the same side of the expiry;
and if the sum of the window overflows under the largest cap, the client's clock is past it. -/
def ClocksAgree (k : ClientCode H) (cfg : PreflightConfig) (s : PinnedChain W) (clock : Nat)
    (inputs : PreflightInputs) : Prop :=
  let policy := s.gateway.agents inputs.signerAddress
  let window := s.gateway.depositWindow inputs.signerAddress
  PinsHold k cfg s inputs.signerAddress inputs.vault → s.gateway.depositsPaused = false →
    s.vaultPaused inputs.vault = false → ∀ self, k.parseAddress cfg.gatewayAddress = some self →
      TimelessChecks s.gateway s.usdc self inputs.signerAddress inputs.amount →
        (capCheck window s.timestamp inputs.amount policy.maxPerWindow = .ok () →
          (clock ≤ policy.validUntil ↔ s.timestamp ≤ policy.validUntil)) ∧
        (policy.maxPerWindow = 2 ^ 256 - 1 →
          (∃ gross, effectiveTotal window s.timestamp = .ok gross ∧ 2 ^ 256 ≤ gross + inputs.amount) →
            policy.validUntil < clock)

/-- A sum that overflows does not pass the check of the cap. -/
private theorem capCheck_ne_ok {w : RollingWindow} {now amount cap gross : Nat}
    (hgross : effectiveTotal w now = .ok gross)
    (hover : 2 ^ 256 ≤ gross + amount) : capCheck w now amount cap ≠ .ok () := by
  intro h
  simp only [effectiveTotal, bind_eq_ok, Except.ok.injEq] at hgross
  obtain ⟨⟨head, count, total⟩, hloop, rfl⟩ := hgross
  simp only [capCheck, prune, hloop, ok_bind, bind_eq_ok, add_eq_ok] at h
  obtain ⟨_, ⟨hlt, -⟩, -⟩ := h
  exact absurd hlt (Nat.not_lt.2 hover)

/-- The preflight accepts exactly what the gateway's checks would let through at the time of the pinned block, if and
only if the clocks agree. -/
theorem preflight_mirrors_gateway_iff (k : ClientCode H) (cfg : PreflightConfig) (s : PinnedChain W) (clock : Nat)
    (inputs : PreflightInputs) (hg : s.gateway.Registered)
    (hword : (s.gateway.agents inputs.signerAddress).maxPerWindow < 2 ^ 256)
    (hread : ∃ gross, effectiveTotal (s.gateway.depositWindow inputs.signerAddress) s.timestamp = .ok gross) :
    ((∃ report, preflight k cfg s clock inputs = .ok report) ↔
      PinsHold k cfg s inputs.signerAddress inputs.vault ∧ s.gateway.depositsPaused = false ∧
        s.vaultPaused inputs.vault = false ∧ ∃ self, k.parseAddress cfg.gatewayAddress = some self ∧
          DepositChecks s.gateway s.usdc self inputs.signerAddress inputs.amount s.timestamp) ↔
      ClocksAgree k cfg s clock inputs := by
  rw [preflight_accepts_iff k cfg s clock inputs hg hword hread]
  constructor
  · intro hsame hpins hpaused hvault self hself ⟨hrole, hactive, hpayment, hallowance, hbalance⟩
    refine ⟨fun hwindow => ⟨fun hclock => ?_, fun hblock => ?_⟩, fun hcap hover => ?_⟩
    · obtain ⟨-, -, -, _, -, -, -, hunexpired, -⟩ := hsame.1 ⟨hpins, hpaused, hvault, self, hself,
        ⟨hrole, hactive, hclock, hpayment, .inl hwindow, hallowance, hbalance⟩⟩
      exact hunexpired
    · obtain ⟨-, -, -, _, -, -, -, hunexpired, -⟩ := hsame.2 ⟨hpins, hpaused, hvault, self, hself,
        ⟨hrole, hactive, hblock, hpayment, hwindow, hallowance, hbalance⟩⟩
      exact hunexpired
    · by_contra hclock
      obtain ⟨-, -, -, _, -, -, -, -, -, hwindow, -⟩ := hsame.1 ⟨hpins, hpaused, hvault, self, hself,
        ⟨hrole, hactive, Nat.not_lt.1 hclock, hpayment, .inr ⟨hcap, hover⟩, hallowance, hbalance⟩⟩
      obtain ⟨gross, hgross, hlarge⟩ := hover
      exact capCheck_ne_ok hgross hlarge hwindow
  · intro hagree
    constructor
    · rintro ⟨hpins, hpaused, hvault, self, hself, hrole, hactive, hclock, hpayment, hwindow, hallowance, hbalance⟩
      obtain ⟨hexpiry, hover⟩ := hagree hpins hpaused hvault self hself
        ⟨hrole, hactive, hpayment, hallowance, hbalance⟩
      rcases hwindow with hwindow | ⟨hcap, hlarge⟩
      · exact ⟨hpins, hpaused, hvault, self, hself,
          ⟨hrole, hactive, (hexpiry hwindow).1 hclock, hpayment, hwindow, hallowance, hbalance⟩⟩
      · exact absurd hclock (Nat.not_le.2 (hover hcap hlarge))
    · rintro ⟨hpins, hpaused, hvault, self, hself, hrole, hactive, hblock, hpayment, hwindow, hallowance, hbalance⟩
      obtain ⟨hexpiry, -⟩ := hagree hpins hpaused hvault self hself
        ⟨hrole, hactive, hpayment, hallowance, hbalance⟩
      exact ⟨hpins, hpaused, hvault, self, hself,
        ⟨hrole, hactive, (hexpiry hwindow).2 hblock, hpayment, .inl hwindow, hallowance, hbalance⟩⟩

/-- Hexadecimal digits of a fixed number, with or without a prefix. -/
def fixedHex (width : Nat) (text : String) : Option Nat :=
  let digits := if text.toList.take 2 = ['0', 'x'] then text.toList.drop 2 else text.toList
  if digits.length = width ∧ digits.all HexText.isHexDigit = true then some (HexText.toNat digits) else none

def sampleClientCode : ClientCode Nat where
  parseAddress text := (fixedHex 40 text).map (Fin.ofNat (2 ^ 160))
  parseHash := fixedHex 64
  keccak256 code :=
    if code = [0x60, 0x80, 0x60, 0x40] then 0xc688f92bc1557ca1b3c5a2e10c354abf09210aebb62fadc4b62310122f8d377b else 0

def samplePreflightConfig : PreflightConfig where
  chainId := 8453
  gatewayAddress := "0x0000000000000000000000000000000000000032"
  gatewayRuntimeHash := "0xc688f92bc1557ca1b3c5a2e10c354abf09210aebb62fadc4b62310122f8d377b"
  gatewayImplementation := none
  gatewayImplementationRuntimeHash := none
  usdcAddress := "0x000000000000000000000000000000000000003c"
  vaultAddress := "0x0000000000000000000000000000000000000009"
  allowedDestinations := none
  proxyImplementationHashes := none
  shareReceiver := some "0x0000000000000000000000000000000000000003"
  agentOwner := some "0x0000000000000000000000000000000000000003"

/-- The sample registration of agent 7, whose policy runs until second 100, at second 2. -/
def samplePinnedChain : PinnedChain (List Nat) where
  chainId := 8453
  timestamp := 2
  code a := if a = 50 then [0x60, 0x80, 0x60, 0x40] else []
  implementationSlot _ := 0
  gateway := (run (paymentStep sampleEncoding ⟨50, opDepositTo⟩ .plain) (.init (.init 1 2) Block.sample sampleWorld)
    sampleRegistration).registration.gateway
  usdcAddress := 60
  usdc := sampleWorld.1
  vaultPaused _ := false

private theorem registered_samplePinnedChain : samplePinnedChain.gateway.Registered := by
  have hinv := Reachable.invariant (P := fun s : PaymentState (List Nat) _ =>
    s.registration.CommitmentsMatch sampleEncoding.toEncoding ∧ s.registration.gateway.Registered)
    (⟨sampleRegistration, rfl⟩ : Reachable (paymentStep sampleEncoding ⟨50, opDepositTo⟩ .plain)
      (.init (.init 1 2) Block.sample sampleWorld) _)
    ⟨⟨fun _ _ => rfl, fun _ _ _ hb => (by cases hb), fun _ _ _ _ _ _ e => by simp [PaymentState.init] at e⟩,
      registered_init (by decide)⟩
    fun _ _ _ hP h => registered_paymentStep hP.1 hP.2 h
  exact hinv.2

private theorem pinsHold_samplePinnedChain : PinsHold sampleClientCode samplePreflightConfig samplePinnedChain 7 9 where
  chain := rfl
  gatewayCode := ⟨none, by decide +kernel⟩
  usdc := by decide +kernel
  destination := ⟨[9], by decide +kernel⟩
  vaultCode := by decide +kernel
  shareReceiver := by decide +kernel
  agentOwner := by decide +kernel

/-- At second 100 of its own clock the client still accepts what the gateway accepts at second 2. -/
theorem preflight_mirrors_gateway_at_expiry :
    (∃ report, preflight sampleClientCode samplePreflightConfig samplePinnedChain 100 ⟨7, 5, 9⟩ = .ok report) ↔
      PinsHold sampleClientCode samplePreflightConfig samplePinnedChain 7 9 ∧
        samplePinnedChain.gateway.depositsPaused = false ∧ samplePinnedChain.vaultPaused 9 = false ∧
        ∃ self, sampleClientCode.parseAddress samplePreflightConfig.gatewayAddress = some self ∧
          DepositChecks samplePinnedChain.gateway samplePinnedChain.usdc self 7 5 samplePinnedChain.timestamp := by
  refine (preflight_mirrors_gateway_iff sampleClientCode samplePreflightConfig samplePinnedChain 100 ⟨7, 5, 9⟩
    registered_samplePinnedChain (by decide +kernel) ⟨0, by decide +kernel⟩).2 ?_
  have hclock : 100 ≤ (samplePinnedChain.gateway.agents 7).validUntil := by decide +kernel
  have hblock : samplePinnedChain.timestamp ≤ (samplePinnedChain.gateway.agents 7).validUntil := by decide +kernel
  have hcap : (samplePinnedChain.gateway.agents 7).maxPerWindow ≠ 2 ^ 256 - 1 := by decide +kernel
  exact fun _ _ _ _ _ _ => ⟨fun _ => iff_of_true hclock hblock, fun h => absurd h hcap⟩

/-- A second later on its own clock it refuses what the gateway accepts at second 2. -/
theorem preflight_refuses_sample :
    samplePinnedChain.gateway.Registered ∧ PinsHold sampleClientCode samplePreflightConfig samplePinnedChain 7 9 ∧
      samplePinnedChain.gateway.depositsPaused = false ∧ samplePinnedChain.vaultPaused 9 = false ∧
      DepositChecks samplePinnedChain.gateway samplePinnedChain.usdc 50 7 5 samplePinnedChain.timestamp ∧
      preflight sampleClientCode samplePreflightConfig samplePinnedChain 101 ⟨7, 5, 9⟩ = .error .policyExpired :=
  ⟨registered_samplePinnedChain, pinsHold_samplePinnedChain, by decide +kernel, rfl,
    ⟨by decide +kernel, by decide +kernel, by decide +kernel, by decide +kernel, by decide +kernel, by decide +kernel,
      by decide +kernel⟩, by decide +kernel⟩

end RobotMoney.Client
