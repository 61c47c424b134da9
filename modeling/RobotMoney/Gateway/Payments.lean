import RobotMoney.Evm.Token
import RobotMoney.Gateway.Consent

/-!
# Agent payments (`RobotMoneyGateway.depositTo`)

The one thing an agent can do: deposit USDC of its own into a destination of its policy, with the shares going to the
share receiver.  USDC, the share tokens and the destinations are code outside the gateway: they act on a state `σ`
that the gateway only sees through balances (`Counterparties`), and a destination may call the gateway back while it
runs, except for `depositTo` itself, which `nonReentrant` closes.

A payment is identified by its whole intent, so the ids in use are those of the intents executed so far
(`UsedMatch`): no intent executes twice, and no intent is refused because of another one.
-/

namespace RobotMoney

open Evm GatewayWindows Except Function List

variable {W σ : Type}

/-- The encoding of the gateway together with that of a `uint256` as a word. -/
structure PaymentEncoding (W : Type) extends Encoding W where
  number : Fin (2 ^ 256) → W
  number_injective : Function.Injective number

/-- Where the gateway runs: `address(this)` and `block.chainid`. -/
structure GatewaySite where
  self : Address
  chainId : Fin (2 ^ 256)

/-- The full intent of a payment; the deadline is not part of it. -/
structure Intent (W : Type) where
  agent : Address
  orderId : W
  amount : Fin (2 ^ 256)
  idempotencyKey : W
  destination : Address
  minSharesPerLeg : List (Fin (2 ^ 256))
  deriving DecidableEq

def opDepositTo : Fin (2 ^ 256) := ⟨3, by decide⟩

def legsOffset : Fin (2 ^ 256) := ⟨288, by decide⟩

def lengthWord (xs : List (Fin (2 ^ 256))) : Fin (2 ^ 256) := ⟨xs.length % 2 ^ 256, Nat.mod_lt _ (by decide)⟩

/-- `paymentId`: the hash of `abi.encode(OP_DEPOSIT_TO, block.chainid, address(this), msg.sender, orderId, amount,
idempotencyKey, destination, minSharesPerLeg)`. -/
def paymentId (enc : PaymentEncoding W) (site : GatewaySite) (i : Intent W) : W :=
  enc.keccak (.encode
    (enc.number opDepositTo :: enc.number site.chainId :: enc.word site.self :: enc.word i.agent :: i.orderId ::
      enc.number i.amount :: i.idempotencyKey :: enc.word i.destination :: enc.number legsOffset ::
      enc.number (lengthWord i.minSharesPerLeg) :: i.minSharesPerLeg.map enc.number))

/-- A call that a destination can make back into the gateway: anything but `depositTo`, in the same block. -/
def Callback (W : Type) := { c : GatewayCall W // ∀ blocks t, c ≠ .advance blocks t }

/-- What a destination's `deposit` did. -/
structure Deposited (W σ : Type) where
  outside : σ
  sharesMinted : Nat
  callbacks : List (Callback W)

/-- USDC and the destinations, acting on the state `σ`; `none` is a revert. -/
structure Counterparties (W σ : Type) where
  usdcBalance : σ → Address → Nat
  shareBalance : σ → (vault account : Address) → Option Nat
  safeTransferFrom : σ → (spender source target : Address) → (value : Nat) → Option σ
  forceApprove : σ → (owner spender : Address) → (value : Nat) → Option σ
  deposit : σ → (caller destination : Address) → (assets : Nat) → (receiver : Address) → Option (Deposited W σ)

inductive PaymentError where
  | gateway (e : GatewayError)
  | window (e : WindowError)
  | amountExceedsPerPaymentCap
  | deadlineExpired
  | deadlineTooFar
  | agentNotAuthorized
  | invalidDestination
  | insufficientGas
  | paymentIdAlreadyUsed
  | feeOnTransferDetected
  | shareCustodyInvariantViolated
  | externalRevert
  | panic (p : Panic)
  deriving DecidableEq, Repr

instance paymentPanics : Panics PaymentError := ⟨.panic⟩

def maxDeadlineSkew : Nat := 600

def depositGasFloor : Nat := 2000000

/-- The arguments of `depositTo`, and the gas left when it checks for it. -/
structure DepositTo (W : Type) where
  orderId : W
  amount : Fin (2 ^ 256)
  deadline : Nat
  idempotencyKey : W
  destination : Address
  minSharesPerLeg : List (Fin (2 ^ 256))
  gasLeft : Nat

def DepositTo.intent (sender : Address) (d : DepositTo W) : Intent W :=
  ⟨sender, d.orderId, d.amount, d.idempotencyKey, d.destination, d.minSharesPerLeg⟩

/-- The gateway with its payments: ids in use, the state of everything outside, and the intents executed so far,
newest first. -/
structure PaymentState (W σ : Type) where
  registration : GatewayState W
  usedPaymentIds : W → Bool
  outside : σ
  executed : List (Intent W)

def orRevert {α : Type} : Option α → Except PaymentError α
  | some a => .ok a
  | none => .error .externalRevert

@[simp] theorem orRevert_eq_error {α : Type} {o : Option α} {e : PaymentError} :
    orRevert o = .error e ↔ o = none ∧ e = .externalRevert := by
  cases o <;> simp [orRevert, eq_comm]

@[simp] theorem orRevert_eq_ok {α : Type} {o : Option α} {a : α} : orRevert o = .ok a ↔ o = some a := by
  cases o <;> simp [orRevert]

/-- The checks of `depositTo` up to the gas floor, on the caller's policy. -/
def checkPayment (g : Gateway W) (sender : Address) (d : DepositTo W) (now : Nat) : Except PaymentError Unit := do
  revertIf (g.hasRole .agent sender = false) (.gateway (.accessControlUnauthorizedAccount sender .agent))
  revertIf (g.depositsPaused = true) (.gateway .depositsArePaused)
  let p := g.agents sender
  revertIf (d.amount.val = 0) (.gateway .invalidAmount)
  revertIf (d.amount.val > p.maxPerPayment) .amountExceedsPerPaymentCap
  revertIf (now > d.deadline) .deadlineExpired
  revertIf (d.deadline > now + maxDeadlineSkew) .deadlineTooFar
  revertIf (p.active = false) .agentNotAuthorized
  revertIf (p.validUntil < now) (.gateway .agentPolicyExpired)
  revertIf (d.destination ∉ p.allowedDestinations) .invalidDestination
  revertIf (d.gasLeft < depositGasFloor) .insufficientGas

/-- `_accrueRollingDeposit`: the caller's window and its stored summary. -/
def Gateway.accrueDeposit (g : Gateway W) (agent : Address) (amount cap now : Nat) :
    Except PaymentError (Gateway W) :=
  match accrueRollingDeposit (g.depositWindow agent) now amount cap with
  | .error e => .error (.window e)
  | .ok (w, oldest, total) =>
    .ok { g with
      depositWindow := update g.depositWindow agent w
      agentDepositWindow := update g.agentDepositWindow agent ⟨oldest, total⟩ }

section DepositTo

variable [DecidableEq W] (enc : PaymentEncoding W) (site : GatewaySite) (out : Counterparties W σ)

/-- Step 9 of `depositTo`: pull `amount` from the agent and compare the gateway's balance. -/
def pullPayment (o : σ) (sender : Address) (amount : Nat) : Except PaymentError σ := do
  let balBefore := out.usdcBalance o site.self
  let o ← orRevert (out.safeTransferFrom o site.self sender site.self amount)
  let delta ← sub (out.usdcBalance o site.self) balBefore
  revertIf (delta ≠ amount) .feeOnTransferDetected
  .ok o

/-- `_executeVaultDeposit`, which returns what the destination did as well. -/
def executeVaultDeposit (o : σ) (destination shareReceiver : Address) (amount balBefore : Nat) :
    Except PaymentError (Deposited W σ) := do
  let shareBalanceBefore ← orRevert (out.shareBalance o destination site.self)
  let o ← orRevert (out.forceApprove o site.self destination amount)
  let r ← orRevert (out.deposit o site.self destination amount shareReceiver)
  let o ← orRevert (out.forceApprove r.outside site.self destination 0)
  let shareBalance ← orRevert (out.shareBalance o destination site.self)
  revertIf (shareBalance ≠ shareBalanceBefore) .shareCustodyInvariantViolated
  revertIf (out.usdcBalance o site.self ≠ balBefore) .shareCustodyInvariantViolated
  .ok { r with outside := o }

/-- `depositTo`.  The calls the destination makes back run on the gateway as they would on their own. -/
def depositTo (s : PaymentState W σ) (sender : Address) (d : DepositTo W) : Except PaymentError (PaymentState W σ) := do
  let g := s.registration.gateway
  let now := s.registration.block.timestamp.val
  checkPayment g sender d now
  let id := paymentId enc site (d.intent sender)
  revertIf (s.usedPaymentIds id = true) .paymentIdAlreadyUsed
  let p := g.agents sender
  let g ← g.accrueDeposit sender d.amount.val p.maxPerWindow now
  let o ← pullPayment site out s.outside sender d.amount.val
  let r ← executeVaultDeposit site out o d.destination p.shareReceiver d.amount.val
    (out.usdcBalance s.outside site.self)
  .ok { s with
    registration := run (gatewayStep enc.toEncoding) { s.registration with gateway := g } (r.callbacks.map (·.val))
    usedPaymentIds := update s.usedPaymentIds id true
    outside := r.outside }

inductive PaymentCall (W σ : Type) where
  | lifecycle (c : GatewayCall W)
  | depositTo (sender : Address) (d : DepositTo W)
  | elsewhere (outside : σ)

def paymentStep (s : PaymentState W σ) : PaymentCall W σ → Except PaymentError (PaymentState W σ)
  | .lifecycle c =>
    match gatewayStep enc.toEncoding s.registration c with
    | .error e => .error (.gateway e)
    | .ok r => .ok { s with registration := r }
  | .depositTo sender d => do
    let s' ← depositTo enc site out s sender d
    .ok { s' with executed := d.intent sender :: s.executed }
  | .elsewhere o => .ok { s with outside := o }

end DepositTo

def PaymentState.init (g : Gateway W) (block : Block) (o : σ) : PaymentState W σ :=
  ⟨⟨g, block, []⟩, fun _ => false, o, []⟩

private theorem paymentId_injective (enc : PaymentEncoding W) (site : GatewaySite) :
    Function.Injective (paymentId enc site) := by
  intro i j h
  have hfields := enc.keccak_injective h
  simp only [Preimage.encode.injEq, cons.injEq, true_and] at hfields
  obtain ⟨hagent, horder, hamount, hkey, hdest, -, hlegs⟩ := hfields
  have hagent := enc.word_injective hagent
  have hamount := enc.number_injective hamount
  have hdest := enc.word_injective hdest
  have hlegs := map_injective_iff.2 enc.number_injective hlegs
  cases i
  cases j
  simp_all

section Spec

variable {enc : PaymentEncoding W} {site : GatewaySite} {out : Counterparties W σ}

variable {sender : Address} {d : DepositTo W} {s s' : PaymentState W σ}

theorem checkPayment_eq_ok {g : Gateway W} {now : Nat} {u : Unit} (h : checkPayment g sender d now = .ok u) :
    g.hasRole .agent sender = true ∧ 0 < d.amount.val ∧ (g.agents sender).active = true := by
  simp only [checkPayment, bind_eq_ok, revertIf_eq_ok] at h
  obtain ⟨-, hrole, -, -, -, hamount, -, -, -, -, -, -, -, hactive, -⟩ := h
  exact ⟨by simpa using hrole, by omega, by simpa using hactive⟩

private theorem pullPayment_eq_ok {o o' : σ} {amount : Nat} (h : pullPayment site out o sender amount = .ok o') :
    out.safeTransferFrom o site.self sender site.self amount = some o' ∧
      out.usdcBalance o' site.self = out.usdcBalance o site.self + amount := by
  simp only [pullPayment, bind_eq_ok, orRevert_eq_ok, sub_eq_ok, revertIf_eq_ok, ok.injEq] at h
  obtain ⟨o₁, htransfer, delta, ⟨hle, hdelta⟩, -, hamount, rfl⟩ := h
  exact ⟨htransfer, by omega⟩

private theorem executeVaultDeposit_eq_ok {o : σ} {destination shareReceiver : Address} {amount balBefore : Nat}
    {r : Deposited W σ} (h : executeVaultDeposit site out o destination shareReceiver amount balBefore = .ok r) :
    ∃ o₁ r₁, out.forceApprove o site.self destination amount = some o₁ ∧
      out.deposit o₁ site.self destination amount shareReceiver = some r₁ ∧
      out.forceApprove r₁.outside site.self destination 0 = some r.outside ∧ r₁.sharesMinted = r.sharesMinted ∧
      out.shareBalance r.outside destination site.self = out.shareBalance o destination site.self ∧
      out.usdcBalance r.outside site.self = balBefore := by
  simp only [executeVaultDeposit, bind_eq_ok, orRevert_eq_ok, revertIf_eq_ok, ne_eq, not_not, ok.injEq] at h
  obtain ⟨before, hbefore, o₁, happrove, r₁, hdeposit, o₂, hclear, after, hafter, -, hshares, -, husdc, rfl⟩ := h
  refine ⟨o₁, r₁, happrove, hdeposit, hclear, rfl, ?_, husdc⟩
  dsimp only
  rw [hafter, hbefore, hshares]

variable [DecidableEq W]

theorem depositTo_eq_ok (h : depositTo enc site out s sender d = .ok s') :
    ∃ g o r, checkPayment s.registration.gateway sender d s.registration.block.timestamp.val = .ok () ∧
      s.usedPaymentIds (paymentId enc site (d.intent sender)) = false ∧
      s.registration.gateway.accrueDeposit sender d.amount.val (s.registration.gateway.agents sender).maxPerWindow
        s.registration.block.timestamp.val = .ok g ∧
      pullPayment site out s.outside sender d.amount.val = .ok o ∧
      executeVaultDeposit site out o d.destination (s.registration.gateway.agents sender).shareReceiver d.amount.val
        (out.usdcBalance s.outside site.self) = .ok r ∧
      s' = { s with
        registration := run (gatewayStep enc.toEncoding) { s.registration with gateway := g }
          (r.callbacks.map (·.val))
        usedPaymentIds := update s.usedPaymentIds (paymentId enc site (d.intent sender)) true
        outside := r.outside } := by
  simp only [depositTo, bind_eq_ok, revertIf_eq_ok, Bool.not_eq_true, ok.injEq] at h
  obtain ⟨u, hcheck, -, hused, g, hg, o, ho, r, hr, rfl⟩ := h
  exact ⟨g, o, r, hcheck, hused, hg, ho, hr, rfl⟩

private theorem depositTo_eq_replay : depositTo enc site out s sender d = .error .paymentIdAlreadyUsed ↔
      checkPayment s.registration.gateway sender d s.registration.block.timestamp.val = .ok () ∧
        s.usedPaymentIds (paymentId enc site (d.intent sender)) = true := by
  have hcheck : checkPayment s.registration.gateway sender d s.registration.block.timestamp.val ≠
      .error .paymentIdAlreadyUsed := by
    simp [checkPayment, bind_eq_error]
  have haccrue : ∀ amount cap, s.registration.gateway.accrueDeposit sender amount cap
      s.registration.block.timestamp.val ≠ .error .paymentIdAlreadyUsed := by
    intro amount cap
    unfold Gateway.accrueDeposit
    split <;> simp
  have hpull : ∀ amount, pullPayment site out s.outside sender amount ≠ .error .paymentIdAlreadyUsed := by
    intro amount
    simp [pullPayment, bind_eq_error, sub_eq_error, Panics.panic]
  have hvault : ∀ o destination receiver amount balBefore,
      executeVaultDeposit site out o destination receiver amount balBefore ≠ .error .paymentIdAlreadyUsed := by
    intro o destination receiver amount balBefore
    simp [executeVaultDeposit, bind_eq_error]
  simp only [depositTo, bind_eq_error, hcheck, haccrue, hpull, hvault, revertIf_eq_error, false_or, and_true,
    and_false, exists_false, or_false, reduceCtorEq]
  constructor
  · rintro ⟨u, hok, hused⟩
    exact ⟨hok, hused⟩
  · rintro ⟨hok, hused⟩
    exact ⟨(), hok, hused⟩

variable (enc site) in
/-- No intent was executed twice, and an id is in use exactly when it is that of an executed intent. -/
structure PaymentState.UsedMatch (s : PaymentState W σ) : Prop where
  nodup : s.executed.Nodup
  used : ∀ i, s.usedPaymentIds (paymentId enc site i) = true ↔ i ∈ s.executed

private theorem paymentStep_deposit (hs : s.UsedMatch enc site)
    (h : paymentStep enc site out s (.depositTo sender d) = .ok s') :
    d.intent sender ∉ s.executed ∧ s'.executed = d.intent sender :: s.executed ∧
      ∀ i, s'.usedPaymentIds (paymentId enc site i) = true ↔
        i = d.intent sender ∨ s.usedPaymentIds (paymentId enc site i) = true := by
  simp only [paymentStep, bind_eq_ok, ok.injEq] at h
  obtain ⟨s₁, hd, rfl⟩ := h
  obtain ⟨g, o, r, -, hused, -, -, -, rfl⟩ := depositTo_eq_ok hd
  refine ⟨?_, rfl, ?_⟩
  · intro hmem
    rw [← hs.used, hused] at hmem
    cases hmem
  · intro i
    show update s.usedPaymentIds _ true _ = true ↔ _
    by_cases hi : i = d.intent sender
    · subst hi
      simp
    have hid : paymentId enc site i ≠ paymentId enc site (d.intent sender) :=
      fun e => hi (paymentId_injective enc site e)
    simp [update_of_ne hid, hi]

theorem usedMatch_step {c : PaymentCall W σ} (hs : s.UsedMatch enc site) (h : paymentStep enc site out s c = .ok s') :
    s'.UsedMatch enc site := by
  cases c with
  | lifecycle c =>
    simp only [paymentStep] at h
    split at h
    · cases h
    cases h
    exact ⟨hs.nodup, hs.used⟩
  | depositTo sender d =>
    obtain ⟨hnew, hexec, hused⟩ := paymentStep_deposit hs h
    constructor
    · rw [hexec]
      exact nodup_cons.2 ⟨hnew, hs.nodup⟩
    · intro i
      rw [hused, hs.used, hexec, mem_cons]
  | elsewhere o =>
    cases h
    exact ⟨hs.nodup, hs.used⟩

/-- USDC is a plain ERC-20: a transfer moves its value and nothing else, an approval moves nothing. -/
structure PlainUsdc (out : Counterparties W σ) : Prop where
  transfer : ∀ o spender source target value o', out.safeTransferFrom o spender source target value = some o' →
    value ≤ out.usdcBalance o source ∧ out.usdcBalance o' = moveBalance (out.usdcBalance o) source target value ∧
      out.shareBalance o' = out.shareBalance o
  approve : ∀ o owner spender value o', out.forceApprove o owner spender value = some o' →
    out.usdcBalance o' = out.usdcBalance o ∧ out.shareBalance o' = out.shareBalance o

/-- `destination` is an ERC-4626 vault that keeps its assets in `custody`: a deposit mints the shares it reports to
the receiver, and the USDC it moves is its caller's and its own. -/
structure MintsToReceiver (out : Counterparties W σ) (destination : Address) (custody : Set Address) : Prop where
  shares : ∀ o caller assets receiver r, out.deposit o caller destination assets receiver = some r →
    ∀ a n, out.shareBalance o destination a = some n →
      out.shareBalance r.outside destination a = some (if a = receiver then n + r.sharesMinted else n)
  usdc : ∀ o caller assets receiver r, out.deposit o caller destination assets receiver = some r →
    ∀ a, a ≠ caller → a ∉ custody → out.usdcBalance r.outside a = out.usdcBalance o a

private theorem depositTo_usdc (h : depositTo enc site out s sender d = .ok s') :
    out.usdcBalance s'.outside site.self = out.usdcBalance s.outside site.self := by
  obtain ⟨g, o, r, -, -, -, -, hr, rfl⟩ := depositTo_eq_ok h
  obtain ⟨-, -, -, -, -, -, -, husdc⟩ := executeVaultDeposit_eq_ok hr
  exact husdc

private theorem depositTo_shares (husdc : PlainUsdc out) (h : depositTo enc site out s sender d = .ok s') :
    out.shareBalance s'.outside d.destination site.self = out.shareBalance s.outside d.destination site.self := by
  obtain ⟨g, o, r, -, -, -, ho, hr, rfl⟩ := depositTo_eq_ok h
  obtain ⟨htransfer, -⟩ := pullPayment_eq_ok ho
  obtain ⟨-, -, -, -, -, -, hshares, -⟩ := executeVaultDeposit_eq_ok hr
  obtain ⟨-, -, hsame⟩ := husdc.transfer _ _ _ _ _ _ htransfer
  rw [hsame] at hshares
  exact hshares

private theorem depositTo_moves (husdc : PlainUsdc out) {custody : Set Address}
    (hvault : MintsToReceiver out d.destination custody) (hsender : sender ∉ custody)
    (h : depositTo enc site out s sender d = .ok s') :
    out.usdcBalance s'.outside sender + d.amount.val = out.usdcBalance s.outside sender ∧
      ∃ minted, ∀ a n, out.shareBalance s.outside d.destination a = some n →
        out.shareBalance s'.outside d.destination a =
          some (if a = (s.registration.gateway.agents sender).shareReceiver then n + minted else n) := by
  obtain ⟨g, o, r, hcheck, -, -, ho, hr, rfl⟩ := depositTo_eq_ok h
  obtain ⟨-, hpos, -⟩ := checkPayment_eq_ok hcheck
  obtain ⟨htransfer, hdelta⟩ := pullPayment_eq_ok ho
  obtain ⟨hle, hmove, hsame⟩ := husdc.transfer _ _ _ _ _ _ htransfer
  obtain ⟨o₁, r₁, happrove, hdeposit, hclear, -, -, -⟩ := executeVaultDeposit_eq_ok hr
  obtain ⟨husdc₁, hshares₁⟩ := husdc.approve _ _ _ _ _ happrove
  obtain ⟨husdc₂, hshares₂⟩ := husdc.approve _ _ _ _ _ hclear
  -- the gateway cannot pay itself: its balance would not have moved
  have hne : sender ≠ site.self := by
    intro hself
    subst hself
    rw [hmove, moveBalance_self _ _ hle] at hdelta
    omega
  constructor
  · have hkept := hvault.usdc _ _ _ _ _ hdeposit sender hne hsender
    show out.usdcBalance r.outside sender + _ = _
    rw [husdc₂, hkept, husdc₁, hmove, moveBalance_source hne]
    omega
  · refine ⟨r₁.sharesMinted, fun a n hn => ?_⟩
    have hmint := hvault.shares _ _ _ _ _ hdeposit a n (by rw [hshares₁, hsame]; exact hn)
    show out.shareBalance r.outside d.destination a = _
    rw [hshares₂]
    exact hmint

end Spec

/-- Agent payments.  In every state some run of payments, registrations, revocations and re-registrations reaches:

* no intent was executed twice, and an id is in use exactly when it is that of an executed intent;
* a payment is refused as a replay exactly when it passes the checks and its own intent was executed before, and a
  successful payment changes no other intent's id;
* a payment that fails leaves the state, the ids and the agent's window included, as it was;
* a successful payment leaves the gateway's USDC as it was and, USDC being a plain token, its shares of the
  destination; if the destination is an ERC-4626 vault that does not keep its assets with the agent, the agent pays
  exactly the amount and the new shares all go to the share receiver of its policy. -/
theorem payments_execute_once [DecidableEq W] (enc : PaymentEncoding W) (site : GatewaySite) (out : Counterparties W σ)
    (g : Gateway W) (block : Block) (o : σ) (cs : List (PaymentCall W σ)) :
    let s := run (paymentStep enc site out) (PaymentState.init g block o) cs
    s.executed.Nodup ∧
    (∀ i, s.usedPaymentIds (paymentId enc site i) = true ↔ i ∈ s.executed) ∧
    (∀ sender d, paymentStep enc site out s (.depositTo sender d) = .error .paymentIdAlreadyUsed ↔
      checkPayment s.registration.gateway sender d s.registration.block.timestamp.val = .ok () ∧
        d.intent sender ∈ s.executed) ∧
    (∀ sender d e, paymentStep enc site out s (.depositTo sender d) = .error e →
      exec (paymentStep enc site out) s (.depositTo sender d) = s) ∧
    ∀ sender d s', paymentStep enc site out s (.depositTo sender d) = .ok s' →
      d.intent sender ∉ s.executed ∧ s'.executed = d.intent sender :: s.executed ∧
      (∀ i, i ≠ d.intent sender →
        (s'.usedPaymentIds (paymentId enc site i) = true ↔ s.usedPaymentIds (paymentId enc site i) = true)) ∧
      out.usdcBalance s'.outside site.self = out.usdcBalance s.outside site.self ∧
      (PlainUsdc out →
        out.shareBalance s'.outside d.destination site.self = out.shareBalance s.outside d.destination site.self ∧
        ∀ custody, MintsToReceiver out d.destination custody → sender ∉ custody →
          out.usdcBalance s'.outside sender + d.amount.val = out.usdcBalance s.outside sender ∧
          ∃ minted, ∀ a n, out.shareBalance s.outside d.destination a = some n →
            out.shareBalance s'.outside d.destination a =
              some (if a = (s.registration.gateway.agents sender).shareReceiver then n + minted else n)) := by
  intro s
  have hs : s.UsedMatch enc site := by
    apply run_invariant (P := fun s : PaymentState W σ => s.UsedMatch enc site)
    · exact fun _ _ _ hs h => usedMatch_step hs h
    · exact ⟨nodup_nil, fun i => by simp [PaymentState.init]⟩
  clear_value s
  refine ⟨hs.nodup, hs.used, ?_, fun _ _ _ h => exec_of_error h, ?_⟩
  · intro sender d
    have hreplay : depositTo enc site out s sender d = .error .paymentIdAlreadyUsed ↔ _ := depositTo_eq_replay
    rw [← hs.used, ← hreplay]
    simp [paymentStep, bind_eq_error]
  · intro sender d s' h
    obtain ⟨hnew, hexec, hused⟩ := paymentStep_deposit hs h
    simp only [paymentStep, bind_eq_ok, ok.injEq] at h
    obtain ⟨s₁, hd, rfl⟩ := h
    have husdc := depositTo_usdc hd
    refine ⟨hnew, hexec, ?_, husdc, ?_⟩
    · intro i hi
      rw [hused]
      simp [hi]
    · intro husdc
      have hshares := depositTo_shares husdc hd
      refine ⟨hshares, fun custody hvault hsender => ?_⟩
      have hmoves := depositTo_moves husdc hvault hsender hd
      exact hmoves

/-- Tokens and vaults to evaluate payments with: vaults that pull the assets and mint a share a unit. -/
def Counterparties.plain : Counterparties W (Token × (Address → Balances)) where
  usdcBalance o := o.1.balance
  shareBalance o vault account := some (o.2 vault account)
  safeTransferFrom o spender source target value :=
    match o.1.transferFrom spender source target value with
    | .ok t => some (t, o.2)
    | .error _ => none
  forceApprove o owner spender value := some (o.1.approve owner spender value, o.2)
  deposit o caller destination assets receiver :=
    match o.1.transferFrom destination caller destination assets with
    | .ok t => some ⟨(t, update o.2 destination
        (update (o.2 destination) receiver (o.2 destination receiver + assets))), assets, []⟩
    | .error _ => none

private theorem plain_usdc : PlainUsdc (Counterparties.plain : Counterparties W _) := by
  constructor
  · intro o spender source target value o' h
    simp only [Counterparties.plain] at h
    split at h
    · rename_i t ht
      cases h
      obtain ⟨-, -, hle, rfl⟩ := Token.transferFrom_eq_ok.1 ht
      exact ⟨hle, rfl, rfl⟩
    · cases h
  · intro o owner spender value o' h
    cases h
    exact ⟨rfl, rfl⟩

private theorem plain_mints (destination : Address) :
    MintsToReceiver (Counterparties.plain : Counterparties W _) destination {destination} := by
  constructor
  · intro o caller assets receiver r h a n hn
    simp only [Counterparties.plain] at h hn
    split at h
    · cases h
      simp only [Option.some.injEq] at hn
      subst hn
      by_cases ha : a = receiver
      · simp [Counterparties.plain, ha]
      · simp [Counterparties.plain, ha]
    · cases h
  · intro o caller assets receiver r h a hcaller ha
    simp only [Counterparties.plain] at h
    split at h
    · rename_i t ht
      cases h
      obtain ⟨-, -, -, rfl⟩ := Token.transferFrom_eq_ok.1 ht
      exact moveBalance_of_ne hcaller ha
    · cases h

def PaymentEncoding.spelled (decodeReveal : Calldata → Option (Address × List Nat × AgentPolicy)) :
    PaymentEncoding (List Nat) where
  toEncoding := Encoding.spelled decodeReveal
  number n := [n.val]
  number_injective := by
    intro a b h
    exact Fin.val_injective (cons.inj h).1

/-- The policy account 3 gives agent 7: up to five units a payment into vault 9, until second 100. -/
def samplePolicy : AgentPolicy := ⟨true, 100, 5, 9, 3, [9], 0, 0, 0, []⟩

def sampleEncoding : PaymentEncoding (List Nat) := .spelled fun _ => some (7, [], samplePolicy)

def sampleRegistration : List (PaymentCall (List Nat) (Token × (Address → Balances))) :=
  [.lifecycle (.commitAuthorization 3 (ownerHash sampleEncoding.toEncoding 7 3 [])),
    .lifecycle (.commitAuthorization 7 (consentHash sampleEncoding.toEncoding 3 [])),
    .lifecycle (.advance 1 ⟨2, by decide, by decide⟩), .lifecycle (.revealAuthorization 3 [])]

/-- A world where agent 7 holds a hundred units and lets the gateway, account 50, take sixty. -/
def sampleWorld : Token × (Address → Balances) :=
  (⟨fun a => if a = 7 then 100 else 0, fun a b => if a = 7 ∧ b = 50 then 60 else 0⟩, fun _ _ => 0)

/-- The registered agent pays five units. -/
theorem payments_execute_once_five_units :
    let site : GatewaySite := ⟨50, opDepositTo⟩
    let s := run (paymentStep sampleEncoding site .plain)
      (.init (.init 1 2) Block.sample sampleWorld) sampleRegistration
    let d : DepositTo (List Nat) := ⟨[1], ⟨5, by decide⟩, 10, [2], 9, [], 3000000⟩
    ∃ s', paymentStep sampleEncoding site .plain s (.depositTo 7 d) = .ok s' ∧ s'.executed = [d.intent 7] ∧
      s'.outside.1.balance 7 + 5 = s.outside.1.balance 7 := by
  intro site s d
  have hok : (paymentStep sampleEncoding site .plain s (.depositTo 7 d)).isOk = true := by decide +kernel
  cases h : paymentStep sampleEncoding site .plain s (.depositTo 7 d) with
  | error e =>
    rw [h] at hok
    cases hok
  | ok s' =>
    obtain ⟨-, hexec, -, -, hplain⟩ := (payments_execute_once sampleEncoding site .plain (.init 1 2) Block.sample
      sampleWorld sampleRegistration).2.2.2.2 7 d s' h
    obtain ⟨hpaid, -⟩ := (hplain plain_usdc).2 {9} (plain_mints 9) (by decide)
    refine ⟨s', rfl, hexec.trans ?_, hpaid⟩
    have hnone : s.executed = [] := by decide +kernel
    rw [hnone]

end RobotMoney
