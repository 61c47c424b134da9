import RobotMoney.Evm.Token

/-!
# The strategy adapters

`AaveV3Adapter`, `CompoundV3Adapter` and `MorphoAdapter` hand the USDC of a vault to a lending venue and fetch it back.
They differ in how they approve the venue, in what they ask around a supply, and in how they learn what a withdrawal
brought (`AdapterKind`).  Over a venue that lends as it says they are what the vault's theorems assume of its adapters,
whoever calls them (`adapters_keep_the_sum`).
-/

namespace RobotMoney.Strategy

open Evm Except

inductive AdapterError where
  | onlyVault
  | withdrawShortfall (requested actual : Nat)
  | venueWithdrawalsClosed
  | exposureCapExceeded (current amount cap : Nat)
  | venueReverted
  | usdc (e : TokenError)
  | panicked (p : Panic)

instance adapterError_panics : Panics AdapterError := ⟨.panicked⟩

/-- A withdrawal brought what the venue answers, what the adapter got and forwards, or what the vault got. -/
inductive Payout where
  | answered
  | forwarded
  | delivered
  deriving DecidableEq

structure AdapterKind where
  /-- The allowance of the venue is increased, not set. -/
  increases : Bool
  /-- A venue that refuses a supply must still pay out. -/
  probes : Bool
  /-- There is a `maxExposure`. -/
  capped : Bool
  payout : Payout

def aaveV3Adapter : AdapterKind := ⟨false, true, false, .answered⟩

def compoundV3Adapter : AdapterKind := ⟨true, true, false, .forwarded⟩

def morphoAdapter : AdapterKind := ⟨false, false, true, .delivered⟩

/-- A lending venue; `balanceOf` is what it owes the adapter, and a call without a result reverts. -/
structure Venue (σ : Type) where
  balanceOf : σ → Nat
  venueWithdrawable : σ → Bool
  supply : σ → Token → Nat → Option (σ × Token)
  withdraw : σ → Token → Nat → Address → Option (Nat × σ × Token)

/-- The immutables of an adapter. -/
structure Adapter (σ : Type) where
  kind : AdapterKind
  lending : Venue σ
  self : Address
  venue : Address
  vault : Address

structure AdapterState (σ : Type) where
  usdc : Token
  venue : σ
  maxExposure : Nat

inductive AdapterCall where
  | allocate (sender : Address) (amount : Nat)
  | withdraw (sender : Address) (amount : Nat)
  | setMaxExposure (sender : Address) (cap : Nat)

namespace Adapter

variable {σ : Type} (c : Adapter σ) (s : AdapterState σ)

def totalAssets : Nat := c.lending.balanceOf s.venue

def checkExposure (amount : Nat) : Except AdapterError Unit :=
  if c.kind.capped = true ∧ s.maxExposure > 0 then do
    let exposed ← add (c.totalAssets s) amount
    revertIf (exposed > s.maxExposure) (.exposureCapExceeded (c.totalAssets s) amount s.maxExposure)
  else .ok ()

/-- `deploy`: the allowance is taken back whether the venue took the USDC or the vault got it back. -/
def deploy (sender : Address) (amount : Nat) : Except AdapterError (AdapterState σ) := do
  revertIf (sender ≠ c.vault) .onlyVault
  c.checkExposure s amount
  let approved ← (if c.kind.increases = true then add (s.usdc.allowance c.self c.venue) amount else .ok amount)
  let usdc := s.usdc.approve c.self c.venue approved
  match c.lending.supply s.venue usdc amount with
  | some (venue, usdc) => .ok ⟨usdc.approve c.self c.venue 0, venue, s.maxExposure⟩
  | none => do
    revertIf (c.kind.probes = true ∧ c.lending.venueWithdrawable s.venue = false) .venueWithdrawalsClosed
    let usdc ← (usdc.transfer c.self c.vault amount).mapError .usdc
    .ok ⟨usdc.approve c.self c.venue 0, s.venue, s.maxExposure⟩

def received (answer : Nat) (usdc : Token) : Except AdapterError Nat :=
  match c.kind.payout with
  | .answered => .ok answer
  | .forwarded => sub (usdc.balance c.self) (s.usdc.balance c.self)
  | .delivered => sub (usdc.balance c.vault) (s.usdc.balance c.vault)

def withdraw (sender : Address) (amount : Nat) : Except AdapterError (Nat × AdapterState σ) := do
  revertIf (sender ≠ c.vault) .onlyVault
  let receiver := if c.kind.payout = .forwarded then c.self else c.vault
  match c.lending.withdraw s.venue s.usdc amount receiver with
  | none => .error .venueReverted
  | some (answer, venue, usdc) => do
    let actual ← c.received s answer usdc
    let usdc ← (if c.kind.payout = .forwarded ∧ actual > 0 then (usdc.transfer c.self c.vault actual).mapError .usdc
      else .ok usdc)
    revertIf (amount ≠ wordSize - 1 ∧ actual < amount) (.withdrawShortfall amount actual)
    .ok (actual, ⟨usdc, venue, s.maxExposure⟩)

/-- A call; `_allocate` of the vault sends the USDC ahead of `deploy`, and only Morpho's adapter has a
`setMaxExposure`. -/
def step : AdapterCall → Except AdapterError (AdapterState σ)
  | .allocate sender amount => do
    let usdc ← (s.usdc.transfer sender c.self amount).mapError .usdc
    c.deploy { s with usdc := usdc } sender amount
  | .withdraw sender amount => do
    let (_, s) ← c.withdraw s sender amount
    .ok s
  | .setMaxExposure sender cap => do
    revertIf (sender ≠ c.vault) .onlyVault
    .ok { s with maxExposure := cap }

/-- The venue takes and pays what it says. -/
structure Honest : Prop where
  supply : ∀ {w t x w' t'}, c.lending.supply w t x = some (w', t') →
    t.transferFrom c.venue c.self c.venue x = .ok t' ∧ c.lending.balanceOf w' = c.lending.balanceOf w + x
  withdraw : ∀ {w t x r y w' t'}, c.lending.withdraw w t x r = some (y, w', t') →
    t.transfer c.venue r y = .ok t' ∧ c.lending.balanceOf w' + y = c.lending.balanceOf w ∧
      (x ≤ c.lending.balanceOf w → y = x)

structure Apart : Prop where
  self_venue : c.self ≠ c.venue
  self_vault : c.self ≠ c.vault
  venue_vault : c.venue ≠ c.vault

/-- No allowance and no USDC of the adapter has gone, and what the vault has and what the adapter reports add up. -/
structure Kept (s s' : AdapterState σ) : Prop where
  allowance : s'.usdc.allowance c.self = s.usdc.allowance c.self
  held : s'.usdc.balance c.self = s.usdc.balance c.self
  worth : s'.usdc.balance c.vault + c.totalAssets s' = s.usdc.balance c.vault + c.totalAssets s

variable {c s} {s' : AdapterState σ} {sender : Address} {amount r : Nat} (hv : c.Honest) (ha : c.Apart)

include hv ha

private theorem deploy_spec (h0 : s.usdc.allowance c.self c.venue = 0) (h : c.deploy s sender amount = .ok s') :
    sender = c.vault ∧ s'.usdc.balance c.self = s.usdc.balance c.self - amount ∧
      s'.usdc.allowance c.self = s.usdc.allowance c.self ∧
      ∃ back ≤ amount, s'.usdc.balance c.vault = s.usdc.balance c.vault + back ∧
        c.totalAssets s' = c.totalAssets s + (amount - back) := by
  simp only [deploy, bind_eq_ok, revertIf_eq_ok, not_not] at h
  obtain ⟨-, hsender, -, -, approved, happroved, h⟩ := h
  obtain rfl : approved = amount := by
    split at happroved
    · rw [add_eq_ok, h0, Nat.zero_add] at happroved
      exact happroved.2
    · exact (ok.inj happroved).symm
  have hzero : Function.update (s.usdc.allowance c.self) c.venue 0 = s.usdc.allowance c.self := by
    rw [← h0, Function.update_eq_self]
  split at h
  · rename_i venue usdc hsupply
    obtain ⟨htaken, howed⟩ := hv.supply hsupply
    obtain ⟨-, -, -, rfl⟩ := Token.transferFrom_eq_ok.1 htaken
    cases h
    exact ⟨hsender, moveBalance_source ha.self_venue, by simp [hzero], 0, Nat.zero_le _,
      moveBalance_of_ne ha.self_vault.symm ha.venue_vault.symm, howed⟩
  · simp only [bind_eq_ok, mapError_eq_ok, Token.transfer_eq_ok, ok.injEq] at h
    obtain ⟨-, -, usdc, ⟨-, -, rfl⟩, rfl⟩ := h
    exact ⟨hsender, moveBalance_source ha.self_vault, by simp [hzero, Token.approve], _, le_refl _,
      moveBalance_target ha.self_vault, by simp [totalAssets]⟩

private theorem withdraw_spec (h : c.withdraw s sender amount = .ok (r, s')) : c.Kept s s' ∧
    s'.usdc.balance c.vault = s.usdc.balance c.vault + r ∧ (amount ≠ wordSize - 1 → amount ≤ r) ∧
      (amount ≤ c.totalAssets s → r = amount) := by
  simp only [withdraw, bind_eq_ok, revertIf_eq_ok] at h
  obtain ⟨-, -, h⟩ := h
  split at h
  · cases h
  · rename_i answer venue usdc hpaid
    obtain ⟨htransfer, howed, hasked⟩ := hv.withdraw hpaid
    obtain ⟨-, -, rfl⟩ := Token.transfer_eq_ok.1 htransfer
    simp only [bind_eq_ok, revertIf_eq_ok, ok.injEq, Prod.mk.injEq] at h
    obtain ⟨actual, hactual, usdc, hforward, -, hshort, rfl, rfl⟩ := h
    -- wherever the venue pays, the amount is what it answers
    have hanswer : actual = answer ∧ usdc.allowance = s.usdc.allowance ∧
        usdc.balance c.self = s.usdc.balance c.self ∧ usdc.balance c.vault = s.usdc.balance c.vault + answer := by
      have hself := @moveBalance_target s.usdc.balance _ _ answer ha.self_venue.symm
      have hvault := @moveBalance_target s.usdc.balance _ _ answer ha.venue_vault
      unfold received at hactual
      cases hkind : c.kind.payout with
      | answered | delivered =>
        simp only [hkind, reduceCtorEq, if_false, false_and, ok.injEq, sub_eq_ok, hvault] at hactual hforward ⊢
        subst hforward
        exact ⟨by omega, rfl, moveBalance_of_ne ha.self_venue ha.self_vault, hvault⟩
      | forwarded =>
        simp only [hkind, if_true, true_and, sub_eq_ok, hself] at hactual hforward ⊢
        have hother := @moveBalance_of_ne s.usdc.balance _ _ _ answer ha.venue_vault.symm ha.self_vault.symm
        split at hforward
        · rw [mapError_eq_ok, Token.transfer_eq_ok] at hforward
          obtain ⟨-, -, rfl⟩ := hforward
          simp only [moveBalance_source ha.self_vault, moveBalance_target ha.self_vault, hself, hother]
          exact ⟨by omega, trivial, by omega, by omega⟩
        · cases hforward
          simp only [hself, hother]
          exact ⟨by omega, trivial, by omega, by omega⟩
    obtain ⟨rfl, hallowance, hself, hvault⟩ := hanswer
    refine ⟨⟨congrFun hallowance _, hself, ?_⟩, hvault, fun hmax => ?_, hasked⟩
    · simp only [totalAssets, hvault, ← howed]
      omega
    · by_contra hlt
      exact hshort ⟨hmax, Nat.lt_of_not_le hlt⟩

private theorem step_kept {s₀ : AdapterState σ} {call : AdapterCall} (h0 : s₀.usdc.allowance c.self c.venue = 0)
    (hk : c.Kept s₀ s) (h : c.step s call = .ok s') : c.Kept s₀ s' := by
  obtain ⟨hallowance, hheld, hworth⟩ := hk
  cases call with
  | allocate sender amount =>
    simp only [step, bind_eq_ok, mapError_eq_ok, Token.transfer_eq_ok] at h
    obtain ⟨usdc, ⟨-, hle, rfl⟩, h⟩ := h
    obtain ⟨rfl, hself, hsame, back, hback, hvault, howed⟩ := deploy_spec hv ha (by rw [← h0, ← hallowance]) h
    simp only [moveBalance_source ha.self_vault.symm, moveBalance_target ha.self_vault.symm] at hself hvault
    refine ⟨hsame.trans hallowance, by omega, ?_⟩
    rw [hvault, howed, ← hworth]
    simp only [totalAssets]
    omega
  | withdraw sender amount =>
    simp only [step, bind_eq_ok, ok.injEq] at h
    obtain ⟨⟨r, s₁⟩, h, rfl⟩ := h
    obtain ⟨⟨hallowance', hheld', hworth'⟩, -⟩ := withdraw_spec hv ha h
    exact ⟨hallowance'.trans hallowance, hheld'.trans hheld, hworth'.trans hworth⟩
  | setMaxExposure sender cap =>
    simp only [step, bind_eq_ok, ok.injEq] at h
    obtain ⟨-, -, rfl⟩ := h
    exact ⟨hallowance, hheld, hworth⟩

/-- Over a venue that lends as it says, whoever makes which calls: an adapter that has approved nobody has approved
nobody afterwards, it holds what it held, and no USDC is lost between the vault and what the adapter reports.  A
withdrawal that returns has paid the vault what it reports, no less than was asked, and just that when the adapter
reported as much. -/
theorem adapters_keep_the_sum (h0 : s.usdc.allowance c.self c.venue = 0) (calls : List AdapterCall) :
    let s' := run c.step s calls
    c.Kept s s' ∧ ∀ sender amount r t, c.withdraw s' sender amount = .ok (r, t) →
      t.usdc.balance c.vault = s'.usdc.balance c.vault + r ∧ (amount ≠ wordSize - 1 → amount ≤ r) ∧
        (amount ≤ c.totalAssets s' → r = amount) :=
  ⟨run_invariant (P := c.Kept s) (fun _ _ _ ht hc => step_kept hv ha h0 ht hc) ⟨rfl, rfl, rfl⟩ calls,
    fun _ _ _ _ h => (withdraw_spec hv ha h).2⟩

omit hv ha

/-- A venue, account 3, that owes what it has taken. -/
def sampleVenue : Venue Nat where
  balanceOf owed := owed
  venueWithdrawable _ := true
  supply owed usdc amount := (usdc.transferFrom 3 2 3 amount).toOption.map fun usdc => (owed + amount, usdc)
  withdraw owed usdc amount receiver :=
    if amount ≤ owed then (usdc.transfer 3 receiver amount).toOption.map fun usdc =>
      (amount, owed - amount, usdc) else none

def sampleAdapter : Adapter Nat := ⟨compoundV3Adapter, sampleVenue, 2, 3, 1⟩

private theorem sampleAdapter_honest : sampleAdapter.Honest := by
  constructor
  · intro w t x w' t' h
    cases hpaid : t.transferFrom 3 2 3 x <;> simp [sampleAdapter, sampleVenue, hpaid, Except.toOption] at h
    obtain ⟨rfl, rfl⟩ := h
    exact ⟨hpaid, rfl⟩
  · intro w t x r y w' t' h
    cases hpaid : t.transfer 3 r x <;> simp [sampleAdapter, sampleVenue, hpaid, Except.toOption] at h
    obtain ⟨hle, rfl, rfl, rfl⟩ := h
    exact ⟨hpaid, Nat.sub_add_cancel hle, fun _ => rfl⟩

theorem adapters_keep_the_sum_of_sample :
    let s : AdapterState Nat := ⟨⟨fun a => if a = 1 then 100 else 0, fun _ _ => 0⟩, 0, 0⟩
    let s' := run sampleAdapter.step s [.allocate 1 60, .withdraw 1 20, .withdraw 9 5]
    sampleAdapter.totalAssets s' = 40 ∧ s'.usdc.balance 1 = 60 ∧ sampleAdapter.Kept s s' :=
  ⟨by decide +kernel, by decide +kernel,
    (adapters_keep_the_sum sampleAdapter_honest ⟨by decide, by decide, by decide⟩ rfl _).1⟩

end Adapter

end RobotMoney.Strategy
