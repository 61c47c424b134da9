import RobotMoney.Evm.Chain
import RobotMoney.Evm.Machine

/-!
# Tokens with allowances

A plain ERC-20 with its allowances, as a machine whose calls carry the account that makes them.  What an account can
lose while others call the token is bounded by what it has approved: as long as it makes no call itself and is not
paid, its balance and the sum of its open allowances fall together (`Token.run_exposure`).
-/

namespace Evm

open Function

structure Token where
  balance : Balances
  allowance : Address → Address → Nat

namespace Token

def approve (t : Token) (owner spender : Address) (value : Nat) : Token :=
  { t with allowance := update t.allowance owner (update (t.allowance owner) spender value) }

def transfer (t : Token) (sender target : Address) (value : Nat) : Except TokenError Token := do
  let balance ← Evm.transfer t.balance sender target value
  .ok { t with balance := balance }

/-- `transferFrom`: the allowance is spent as well. -/
def transferFrom (t : Token) (spender source target : Address) (value : Nat) : Except TokenError Token := do
  revertIf (t.allowance source spender < value) .insufficientAllowance
  let t ← t.transfer source target value
  .ok (t.approve source spender (t.allowance source spender - value))

/-- What others may take from `account`. -/
def exposure (t : Token) (account : Address) : Nat := ∑ spender, t.allowance account spender

end Token

/-- The calls of a token, with who makes them; new tokens are issued by nobody in particular. -/
inductive TokenCall where
  | transfer (sender target : Address) (value : Nat)
  | transferFrom (spender source target : Address) (value : Nat)
  | approve (owner spender : Address) (value : Nat)
  | issue (account : Address) (value : Nat)
  deriving DecidableEq, Repr

namespace TokenCall

def madeBy (account : Address) : TokenCall → Bool
  | .transfer sender _ _ => sender == account
  | .transferFrom spender _ _ _ => spender == account
  | .approve owner _ _ => owner == account
  | .issue _ _ => false

def pays (account : Address) : TokenCall → Bool
  | .transfer _ target _ => target == account
  | .transferFrom _ _ target _ => target == account
  | .approve _ _ _ => false
  | .issue receiver _ => receiver == account

end TokenCall

def tokenStep (t : Token) : TokenCall → Except TokenError Token
  | .transfer sender target value => t.transfer sender target value
  | .transferFrom spender source target value => t.transferFrom spender source target value
  | .approve owner spender value => .ok (t.approve owner spender value)
  | .issue account value => .ok { t with balance := update t.balance account (t.balance account + value) }

/-- A call that `account` does not make itself. -/
def othersStep (account : Address) (t : Token) (c : TokenCall) : Except TokenError Token := do
  revertIf (c.madeBy account = true) .insufficientAllowance
  tokenStep t c

namespace Token

variable {t t' : Token} {account spender source target : Address} {value : Nat}

@[simp] theorem approve_balance (t : Token) (owner spender : Address) (value : Nat) :
    (t.approve owner spender value).balance = t.balance := rfl

@[simp] theorem approve_allowance_self (t : Token) (owner spender : Address) (value : Nat) :
    (t.approve owner spender value).allowance owner = update (t.allowance owner) spender value := by
  simp [Token.approve]

theorem approve_allowance_of_ne {owner : Address} (h : account ≠ owner) :
    (t.approve owner spender value).allowance account = t.allowance account := by
  simp [Token.approve, h]

theorem transfer_eq_ok : t.transfer source target value = .ok t' ↔
      target ≠ 0 ∧ value ≤ t.balance source ∧ t' = { t with balance := moveBalance t.balance source target value } := by
  simp only [Token.transfer, bind_eq_ok, Evm.transfer_eq_ok, Except.ok.injEq]
  constructor
  · rintro ⟨-, ⟨h1, h2, rfl⟩, rfl⟩
    exact ⟨h1, h2, rfl⟩
  · rintro ⟨h1, h2, rfl⟩
    exact ⟨_, ⟨h1, h2, rfl⟩, rfl⟩

theorem transferFrom_eq_ok :
    t.transferFrom spender source target value = .ok t' ↔
      value ≤ t.allowance source spender ∧ target ≠ 0 ∧ value ≤ t.balance source ∧
        t' = { t with balance := moveBalance t.balance source target value }.approve source spender
          (t.allowance source spender - value) := by
  simp only [Token.transferFrom, bind_eq_ok, revertIf_eq_ok, Token.transfer_eq_ok, Except.ok.injEq]
  constructor
  · rintro ⟨-, h0, -, ⟨h1, h2, rfl⟩, rfl⟩
    exact ⟨by omega, h1, h2, rfl⟩
  · rintro ⟨h0, h1, h2, rfl⟩
    exact ⟨(), by omega, _, ⟨h1, h2, rfl⟩, rfl⟩

theorem exposure_approve (t : Token) (owner spender : Address) (value : Nat) :
    (t.approve owner spender value).exposure owner + t.allowance owner spender = t.exposure owner + value := by
  unfold Token.exposure
  rw [approve_allowance_self]
  exact sum_update_add (t.allowance owner) spender value

theorem exposure_eq_zero (h : t.exposure account = 0) (spender : Address) : t.allowance account spender = 0 := by
  unfold Token.exposure at h
  exact Finset.sum_eq_zero_iff.1 h spender (Finset.mem_univ _)

/-- A call that `account` neither makes nor is paid by costs it what it has approved. -/
theorem step_exposure {c : TokenCall} (hmade : c.madeBy account = false) (hpays : c.pays account = false)
    (h : tokenStep t c = .ok t') : t'.balance account + t.exposure account =
      t.balance account + t'.exposure account := by
  cases c with
  | transfer sender target value =>
    simp only [TokenCall.madeBy, TokenCall.pays, beq_eq_false_iff_ne] at hmade hpays
    simp only [tokenStep, transfer_eq_ok] at h
    obtain ⟨-, -, rfl⟩ := h
    dsimp only
    rw [moveBalance_of_ne (Ne.symm hmade) (Ne.symm hpays)]
    rfl
  | transferFrom spender source target value =>
    simp only [TokenCall.pays, beq_eq_false_iff_ne] at hpays
    simp only [tokenStep, transferFrom_eq_ok] at h
    obtain ⟨hallowed, -, hle, rfl⟩ := h
    by_cases hsource : account = source
    · subst hsource
      have hexp := exposure_approve { t with balance := moveBalance t.balance account target value } account spender
        (t.allowance account spender - value)
      have hsame : { t with balance := moveBalance t.balance account target value }.exposure account =
          t.exposure account := rfl
      rw [approve_balance]
      dsimp only at hexp ⊢
      rw [moveBalance_source (Ne.symm hpays)]
      omega
    rw [approve_balance]
    dsimp only
    rw [moveBalance_of_ne hsource (Ne.symm hpays)]
    unfold Token.exposure
    rw [approve_allowance_of_ne hsource]
  | approve owner spender value =>
    simp only [TokenCall.madeBy, beq_eq_false_iff_ne] at hmade
    simp only [tokenStep, Except.ok.injEq] at h
    subst h
    unfold Token.exposure
    rw [approve_balance, approve_allowance_of_ne (Ne.symm hmade)]
  | issue receiver value =>
    simp only [TokenCall.pays, beq_eq_false_iff_ne] at hpays
    simp only [tokenStep, Except.ok.injEq] at h
    subst h
    dsimp only
    rw [update_of_ne (Ne.symm hpays)]
    rfl

theorem run_exposure (t : Token) {cs : List TokenCall} (hpays : ∀ c ∈ cs, c.pays account = false) :
    (run (othersStep account) t cs).balance account + t.exposure account =
      t.balance account + (run (othersStep account) t cs).exposure account := by
  induction cs generalizing t with
  | nil => rfl
  | cons c cs ih =>
    rw [run_cons]
    have hrest := ih (exec (othersStep account) t c) fun c hc => hpays c (by simp [hc])
    cases hstep : othersStep account t c with
    | error e =>
      rw [exec_of_error hstep] at hrest ⊢
      exact hrest
    | ok t' =>
      rw [exec_of_ok hstep] at hrest ⊢
      simp only [othersStep, bind_eq_ok, revertIf_eq_ok, Bool.not_eq_true] at hstep
      obtain ⟨-, hmade, hstep⟩ := hstep
      have hfirst := step_exposure hmade (hpays c (by simp)) hstep
      omega

end Token

end Evm
