import RobotMoney.Evm.Token

/-!
# Share tokens

An ERC-20 as vault shares implement it: `_spendAllowance` leaves an unlimited allowance as it is, and shares can be
burned.  The lemmas say what each operation does to the allowance of one spender and to the supply, which is all that
a bound on what a spender takes needs.
-/

namespace Evm

/-- `type(uint256).max`, the allowance that is not spent. -/
def unlimited : Nat := wordSize - 1

inductive ShareTokenError where
  | insufficientBalance
  | insufficientAllowance
  | invalidSender
  | invalidReceiver
  | invalidApprover
  | invalidSpender
  deriving DecidableEq, Repr

namespace Token

open Function

/-- `_approve`. -/
def approveShares (t : Token) (owner spender : Address) (value : Nat) : Except ShareTokenError Token := do
  revertIf (owner = 0) .invalidApprover
  revertIf (spender = 0) .invalidSpender
  .ok (t.approve owner spender value)

def spendAllowance (t : Token) (owner spender : Address) (value : Nat) : Except ShareTokenError Token :=
  if t.allowance owner spender < unlimited then do
    revertIf (t.allowance owner spender < value) .insufficientAllowance
    t.approveShares owner spender (t.allowance owner spender - value)
  else .ok t

def spendFor (t : Token) (caller owner : Address) (value : Nat) : Except ShareTokenError Token :=
  if caller ≠ owner then t.spendAllowance owner caller value else .ok t

/-- `_transfer`. -/
def moveShares (t : Token) (source target : Address) (value : Nat) : Except ShareTokenError Token := do
  revertIf (source = 0) .invalidSender
  revertIf (target = 0) .invalidReceiver
  revertIf (t.balance source < value) .insufficientBalance
  .ok { t with balance := moveBalance t.balance source target value }

def burn (t : Token) (account : Address) (value : Nat) : Except ShareTokenError Token := do
  revertIf (account = 0) .invalidSender
  revertIf (t.balance account < value) .insufficientBalance
  .ok { t with balance := Function.update t.balance account (t.balance account - value) }

def supply (t : Token) : Nat := ∑ a, t.balance a

variable {t t' : Token} {owner spender caller source target account : Address} {value : Nat}

theorem approveShares_eq_ok : t.approveShares owner spender value = .ok t' ↔
    owner ≠ 0 ∧ spender ≠ 0 ∧ t.approve owner spender value = t' := by
  simp [approveShares, bind_eq_ok]

private theorem moveShares_eq_ok : t.moveShares source target value = .ok t' ↔
    source ≠ 0 ∧ target ≠ 0 ∧ value ≤ t.balance source ∧
      { t with balance := moveBalance t.balance source target value } = t' := by
  simp [moveShares, bind_eq_ok]

theorem burn_eq_ok : t.burn account value = .ok t' ↔ account ≠ 0 ∧ value ≤ t.balance account ∧
      { t with balance := Function.update t.balance account (t.balance account - value) } = t' := by
  simp [burn, bind_eq_ok]

private theorem spendAllowance_ok (h : t.spendAllowance owner spender value = .ok t') :
    (unlimited ≤ t.allowance owner spender ∧ t' = t) ∨
      (value ≤ t.allowance owner spender ∧ t' = t.approve owner spender (t.allowance owner spender - value)) := by
  unfold spendAllowance at h
  split at h
  · simp only [bind_eq_ok, revertIf_eq_ok, approveShares_eq_ok] at h
    obtain ⟨u, hle, -, -, rfl⟩ := h
    exact .inr ⟨by omega, rfl⟩
  · exact .inl ⟨by omega, (Except.ok.inj h).symm⟩

theorem spendAllowance_balance (h : t.spendAllowance owner spender value = .ok t') : t'.balance = t.balance := by
  rcases spendAllowance_ok h with ⟨-, rfl⟩ | ⟨-, rfl⟩
  · rfl
  · rfl

theorem spendAllowance_of_ne {o s : Address} (h : t.spendAllowance owner spender value = .ok t')
    (hne : ¬ (o = owner ∧ s = spender)) : t'.allowance o s = t.allowance o s := by
  rcases spendAllowance_ok h with ⟨-, rfl⟩ | ⟨-, rfl⟩
  · rfl
  rcases eq_or_ne o owner with rfl | ho
  · rw [approve_allowance_self, update_of_ne fun hs => hne ⟨rfl, hs⟩]
  · rw [approve_allowance_of_ne ho]

theorem spendAllowance_self (hlim : t.allowance owner spender < unlimited)
    (h : t.spendAllowance owner spender value = .ok t') :
    t'.allowance owner spender + value = t.allowance owner spender := by
  rcases spendAllowance_ok h with ⟨hun, -⟩ | ⟨hle, rfl⟩
  · omega
  rw [approve_allowance_self, update_self]
  omega

theorem spendAllowance_le {o s : Address} (h : t.spendAllowance owner spender value = .ok t') :
    t'.allowance o s ≤ t.allowance o s := by
  by_cases hs : o = owner ∧ s = spender
  · obtain ⟨rfl, rfl⟩ := hs
    rcases spendAllowance_ok h with ⟨-, rfl⟩ | ⟨-, rfl⟩
    · exact Nat.le_refl _
    rw [approve_allowance_self, update_self]
    exact Nat.sub_le ..
  · exact (spendAllowance_of_ne h hs).le

theorem spendFor_of_ne (hne : caller ≠ owner) (value : Nat) :
    t.spendFor caller owner value = t.spendAllowance owner caller value :=
  if_pos hne

theorem spendFor_ok (h : t.spendFor caller owner value = .ok t') :
    t' = t ∨ t.spendAllowance owner caller value = .ok t' := by
  unfold spendFor at h
  split at h
  · exact .inr h
  · exact .inl (Except.ok.inj h).symm

theorem supply_spendAllowance (h : t.spendAllowance owner spender value = .ok t') : t'.supply = t.supply := by
  unfold supply
  rw [spendAllowance_balance h]

theorem supply_moveShares (h : t.moveShares source target value = .ok t') : t'.supply = t.supply := by
  obtain ⟨-, -, hle, rfl⟩ := moveShares_eq_ok.1 h
  exact sum_moveBalance hle

theorem supply_burn (h : t.burn account value = .ok t') : t'.supply + value = t.supply := by
  obtain ⟨-, hle, rfl⟩ := burn_eq_ok.1 h
  have hsum := sum_update_add t.balance account (t.balance account - value)
  show (∑ a, update t.balance account (t.balance account - value) a) + value = ∑ a, t.balance a
  omega

theorem moveShares_allowance (h : t.moveShares source target value = .ok t') : t'.allowance = t.allowance := by
  obtain ⟨-, -, -, rfl⟩ := moveShares_eq_ok.1 h
  rfl

theorem burn_allowance (h : t.burn account value = .ok t') : t'.allowance = t.allowance := by
  obtain ⟨-, -, rfl⟩ := burn_eq_ok.1 h
  rfl

end Token

end Evm
