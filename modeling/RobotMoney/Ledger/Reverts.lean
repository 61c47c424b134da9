import RobotMoney.Evm.Chain

/-!
# The deployment and its reverts

The vault, its exclusion ledger and the linked library run as one system: an error raised in the ledger or in a
token surfaces from the vault.  `Revert` is the sum of those errors, with the data the source puts into them.
-/

namespace RobotMoney

open Evm

/-- Errors of the vault's share token and of USDC. -/
inductive ShareError where
  | insufficientBalance (sender : Address) (balance needed : Nat)
  | insufficientAllowance (spender : Address) (allowance needed : Nat)
  | invalidSender
  | invalidReceiver
  | invalidApprover
  | invalidSpender
  deriving DecidableEq, Repr

/-- Everything a call of the vault or of its ledger can revert with. -/
inductive Revert where
  | panic (p : Panic)
  | usdc (e : TokenError)
  | share (e : ShareError)
  | safeCastOverflow (bits value : Nat)
  | callFailed (adapter : Address)
  | abiDecode
  | unauthorized
  -- `ExclusionLedger`
  | onlyVault
  | exclusionNotOpen (exclusionId : Nat)
  -- `RobotMoneyVault` and `RobotMoneyVaultOps`
  | zeroAddress
  | invalidParam
  | invalidCap
  | invalidFee
  | maxAdaptersReached
  | adapterAlreadyActive (adapter : Address)
  | adapterNotFound
  | adapterNotEmpty
  | adapterNotAllowed (adapter : Address)
  | adapterCodeHashNotAllowed (adapter : Address) (codeHash : Nat)
  | adapterCompatibilityCheckFailed (adapter : Address)
  | adapterAssetMismatch (adapter expected actual : Address)
  | adapterVaultMismatch (adapter expected actual : Address)
  | insufficientAdapterLiquidity (requested available : Nat)
  | noOpenExclusion (index : Nat)
  | tvlCapExceeded
  | perDepositCapExceeded
  | vaultShutdown
  | vaultRetired
  | notShutdown
  | onlyRegistry
  | registryAlreadySet
  | unauthorizedRebalancer
  | noActiveAdapters
  | rebalanceTooSoon
  | depositsArePaused
  | zeroPayoutDuringExclusion
  | feeNotCovered
  -- ERC-4626
  | exceededMaxDeposit (receiver : Address) (assets max : Nat)
  | exceededMaxMint (receiver : Address) (shares max : Nat)
  | exceededMaxWithdraw (owner : Address) (assets max : Nat)
  | exceededMaxRedeem (owner : Address) (shares max : Nat)

instance : Panics Revert where
  panic := .panic

/-- The addresses fixed at deployment: the vault creates its ledger in its initializer. -/
structure Deployment where
  vault : Address
  ledger : Address
  usdc : Address
  vault_ne_zero : vault ≠ 0
  ledger_ne_zero : ledger ≠ 0
  ledger_ne_vault : ledger ≠ vault

def Deployment.sample : Deployment where
  vault := 1
  ledger := 2
  usdc := 3
  vault_ne_zero := by decide
  ledger_ne_zero := by decide
  ledger_ne_vault := by decide

/-- `SafeCast.toUintN`. -/
def castUint (bits x : Nat) : Except Revert Nat :=
  if x < 2 ^ bits then .ok x else .error (.safeCastOverflow bits x)

@[simp] theorem castUint_eq_ok {bits x y : Nat} : castUint bits x = .ok y ↔ x < 2 ^ bits ∧ y = x := by
  unfold castUint
  split <;> simp_all [eq_comm]

def moveUsdc (usdc : Balances) (source target : Address) (value : Nat) : Except Revert Balances :=
  (transfer usdc source target value).mapError .usdc

@[simp] theorem moveUsdc_eq_ok {usdc usdc' : Balances} {source target : Address} {value : Nat} :
    moveUsdc usdc source target value = .ok usdc' ↔
      target ≠ 0 ∧ value ≤ usdc source ∧ usdc' = moveBalance usdc source target value := by
  rw [← transfer_eq_ok]
  unfold moveUsdc
  cases transfer usdc source target value <;> simp [Except.mapError]

end RobotMoney
