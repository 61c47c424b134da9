import Mathlib.Algebra.BigOperators.Ring.Finset
import Mathlib.Algebra.Order.BigOperators.Group.Finset
import Mathlib.Data.Fintype.BigOperators
import RobotMoney.Evm.Checked

/-!
# Accounts, block times and token balances

The parts of a chain that contracts share: account addresses, the clock, and balances of a plain ERC-20 token, with
the sums over all accounts that solvency arguments need.
-/

namespace Evm

open Function Finset

/-- The timestamp of a block that runs a call: the header field has 64 bits, and the block is later than the genesis
block, so its timestamp is not zero. -/
structure BlockTime where
  val : Nat
  pos : 0 < val
  lt : val < 2 ^ 64
  deriving DecidableEq, Repr

/-- The clock after a block stamped `t`: it never runs backwards. -/
def BlockTime.later (now t : BlockTime) : BlockTime := if now.val ≤ t.val then t else now

theorem BlockTime.le_later (now t : BlockTime) : now.val ≤ (now.later t).val := by
  unfold BlockTime.later
  split <;> omega

/-- The block a call runs in. -/
structure Block where
  number : Nat
  timestamp : BlockTime

def Block.sample : Block := ⟨1, ⟨1, Nat.one_pos, by decide⟩⟩

abbrev Address := Fin (2 ^ 160)

instance neZero_addressCount : NeZero (2 ^ 160) := ⟨by decide⟩

instance lawfulBEq_address : LawfulBEq Address := inferInstance

abbrev Balances := Address → Nat

/-- Reverts of an ERC-20 transfer. -/
inductive TokenError where
  | insufficientBalance
  | invalidReceiver
  | insufficientAllowance
  deriving DecidableEq, Repr

/-- Move `value` from one account to another, the debit first, so that a transfer to oneself changes nothing. -/
def moveBalance (b : Balances) (source target : Address) (value : Nat) : Balances :=
  let b' := Function.update b source (b source - value)
  Function.update b' target (b' target + value)

/-- `transfer` of a plain ERC-20: no fee, no hook; reverts on the zero receiver and on a short balance. -/
def transfer (b : Balances) (source target : Address) (value : Nat) : Except TokenError Balances := do
  revertIf (target = 0) .invalidReceiver
  revertIf (b source < value) .insufficientBalance
  .ok (moveBalance b source target value)

variable {b : Balances} {source target : Address}

/-- A transfer goes through exactly between a funded source and a target that is not zero. -/
theorem transfer_eq_ok {b' : Balances} {value : Nat} : transfer b source target value = .ok b' ↔
      target ≠ 0 ∧ value ≤ b source ∧ b' = moveBalance b source target value := by
  simp only [transfer, bind_eq_ok, revertIf_eq_ok, Except.ok.injEq]
  constructor
  · rintro ⟨-, h1, -, h2, rfl⟩
    exact ⟨h1, by omega, rfl⟩
  · rintro ⟨h1, h2, rfl⟩
    exact ⟨(), h1, (), by omega, rfl⟩

@[simp] theorem moveBalance_self (b : Balances) (a : Address) {value : Nat} (h : value ≤ b a) :
    moveBalance b a a value = b := by
  funext c
  by_cases hc : c = a
  · subst hc; simp [moveBalance]; omega
  · simp [moveBalance, hc]

@[simp] theorem moveBalance_zero (b : Balances) (source target : Address) : moveBalance b source target 0 = b := by
  simp [moveBalance]

theorem moveBalance_moveBalance {v w : Nat} (h : v + w ≤ b source) :
    moveBalance (moveBalance b source target v) source target w = moveBalance b source target (v + w) := by
  by_cases hst : source = target
  · subst hst
    rw [moveBalance_self b source (by omega : v ≤ b source), moveBalance_self b source (by omega : w ≤ b source),
      moveBalance_self b source h]
  funext c
  by_cases hs : c = source
  · subst hs
    simp only [moveBalance, update_self, update_of_ne hst]
    omega
  by_cases ht : c = target
  · subst ht
    simp only [moveBalance, update_self, update_of_ne hs]
    omega
  · simp [moveBalance, hs, ht]

variable {c : Address}

theorem moveBalance_of_ne {value : Nat} (hs : c ≠ source)
    (ht : c ≠ target) : moveBalance b source target value c = b c := by
  simp [moveBalance, hs, ht]

theorem moveBalance_source {value : Nat} (h : source ≠ target) :
    moveBalance b source target value source = b source - value := by
  simp [moveBalance, h]

theorem moveBalance_target {value : Nat} (h : source ≠ target) :
    moveBalance b source target value target = b target + value := by
  simp [moveBalance, h.symm]

theorem moveBalance_source_bounds (target : Address) {value : Nat} (h : value ≤ b source) :
    b source ≤ moveBalance b source target value source + value ∧ moveBalance b source target value source ≤ b source ∧
      (target ≠ source → moveBalance b source target value source + value = b source) := by
  by_cases hst : target = source
  · subst hst
    rw [moveBalance_self b target h]
    exact ⟨by omega, Nat.le_refl _, fun hne => absurd rfl hne⟩
  rw [moveBalance_source (Ne.symm hst)]
  omega

theorem le_moveBalance {value : Nat} (hs : c ≠ source) : b c ≤ moveBalance b source target value c := by
  by_cases ht : c = target
  · subst ht
    rw [moveBalance_target (Ne.symm hs)]
    omega
  · rw [moveBalance_of_ne hs ht]

/-- What a call of another contract brings back: a decoded value, a revert of the callee, or something the caller
itself reverts on even inside `try` (no code at the address, return data that does not decode). -/
inductive Reply (α : Type) where
  | returned (a : α)
  | reverted
  | malformed
  deriving DecidableEq, Repr

/-- `try callee() returns (α) … catch {}`: a revert of the callee is caught, a malformed reply is not. -/
def Reply.caught {ε α : Type} (e : ε) : Reply α → Except ε (Option α)
  | .returned a => .ok (some a)
  | .reverted => .ok none
  | .malformed => .error e

def Reply.value {ε α : Type} (e : ε) : Reply α → Except ε α
  | .returned a => .ok a
  | .reverted => .error e
  | .malformed => .error e

@[simp] theorem Reply.value_eq_ok {ε α : Type} {e : ε} {r : Reply α} {a : α} : r.value e = .ok a ↔ r = .returned a := by
  cases r <;> simp [Reply.value]

@[simp] theorem Reply.caught_eq_some {ε α : Type} {e : ε} {r : Reply α} {a : α} :
    r.caught e = .ok (some a) ↔ r = .returned a := by
  cases r <;> simp [Reply.caught]

theorem sum_add_of_eq_off {ι : Type} [DecidableEq ι] {s : Finset ι} {f g : ι → Nat} {a : ι} (ha : a ∈ s)
    (h : ∀ x ∈ s, x ≠ a → g x = f x) : (∑ x ∈ s, g x) + f a = (∑ x ∈ s, f x) + g a := by
  have hrest : ∑ x ∈ s.erase a, g x = ∑ x ∈ s.erase a, f x :=
    sum_congr rfl fun x hx => h x (mem_of_mem_erase hx) (ne_of_mem_erase hx)
  rw [← add_sum_erase _ _ ha, ← add_sum_erase _ f ha, hrest]
  omega

theorem sum_update_add (f : Address → Nat) (a : Address) (v : Nat) :
    (∑ x, Function.update f a v x) + f a = (∑ x, f x) + v := by
  have h := sum_add_of_eq_off (f := f) (g := update f a v) (mem_univ a)
    fun x _ hx => update_of_ne hx ..
  rwa [update_self] at h

/-- Floored pro-rata shares never add up to more than the total. -/
theorem sum_mulDivNat_floor_le {ι : Type} (s : Finset ι) (total whole : Nat) (part : ι → Nat)
    (h : ∑ x ∈ s, part x = whole) : ∑ x ∈ s, mulDivNat .floor total (part x) whole ≤ total := by
  rcases Nat.eq_zero_or_pos whole with hz | hpos
  · simp [mulDivNat, hz]
  refine Nat.le_of_mul_le_mul_right ?_ hpos
  calc (∑ x ∈ s, mulDivNat .floor total (part x) whole) * whole
      = ∑ x ∈ s, mulDivNat .floor total (part x) whole * whole := sum_mul ..
    _ ≤ ∑ x ∈ s, total * part x := sum_le_sum fun x _ => mulDivNat_floor_mul_le ..
    _ = total * whole := by rw [← mul_sum, h]

/-- Moving a balance keeps the supply. -/
theorem sum_moveBalance {value : Nat} (h : value ≤ b source) : ∑ x, moveBalance b source target value x = ∑ x, b x := by
  have h1 := sum_update_add b source (b source - value)
  have h2 := sum_update_add (update b source (b source - value)) target
    (update b source (b source - value) target + value)
  show ∑ x, update (update b source (b source - value)) target _ x = _
  omega

end Evm
