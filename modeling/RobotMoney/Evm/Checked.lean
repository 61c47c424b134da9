import Mathlib.Algebra.Order.Floor.Div
import Mathlib.Data.List.Perm.Basic

/-!
# Reverting computations and checked arithmetic

A call of a contract either returns or reverts, so a function of a contract is a function into `Except ε`, where
`ε` is the type of its errors.  Machine words are natural numbers below `2 ^ 256`; the checked operations of the
language revert with a panic when a result does not fit (`add`, `mul`), would be negative (`sub`) or divides by
zero (`mulDiv`).  Each operation comes with the one equivalence that says when it returns, so that a proof peels a
`do` block apart with `obtain` and never unfolds an operation.
-/

namespace Evm

open List Except

universe u v

/-- The panics the compiler inserts: arithmetic over- and underflow, division by zero, an array read out of
bounds. -/
inductive Panic where
  | arithmetic
  | divisionByZero
  | outOfBounds
  deriving DecidableEq, Repr

/-- An error type that contains the panics. -/
class Panics (ε : Type) where
  panic : Panic → ε

def wordSize : Nat := 2 ^ 256

/-- `uint64(x)`: the low 64 bits. -/
def toUint64 (x : Nat) : Nat := x % 2 ^ 64

section Control

variable {ε : Type} {α β : Type}

/-- `if (p) revert e;` -/
def revertIf (p : Prop) [Decidable p] (e : ε) : Except ε Unit := if p then .error e else .ok ()

variable {x : Except ε α} {f : α → Except ε β}

/-- A sequence returns exactly when both parts do. -/
theorem bind_eq_ok {b : β} : (x >>= f) = .ok b ↔ ∃ a, x = .ok a ∧ f a = .ok b := by
  cases x <;> simp [bind, Except.bind]

variable {e : ε}

theorem bind_eq_error : (x >>= f) = .error e ↔ x = .error e ∨ ∃ a, x = .ok a ∧ f a = .error e := by
  cases x <;> simp [bind, Except.bind]

@[simp] theorem ok_bind (a : α) (f : α → Except ε β) : ((Except.ok a : Except ε α) >>= f) = f a := rfl

@[simp] theorem error_bind (e : ε) (f : α → Except ε β) :
    ((error e : Except ε α) >>= f) = .error e := rfl

@[simp] theorem pure_eq_ok (a : α) : (pure a : Except ε α) = .ok a := rfl

@[simp] theorem revertIf_eq_ok {p : Prop} [Decidable p] {u : Unit} : revertIf p e = .ok u ↔ ¬ p := by
  unfold revertIf
  split <;> simp_all

@[simp] theorem revertIf_eq_error {p : Prop} [Decidable p] {e' : ε} : revertIf p e = .error e' ↔ p ∧ e = e' := by
  unfold revertIf
  split <;> simp_all

/-- A check that does not apply passes. -/
theorem revertIf_of_not {p : Prop} [Decidable p] (e : ε) (h : ¬ p) : revertIf p e = .ok () :=
  revertIf_eq_ok.2 h

theorem revertIf_of {p : Prop} [Decidable p] (e : ε) (h : p) : revertIf p e = .error e := by
  simp [revertIf, h]

def orPanic [Panics ε] (p : Panic) : Option α → Except ε α
  | some a => .ok a
  | none => .error (Panics.panic p)

@[simp] theorem orPanic_some [Panics ε] (p : Panic) (a : α) : (orPanic p (some a) : Except ε α) = .ok a := rfl

@[simp] theorem orPanic_eq_ok [Panics ε] {p : Panic} {o : Option α} {a : α} :
    (orPanic p o : Except ε α) = .ok a ↔ o = some a := by
  cases o <;> simp [orPanic]

theorem mapError_eq_ok {ε' : Type} {f : ε → ε'} {a : α} : x.mapError f = .ok a ↔ x = .ok a := by
  cases x <;> simp [Except.mapError]

/-- A list is mapped when each of its members is. -/
theorem mapM_eq_ok {l : List α} {ys : List β} : l.mapM f = .ok ys ↔ Forall₂ (fun a y => f a = .ok y) l ys := by
  induction l generalizing ys with
  | nil => simp [eq_comm]
  | cons a l ih =>
    simp only [mapM_cons, bind_eq_ok, pure_eq_ok, ok.injEq, ih, forall₂_cons_left_iff]
    constructor
    · rintro ⟨y, hy, rest, hrest, rfl⟩
      exact ⟨y, rest, hy, hrest, rfl⟩
    · rintro ⟨y, rest, hy, hrest, rfl⟩
      exact ⟨y, hy, rest, hrest, rfl⟩

/-- `mapM` over the same elements in another order returns the same results in another order. -/
theorem mapM_ok_perm {l l' : List α} (h : l.Perm l') {ys : List β} (hl : l.mapM f = .ok ys) :
    ∃ ys', l'.mapM f = .ok ys' ∧ ys.Perm ys' := by
  obtain ⟨ys', hys', hperm⟩ := perm_comp_forall₂ h.symm (mapM_eq_ok.1 hl)
  exact ⟨ys', mapM_eq_ok.2 hys', hperm.symm⟩

theorem mapM_eq_ite {g : α → β} {bad : α → Prop} [DecidablePred bad] {l : List α}
    (h : ∀ a ∈ l, f a = if bad a then .error e else .ok (g a)) :
    l.mapM f = if ∃ a ∈ l, bad a then .error e else .ok (l.map g) := by
  induction l with
  | nil => simp
  | cons a l ih =>
    rw [mapM_cons, h a (by simp)]
    by_cases ha : bad a
    · rw [if_pos ha, if_pos ⟨a, by simp, ha⟩]
      rfl
    rw [if_neg ha, ok_bind, ih fun x hx => h x (by simp [hx])]
    by_cases hl : ∃ x ∈ l, bad x
    · obtain ⟨x, hx, hbad⟩ := hl
      rw [if_pos ⟨x, hx, hbad⟩, if_pos ⟨x, by simp [hx], hbad⟩]
      rfl
    have hall : ¬ ∃ x ∈ a :: l, bad x := by
      rintro ⟨x, hx, hbad⟩
      rcases mem_cons.1 hx with rfl | hx
      · exact ha hbad
      · exact hl ⟨x, hx, hbad⟩
    rw [if_neg hl, if_neg hall]
    rfl

end Control

section Arithmetic

variable {ε : Type} [Panics ε]

def add (a b : Nat) : Except ε Nat :=
  if a + b < wordSize then .ok (a + b) else .error (Panics.panic .arithmetic)

def sub (a b : Nat) : Except ε Nat :=
  if b ≤ a then .ok (a - b) else .error (Panics.panic .arithmetic)

def mul (a b : Nat) : Except ε Nat :=
  if a * b < wordSize then .ok (a * b) else .error (Panics.panic .arithmetic)

/-- Rounding direction of a full-precision division. -/
inductive Rounding where
  | floor
  | ceil
  deriving DecidableEq, Repr

/-- The quotient `a * b / d`, rounded, with the product taken without overflow. -/
def mulDivNat (r : Rounding) (a b d : Nat) : Nat :=
  match r with
  | .floor => a * b / d
  | .ceil => (a * b) ⌈/⌉ d

/-- Full-precision `a * b / d`: reverts when `d` is zero or the rounded quotient does not fit in a word. -/
def mulDiv (r : Rounding) (a b d : Nat) : Except ε Nat :=
  if d = 0 then .error (Panics.panic .divisionByZero)
  else if mulDivNat r a b d < wordSize then .ok (mulDivNat r a b d)
  else .error (Panics.panic .arithmetic)

variable {a b c : Nat}

@[simp] theorem add_eq_ok : (add a b : Except ε Nat) = .ok c ↔ a + b < wordSize ∧ c = a + b := by
  unfold add
  split <;> simp_all [eq_comm]

@[simp] theorem sub_eq_ok : (sub a b : Except ε Nat) = .ok c ↔ b ≤ a ∧ c = a - b := by
  unfold sub
  split <;> simp_all [eq_comm]

theorem sub_eq_error {e : ε} : sub a b = .error e ↔ a < b ∧ e = Panics.panic .arithmetic := by
  unfold sub
  split <;> simp_all [eq_comm]

@[simp] theorem mul_eq_ok : (mul a b : Except ε Nat) = .ok c ↔ a * b < wordSize ∧ c = a * b := by
  unfold mul
  split <;> simp_all [eq_comm]

@[simp] theorem mulDiv_eq_ok {r : Rounding} {d : Nat} :
    (mulDiv r a b d : Except ε Nat) = .ok c ↔ d ≠ 0 ∧ mulDivNat r a b d < wordSize ∧ c = mulDivNat r a b d := by
  unfold mulDiv
  split
  · simp_all
  · split <;> simp_all [eq_comm]

end Arithmetic

/-- The floor never exceeds the quotient. -/
theorem mulDivNat_floor_mul_le (a b d : Nat) : mulDivNat .floor a b d * d ≤ a * b :=
  Nat.div_mul_le_self _ _

variable {a b d k : Nat}

/-- The floor is the largest such number. -/
theorem le_mulDivNat_floor (hd : 0 < d) (h : k * d ≤ a * b) : k ≤ mulDivNat .floor a b d :=
  (Nat.le_div_iff_mul_le hd).2 h

theorem mulDivNat_floor_mono {a' : Nat} (h : a ≤ a') (b d : Nat) : mulDivNat .floor a b d ≤ mulDivNat .floor a' b d :=
  Nat.div_le_div_right (Nat.mul_le_mul_right b h)

theorem le_mulDivNat_ceil_mul (a b : Nat) (hd : 0 < d) : a * b ≤ mulDivNat .ceil a b d * d := by
  have h : a * b ≤ d * ((a * b) ⌈/⌉ d) := by simpa using le_smul_ceilDiv (b := a * b) hd
  rw [Nat.mul_comm d] at h
  exact h

/-- The ceiling is the least number that reaches the quotient. -/
theorem mulDivNat_ceil_le (hd : 0 < d) (h : a * b ≤ k * d) : mulDivNat .ceil a b d ≤ k := by
  unfold mulDivNat
  rw [ceilDiv_le_iff_le_smul hd, smul_eq_mul, Nat.mul_comm d]
  exact h

section Loops

variable {ε : Type} {σ α : Type} {s t : σ}

/-- What every step of a loop preserves holds of its result. -/
theorem foldlM_invariant {f : σ → α → Except ε σ} (P : σ → Prop) {l : List α}
    (hstep : ∀ s x s', x ∈ l → P s → f s x = .ok s' → P s') (hs : P s) (h : l.foldlM f s = .ok t) : P t := by
  induction l generalizing s with
  | nil =>
    simp only [foldlM_nil, pure_eq_ok, ok.injEq] at h
    exact h ▸ hs
  | cons x l ih =>
    rw [foldlM_cons, bind_eq_ok] at h
    obtain ⟨s', hx, hl⟩ := h
    have hs' : P s' := hstep s x s' (mem_cons_self ..) hs hx
    exact ih (fun s y s' hy => hstep s y s' (mem_cons_of_mem _ hy)) hs' hl

variable {f : σ → Nat → Except ε σ} {n : Nat}

/-- The same for a counting loop, with a property of the counter and the state. -/
theorem foldlM_range_invariant (P : Nat → σ → Prop)
    (hstep : ∀ i s s', i < n → P i s → f s i = .ok s' → P (i + 1) s') (hs : P 0 s)
    (h : (range n).foldlM f s = .ok t) : P n t := by
  induction n generalizing t with
  | zero =>
    simp only [range_zero, foldlM_nil, pure_eq_ok, ok.injEq] at h
    exact h ▸ hs
  | succ n ih =>
    rw [range_succ, foldlM_append, bind_eq_ok] at h
    obtain ⟨m, hm, h⟩ := h
    have hP : P n m := ih (fun i s s' hi => hstep i s s' (by omega)) hm
    rw [foldlM_cons, bind_eq_ok] at h
    obtain ⟨t', ht, hnil⟩ := h
    simp only [foldlM_nil, pure_eq_ok, ok.injEq] at hnil
    exact hnil ▸ hstep n m t' (by omega) hP ht

variable {i : Nat} {m : σ}

theorem foldlM_range_invariant_from (P : Nat → σ → Prop) (hi : i ≤ n)
    (hstep : ∀ k s s', i ≤ k → k < n → P k s → f s k = .ok s' → P (k + 1) s')
    (hm : (range i).foldlM f s = .ok m) (hs : P i m) (h : (range n).foldlM f s = .ok t) : P n t := by
  induction n, hi using Nat.le_induction generalizing t with
  | base =>
    rw [hm] at h
    exact ok.inj h ▸ hs
  | succ n hn ih =>
    rw [range_succ, foldlM_append, bind_eq_ok] at h
    obtain ⟨u, hu, h⟩ := h
    have hP : P n u := ih (fun k s s' hk hlt => hstep k s s' hk (by omega)) hu
    rw [foldlM_cons, bind_eq_ok] at h
    obtain ⟨t', ht, hnil⟩ := h
    simp only [foldlM_nil, pure_eq_ok, ok.injEq] at hnil
    exact hnil ▸ hstep n u t' hn (by omega) hP ht

/-- A counting loop that returns has made each of its rounds. -/
theorem foldlM_range_round (hi : i < n)
    (hm : (range i).foldlM f s = .ok m) (h : (range n).foldlM f s = .ok t) : ∃ m', f m i = .ok m' := by
  induction n, (hi : i + 1 ≤ n) using Nat.le_induction generalizing t with
  | base =>
    rw [range_succ, foldlM_append, hm, ok_bind, foldlM_cons, bind_eq_ok] at h
    obtain ⟨m', hm', -⟩ := h
    exact ⟨m', hm'⟩
  | succ n hn ih =>
    rw [range_succ, foldlM_append, bind_eq_ok] at h
    obtain ⟨u, hu, -⟩ := h
    exact ih hu

theorem foldlM_congr {f g : σ → α → Except ε σ} {l : List α} (h : ∀ x ∈ l, ∀ s, f s x = g s x) (s : σ) :
    l.foldlM f s = l.foldlM g s := by
  induction l generalizing s with
  | nil => rfl
  | cons x l ih =>
    have hrest : ∀ s, l.foldlM f s = l.foldlM g s := ih fun y hy => h y (mem_cons_of_mem _ hy)
    rw [foldlM_cons, foldlM_cons, h x (mem_cons_self ..)]
    exact congrArg _ (funext hrest)

/-- A counting loop returns if every step does from where the one before leaves off. -/
theorem foldlM_range_returns (P : Nat → σ → Prop)
    (hstep : ∀ i s, i < n → P i s → ∃ s', f s i = .ok s' ∧ P (i + 1) s') (hs : P 0 s) :
    ∃ t, (range n).foldlM f s = .ok t ∧ P n t := by
  induction n with
  | zero => exact ⟨s, rfl, hs⟩
  | succ n ih =>
    obtain ⟨m, hm, hP⟩ := ih fun i s hi => hstep i s (by omega)
    obtain ⟨t, ht, hP'⟩ := hstep n m (by omega) hP
    refine ⟨t, ?_, hP'⟩
    rw [range_succ, foldlM_append, hm, ok_bind, foldlM_cons, ht]
    rfl

end Loops

end Evm
