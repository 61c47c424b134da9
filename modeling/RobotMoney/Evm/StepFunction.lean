import Mathlib.Algebra.BigOperators.Intervals
import Mathlib.Algebra.Order.BigOperators.Group.Finset
import Mathlib.Tactic.Ring

/-!
# Step functions of time

A step function is a list of breakpoints, newest first: from its time on, each breakpoint gives the value, until a
newer one takes over.  The integral counts from the oldest breakpoint, second by second, which is exact because the
breakpoints stand on whole seconds.  A newer breakpoint leaves the integral before it alone (`stepIntegral_append`),
and between two breakpoints the integral is a straight line (`stepIntegral_segment`).
-/

namespace Evm

open Finset List

def Descending (l : List (Nat × Int)) : Prop := l.Pairwise fun p q => q.1 < p.1

/-- The value in force at time `u`. -/
def stepValue : List (Nat × Int) → Nat → Int
  | [], _ => 0
  | p :: rest, u => if p.1 ≤ u then p.2 else stepValue rest u

def stepStart : List (Nat × Int) → Nat
  | [] => 0
  | [p] => p.1
  | _ :: q :: rest => stepStart (q :: rest)

/-- The integral from the oldest breakpoint to `u`. -/
def stepIntegral (l : List (Nat × Int)) (u : Nat) : Int := ∑ w ∈ Finset.Ico (stepStart l) u, stepValue l w

variable {l newer older : List (Nat × Int)} {p : Nat × Int} {u v : Nat}

theorem stepStart_append (h : older ≠ []) : stepStart (newer ++ older) = stepStart older := by
  induction newer with
  | nil => rfl
  | cons q newer ih =>
    obtain ⟨r, rest, hr⟩ := exists_cons_of_ne_nil (show newer ++ older ≠ [] by simp [h])
    rw [cons_append, hr]
    show stepStart (r :: rest) = _
    rw [← hr, ih]

private theorem stepValue_append (h : ∀ q ∈ newer, u < q.1) : stepValue (newer ++ older) u = stepValue older u := by
  induction newer with
  | nil => rfl
  | cons q newer ih =>
    have hq : u < q.1 := h q (by simp)
    rw [cons_append, stepValue, if_neg (by omega)]
    exact ih fun r hr => h r (by simp [hr])

theorem stepValue_append_cases (newer older : List (Nat × Int)) (u : Nat) :
    stepValue (newer ++ older) u = stepValue older u ∨
      ∃ q ∈ newer, q.1 ≤ u ∧ stepValue (newer ++ older) u = q.2 := by
  induction newer with
  | nil => exact .inl rfl
  | cons q newer ih =>
    rw [cons_append, stepValue]
    by_cases hq : q.1 ≤ u
    · exact .inr ⟨q, by simp, hq, by rw [if_pos hq]⟩
    rw [if_neg hq]
    rcases ih with h | ⟨r, hr, hle, hval⟩
    · exact .inl h
    · exact .inr ⟨r, by simp [hr], hle, hval⟩

/-- Later steps do not change the integral up to where they begin. -/
theorem stepIntegral_append (hold : older ≠ []) (h : ∀ q ∈ newer, u ≤ q.1) :
    stepIntegral (newer ++ older) u = stepIntegral older u := by
  unfold stepIntegral
  rw [stepStart_append hold]
  apply sum_congr rfl
  intro w hw
  rw [mem_Ico] at hw
  apply stepValue_append
  intro q hq
  have := h q hq
  omega

/-- The integral grows by the values in between. -/
theorem stepIntegral_add (hs : stepStart l ≤ u) (huv : u ≤ v) :
    stepIntegral l v = stepIntegral l u + ∑ w ∈ Finset.Ico u v, stepValue l w := by
  unfold stepIntegral
  rw [sum_Ico_consecutive _ hs huv]

@[simp] theorem stepIntegral_start (l : List (Nat × Int)) : stepIntegral l (stepStart l) = 0 := by
  simp [stepIntegral]

theorem stepStart_le_head (h : Descending (p :: older)) : stepStart (p :: older) ≤ p.1 := by
  induction older generalizing p with
  | nil => exact Nat.le_refl _
  | cons q older ih =>
    unfold Descending at h
    rw [List.pairwise_cons] at h
    have hq : q.1 < p.1 := h.1 q (by simp)
    have := ih h.2
    show stepStart (q :: older) ≤ p.1
    omega

private theorem stepIntegral_head (h : Descending (p :: older)) (hu : p.1 ≤ u) :
    stepIntegral (p :: older) u = stepIntegral (p :: older) p.1 + p.2 * ((u - p.1 : Nat) : Int) := by
  rw [stepIntegral_add (stepStart_le_head h) hu]
  congr 1
  have hconst : ∀ w ∈ Finset.Ico p.1 u, stepValue (p :: older) w = p.2 := by
    intro w hw
    rw [mem_Ico] at hw
    simp [stepValue, hw.1]
  rw [sum_congr rfl hconst, sum_const, Nat.card_Ico, nsmul_eq_mul]
  ring

/-- On one step the integral is linear. -/
theorem stepIntegral_segment (h : Descending (newer ++ p :: older)) (hp : p.1 ≤ u) (hn : ∀ q ∈ newer, u ≤ q.1) :
    stepIntegral (newer ++ p :: older) u = stepIntegral (newer ++ p :: older) p.1 + p.2 * ((u - p.1 : Nat) : Int) := by
  unfold Descending at h
  rw [pairwise_append] at h
  obtain ⟨-, hold, hacross⟩ := h
  rw [stepIntegral_append (by simp) hn, stepIntegral_append (by simp) fun q hq => ?_, stepIntegral_head hold hp]
  exact Nat.le_of_lt (hacross q hq p (by simp))

theorem sum_Ico_bounds {f : Nat → Int} {lo hi : Int} (huv : u ≤ v) (h : ∀ w, u ≤ w → w < v → lo ≤ f w ∧ f w ≤ hi) :
    lo * ((v - u : Nat) : Int) ≤ ∑ w ∈ Finset.Ico u v, f w ∧
      ∑ w ∈ Finset.Ico u v, f w ≤ hi * ((v - u : Nat) : Int) := by
  induction v, huv using Nat.le_induction with
  | base => simp
  | succ v huv ih =>
    have hprev := ih fun w hw hv => h w hw (by omega)
    have hlast := h v huv (by omega)
    rw [sum_Ico_succ_top huv, Nat.sub_add_comm huv]
    push_cast
    rw [mul_add, mul_add, mul_one, mul_one]
    omega

theorem natAbs_sum_Ico_le {f : Nat → Int} {g : Nat → Nat} {u v : Nat} (h : ∀ w, u ≤ w → w < v → (f w).natAbs ≤ g w) :
    (∑ w ∈ Finset.Ico u v, f w).natAbs ≤ ∑ w ∈ Finset.Ico u v, g w := by
  rcases Nat.lt_or_ge v u with hlt | hle
  · rw [Finset.Ico_eq_empty (by omega)]
    simp
  induction v, hle using Nat.le_induction with
  | base => simp
  | succ v huv ih =>
    have hprev := ih fun w hw hv => h w hw (by omega)
    have hlast := h v huv (by omega)
    rw [sum_Ico_succ_top huv, sum_Ico_succ_top huv]
    omega

theorem natAbs_ediv_sub_le {x y : Int} {b w : Nat} (hw : 0 < w) (h : (x - y).natAbs ≤ b * w) :
    (x / (w : Int) - y / (w : Int)).natAbs ≤ b := by
  have hw' : (0 : Int) < (w : Int) := by omega
  have hcast : ((b * w : Nat) : Int) = (b : Int) * (w : Int) := by push_cast; ring
  have h1 : x / (w : Int) ≤ (y + (b : Int) * (w : Int)) / (w : Int) := Int.ediv_le_ediv hw' (by omega)
  have h2 : y / (w : Int) ≤ (x + (b : Int) * (w : Int)) / (w : Int) := Int.ediv_le_ediv hw' (by omega)
  rw [Int.add_mul_ediv_right _ _ (by omega)] at h1 h2
  omega

theorem stepValue_mem (hl : l ≠ []) (hs : stepStart l ≤ u) : ∃ q ∈ l, stepValue l u = q.2 ∧ q.1 ≤ u := by
  induction l with
  | nil => exact absurd rfl hl
  | cons q l ih =>
    by_cases hq : q.1 ≤ u
    · exact ⟨q, by simp, by simp [stepValue, hq], hq⟩
    cases l with
    | nil => exact absurd hs hq
    | cons r l =>
      obtain ⟨x, hx, hval, hle⟩ := ih (by simp) hs
      refine ⟨x, by simp [hx], ?_, hle⟩
      rw [stepValue, if_neg hq, hval]

end Evm
