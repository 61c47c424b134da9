import Mathlib.Algebra.BigOperators.Group.Finset.Piecewise
import Mathlib.Algebra.GroupWithZero.Nat
import Mathlib.Algebra.Order.BigOperators.Group.Finset

/-!
# Sums over groups

`SUM(f)` over a table, and `SUM(f) … GROUP BY key`.  The sum over a table is the sum of the sums over its groups, for
any finite set of keys that covers the table (`sumOf_eq_sum_groupSum`); a query that lists the groups and computes
something from each is a sum over the same keys, if it computes nothing from an empty group (`sum_groups`).
-/

namespace SqlTable

open List

variable {ρ κ : Type} [DecidableEq κ]

/-- `COALESCE(SUM(f), 0)`. -/
def sumOf (f : ρ → Nat) (t : List ρ) : Nat := (t.map f).sum

def groupSum (key : ρ → κ) (f : ρ → Nat) (t : List ρ) (k : κ) : Nat := sumOf f (t.filter fun r => decide (key r = k))

def groups (key : ρ → κ) (t : List ρ) : List κ := (t.map key).dedup

variable {key : ρ → κ} {f g : ρ → Nat} {t : List ρ}

@[simp] theorem sumOf_nil : sumOf f [] = 0 := rfl

@[simp] theorem sumOf_cons (r : ρ) : sumOf f (r :: t) = f r + sumOf f t := by simp [sumOf]

@[simp] theorem sumOf_append (u : List ρ) : sumOf f (t ++ u) = sumOf f t + sumOf f u := by simp [sumOf]

theorem sumOf_le_of_sublist {u : List ρ} (h : List.Sublist t u) : sumOf f t ≤ sumOf f u := by
  induction h with
  | slnil => exact le_refl _
  | cons r _ ih =>
    rw [sumOf_cons]
    omega
  | cons_cons r _ ih =>
    rw [sumOf_cons, sumOf_cons]
    omega

theorem groupSum_cons (r : ρ) (k : κ) :
    groupSum key f (r :: t) k = (if key r = k then f r else 0) + groupSum key f t k := by
  unfold groupSum
  rw [filter_cons]
  split <;> rename_i h <;> simp only [decide_eq_true_eq] at h
  · rw [if_pos h, sumOf_cons]
  · rw [if_neg h, Nat.zero_add]

@[simp] theorem groupSum_append (u : List ρ) (k : κ) :
    groupSum key f (t ++ u) k = groupSum key f t k + groupSum key f u k := by
  simp [groupSum, filter_append]

theorem groupSum_of_not_mem {k : κ} (h : ∀ r ∈ t, key r ≠ k) : groupSum key f t k = 0 := by
  have hnone : (t.filter fun r => decide (key r = k)) = [] := by
    rw [filter_eq_nil_iff]
    intro r hr
    simpa using h r hr
  rw [groupSum, hnone, sumOf_nil]

theorem groupSum_le_of_sublist {u : List ρ} (h : List.Sublist t u) (k : κ) : groupSum key f t k ≤ groupSum key f u k :=
  sumOf_le_of_sublist (h.filter _)

theorem sumOf_filter (p : ρ → Bool) : sumOf f (t.filter p) = sumOf (fun r => if p r then f r else 0) t := by
  induction t with
  | nil => rfl
  | cons r t ih =>
    by_cases hp : p r
    · rw [filter_cons_of_pos hp, sumOf_cons, sumOf_cons, ih, if_pos hp]
    · rw [filter_cons_of_neg hp, sumOf_cons, ih, if_neg hp, Nat.zero_add]

theorem groupSum_filter_key (p : κ → Bool) (s : ρ → Bool) (k : κ) :
    groupSum key f (t.filter fun r => p (key r) && s r) k = if p k then groupSum key f (t.filter s) k else 0 := by
  induction t with
  | nil => simp [groupSum]
  | cons r t ih =>
    by_cases hs : s r
    · by_cases hp : p (key r)
      · rw [filter_cons_of_pos (by simp [hs, hp]), filter_cons_of_pos hs, groupSum_cons, groupSum_cons, ih]
        by_cases hk : key r = k
        · rw [hk] at hp
          simp [hp]
        · simp [hk]
      rw [filter_cons_of_neg (by simp [hp]), filter_cons_of_pos hs, groupSum_cons, ih]
      by_cases hk : key r = k
      · rw [hk] at hp
        simp [hp]
      · simp [hk]
    · rw [filter_cons_of_neg (by simp [hs]), filter_cons_of_neg hs, ih]

/-- The sum is the sum of the group sums. -/
theorem sumOf_eq_sum_groupSum {K : Finset κ} (h : ∀ r ∈ t, key r ∈ K) : sumOf f t = ∑ k ∈ K, groupSum key f t k := by
  induction t with
  | nil => simp [groupSum]
  | cons r t ih =>
    simp only [sumOf_cons, groupSum_cons, Finset.sum_add_distrib, Finset.sum_ite_eq]
    rw [if_pos (h r mem_cons_self), ih fun r' hr' => h r' (mem_cons_of_mem _ hr')]

/-- `GROUP BY` leaves out groups that are empty, which add nothing. -/
theorem sum_groups {K : Finset κ} {c : κ → Nat} (h : ∀ r ∈ t, key r ∈ K)
    (hempty : ∀ k, (∀ r ∈ t, key r ≠ k) → c k = 0) : ((groups key t).map c).sum = ∑ k ∈ K, c k := by
  have hsum : ((groups key t).map c).sum = ∑ k ∈ (t.map key).toFinset, c k := by
    rw [groups, ← sum_toFinset c (nodup_dedup _)]
    congr 1
    ext k
    simp
  rw [hsum]
  apply Finset.sum_subset
  · intro k hk
    rw [mem_toFinset, mem_map] at hk
    obtain ⟨r, hr, rfl⟩ := hk
    exact h r hr
  · intro k _ hk
    apply hempty
    intro r hr heq
    exact hk (mem_toFinset.2 (mem_map.2 ⟨r, hr, heq⟩))

end SqlTable
