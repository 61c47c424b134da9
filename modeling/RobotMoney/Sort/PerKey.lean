import Mathlib.Data.List.Perm.Basic
import Mathlib.Data.List.Count

/-!
# Lists that agree key by key

Two lists agree per key if for each key they have the same entries in the same order: one is a way to interleave the
other.  Such lists have the same entries, each as often (`SamePerKey.perm`).  What two disjoint selections of keys pick
from a list agrees with what both pick together (`samePerKey_filter_append`), and a list in ascending order of a number
is split at any number (`filter_range_append`).
-/

namespace PerKey

open List

variable {α κ : Type} [DecidableEq κ] {key : α → κ}

def SamePerKey (key : α → κ) (l l' : List α) : Prop := ∀ k, l.filter (key · = k) = l'.filter (key · = k)

theorem SamePerKey.refl (l : List α) : SamePerKey key l l := fun _ => rfl

theorem SamePerKey.trans {l₁ l₂ l₃ : List α} (h : SamePerKey key l₁ l₂) (h' : SamePerKey key l₂ l₃) :
    SamePerKey key l₁ l₃ :=
  fun k => (h k).trans (h' k)

theorem SamePerKey.append {l₁ l₁' l₂ l₂' : List α} (h₁ : SamePerKey key l₁ l₁') (h₂ : SamePerKey key l₂ l₂') :
    SamePerKey key (l₁ ++ l₂) (l₁' ++ l₂') := by
  intro k
  rw [filter_append, filter_append, h₁ k, h₂ k]

theorem SamePerKey.filter {l l' : List α} (h : SamePerKey key l l') (p : α → Bool) :
    SamePerKey key (l.filter p) (l'.filter p) := by
  intro k
  have hcomm : ∀ l : List α, (l.filter p).filter (key · = k) = (l.filter (key · = k)).filter p := by
    intro l
    rw [filter_filter, filter_filter]
    exact filter_congr fun a _ => Bool.and_comm _ _
  rw [hcomm, hcomm, h k]

theorem SamePerKey.eq_of_forall {l l' : List α} (h : SamePerKey key l l') {k : κ} (hl : ∀ a ∈ l, key a = k)
    (hl' : ∀ a ∈ l', key a = k) : l = l' := by
  have hself : ∀ l : List α, (∀ a ∈ l, key a = k) → l.filter (key · = k) = l := by
    intro l hl
    rw [filter_eq_self]
    exact fun a ha => decide_eq_true (hl a ha)
  rw [← hself l hl, ← hself l' hl', h k]

theorem SamePerKey.mem_iff {l l' : List α} (h : SamePerKey key l l') {a : α} : a ∈ l ↔ a ∈ l' := by
  have hmem : ∀ l : List α, a ∈ l ↔ a ∈ l.filter (key · = key a) := by simp
  rw [hmem l, hmem l', h (key a)]

/-- Lists that agree at each key have the same elements. -/
theorem SamePerKey.perm [DecidableEq α] {l l' : List α} (h : SamePerKey key l l') : l.Perm l' := by
  rw [perm_iff_count]
  intro a
  have hcount : ∀ l : List α, l.count a = (l.filter (key · = key a)).count a :=
    fun l => (count_filter (by simp)).symm
  rw [hcount l, hcount l', h (key a)]

theorem samePerKey_filter_append {p q : α → Bool} (hdisj : ∀ a b, p a = true → q b = true → key a ≠ key b)
    (l : List α) : SamePerKey key (l.filter p ++ l.filter q) (l.filter fun a => p a || q a) := by
  intro k
  rw [filter_append]
  by_cases hp : ∃ a, p a = true ∧ key a = k
  · obtain ⟨a, ha, rfl⟩ := hp
    have hnone : (l.filter q).filter (key · = key a) = [] := by
      rw [filter_eq_nil_iff]
      intro b hb hkey
      exact hdisj a b ha (mem_filter.1 hb).2 (of_decide_eq_true hkey).symm
    rw [hnone, append_nil, filter_filter, filter_filter]
    apply filter_congr
    intro b _
    by_cases hkey : key b = key a
    · have hq : q b = false := by
        by_contra hq
        exact hdisj a b ha (by simpa using hq) hkey.symm
      simp [hkey, hq]
    · simp [hkey]
  have hnone : (l.filter p).filter (key · = k) = [] := by
    rw [filter_eq_nil_iff]
    intro b hb hkey
    exact hp ⟨b, (mem_filter.1 hb).2, of_decide_eq_true hkey⟩
  rw [hnone, nil_append, filter_filter, filter_filter]
  apply filter_congr
  intro b _
  by_cases hkey : key b = k
  · have hp' : p b = false := by
      by_contra hp'
      exact hp ⟨b, by simpa using hp', hkey⟩
    simp [hkey, hp']
  · simp [hkey]

theorem filter_range_append {n : α → Nat} {l : List α} (hl : l.Pairwise fun a b => n a ≤ n b) (p : α → Bool)
    {lo mid hi : Nat} (hlo : lo ≤ mid) (hhi : mid ≤ hi) :
    l.filter (fun a => decide (lo ≤ n a ∧ n a < mid) && p a) ++ l.filter (fun a =>
      decide (mid ≤ n a ∧ n a < hi) && p a) = l.filter fun a => decide (lo ≤ n a ∧ n a < hi) && p a := by
  induction l with
  | nil => rfl
  | cons a l ih =>
    obtain ⟨ha, hl⟩ := pairwise_cons.1 hl
    have ih := ih hl
    by_cases hmid : n a < mid
    · have hno : (decide (mid ≤ n a ∧ n a < hi) && p a) = false := by
        simp only [Bool.and_eq_false_iff, decide_eq_false_iff_not]
        omega
      have hsame : (decide (lo ≤ n a ∧ n a < mid) && p a) = (decide (lo ≤ n a ∧ n a < hi) && p a) := by
        congr 1
        rw [decide_eq_decide]
        omega
      simp only [filter_cons, hno, hsame, Bool.false_eq_true, if_false]
      split
      · rw [cons_append, ih]
      · exact ih
    have hnone : ∀ b ∈ a :: l, ¬ (decide (lo ≤ n b ∧ n b < mid) && p b) = true := by
      intro b hb
      simp only [Bool.and_eq_true, decide_eq_true_eq]
      have hle : n a ≤ n b := by
        rcases mem_cons.1 hb with rfl | hb
        · exact Nat.le_refl _
        · exact ha b hb
      omega
    rw [filter_eq_nil_iff.2 hnone, nil_append]
    apply filter_congr
    intro b hb
    have hle : n a ≤ n b := by
      rcases mem_cons.1 hb with rfl | hb
      · exact Nat.le_refl _
      · exact ha b hb
    congr 1
    rw [decide_eq_decide]
    omega

end PerKey
