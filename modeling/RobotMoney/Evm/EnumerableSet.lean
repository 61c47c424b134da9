import Mathlib.Data.List.Nodup
import Mathlib.Data.List.Perm.Basic

/-!
# Enumerable sets

A set that keeps its members in an array, so that they can be read by index.  The library that implements it says
nothing about the order in which they stand: a member that is taken away may leave its place to any other.

* `SetLayout`: what `add` and `remove` do to the array, up to the order;
* `SetLayout.swapAndPop`: the layout where the last member moves into the place that becomes free.
-/

namespace Evm

open List

universe u

/-- How the array of an enumerable set changes when a member comes or goes. -/
structure SetLayout (α : Type u) [DecidableEq α] where
  add : List α → α → List α
  remove : List α → α → List α
  add_perm : ∀ {l : List α} {a : α}, a ∉ l → (add l a).Perm (a :: l)
  remove_perm : ∀ {l : List α} {a : α}, l.Nodup → a ∈ l → (remove l a).Perm (l.erase a)

namespace SetLayout

variable {α : Type u} [DecidableEq α] (layout : SetLayout α) {l : List α} {a b : α}

theorem mem_add (h : a ∉ l) : b ∈ layout.add l a ↔ b = a ∨ b ∈ l := by
  rw [(layout.add_perm h).mem_iff, mem_cons]

theorem nodup_add (hl : l.Nodup) (h : a ∉ l) : (layout.add l a).Nodup :=
  (layout.add_perm h).nodup_iff.2 (nodup_cons.2 ⟨h, hl⟩)

/-- Swap-and-pop removes that element only. -/
theorem mem_remove (hl : l.Nodup) (h : a ∈ l) : b ∈ layout.remove l a ↔ b ≠ a ∧ b ∈ l := by
  rw [(layout.remove_perm hl h).mem_iff, hl.mem_erase_iff]

theorem nodup_remove (hl : l.Nodup) (h : a ∈ l) : (layout.remove l a).Nodup :=
  (layout.remove_perm hl h).nodup_iff.2 (hl.erase a)

theorem length_remove (hl : l.Nodup) (h : a ∈ l) : (layout.remove l a).length + 1 = l.length := by
  have hpos : 0 < l.length := length_pos_of_mem h
  rw [(layout.remove_perm hl h).length_eq, length_erase_of_mem h]
  omega

theorem add_nil : layout.add [] a = [a] :=
  perm_singleton.1 (layout.add_perm not_mem_nil)

end SetLayout

section SwapAndPop

variable {α : Type u}

private theorem add_end_perm {l : List α} {a : α} (_ : a ∉ l) : (l ++ [a]).Perm (a :: l) :=
  perm_append_singleton a l

variable [DecidableEq α]

/-- `_remove`: the last member takes the place of the one removed, and the array is popped. -/
def swapAndPopRemove (l : List α) (a : α) : List α :=
  match l.getLast? with
  | none => l
  | some last => (l.set (l.idxOf a) last).dropLast

private theorem swapAndPopRemove_perm {l : List α} {a : α} (hl : l.Nodup) (ha : a ∈ l) :
    (swapAndPopRemove l a).Perm (l.erase a) := by
  obtain ⟨front, last, rfl⟩ : ∃ front last, l = front ++ [last] := by
    rcases eq_nil_or_concat l with rfl | ⟨front, last, rfl⟩
    · cases ha
    · exact ⟨front, last, by rw [concat_eq_append]⟩
  have hlast : swapAndPopRemove (front ++ [last]) a =
      ((front ++ [last]).set ((front ++ [last]).idxOf a) last).dropLast := by
    simp [swapAndPopRemove]
  rw [hlast]
  by_cases hf : a ∈ front
  · have hidx : front.idxOf a < front.length := idxOf_lt_length_of_mem hf
    rw [idxOf_append_of_mem hf, set_append_left _ _ hidx, dropLast_concat, erase_append_left _ hf]
    -- the place of `a` splits the front
    obtain ⟨before, after, hnot, rfl⟩ : ∃ before after, a ∉ before ∧ front = before ++ a :: after := by
      obtain ⟨before, after, hfront, hnot⟩ := eq_append_cons_of_mem hf
      exact ⟨before, after, hnot, hfront⟩
    have hset : (before ++ a :: after).set ((before ++ a :: after).idxOf a) last = before ++ last :: after := by
      rw [idxOf_append_of_notMem hnot]
      simp
    rw [hset, erase_append_right _ hnot, erase_cons_head, append_assoc]
    exact (perm_append_left_iff before).2 (perm_append_singleton last after).symm
  have heq : a = last := by
    rcases mem_append.1 ha with h | h
    · exact absurd h hf
    · exact mem_singleton.1 h
  subst heq
  rw [idxOf_append_of_notMem hf, erase_append_right _ hf]
  simp

/-- Members are appended; the last one moves into the place of a member that is removed. -/
def SetLayout.swapAndPop : SetLayout α where
  add l a := l ++ [a]
  remove := swapAndPopRemove
  add_perm := add_end_perm
  remove_perm := swapAndPopRemove_perm

end SwapAndPop

end Evm
