import Mathlib.Data.List.Rotate

/-!
# Ring buffers

A ring buffer is a list of slots with the index `head` of its oldest live entry and the number `count` of live
entries, which wrap around the end of the list.  `ringEntries` reads the live entries from the oldest to the newest;
each operation on the slots is then one operation on that list: moving `head` on drops the oldest entry, writing the
slot after the newest one appends, and a buffer rotated to start at `head` has the same entries.  A ring that is only
ever written is read by age instead: `ageSlot` is the slot of the entry that is so many writes old.
-/

namespace Evm

open List

variable {α : Type}

def ringEntries (slots : List α) (head count : Nat) : List α := (slots.rotate head).take count

/-- The slot `k` places after `head`, for sums that pass the end of the buffer at most once. -/
def wrapIndex (cap i : Nat) : Nat := if i ≥ cap then i - cap else i

/-- The slot after `head`. -/
def nextIndex (cap head : Nat) : Nat := if head + 1 = cap then 0 else head + 1

variable {cap i : Nat}

theorem wrapIndex_eq_mod (h : i < 2 * cap) : wrapIndex cap i = i % cap := by
  unfold wrapIndex
  split
  · rw [Nat.mod_eq_sub_mod (by omega), Nat.mod_eq_of_lt (by omega)]
  · rw [Nat.mod_eq_of_lt (by omega)]

variable {head : Nat}

theorem nextIndex_lt (h : head < cap) : nextIndex cap head < cap := by
  unfold nextIndex
  split <;> omega

variable {slots : List α} {count : Nat}

theorem length_ringEntries (h : count ≤ slots.length) : (ringEntries slots head count).length = count := by
  simp [ringEntries, h]

@[simp] theorem ringEntries_zero (slots : List α) (head : Nat) : ringEntries slots head 0 = [] := by
  simp [ringEntries]

variable {k : Nat}

private theorem getElem?_ringEntries (hk : k < count) (hc : count ≤ slots.length) :
    (ringEntries slots head count)[k]? = slots[(k + head) % slots.length]? := by
  unfold ringEntries
  rw [getElem?_take_of_lt hk, getElem?_rotate (by omega)]

private theorem ringEntries_ext {l : List α} (hc : count ≤ slots.length)
    (hl : l.length = count) (h : ∀ k, k < count → l[k]? = slots[(k + head) % slots.length]?) :
    ringEntries slots head count = l := by
  apply ext_getElem?
  intro k
  by_cases hk : k < count
  · rw [getElem?_ringEntries hk hc, h k hk]
  · rw [getElem?_eq_none (by rw [length_ringEntries hc]; omega), getElem?_eq_none (by omega)]

/-- Dropping the oldest entry moves the head. -/
theorem ringEntries_head (hh : head < slots.length) (hc : count + 1 ≤ slots.length) :
    ringEntries slots head (count + 1) = slots[head] :: ringEntries slots (nextIndex slots.length head) count := by
  apply ringEntries_ext hc
  · simp [length_ringEntries (show count ≤ slots.length by omega)]
  · intro k hk
    cases k with
    | zero => simp [Nat.mod_eq_of_lt hh]
    | succ k =>
      rw [getElem?_cons_succ, getElem?_ringEntries (by omega) (by omega)]
      unfold nextIndex
      split
      · rename_i hw
        rw [show k + 1 + head = k + slots.length by omega, Nat.add_mod_right, Nat.add_zero]
      · rw [show k + 1 + head = k + (head + 1) by omega]

/-- Writing behind the last entry appends. -/
theorem ringEntries_set_tail (v : α) (hh : head < slots.length) (hc : count < slots.length) :
    ringEntries (slots.set (wrapIndex slots.length (head + count)) v) head (count + 1) =
      ringEntries slots head count ++ [v] := by
  have hlen : (ringEntries slots head count).length = count := length_ringEntries (by omega)
  rw [wrapIndex_eq_mod (by omega)]
  apply ringEntries_ext (by rw [length_set]; omega)
  · simp [hlen]
  · intro k hk
    rw [length_set, getElem?_set]
    by_cases hkc : k = count
    · subst hkc
      rw [getElem?_append_right (by omega), hlen, Nat.add_comm head k]
      simp [Nat.mod_lt _ (show 0 < slots.length by omega)]
    have hne : (head + count) % slots.length ≠ (k + head) % slots.length := by
      rw [← wrapIndex_eq_mod (by omega), ← wrapIndex_eq_mod (by omega)]
      unfold wrapIndex
      split <;> split <;> omega
    rw [getElem?_append_left (by omega), getElem?_ringEntries (by omega) (by omega), if_neg hne]

theorem ringEntries_newest (hh : head < slots.length)
    (hc : count + 1 ≤ slots.length) (hi : wrapIndex slots.length (head + count) < slots.length) :
    ringEntries slots head (count + 1) =
      ringEntries slots head count ++ [slots[wrapIndex slots.length (head + count)]] := by
  have h := ringEntries_set_tail (slots[wrapIndex slots.length (head + count)]) hh (show count < _ by omega)
  rwa [set_getElem_self] at h

theorem wrapIndex_lt (hh : head < cap) (hc : count < cap) : wrapIndex cap (head + count) < cap := by
  unfold wrapIndex
  split <;> omega

/-- A full ring is its slots from the head on. -/
theorem ringEntries_full (head : Nat) : ringEntries slots head slots.length = slots.rotate head := by
  simp [ringEntries]

theorem ringEntries_linear (slots : List α) : ringEntries slots 0 slots.length = slots := by
  simp [ringEntries]

/-- In a ring of `size` slots whose newest entry stands at `index`, the slot of the entry that is `age` writes old. -/
def ageSlot (size index age : Nat) : Nat := if age ≤ index then index - age else index + size - age

variable {size index age : Nat}

theorem ageSlot_lt (hi : index < size) (ha : age < size) : ageSlot size index age < size := by
  unfold ageSlot
  split <;> omega

@[simp] theorem ageSlot_zero (size index : Nat) : ageSlot size index 0 = index := by simp [ageSlot]

theorem ageSlot_grow (ha : age < size) : ageSlot (size + 1) size (age + 1) = ageSlot size (size - 1) age := by
  unfold ageSlot
  split <;> split <;> omega

/-- One write ages every other entry by one and touches none of them. -/
theorem ageSlot_overwrite (hi : index < size) (ha : age + 1 < size) :
    ageSlot size ((index + 1) % size) (age + 1) = ageSlot size index age ∧
      ageSlot size index age ≠ (index + 1) % size := by
  rw [← wrapIndex_eq_mod (by omega)]
  unfold ageSlot wrapIndex
  split <;> split <;> split <;> omega

theorem add_mod_eq_ageSlot (hi : index < size) (ha : age < size)
    (h : i + age + 1 = (index + 1) % size + size) : i % size = ageSlot size index age := by
  rw [← wrapIndex_eq_mod (by omega)] at h
  have hlt : i < 2 * size := by
    unfold wrapIndex at h
    split at h <;> omega
  rw [← wrapIndex_eq_mod hlt]
  unfold ageSlot
  unfold wrapIndex at h ⊢
  split <;> split <;> split at h <;> omega

theorem rotate_eq_reverse (l : List α) (hk : k ≤ l.length) :
    l.rotate k = ((l.take k).reverse ++ (l.drop k).reverse).reverse := by
  rw [rotate_eq_drop_append_take hk]
  simp

end Evm
