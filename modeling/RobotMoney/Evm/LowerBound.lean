import Mathlib.Data.List.Basic

/-!
# Binary search

The search loop `while (lo < hi)` for the first index of a sorted array that is not below a target.  The loop halves
the interval, so as many rounds as the interval is long are enough; `lowerBound_spec` says what it finds, and
`getElem?_lowerBound` that this is the element a linear scan finds.
-/

namespace Evm

open List

/-- The loop, with `fuel` rounds at most: `below i` tells that the element at `i` is below the target. -/
def lowerBound (below : Nat → Bool) : Nat → Nat → Nat → Nat
  | 0, lo, _ => lo
  | fuel + 1, lo, hi =>
    if lo < hi then
      let mid := (lo + hi) / 2
      if below mid then lowerBound below fuel (mid + 1) hi else lowerBound below fuel lo mid
    else lo

private theorem lowerBound_spec {below : Nat → Bool} {n : Nat} (hmono : ∀ i j, i < j → j < n → below j → below i)
    (fuel lo hi : Nat) (hfuel : hi - lo ≤ fuel) (hle : lo ≤ hi) (hn : hi ≤ n)
    (hlo : ∀ i, i < lo → below i) (hhi : ∀ i, hi ≤ i → i < n → below i = false) :
    (∀ i, i < lowerBound below fuel lo hi → below i) ∧
      (∀ i, lowerBound below fuel lo hi ≤ i → i < n → below i = false) ∧ lowerBound below fuel lo hi ≤ n := by
  induction fuel generalizing lo hi with
  | zero =>
    have : lo = hi := by omega
    subst this
    exact ⟨hlo, hhi, hn⟩
  | succ fuel ih =>
    unfold lowerBound
    split
    · rename_i hlt
      have hmid : (lo + hi) / 2 < hi := by omega
      have hmid' : lo ≤ (lo + hi) / 2 := by omega
      dsimp only
      split
      · rename_i hb
        refine ih _ _ (by omega) (by omega) hn ?_ hhi
        intro i hi'
        rcases Nat.lt_or_ge i ((lo + hi) / 2) with h | h
        · exact hmono i _ h (by omega) hb
        have : i = (lo + hi) / 2 := by omega
        exact this ▸ hb
      rename_i hb
      refine ih _ _ (by omega) (by omega) (by omega) hlo ?_
      intro i hi' hin
      rcases Nat.eq_or_lt_of_le hi' with h | h
      · exact h ▸ (by simpa using hb)
      -- an element above `mid` below the target would put `mid` below it as well
      by_contra hc
      exact hb (hmono _ i h hin (by simpa using hc))
    have : lo = hi := by omega
    subst this
    exact ⟨hlo, hhi, hn⟩

theorem getElem?_lowerBound {α : Type} {p : α → Bool} {l : List α} (hmono : l.Pairwise fun x y => p y → p x) :
    l[lowerBound (fun i => (l[i]?).any p) l.length 0 l.length]? = l.find? (fun x => !p x) := by
  have hbelow : ∀ i j, i < j → j < l.length → (l[j]?).any p → (l[i]?).any p := by
    intro i j hij hj h
    rw [getElem?_eq_getElem hj] at h
    rw [getElem?_eq_getElem (by omega : i < l.length)]
    exact pairwise_iff_getElem.1 hmono i j (by omega) hj hij h
  obtain ⟨h1, h2, h3⟩ := lowerBound_spec hbelow l.length 0 l.length (by omega) (by omega)
    (Nat.le_refl _) (by omega) (by omega)
  generalize lowerBound (fun i => (l[i]?).any p) l.length 0 l.length = r at h1 h2 h3
  symm
  rcases Nat.eq_or_lt_of_le h3 with hr | hr
  · rw [hr, getElem?_eq_none (Nat.le_refl _), find?_eq_none]
    intro x hx
    obtain ⟨i, hi, rfl⟩ := getElem_of_mem hx
    have := h1 i (by omega)
    rw [getElem?_eq_getElem hi] at this
    simpa using this
  rw [getElem?_eq_getElem hr, find?_eq_some_iff_getElem]
  refine ⟨?_, r, hr, rfl, ?_⟩
  · have := h2 r (Nat.le_refl _) hr
    rw [getElem?_eq_getElem hr] at this
    simpa using this
  · intro j hj
    have := h1 j hj
    rw [getElem?_eq_getElem (by omega : j < l.length)] at this
    simpa using this

end Evm
