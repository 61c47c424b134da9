import RobotMoney.Vault.Price
import RobotMoney.Vault.Refusals

/-!
# Equal weights

The slices of `equalWeightBalance` and the basis points of `_targetBpsForIndex` are differences of one prefix weight,
`cumBps`, so both sum up exactly (`equal_weights_exact`).  `adapterDrift` compares the slices with what the adapters
report.
-/

namespace RobotMoney

open Evm List

namespace Vault

variable {σ : Type} (env : Outside σ)

/-- The counters of the scan in `_targetBpsForIndex`. -/
structure Ranking where
  active : Nat
  rank : Nat

def Ranking.scan (index : Nat) (r : Ranking) (e : AdapterInfo × Nat) : Ranking :=
  if e.1.active = false then r
  else ⟨r.active + 1, if e.2 < index then r.rank + 1 else r.rank⟩

def targetBpsForIndex (s : Vault σ) (index : Nat) : Nat :=
  if s.adapters[index]?.any (·.active) = false then 0
  else
    let r := s.adapters.zipIdx.foldl (Ranking.scan index) ⟨0, 0⟩
    maxBps / r.active + (if r.rank < maxBps % r.active then 1 else 0)

/-- `int256(x)`. -/
def int256 (x : Nat) : Int := (BitVec.ofNat 256 x).toInt

/-- The checked difference of two `int256`. -/
def subInt256 (a b : Int) : Except Revert Int :=
  if -2 ^ 255 ≤ a - b ∧ a - b < 2 ^ 255 then .ok (a - b) else .error (.panic .arithmetic)

/-- What `adapterDrift` returns, with the rank of the next active entry. -/
structure Drift where
  rank : Nat
  currentBalances : List Nat
  targetBalances : List Nat
  drifts : List Int

/-- One round of `adapterDrift`; the arrays start out as zeros. -/
def driftEntry (s : Vault σ) (total active : Nat) (r : Drift) (i : Nat) : Except Revert Drift := do
  let e ← s.entry i
  if e.active = false then
    .ok { r with currentBalances := r.currentBalances ++ [0], targetBalances := r.targetBalances ++ [0],
                 drifts := r.drifts ++ [0] }
  else do
    let target ← equalWeightBalance total r.rank active
    let current ← s.reported env e.adapter
    let drift ← subInt256 (int256 current) (int256 target)
    .ok ⟨r.rank + 1, r.currentBalances ++ [current], r.targetBalances ++ [target], r.drifts ++ [drift]⟩

def adapterDrift (s : Vault σ) (total : Nat) : Except Revert Drift :=
  s.indices.foldlM (s.driftEntry env total s.activeCount) ⟨0, [], [], []⟩

variable {total active rank share : Nat} {s : Vault σ}

private theorem slices_return_iff (hactive : active ≠ 0) :
    (∀ rank < active, ∃ share, equalWeightBalance total rank active = .ok share) ↔ total * maxBps < wordSize := by
  refine ⟨fun h => ?_, fun hword rank hrank => equalWeightBalance_returns hrank hword⟩
  obtain ⟨share, hlast⟩ := h (active - 1) (by omega)
  have hword := ((equalWeightBalance_eq_ok hactive).1 hlast).1
  rwa [Nat.sub_add_cancel (by omega), cumBps_active hactive] at hword

private theorem sum_slices {share : Nat → Nat} (hactive : active ≠ 0) {n : Nat}
    (h : ∀ rank < n, equalWeightBalance total rank active = .ok (share rank)) :
    ∑ rank ∈ Finset.range n, share rank = total * cumBps active n / maxBps := by
  induction n with
  | zero => simp [cumBps]
  | succ n ih =>
    rw [Finset.sum_range_succ, ih (fun rank hrank => h rank (by omega))]
    exact ((equalWeightBalance_eq_ok hactive).1 (h n (by omega))).2

/-- A slice is the share of its basis points, or one unit more. -/
theorem slice_le (hactive : active ≠ 0) (h : equalWeightBalance total rank active = .ok share) :
    share ≤ total * weightBps active rank / maxBps + 1 := by
  have hslice := ((equalWeightBalance_eq_ok hactive).1 h).2
  rw [cumBps_succ, mul_add, Nat.add_div (by decide)] at hslice
  split at hslice <;> omega

private theorem slice_le_slice {i j a b : Nat} (hactive : active ≠ 0) (ha : equalWeightBalance total i active = .ok a)
    (hb : equalWeightBalance total j active = .ok b) :
    a ≤ b + 1 + (if i < maxBps % active ∧ maxBps % active ≤ j then total / maxBps + 1 else 0) := by
  have hupper := slice_le hactive ha
  have hlower := slice_le_equalWeightBalance hactive hb
  split
  · rename_i hbps
    rw [weightBps, if_pos hbps.1, mul_add, mul_one, Nat.add_div (by decide)] at hupper
    rw [weightBps, if_neg (by omega), add_zero] at hlower
    split at hupper <;> omega
  have hweight : weightBps active i ≤ weightBps active j := by
    unfold weightBps
    split <;> split <;> omega
  have := Nat.div_le_div_right (c := maxBps) (Nat.mul_le_mul_left total hweight)
  omega

private theorem scan_eq (index : Nat) (l : List AdapterInfo) :
    l.zipIdx.foldl (Ranking.scan index) ⟨0, 0⟩ = ⟨l.countP (·.active), (l.take index).countP (·.active)⟩ := by
  induction l using reverseRecOn with
  | nil => simp
  | append_singleton l e ih =>
    rw [zipIdx_append, foldl_append, ih, take_append, countP_append, countP_append]
    rcases lt_or_ge l.length index with h | h
    · obtain ⟨m, hm⟩ : ∃ m, index - l.length = m + 1 := ⟨index - l.length - 1, by omega⟩
      cases hact : e.active <;> simp [Ranking.scan, hact, h, hm]
    · cases hact : e.active <;> simp [Ranking.scan, hact, Nat.not_lt.2 h, Nat.sub_eq_zero_of_le h]

private theorem targetBpsForIndex_eq (s : Vault σ) (index : Nat) : s.targetBpsForIndex index =
    if s.adapters[index]?.any (·.active) then weightBps s.activeCount (s.activeBelow index) else 0 := by
  unfold targetBpsForIndex
  rw [scan_eq]
  cases s.adapters[index]?.any (·.active) <;> rfl

private theorem sum_targetBps {k : Nat} (hk : k ≤ s.adapters.length) :
    ∑ i ∈ Finset.range k, s.targetBpsForIndex i = cumBps s.activeCount (s.activeBelow k) := by
  induction k with
  | zero => simp [cumBps, activeBelow]
  | succ k ih =>
    obtain ⟨e, he⟩ : ∃ e, s.adapters[k]? = some e := ⟨_, getElem?_eq_getElem hk⟩
    rw [Finset.sum_range_succ, ih (by omega), targetBpsForIndex_eq, activeBelow_succ he, he, Option.any_some]
    cases e.active
    · rfl
    · exact cumBps_succ.symm

/-- The entries below `k` are filled in. -/
structure Drifted (s : Vault σ) (total k : Nat) (r : Drift) : Prop where
  rank : r.rank = s.activeBelow k
  targets : r.targetBalances.sum = total * cumBps s.activeCount r.rank / maxBps
  drifts : r.drifts.sum = (r.currentBalances.map int256).sum - r.targetBalances.sum

private theorem Drifted.round {k : Nat} {r r' : Drift} (h : s.Drifted total k r)
    (hround : s.driftEntry env total s.activeCount r k = .ok r') : s.Drifted total (k + 1) r' := by
  simp only [driftEntry, bind_eq_ok, entry_eq_ok] at hround
  obtain ⟨e, he, hround⟩ := hround
  cases hact : e.active with
  | false =>
    rw [if_pos hact] at hround
    cases hround
    refine ⟨?_, by simpa using h.targets, by simpa [int256] using h.drifts⟩
    rw [activeBelow_succ he, hact, h.rank]
    rfl
  | true =>
    simp only [hact, Bool.true_eq_false, if_false, bind_eq_ok] at hround
    obtain ⟨target, htarget, current, -, drift, hdrift, hround⟩ := hround
    cases hround
    have hactive : s.activeCount ≠ 0 := activeCount_ne_zero he hact
    obtain ⟨hword, hslice⟩ := (equalWeightBalance_eq_ok hactive).1 htarget
    have hsmall : target < 2 ^ 255 :=
      calc target ≤ total * cumBps s.activeCount (r.rank + 1) / maxBps := hslice ▸ Nat.le_add_left _ _
        _ < 2 ^ 255 := Nat.div_lt_of_lt_mul (hword.trans (by decide))
    have hfits : int256 target = target := by
      rw [int256, BitVec.toInt_ofNat', Int.bmod_eq_of_le (by omega) (by omega)]
    unfold subInt256 at hdrift
    split at hdrift
    · cases hdrift
      refine ⟨?_, ?_, ?_⟩
      · rw [activeBelow_succ he, hact, h.rank]
        rfl
      · rw [← hslice, ← h.targets, sum_append, sum_singleton]
      · simp only [sum_append, map_append, map_singleton, sum_singleton, h.drifts, hfits]
        omega
    · cases hdrift

private theorem activeBelow_length (s : Vault σ) : s.activeBelow s.adapters.length = s.activeCount := by
  rw [activeBelow, take_length, activeCount]

private theorem adapterDrift_sums {r : Drift} (hactive : s.activeCount ≠ 0) (h : s.adapterDrift env total = .ok r) :
    r.targetBalances.sum = total ∧ r.drifts.sum = (r.currentBalances.map int256).sum - total := by
  have hall : s.Drifted total s.adapters.length r :=
    foldlM_range_invariant (s.Drifted total) (fun _ _ _ _ h hround => h.round env hround)
      ⟨by simp [activeBelow], by simp [cumBps], rfl⟩ h
  have htargets := hall.targets
  rw [hall.rank, activeBelow_length, cumBps_active hactive, Nat.mul_div_cancel _ (by decide)] at htargets
  exact ⟨htargets, htargets ▸ hall.drifts⟩

/-- Slices, basis points and targets are exact; two slices differ by one of the remainder basis points and rounding, the
drifts sum to what the active adapters report beyond `total`. -/
theorem equal_weights_exact (s : Vault σ) (total : Nat) :
    (∀ active, active ≠ 0 →
      ((∀ rank < active, ∃ share, equalWeightBalance total rank active = .ok share) ↔ total * maxBps < wordSize) ∧
      ∀ share : Nat → Nat, (∀ rank < active, equalWeightBalance total rank active = .ok (share rank)) →
        ∑ rank ∈ Finset.range active, share rank = total ∧
        ∀ i < active, ∀ j < active, share i ≤
          share j + 1 + (if i < maxBps % active ∧ maxBps % active ≤ j then total / maxBps + 1 else 0)) ∧
    (s.activeCount ≠ 0 →
      ∑ i ∈ Finset.range s.adapters.length with s.adapters[i]?.any (·.active), s.targetBpsForIndex i = maxBps ∧
      ∀ r, s.adapterDrift env total = .ok r →
        r.targetBalances.sum = total ∧ r.drifts.sum = (r.currentBalances.map int256).sum - total) := by
  refine ⟨fun active hactive => ⟨slices_return_iff hactive, fun share hshare => ⟨?_, ?_⟩⟩, fun hactive => ⟨?_, ?_⟩⟩
  · rw [sum_slices hactive hshare, cumBps_active hactive, Nat.mul_div_cancel _ (by decide)]
  · intro i hi j hj
    exact slice_le_slice hactive (hshare i hi) (hshare j hj)
  · have hsum := sum_targetBps (le_refl s.adapters.length)
    rw [activeBelow_length, cumBps_active hactive] at hsum
    rw [← hsum, Finset.sum_filter]
    refine Finset.sum_congr rfl fun i _ => ?_
    rw [targetBpsForIndex_eq]
    split <;> rfl
  · exact fun r h => adapterDrift_sums env hactive h

/-- Two adapters that hold nothing and 5 units of USDC idle: the slices of equal basis points differ, and the drifts sum
to -5. -/
theorem idle_drift : ∃ (s : Vault (Address → Nat)) (r : Drift), s.Reached .sample .sample ∧ s.activeCount = 2 ∧
    s.totalAssets .sample .sample = .ok 5 ∧ s.adapterDrift .sample 5 = .ok r ∧ maxBps % s.activeCount = 0 ∧
    r.targetBalances = [2, 3] ∧ r.drifts = [-2, -3] := by
  obtain ⟨s₀, hinit, hreached⟩ :=
    Vault.sample_reached .sample (fun _ => 0) (twoAdapters ++ [⟨9, .sample, .outside [.issueUsdc 1 5] fun _ => 0⟩])
  cases hinit
  exact ⟨_, _, hreached, rfl, rfl, rfl, rfl, rfl, by decide⟩

end Vault

end RobotMoney
