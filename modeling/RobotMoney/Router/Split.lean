import RobotMoney.Router.Quotes

/-!
# The split over the available legs

What `_availabilityAndAmounts` hands out, in closed form.  Every leg gets its share of the amount rounded down, taken
over the weights of the available legs, and the last of them that carries weight takes what rounding left.  When legs
drop out, a leg that is still there and was funded stays funded: its share is taken over less weight, and the last leg
keeps its place.  So the quotes of the last round are the quotes for the final amounts.
-/

namespace RobotMoney

open Evm Finset

section Shares

variable (legs : List Leg) (available : Nat → Bool) (amount : Nat)

def availableBps : Nat := ∑ i ∈ range legs.length, availableWeight legs available i

/-- The share of leg `i`, rounded down. -/
def share (i : Nat) : Nat := amount * availableWeight legs available i / availableBps legs available

def sharedOut : Nat := ∑ i ∈ range legs.length, share legs available amount i

/-- Leg `i` is the last available one below `k` that carries weight. -/
structure LastWeighted (k i : Nat) : Prop where
  lt : i < k
  weight : availableWeight legs available i ≠ 0
  later : ∀ j, i < j → j < k → availableWeight legs available j = 0

/-- The amounts of a split: the shares, with the remainder on the last available leg that carries weight. -/
structure SplitInto (amounts : Nat → Nat) : Prop where
  sink : ∀ i, LastWeighted legs available legs.length i →
    amounts i = share legs available amount i + (amount - sharedOut legs available amount)
  rest : ∀ i, ¬ LastWeighted legs available legs.length i → amounts i = share legs available amount i

end Shares

section

variable {legs : List Leg} {available : Nat → Bool} {amount : Nat}

private theorem LastWeighted.unique {k i j : Nat} (hi : LastWeighted legs available k i)
    (hj : LastWeighted legs available k j) :
    i = j := by
  rcases lt_trichotomy i j with h | h | h
  · exact absurd (hi.later j h hj.lt) hj.weight
  · exact h
  · exact absurd (hj.later i h hi.lt) hi.weight

variable {k i : Nat}

private theorem exists_lastWeighted (hi : i < k) (hw : availableWeight legs available i ≠ 0) :
    ∃ j, LastWeighted legs available k j := by
  induction k with
  | zero => exact absurd hi (Nat.not_lt_zero i)
  | succ k ih =>
    by_cases hk : availableWeight legs available k = 0
    · have hik : i < k := by
        have hne : i ≠ k := by
          rintro rfl
          exact hw hk
        omega
      obtain ⟨j, hj⟩ := ih hik
      refine ⟨j, by have := hj.lt; omega, hj.weight, fun m hm hmk => ?_⟩
      by_cases hmk' : m = k
      · rw [hmk', hk]
      · exact hj.later m hm (by omega)
    · exact ⟨k, Nat.lt_succ_self k, hk, fun m hm hmk => by omega⟩

private theorem availableWeight_le_availableBps (hi : i < legs.length) :
    availableWeight legs available i ≤ availableBps legs available :=
  single_le_sum (f := availableWeight legs available) (fun _ _ => Nat.zero_le _) (mem_range.2 hi)

private theorem availableWeight_of_length_le (hi : legs.length ≤ i) : availableWeight legs available i = 0 := by
  simp [availableWeight, bpsAt, List.getElem?_eq_none hi]

theorem share_of_weight_eq_zero (h : availableWeight legs available i = 0) : share legs available amount i = 0 := by
  rw [share, h, mul_zero, Nat.zero_div]

private theorem sharedOut_le : sharedOut legs available amount ≤ amount :=
  sum_mulDivNat_floor_le (range legs.length) amount (availableBps legs available)
    (availableWeight legs available) rfl

theorem sum_share_erase_lt (hi : i < legs.length) (hw : availableWeight legs available i ≠ 0) (hamount : 0 < amount) :
    ∑ j ∈ (range legs.length).erase i, share legs available amount j < amount := by
  have hpos : 0 < availableBps legs available :=
    lt_of_lt_of_le (Nat.pos_of_ne_zero hw) (availableWeight_le_availableBps hi)
  have hmem : i ∈ range legs.length := mem_range.2 hi
  have htotal : availableWeight legs available i +
      ∑ j ∈ (range legs.length).erase i, availableWeight legs available j = availableBps legs available :=
    add_sum_erase _ _ hmem
  refine Nat.lt_of_mul_lt_mul_right (a := availableBps legs available) ?_
  calc (∑ j ∈ (range legs.length).erase i, share legs available amount j) * availableBps legs available
      = ∑ j ∈ (range legs.length).erase i, share legs available amount j * availableBps legs available :=
        sum_mul ..
    _ ≤ ∑ j ∈ (range legs.length).erase i, amount * availableWeight legs available j :=
        sum_le_sum fun j _ => Nat.div_mul_le_self _ _
    _ = amount * ∑ j ∈ (range legs.length).erase i, availableWeight legs available j :=
        (mul_sum ..).symm
    _ < amount * availableBps legs available :=
        Nat.mul_lt_mul_of_pos_left (by have := Nat.pos_of_ne_zero hw; omega) hamount

namespace SplitInto

open Finset

variable {amounts : Nat → Nat}

variable {i : Nat}

section

variable (h : SplitInto legs available amount amounts)

include h

theorem eq_zero (hi : availableWeight legs available i = 0) :
    amounts i = 0 := by
  rw [h.rest i fun hlast => hlast.weight hi, share_of_weight_eq_zero hi]

theorem sum_eq (hi : i < legs.length)
    (hw : availableWeight legs available i ≠ 0) : ∑ j ∈ range legs.length, amounts j = amount := by
  obtain ⟨last, hlast⟩ := exists_lastWeighted hi hw
  have hmoved := sum_add_of_eq_off (s := range legs.length) (f := share legs available amount) (g := amounts)
    (mem_range.2 hlast.lt) fun j _ hj => h.rest j fun hj' => hj (hj'.unique hlast)
  have hle : sharedOut legs available amount ≤ amount := sharedOut_le
  have hsink := h.sink last hlast
  unfold sharedOut at hle hsink
  omega

theorem sink_pos (hamount : 0 < amount) (hi : LastWeighted legs available legs.length i) : 0 < amounts i := by
  have hlt : ∑ j ∈ (range legs.length).erase i, share legs available amount j < amount :=
    sum_share_erase_lt hi.lt hi.weight hamount
  have htotal : share legs available amount i +
      ∑ j ∈ (range legs.length).erase i, share legs available amount j = sharedOut legs available amount :=
    add_sum_erase _ _ (mem_range.2 hi.lt)
  have hsink := h.sink i hi
  omega

theorem funded_mono {available' : Nat → Bool} {amounts' : Nat → Nat}
    (h' : SplitInto legs available' amount amounts') (hle : ∀ j, available' j = true → available j = true)
    (hi : available' i = true) (hfunded : amounts i ≠ 0) : amounts' i ≠ 0 := by
  have hweight : ∀ j, availableWeight legs available' j ≤ availableWeight legs available j := by
    intro j
    unfold availableWeight
    by_cases hj : available' j = true
    · rw [if_pos hj, if_pos (hle j hj)]
    rw [if_neg hj]
    exact Nat.zero_le _
  have hsame : availableWeight legs available' i = availableWeight legs available i := by
    rw [availableWeight, availableWeight, if_pos hi, if_pos (hle i hi)]
  have hw : availableWeight legs available i ≠ 0 := fun h0 => hfunded (h.eq_zero h0)
  have hlt : i < legs.length := by
    by_contra hge
    exact hw (availableWeight_of_length_le (not_lt.1 hge))
  -- the last leg keeps its place
  have hlast : LastWeighted legs available legs.length i → LastWeighted legs available' legs.length i := fun hl =>
    ⟨hl.lt, hsame ▸ hl.weight, fun j hj hjn => Nat.le_zero.1 ((hweight j).trans (hl.later j hj hjn).le)⟩
  by_cases hi' : LastWeighted legs available' legs.length i
  · have hamount : 0 < amount := by
      by_contra h0
      have hzero : amount = 0 := by omega
      subst hzero
      apply hfunded
      by_cases hl : LastWeighted legs available legs.length i
      · rw [h.sink i hl, share, zero_mul, Nat.zero_div, Nat.zero_sub]
      · rw [h.rest i hl, share, zero_mul, Nat.zero_div]
    exact (h'.sink_pos hamount hi').ne'
  have hshare : amounts i = share legs available amount i := h.rest i fun hl => hi' (hlast hl)
  have hshare' : amounts' i = share legs available' amount i := h'.rest i hi'
  have hbps : availableBps legs available' ≤ availableBps legs available :=
    sum_le_sum fun j _ => hweight j
  have hpos : 0 < availableBps legs available' :=
    lt_of_lt_of_le (Nat.pos_of_ne_zero (hsame ▸ hw)) (availableWeight_le_availableBps hlt)
  have hgrow : share legs available amount i ≤ share legs available' amount i := by
    unfold share
    rw [hsame]
    exact Nat.div_le_div_left hbps hpos
  omega

end

end SplitInto

/-- After the rounds below `k`: their shares, what they add up to, and the last leg with weight among them. -/
structure SharesBelow (legs : List Leg) (available : Nat → Bool) (amount k : Nat) (s : Split) : Prop where
  amounts : ∀ i, s.legAmounts i = if i < k then share legs available amount i else 0
  allocated : s.allocated = ∑ i ∈ range k, share legs available amount i
  last : (∀ i < k, availableWeight legs available i = 0) ∨ LastWeighted legs available k s.lastAvailable

private theorem splitLeg_shares {s s' : Split} (hs : SharesBelow legs available amount k s)
    (h : splitLeg legs available amount (availableBps legs available) s k = .ok s') :
    SharesBelow legs available amount (k + 1) s' := by
  have hsucc : ∀ i, i < k + 1 ↔ i < k ∨ i = k := fun i => by omega
  unfold splitLeg at h
  split at h
  · rename_i hk
    simp only [bind_eq_ok, mul_eq_ok, add_eq_ok, Except.ok.injEq] at h
    obtain ⟨-, ⟨-, rfl⟩, -, ⟨-, rfl⟩, rfl⟩ := h
    have hweight : availableWeight legs available k = bpsAt legs k := if_pos hk
    have hshare : amount * bpsAt legs k / availableBps legs available = share legs available amount k := by
      rw [share, hweight]
    refine ⟨fun i => ?_, ?_, ?_⟩
    · by_cases hi : i = k
      · subst hi
        simp [hshare]
      · simp only [Function.update_of_ne hi, hs.amounts i, hsucc, hi, or_false]
    · rw [sum_range_succ, hs.allocated, hshare]
    · by_cases hzero : bpsAt legs k = 0
      · simp only [hzero, ne_eq, not_true_eq_false, if_false]
        rcases hs.last with hnone | hlast
        · refine .inl fun i hi => ?_
          rcases (hsucc i).1 hi with hi | rfl
          · exact hnone i hi
          · rw [hweight, hzero]
        refine .inr ⟨by have := hlast.lt; omega, hlast.weight, fun j hj hjk => ?_⟩
        rcases (hsucc j).1 hjk with hjk | rfl
        · exact hlast.later j hj hjk
        · rw [hweight, hzero]
      simp only [hzero, ne_eq, not_false_eq_true, if_true]
      exact .inr ⟨Nat.lt_succ_self k, by rwa [hweight], fun j hj hjk => by omega⟩
  rename_i hk
  cases h
  have hweight : availableWeight legs available k = 0 := if_neg hk
  refine ⟨fun i => ?_, ?_, ?_⟩
  · by_cases hi : i = k
    · subst hi
      simp [hs.amounts, share_of_weight_eq_zero hweight]
    · simp only [hs.amounts i, hsucc, hi, or_false]
  · rw [sum_range_succ, hs.allocated, share_of_weight_eq_zero hweight, add_zero]
  · rcases hs.last with hnone | hlast
    · refine .inl fun i hi => ?_
      rcases (hsucc i).1 hi with hi | rfl
      · exact hnone i hi
      · exact hweight
    refine .inr ⟨by have := hlast.lt; omega, hlast.weight, fun j hj hjk => ?_⟩
    rcases (hsucc j).1 hjk with hjk | rfl
    · exact hlast.later j hj hjk
    · exact hweight

private theorem sharesBelow_zero : SharesBelow legs available amount 0 ⟨fun _ => 0, 0, 0⟩ where
  amounts := fun i => by simp
  allocated := by simp
  last := .inl fun i hi => absurd hi (Nat.not_lt_zero i)

/-- `_splitAcrossAvailable` in closed form. -/
theorem splitAcrossAvailable_splitInto {amounts : Nat → Nat}
    (h : splitAcrossAvailable legs available amount = .ok amounts) : SplitInto legs available amount amounts := by
  simp only [splitAcrossAvailable, bind_eq_ok] at h
  obtain ⟨bps, hbps, h⟩ := h
  obtain rfl : bps = availableBps legs available := sumBps_eq hbps
  split at h
  · rename_i hzero
    cases h
    refine ⟨fun i hlast => ?_, fun i _ => ?_⟩
    · have hle : availableWeight legs available i ≤ availableBps legs available :=
        availableWeight_le_availableBps hlast.lt
      exact absurd (Nat.le_zero.1 (hzero ▸ hle)) hlast.weight
    · rw [share, hzero, Nat.div_zero]
  rename_i hpos
  simp only [bind_eq_ok] at h
  obtain ⟨s, hs, h⟩ := h
  have hstate : SharesBelow legs available amount legs.length s :=
    foldlM_range_invariant (P := SharesBelow legs available amount) (fun k s s' _ hs hround =>
      splitLeg_shares hs hround)
      sharesBelow_zero hs
  have hlast : LastWeighted legs available legs.length s.lastAvailable := by
    rcases hstate.last with hnone | hlast
    · exact absurd (sum_eq_zero fun i hi => hnone i (mem_range.1 hi)) hpos
    · exact hlast
  have hshares : ∀ i, s.legAmounts i = share legs available amount i := by
    intro i
    rw [hstate.amounts i]
    split
    · rfl
    rename_i hge
    rw [share_of_weight_eq_zero (availableWeight_of_length_le (not_lt.1 hge))]
  have htotal : s.allocated = sharedOut legs available amount := hstate.allocated
  split at h
  · simp only [bind_eq_ok, add_eq_ok, Except.ok.injEq] at h
    obtain ⟨-, ⟨-, rfl⟩, rfl⟩ := h
    refine ⟨fun i hi => ?_, fun i hi => ?_⟩
    · obtain rfl := hi.unique hlast
      rw [Function.update_self, hshares, htotal]
    · have hne : i ≠ s.lastAvailable := by
        rintro rfl
        exact hi hlast
      rw [Function.update_of_ne hne, hshares]
  cases h
  refine ⟨fun i _ => ?_, fun i _ => hshares i⟩
  rw [hshares]
  omega

def weightedLegs (legs : List Leg) (available : Nat → Bool) : Finset Nat :=
  (range legs.length).filter fun i => availableWeight legs available i ≠ 0

theorem remainder_lt (hpos : 0 < availableBps legs available) :
    amount - sharedOut legs available amount < (weightedLegs legs available).card := by
  have hbps : ∑ i ∈ weightedLegs legs available, availableWeight legs available i = availableBps legs available :=
    sum_filter_ne_zero _
  have hout : ∑ i ∈ weightedLegs legs available, share legs available amount i = sharedOut legs available amount := by
    refine sum_subset (filter_subset _ _) fun i hi hnot => ?_
    have hweight : availableWeight legs available i = 0 := by
      by_contra hne
      exact hnot (mem_filter.2 ⟨hi, hne⟩)
    exact share_of_weight_eq_zero hweight
  have hne : (weightedLegs legs available).Nonempty := by
    rw [nonempty_iff_ne_empty]
    intro hempty
    rw [hempty, sum_empty] at hbps
    omega
  have hlt : amount < sharedOut legs available amount + (weightedLegs legs available).card := by
    refine Nat.lt_of_mul_lt_mul_right (a := availableBps legs available) ?_
    calc amount * availableBps legs available
        = ∑ i ∈ weightedLegs legs available, amount * availableWeight legs available i := by
          rw [← hbps, mul_sum]
      _ < ∑ i ∈ weightedLegs legs available, (share legs available amount i + 1) * availableBps legs available :=
          sum_lt_sum_of_nonempty hne fun i _ => Nat.lt_mul_of_div_lt (Nat.lt_succ_self _) hpos
      _ = (sharedOut legs available amount + (weightedLegs legs available).card) * availableBps legs available := by
          rw [← sum_mul, sum_add_distrib, hout, sum_const, smul_eq_mul, mul_one]
  have hle : sharedOut legs available amount ≤ amount := sharedOut_le
  omega

/-- Neither the sum of the weights nor a product of the amount with one of them leaves a machine word. -/
structure Fits (legs : List Leg) (amount : Nat) : Prop where
  bps : ∑ i ∈ range legs.length, bpsAt legs i < wordSize
  products : ∀ i < legs.length, amount * bpsAt legs i < wordSize

private theorem availableWeight_le_bpsAt (i : Nat) : availableWeight legs available i ≤ bpsAt legs i := by
  unfold availableWeight
  split
  · exact le_rfl
  · exact Nat.zero_le _

private theorem addBps_returns (hfits : Fits legs amount) (hk : k < legs.length) :
    addBps legs available (∑ i ∈ range k, availableWeight legs available i) k =
      .ok (∑ i ∈ range (k + 1), availableWeight legs available i) := by
  have hle : (∑ i ∈ range k, availableWeight legs available i) + bpsAt legs k ≤
      ∑ i ∈ range legs.length, bpsAt legs i := by
    calc (∑ i ∈ range k, availableWeight legs available i) + bpsAt legs k
        ≤ (∑ i ∈ range k, bpsAt legs i) + bpsAt legs k :=
          Nat.add_le_add_right (sum_le_sum fun i _ => availableWeight_le_bpsAt i) _
      _ = ∑ i ∈ range (k + 1), bpsAt legs i := (sum_range_succ ..).symm
      _ ≤ ∑ i ∈ range legs.length, bpsAt legs i := sum_le_sum_of_subset (range_mono hk)
  rw [sum_range_succ]
  unfold addBps
  split
  · rename_i hav
    rw [add_eq_ok, availableWeight, if_pos hav]
    exact ⟨lt_of_le_of_lt hle hfits.bps, rfl⟩
  rename_i hav
  rw [availableWeight, if_neg hav, add_zero]

theorem splitLeg_returns (hfits : Fits legs amount) (hamount : amount < wordSize) (hk : k < legs.length) {s : Split}
    (hs : SharesBelow legs available amount k s) :
    ∃ s', splitLeg legs available amount (availableBps legs available) s k = .ok s' := by
  unfold splitLeg
  split
  · rename_i hav
    have hshare : amount * bpsAt legs k / availableBps legs available = share legs available amount k := by
      rw [share, availableWeight, if_pos hav]
    have hle : s.allocated + share legs available amount k ≤ amount := by
      calc s.allocated + share legs available amount k
          = ∑ i ∈ range (k + 1), share legs available amount i := by
            rw [sum_range_succ, hs.allocated]
        _ ≤ sharedOut legs available amount := sum_le_sum_of_subset (range_mono hk)
        _ ≤ amount := sharedOut_le
    simp only [bind_eq_ok, mul_eq_ok, add_eq_ok]
    exact ⟨_, _, ⟨hfits.products k hk, rfl⟩, _, ⟨by rw [hshare]; omega, rfl⟩, rfl⟩
  · exact ⟨_, rfl⟩

theorem splitAcrossAvailable_returns (hfits : Fits legs amount) (hamount : amount < wordSize) :
    ∃ amounts, splitAcrossAvailable legs available amount = .ok amounts := by
  obtain ⟨bps, hbps, hval⟩ := foldlM_range_returns (f := addBps legs available) (n := legs.length) (s := 0)
    (P := fun k sum => sum = ∑ i ∈ range k, availableWeight legs available i)
    (fun k sum hk hsum => ⟨_, hsum ▸ addBps_returns hfits hk, rfl⟩) (by simp)
  obtain rfl : bps = availableBps legs available := hval
  obtain ⟨s, hs, hstate⟩ := foldlM_range_returns
    (f := splitLeg legs available amount (availableBps legs available)) (n := legs.length)
    (P := SharesBelow legs available amount)
    (fun k s hk hs => by
      obtain ⟨s', hs'⟩ := splitLeg_returns hfits hamount hk hs
      exact ⟨s', hs', splitLeg_shares hs hs'⟩)
    sharesBelow_zero
  simp only [splitAcrossAvailable, hbps, ok_bind, hs]
  split
  · exact ⟨_, rfl⟩
  split
  · have hle : s.legAmounts s.lastAvailable ≤ s.allocated := by
      rw [hstate.amounts]
      split
      · rename_i hlt
        rw [hstate.allocated]
        exact single_le_sum (f := share legs available amount) (fun _ _ => Nat.zero_le _)
          (mem_range.2 hlt)
      · exact Nat.zero_le _
    simp only [bind_eq_ok, add_eq_ok]
    exact ⟨_, _, ⟨by omega, rfl⟩, rfl⟩
  · exact ⟨_, rfl⟩

end

end RobotMoney
