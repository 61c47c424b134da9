import RobotMoney.Router.PortfolioRouter

/-!
# The availability pass settles

The split hands out the whole amount, or nothing when no available leg carries weight: rounding down leaves a
remainder, and the last leg with weight takes it (`splitAcrossAvailable_spec`).  A round of quotes either drops a leg or
leaves the availability as it found it, so the loop ends with amounts that are the split over exactly the legs that are
still available (`availabilityAndAmounts_settled`).
-/

namespace RobotMoney

open Evm Function Finset

section Split

variable {legs : List Leg} {available : Nat → Bool} {amount : Nat}

/-- The weight of leg `i` if it is available. -/
def availableWeight (legs : List Leg) (available : Nat → Bool) (i : Nat) : Nat :=
  if available i then bpsAt legs i else 0

theorem sumBps_eq {sum : Nat} (h : (List.range legs.length).foldlM (addBps legs available) 0 = .ok sum) :
    sum = ∑ i ∈ range legs.length, availableWeight legs available i := by
  refine foldlM_range_invariant (P := fun k sum => sum = ∑ i ∈ range k, availableWeight legs available i) ?_
    (by simp) h
  rintro k sum sum' - rfl hround
  rw [sum_range_succ]
  unfold addBps at hround
  split at hround
  · rename_i hk
    have hweight : availableWeight legs available k = bpsAt legs k := if_pos hk
    simp only [add_eq_ok] at hround
    rw [hround.2, hweight]
  rename_i hk
  have hweight : availableWeight legs available k = 0 := if_neg hk
  cases hround
  rw [hweight, add_zero]

/-- After the rounds below `k`: unavailable legs and those to come have nothing, what was handed out is no more than
the share of the weights so far, and the remainder has a leg to go to once there was weight. -/
structure SplitState (legs : List Leg) (available : Nat → Bool) (amount availableBps k : Nat) (s : Split) : Prop where
  unfunded : ∀ i, k ≤ i ∨ available i = false → s.legAmounts i = 0
  allocated : s.allocated = ∑ i ∈ Finset.range k, s.legAmounts i
  bound : s.allocated * availableBps ≤ amount * ∑ i ∈ Finset.range k, availableWeight legs available i
  last : 0 < ∑ i ∈ Finset.range k, availableWeight legs available i →
    s.lastAvailable < k ∧ available s.lastAvailable = true

theorem splitLeg_state {availableBps k : Nat} {s s' : Split} (hs : SplitState legs available amount availableBps k s)
    (h : splitLeg legs available amount availableBps s k = .ok s') :
    SplitState legs available amount availableBps (k + 1) s' := by
  unfold splitLeg at h
  split at h
  · rename_i hk
    simp only [bind_eq_ok, mul_eq_ok, add_eq_ok, Except.ok.injEq] at h
    obtain ⟨-, ⟨-, rfl⟩, -, ⟨-, rfl⟩, rfl⟩ := h
    have hweight : availableWeight legs available k = bpsAt legs k := if_pos hk
    refine ⟨?_, ?_, ?_, ?_⟩
    · intro i hi
      have hne : i ≠ k := by
        rintro rfl
        rcases hi with hi | hi
        · omega
        rw [hk] at hi
        cases hi
      dsimp only
      rw [update_of_ne hne]
      exact hs.unfunded i (hi.imp (by omega) id)
    · dsimp only
      rw [sum_range_succ, update_self, hs.allocated]
      congr 1
      refine sum_congr rfl fun i hi => ?_
      rw [update_of_ne (by simp only [mem_range] at hi; omega)]
    · dsimp only
      rw [sum_range_succ, hweight, add_mul, mul_add]
      exact Nat.add_le_add hs.bound (Nat.div_mul_le_self _ _)
    · dsimp only
      rw [sum_range_succ, hweight]
      intro hpos
      split
      · exact ⟨by omega, hk⟩
      rename_i hzero
      obtain ⟨hlt, hlast⟩ := hs.last (by omega)
      exact ⟨by omega, hlast⟩
  rename_i hk
  cases h
  have hweight : availableWeight legs available k = 0 := if_neg hk
  have hamount : s.legAmounts k = 0 := hs.unfunded k (.inl (le_refl k))
  refine ⟨fun i hi => hs.unfunded i (hi.imp (by omega) id), ?_, ?_, ?_⟩
  · rw [sum_range_succ, hamount, hs.allocated, add_zero]
  · rw [sum_range_succ, hweight]
    exact hs.bound
  · rw [sum_range_succ, hweight]
    intro hpos
    obtain ⟨hlt, hlast⟩ := hs.last hpos
    exact ⟨by omega, hlast⟩

theorem splitAcrossAvailable_spec {amounts : Nat → Nat} (h : splitAcrossAvailable legs available amount = .ok amounts) :
    (∀ i, available i = false → amounts i = 0) ∧
      ((∀ i, amounts i = 0) ∨ ∑ i ∈ range legs.length, amounts i = amount) := by
  simp only [splitAcrossAvailable, bind_eq_ok] at h
  obtain ⟨availableBps, hbps, h⟩ := h
  have hsum := sumBps_eq hbps
  split at h
  · cases h
    exact ⟨fun _ _ => rfl, .inl fun _ => rfl⟩
  rename_i hpos
  simp only [bind_eq_ok] at h
  obtain ⟨s, hs, h⟩ := h
  have hstate : SplitState legs available amount availableBps legs.length s :=
    foldlM_range_invariant (P := SplitState legs available amount availableBps)
      (fun k s s' _ hs hround => splitLeg_state hs hround)
      ⟨fun _ _ => rfl, by simp, by simp, fun h => absurd h (by simp)⟩ hs
  have hle : s.allocated ≤ amount := by
    have hbound := hstate.bound
    rw [← hsum] at hbound
    exact Nat.le_of_mul_le_mul_right hbound (Nat.pos_of_ne_zero hpos)
  obtain ⟨hlt, hlast⟩ := hstate.last (by omega)
  have htotal := hstate.allocated
  split at h
  · simp only [bind_eq_ok, add_eq_ok, Except.ok.injEq] at h
    obtain ⟨-, ⟨-, rfl⟩, rfl⟩ := h
    refine ⟨?_, .inr ?_⟩
    · intro i hi
      have hne : i ≠ s.lastAvailable := by
        rintro rfl
        rw [hlast] at hi
        cases hi
      rw [update_of_ne hne]
      exact hstate.unfunded i (.inr hi)
    · have hmoved := sum_add_of_eq_off (s := range legs.length) (f := s.legAmounts)
        (g := update s.legAmounts s.lastAvailable (s.legAmounts s.lastAvailable + (amount - s.allocated)))
        (mem_range.2 hlt) fun i _ hi => update_of_ne hi ..
      rw [update_self] at hmoved
      omega
  cases h
  exact ⟨fun i hi => hstate.unfunded i (.inr hi), .inr (by omega)⟩

end Split

section Quotes

variable {σ : Type} {d : RouterDeployment} {env : RoutedVaults σ} {w : RouterWorld σ} {legs : List Leg} {amount : Nat}

/-- What a round keeps of the state `q` it started from: the amounts, and the availability of the legs it did not
drop. -/
structure RoundState (n : Nat) (q q' : Quotes) : Prop where
  amounts : q'.legAmounts = q.legAmounts
  le : ∀ i, q'.available i = true → q.available i = true
  kept : q'.dropped = false → q'.available = q.available
  lost : q'.dropped = true → ∃ i < n, q.available i = true ∧ q'.available i = false

private theorem quoteLeg_round {q q₁ q₂ : Quotes} {n i : Nat} (hi : i < n) (hq : RoundState n q q₁)
    (h : quoteLeg env w legs q₁ i = .ok q₂) : RoundState n q q₂ := by
  unfold quoteLeg at h
  split at h
  · cases h
    exact hq
  rename_i hfunded
  simp only [not_or, Bool.not_eq_false] at hfunded
  simp only [bind_eq_ok] at h
  obtain ⟨reply, -, h⟩ := h
  cases reply with
  | some shares =>
    cases h
    exact ⟨hq.amounts, hq.le, hq.kept, hq.lost⟩
  | none =>
    cases h
    refine ⟨hq.amounts, ?_, ?_, fun _ => ⟨i, hi, hq.le i hfunded.1, update_self ..⟩⟩
    · intro j hj
      by_cases hji : j = i
      · subst hji
        dsimp only at hj
        rw [update_self] at hj
        cases hj
      dsimp only at hj
      rw [update_of_ne hji] at hj
      exact hq.le j hj
    · intro hkept
      cases hkept

variable {q q' : Quotes} {w' : RouterWorld σ}

theorem quoteRound_spec (h : quoteRound env w legs amount q = .ok q') :
    splitAcrossAvailable legs q.available amount = .ok q'.legAmounts ∧
      (q'.dropped = false → q'.available = q.available) ∧ (∀ i, q'.available i = true → q.available i = true) ∧
      (q'.dropped = true → ∃ i < legs.length, q.available i = true ∧ q'.available i = false) := by
  simp only [quoteRound, bind_eq_ok] at h
  obtain ⟨amounts, hsplit, h⟩ := h
  have hround : RoundState legs.length { q with legAmounts := amounts, dropped := false } q' :=
    foldlM_invariant (P := RoundState legs.length { q with legAmounts := amounts, dropped := false })
      (fun q₁ i q₂ hi hq hleg => quoteLeg_round (List.mem_range.1 hi) hq hleg)
      ⟨rfl, fun _ => id, fun _ => rfl, fun h => by cases h⟩ h
  exact ⟨by rw [hround.amounts]; exact hsplit, hround.kept, hround.le, hround.lost⟩

def availableLegs (n : Nat) (available : Nat → Bool) : Finset Nat :=
  (Finset.range n).filter fun i => available i = true

theorem card_availableLegs_lt (h : quoteRound env w legs amount q = .ok q') (hdropped : q'.dropped = true) :
    (availableLegs legs.length q'.available).card < (availableLegs legs.length q.available).card := by
  obtain ⟨-, -, hle, hlost⟩ := quoteRound_spec h
  obtain ⟨i, hi, hbefore, hafter⟩ := hlost hdropped
  refine card_lt_card ((ssubset_iff_of_subset ?_).2 ⟨i, ?_, ?_⟩)
  · intro j hj
    simp only [availableLegs, mem_filter] at hj ⊢
    exact ⟨hj.1, hle j hj.2⟩
  · simp only [availableLegs, mem_filter, mem_range]
    exact ⟨hi, hbefore⟩
  · simp only [availableLegs, mem_filter, hafter]
    simp

private theorem quoteRounds_settled {fuel : Nat} (hfuel : (availableLegs legs.length q.available).card < fuel)
    (h : quoteRounds env w legs amount fuel q = .ok q') :
    q'.dropped = false ∧ splitAcrossAvailable legs q'.available amount = .ok q'.legAmounts := by
  induction fuel generalizing q with
  | zero => exact absurd hfuel (Nat.not_lt_zero _)
  | succ fuel ih =>
    simp only [quoteRounds, bind_eq_ok] at h
    obtain ⟨q₁, hround, h⟩ := h
    split at h
    · rename_i hdropped
      have hlt := card_availableLegs_lt hround hdropped
      exact ih (by omega) h
    rename_i hdropped
    cases h
    simp only [Bool.not_eq_true] at hdropped
    obtain ⟨hsplit, hkept, -⟩ := quoteRound_spec hround
    exact ⟨hdropped, by rw [hkept hdropped]; exact hsplit⟩

theorem availabilityAndAmounts_settled (h : availabilityAndAmounts d env w legs amount = .ok q) :
    q.dropped = false ∧ splitAcrossAvailable legs q.available amount = .ok q.legAmounts := by
  simp only [availabilityAndAmounts, bind_eq_ok] at h
  obtain ⟨available, -, h⟩ := h
  refine quoteRounds_settled ?_ h
  calc (availableLegs legs.length available).card
      ≤ (range legs.length).card := card_filter_le _ _
    _ < legs.length + 1 := by rw [card_range]; omega

/-- The vaults of `legs` give the same answers to the views the availability pass asks. -/
structure RoutedVaults.SameAnswers (d : RouterDeployment) (env : RoutedVaults σ) (legs : List Leg)
    (w w' : RouterWorld σ) : Prop where
  registry : w'.registry = w.registry
  hasCode : ∀ i < legs.length, env.hasCode w' (vaultAt legs i) = env.hasCode w (vaultAt legs i)
  asset : ∀ i < legs.length, env.asset w' (vaultAt legs i) = env.asset w (vaultAt legs i)
  maxDeposit : ∀ i < legs.length,
    env.maxDeposit w' (vaultAt legs i) d.router = env.maxDeposit w (vaultAt legs i) d.router
  previewDeposit : ∀ i < legs.length, ∀ x,
    env.previewDeposit w' (vaultAt legs i) x = env.previewDeposit w (vaultAt legs i) x

section

variable (h : env.SameAnswers d legs w w')

include h

private theorem isDepositable_congr {i : Nat} (hi : i < legs.length) :
    isDepositable d env w' (vaultAt legs i) = isDepositable d env w (vaultAt legs i) := by
  unfold isDepositable isRouterEligible
  rw [h.registry, h.hasCode i hi, h.asset i hi, h.maxDeposit i hi]

private theorem quoteRounds_congr (fuel : Nat) (q : Quotes) :
    quoteRounds env w' legs amount fuel q = quoteRounds env w legs amount fuel q := by
  have hround : quoteRound env w' legs amount = quoteRound env w legs amount := by
    funext q
    unfold quoteRound
    refine congrArg _ (funext fun amounts => foldlM_congr (fun i hi q => ?_) _)
    unfold quoteLeg
    rw [h.previewDeposit i (List.mem_range.1 hi)]
  induction fuel generalizing q with
  | zero => rfl
  | succ fuel ih =>
    unfold quoteRounds
    rw [hround]
    simp only [ih]

theorem availabilityAndAmounts_congr :
    availabilityAndAmounts d env w' legs amount = availabilityAndAmounts d env w legs amount := by
  have hfirst : (List.range legs.length).foldlM (markDepositable d env w' legs) (fun _ => false) =
      (List.range legs.length).foldlM (markDepositable d env w legs) fun _ => false := by
    refine foldlM_congr (fun i hi available => ?_) _
    unfold markDepositable
    rw [isDepositable_congr h (List.mem_range.1 hi)]
  unfold availabilityAndAmounts
  rw [hfirst]
  simp only [quoteRounds_congr h]

end

end Quotes

end RobotMoney
