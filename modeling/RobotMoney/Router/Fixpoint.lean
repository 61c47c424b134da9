import RobotMoney.Router.Deposits
import RobotMoney.Router.Split

/-!
# The availability pass as a fixpoint

The loop of `_availabilityAndAmounts` splits, quotes, and starts over when a quote failed.  Every round but the last
drops a leg, so there are at most as many rounds as legs and one more.  What the loop carries from round to round are
the legs that are left and the estimated shares; the shares of a leg that dropped out are reset, and those of a leg that
is left are overwritten in every later round, because it stays funded.
-/

namespace RobotMoney

open Evm Function List

section

variable {σ : Type} {d : RouterDeployment} {env : RoutedVaults σ} {w : RouterWorld σ} {legs : List Leg} {amount : Nat}

/-- After the quotes of the legs below `k`, in a round that began with `q`: a leg that was asked has its quote, or
dropped out because the quote reverted; the others are as they were. -/
structure Quoted (env : RoutedVaults σ) (w : RouterWorld σ) (legs : List Leg) (q : Quotes) (k : Nat) (q' : Quotes) :
    Prop where
  amounts : q'.legAmounts = q.legAmounts
  skipped : ∀ i, k ≤ i ∨ q.available i = false ∨ q.legAmounts i = 0 →
    q'.available i = q.available i ∧ q'.estShares i = q.estShares i
  asked : ∀ i < k, q.available i = true → q.legAmounts i ≠ 0 →
    (q'.available i = true ∧ env.previewDeposit w (vaultAt legs i) (q.legAmounts i) = .returned (q'.estShares i)) ∨
      (q'.available i = false ∧ q'.estShares i = 0 ∧
        env.previewDeposit w (vaultAt legs i) (q.legAmounts i) = .reverted)

private theorem caught_eq_none {ε α : Type} {e : ε} {r : Reply α} : r.caught e = .ok none ↔ r = .reverted := by
  cases r <;> simp [Reply.caught]

private theorem quoteLeg_quoted {q q₁ q₂ : Quotes} {k : Nat} (hq : Quoted env w legs q k q₁)
    (h : quoteLeg env w legs q₁ k = .ok q₂) : Quoted env w legs q (k + 1) q₂ := by
  have hk := hq.skipped k (.inl (Nat.le_refl k))
  have hsplit : ∀ i, i < k + 1 → i < k ∨ i = k := fun i hi => by omega
  unfold quoteLeg at h
  split at h
  · rename_i hskip
    cases h
    rw [hk.1, hq.amounts] at hskip
    refine ⟨hq.amounts, fun i hi => hq.skipped i (hi.imp (by omega) id), fun i hi hav hfunded => ?_⟩
    rcases hsplit i hi with hi | rfl
    · exact hq.asked i hi hav hfunded
    rcases hskip with hskip | hskip
    · rw [hav] at hskip
      cases hskip
    · exact absurd hskip hfunded
  rename_i hfunded
  simp only [not_or, Bool.not_eq_false, hk.1, hq.amounts] at hfunded
  simp only [bind_eq_ok] at h
  obtain ⟨reply, hreply, h⟩ := h
  rw [hq.amounts] at hreply
  have hne : ∀ i, k + 1 ≤ i ∨ q.available i = false ∨ q.legAmounts i = 0 → i ≠ k := by
    rintro i hi rfl
    rcases hi with hi | hi | hi
    · omega
    · rw [hfunded.1] at hi
      cases hi
    · exact hfunded.2 hi
  cases reply with
  | some shares =>
    cases h
    refine ⟨hq.amounts, fun i hi => ?_, fun i hi hav hfun => ?_⟩
    · simp only [update_of_ne (hne i hi)]
      exact hq.skipped i (hi.imp (by omega) id)
    · by_cases hik : i = k
      · subst hik
        simp only [update_self]
        exact .inl ⟨by rw [hk.1, hav], Reply.caught_eq_some.1 hreply⟩
      simp only [update_of_ne hik]
      exact hq.asked i (by omega) hav hfun
  | none =>
    cases h
    refine ⟨hq.amounts, fun i hi => ?_, fun i hi hav hfun => ?_⟩
    · simp only [update_of_ne (hne i hi)]
      exact hq.skipped i (hi.imp (by omega) id)
    · by_cases hik : i = k
      · subst hik
        exact .inr ⟨update_self .., update_self .., caught_eq_none.1 hreply⟩
      simp only [update_of_ne hik]
      exact hq.asked i (by omega) hav hfun

variable {q q' q₀ : Quotes}

private theorem quoteRound_quoted (h : quoteRound env w legs amount q = .ok q') :
    SplitInto legs q.available amount q'.legAmounts ∧
      Quoted env w legs { q with legAmounts := q'.legAmounts, dropped := false } legs.length q' := by
  simp only [quoteRound, bind_eq_ok] at h
  obtain ⟨amounts, hsplit, h⟩ := h
  have hquoted : Quoted env w legs { q with legAmounts := amounts, dropped := false } legs.length q' :=
    foldlM_range_invariant (P := Quoted env w legs { q with legAmounts := amounts, dropped := false })
      (fun k q₁ q₂ _ hq hround => quoteLeg_quoted hq hround)
      ⟨rfl, fun _ _ => ⟨rfl, rfl⟩, fun i hi => absurd hi (Nat.not_lt_zero i)⟩ h
  obtain rfl : q'.legAmounts = amounts := hquoted.amounts
  exact ⟨splitAcrossAvailable_splitInto hsplit, hquoted⟩

/-- The loop is at the start of a round with `q`, having begun with `q₀`. -/
inductive AtRound (env : RoutedVaults σ) (w : RouterWorld σ) (legs : List Leg) (amount : Nat) (q₀ : Quotes) :
    Quotes → Prop where
  | first : AtRound env w legs amount q₀ q₀
  | next {q q' : Quotes} (h : AtRound env w legs amount q₀ q) (hround : quoteRound env w legs amount q = .ok q')
      (hdropped : q'.dropped = true) : AtRound env w legs amount q₀ q'

/-- The loop, begun with `q`, ends with `q'` after `rounds` rounds. -/
inductive LoopEnds (env : RoutedVaults σ) (w : RouterWorld σ) (legs : List Leg) (amount : Nat) :
    (rounds : Nat) → Quotes → Quotes → Prop where
  | last {q q' : Quotes} (hround : quoteRound env w legs amount q = .ok q') (hdropped : q'.dropped = false) :
      LoopEnds env w legs amount 1 q q'
  | more {rounds : Nat} {q q₁ q' : Quotes} (hround : quoteRound env w legs amount q = .ok q₁)
      (hdropped : q₁.dropped = true) (h : LoopEnds env w legs amount rounds q₁ q') :
      LoopEnds env w legs amount (rounds + 1) q q'

private theorem loopEnds_of_quoteRounds {fuel : Nat} (hfuel : (availableLegs legs.length q.available).card < fuel)
    (h : quoteRounds env w legs amount fuel q = .ok q') : ∃ rounds ≤ fuel, LoopEnds env w legs amount rounds q q' := by
  induction fuel generalizing q with
  | zero => exact absurd hfuel (Nat.not_lt_zero _)
  | succ fuel ih =>
    simp only [quoteRounds, bind_eq_ok] at h
    obtain ⟨q₁, hround, h⟩ := h
    split at h
    · rename_i hdropped
      have hlt := card_availableLegs_lt hround hdropped
      obtain ⟨rounds, hle, hends⟩ := ih (by omega) h
      exact ⟨rounds + 1, by omega, .more hround hdropped hends⟩
    rename_i hdropped
    cases h
    exact ⟨1, by omega, .last hround (by simpa using hdropped)⟩

private theorem LoopEnds.last_round {rounds : Nat} (h : LoopEnds env w legs amount rounds q q')
    (hat : AtRound env w legs amount q₀ q) :
    ∃ q₁, AtRound env w legs amount q₀ q₁ ∧ quoteRound env w legs amount q₁ = .ok q' ∧ q'.dropped = false := by
  induction h with
  | last hround hdropped => exact ⟨_, hat, hround, hdropped⟩
  | more hround hdropped _ ih => exact ih (.next hat hround hdropped)

/-- Why leg `i` is not available any more: its vault did not take deposits, or its quote reverted at the amount of some
round. -/
def Excluded (d : RouterDeployment) (env : RoutedVaults σ) (w : RouterWorld σ) (legs : List Leg) (amount : Nat)
    (q₀ : Quotes) (i : Nat) : Prop :=
  isDepositable d env w (vaultAt legs i) = .ok false ∨
    ∃ q amounts, AtRound env w legs amount q₀ q ∧ q.available i = true ∧
      splitAcrossAvailable legs q.available amount = .ok amounts ∧ amounts i ≠ 0 ∧
      env.previewDeposit w (vaultAt legs i) (amounts i) = .reverted

/-- At the start of a round: a leg with estimated shares is available and was funded in a split over a set of legs that
contains the present one, and every leg that is missing has a reason. -/
structure RoundInv (d : RouterDeployment) (env : RoutedVaults σ) (w : RouterWorld σ) (legs : List Leg) (amount : Nat)
    (q₀ q : Quotes) : Prop where
  funded : ∀ i, q.estShares i ≠ 0 → q.available i = true ∧ ∃ available amounts,
    (∀ j, q.available j = true → available j = true) ∧ SplitInto legs available amount amounts ∧ amounts i ≠ 0
  excluded : ∀ i < legs.length, q.available i = false → Excluded d env w legs amount q₀ i

private theorem quoteRound_inv (hq : RoundInv d env w legs amount q₀ q) (hat : AtRound env w legs amount q₀ q)
    (h : quoteRound env w legs amount q = .ok q') : RoundInv d env w legs amount q₀ q' := by
  obtain ⟨hsplit, hquoted⟩ := quoteRound_quoted h
  obtain ⟨hreturns, -, hle, -⟩ := quoteRound_spec h
  refine ⟨fun i hne => ?_, fun i hi hout => ?_⟩
  · by_cases hasked : i < legs.length ∧ q.available i = true ∧ q'.legAmounts i ≠ 0
    · rcases hquoted.asked i hasked.1 hasked.2.1 hasked.2.2 with ⟨hav, -⟩ | ⟨-, hzero, -⟩
      · exact ⟨hav, q.available, q'.legAmounts, hle, hsplit, hasked.2.2⟩
      · exact absurd hzero hne
    have hskip : legs.length ≤ i ∨ q.available i = false ∨ q'.legAmounts i = 0 := by
      by_contra hcon
      simp only [not_or, not_le, Bool.not_eq_false] at hcon
      exact hasked ⟨hcon.1, hcon.2.1, hcon.2.2⟩
    obtain ⟨hsame, hshares⟩ := hquoted.skipped i hskip
    obtain ⟨hav, available, amounts, hsub, hold, hfunded⟩ := hq.funded i (hshares ▸ hne)
    exact ⟨by rw [hsame]; exact hav, available, amounts, fun j hj => hsub j (hle j hj), hold, hfunded⟩
  · by_cases hasked : q.available i = true ∧ q'.legAmounts i ≠ 0
    · rcases hquoted.asked i hi hasked.1 hasked.2 with ⟨hav, -⟩ | ⟨-, -, hreverted⟩
      · rw [hav] at hout
        cases hout
      · exact .inr ⟨q, q'.legAmounts, hat, hasked.1, hreturns, hasked.2, hreverted⟩
    have hskip : legs.length ≤ i ∨ q.available i = false ∨ q'.legAmounts i = 0 := by
      by_contra hcon
      simp only [not_or, Bool.not_eq_false] at hcon
      exact hasked hcon.2
    obtain ⟨hsame, -⟩ := hquoted.skipped i hskip
    exact hq.excluded i hi (by rw [← hout, hsame])

private theorem AtRound.inv (h : AtRound env w legs amount q₀ q) (h₀ : RoundInv d env w legs amount q₀ q₀) :
    RoundInv d env w legs amount q₀ q := by
  induction h with
  | first => exact h₀
  | next hat hround _ ih => exact quoteRound_inv ih hat hround

private theorem availabilityAndAmounts_eq_ok : availabilityAndAmounts d env w legs amount = .ok q ↔
      ∃ available, (range legs.length).foldlM (markDepositable d env w legs) (fun _ => false) = .ok available ∧
        quoteRounds env w legs amount (legs.length + 1) ⟨available, fun _ => 0, fun _ => 0, true⟩ = .ok q := by
  simp only [availabilityAndAmounts, bind_eq_ok]

private theorem markDepositable_spec {available : Nat → Bool}
    (h : (range legs.length).foldlM (markDepositable d env w legs) (fun _ => false) = .ok available) :
    ∀ i < legs.length, isDepositable d env w (vaultAt legs i) = .ok (available i) := by
  refine foldlM_range_invariant
    (P := fun k available => ∀ i < k, isDepositable d env w (vaultAt legs i) = .ok (available i)) ?_
    (fun i hi => absurd hi (Nat.not_lt_zero i)) h
  intro k available available' _ hmarked hround i hi
  simp only [markDepositable, bind_eq_ok, Except.ok.injEq] at hround
  obtain ⟨depositable, hdep, rfl⟩ := hround
  by_cases hik : i = k
  · subst hik
    rw [update_self]
    exact hdep
  rw [update_of_ne hik]
  exact hmarked i (by omega)

private theorem roundInv_first {available : Nat → Bool}
    (h : (range legs.length).foldlM (markDepositable d env w legs) (fun _ => false) = .ok available) :
    RoundInv d env w legs amount ⟨available, fun _ => 0, fun _ => 0, true⟩ ⟨available, fun _ => 0, fun _ =>
      0, true⟩ where
  funded := fun i hne => absurd rfl hne
  excluded := fun i hi hout => .inl (by
    have hmarked := markDepositable_spec h i hi
    dsimp only at hout
    rw [hmarked, hout])

/-- The vaults of the legs answer the views of the router in the form it expects, or revert. -/
structure RoutedVaults.Answer (d : RouterDeployment) (env : RoutedVaults σ) (w : RouterWorld σ) (legs : List Leg) :
    Prop where
  asset : ∀ i < legs.length, env.asset w (vaultAt legs i) ≠ .malformed
  maxDeposit : ∀ i < legs.length, env.maxDeposit w (vaultAt legs i) d.router ≠ .malformed
  previewDeposit : ∀ i < legs.length, ∀ x, env.previewDeposit w (vaultAt legs i) x ≠ .malformed

private theorem caught_returns {ε α : Type} (e : ε) {r : Reply α} (h : r ≠ .malformed) : ∃ o, r.caught e = .ok o := by
  cases r with
  | returned a => exact ⟨some a, rfl⟩
  | reverted => exact ⟨none, rfl⟩
  | malformed => exact absurd rfl h

private theorem isDepositable_returns (h : env.Answer d w legs) {i : Nat} (hi : i < legs.length) :
    ∃ b, isDepositable d env w (vaultAt legs i) = .ok b := by
  have heligible : ∃ b, isRouterEligible d env w (vaultAt legs i) = .ok b := by
    obtain ⟨o, ho⟩ := caught_returns (RouterError.callFailed (vaultAt legs i)) (h.asset i hi)
    unfold isRouterEligible
    split
    · exact ⟨_, rfl⟩
    split
    · exact ⟨_, rfl⟩
    rw [ho]
    cases o <;> exact ⟨_, rfl⟩
  obtain ⟨eligible, heligible⟩ := heligible
  obtain ⟨o, ho⟩ := caught_returns (RouterError.callFailed (vaultAt legs i)) (h.maxDeposit i hi)
  unfold isDepositable
  split
  · exact ⟨_, rfl⟩
  split
  · exact ⟨_, rfl⟩
  rw [heligible, ok_bind]
  cases eligible with
  | false => exact ⟨false, rfl⟩
  | true =>
    simp only [if_true, ho, ok_bind]
    cases o <;> exact ⟨_, rfl⟩

private theorem quoteRounds_returns (h : env.Answer d w legs) (hfits : Fits legs amount) (hamount : amount < wordSize)
    (fuel : Nat) (q : Quotes) : ∃ q', quoteRounds env w legs amount fuel q = .ok q' := by
  have hleg : ∀ q k, k < legs.length → ∃ q', quoteLeg env w legs q k = .ok q' := by
    intro q k hk
    obtain ⟨o, ho⟩ := caught_returns (RouterError.callFailed (vaultAt legs k)) (h.previewDeposit k hk (q.legAmounts k))
    unfold quoteLeg
    split
    · exact ⟨_, rfl⟩
    rw [ho]
    cases o <;> exact ⟨_, rfl⟩
  induction fuel generalizing q with
  | zero => exact ⟨q, rfl⟩
  | succ fuel ih =>
    obtain ⟨amounts, hsplit⟩ : ∃ amounts, splitAcrossAvailable legs q.available amount = .ok amounts :=
      splitAcrossAvailable_returns hfits hamount
    obtain ⟨q₁, hround, -⟩ := foldlM_range_returns (f := quoteLeg env w legs) (n := legs.length) (P := fun _ _ => True)
      (fun k q hk _ => by
        obtain ⟨q', hq'⟩ := hleg q k hk
        exact ⟨q', hq', trivial⟩)
      (s := { q with legAmounts := amounts, dropped := false }) trivial
    have hround' : quoteRound env w legs amount q = .ok q₁ := by
      rw [quoteRound, hsplit, ok_bind, hround]
    simp only [quoteRounds, hround', ok_bind]
    split
    · exact ih q₁
    · exact ⟨q₁, rfl⟩

private theorem availabilityAndAmounts_returns (h : env.Answer d w legs) (hfits : Fits legs amount)
    (hamount : amount < wordSize) : ∃ q, availabilityAndAmounts d env w legs amount = .ok q := by
  obtain ⟨available, hmarked, -⟩ := foldlM_range_returns (f := markDepositable d env w legs) (n := legs.length)
    (P := fun _ _ => True)
    (fun k available hk _ => by
      obtain ⟨b, hb⟩ := isDepositable_returns h hk
      exact ⟨update available k b, by rw [markDepositable, hb, ok_bind], trivial⟩)
    (s := fun _ => false) trivial
  obtain ⟨q, hq⟩ := quoteRounds_returns h hfits hamount (legs.length + 1) ⟨available, fun _ => 0, fun _ => 0, true⟩
  exact ⟨q, availabilityAndAmounts_eq_ok.2 ⟨available, hmarked, hq⟩⟩

/-- What `_availabilityAndAmounts` returns, when its loop began with `q₀`. -/
structure SplitFixpoint (d : RouterDeployment) (env : RoutedVaults σ) (w : RouterWorld σ) (legs : List Leg)
    (amount : Nat) (q₀ q : Quotes) : Prop where
  total : (∃ i < legs.length, q.available i = true ∧ bpsAt legs i ≠ 0) →
    ∑ i ∈ Finset.range legs.length, q.legAmounts i = amount
  nothing : (¬ ∃ i < legs.length, q.available i = true ∧ bpsAt legs i ≠ 0) → ∀ i, q.legAmounts i = 0
  unfunded : ∀ i, q.available i = false ∨ bpsAt legs i = 0 → q.legAmounts i = 0
  split : SplitInto legs q.available amount q.legAmounts
  remainder : 0 < availableBps legs q.available →
    amount - sharedOut legs q.available amount < (weightedLegs legs q.available).card
  quoted : ∀ i < legs.length, q.available i = true → q.legAmounts i ≠ 0 →
    env.previewDeposit w (vaultAt legs i) (q.legAmounts i) = .returned (q.estShares i)
  unquoted : ∀ i, q.available i = false ∨ q.legAmounts i = 0 → q.estShares i = 0
  unavailable : ∀ i < legs.length, q.available i = false → Excluded d env w legs amount q₀ i

/-- The loop ends in a fixpoint of the split and the quotes. -/
theorem LoopEnds.fixpoint {rounds : Nat} (h : LoopEnds env w legs amount rounds q₀ q)
    (h₀ : RoundInv d env w legs amount q₀ q₀) : SplitFixpoint d env w legs amount q₀ q := by
  obtain ⟨q₁, hat, hround, hdropped⟩ := h.last_round .first
  obtain ⟨hsplit, hquoted⟩ := quoteRound_quoted hround
  obtain ⟨-, hkept, -⟩ := quoteRound_spec hround
  have hsame : q.available = q₁.available := hkept hdropped
  have hinv := hat.inv h₀
  have hinv' := quoteRound_inv hinv hat hround
  have hweight : ∀ i, availableWeight legs q₁.available i ≠ 0 ↔ q.available i = true ∧ bpsAt legs i ≠ 0 := by
    intro i
    rw [availableWeight, ← hsame]
    by_cases hav : q.available i = true <;> simp [hav]
  have hzero : ∀ i, ¬ (q.available i = true ∧ bpsAt legs i ≠ 0) → q.legAmounts i = 0 := fun i hi =>
    hsplit.eq_zero (not_not.1 fun hne => hi ((hweight i).1 hne))
  refine ⟨?_, ?_, ?_, hsame ▸ hsplit, remainder_lt, ?_, ?_, hinv'.excluded⟩
  · rintro ⟨i, hi, hav⟩
    exact hsplit.sum_eq hi ((hweight i).2 hav)
  · intro hnone i
    refine hzero i fun hav => ?_
    by_cases hi : i < legs.length
    · exact hnone ⟨i, hi, hav⟩
    · exact hav.2 (by simp [bpsAt, getElem?_eq_none (not_lt.1 hi)])
  · intro i hi
    refine hzero i fun hav => ?_
    rcases hi with hout | hbps
    · rw [hav.1] at hout
      cases hout
    · exact hav.2 hbps
  · intro i hi hav hfunded
    rcases hquoted.asked i hi (hsame ▸ hav) hfunded with ⟨-, hquote⟩ | ⟨hout, -⟩
    · exact hquote
    rw [hav] at hout
    cases hout
  · intro i hi
    by_contra hne
    -- the leg was funded in an earlier round, so it is funded now
    obtain ⟨hav, available, amounts, hsub, hold, hfunded⟩ := hinv'.funded i hne
    rw [hsame] at hav hsub
    have hstill := hold.funded_mono hsplit hsub hav hfunded
    rcases hi with hout | hzero
    · rw [hsame, hav] at hout
      cases hout
    · exact hstill hzero

end

/-- `_availabilityAndAmounts` returns when no product or sum overflows and the vaults' answers decode.  Whenever it
returns, its loop made at most one round more than there are legs, and ended in a fixpoint. -/
theorem availability_pass_fixpoint {σ : Type} (d : RouterDeployment) (env : RoutedVaults σ) (w : RouterWorld σ)
    (legs : List Leg) (amount : Fin wordSize) :
    (env.Answer d w legs → Fits legs amount → ∃ q, availabilityAndAmounts d env w legs amount = .ok q) ∧
      ∀ q, availabilityAndAmounts d env w legs amount = .ok q →
        ∃ q₀ rounds, (∀ i < legs.length, isDepositable d env w (vaultAt legs i) = .ok (q₀.available i)) ∧
          rounds ≤ legs.length + 1 ∧ LoopEnds env w legs amount rounds q₀ q ∧
          SplitFixpoint d env w legs amount q₀ q := by
  refine ⟨fun hanswer hfits => availabilityAndAmounts_returns hanswer hfits amount.isLt, ?_⟩
  intro q hq
  obtain ⟨available, hmarked, hrounds⟩ := availabilityAndAmounts_eq_ok.1 hq
  have hfuel : (availableLegs legs.length available).card < legs.length + 1 := by
    calc (availableLegs legs.length available).card
        ≤ (Finset.range legs.length).card := Finset.card_filter_le _ _
      _ < legs.length + 1 := by rw [Finset.card_range]; omega
  obtain ⟨rounds, hle, hends⟩ := loopEnds_of_quoteRounds hfuel hrounds
  exact ⟨_, rounds, markDepositable_spec hmarked, hle, hends, hends.fixpoint (roundInv_first hmarked)⟩

/-- Three legs, of which the second does not quote: the other two share the amount. -/
theorem availability_pass_fixpoint_dropped_leg :
    let legs := RouterState.sample.router.effectiveWeights
    ∃ q q₀ rounds, availabilityAndAmounts ⟨8, 3⟩ .sample RouterState.sample.world legs 1001 = .ok q ∧
      (range 3).map q.legAmounts = [625, 0, 376] ∧ (range 3).map q.estShares = [625, 0, 376] ∧ rounds ≤ 4 ∧
      SplitFixpoint ⟨8, 3⟩ .sample RouterState.sample.world legs 1001 q₀ q := by
  intro legs
  have hanswer : RoutedVaults.sample.Answer ⟨8, 3⟩ RouterState.sample.world legs := by
    refine ⟨fun i _ => nofun, fun i _ => nofun, fun i _ x => ?_⟩
    simp only [RoutedVaults.sample]
    split <;> exact nofun
  have hfits : Fits legs 1001 := ⟨by decide +kernel, by decide +kernel⟩
  have hword : (1001 : Nat) < wordSize := by decide +kernel
  obtain ⟨q, hq⟩ := (availability_pass_fixpoint ⟨8, 3⟩ .sample RouterState.sample.world legs ⟨1001, hword⟩).1
    hanswer hfits
  obtain ⟨q₀, rounds, -, hle, -, hfix⟩ :=
    (availability_pass_fixpoint ⟨8, 3⟩ .sample RouterState.sample.world legs ⟨1001, hword⟩).2 q hq
  have hrun : (availabilityAndAmounts ⟨8, 3⟩ .sample RouterState.sample.world legs 1001).map
      (fun q => ((range 3).map q.legAmounts, (range 3).map q.estShares)) =
        .ok ([625, 0, 376], [625, 0, 376]) := by decide +kernel
  dsimp only at hq
  rw [hq] at hrun
  obtain ⟨hamounts, hshares⟩ := Prod.mk.inj (Except.ok.inj hrun)
  exact ⟨q, q₀, rounds, hq, hamounts, hshares, hle, hfix⟩

/-- An amount whose product with a weight leaves a machine word reverts the pass, and a leg without weight is reported
with no shares, whatever its vault quotes for nothing. -/
theorem availability_pass_overflows :
    let generous : RoutedVaults Unit := { RoutedVaults.sample with previewDeposit := fun _ _ x => .returned (x + 1) }
    let w := RouterState.sample.world
    availabilityAndAmounts ⟨8, 3⟩ .sample w [⟨40, 10000⟩] (wordSize - 1) = .error (.panic .arithmetic) ∧
      ∃ q, availabilityAndAmounts ⟨8, 3⟩ generous w [⟨40, 10000⟩, ⟨41, 0⟩] 1000 = .ok q ∧ q.available 1 = true ∧
        q.legAmounts 1 = 0 ∧ generous.previewDeposit w (vaultAt [⟨40, 10000⟩, ⟨41, 0⟩] 1) (q.legAmounts 1) =
          .returned 1 ∧
        q.estShares 1 = 0 := by
  intro generous w
  refine ⟨rfl, _, rfl, rfl, rfl, rfl, rfl⟩

end RobotMoney
