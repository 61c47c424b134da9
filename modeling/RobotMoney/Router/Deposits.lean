import RobotMoney.Router.Quotes

/-!
# Preview and execution agree

`depositTo` runs the pass that `previewDeposit` reports and then deposits into the funded legs in order.  Nothing it
finds on the way makes it fund another leg or another amount: a leg whose answers have changed makes the whole deposit
revert, and so does a floor on a leg that is skipped.  So what is funded is what the preview said
(`deposit_agrees_with_preview`).
-/

namespace RobotMoney

open Evm List Function Token Except

def Quotes.funded (q : Quotes) (i : Nat) : Bool := q.available i && q.legAmounts i != 0

def LegPreview.funded (l : LegPreview) : Bool := !l.unavailable && l.legAmount != 0

theorem Quotes.not_funded {q : Quotes} {i : Nat} : q.funded i = false ↔ q.available i = false ∨ q.legAmounts i = 0 := by
  unfold Quotes.funded
  cases q.available i <;> simp

section Execution

variable {σ : Type} {d : RouterDeployment} {env : RoutedVaults σ} {r : PortfolioRouter} {w w' : RouterWorld σ}
  {receiver : Address} {legs : List Leg} {q : Quotes} {minSharesPerLeg : List Nat}

/-- The event of leg `i`. -/
def depositEvent (receiver : Address) (legs : List Leg) (q : Quotes) (shares : Nat → Nat) (i : Nat) : RouterDeposit :=
  ⟨receiver, vaultAt legs i, q.legAmounts i, shares i, bpsAt legs i⟩

/-- After the legs below `k`: the funded ones are in the log, and every floor is met. -/
structure ExecState (receiver : Address) (legs : List Leg) (q : Quotes) (minSharesPerLeg : List Nat) (k : Nat)
    (x : Execution σ) : Prop where
  log : x.log = ((List.range k).filter q.funded).map (depositEvent receiver legs q x.sharesPerLeg)
  floors : ∀ i < k, ¬ FloorAbove minSharesPerLeg i (x.sharesPerLeg i)
  toCome : ∀ i, k ≤ i → x.sharesPerLeg i = 0

/-- Step lemma for the loop of `_executeLegs`. -/
theorem executeNext_state {k : Nat} {x x' : Execution σ} (hx : ExecState receiver legs q minSharesPerLeg k x)
    (h : executeNext d env r receiver legs q minSharesPerLeg x k = .ok x') :
    ExecState receiver legs q minSharesPerLeg (k + 1) x' := by
  unfold executeNext at h
  split at h
  · rename_i hskipped
    have hfunded : q.funded k = false := Quotes.not_funded.2 hskipped
    simp only [bind_eq_ok, revertIf_eq_ok, ok.injEq] at h
    obtain ⟨-, hfloor, rfl⟩ := h
    refine ⟨?_, ?_, fun i hi => hx.toCome i (by omega)⟩
    · rw [range_succ, filter_append]
      simp only [filter_cons, filter_nil, hfunded, Bool.false_eq_true, if_false, append_nil]
      exact hx.log
    · intro i hi
      rcases Nat.lt_succ_iff_lt_or_eq.1 hi with hlt | rfl
      · exact hx.floors i hlt
      rw [hx.toCome i (Nat.le_refl i)]
      exact hfloor
  rename_i hskipped
  have hfunded : q.funded k = true := by
    rw [← Bool.not_eq_false]
    exact fun hf => hskipped (Quotes.not_funded.1 hf)
  simp only [bind_eq_ok, revertIf_eq_ok, ok.injEq] at h
  obtain ⟨⟨shares, world⟩, -, -, hfloor, rfl⟩ := h
  refine ⟨?_, ?_, ?_⟩
  · -- the events of the legs before `k` do not see the shares of leg `k`
    have hbefore : ((range k).filter q.funded).map (depositEvent receiver legs q x.sharesPerLeg) =
        ((range k).filter q.funded).map
          (depositEvent receiver legs q (update x.sharesPerLeg k shares)) := by
      refine map_congr_left fun i hi => ?_
      have hlt : i < k := mem_range.1 (mem_filter.1 hi).1
      unfold depositEvent
      rw [update_of_ne (by omega)]
    dsimp only
    rw [range_succ, filter_append, map_append, ← hbefore, ← hx.log]
    simp [hfunded, depositEvent]
  · intro i hi
    dsimp only
    rcases Nat.lt_succ_iff_lt_or_eq.1 hi with hlt | rfl
    · rw [update_of_ne (by omega)]
      exact hx.floors i hlt
    rw [update_self]
    exact hfloor
  · intro i hi
    dsimp only
    rw [update_of_ne (by omega)]
    exact hx.toCome i (by omega)

variable {x : Execution σ}

theorem executeLegs_spec {before : Nat} (h : executeLegs d env r w receiver legs q minSharesPerLeg before = .ok x) :
    ExecState receiver legs q minSharesPerLeg legs.length x ∧ x.world.usdc.balance d.router = before := by
  simp only [executeLegs, bind_eq_ok, revertIf_eq_ok, ok.injEq, ne_eq, not_not] at h
  obtain ⟨x, hloop, -, hcustody, rfl⟩ := h
  refine ⟨?_, hcustody⟩
  exact foldlM_range_invariant (P := ExecState receiver legs q minSharesPerLeg)
    (fun k x x' _ hx hround => executeNext_state hx hround)
    ⟨rfl, fun i hi => absurd hi (by omega), fun _ _ => rfl⟩ hloop

def RoutedVaults.NeverPays (d : RouterDeployment) (env : RoutedVaults σ) : Prop :=
  ∀ w vault amount receiver eff, env.deposit w vault amount receiver = .returned eff →
    ∀ c ∈ eff.calls, c.pays d.router = false

private theorem executeLeg_exposure (hpays : env.NeverPays d) {vault : Address} {amount shares : Nat}
    (h : executeLeg d env r w receiver vault amount = .ok (shares, w')) :
    w.usdc.balance d.router + w'.usdc.exposure d.router ≤
      w'.usdc.balance d.router + w.usdc.exposure d.router + amount := by
  simp only [executeLeg, bind_eq_ok] at h
  obtain ⟨-, -, -, -, -, -, -, -, reply, hreply, h⟩ := h
  cases reply with
  | none => cases h
  | some eff =>
    simp only [ok.injEq, Prod.mk.injEq] at h
    obtain ⟨-, rfl⟩ := h
    simp only [Reply.caught_eq_some] at hreply
    have happrove := exposure_approve w.usdc d.router vault amount
    have hrun := run_exposure (w.usdc.approve d.router vault amount) (hpays _ _ _ _ _ hreply)
    rw [approve_balance] at hrun
    unfold RouterWorld.apply
    dsimp only
    omega

private theorem executeLegs_exposure (hpays : env.NeverPays d) {before : Nat}
    (h : executeLegs d env r w receiver legs q minSharesPerLeg before = .ok x) :
    w.usdc.balance d.router + x.world.usdc.exposure d.router ≤
      x.world.usdc.balance d.router + w.usdc.exposure d.router + ∑ i ∈ Finset.range legs.length, q.legAmounts i := by
  simp only [executeLegs, bind_eq_ok, ok.injEq] at h
  obtain ⟨x, hloop, -, -, rfl⟩ := h
  refine foldlM_range_invariant (P := fun k (x : Execution σ) =>
    w.usdc.balance d.router + x.world.usdc.exposure d.router ≤
      x.world.usdc.balance d.router + w.usdc.exposure d.router + ∑ i ∈ Finset.range k, q.legAmounts i) ?_
    (by simp) hloop
  rintro k x x' - hx hround
  rw [Finset.sum_range_succ]
  unfold executeNext at hround
  split at hround
  · simp only [bind_eq_ok, ok.injEq] at hround
    obtain ⟨-, -, rfl⟩ := hround
    omega
  simp only [bind_eq_ok, ok.injEq] at hround
  obtain ⟨⟨shares, world⟩, hleg, -, -, rfl⟩ := hround
  have := executeLeg_exposure hpays hleg
  dsimp only
  omega

end Execution

private theorem sum_filter_range {p : Nat → Bool} {f : Nat → Nat} (hf : ∀ i, p i = false → f i = 0) (n : Nat) :
    (((range n).filter p).map f).sum = ∑ i ∈ Finset.range n, f i := by
  induction n with
  | zero => rfl
  | succ n ih =>
    rw [range_succ, filter_append, map_append, sum_append, ih, Finset.sum_range_succ]
    cases hp : p n with
    | true => simp [hp]
    | false => simp [hp, hf n hp]

section Deposit

variable {σ : Type} {d : RouterDeployment} {env : RoutedVaults σ} {r : PortfolioRouter} {w w' : RouterWorld σ}
  {caller receiver : Address} {amount : Nat} {minSharesPerLeg sharesPerLeg : List Nat} {log : List RouterDeposit}

private theorem pullFromCaller_eq_ok : pullFromCaller d w caller amount = .ok w' ↔
      ∃ usdc, w.usdc.transferFrom d.router caller d.router amount = .ok usdc ∧ w' = { w with usdc := usdc } := by
  unfold pullFromCaller
  cases w.usdc.transferFrom d.router caller d.router amount <;> simp [Except.mapError, eq_comm]

theorem depositTo_spec (h : r.depositTo d env w caller receiver amount minSharesPerLeg = .ok (sharesPerLeg, w', log)) :
    ∃ w₁ q x, pullFromCaller d w caller amount = .ok w₁ ∧
      availabilityAndAmounts d env w₁ r.effectiveWeights amount = .ok q ∧ (∃ i, q.funded i = true) ∧
      (minSharesPerLeg ≠ [] → minSharesPerLeg.length = r.effectiveWeights.length) ∧
      executeLegs d env r w₁ receiver r.effectiveWeights q minSharesPerLeg (w.usdc.balance d.router) = .ok x ∧
      sharesPerLeg = (range r.effectiveWeights.length).map x.sharesPerLeg ∧ w' = x.world ∧ log = x.log := by
  simp only [PortfolioRouter.depositTo, bind_eq_ok, revertIf_eq_ok, ok.injEq, Prod.mk.injEq] at h
  obtain ⟨-, -, -, -, w₁, hpull, -, hlength, q, hq, -, -, -, hfunded, x, hx, rfl, rfl, rfl⟩ := h
  refine ⟨w₁, q, x, hpull, hq, ?_, ?_, hx, rfl, rfl, rfl⟩
  · simp only [anyLeg, Bool.not_eq_false, any_eq_true] at hfunded
    obtain ⟨i, -, hi⟩ := hfunded
    exact ⟨i, hi⟩
  · intro hne
    by_contra hdiff
    exact hlength ⟨fun hzero => hne (length_eq_zero_iff.1 hzero), hdiff⟩

variable {legs : List Leg} {q : Quotes}

theorem sum_legAmounts (hq : availabilityAndAmounts d env w legs amount = .ok q) (hfunded : ∃ i, q.funded i = true) :
    (∀ i, q.funded i = false → q.legAmounts i = 0) ∧ ∑ i ∈ Finset.range legs.length, q.legAmounts i = amount := by
  obtain ⟨hunavailable, hsum⟩ := splitAcrossAvailable_spec (availabilityAndAmounts_settled hq).2
  refine ⟨?_, ?_⟩
  · intro i hi
    rcases Quotes.not_funded.1 hi with hi | hi
    · exact hunavailable i hi
    · exact hi
  · obtain ⟨i, hi⟩ := hfunded
    rcases hsum with hzero | hsum
    · simp [Quotes.funded, hzero i] at hi
    · exact hsum

private theorem log_eq_preview (shares : Nat → Nat) :
    (((range legs.length).filter q.funded).map (depositEvent receiver legs q shares)).map
        (fun e => (e.vault, e.amount, e.weightBps)) =
      (((range legs.length).map (legPreview legs q)).filter (·.funded)).map
        (fun l => (l.vault, l.legAmount, l.weightBps)) := by
  have hfunded : (fun l : LegPreview => l.funded) ∘ legPreview legs q = q.funded := by
    funext i
    simp [LegPreview.funded, Quotes.funded, legPreview]
  rw [filter_map, map_map, map_map, hfunded]
  rfl

private theorem floors_met {x : Execution σ} (hx : ExecState receiver legs q minSharesPerLeg legs.length x)
    (hne : minSharesPerLeg ≠ []) (hlength : minSharesPerLeg.length = legs.length) :
    List.Forall₂ (· ≤ ·) minSharesPerLeg ((range legs.length).map x.sharesPerLeg) := by
  rw [forall₂_iff_get]
  refine ⟨by simpa using hlength, ?_⟩
  intro i hi _
  have hfloor := hx.floors i (by omega)
  have hget : minSharesPerLeg.getD i 0 = minSharesPerLeg.get ⟨i, hi⟩ := by simp [hi]
  have hsupplied : minSharesPerLeg.length ≠ 0 := fun h => hne (length_eq_zero_iff.1 h)
  simp only [FloorAbove, hsupplied, ne_eq, not_false_eq_true, true_and, hget, Nat.not_lt] at hfloor
  simpa using hfloor

private theorem pull_exposure {t t' : Token} (h : t.transferFrom d.router caller d.router amount = .ok t')
    (hzero : t.exposure d.router = 0) :
    t'.balance d.router = t.balance d.router + amount ∧ t'.exposure d.router = 0 := by
  obtain ⟨hallowed, -, hle, rfl⟩ := transferFrom_eq_ok.1 h
  by_cases hcaller : caller = d.router
  · -- the router has approved nobody, itself included, so it has pulled nothing
    subst hcaller
    have hnone := exposure_eq_zero hzero d.router
    obtain rfl : amount = 0 := by omega
    have happrove := exposure_approve
      { t with balance := moveBalance t.balance d.router d.router 0 } d.router d.router
        (t.allowance d.router d.router - 0)
    have hsame : { t with balance := moveBalance t.balance d.router d.router 0 }.exposure d.router =
        t.exposure d.router := rfl
    refine ⟨by rw [approve_balance]; simp, ?_⟩
    dsimp only at happrove
    omega
  refine ⟨?_, ?_⟩
  · rw [approve_balance]
    exact moveBalance_target hcaller
  · rw [← hzero]
    unfold exposure
    rw [approve_allowance_of_ne (Ne.symm hcaller)]

end Deposit

/-- Preview and execution agree.  For every state, caller and call, if pulling the USDC of the caller does not change
what the vaults answer: a deposit that returns has funded exactly the legs the preview in the same state says, with the
same amounts; every floor is met, on every leg; the USDC pulled from the caller is the sum of the leg amounts, and the
router's balance is as before; and if no vault pays the router, every vault has drawn all it was approved for.  A
deposit that reverts changes nothing. -/
theorem deposit_agrees_with_preview {σ : Type} (d : RouterDeployment) (env : RoutedVaults σ) (s : RouterState σ)
    (caller : Address) (c : DepositCall)
    (hstable : ∀ w, pullFromCaller d s.world caller c.amount = .ok w →
      env.SameAnswers d s.router.effectiveWeights s.world w) :
    (∀ sharesPerLeg s', s.deposit d env caller c = .ok (sharesPerLeg, s') →
      ∃ preview log usdc, s.router.previewDeposit d env s.world c.amount = .ok preview ∧
        s'.router = s.router ∧ s'.log = s.log ++ log ∧
        log.map (fun e => (e.vault, e.amount, e.weightBps)) =
          (preview.filter (·.funded)).map (fun l => (l.vault, l.legAmount, l.weightBps)) ∧
        (c.minSharesPerLeg ≠ [] → List.Forall₂ (· ≤ ·) c.minSharesPerLeg sharesPerLeg) ∧
        s.world.usdc.transferFrom d.router caller d.router c.amount = .ok usdc ∧
        c.amount = (log.map (·.amount)).sum ∧
        s'.world.usdc.balance d.router = s.world.usdc.balance d.router ∧
        (env.NeverPays d → s.world.usdc.exposure d.router = 0 →
          ∀ vault, s'.world.usdc.allowance d.router vault = 0)) ∧
    ∀ e, s.deposit d env caller c = .error e → exec (routerStep d env) s (caller, c) = s := by
  constructor
  · intro sharesPerLeg s' h
    simp only [RouterState.deposit, bind_eq_ok, ok.injEq, Prod.mk.injEq] at h
    obtain ⟨-, -, ⟨shares, world, log⟩, hdeposit, rfl, rfl⟩ := h
    obtain ⟨w₁, q, x, hpull, hq, hfunded, hlength, hlegs, rfl, rfl, rfl⟩ := depositTo_spec hdeposit
    obtain ⟨hx, hbalance⟩ := executeLegs_spec hlegs
    obtain ⟨hunfunded, hsum⟩ := sum_legAmounts hq hfunded
    have hq₀ := hq
    rw [availabilityAndAmounts_congr (hstable w₁ hpull)] at hq₀
    obtain ⟨usdc, husdc, rfl⟩ := pullFromCaller_eq_ok.1 hpull
    have hpreview : s.router.previewDeposit d env s.world c.amount = .ok
        ((range s.router.effectiveWeights.length).map (legPreview s.router.effectiveWeights q)) := by
      simp only [PortfolioRouter.previewDeposit, hq₀]
      rfl
    refine ⟨_, x.log, usdc, hpreview, rfl, rfl, ?_, fun hne => floors_met hx hne (hlength hne), husdc, ?_, hbalance, ?_⟩
    · rw [hx.log]
      exact log_eq_preview x.sharesPerLeg
    · rw [hx.log, map_map, ← hsum, ← sum_filter_range hunfunded]
      rfl
    · intro hpays hexposure vault
      obtain ⟨hpulled, hnone⟩ := pull_exposure husdc hexposure
      have hdrawn := executeLegs_exposure hpays hlegs
      refine exposure_eq_zero ?_ vault
      dsimp only at hdrawn ⊢
      omega
  · intro e he
    refine exec_of_error (e := e) ?_
    simp [routerStep, he]

/-- Vaults to evaluate runs on: each mints a share per unit and draws what it is given; the quote of vault 42
reverts. -/
def RoutedVaults.sample : RoutedVaults Unit where
  hasCode := fun _ _ => true
  asset := fun _ _ => .returned 3
  maxDeposit := fun _ _ _ => .returned (10 ^ 12)
  previewDeposit := fun _ vault x => if vault = 42 then .reverted else .returned x
  deposit := fun w vault x _ => .returned ⟨x, [.transferFrom vault 8 vault x], w.registry, ()⟩

def RouterState.sample : RouterState Unit where
  router := {
    routerCap := 0
    vaultCap := fun _ => 0
    weights := []
    votedWeightsActive := false
    defaultWeights := [⟨40, 5000⟩, ⟨42, 2000⟩, ⟨41, 3000⟩] }
  world := {
    registry := ⟨fun _ => true, fun _ => .active, fun _ => true⟩
    usdc := ⟨Function.update (fun _ => 0) 5 2000, Function.update (fun _ _ =>
      0) 5 (Function.update (fun _ => 0) 8 2000)⟩
    hidden := () }
  log := []

/-- The share of the leg that does not quote goes to the others, and the last of them takes the remainder. -/
theorem deposit_agrees_dropped_leg :
    ∃ s' preview, RouterState.sample.deposit ⟨8, 3⟩ .sample 5 (.deposit 1001 [625, 0, 376]) = .ok ([625, 0, 376], s') ∧
      RouterState.sample.router.previewDeposit ⟨8, 3⟩ .sample RouterState.sample.world 1001 = .ok preview ∧
      (preview.filter (·.funded)).map (fun l => (l.vault, l.legAmount, l.weightBps)) =
        [(40, 625, 5000), (41, 376, 3000)] ∧
      s'.log.map (fun e => (e.vault, e.amount, e.weightBps)) = [(40, 625, 5000), (41, 376, 3000)] ∧
      s'.world.usdc.balance 8 = 0 := by
  have hstable : ∀ w, pullFromCaller ⟨8, 3⟩ RouterState.sample.world 5 1001 = .ok w →
      RoutedVaults.sample.SameAnswers ⟨8, 3⟩ RouterState.sample.router.effectiveWeights RouterState.sample.world w := by
    intro w hw
    obtain ⟨usdc, -, rfl⟩ := pullFromCaller_eq_ok.1 hw
    exact ⟨rfl, fun _ _ => rfl, fun _ _ => rfl, fun _ _ => rfl, fun _ _ _ => rfl⟩
  obtain ⟨s', hs'⟩ : ∃ s', RouterState.sample.deposit ⟨8, 3⟩ .sample 5 (.deposit 1001 [625, 0, 376]) =
      .ok ([625, 0, 376], s') := ⟨_, rfl⟩
  obtain ⟨preview, log, usdc, hpreview, -, hlog, hlegs, -, -, -, hbalance, -⟩ :=
    (deposit_agrees_with_preview ⟨8, 3⟩ .sample .sample 5 (.deposit 1001 [625, 0, 376]) hstable).1 _ s' hs'
  have hfunded : (preview.filter (·.funded)).map (fun l => (l.vault, l.legAmount, l.weightBps)) =
      [(40, 625, 5000), (41, 376, 3000)] := by
    cases hpreview
    rfl
  have hnone : RouterState.sample.log = [] := rfl
  rw [hnone, nil_append] at hlog
  exact ⟨s', preview, hs', hpreview, hfunded, by rw [hlog, hlegs, hfunded], hbalance⟩

end RobotMoney
