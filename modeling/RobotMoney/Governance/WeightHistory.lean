import RobotMoney.Governance.Receipts

/-!
# The weight vectors of the router over time

The calls of `PortfolioRouter` that change a weight vector, with the events they emit.  The vector that is routed by is
one of those that were set: the last voted one, unless it was cleared, and otherwise the last default
(`effectiveWeights_eq`).
-/

namespace RobotMoney.Governance

open Evm List Except Prod

inductive WeightsError where
  | onlyRegistry
  | router (e : GovernanceError)
  deriving DecidableEq, Repr

def orWeights {α : Type} : Except GovernanceError α → Except WeightsError α
  | .ok a => .ok a
  | .error e => .error (.router e)

/-- What a call finds: who holds the roles of the router, its registry and the world around it. -/
structure WeightsWorld (σ : Type) where
  weightSetter : Address → Bool
  admin : Address → Bool
  registry : Address
  routerEligibleCount : Nat
  world : RouterWorld σ

inductive WeightsCall where
  | setWeights (sender : Address) (vaults : List Address) (bps : List Nat)
  | setDefaultWeights (sender : Address) (vaults : List Address) (bps : List Nat)
  | applyMigrationDefaultWeights (sender : Address) (vaults : List Address) (bps : List Nat)
  | clearVotedWeights (sender : Address)

inductive WeightsEvent where
  | weightsSet (vaults : List Address) (bps : List Nat)
  | defaultWeightsSet (vaults : List Address) (bps : List Nat)
  | votedWeightsCleared
  deriving DecidableEq, Repr

/-- The router, and its events with their places on the chain. -/
structure WeightsState (P : Type) where
  router : PortfolioRouter
  logs : List (P × WeightsEvent)

def WeightsState.emit {P : Type} (s : WeightsState P) (router : PortfolioRouter) (place : P) (event : WeightsEvent) :
    WeightsState P := ⟨router, s.logs ++ [(place, event)]⟩

section Step

variable {σ P : Type} (d : RouterDeployment) (env : RoutedVaults σ)

/-- `_setDefaultWeights`; its loop is that of `setWeights`. -/
def internalSetDefaultWeights (r : PortfolioRouter) (w : WeightsWorld σ) (vaults : List Address) (bps : List Nat) :
    Except GovernanceError PortfolioRouter := do
  revertIf (vaults.length ≠ bps.length) .lengthMismatch
  revertIf (vaults.length ≠ w.routerEligibleCount) .lengthMismatch
  let total ← checkWeights d env w.world [] (zipWith Leg.mk vaults bps) 0
  revertIf (total ≠ 10000) .invalidWeightSum
  .ok { r with defaultWeights := zipWith Leg.mk vaults bps }

def weightsStep (s : WeightsState P) : WeightsWorld σ × P × WeightsCall → Except WeightsError (WeightsState P)
  | (w, place, .setWeights sender vaults bps) => do
    orWeights (onlyRole w.weightSetter sender)
    let router ← orWeights (setWeights d env s.router w.world vaults bps)
    .ok (s.emit router place (.weightsSet vaults bps))
  | (w, place, .setDefaultWeights sender vaults bps) => do
    orWeights (onlyRole w.admin sender)
    let router ← orWeights (internalSetDefaultWeights d env s.router w vaults bps)
    .ok (s.emit router place (.defaultWeightsSet vaults bps))
  | (w, place, .applyMigrationDefaultWeights sender vaults bps) => do
    revertIf (sender ≠ w.registry) .onlyRegistry
    let router ← orWeights (internalSetDefaultWeights d env s.router w vaults bps)
    .ok (s.emit router place (.defaultWeightsSet vaults bps))
  | (w, place, .clearVotedWeights sender) => do
    orWeights (onlyRole w.admin sender)
    .ok (s.emit (clearVotedWeights s.router) place .votedWeightsCleared)

end Step

/-- A new router: no vector is set. -/
structure NoWeights (r : PortfolioRouter) : Prop where
  voted : r.votedWeightsActive = false
  fallback : r.defaultWeights = []

def WeightsEvent.vector : WeightsEvent → Option (List Leg)
  | .weightsSet vaults bps | .defaultWeightsSet vaults bps => some (zipWith Leg.mk vaults bps)
  | .votedWeightsCleared => none

def vectors (events : List WeightsEvent) : List (List Leg) := events.filterMap WeightsEvent.vector

/-- The places, among the vectors that were set, of the last voted one that was not cleared and of the last default. -/
structure Deciders where
  voted : Option Nat
  fallback : Option Nat
  count : Nat

def Deciders.next (p : Deciders) : WeightsEvent → Deciders
  | .weightsSet .. => { p with voted := some p.count, count := p.count + 1 }
  | .defaultWeightsSet .. => { p with fallback := some p.count, count := p.count + 1 }
  | .votedWeightsCleared => { p with voted := none }

def deciders (events : List WeightsEvent) : Deciders := events.foldl Deciders.next ⟨none, none, 0⟩

def deciding (events : List WeightsEvent) : Option Nat := (deciders events).voted.or (deciders events).fallback

def WeightsEvent.Accepted : WeightsEvent → Prop
  | .weightsSet vaults bps | .defaultWeightsSet vaults bps => vaults.length = bps.length ∧ bps.sum = 10000
  | .votedWeightsCleared => True

/-- The router holds the vectors that the events say. -/
structure Tracks {P : Type} (s : WeightsState P) : Prop where
  accepted : ∀ l ∈ s.logs, l.2.Accepted
  count : (deciders (s.logs.map snd)).count = (vectors (s.logs.map snd)).length
  active : s.router.votedWeightsActive = (deciders (s.logs.map snd)).voted.isSome
  voted : ∀ i, (deciders (s.logs.map snd)).voted = some i →
    (vectors (s.logs.map snd))[i]? = some s.router.weights
  fallback : ∀ i, (deciders (s.logs.map snd)).fallback = some i →
    (vectors (s.logs.map snd))[i]? = some s.router.defaultWeights
  unset : (deciders (s.logs.map snd)).fallback = none → s.router.defaultWeights = []

section Tracks

variable {σ P : Type} {d : RouterDeployment} {env : RoutedVaults σ} {s s' : WeightsState P}

private theorem checkWeights_sum {w : RouterWorld σ} {earlier : List Address} {legs : List Leg} {total t : Nat}
    (h : checkWeights d env w earlier legs total = .ok t) : t = total + (legs.map Leg.bps).sum := by
  induction legs generalizing earlier total with
  | nil =>
    cases h
    rfl
  | cons leg rest ih =>
    simp only [checkWeights, bind_eq_ok, revertIf_eq_ok, add_eq_ok] at h
    obtain ⟨_, -, _, -, _, -, _, ⟨-, rfl⟩, hrest⟩ := h
    rw [ih hrest, map_cons, sum_cons, Nat.add_assoc]

variable {vaults : List Address} {bps : List Nat} {r : PortfolioRouter}

theorem map_bps_zipWith (h : vaults.length = bps.length) : (zipWith Leg.mk vaults bps).map Leg.bps = bps := by
  induction vaults generalizing bps with
  | nil => exact (length_eq_zero_iff.mp h.symm).symm
  | cons vault rest ih =>
    cases bps with
    | nil => cases h
    | cons b bps => simpa using ih (Nat.succ.inj h)

theorem orWeights_eq_ok {α : Type} {x : Except GovernanceError α} {a : α} : orWeights x = .ok a ↔ x = .ok a := by
  cases x <;> simp [orWeights]

def WeightsEvent.apply (r : PortfolioRouter) : WeightsEvent → PortfolioRouter
  | .weightsSet vaults bps => { r with weights := zipWith Leg.mk vaults bps, votedWeightsActive := true }
  | .defaultWeightsSet vaults bps => { r with defaultWeights := zipWith Leg.mk vaults bps }
  | .votedWeightsCleared => clearVotedWeights r

theorem setWeights_ok {r r' : PortfolioRouter} {w : RouterWorld σ} (h : setWeights d env r w vaults bps = .ok r') :
    (WeightsEvent.weightsSet vaults bps).Accepted ∧ r' = (WeightsEvent.weightsSet vaults bps).apply r := by
  simp only [setWeights, bind_eq_ok, revertIf_eq_ok, not_not] at h
  obtain ⟨_, hlength, total, hcheck, _, htotal, hr⟩ := h
  have hsum := checkWeights_sum hcheck
  rw [map_bps_zipWith hlength, Nat.zero_add] at hsum
  exact ⟨⟨hlength, hsum ▸ htotal⟩, (ok.inj hr).symm⟩

private theorem internalSetDefaultWeights_ok {r r' : PortfolioRouter} {w : WeightsWorld σ}
    (h : internalSetDefaultWeights d env r w vaults bps = .ok r') :
    (WeightsEvent.defaultWeightsSet vaults bps).Accepted ∧
      r' = (WeightsEvent.defaultWeightsSet vaults bps).apply r := by
  simp only [internalSetDefaultWeights, bind_eq_ok, revertIf_eq_ok, not_not] at h
  obtain ⟨_, hlength, _, -, total, hcheck, _, htotal, hr⟩ := h
  have hsum := checkWeights_sum hcheck
  rw [map_bps_zipWith hlength, Nat.zero_add] at hsum
  exact ⟨⟨hlength, hsum ▸ htotal⟩, (ok.inj hr).symm⟩

private theorem weightsStep_ok {c : WeightsWorld σ × P × WeightsCall} (h : weightsStep d env s c = .ok s') :
    ∃ event : WeightsEvent, event.Accepted ∧ s' = s.emit (event.apply s.router) c.2.1 event := by
  obtain ⟨w, place, call⟩ := c
  cases call with
  | setWeights sender vaults bps =>
    simp only [weightsStep, bind_eq_ok, orWeights_eq_ok] at h
    obtain ⟨_, -, r', hset, hs⟩ := h
    obtain ⟨haccepted, rfl⟩ := setWeights_ok hset
    exact ⟨_, haccepted, (ok.inj hs).symm⟩
  | setDefaultWeights sender vaults bps | applyMigrationDefaultWeights sender vaults bps =>
    simp only [weightsStep, bind_eq_ok, orWeights_eq_ok] at h
    obtain ⟨_, -, r', hset, hs⟩ := h
    obtain ⟨haccepted, rfl⟩ := internalSetDefaultWeights_ok hset
    exact ⟨_, haccepted, (ok.inj hs).symm⟩
  | clearVotedWeights sender =>
    simp only [weightsStep, bind_eq_ok, orWeights_eq_ok] at h
    obtain ⟨_, -, hs⟩ := h
    exact ⟨.votedWeightsCleared, trivial, (ok.inj hs).symm⟩

private theorem deciders_append (events : List WeightsEvent) (e : WeightsEvent) :
    deciders (events ++ [e]) = (deciders events).next e := by
  rw [deciders, foldl_append]
  rfl

private theorem vectors_append (events : List WeightsEvent) (e : WeightsEvent) :
    vectors (events ++ [e]) = vectors events ++ e.vector.toList := by
  rw [vectors, filterMap_append]
  rfl

private theorem getElem?_append_of_some {α : Type} {xs ys : List α} {i : Nat} {a : α} (h : xs[i]? = some a) :
    (xs ++ ys)[i]? = some a := by
  rw [List.getElem?_append_left (List.getElem?_eq_some_iff.mp h).1]
  exact h

private theorem Tracks.emit (h : Tracks s) {event : WeightsEvent} (haccepted : event.Accepted) (place : P) :
    Tracks (s.emit (event.apply s.router) place event) := by
  have hevents : (s.emit (event.apply s.router) place event).logs.map snd = s.logs.map snd ++ [event] := by
    simp [WeightsState.emit]
  constructor
  case accepted =>
    intro l hl
    obtain hl | rfl : l ∈ s.logs ∨ l = (place, event) := by simpa [WeightsState.emit] using hl
    · exact h.accepted l hl
    · exact haccepted
  all_goals rw [hevents, deciders_append]
  all_goals try rw [vectors_append]
  case count => cases event <;> simp [Deciders.next, WeightsEvent.vector, h.count]
  case active =>
    cases event with
    | defaultWeightsSet vaults bps => exact h.active
    | _ => rfl
  case voted =>
    intro i hi
    cases event with
    | weightsSet vaults bps =>
      obtain rfl : (deciders (s.logs.map snd)).count = i := Option.some.inj hi
      simp [h.count, WeightsEvent.vector, WeightsState.emit, WeightsEvent.apply]
    | defaultWeightsSet vaults bps => exact getElem?_append_of_some (h.voted i hi)
    | votedWeightsCleared => cases hi
  case fallback =>
    intro i hi
    cases event with
    | weightsSet vaults bps => exact getElem?_append_of_some (h.fallback i hi)
    | defaultWeightsSet vaults bps =>
      obtain rfl : (deciders (s.logs.map snd)).count = i := Option.some.inj hi
      simp [h.count, WeightsEvent.vector, WeightsState.emit, WeightsEvent.apply]
    | votedWeightsCleared => exact getElem?_append_of_some (h.fallback i hi)
  case unset =>
    intro hi
    cases event with
    | weightsSet vaults bps => exact h.unset hi
    | defaultWeightsSet vaults bps => cases hi
    | votedWeightsCleared => exact h.unset hi

theorem tracks_run (hr : NoWeights r) (calls : List (WeightsWorld σ × P × WeightsCall)) :
    Tracks (run (weightsStep d env) ⟨r, []⟩ calls) := by
  have hstep : ∀ s (c : WeightsWorld σ × P × WeightsCall) s', Tracks s → weightsStep d env s c = .ok s' →
      Tracks s' := by
    intro s c s' hs h
    obtain ⟨event, haccepted, rfl⟩ := weightsStep_ok h
    exact hs.emit haccepted _
  refine run_invariant hstep ⟨?_, rfl, hr.voted, ?_, ?_, fun _ => hr.fallback⟩ calls
  · intro l hl
    cases hl
  · intro i hi
    cases hi
  · intro i hi
    cases hi

theorem places_run (d : RouterDeployment) (env : RoutedVaults σ) (s : WeightsState P)
    (calls : List (WeightsWorld σ × P × WeightsCall)) :
    ∃ places, (run (weightsStep d env) s calls).logs.map fst = s.logs.map fst ++ places ∧
      places.Sublist (calls.map fun c => c.2.1) := by
  induction calls generalizing s with
  | nil => exact ⟨[], by simp, List.Sublist.slnil⟩
  | cons c rest ih =>
    rw [run_cons]
    obtain ⟨places, hplaces, hsub⟩ := ih (exec (weightsStep d env) s c)
    cases hc : weightsStep d env s c with
    | error e =>
      rw [exec_of_error hc] at hplaces ⊢
      exact ⟨places, hplaces, hsub.cons _⟩
    | ok s' =>
      obtain ⟨event, -, rfl⟩ := weightsStep_ok hc
      rw [exec_of_ok hc] at hplaces ⊢
      refine ⟨c.2.1 :: places, ?_, hsub.cons_cons _⟩
      rw [hplaces]
      simp [WeightsState.emit]

theorem Tracks.effectiveWeights_eq (h : Tracks s) : s.router.effectiveWeights =
    ((deciding (s.logs.map snd)).bind fun i => (vectors (s.logs.map snd))[i]?).getD [] := by
  unfold PortfolioRouter.effectiveWeights deciding
  rw [h.active]
  cases hvoted : (deciders (s.logs.map snd)).voted with
  | some i => simp [h.voted i hvoted]
  | none =>
    cases hfallback : (deciders (s.logs.map snd)).fallback with
    | some i => simp [h.fallback i hfallback]
    | none => simp [h.unset hfallback]

theorem ne_nil_of_mem_vectors (h : Tracks s) {v : List Leg} (hv : v ∈ vectors (s.logs.map snd)) : v ≠ [] := by
  obtain ⟨event, hevent, hvector⟩ := mem_filterMap.mp hv
  obtain ⟨l, hl, rfl⟩ := mem_map.mp hevent
  have haccepted := h.accepted l hl
  rintro rfl
  cases hcase : l.2 with
  | votedWeightsCleared =>
    rw [hcase] at hvector
    cases hvector
  | weightsSet vaults bps | defaultWeightsSet vaults bps =>
    rw [hcase] at hvector haccepted
    have hbps := map_bps_zipWith haccepted.1
    rw [Option.some.inj hvector] at hbps
    have hsum := haccepted.2
    rw [← hbps] at hsum
    cases hsum

end Tracks

end RobotMoney.Governance
