import RobotMoney.Basket.Market
import RobotMoney.Recorder.Manipulation

/-!
# The history behind the sell anchor (`record`, `grow`, `BasketViews.sellAnchorWindow`)

A record evicts only from a full ring, so a ring that has `c` slots keeps what it holds until `c` later snapshots stand
in them (`held_append`).  Snapshots are at least a spacing apart, so `c` of them span `c - 1` spacings: the ring reaches
back to what it held when it had grown to `c` slots, or over those spacings (`oldest_bound`).

* Whoever calls, this much history is served, and the sell anchor asks for no more (`recorder_history_served`).
* What was evicted while the ring was smaller is gone: growing late brings no history back
  (`grown_ring_misses_first_observation`).
-/

namespace RobotMoney

open Evm List Except

/-- Snapshots at least `spacing` seconds apart, newest first. -/
def Spaced (spacing : Nat) (h : List RecordEntry) : Prop := h.IsChain fun e e' => e'.time + spacing ≤ e.time

instance (spacing : Nat) (h : List RecordEntry) : Decidable (Spaced spacing h) :=
  inferInstanceAs (Decidable (List.IsChain _ _))

private theorem recorderStep_cardinality {s s' : RecorderState} {c : RecorderCall} (h : recorderStep s c = .ok s') :
    ∃ newer, s'.history = newer ++ s.history ∧ s.recorder.ring.cardinality ≤ s'.recorder.ring.cardinality ∧
      ∀ e ∈ newer, s.recorder.ring.cardinality ≤ e.cardinality := by
  cases c with
  | advance t =>
    simp only [recorderStep, ok.injEq] at h
    subst h
    exact ⟨[], rfl, le_rfl, by simp⟩
  | record data =>
    simp only [recorderStep, bind_eq_ok] at h
    obtain ⟨⟨r', recorded⟩, hrec, h⟩ := h
    rcases record_inv hrec with ⟨rfl, rfl, -⟩ | ⟨rfl, -, -, c, -, rfl⟩
    · simp only [Bool.false_eq_true, if_false, ok.injEq] at h
      subst h
      exact ⟨[], rfl, le_rfl, by simp⟩
    simp only [if_true, ok.injEq] at h
    subst h
    have hwide : s.recorder.ring.cardinality ≤ s.recorder.ring.advance.cardinality :=
      s.recorder.ring.widened_bounds.1
    exact ⟨[_], rfl, hwide, by simpa using hwide⟩
  | grow next =>
    simp only [recorderStep, ok.injEq] at h
    subst h
    obtain ⟨-, -, -, -, hcard⟩ := grow_spec s.recorder next
    exact ⟨[], rfl, hcard.ge, by simp⟩

private theorem run_cardinality (s : RecorderState) (cs : List RecorderCall) :
    ∃ newer, (run recorderStep s cs).history = newer ++ s.history ∧
      ∀ e ∈ newer, s.recorder.ring.cardinality ≤ e.cardinality := by
  have hrun := @run_invariant _ _ _ recorderStep (fun x => ∃ newer, x.history = newer ++ s.history ∧
    s.recorder.ring.cardinality ≤ x.recorder.ring.cardinality ∧
      ∀ e ∈ newer, s.recorder.ring.cardinality ≤ e.cardinality) ?_ s ⟨[], rfl, le_rfl, by simp⟩ cs
  · obtain ⟨newer, hhist, -, hlarge⟩ := hrun
    exact ⟨newer, hhist, hlarge⟩
  · rintro x c x' ⟨newer, hx, hcard, hlarge⟩ hstep
    obtain ⟨added, hx', hcard', hadded⟩ := recorderStep_cardinality hstep
    refine ⟨added ++ newer, by rw [hx', hx, append_assoc], hcard.trans hcard', fun e he => ?_⟩
    rcases mem_append.1 he with he | he
    · exact hcard.trans (hadded e he)
    · exact hlarge e he

private theorem held_append {newer h : List RecordEntry} {c : Nat} (hc : ∀ e ∈ newer, c ≤ e.cardinality) :
    min (newer.length + held h) c ≤ held (newer ++ h) := by
  induction newer with
  | nil =>
    rw [nil_append, length_nil]
    omega
  | cons e newer ih =>
    have hrest := ih fun x hx => hc x (mem_cons_of_mem _ hx)
    have he := hc e mem_cons_self
    rw [cons_append, held, length_cons]
    omega

variable {h : List RecordEntry} {s : RecorderState} {m : Basket.Market} {pool : Address}

private theorem timeAt_spaced {spacing : Nat} (hs : Spaced spacing h) {k : Nat} (hk : k < h.length) :
    timeAt h k + spacing * k ≤ timeAt h 0 := by
  induction k with
  | zero => simp
  | succ k ih =>
    have hstep := isChain_iff_getElem.1 hs k hk
    have hnext : timeAt h (k + 1) + spacing ≤ timeAt h k := by
      rwa [timeAt_of_getElem (getElem?_eq_getElem hk), timeAt_of_getElem (getElem?_eq_getElem (Nat.lt_of_succ_lt hk))]
    have hprev := ih (Nat.lt_of_succ_lt hk)
    rw [Nat.mul_succ]
    omega

theorem timeAt_append (newer h : List RecordEntry) (k : Nat) : timeAt (newer ++ h) (newer.length + k) = timeAt h k := by
  rw [timeAt, timeAt, getElem?_append_right (Nat.le_add_right _ _), Nat.add_sub_cancel_left]

private theorem timeAt_le (hd : Descending (recordedTicks h)) {i j : Nat} (hij : i ≤ j) (hj : j < h.length) :
    timeAt h j ≤ timeAt h i := by
  rcases Nat.eq_or_lt_of_le hij with rfl | hlt
  · exact le_rfl
  · exact (timeAt_lt hd hlt hj).le

private theorem oldestObservation_eq (hs : s.Faithful) :
    s.recorder.oldestObservation = timeAt s.history (held s.history - 1) := by
  obtain ⟨last, hlast, holdest⟩ := hs.oldest_eq
  rw [timeAt_of_getElem hlast]
  simp [Recorder.oldestObservation, holdest, snapshotOf]

private theorem oldest_bound (hs : s.Faithful) (cs : List RecorderCall) {spacing c : Nat}
    (hc : c ≤ s.recorder.ring.cardinality) (hspaced : Spaced spacing (run recorderStep s cs).history) :
    (run recorderStep s cs).recorder.oldestObservation ≤ s.recorder.oldestObservation ∨
      (run recorderStep s cs).recorder.oldestObservation + spacing * (c - 1) ≤ (run recorderStep s cs).now := by
  have hs' : (run recorderStep s cs).Faithful := run_invariant (fun _ _ _ => recorderStep_faithful) hs cs
  obtain ⟨newer, hhist, hlarge⟩ := run_cardinality s cs
  have hkept := held_append (h := s.history) (c := c) fun e he => hc.trans (hlarge e he)
  have hpos := hs.index_lt
  have hlen := hs'.holds.le_length
  have hpos' := hs'.index_lt
  rw [oldestObservation_eq hs, oldestObservation_eq hs']
  rw [← hhist] at hkept
  rcases lt_or_ge (held (run recorderStep s cs).history) c with hsmall | hfull
  · left
    have hage : newer.length + (held s.history - 1) ≤ held (run recorderStep s cs).history - 1 := by omega
    have hle := timeAt_le hs'.descending hage (by omega)
    rwa [hhist, timeAt_append, ← hhist] at hle
  right
  have hage := timeAt_le hs'.descending (show c - 1 ≤ held (run recorderStep s cs).history - 1 by omega) (by omega)
  have hspan := timeAt_spaced hspaced (show c - 1 < (run recorderStep s cs).history.length by omega)
  have hnow := hs'.newest_le_now
  rw [← hs'.newest_time] at hnow
  omega

def answerOf : Except RecorderError (List Int × List Nat) → Option (Int × Int)
  | .ok ([before, after], _) => some (before, after)
  | _ => none

/-- The market in which `pool` is this recorder. -/
structure ReadsRecorder (m : Basket.Market) (pool : Address) (s : RecorderState) : Prop where
  now : m.now = s.now
  oldest : m.oldestObservation pool = some s.recorder.oldestObservation
  observe : ∀ window, m.observe pool window = answerOf (s.recorder.observe s.now [window, 0])

private theorem sellAnchorWindow_eq (hm : ReadsRecorder m pool s) (hs : s.Faithful) : m.sellAnchorWindow pool =
      .ok (min (s.now - s.recorder.oldestObservation) Basket.Market.sellAnchorWindowSeconds) := by
  have hle := hs.oldest_le_newest.trans hs.newest_le_now
  have hsub : (sub s.now s.recorder.oldestObservation : Except Basket.BasketError Nat) =
      .ok (s.now - s.recorder.oldestObservation) := sub_eq_ok.2 ⟨hle, rfl⟩
  have hword : m.now % 2 ^ 32 = s.now := by
    rw [hm.now]
    exact Nat.mod_eq_of_lt s.now_lt
  rw [Basket.Market.sellAnchorWindow, hm.oldest, hword]
  show (sub s.now s.recorder.oldestObservation >>= fun age => ok (if age < Basket.Market.sellAnchorWindowSeconds
    then age else Basket.Market.sellAnchorWindowSeconds)) = _
  rw [hsub, ok_bind]
  congr 1
  split <;> omega

theorem market_meanTick_eq (hm : ReadsRecorder m pool s) (hs : s.Faithful) (window : Nat) : m.meanTick pool window =
      if s.now > s.recorder.newest.blockTimestamp + maxStaleness ∨ s.now < s.recorder.oldestObservation + window then
        .error .externalRevert
      else if window = 0 then .error (.panic .divisionByZero)
      else .ok (meanOf s.history s.now window) := by
  have hnewest := hs.newest_le_now
  have holdest := hs.oldest_le_newest
  have hany : (∃ a ∈ [window, 0], s.now < s.recorder.oldestObservation + a) ↔
      s.now < s.recorder.oldestObservation + window := by
    simp only [mem_cons, not_mem_nil, or_false, exists_eq_or_imp, exists_eq_left]
    omega
  unfold Basket.Market.meanTick
  rw [hm.observe, observe_eq hs]
  by_cases hstale : s.now > s.recorder.newest.blockTimestamp + maxStaleness
  · rw [if_pos hstale, if_pos (Or.inl hstale)]
    rfl
  by_cases hreach : s.now < s.recorder.oldestObservation + window
  · rw [if_neg hstale, if_pos (hany.2 hreach), if_pos (Or.inr hreach)]
    rfl
  rw [if_neg hstale, if_neg (hany.not.2 hreach), if_neg (not_or.2 ⟨hstale, hreach⟩)]
  obtain ⟨hlo, hhi⟩ := window_bounds hs (Nat.not_lt.1 hreach)
  have hnow := s.now_lt
  have hword : (window : Int) < 2 ^ 32 := by omega
  simp only [map_cons, map_nil, answerOf, Basket.orRevert, ok_bind, Nat.sub_zero]
  rw [revertIf_of_not _ (by omega), ok_bind]
  by_cases hzero : window = 0
  · rw [revertIf_of _ hzero, if_pos hzero]
    rfl
  rw [revertIf_of_not _ hzero, ok_bind, if_neg hzero]
  exact congrArg ok (roundMean_eq (Nat.pos_of_ne_zero hzero) hlo hhi)

private theorem market_meanTick_floor (hm : ReadsRecorder m pool s) (hs : s.Faithful) {window : Nat} {mean : Int}
    (h : m.meanTick pool window = .ok mean) :
    ∃ before after, m.observe pool window = some (before, after) ∧ mean = (after - before).fdiv (window : Int) := by
  rw [market_meanTick_eq hm hs] at h
  split at h
  · cases h
  split at h
  · cases h
  rename_i hok hzero
  obtain ⟨hstale, hreach⟩ := not_or.1 hok
  have hany : ¬ ∃ a ∈ [window, 0], s.now < s.recorder.oldestObservation + a := by
    have hle := hs.oldest_le_newest.trans hs.newest_le_now
    simp only [mem_cons, not_mem_nil, or_false, exists_eq_or_imp, exists_eq_left]
    omega
  cases h
  refine ⟨tickIntegral s.history (s.now - window), tickIntegral s.history s.now, ?_, ?_⟩
  · rw [hm.observe, observe_eq hs, if_neg hstale, if_neg hany]
    rfl
  · exact (Int.fdiv_eq_ediv_of_nonneg _ (Int.natCast_nonneg window)).symm

/-- From a state whose ring has `c` slots on, whoever calls: a fresh recorder serves every target back to the oldest
snapshot that the ring held then, or over `c - 1` spacings, whichever is less; the anchor's window is within the history
of any state, so `meanTick` never misses history there; and a mean is the floor of the cumulative delta over the
window. -/
theorem recorder_history_served {t : Fin (2 ^ 32)} {data : Nat} {s₀ s : RecorderState}
    (h₀ : RecorderState.deployed t data = .ok s₀) (hs : Reachable recorderStep s₀ s) (cs : List RecorderCall)
    {spacing c : Nat} (hc : c ≤ s.recorder.ring.cardinality)
    (hspaced : Spaced spacing (run recorderStep s cs).history) :
    (∀ secondsAgos, (run recorderStep s cs).now ≤ timeAt (run recorderStep s cs).history 0 + maxStaleness →
      (∀ a ∈ secondsAgos, a ≤ min ((run recorderStep s cs).now - s.recorder.oldestObservation) (spacing * (c - 1))) →
        (run recorderStep s cs).recorder.observe (run recorderStep s cs).now secondsAgos =
          .ok (secondsAgos.map fun a =>
            tickIntegral (run recorderStep s cs).history ((run recorderStep s cs).now - a),
            secondsAgos.map fun _ => 0)) ∧
      ∀ (m : Basket.Market) (pool : Address), ReadsRecorder m pool (run recorderStep s cs) →
        (∃ window, m.sellAnchorWindow pool = .ok window ∧
          min (min ((run recorderStep s cs).now - s.recorder.oldestObservation) (spacing * (c - 1)))
            Basket.Market.sellAnchorWindowSeconds ≤ window ∧
          (run recorderStep s cs).recorder.meanTick (run recorderStep s cs).now window ≠ .error .observationTooOld ∧
          (0 < window → (run recorderStep s cs).now ≤ timeAt (run recorderStep s cs).history 0 + maxStaleness →
            ∃ mean, m.meanTick pool window = .ok mean)) ∧
        ∀ window mean, m.meanTick pool window = .ok mean → ∃ before after,
          m.observe pool window = some (before, after) ∧ mean = (after - before).fdiv (window : Int) := by
  have hf := reachable_faithful h₀ hs
  have hf' : (run recorderStep s cs).Faithful := run_invariant (fun _ _ _ => recorderStep_faithful) hf cs
  have hbound := oldest_bound hf cs hc hspaced
  have hle := hf.oldest_le_newest.trans hf.newest_le_now
  have hle' := hf'.oldest_le_newest.trans hf'.newest_le_now
  have hnewest := hf'.newest_time
  have hserved : ∀ a, a ≤ min ((run recorderStep s cs).now - s.recorder.oldestObservation) (spacing * (c - 1)) →
      (run recorderStep s cs).recorder.oldestObservation + a ≤ (run recorderStep s cs).now := by
    intro a ha
    obtain ⟨hage, hspan⟩ := Nat.le_min.1 ha
    rcases hbound with hkept | hspacings <;> omega
  refine ⟨fun secondsAgos hfresh hall => ?_, fun m pool hm => ⟨?_, fun window mean => market_meanTick_floor hm hf'⟩⟩
  · have hreach : ¬ ∃ a ∈ secondsAgos,
        (run recorderStep s cs).now < (run recorderStep s cs).recorder.oldestObservation + a := by
      rintro ⟨a, ha, hmissed⟩
      exact absurd (hserved a (hall a ha)) (Nat.not_le.2 hmissed)
    rw [observe_eq hf', if_neg (by omega), if_neg hreach]
  · refine ⟨_, sellAnchorWindow_eq hm hf', ?_, ?_, fun hpos hfresh => ?_⟩
    · have hwhole := hserved _ le_rfl
      omega
    · rw [meanTick_eq hf']
      split
      · simp
      · rw [if_neg (by omega)]
        split <;> simp
    · rw [market_meanTick_eq hm hf', if_neg (by omega), if_neg (by omega)]
      exact ⟨_, rfl⟩

/-- A recorder grown to ten slots right after its deployment, eight seconds and three records later. -/
theorem recorder_history_served_grown :
    ∃ s₀, RecorderState.deployed 100 (poolWord 5) = .ok s₀ ∧
      (run recorderStep (run recorderStep s₀ [.grow 10, .advance 102, .record (poolWord 5)])
        [.advance 104, .record (poolWord 9), .advance 106, .record (poolWord 5), .advance 108]).recorder.observe 108
          [8, 0] = .ok ([0, 48], [0, 0]) := by
  refine ⟨_, rfl, ?_⟩
  have h := (@recorder_history_served 100 (poolWord 5) _ _ rfl ⟨[.grow 10, .advance 102, .record (poolWord 5)], rfl⟩
    [.advance 104, .record (poolWord 9), .advance 106, .record (poolWord 5), .advance 108] 2 10
    (by decide +kernel) (by decide +kernel)).1 [8, 0] (by decide +kernel) (by decide +kernel)
  exact h.trans (by decide +kernel)

/-- A ring that grows after it has evicted the first observation does not serve its age: three records two seconds apart
leave one slot, and only the next one widens the ring to ten. -/
theorem grown_ring_misses_first_observation :
    ¬ ∀ (t : Fin (2 ^ 32)) (data : Nat) (s₀ s : RecorderState) (spacing c : Nat),
      RecorderState.deployed t data = .ok s₀ → Reachable recorderStep s₀ s → Spaced spacing s.history →
      c ≤ s.recorder.ring.cardinality → s.now ≤ timeAt s.history 0 + maxStaleness →
      ∀ a, a ≤ min (s.now - t.val) (spacing * (c - 1)) → ∃ answer, s.recorder.observe s.now [a, 0] = .ok answer := by
  intro h
  obtain ⟨s₀, h₀⟩ : ∃ s₀, RecorderState.deployed 100 (poolWord 5) = .ok s₀ := ⟨_, rfl⟩
  have hold : (run recorderStep s₀ [.advance 102, .record (poolWord 5), .advance 104, .record (poolWord 5), .grow 10,
      .advance 106, .record (poolWord 5)]).recorder.observe 106 [6, 0] = .error .observationTooOld := by
    cases h₀
    decide +kernel
  obtain ⟨answer, hanswer⟩ := h 100 (poolWord 5) s₀ _ 2 10 h₀ ⟨[.advance 102, .record (poolWord 5), .advance 104,
    .record (poolWord 5), .grow 10, .advance 106, .record (poolWord 5)], rfl⟩ (by cases h₀; decide +kernel)
    (by cases h₀; decide +kernel) (by cases h₀; decide +kernel) 6 (by cases h₀; decide +kernel)
  have hnow : (run recorderStep s₀ [.advance 102, .record (poolWord 5), .advance 104, .record (poolWord 5), .grow 10,
      .advance 106, .record (poolWord 5)]).now = 106 := by
    cases h₀
    decide +kernel
  rw [hnow, hold] at hanswer
  cases hanswer

end RobotMoney
