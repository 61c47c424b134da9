import RobotMoney.Evm.Ring
import RobotMoney.Evm.StepFunction
import RobotMoney.Recorder.PriceRecorder

/-!
# The recorder's history is exact

The snapshots made so far are a step function of time, the recorded tick from each snapshot on.  The ring holds the
latest of them, one per slot, with the integral of that step function as the cumulative (`RecorderState.Faithful`).
A record adds one snapshot and, in a full ring that does not widen, evicts the oldest (`held`); `observe` then answers
with the integral for every target the ring reaches (`observe_eq`).
-/

namespace RobotMoney

open Evm Except List Function

def recordedTicks (h : List RecordEntry) : List (Nat × Int) := h.map fun e => (e.time, e.tick)

/-- The time-integral of the recorded ticks, from the first snapshot to `u`. -/
def tickIntegral (h : List RecordEntry) (u : Nat) : Int := stepIntegral (recordedTicks h) u

def snapshotOf (h : List RecordEntry) (e : RecordEntry) : Observation := ⟨e.time, tickIntegral h e.time, true⟩

/-- How many snapshots the ring holds: each record adds one, up to the cardinality then in force. -/
def held : List RecordEntry → Nat
  | [] => 0
  | e :: rest => min (held rest + 1) e.cardinality

private theorem held_le_length (h : List RecordEntry) : held h ≤ h.length := by
  induction h with
  | nil => exact le_rfl
  | cons e h ih =>
    simp only [held, length_cons]
    omega

/-- The ring holds the `n` latest snapshots: they fill its first `n` slots, the newest at the write position and each
older one a slot before, and nothing else is initialised. -/
structure HoldsLatest (r : Recorder) (h : List RecordEntry) (n : Nat) : Prop where
  le_length : n ≤ h.length
  le_cardinality : n ≤ r.ring.cardinality
  initialized : ∀ j, (r.observations j).initialized = true ↔ j < n
  stored : ∀ k e, k < n → h[k]? = some e → r.observations (ageSlot n r.ring.index k) = snapshotOf h e

/-- The recorder's storage agrees with the snapshots made so far. -/
structure RecorderState.Faithful (s : RecorderState) : Prop where
  descending : Descending (recordedTicks s.history)
  made_by_now : ∀ e ∈ s.history, e.time ≤ s.now
  tick_range : ∀ e ∈ s.history, -2 ^ 23 ≤ e.tick ∧ e.tick < 2 ^ 23
  newest : ∃ rest, s.history = ⟨s.recorder.newest.blockTimestamp, s.recorder.lastTick,
    s.recorder.ring.cardinality⟩ :: rest
  holds : HoldsLatest s.recorder s.history (held s.history)
  index_lt : s.recorder.ring.index < held s.history
  full_or_linear : held s.history = s.recorder.ring.cardinality ∨ held s.history = s.recorder.ring.index + 1

theorem uint32_of_lt {x : Nat} (h : x < 2 ^ 32) : uint32 x = x := Nat.mod_eq_of_lt h

variable {x : Int}

theorem int56_of_range (h : -2 ^ 55 ≤ x ∧ x < 2 ^ 55) : int56 x = .ok x := if_pos h

variable {t : Int} {d : Nat}

theorem extendCumulative_of_range {c : Int} (hw : -2 ^ 55 ≤ t * (d : Int) ∧ t * (d : Int) < 2 ^ 55)
    (hc : -2 ^ 55 ≤ c + t * (d : Int) ∧ c + t * (d : Int) < 2 ^ 55) :
    extendCumulative c t d = .ok (c + t * (d : Int)) := by
  unfold extendCumulative
  rw [int56_of_range hw, ok_bind, int56_of_range hc]

theorem weighted_range (ht : -2 ^ 23 ≤ t ∧ t < 2 ^ 23) (hd : d < 2 ^ 32) :
    -2 ^ 55 ≤ t * (d : Int) ∧ t * (d : Int) < 2 ^ 55 := by
  have hd' : (0 : Int) ≤ (d : Int) := Int.natCast_nonneg d
  have h1 : (-2 ^ 23) * (d : Int) ≤ t * (d : Int) := Int.mul_le_mul_of_nonneg_right ht.1 hd'
  have h2 : t * (d : Int) ≤ 2 ^ 23 * (d : Int) := Int.mul_le_mul_of_nonneg_right (by omega) hd'
  omega

variable {h : List RecordEntry}

private theorem recordedTicks_ne_nil (hne : h ≠ []) : recordedTicks h ≠ [] := by
  simpa [recordedTicks] using hne

variable {u : Nat}

theorem stepValue_range (hne : h ≠ [])
    (ht : ∀ e ∈ h, -2 ^ 23 ≤ e.tick ∧ e.tick < 2 ^ 23) (hu : stepStart (recordedTicks h) ≤ u) :
    -2 ^ 23 ≤ stepValue (recordedTicks h) u ∧ stepValue (recordedTicks h) u ≤ 2 ^ 23 - 1 := by
  obtain ⟨q, hq, hval, -⟩ := stepValue_mem (recordedTicks_ne_nil hne) hu
  simp only [recordedTicks, mem_map] at hq
  obtain ⟨e, he, rfl⟩ := hq
  have := ht e he
  rw [hval]
  omega

theorem tickIntegral_range (hne : h ≠ []) (ht : ∀ e ∈ h, -2 ^ 23 ≤ e.tick ∧ e.tick < 2 ^ 23) (hu : u < 2 ^ 32) :
    -2 ^ 55 ≤ tickIntegral h u ∧ tickIntegral h u < 2 ^ 55 := by
  unfold tickIntegral stepIntegral
  rcases lt_or_ge u (stepStart (recordedTicks h)) with hlt | hge
  · rw [Finset.Ico_eq_empty (by omega), Finset.sum_empty]
    omega
  have hb := sum_Ico_bounds hge fun w hw _ => stepValue_range hne ht hw
  have hlo := weighted_range (t := -2 ^ 23) (by omega) (show u - stepStart (recordedTicks h) < 2 ^ 32 by omega)
  have hhi := weighted_range (t := 2 ^ 23 - 1) (by omega) (show u - stepStart (recordedTicks h) < 2 ^ 32 by omega)
  omega

theorem tickIntegral_append {newer older : List RecordEntry} (hold : older ≠ [])
    (h : ∀ e ∈ newer, u ≤ e.time) : tickIntegral (newer ++ older) u = tickIntegral older u := by
  unfold tickIntegral recordedTicks
  rw [map_append]
  apply stepIntegral_append (recordedTicks_ne_nil hold)
  intro q hq
  simp only [mem_map] at hq
  obtain ⟨e, he, rfl⟩ := hq
  exact h e he

theorem tickIntegral_segment {newer older : List RecordEntry} {e : RecordEntry} {u : Nat}
    (hdesc : Descending (recordedTicks (newer ++ e :: older))) (he : e.time ≤ u) (hn : ∀ x ∈ newer, u ≤ x.time) :
    tickIntegral (newer ++ e :: older) u =
      tickIntegral (newer ++ e :: older) e.time + e.tick * ((u - e.time : Nat) : Int) := by
  unfold tickIntegral recordedTicks at *
  simp only [map_append, map_cons] at hdesc ⊢
  refine stepIntegral_segment hdesc he ?_
  intro q hq
  simp only [mem_map] at hq
  obtain ⟨x, hx, rfl⟩ := hq
  exact hn x hx

theorem int24_of_range (h : -2 ^ 23 ≤ x ∧ x < 2 ^ 23) : int24 x = x := by
  unfold int24
  rw [Int.bmod_eq_iff (by decide)]
  exact ⟨by omega, by omega, by simp⟩

private theorem int24_range (x : Int) : -2 ^ 23 ≤ int24 x ∧ int24 x < 2 ^ 23 := by
  have h1 := @Int.le_bmod x (2 ^ 24) (by decide)
  have h2 := @Int.bmod_lt x (2 ^ 24) (by decide)
  unfold int24
  omega

theorem readSlot0_tick_range (data : Nat) : -2 ^ 23 ≤ (readSlot0 data).2 ∧ (readSlot0 data).2 < 2 ^ 23 := by
  unfold readSlot0
  dsimp only
  apply int24_range

/-- The most a record may move the tick after `elapsed` seconds. -/
def maxStep (elapsed : Nat) : Nat := maxTickStepPerSecond * min elapsed clampElapsedCap

theorem clampTick_spec {prev live : Int} (hp : -2 ^ 23 ≤ prev ∧ prev < 2 ^ 23) (hl : -2 ^ 23 ≤ live ∧ live < 2 ^ 23)
    (elapsed : Nat) : prev - (maxStep elapsed : Int) ≤ clampTick prev live elapsed ∧
      clampTick prev live elapsed ≤ prev + (maxStep elapsed : Int) ∧
      -2 ^ 23 ≤ clampTick prev live elapsed ∧ clampTick prev live elapsed < 2 ^ 23 := by
  have hstep : maxTickStepPerSecond * (if elapsed > clampElapsedCap then clampElapsedCap else elapsed) =
      maxStep elapsed := by
    unfold maxStep
    congr 1
    split <;> omega
  unfold clampTick
  dsimp only
  rw [hstep, int24_of_range (by split <;> [skip; split] <;> omega)]
  split <;> [skip; split] <;> omega

variable {data : Nat}

theorem record_inv {r r' : Recorder} {now : Nat} {recorded : Bool}
    (h : r.record now data = .ok (r', recorded)) :
    (recorded = false ∧ r' = r ∧ r.newest.blockTimestamp = uint32 now) ∨
      (recorded = true ∧ r.newest.blockTimestamp < uint32 now ∧ (readSlot0 data).1 ≠ 0 ∧
        ∃ c, extendCumulative r.newest.tickCumulative r.lastTick (uint32 now - r.newest.blockTimestamp) = .ok c ∧
          r' =
            { observations := update r.observations r.ring.advance.index ⟨uint32 now, c, true⟩
              lastTick := clampTick r.lastTick (readSlot0 data).2 (uint32 now - r.newest.blockTimestamp)
              ring := r.ring.advance }) := by
  unfold Recorder.record at h
  dsimp only at h
  split at h
  · rename_i hsame
    simp only [ok.injEq, Prod.mk.injEq] at h
    exact .inl ⟨h.2.symm, h.1.symm, hsame⟩
  rename_i hne
  simp only [bind_eq_ok, revertIf_eq_ok, sub_eq_ok, ok.injEq, Prod.mk.injEq] at h
  obtain ⟨-, hpool, delta, ⟨hle, rfl⟩, c, hc, rfl, rfl⟩ := h
  exact .inr ⟨rfl, by omega, hpool, c, hc, rfl⟩

namespace RecorderState.Faithful

variable {s : RecorderState}

section

variable (hs : s.Faithful)

include hs

theorem history_ne_nil : s.history ≠ [] := by
  obtain ⟨rest, hrest⟩ := hs.newest
  simp [hrest]

theorem newest_le_now : s.recorder.newest.blockTimestamp ≤ s.now := by
  obtain ⟨rest, hrest⟩ := hs.newest
  exact hs.made_by_now ⟨_, s.recorder.lastTick, s.recorder.ring.cardinality⟩ (by simp [hrest])

theorem lastTick_range : -2 ^ 23 ≤ s.recorder.lastTick ∧ s.recorder.lastTick < 2 ^ 23 := by
  obtain ⟨rest, hrest⟩ := hs.newest
  exact hs.tick_range ⟨s.recorder.newest.blockTimestamp, _, s.recorder.ring.cardinality⟩ (by simp [hrest])

theorem newest_cumulative :
    s.recorder.newest.tickCumulative = tickIntegral s.history s.recorder.newest.blockTimestamp := by
  obtain ⟨rest, hrest⟩ := hs.newest
  have h0 := hs.holds.stored 0 _ (by have := hs.index_lt; omega) (by rw [hrest]; rfl)
  rw [ageSlot_zero] at h0
  show (s.recorder.observations s.recorder.ring.index).tickCumulative = _
  rw [h0]
  rfl

private theorem integral_after_newest {u : Nat} (hu : s.recorder.newest.blockTimestamp ≤ u) :
    tickIntegral s.history u = s.recorder.newest.tickCumulative +
      s.recorder.lastTick * ((u - s.recorder.newest.blockTimestamp : Nat) : Int) := by
  obtain ⟨rest, hrest⟩ := hs.newest
  have hdesc := hs.descending
  rw [hs.newest_cumulative]
  rw [hrest] at hdesc ⊢
  exact @tickIntegral_segment [] _ _ _ hdesc hu (by simp)

theorem extend_newest {u : Nat} (hu : s.recorder.newest.blockTimestamp ≤ u) (hlt : u < 2 ^ 32) :
    extendCumulative s.recorder.newest.tickCumulative s.recorder.lastTick (u - s.recorder.newest.blockTimestamp) =
      .ok (tickIntegral s.history u) := by
  have hrange := tickIntegral_range hs.history_ne_nil hs.tick_range hlt
  rw [hs.integral_after_newest hu] at hrange ⊢
  exact extendCumulative_of_range (weighted_range hs.lastTick_range (by omega)) hrange

theorem advance_cases : (held s.history < s.recorder.ring.widened ∧ s.recorder.ring.index + 1 = held s.history ∧
        s.recorder.ring.advance.index = held s.history) ∨ (held s.history = s.recorder.ring.widened ∧
        s.recorder.ring.advance.index = (s.recorder.ring.index + 1) % held s.history) := by
  have hle := hs.holds.le_cardinality
  have hw := s.recorder.ring.widened_bounds
  rcases lt_or_ge (held s.history) s.recorder.ring.widened with hlt | hge
  · have hend : s.recorder.ring.index + 1 = held s.history := by
      rcases hs.full_or_linear with hfull | hlin
      · -- a full ring with room left is one that just widened, which it does only at its end
        unfold RingState.widened at hlt
        have := s.recorder.ring.index_lt
        split at hlt <;> omega
      · omega
    refine .inl ⟨hlt, hend, ?_⟩
    show (s.recorder.ring.index + 1) % s.recorder.ring.widened = _
    rw [Nat.mod_eq_of_lt (by omega), hend]
  have heq : held s.history = s.recorder.ring.widened := by omega
  exact .inr ⟨heq, by rw [heq]; rfl⟩

end

end RecorderState.Faithful

private theorem snapshotOf_cons {e x : RecordEntry} (hx : x ∈ h) (hle : x.time ≤ e.time) :
    snapshotOf (e :: h) x = snapshotOf h x := by
  unfold snapshotOf
  rw [show e :: h = [e] ++ h from rfl,
    tickIntegral_append (ne_nil_of_mem hx) (by simpa using hle)]

namespace RecorderState.Faithful

open List Function

variable {s : RecorderState}

/-- Writing the new snapshot where the ring says leaves it with the latest ones. -/
theorem holds_record (hs : s.Faithful) (tick newTick : Int) :
    HoldsLatest
      { observations := update s.recorder.observations s.recorder.ring.advance.index
          (snapshotOf (⟨s.now, tick, s.recorder.ring.widened⟩ :: s.history) ⟨s.now, tick, s.recorder.ring.widened⟩)
        lastTick := newTick
        ring := s.recorder.ring.advance }
      (⟨s.now, tick, s.recorder.ring.widened⟩ :: s.history)
      (held (⟨s.now, tick, s.recorder.ring.widened⟩ :: s.history)) := by
  set e : RecordEntry := ⟨s.now, tick, s.recorder.ring.widened⟩ with he
  have hsnap : ∀ (k : Nat) (x : RecordEntry), s.history[k]? = some x →
      snapshotOf (e :: s.history) x = snapshotOf s.history x := by
    intro k x hx
    have hmem : x ∈ s.history := mem_of_getElem? hx
    exact snapshotOf_cons hmem (hs.made_by_now x hmem)
  have hpos := hs.index_lt
  have hle := hs.holds.le_length
  have hheld : held (e :: s.history) = min (held s.history + 1) s.recorder.ring.widened := rfl
  have hinit := hs.holds.initialized
  refine ⟨held_le_length _, ?_, ?_, ?_⟩
  · show held (e :: s.history) ≤ s.recorder.ring.widened
    omega
  · intro j
    dsimp only
    rcases hs.advance_cases with ⟨hlt, hend, hidx⟩ | ⟨heq, hidx⟩
    · rw [hidx, hheld, min_eq_left (by omega)]
      by_cases hj : j = held s.history
      · subst hj
        simp [snapshotOf]
      rw [update_of_ne hj, hinit]
      omega
    rw [hidx, hheld, min_eq_right (by omega), ← heq]
    have hlt : (s.recorder.ring.index + 1) % held s.history < held s.history := Nat.mod_lt _ (by omega)
    by_cases hj : j = (s.recorder.ring.index + 1) % held s.history
    · subst hj
      simp [snapshotOf, hlt]
    · rw [update_of_ne hj, hinit]
  · intro k x hk hx
    dsimp only
    rcases hs.advance_cases with ⟨hlt, hend, hidx⟩ | ⟨heq, hidx⟩
    · rw [hheld, min_eq_left (by omega)] at hk ⊢
      rw [hidx]
      cases k with
      | zero =>
        simp only [getElem?_cons_zero, Option.some.injEq] at hx
        rw [ageSlot_zero, update_self, hx]
      | succ k =>
        rw [getElem?_cons_succ] at hx
        have hslot : ageSlot (held s.history + 1) (held s.history) (k + 1) =
            ageSlot (held s.history) s.recorder.ring.index k := by
          rw [ageSlot_grow (by omega), show held s.history - 1 = s.recorder.ring.index by omega]
        have hne := ageSlot_lt hs.index_lt (show k < held s.history by omega)
        rw [hslot, update_of_ne (by omega), hs.holds.stored k x (by omega) hx, hsnap k x hx]
    rw [hheld, min_eq_right (by omega), ← heq] at hk ⊢
    rw [hidx]
    cases k with
    | zero =>
      simp only [getElem?_cons_zero, Option.some.injEq] at hx
      rw [ageSlot_zero, update_self, hx]
    | succ k =>
      rw [getElem?_cons_succ] at hx
      obtain ⟨hslot, hne⟩ := ageSlot_overwrite hs.index_lt hk
      rw [hslot, update_of_ne hne, hs.holds.stored k x (by omega) hx, hsnap k x hx]

/-- A successful record keeps the storage faithful. -/
theorem record (hs : s.Faithful) {data : Nat} {r' : Recorder} {recorded : Bool}
    (h : s.recorder.record s.now data = .ok (r', recorded)) : (recorded = false ∧ r' = s.recorder) ∨
      (recorded = true ∧ s.recorder.newest.blockTimestamp < s.now ∧ r'.lastTick =
          clampTick s.recorder.lastTick (readSlot0 data).2 (s.now - s.recorder.newest.blockTimestamp) ∧
        RecorderState.Faithful
          { s with recorder := r', history := ⟨s.now, r'.lastTick, r'.ring.cardinality⟩ :: s.history }) := by
  have hts : uint32 s.now = s.now := uint32_of_lt s.now_lt
  rcases record_inv h with ⟨hrec, hr', -⟩ | ⟨hrec, hlt, -, c, hc, hr'⟩
  · exact .inl ⟨hrec, hr'⟩
  rw [hts] at hlt hc hr'
  rw [hs.extend_newest (by omega) s.now_lt, ok.injEq] at hc
  subst hr'
  refine .inr ⟨hrec, hlt, rfl, ?_⟩
  set tick := clampTick s.recorder.lastTick (readSlot0 data).2 (s.now - s.recorder.newest.blockTimestamp) with htick
  have hrange := clampTick_spec hs.lastTick_range (readSlot0_tick_range data)
    (s.now - s.recorder.newest.blockTimestamp)
  -- the cumulative written is the integral up to now, to which the new tick adds nothing yet
  have hsnap : (⟨s.now, c, true⟩ : Observation) =
      snapshotOf (⟨s.now, tick, s.recorder.ring.widened⟩ :: s.history) ⟨s.now, tick, s.recorder.ring.widened⟩ := by
    unfold snapshotOf
    rw [show ∀ e : RecordEntry, e :: s.history = [e] ++ s.history from fun _ => rfl,
      tickIntegral_append hs.history_ne_nil (by simp), hc]
  rw [hsnap]
  have hholds := hs.holds_record tick tick
  have hheld : held (⟨s.now, tick, s.recorder.ring.widened⟩ :: s.history) =
      min (held s.history + 1) s.recorder.ring.widened := rfl
  have hnew : ∀ x ∈ s.history, x.time < s.now := by
    obtain ⟨rest, hrest⟩ := hs.newest
    have hdesc := hs.descending
    rw [hrest] at hdesc
    unfold Descending recordedTicks at hdesc
    rw [map_cons, pairwise_cons] at hdesc
    intro x hx
    rw [hrest, mem_cons] at hx
    rcases hx with rfl | hx
    · exact hlt
    have := hdesc.1 (x.time, x.tick) (mem_map_of_mem hx)
    dsimp only at this
    omega
  refine ⟨?_, ?_, ?_, ⟨s.history, ?_⟩, hholds, ?_, ?_⟩
  · unfold Descending recordedTicks
    dsimp only
    rw [map_cons, pairwise_cons]
    refine ⟨?_, hs.descending⟩
    intro q hq
    simp only [mem_map] at hq
    obtain ⟨x, hx, rfl⟩ := hq
    exact hnew x hx
  · intro x hx
    rcases mem_cons.1 hx with rfl | hx
    · exact le_rfl
    · exact hs.made_by_now x hx
  · intro x hx
    rcases mem_cons.1 hx with rfl | hx
    · exact hrange.2.2
    · exact hs.tick_range x hx
  · simp [Recorder.newest, snapshotOf]
  · dsimp only
    rcases hs.advance_cases with ⟨hroom, -, hidx⟩ | ⟨hfull, hidx⟩
    · show s.recorder.ring.advance.index < held (⟨s.now, tick, s.recorder.ring.widened⟩ :: s.history)
      omega
    show s.recorder.ring.advance.index < held (⟨s.now, tick, s.recorder.ring.widened⟩ :: s.history)
    have := Nat.mod_lt (s.recorder.ring.index + 1) (show 0 < held s.history by have := hs.index_lt; omega)
    omega
  · dsimp only
    rcases hs.advance_cases with ⟨hroom, -, hidx⟩ | ⟨hfull, hidx⟩
    · right
      show held (⟨s.now, tick, s.recorder.ring.widened⟩ :: s.history) = s.recorder.ring.advance.index + 1
      omega
    left
    show held (⟨s.now, tick, s.recorder.ring.widened⟩ :: s.history) = s.recorder.ring.widened
    omega

end RecorderState.Faithful

private theorem touchSlots_spec (obs : Nat → Observation) (current count : Nat) :
    (∀ j, (touchSlots obs current count j).initialized = (obs j).initialized) ∧
      ∀ j, j < current → touchSlots obs current count j = obs j := by
  unfold touchSlots
  induction count generalizing obs current with
  | zero => exact ⟨fun _ => rfl, fun _ _ => rfl⟩
  | succ count ih =>
    rw [range'_succ, foldl_cons]
    obtain ⟨hinit, hbelow⟩ := ih (update obs current { obs current with blockTimestamp := 1 }) (current + 1)
    refine ⟨fun j => ?_, fun j hj => ?_⟩
    · rw [hinit]
      by_cases hjc : j = current
      · subst hjc
        simp
      · rw [update_of_ne hjc]
    · rw [hbelow j (by omega), update_of_ne (by omega)]

theorem grow_spec (r : Recorder) (next : Fin (2 ^ 16)) :
    (∀ j, j < r.ring.cardinality → (r.grow next).observations j = r.observations j) ∧
      (∀ j, ((r.grow next).observations j).initialized = (r.observations j).initialized) ∧
      (r.grow next).lastTick = r.lastTick ∧ (r.grow next).ring.index = r.ring.index ∧
      (r.grow next).ring.cardinality = r.ring.cardinality := by
  unfold Recorder.grow
  split
  · exact ⟨fun _ _ => rfl, fun _ => rfl, rfl, rfl, rfl⟩
  obtain ⟨hinit, hbelow⟩ :=
    touchSlots_spec r.observations r.ring.cardinalityNext (next.val - r.ring.cardinalityNext)
  have := r.ring.cardinality_le
  exact ⟨fun j hj => hbelow j (by omega), hinit, rfl, rfl, rfl⟩

theorem RecorderState.Faithful.grow {s : RecorderState} (hs : s.Faithful) (next : Fin (2 ^ 16)) :
    RecorderState.Faithful { s with recorder := s.recorder.grow next } := by
  obtain ⟨hslots, hinit, htick, hidx, hcard⟩ := grow_spec s.recorder next
  have hnew : (s.recorder.grow next).newest = s.recorder.newest := by
    unfold Recorder.newest
    rw [hidx]
    exact hslots _ s.recorder.ring.index_lt
  refine ⟨hs.descending, hs.made_by_now, hs.tick_range, ?_, ⟨hs.holds.le_length, ?_, ?_, ?_⟩, ?_, ?_⟩
  · dsimp only
    rw [hnew, htick, hcard]
    exact hs.newest
  · dsimp only
    rw [hcard]
    exact hs.holds.le_cardinality
  · intro j
    dsimp only
    rw [hinit]
    exact hs.holds.initialized j
  · intro k e hk he
    have hlt := ageSlot_lt hs.index_lt hk
    have hle := hs.holds.le_cardinality
    dsimp only
    rw [hidx, hslots _ (by omega)]
    exact hs.holds.stored k e hk he
  · dsimp only
    rw [hidx]
    exact hs.index_lt
  · dsimp only
    rw [hidx, hcard]
    exact hs.full_or_linear

theorem RecorderState.Faithful.wait {s : RecorderState} (hs : s.Faithful) (t : Fin (2 ^ 32)) : (s.wait t).Faithful := by
  refine ⟨hs.descending, fun e he => ?_, hs.tick_range, hs.newest, hs.holds, hs.index_lt, hs.full_or_linear⟩
  have := hs.made_by_now e he
  show e.time ≤ max s.now t.val
  omega

variable {now : Fin (2 ^ 32)}

theorem faithful_deployed {s : RecorderState} (h : RecorderState.deployed now data = .ok s) : s.Faithful := by
  simp only [RecorderState.deployed, Recorder.deploy, bind_eq_ok, revertIf_eq_ok, ok.injEq] at h
  obtain ⟨r, ⟨-, -, rfl⟩, rfl⟩ := h
  have htick := readSlot0_tick_range data
  generalize (readSlot0 data).2 = tick at htick ⊢
  have hzero : tickIntegral [⟨now.val, tick, 1⟩] now.val = 0 := stepIntegral_start [(now.val, tick)]
  refine ⟨by simp [Descending, recordedTicks], by simp, by simpa using htick, ⟨[], ?_⟩, ⟨by simp [held], ?_, ?_, ?_⟩,
    by simp [held], by simp [held]⟩
  · simp [Recorder.newest, uint32_of_lt now.isLt]
  · simp [held]
  · intro j
    by_cases hj : j = 0
    · simp [hj, held]
    · simp [hj, held, Observation.unset]
  · intro k e hk he
    have hk0 : k = 0 := by
      simp only [held] at hk
      omega
    subst hk0
    simp only [getElem?_cons_zero, Option.some.injEq] at he
    subst he
    simp [snapshotOf, held, hzero, uint32_of_lt now.isLt]

theorem recorderStep_faithful {s s' : RecorderState} {c : RecorderCall} (hs : s.Faithful)
    (h : recorderStep s c = .ok s') : s'.Faithful := by
  cases c with
  | advance t =>
    simp only [recorderStep, ok.injEq] at h
    exact h ▸ hs.wait t
  | record data =>
    simp only [recorderStep, bind_eq_ok] at h
    obtain ⟨⟨r', recorded⟩, hrec, h⟩ := h
    rcases hs.record hrec with ⟨rfl, rfl⟩ | ⟨rfl, -, -, hnew⟩
    · simp only [Bool.false_eq_true, if_false, ok.injEq] at h
      exact h ▸ hs
    simp only [if_true, ok.injEq] at h
    exact h ▸ hnew
  | grow next =>
    simp only [recorderStep, ok.injEq] at h
    exact h ▸ hs.grow next

theorem reachable_faithful {s₀ s : RecorderState}
    (h₀ : RecorderState.deployed now data = .ok s₀) (hs : Reachable recorderStep s₀ s) : s.Faithful :=
  hs.invariant (faithful_deployed h₀) fun _ _ _ => recorderStep_faithful

end RobotMoney
