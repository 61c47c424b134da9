import RobotMoney.Recorder.History

/-!
# What `observe` answers

The binary search runs over positions counted from the slot after the newest snapshot; unwritten slots come first and
count as older than everything.  It keeps the position of the youngest snapshot not after the target in its interval,
which shrinks in every round, so it returns two neighbouring snapshots around the target (`binarySearch_spec`).
Between neighbours the integral is a line whose slope divides exactly, so the answer is the integral itself.
-/

namespace RobotMoney

open Evm List

/-- The time of the snapshot of age `k`. -/
def timeAt (h : List RecordEntry) (k : Nat) : Nat := ((h[k]?).map RecordEntry.time).getD 0

theorem timeAt_of_getElem {h : List RecordEntry} {k : Nat} {e : RecordEntry} (he : h[k]? = some e) :
    timeAt h k = e.time := by simp [timeAt, he]

theorem timeAt_lt {h : List RecordEntry} (hd : Descending (recordedTicks h)) {i j : Nat} (hij : i < j)
    (hj : j < h.length) : timeAt h j < timeAt h i := by
  unfold Descending recordedTicks at hd
  rw [pairwise_map, pairwise_iff_getElem] at hd
  have := hd i j (by omega) hj hij
  rw [timeAt_of_getElem (getElem?_eq_getElem hj), timeAt_of_getElem (getElem?_eq_getElem (by omega))]
  exact this

namespace RecorderState.Faithful

open List Recorder

variable {s : RecorderState} {target : Nat}

private theorem exists_entry (hs : s.Faithful) {k : Nat} (hk : k < held s.history) : ∃ e, s.history[k]? = some e := by
  have := hs.holds.le_length
  exact ⟨_, getElem?_eq_getElem (show k < s.history.length by omega)⟩

theorem newest_time (hs : s.Faithful) : timeAt s.history 0 = s.recorder.newest.blockTimestamp := by
  obtain ⟨rest, hrest⟩ := hs.newest
  simp [timeAt, hrest]

private theorem slot_at (hs : s.Faithful) {i k : Nat} (hk : k < s.recorder.ring.cardinality)
    (hi : i + k + 1 = (s.recorder.ring.index + 1) % s.recorder.ring.cardinality + s.recorder.ring.cardinality) :
    (∀ e, k < held s.history → s.history[k]? = some e →
        s.recorder.observations (i % s.recorder.ring.cardinality) = snapshotOf s.history e) ∧
      (held s.history ≤ k → (s.recorder.observations (i % s.recorder.ring.cardinality)).initialized = false) := by
  have hidx := s.recorder.ring.index_lt
  have hle := hs.holds.le_cardinality
  rw [add_mod_eq_ageSlot hidx hk hi]
  constructor
  · intro e hkh he
    have hsame : ageSlot s.recorder.ring.cardinality s.recorder.ring.index k =
        ageSlot (held s.history) s.recorder.ring.index k := by
      rcases hs.full_or_linear with hfull | hlin
      · rw [hfull]
      unfold ageSlot
      rw [if_pos (by omega), if_pos (by omega)]
    rw [hsame]
    exact hs.holds.stored k e hkh he
  · intro hkh
    have hlin : held s.history = s.recorder.ring.index + 1 := by
      rcases hs.full_or_linear with hfull | hlin
      · omega
      · exact hlin
    have hnot := hs.holds.initialized (ageSlot s.recorder.ring.cardinality s.recorder.ring.index k)
    rw [Bool.eq_false_iff, ne_eq, hnot]
    unfold ageSlot
    rw [if_neg (by omega)]
    omega

theorem oldest_eq (hs : s.Faithful) :
    ∃ e, s.history[held s.history - 1]? = some e ∧ s.recorder.oldest = snapshotOf s.history e := by
  have hpos := hs.index_lt
  have hidx := s.recorder.ring.index_lt
  have hle := hs.holds.le_cardinality
  obtain ⟨e, he⟩ := hs.exists_entry (show held s.history - 1 < held s.history by omega)
  have hstored := hs.holds.stored (held s.history - 1) e (by omega) he
  refine ⟨e, he, ?_⟩
  unfold Recorder.oldest
  dsimp only
  rcases lt_or_ge (held s.history) s.recorder.ring.cardinality with hlt | hge
  · have hlin : held s.history = s.recorder.ring.index + 1 := by
      have := hs.full_or_linear
      omega
    have hblank := hs.holds.initialized (s.recorder.ring.index + 1)
    rw [Nat.mod_eq_of_lt (by omega), if_neg (by rw [hblank]; omega)]
    rw [show ageSlot (held s.history) s.recorder.ring.index (held s.history - 1) = 0 by
      unfold ageSlot; split <;> omega] at hstored
    exact hstored
  have hfull : held s.history = s.recorder.ring.cardinality := by omega
  have hslot : (s.recorder.ring.index + 1) % s.recorder.ring.cardinality =
      ageSlot (held s.history) s.recorder.ring.index (held s.history - 1) := by
    rw [← wrapIndex_eq_mod (by omega)]
    unfold wrapIndex ageSlot
    split <;> split <;> omega
  rw [hslot, hstored]
  simp [snapshotOf]

/-- The search finds two neighbouring snapshots around the target, when `k` is the youngest not after it. -/
theorem binarySearch_spec (hs : s.Faithful) {k : Nat} (hk0 : 0 < k) (hk : k < held s.history)
    (hbefore : ∀ j, j < k → target < timeAt s.history j)
    (hafter : ∀ j, k ≤ j → j < held s.history → timeAt s.history j ≤ target) (rounds lo hi : Nat)
    (hlo : (s.recorder.ring.index + 1) % s.recorder.ring.cardinality ≤ lo)
    (hhi : hi < (s.recorder.ring.index + 1) % s.recorder.ring.cardinality + s.recorder.ring.cardinality)
    (hin : lo + k + 1 ≤ (s.recorder.ring.index + 1) % s.recorder.ring.cardinality + s.recorder.ring.cardinality ∧
      (s.recorder.ring.index + 1) % s.recorder.ring.cardinality + s.recorder.ring.cardinality ≤ hi + k + 1)
    (hrounds : hi < lo + rounds) :
    ∃ (j : Nat) (e e' : RecordEntry), 0 < j ∧ j < held s.history ∧ s.history[j]? = some e ∧
      s.history[j - 1]? = some e' ∧ e.time ≤ target ∧ target ≤ e'.time ∧
      s.recorder.binarySearch target rounds lo hi = .ok (snapshotOf s.history e, snapshotOf s.history e') := by
  induction rounds generalizing lo hi with
  | zero => omega
  | succ rounds ih =>
    set first := (s.recorder.ring.index + 1) % s.recorder.ring.cardinality with hfirst
    have hle := hs.holds.le_cardinality
    -- the age that the middle position stands for
    obtain ⟨j, hj⟩ : ∃ j, (lo + hi) / 2 + j + 1 = first + s.recorder.ring.cardinality :=
      ⟨first + s.recorder.ring.cardinality - 1 - (lo + hi) / 2, by omega⟩
    obtain ⟨hstored, hblank⟩ := hs.slot_at (show j < s.recorder.ring.cardinality by omega) hj
    unfold binarySearch
    dsimp only
    rcases lt_or_ge j (held s.history) with hjh | hjh
    · obtain ⟨e, he⟩ := hs.exists_entry hjh
      rw [hstored e hjh he, if_neg (by simp [snapshotOf])]
      have htime : timeAt s.history j = e.time := timeAt_of_getElem he
      by_cases hat : e.time ≤ target
      · have hkj : k ≤ j := by
          by_contra hc
          have := hbefore j (by omega)
          omega
        obtain ⟨e', he'⟩ := hs.exists_entry (show j - 1 < held s.history by omega)
        have htime' : timeAt s.history (j - 1) = e'.time := timeAt_of_getElem he'
        have hnext := (hs.slot_at (i := (lo + hi) / 2 + 1) (k := j - 1) (by omega) (by omega)).1 e' (by omega) he'
        rw [hnext]
        by_cases hbetween : target ≤ e'.time
        · rw [if_pos ⟨hat, hbetween⟩]
          exact ⟨j, e, e', by omega, hjh, he, he', hat, hbetween, rfl⟩
        rw [if_neg (fun h => hbetween h.2), if_neg (fun h => h hat)]
        have hkj' : k ≤ j - 1 := by
          by_contra hc
          have := hbefore (j - 1) (by omega)
          omega
        exact ih _ _ (by omega) hhi (by omega) (by omega)
      have hlate : ¬ (snapshotOf s.history e).blockTimestamp ≤ target := hat
      rw [if_neg (fun h => hlate h.1), if_pos hlate]
      have hjk : j < k := by
        by_contra hc
        have := hafter j (by omega) hjh
        omega
      have hsub : (sub ((lo + hi) / 2) 1 : Except RecorderError Nat) = .ok ((lo + hi) / 2 - 1) := by
        rw [sub_eq_ok]
        omega
      rw [hsub, ok_bind]
      exact ih _ _ hlo (by omega) (by omega) (by omega)
    rw [if_pos (hblank hjh)]
    exact ih _ _ (by omega) hhi (by omega) (by omega)

section

variable (hs : s.Faithful)

include hs

private theorem surrounding_spec (hnew : target < s.recorder.newest.blockTimestamp)
    (hold : s.recorder.oldestObservation ≤ target) :
    ∃ (j : Nat) (e e' : RecordEntry), 0 < j ∧ j < held s.history ∧ s.history[j]? = some e ∧
      s.history[j - 1]? = some e' ∧ e.time ≤ target ∧ target ≤ e'.time ∧
      s.recorder.surrounding target = .ok (snapshotOf s.history e, snapshotOf s.history e') := by
  have hpos := hs.index_lt
  have hle := hs.holds.le_cardinality
  have hlen := hs.holds.le_length
  obtain ⟨last, hlast, holdest⟩ := hs.oldest_eq
  have hreach : timeAt s.history (held s.history - 1) ≤ target := by
    rw [timeAt_of_getElem hlast]
    have : s.recorder.oldestObservation = last.time := by simp [oldestObservation, holdest, snapshotOf]
    omega
  -- the youngest snapshot not after the target
  have hexists : ∃ k, timeAt s.history k ≤ target := ⟨_, hreach⟩
  have hk := Nat.find_spec hexists
  have hmin : ∀ j, j < Nat.find hexists → target < timeAt s.history j :=
    fun j hj => Nat.lt_of_not_le (Nat.find_min hexists hj)
  have hk0 : 0 < Nat.find hexists := by
    rcases Nat.eq_zero_or_pos (Nat.find hexists) with h0 | h0
    · rw [h0, hs.newest_time] at hk
      omega
    · exact h0
  have hkh : Nat.find hexists ≤ held s.history - 1 := Nat.find_min' hexists hreach
  have hafter : ∀ j, Nat.find hexists ≤ j → j < held s.history → timeAt s.history j ≤ target := by
    intro j hj hjh
    rcases Nat.eq_or_lt_of_le hj with rfl | hlt
    · exact hk
    have := timeAt_lt hs.descending hlt (by omega)
    omega
  have hcard : (s.recorder.ring.index + 1) % s.recorder.ring.cardinality < s.recorder.ring.cardinality :=
    Nat.mod_lt _ (by omega)
  unfold surrounding
  dsimp only
  rw [if_neg (by omega), revertIf_of_not _ (show ¬ s.recorder.oldest.blockTimestamp > target from Nat.not_lt.2 hold),
    ok_bind]
  exact hs.binarySearch_spec hk0 (by omega) hmin hafter _ _ _ le_rfl (by omega) (by omega) (by omega)

private theorem integral_between {j : Nat} {e e' : RecordEntry} (hj : 0 < j) (he : s.history[j]? = some e)
    (he' : s.history[j - 1]? = some e') {u : Nat} (hu : e.time ≤ u) (hu' : u ≤ e'.time) :
    tickIntegral s.history u = tickIntegral s.history e.time + e.tick * ((u - e.time : Nat) : Int) := by
  obtain ⟨hlen, hget⟩ := List.getElem?_eq_some_iff.1 he
  have hsplit : s.history = s.history.take j ++ e :: s.history.drop (j + 1) := by
    rw [← hget, cons_getElem_drop_succ, take_append_drop]
  have hdesc := hs.descending
  rw [hsplit] at hdesc
  have hnewer : ∀ x ∈ s.history.take j, u ≤ x.time := by
    intro x hx
    obtain ⟨i, hi, rfl⟩ := getElem_of_mem hx
    rw [length_take] at hi
    have hxt : timeAt s.history i = ((s.history.take j)[i]).time := by
      rw [getElem_take]
      exact timeAt_of_getElem (getElem?_eq_getElem (by omega))
    have het : timeAt s.history (j - 1) = e'.time := timeAt_of_getElem he'
    rcases lt_or_ge i (j - 1) with hlt | hge
    · have := timeAt_lt hs.descending hlt (by omega)
      omega
    have hij : timeAt s.history i = timeAt s.history (j - 1) := by
      congr 1
      omega
    omega
  have hseg := tickIntegral_segment hdesc hu hnewer
  rwa [← hsplit] at hseg

private theorem interpolate_eq {j : Nat} {e e' : RecordEntry} (hj : 0 < j) (he : s.history[j]? = some e)
    (he' : s.history[j - 1]? = some e') (hlt : e.time < target) (hlt' : target < e'.time) :
    interpolate (snapshotOf s.history e) (snapshotOf s.history e') target = .ok (tickIntegral s.history target) := by
  have hnow : e'.time < 2 ^ 32 := lt_of_le_of_lt (hs.made_by_now e' (mem_of_getElem? he')) s.now_lt
  have htick := hs.tick_range e (mem_of_getElem? he)
  have hrise := hs.integral_between hj he he' (u := e'.time) (by omega) le_rfl
  have htarget := hs.integral_between hj he he' (u := target) (by omega) (by omega)
  have hrange := tickIntegral_range hs.history_ne_nil hs.tick_range (show target < 2 ^ 32 by omega)
  have hdelta : ((e'.time - e.time : Nat) : Int) ≠ 0 := by omega
  have hquot : (tickIntegral s.history e'.time - tickIntegral s.history e.time).tdiv ((e'.time - e.time : Nat) : Int) =
      e.tick := by
    rw [hrise, add_sub_cancel_left, Int.mul_tdiv_cancel _ hdelta]
  simp only [interpolate, snapshotOf, bind_eq_ok, sub_eq_ok, revertIf_eq_ok]
  refine ⟨e'.time - e.time, ⟨by omega, rfl⟩, target - e.time, ⟨by omega, rfl⟩, _, int56_of_range ?_, (),
    by omega, e.tick, ?_, ?_⟩
  · rw [hrise, add_sub_cancel_left]
    exact weighted_range htick (by omega)
  · rw [hquot]
    exact int56_of_range (by omega)
  · rw [htarget] at hrange ⊢
    exact extendCumulative_of_range (weighted_range htick (by omega)) hrange

private theorem transform_newest {u : Nat} (hu : s.recorder.newest.blockTimestamp ≤ u) (hlt : u < 2 ^ 32) :
    transform s.recorder.newest u s.recorder.lastTick = .ok ⟨u, tickIntegral s.history u, true⟩ := by
  simp only [transform, bind_eq_ok, sub_eq_ok]
  exact ⟨_, ⟨hu, rfl⟩, _, hs.extend_newest hu hlt, rfl⟩

theorem oldest_le_newest : s.recorder.oldestObservation ≤ s.recorder.newest.blockTimestamp := by
  obtain ⟨last, hlast, holdest⟩ := hs.oldest_eq
  have hlen := hs.holds.le_length
  have hpos := hs.index_lt
  have htime : s.recorder.oldestObservation = timeAt s.history (held s.history - 1) := by
    rw [timeAt_of_getElem hlast]
    simp [oldestObservation, holdest, snapshotOf]
  rw [← hs.newest_time, htime]
  rcases Nat.eq_zero_or_pos (held s.history - 1) with h0 | h0
  · rw [h0]
  · exact le_of_lt (timeAt_lt hs.descending h0 (by omega))

end

/-- One target: the integral, or `ObservationTooOld` when the ring does not reach it. -/
theorem observeSingle_eq (hs : s.Faithful) (secondsAgo : Nat) : s.recorder.observeSingle s.now secondsAgo =
      if s.now < s.recorder.oldestObservation + secondsAgo then .error .observationTooOld
      else .ok (tickIntegral s.history (s.now - secondsAgo)) := by
  have hnow := s.now_lt
  have hnewest := hs.newest_le_now
  have holdest := hs.oldest_le_newest
  unfold observeSingle
  by_cases hzero : secondsAgo = 0
  · subst hzero
    rw [if_pos rfl, if_neg (show ¬ s.now < s.recorder.oldestObservation + 0 by omega), Nat.sub_zero]
    by_cases hsame : s.recorder.newest.blockTimestamp = s.now
    · rw [if_neg (not_not.2 hsame), hs.newest_cumulative, hsame]
    · rw [if_pos hsame, hs.transform_newest hnewest hnow, ok_bind]
  rw [if_neg hzero]
  by_cases hbig : secondsAgo > s.now
  · rw [revertIf_of _ hbig, if_pos (by omega)]
    rfl
  rw [revertIf_of_not _ hbig, ok_bind]
  dsimp only
  generalize htarget : s.now - secondsAgo = target
  have hcond : (s.now < s.recorder.oldestObservation + secondsAgo) ↔ target < s.recorder.oldestObservation := by omega
  simp only [hcond]
  rcases lt_or_ge target s.recorder.newest.blockTimestamp with hbefore | hafter
  · rcases lt_or_ge target s.recorder.oldestObservation with hold | hold
    · rw [if_pos hold]
      unfold surrounding
      rw [if_neg (by omega), revertIf_of _ (show s.recorder.oldest.blockTimestamp > target from hold)]
      rfl
    rw [if_neg (by omega)]
    obtain ⟨j, e, e', hj, -, he, he', hle, hle', hfound⟩ := hs.surrounding_spec hbefore hold
    rw [hfound, ok_bind]
    show (if target = e.time then .ok (tickIntegral s.history e.time)
      else if target = e'.time then .ok (tickIntegral s.history e'.time)
      else interpolate (snapshotOf s.history e) (snapshotOf s.history e') target) =
      Except.ok (tickIntegral s.history target)
    by_cases heq : target = e.time
    · rw [if_pos heq, heq]
    rw [if_neg heq]
    by_cases heq' : target = e'.time
    · rw [if_pos heq', heq']
    rw [if_neg heq']
    exact hs.interpolate_eq hj he he' (by omega) (by omega)
  rw [if_neg (by omega)]
  unfold surrounding
  rw [if_pos hafter]
  by_cases hsame : s.recorder.newest.blockTimestamp = target
  · rw [if_pos hsame, ok_bind]
    dsimp only
    rw [if_pos hsame.symm, hs.newest_cumulative, hsame]
  rw [if_neg hsame, hs.transform_newest hafter (by omega)]
  simp only [ok_bind]
  rw [if_neg (Ne.symm hsame)]
  simp

end RecorderState.Faithful

theorem observe_eq {s : RecorderState} (hs : s.Faithful) (secondsAgos : List Nat) :
    s.recorder.observe s.now secondsAgos = if s.now > s.recorder.newest.blockTimestamp + maxStaleness then
        .error (.staleRecorder s.recorder.newest.blockTimestamp s.now)
      else if ∃ a ∈ secondsAgos, s.now < s.recorder.oldestObservation + a then .error .observationTooOld
      else .ok (secondsAgos.map fun a => tickIntegral s.history (s.now - a), secondsAgos.map fun _ => 0) := by
  have hsub : (sub s.now s.recorder.newest.blockTimestamp : Except RecorderError Nat) =
      .ok (s.now - s.recorder.newest.blockTimestamp) := by
    rw [sub_eq_ok]
    exact ⟨hs.newest_le_now, rfl⟩
  unfold Recorder.observe
  dsimp only
  rw [uint32_of_lt s.now_lt, hsub, ok_bind, mapM_eq_ite fun a _ => hs.observeSingle_eq a]
  by_cases hstale : s.now > s.recorder.newest.blockTimestamp + maxStaleness
  · rw [revertIf_of _ (by omega), if_pos hstale]
    rfl
  rw [revertIf_of_not _ (by omega), ok_bind, if_neg hstale]
  split <;> rfl

private theorem observe_grow {s : RecorderState} (hs : s.Faithful) (next : Fin (2 ^ 16)) (secondsAgos : List Nat) :
    (s.recorder.grow next).oldestObservation = s.recorder.oldestObservation ∧
      (s.recorder.grow next).observe s.now secondsAgos = s.recorder.observe s.now secondsAgos := by
  obtain ⟨hslots, hinit, -, hidx, hcard⟩ := grow_spec s.recorder next
  have hlt := s.recorder.ring.index_lt
  have hnew : (s.recorder.grow next).newest = s.recorder.newest := by
    unfold Recorder.newest
    rw [hidx]
    exact hslots _ hlt
  have hold : (s.recorder.grow next).oldestObservation = s.recorder.oldestObservation := by
    unfold Recorder.oldestObservation Recorder.oldest
    rw [hidx, hcard, hslots _ (Nat.mod_lt _ (by omega)), hslots 0 (by omega)]
  have hgrown := observe_eq (hs.grow next) secondsAgos
  dsimp only at hgrown
  rw [hnew, hold] at hgrown
  exact ⟨hold, by rw [hgrown, observe_eq hs]⟩

def WidenedBeforeEviction : List RecordEntry → Prop
  | [] => True
  | [e] => 1 ≤ e.cardinality
  | e :: e' :: rest =>
    (e.cardinality = e'.cardinality ∨ held (e' :: rest) = (e' :: rest).length) ∧ WidenedBeforeEviction (e' :: rest)

private theorem held_of_widenedBeforeEviction {e : RecordEntry} {rest : List RecordEntry}
    (h : WidenedBeforeEviction (e :: rest)) : held (e :: rest) = min (e :: rest).length e.cardinality := by
  induction rest generalizing e with
  | nil =>
    simp [held]
  | cons e' rest ih =>
    obtain ⟨hsame | hall, hrest⟩ := h
    · have hih := ih hrest
      show min (held (e' :: rest) + 1) e.cardinality = _
      rw [hih, hsame]
      simp only [length_cons]
      omega
    show min (held (e' :: rest) + 1) e.cardinality = _
    rw [hall, length_cons, length_cons, length_cons]

/-- In every run of `record` and `grow` the ring holds the latest snapshots in time order, `observe` answers with the
exact integral of the recorded ticks for every target from `oldestObservation` to now and reverts exactly when the
recorder is stale or a target is older than the oldest snapshot, and `grow` changes no answer.  The number of snapshots
held is `held`: each record adds one, up to the cardinality right after it. -/
theorem recorder_history_exact {t : Fin (2 ^ 32)} {data : Nat} {s₀ s : RecorderState}
    (h₀ : RecorderState.deployed t data = .ok s₀) (hs : Reachable recorderStep s₀ s) :
    HoldsLatest s.recorder s.history (held s.history) ∧ Descending (recordedTicks s.history) ∧
      (held s.history = s.recorder.ring.cardinality ∨ held s.history = s.recorder.ring.index + 1) ∧
      (WidenedBeforeEviction s.history → held s.history = min s.history.length s.recorder.ring.cardinality) ∧
      s.recorder.oldestObservation = timeAt s.history (held s.history - 1) ∧
      (∀ secondsAgos, s.recorder.observe s.now secondsAgos =
        if s.now > timeAt s.history 0 + maxStaleness then .error (.staleRecorder (timeAt s.history 0) s.now)
        else if ∃ a ∈ secondsAgos, s.now < s.recorder.oldestObservation + a then .error .observationTooOld
        else .ok (secondsAgos.map fun a => tickIntegral s.history (s.now - a), secondsAgos.map fun _ => 0)) ∧
      ∀ next secondsAgos, (s.recorder.grow next).oldestObservation = s.recorder.oldestObservation ∧
        (s.recorder.grow next).observe s.now secondsAgos = s.recorder.observe s.now secondsAgos := by
  have hf := reachable_faithful h₀ hs
  refine ⟨hf.holds, hf.descending, hf.full_or_linear, ?_, ?_, ?_, observe_grow hf⟩
  · obtain ⟨rest, hrest⟩ := hf.newest
    intro hwide
    rw [hrest] at hwide ⊢
    exact held_of_widenedBeforeEviction hwide
  · obtain ⟨last, hlast, holdest⟩ := hf.oldest_eq
    rw [timeAt_of_getElem hlast]
    simp [Recorder.oldestObservation, holdest, snapshotOf]
  · intro secondsAgos
    rw [hf.newest_time]
    exact observe_eq hf secondsAgos

def poolWord (tick : Nat) : Nat := 1 + tick * 2 ^ 160

theorem recorder_history_exact_two_records :
    ∃ s₀, RecorderState.deployed 100 (poolWord 5) = .ok s₀ ∧
      (run recorderStep s₀ [.advance 110, .record (poolWord 900), .advance 130]).recorder.observe 130 [0, 10] =
        .ok ([2150, 1100], [0, 0]) := by
  refine ⟨_, rfl, ?_⟩
  have h := (@recorder_history_exact 100 (poolWord 5) _ _ rfl
    ⟨[.advance 110, .record (poolWord 900), .advance 130], rfl⟩).2.2.2.2.2.1 [0, 10]
  exact h.trans (by decide +kernel)

/-- Snapshots evicted before the ring widened do not come back: after two records in a ring of one slot, `grow(10)` and
one more record the ring holds two of the four snapshots. -/
theorem ring_holds_fewer_after_eviction :
    ∃ s₀ s, RecorderState.deployed 100 (poolWord 5) = .ok s₀ ∧ Reachable recorderStep s₀ s ∧
      ¬ HoldsLatest s.recorder s.history (min s.history.length s.recorder.ring.cardinality) ∧
      ¬ HoldsLatest s.recorder s.history (min (s.history.length - 1) s.recorder.ring.cardinality) := by
  refine ⟨_, _, rfl, ⟨[.advance 110, .record (poolWord 5), .advance 120, .record (poolWord 5), .grow 10, .advance 130,
    .record (poolWord 5)], rfl⟩, fun h => ?_, fun h => ?_⟩
  · exact absurd ((h.initialized 2).2 (by decide +kernel)) (by decide +kernel)
  · exact absurd ((h.initialized 2).2 (by decide +kernel)) (by decide +kernel)

end RobotMoney
