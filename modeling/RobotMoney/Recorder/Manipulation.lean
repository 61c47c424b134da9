import Mathlib.Tactic.Linarith
import RobotMoney.Recorder.Observe

/-!
# What a manipulator of the pool can do to the recorded price

A record weights the time before it with the tick recorded earlier, so no later call touches an integral up to now
(`run_history`), and the tick it does write is a bounded step from the last one (`Paced`).  Against the mean that
would be read if nothing were recorded, an attack therefore moves the mean tick of a window by at most the rate times
the time it had, whatever the live ticks are.
-/

namespace RobotMoney

open Evm List Finset Except

private theorem recorderStep_history {s s' : RecorderState} {c : RecorderCall} (h : recorderStep s c = .ok s') :
    ∃ newer, s'.history = newer ++ s.history ∧ (∀ e ∈ newer, e.time = s.now) ∧ s.now ≤ s'.now := by
  cases c with
  | advance t =>
    simp only [recorderStep, ok.injEq] at h
    subst h
    exact ⟨[], rfl, by simp, le_max_left ..⟩
  | record data =>
    simp only [recorderStep, bind_eq_ok] at h
    obtain ⟨⟨r', recorded⟩, -, h⟩ := h
    dsimp only at h
    split at h
    · cases h
      exact ⟨[⟨s.now, r'.lastTick, r'.ring.cardinality⟩], rfl, by simp, le_rfl⟩
    cases h
    exact ⟨[], rfl, by simp, le_rfl⟩
  | grow next =>
    simp only [recorderStep, ok.injEq] at h
    subst h
    exact ⟨[], rfl, by simp, le_rfl⟩

/-- `x` came later than `s`: it has all of the history of `s`, with snapshots made since. -/
def RecorderState.Extends (s x : RecorderState) : Prop :=
  ∃ newer, x.history = newer ++ s.history ∧ (∀ e ∈ newer, s.now ≤ e.time) ∧ s.now ≤ x.now

private theorem run_history (s : RecorderState) (cs : List RecorderCall) : s.Extends (run recorderStep s cs) := by
  refine run_invariant (P := s.Extends) ?_ ?_ cs
  · rintro x c x' ⟨newer, hx, htimes, hnow⟩ hstep
    obtain ⟨added, hx', hadded, hnow'⟩ := recorderStep_history hstep
    refine ⟨added ++ newer, by rw [hx', hx, append_assoc], ?_, by omega⟩
    intro e he
    rcases mem_append.1 he with he | he
    · have := hadded e he
      omega
    · exact htimes e he
  · exact ⟨[], rfl, by simp, le_rfl⟩

variable {s : RecorderState} {d : Int} {w : Nat}

private theorem run_tickIntegral (hs : s.Faithful) (cs : List RecorderCall) {u : Nat} (hu : u ≤ s.now) :
    tickIntegral (run recorderStep s cs).history u = tickIntegral s.history u := by
  obtain ⟨newer, hhist, htimes, -⟩ := run_history s cs
  rw [hhist]
  apply tickIntegral_append hs.history_ne_nil
  intro e he
  have := htimes e he
  omega

private theorem record_again (h : s.recorder.newest.blockTimestamp = s.now) (data : Nat) :
    exec recorderStep s (.record data) = s := by
  have hrec : s.recorder.record s.now data = .ok (s.recorder, false) := by
    unfold Recorder.record
    dsimp only
    rw [uint32_of_lt s.now_lt, if_pos h]
  apply exec_of_ok
  simp only [recorderStep, hrec, ok_bind]
  rfl

private theorem exec_record_cases (s : RecorderState) (data : Nat) : exec recorderStep s (.record data) = s ∨
      ((exec recorderStep s (.record data)).recorder.newest.blockTimestamp = s.now ∧
        (exec recorderStep s (.record data)).now = s.now) := by
  cases h : recorderStep s (.record data) with
  | error e => exact .inl (exec_of_error h)
  | ok s' =>
    rw [exec_of_ok h]
    simp only [recorderStep, bind_eq_ok] at h
    obtain ⟨⟨r', recorded⟩, hrec, h⟩ := h
    rcases record_inv hrec with ⟨rfl, rfl, -⟩ | ⟨rfl, -, -, c, -, rfl⟩
    · simp only [Bool.false_eq_true, if_false, ok.injEq] at h
      exact .inl h.symm
    simp only [if_true, ok.injEq] at h
    subst h
    right
    simp [Recorder.newest, uint32_of_lt s.now_lt]

private theorem run_records (s : RecorderState) (words : List Nat) : run recorderStep s (words.map .record) = s ∨
      ∃ data ∈ words, run recorderStep s (words.map .record) = exec recorderStep s (.record data) := by
  induction words with
  | nil => exact .inl rfl
  | cons data words ih =>
    rw [List.map_cons, run_cons]
    rcases exec_record_cases s data with hsame | ⟨hnew, hnow⟩
    · rw [hsame]
      rcases ih with h | ⟨d, hd, h⟩
      · exact .inl h
      · exact .inr ⟨d, by simp [hd], h⟩
    right
    refine ⟨data, by simp, ?_⟩
    generalize exec recorderStep s (.record data) = x at hnew hnow
    clear ih
    induction words with
    | nil => rfl
    | cons d words ih =>
      rw [List.map_cons, run_cons, record_again (by omega)]
      exact ih

def OneStep (e e' : RecordEntry) : Prop :=
  e'.time ≤ e.time ∧ (e.tick - e'.tick).natAbs ≤ maxStep (e.time - e'.time)

def WithinRate (e e' : RecordEntry) : Prop :=
  e'.time ≤ e.time ∧ (e.tick - e'.tick).natAbs ≤ maxTickStepPerSecond * (e.time - e'.time)

def Paced (h : List RecordEntry) : Prop := h.IsChain OneStep

private theorem maxStep_le (elapsed : Nat) :
    maxStep elapsed ≤ maxTickStepPerSecond * elapsed ∧ maxStep elapsed ≤ maxTickStepPerSecond * clampElapsedCap := by
  unfold maxStep maxTickStepPerSecond clampElapsedCap
  omega

private theorem OneStep.withinRate {e e' : RecordEntry} (h : OneStep e e') : WithinRate e e' :=
  ⟨h.1, le_trans h.2 (maxStep_le _).1⟩

theorem WithinRate.trans {a b c : RecordEntry} (hab : WithinRate a b) (hbc : WithinRate b c) : WithinRate a c := by
  obtain ⟨h1, h2⟩ := hab
  obtain ⟨h3, h4⟩ := hbc
  unfold maxTickStepPerSecond at h2 h4
  unfold WithinRate maxTickStepPerSecond
  omega

private theorem Paced.pairwise {h : List RecordEntry} (hp : Paced h) : h.Pairwise WithinRate := by
  have hchain : h.IsChain WithinRate := List.IsChain.imp (fun _ _ => OneStep.withinRate) hp
  have : Trans WithinRate WithinRate WithinRate := ⟨WithinRate.trans⟩
  exact hchain.pairwise

private theorem recorderStep_paced {s s' : RecorderState} {c : RecorderCall} (hs : s.Faithful ∧ Paced s.history)
    (h : recorderStep s c = .ok s') : s'.Faithful ∧ Paced s'.history := by
  refine ⟨recorderStep_faithful hs.1 h, ?_⟩
  cases c with
  | advance t =>
    simp only [recorderStep, ok.injEq] at h
    exact h ▸ hs.2
  | record data =>
    simp only [recorderStep, bind_eq_ok] at h
    obtain ⟨⟨r', recorded⟩, hrec, h⟩ := h
    rcases hs.1.record hrec with ⟨rfl, rfl⟩ | ⟨rfl, hlt, htick, -⟩
    · simp only [Bool.false_eq_true, if_false, ok.injEq] at h
      exact h ▸ hs.2
    simp only [if_true, ok.injEq] at h
    subst h
    obtain ⟨rest, hrest⟩ := hs.1.newest
    have hpaced := hs.2
    have hclamp := clampTick_spec hs.1.lastTick_range (readSlot0_tick_range data)
      (s.now - s.recorder.newest.blockTimestamp)
    rw [← htick] at hclamp
    dsimp only
    rw [hrest] at hpaced ⊢
    refine List.IsChain.cons_cons ⟨le_of_lt hlt, ?_⟩ hpaced
    dsimp only
    omega
  | grow next =>
    simp only [recorderStep, ok.injEq] at h
    subst h
    exact hs.2

private theorem reachable_paced {now : Fin (2 ^ 32)} {data : Nat} {s₀ s : RecorderState}
    (h₀ : RecorderState.deployed now data = .ok s₀) (hs : Reachable recorderStep s₀ s) :
    s.Faithful ∧ Paced s.history := by
  refine hs.invariant (P := fun x : RecorderState => x.Faithful ∧ Paced x.history) ⟨faithful_deployed h₀, ?_⟩
    fun _ _ _ => recorderStep_paced
  unfold RecorderState.deployed at h₀
  rw [bind_eq_ok] at h₀
  obtain ⟨r, -, h₀⟩ := h₀
  cases h₀
  exact List.IsChain.singleton _

/-- The mean tick of the `window` seconds before `now`, rounded down, if nothing is recorded after `h`. -/
def meanOf (h : List RecordEntry) (now window : Nat) : Int :=
  (tickIntegral h now - tickIntegral h (now - window)) / (window : Int)

private theorem stepStart_le_timeAt (hs : s.Faithful) {k : Nat} (hk : k < s.history.length) :
    stepStart (recordedTicks s.history) ≤ timeAt s.history k := by
  have hget : s.history[k]? = some s.history[k] := getElem?_eq_getElem hk
  have hsplit : recordedTicks s.history = recordedTicks (s.history.take k) ++ recordedTicks (s.history.drop k) := by
    unfold recordedTicks
    rw [← map_append, take_append_drop]
  have hdrop : s.history.drop k = s.history[k] :: s.history.drop (k + 1) := (cons_getElem_drop_succ).symm
  have hdesc := hs.descending
  unfold Descending at hdesc
  rw [hsplit, pairwise_append] at hdesc
  have hne : recordedTicks (s.history.drop k) ≠ [] := by
    simpa [recordedTicks] using hk
  rw [hsplit, stepStart_append hne, timeAt_of_getElem hget, hdrop]
  rw [hdrop] at hdesc
  exact stepStart_le_head hdesc.2.1

theorem tickIntegral_sub {h : List RecordEntry} {a b : Nat} (hs : stepStart (recordedTicks h) ≤ a) (hab : a ≤ b) :
    tickIntegral h b - tickIntegral h a = ∑ u ∈ Finset.Ico a b, stepValue (recordedTicks h) u := by
  unfold tickIntegral
  rw [stepIntegral_add hs hab, add_sub_cancel_left]

private theorem tdiv_adjust_eq (hw : 0 < w) :
    (if d < 0 ∧ d.tmod (w : Int) ≠ 0 then d.tdiv (w : Int) - 1 else d.tdiv (w : Int)) = d / (w : Int) := by
  have hsign : ((w : Int)).sign = 1 := Int.sign_eq_one_of_pos (by omega)
  rw [Int.tdiv_eq_ediv, hsign]
  by_cases hneg : d < 0
  · by_cases hdvd : (w : Int) ∣ d
    · rw [if_neg (fun h => h.2 (Int.tmod_eq_zero_of_dvd hdvd)), if_pos (.inr hdvd)]
      omega
    rw [if_pos ⟨hneg, fun h => hdvd (Int.dvd_of_tmod_eq_zero h)⟩, if_neg (by omega)]
    omega
  rw [if_neg (fun h => hneg h.1), if_pos (.inl (by omega))]
  omega

theorem stepStart_le_oldest (hs : s.Faithful) : stepStart (recordedTicks s.history) ≤ s.recorder.oldestObservation := by
  obtain ⟨last, hlast, holdest⟩ := hs.oldest_eq
  have hlen := hs.holds.le_length
  have hpos := hs.index_lt
  have hstart := stepStart_le_timeAt hs (show held s.history - 1 < s.history.length by omega)
  rw [timeAt_of_getElem hlast] at hstart
  have htime : s.recorder.oldestObservation = last.time := by simp [Recorder.oldestObservation, holdest, snapshotOf]
  omega

theorem window_bounds (hs : s.Faithful) {window : Nat} (hreach : s.recorder.oldestObservation + window ≤ s.now) :
    -2 ^ 23 * (window : Int) ≤ tickIntegral s.history s.now - tickIntegral s.history (s.now - window) ∧
      tickIntegral s.history s.now - tickIntegral s.history (s.now - window) ≤ (2 ^ 23 - 1) * (window : Int) := by
  have hstart := stepStart_le_oldest hs
  have hsum := tickIntegral_sub (show stepStart (recordedTicks s.history) ≤ s.now - window by omega) (Nat.sub_le _ _)
  have hbounds := sum_Ico_bounds (Nat.sub_le s.now window)
    fun u hu _ => stepValue_range hs.history_ne_nil hs.tick_range (show stepStart (recordedTicks s.history) ≤
      u by omega)
  rwa [← hsum, show s.now - (s.now - window) = window by omega] at hbounds

private theorem mean_range (hw : 0 < w) (hlo : -2 ^ 23 * (w : Int) ≤ d) (hhi : d ≤ (2 ^ 23 - 1) * (w : Int)) :
    -2 ^ 23 ≤ d / (w : Int) ∧ d / (w : Int) < 2 ^ 23 := by
  have hw' : (0 : Int) < (w : Int) := by omega
  refine ⟨(Int.le_ediv_iff_mul_le hw').2 hlo, ?_⟩
  rw [Int.ediv_lt_iff_lt_mul hw']
  have : (2 ^ 23 - 1) * (w : Int) = 2 ^ 23 * (w : Int) - (w : Int) := by ring
  omega

theorem roundMean_eq (hw : 0 < w) (hlo : -2 ^ 23 * (w : Int) ≤ d) (hhi : d ≤ (2 ^ 23 - 1) * (w : Int)) :
    (if d < 0 ∧ d.tmod (w : Int) ≠ 0 then int24 (d.tdiv (w : Int)) - 1 else int24 (d.tdiv (w : Int))) =
      d / (w : Int) := by
  have hw' : (0 : Int) < (w : Int) := by omega
  obtain ⟨hlow, hhigh⟩ := mean_range hw hlo hhi
  have hfloor := tdiv_adjust_eq (d := d) hw
  split
  · rename_i hadj
    have hneg : d / (w : Int) < 0 := by
      rw [Int.ediv_lt_iff_lt_mul hw']
      omega
    rw [if_pos hadj] at hfloor
    rw [int24_of_range (by omega), hfloor]
  rename_i hadj
  rw [if_neg hadj] at hfloor
  rw [int24_of_range (by omega), hfloor]

/-- All of `meanTick`: stale, too old, an empty window, or the mean of the recorded ticks. -/
theorem meanTick_eq (hs : s.Faithful) (window : Nat) : s.recorder.meanTick s.now window =
      if s.now > s.recorder.newest.blockTimestamp + maxStaleness then
        .error (.staleRecorder s.recorder.newest.blockTimestamp s.now)
      else if s.now < s.recorder.oldestObservation + window then .error .observationTooOld
      else if window = 0 then .error (.panic .divisionByZero)
      else .ok (meanOf s.history s.now window) := by
  unfold Recorder.meanTick
  rw [observe_eq hs]
  by_cases hstale : s.now > s.recorder.newest.blockTimestamp + maxStaleness
  · rw [if_pos hstale, if_pos hstale]
    rfl
  rw [if_neg hstale, if_neg hstale]
  have hnewest := hs.newest_le_now
  have holdest := hs.oldest_le_newest
  have hany : (∃ a ∈ [window, 0], s.now < s.recorder.oldestObservation + a) ↔
      s.now < s.recorder.oldestObservation + window := by
    simp only [List.mem_cons, List.not_mem_nil, or_false, exists_eq_or_imp, exists_eq_left]
    omega
  by_cases hreach : s.now < s.recorder.oldestObservation + window
  · rw [if_pos (hany.2 hreach), if_pos hreach]
    rfl
  rw [if_neg (hany.not.2 hreach), if_neg hreach]
  obtain ⟨hlo, hhi⟩ := window_bounds hs (Nat.not_lt.1 hreach)
  have hnow := s.now_lt
  have hword : (window : Int) < 2 ^ 32 := by omega
  simp only [List.map_cons, List.map_nil, ok_bind, List.getElem?_cons_zero, List.getElem?_cons_succ, orPanic_some,
    Nat.sub_zero]
  rw [int56_of_range (by omega), ok_bind]
  by_cases hzero : window = 0
  · rw [revertIf_of _ hzero, if_pos hzero]
    rfl
  rw [revertIf_of_not _ hzero, ok_bind, if_neg hzero]
  have hround := roundMean_eq (Nat.pos_of_ne_zero hzero) hlo hhi
  have hrange := mean_range (Nat.pos_of_ne_zero hzero) hlo hhi
  unfold meanOf
  split
  · rename_i hadj
    rw [if_pos hadj] at hround
    rw [hround, if_pos hrange.1]
  rename_i hadj
  rw [if_neg hadj] at hround
  rw [hround]

theorem meanTick_eq_ok (hs : s.Faithful) {window : Nat} {m : Int} (h : s.recorder.meanTick s.now window = .ok m) :
    0 < window ∧ window ≤ s.now ∧ stepStart (recordedTicks s.history) ≤ s.now - window ∧
      m = meanOf s.history s.now window := by
  have hstart := stepStart_le_oldest hs
  rw [meanTick_eq hs] at h
  split at h
  · cases h
  split at h
  · cases h
  split at h
  · cases h
  cases h
  exact ⟨by omega, by omega, by omega, rfl⟩

section Attack

variable {s : RecorderState} {newer : List RecordEntry}

private theorem tick_moved (hs : s.Faithful) (hp : Paced (newer ++ s.history)) (htimes : ∀ e ∈ newer, s.now ≤ e.time)
    (u : Nat) :
    stepValue (recordedTicks (newer ++ s.history)) u = stepValue (recordedTicks s.history) u ∨
      ∃ e ∈ newer, e.time ≤ u ∧ stepValue (recordedTicks (newer ++ s.history)) u = e.tick ∧
        stepValue (recordedTicks s.history) u = s.recorder.lastTick ∧ (e.tick - s.recorder.lastTick).natAbs ≤
          maxTickStepPerSecond * (e.time - s.recorder.newest.blockTimestamp) := by
  have hmap : recordedTicks (newer ++ s.history) = recordedTicks newer ++ recordedTicks s.history := List.map_append
  rw [hmap]
  rcases stepValue_append_cases (recordedTicks newer) (recordedTicks s.history) u with h | ⟨q, hq, hle, hval⟩
  · exact .inl h
  simp only [recordedTicks, List.mem_map] at hq
  obtain ⟨e, he, rfl⟩ := hq
  obtain ⟨rest, hrest⟩ := hs.newest
  have hnewest := hs.newest_le_now
  have hsince := htimes e he
  have hrate := (List.pairwise_append.1 hp.pairwise).2.2 e he
    ⟨s.recorder.newest.blockTimestamp, s.recorder.lastTick, s.recorder.ring.cardinality⟩ (by simp [hrest])
  refine .inr ⟨e, he, hle, hval, ?_, hrate.2⟩
  have hstarted : s.recorder.newest.blockTimestamp ≤ u := by
    have : e.time ≤ u := hle
    omega
  simp [recordedTicks, hrest, stepValue, hstarted]

private theorem meanOf_moved (hs : s.Faithful) {now window bound : Nat} {g : Nat → Nat} (hw : 0 < window)
    (hstart : stepStart (recordedTicks s.history) ≤ now - window) (hg : ∀ u, now - window ≤ u → u < now →
      (stepValue (recordedTicks (newer ++ s.history)) u - stepValue (recordedTicks s.history) u).natAbs ≤ g u)
    (hsum : ∑ u ∈ Finset.Ico (now - window) now, g u ≤ bound * window) :
    (meanOf (newer ++ s.history) now window - meanOf s.history now window).natAbs ≤ bound := by
  have hsame : stepStart (recordedTicks (newer ++ s.history)) = stepStart (recordedTicks s.history) := by
    rw [show recordedTicks (newer ++ s.history) = recordedTicks newer ++ recordedTicks s.history from map_append]
    exact stepStart_append (by simpa [recordedTicks] using hs.history_ne_nil)
  unfold meanOf
  apply natAbs_ediv_sub_le hw
  rw [tickIntegral_sub (by omega) (Nat.sub_le _ _), tickIntegral_sub hstart (Nat.sub_le _ _), ← sum_sub_distrib]
  exact le_trans (natAbs_sum_Ico_le hg) hsum

variable {now window : Nat}

private theorem mean_moved_since_last_record (hs : s.Faithful) (hp : Paced (newer ++ s.history))
    (htimes : ∀ e ∈ newer, s.now ≤ e.time) (hw : 0 < window)
    (hstart : stepStart (recordedTicks s.history) ≤ now - window) (hle : window ≤ now) :
    (meanOf (newer ++ s.history) now window - meanOf s.history now window).natAbs ≤
      maxTickStepPerSecond * (now - s.recorder.newest.blockTimestamp) := by
  refine meanOf_moved hs (g := fun _ => maxTickStepPerSecond * (now - s.recorder.newest.blockTimestamp)) hw hstart
    ?_ ?_
  · intro u _ hu
    rcases tick_moved hs hp htimes u with h | ⟨e, -, heu, hval, hbase, hrate⟩
    · rw [h]
      simp
    rw [hval, hbase]
    refine le_trans hrate (Nat.mul_le_mul_left _ ?_)
    omega
  · rw [sum_const, Nat.card_Ico, smul_eq_mul, show now - (now - window) = window by omega, mul_comm]

private theorem sum_ramp (base start c b : Nat) (hc : start ≤ c) (hb : c ≤ b) :
    (∑ u ∈ Finset.Ico c b, (base + 10 * (u - start))) + 5 * (b - c) =
      (b - c) * (base + 10 * (c - start)) + 5 * ((b - c) * (b - c)) := by
  induction b, hb using Nat.le_induction with
  | base => simp
  | succ b hb ih =>
    rw [sum_Ico_succ_top hb, show b + 1 - c = (b - c) + 1 by omega, show b - start = (b - c) + (c - start) by omega]
    nlinarith [ih]

private theorem sum_attack_le {now window first : Nat} (hw : 119 ≤ window) (hle : window ≤ now) (hfirst : first ≤ now) :
    ∑ u ∈ Finset.Ico (now - window) now, (if u < first then 0 else 600 + 10 * (u - first)) ≤
      10 * (now - first) * window := by
  have hramp : ∀ c, first ≤ c → ∑ u ∈ Finset.Ico c now, (if u < first then 0 else 600 + 10 * (u - first)) =
      ∑ u ∈ Finset.Ico c now, (600 + 10 * (u - first)) := by
    intro c hc
    apply sum_congr rfl
    intro u hu
    rw [mem_Ico] at hu
    rw [if_neg (by omega)]
  rcases le_total first (now - window) with hbefore | hinside
  · -- the attack is older than the window
    have hsum := sum_ramp 600 first (now - window) now hbefore (Nat.sub_le _ _)
    rw [hramp _ hbefore]
    generalize ∑ u ∈ Finset.Ico (now - window) now, (600 + 10 * (u - first)) = total at hsum ⊢
    rw [show now - (now - window) = window by omega] at hsum
    obtain ⟨d, hd⟩ : ∃ d, now - window = first + d := ⟨now - window - first, by omega⟩
    rw [show now - window - first = d by omega] at hsum
    rw [show now - first = window + d by omega]
    nlinarith [Nat.mul_le_mul_left window hw]
  -- it began inside the window, and before it nothing moved
  have hzero : ∑ u ∈ Finset.Ico (now - window) first, (if u < first then 0 else 600 + 10 * (u - first)) = 0 := by
    apply Finset.sum_eq_zero
    intro u hu
    rw [mem_Ico] at hu
    rw [if_pos hu.2]
  rw [← sum_Ico_consecutive _ hinside hfirst, hzero, hramp _ le_rfl, zero_add]
  have hsum := sum_ramp 600 first first now le_rfl hfirst
  generalize ∑ u ∈ Finset.Ico first now, (600 + 10 * (u - first)) = total at hsum ⊢
  rw [Nat.sub_self, Nat.mul_zero, Nat.add_zero] at hsum
  have hd : now - first ≤ window := by omega
  generalize now - first = d at hsum hd ⊢
  nlinarith [Nat.mul_le_mul_left d hw, Nat.mul_le_mul_left d hd]

private theorem mean_moved_since_first_record {first : RecordEntry} (hs : s.Faithful)
    (hp : Paced (newer ++ first :: s.history)) (htimes : ∀ e ∈ newer ++ [first], s.now ≤ e.time) (hw : 119 ≤ window)
    (hstart : stepStart (recordedTicks s.history) ≤ now - window) (hle : window ≤ now) (hfirst : first.time ≤ now) :
    (meanOf (newer ++ first :: s.history) now window - meanOf s.history now window).natAbs ≤
      maxTickStepPerSecond * (now - first.time) := by
  have happend : newer ++ first :: s.history = (newer ++ [first]) ++ s.history := by simp
  rw [happend] at hp ⊢
  have hrate := (pairwise_append.1 hp.pairwise).1
  obtain ⟨rest, hrest⟩ := hs.newest
  -- the first record of the attack is one step from the last record before it
  have hstep : (first.tick - s.recorder.lastTick).natAbs ≤ 600 := by
    unfold Paced at hp
    rw [← happend, hrest] at hp
    have hone := (isChain_cons_cons.1 hp.right_of_append).1
    exact le_trans hone.2 (maxStep_le _).2
  refine meanOf_moved hs (g := fun u => if u < first.time then 0 else 600 + 10 * (u - first.time)) (by omega) hstart
    ?_ (sum_attack_le hw hle hfirst)
  intro u _ hu
  rcases tick_moved hs hp htimes u with h | ⟨e, he, heu, hval, hbase, -⟩
  · rw [h]
    simp
  rw [hval, hbase]
  have hmoved : first.time ≤ e.time ∧ (e.tick - first.tick).natAbs ≤ 10 * (e.time - first.time) := by
    rcases mem_append.1 he with hmem | hmem
    · exact (pairwise_append.1 hrate).2.2 e hmem first (by simp)
    rw [List.mem_singleton] at hmem
    subst hmem
    omega
  rw [if_neg (by omega)]
  omega

end Attack

private theorem record_keeps_answer (hs : s.Faithful) (data secondsAgo : Nat) {v : List Int × List Nat}
    (h : s.recorder.observe s.now [secondsAgo] = .ok v) :
    let s' := exec recorderStep s (.record data)
    s'.recorder.observe s.now [secondsAgo] =
      if s.now < s'.recorder.oldestObservation + secondsAgo then .error .observationTooOld else .ok v := by
  intro s'
  have hs' : s'.Faithful := exec_invariant (fun _ _ _ => recorderStep_faithful) hs _
  have hv := observe_eq hs [secondsAgo]
  rw [h] at hv
  split at hv
  · cases hv
  rename_i hfresh
  split at hv
  · cases hv
  rename_i hreach
  simp only [List.mem_singleton, exists_eq_left] at hreach
  simp only [ok.injEq] at hv
  have hnow : s'.now = s.now := by
    rcases exec_record_cases s data with hsame | ⟨-, hnow⟩
    · show (exec recorderStep s (.record data)).now = s.now
      rw [hsame]
    · exact hnow
  have hnewest : s.now ≤ s'.recorder.newest.blockTimestamp + maxStaleness := by
    rcases exec_record_cases s data with hsame | ⟨hnew, -⟩
    · have : s' = s := hsame
      rw [this]
      omega
    have : s'.recorder.newest.blockTimestamp = s.now := hnew
    omega
  have hpast : tickIntegral s'.history (s.now - secondsAgo) = tickIntegral s.history (s.now - secondsAgo) :=
    run_tickIntegral hs [.record data] (Nat.sub_le _ _)
  have hobs := observe_eq hs' [secondsAgo]
  rw [hnow, if_neg (by omega)] at hobs
  simp only [List.mem_singleton, exists_eq_left, List.map_cons, List.map_nil, hpast] at hobs
  rw [hobs, hv]
  rfl

theorem continuations_agree (hs : s.Faithful) (cs ds : List RecorderCall) {a b : Nat} {v w : List Int × List Nat}
    (hv : (run recorderStep s cs).recorder.observe (run recorderStep s cs).now [a] = .ok v)
    (hw : (run recorderStep s ds).recorder.observe (run recorderStep s ds).now [b] = .ok w)
    (hsame : (run recorderStep s cs).now - a = (run recorderStep s ds).now - b)
    (hpast : (run recorderStep s cs).now - a ≤ s.now) : v = w := by
  have hanswer : ∀ (es : List RecorderCall) (x : Nat) (y : List Int × List Nat),
      (run recorderStep s es).recorder.observe (run recorderStep s es).now [x] = .ok y →
      (run recorderStep s es).now - x ≤ s.now →
      y = ([tickIntegral s.history ((run recorderStep s es).now - x)], [0]) := by
    intro es x y hy hx
    have hes : (run recorderStep s es).Faithful := run_invariant (fun _ _ _ => recorderStep_faithful) hs es
    rw [observe_eq hes] at hy
    split at hy
    · cases hy
    split at hy
    · cases hy
    simp only [ok.injEq, List.map_cons, List.map_nil, run_tickIntegral hs es hx] at hy
    exact hy.symm
  rw [hanswer cs a v hv hpast, hanswer ds b w hw (hsame ▸ hpast), hsame]

/-- Whatever the live ticks and the schedule of records: times that have passed keep their answers in every
continuation, an answered target keeps its answer through a record unless the record evicts it, records in one block
count once, recorded ticks move at most at the rate and by at most one full step per record, and the mean tick of a
window differs from what it would be without the later records by at most the rate times the time since the last
record before them (for windows of at least 119 seconds, since their own first record). -/
theorem recorder_manipulation_bounded {t : Fin (2 ^ 32)} {data : Nat} {s₀ s : RecorderState}
    (h₀ : RecorderState.deployed t data = .ok s₀) (hs : Reachable recorderStep s₀ s) :
    (∀ cs ds a b v w, (run recorderStep s cs).recorder.observe (run recorderStep s cs).now [a] = .ok v →
        (run recorderStep s ds).recorder.observe (run recorderStep s ds).now [b] = .ok w →
        (run recorderStep s cs).now - a = (run recorderStep s ds).now - b →
        (run recorderStep s cs).now - a ≤ s.now → v = w) ∧
      (∀ data a v, s.recorder.observe s.now [a] = .ok v →
        (exec recorderStep s (.record data)).recorder.observe s.now [a] =
          if s.now < (exec recorderStep s (.record data)).recorder.oldestObservation + a then
            .error .observationTooOld
          else .ok v) ∧
      (∀ words : List Nat, run recorderStep s (words.map .record) = s ∨
        ∃ data ∈ words, run recorderStep s (words.map .record) = exec recorderStep s (.record data)) ∧
      (∀ (i j : Nat) (e e' : RecordEntry), i < j → s.history[i]? = some e → s.history[j]? = some e' →
        (e.tick - e'.tick).natAbs ≤ maxTickStepPerSecond * (e.time - e'.time)) ∧
      (∀ (i : Nat) (e e' : RecordEntry), s.history[i]? = some e → s.history[i + 1]? = some e' →
        (e.tick - e'.tick).natAbs ≤ maxTickStepPerSecond * clampElapsedCap) ∧
      ∀ cs window m, (run recorderStep s cs).recorder.meanTick (run recorderStep s cs).now window = .ok m →
        (m - meanOf s.history (run recorderStep s cs).now window).natAbs ≤
            maxTickStepPerSecond * ((run recorderStep s cs).now - timeAt s.history 0) ∧
          ∀ newer first, 119 ≤ window → (run recorderStep s cs).history = newer ++ first :: s.history →
            (m - meanOf s.history (run recorderStep s cs).now window).natAbs ≤
              maxTickStepPerSecond * ((run recorderStep s cs).now - first.time) := by
  obtain ⟨hf, hp⟩ := reachable_paced h₀ hs
  refine ⟨fun cs ds a b v w => continuations_agree hf cs ds, fun data a v h => record_keeps_answer hf data a h,
    run_records s, ?_, ?_, ?_⟩
  · intro i j e e' hij he he'
    obtain ⟨hi, rfl⟩ := List.getElem?_eq_some_iff.1 he
    obtain ⟨hj, rfl⟩ := List.getElem?_eq_some_iff.1 he'
    exact (pairwise_iff_getElem.1 hp.pairwise i j hi hj hij).2
  · intro i e e' he he'
    obtain ⟨hi, rfl⟩ := List.getElem?_eq_some_iff.1 he
    obtain ⟨hj, rfl⟩ := List.getElem?_eq_some_iff.1 he'
    exact le_trans (isChain_iff_getElem.1 hp i hj).2 (maxStep_le _).2
  · intro cs window m hm
    obtain ⟨hf', hp'⟩ := run_invariant (P := fun x : RecorderState => x.Faithful ∧ Paced x.history)
      (fun _ _ _ => recorderStep_paced) ⟨hf, hp⟩ cs
    obtain ⟨hw, hle, hstart, rfl⟩ := meanTick_eq_ok hf' hm
    obtain ⟨newer, hhist, htimes, hnow⟩ := run_history s cs
    have hsame : stepStart (recordedTicks (run recorderStep s cs).history) = stepStart (recordedTicks s.history) := by
      rw [hhist, show recordedTicks (newer ++ s.history) = recordedTicks newer ++ recordedTicks s.history from
        map_append]
      exact stepStart_append (by simpa [recordedTicks] using hf.history_ne_nil)
    rw [hsame] at hstart
    refine ⟨?_, fun older first hlong hsplit => ?_⟩
    · rw [hhist] at hp' ⊢
      rw [hf.newest_time]
      exact mean_moved_since_last_record hf hp' htimes hw hstart hle
    · have hnewer : newer = older ++ [first] := by
        rw [hhist, show older ++ first :: s.history = (older ++ [first]) ++ s.history by simp] at hsplit
        exact append_cancel_right hsplit
      have hfirst : first.time ≤ (run recorderStep s cs).now := hf'.made_by_now first (by rw [hsplit]; simp)
      rw [hsplit] at hp' ⊢
      rw [hnewer] at htimes
      exact mean_moved_since_first_record hf hp' htimes hlong hstart hle hfirst

theorem recorder_manipulation_bounded_one_record :
    ∃ s₀, RecorderState.deployed 100 (poolWord 5) = .ok s₀ ∧
      ∀ (i j : Nat) (e e' : RecordEntry), i < j →
        (run recorderStep s₀ [.advance 110, .record (poolWord 900)]).history[i]? = some e →
        (run recorderStep s₀ [.advance 110, .record (poolWord 900)]).history[j]? = some e' →
        (e.tick - e'.tick).natAbs ≤ 10 * (e.time - e'.time) := by
  refine ⟨_, rfl, ?_⟩
  exact (@recorder_manipulation_bounded 100 (poolWord 5) _ _ rfl
    ⟨[.advance 110, .record (poolWord 900)], rfl⟩).2.2.2.1

/-- A record can turn an answer for an earlier target into a revert: in a ring of one slot it evicts the only snapshot
that reached the target. -/
theorem record_evicts_answer :
    ∃ s₀ s, RecorderState.deployed 100 (poolWord 5) = .ok s₀ ∧ Reachable recorderStep s₀ s ∧ s.now = 160 ∧
      s.recorder.observe s.now [30] = .ok ([150], [0]) ∧
      (exec recorderStep s (.record (poolWord 5))).recorder.observe s.now [30] = .error .observationTooOld := by
  refine ⟨_, _, rfl, ⟨[.advance 160], rfl⟩, ?_, ?_, ?_⟩
  · decide +kernel
  · decide +kernel
  · decide +kernel

end RobotMoney
