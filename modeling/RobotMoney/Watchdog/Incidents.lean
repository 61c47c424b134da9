import RobotMoney.Watchdog.Pager

/-!
# One incident per condition (`receipt_liveness.rs`, `pager_state.rs`, `main.rs`)

A standing condition is polled, each poll asks the pager what to send, sends it and commits the outcome; a restart takes
the pager from the last saved state.  Nothing but a delivered page moves that state, so it is a function of what was
delivered (`Monitor.Inv`), and each page is justified by what was sent before it.  The time of the back-off is an `i64`
that stops at its largest value, so a back-off that would end after it ends there (`one_incident`).
-/

namespace RobotMoney.Watchdog

open List

/-- A page that was sent, by which process, and whether it was delivered. -/
structure Attempt where
  now : Int
  action : PageAction
  ok : Bool
  process : Nat
  deriving DecidableEq, Repr

/-- A pager of a process, the table, and what has been sent so far. -/
structure Monitor where
  pager : AlertPager
  rows : List PagerRow
  process : Nat
  sent : List Attempt

inductive Input where
  /-- The condition is firing or not; `delivered` is what the receiver does with a page. -/
  | poll (now : Int) (firing delivered : Bool)
  | restart
  deriving DecidableEq, Repr

namespace Monitor

variable (chainId : Int) (dedupKey : Text) (minRepageSecs : Nat)

def restorePager (rows : List PagerRow) : AlertPager :=
  .fromState minRepageSecs ((loadPagerState rows chainId dedupKey).getD .default)

def start : Monitor := ⟨restorePager chainId dedupKey minRepageSecs [], [], 0, []⟩

def action (m : Monitor) (now : Int) (firing : Bool) : PageAction :=
  if firing then m.pager.onFiring now else m.pager.onClear now

/-- `commit_page`, after a page was sent. -/
def commitPage (m : Monitor) (now : Int) (action : PageAction) (ok : Bool) : Monitor :=
  let (pager, changed) := m.pager.onPageResult now action ok
  { m with
    pager := pager
    rows := if changed then savePagerState m.rows chainId dedupKey pager.state else m.rows
    sent := m.sent ++ [⟨now, action, ok, m.process⟩] }

def step (m : Monitor) : Input → Monitor
  | .poll now firing delivered =>
    if m.action now firing = .none then m else m.commitPage chainId dedupKey now (m.action now firing) delivered
  | .restart => { m with pager := restorePager chainId dedupKey minRepageSecs m.rows, process := m.process + 1 }

def run (m : Monitor) (inputs : List Input) : Monitor := inputs.foldl (step chainId dedupKey minRepageSecs) m

def monitored (inputs : List Input) : Monitor :=
  (start chainId dedupKey minRepageSecs).run chainId dedupKey minRepageSecs inputs

end Monitor

def pollTimes (inputs : List Input) : List Int :=
  inputs.filterMap fun i =>
    match i with
    | .poll now _ _ => some now
    | .restart => none

def Attempt.Triggered (a : Attempt) : Prop := a.action = .trigger ∧ a.ok = true

def Attempt.Resolved (a : Attempt) : Prop := a.action = .resolve ∧ a.ok = true

def Attempt.tell (s : PagerState) (a : Attempt) : PagerState :=
  if a.ok then
    match a.action with
    | .trigger => ⟨true, some a.now⟩
    | .resolve => .default
    | .none => s
  else s

def believed (sent : List Attempt) : PagerState := sent.foldl Attempt.tell .default

@[simp] theorem believed_append (sent : List Attempt) (a : Attempt) :
    believed (sent ++ [a]) = a.tell (believed sent) := by
  rw [believed, believed, foldl_append, foldl_cons, foldl_nil]

private theorem believed_of_triggered {before mid : List Attempt} {t : Attempt} (ht : t.Triggered)
    (hmid : ∀ a ∈ mid, ¬ a.Resolved ∧ t.now ≤ a.now) :
    ∃ p, believed (before ++ t :: mid) = ⟨true, some p⟩ ∧ t.now ≤ p := by
  have hfold : ∀ (as : List Attempt) (p : Int), t.now ≤ p → (∀ a ∈ as, ¬ a.Resolved ∧ t.now ≤ a.now) →
      ∃ q, as.foldl Attempt.tell ⟨true, some p⟩ = ⟨true, some q⟩ ∧ t.now ≤ q := by
    intro as
    induction as with
    | nil => exact fun p hp _ => ⟨p, rfl, hp⟩
    | cons a as ih =>
      intro p hp has
      obtain ⟨⟨hresolved, hle⟩, hrest⟩ := forall_mem_cons.1 has
      rw [foldl_cons, Attempt.tell]
      split
      · rename_i hok
        split
        · exact ih a.now hle hrest
        · rename_i haction
          exact absurd ⟨haction, hok⟩ hresolved
        · exact ih p hp hrest
      · exact ih p hp hrest
  have htell : t.tell (believed before) = ⟨true, some t.now⟩ := by
    rw [Attempt.tell, if_pos ht.2, ht.1]
  rw [believed, foldl_append, foldl_cons, ← believed, htell]
  exact hfold mid t.now (le_refl _) hmid

private theorem exists_triggered_of_firing {sent : List Attempt} (h : (believed sent).firing = true) :
    ∃ before t mid, sent = before ++ t :: mid ∧ t.Triggered ∧ ∀ a ∈ mid, ¬ a.Resolved := by
  induction sent using reverseRecOn with
  | nil => cases h
  | append_singleton sent a ih =>
    rw [believed_append, Attempt.tell] at h
    have hkept : ¬ a.Triggered → ¬ a.Resolved → (believed sent).firing = true →
        ∃ before t mid, sent ++ [a] = before ++ t :: mid ∧ t.Triggered ∧ ∀ a ∈ mid, ¬ a.Resolved := by
      intro _ hresolved hfiring
      obtain ⟨before, t, mid, rfl, ht, hmid⟩ := ih hfiring
      refine ⟨before, t, mid ++ [a], by simp, ht, fun b hb => ?_⟩
      rcases mem_append.1 hb with hb | hb
      · exact hmid b hb
      · rwa [mem_singleton.1 hb]
    split at h
    · rename_i hok
      split at h
      · rename_i haction
        exact ⟨sent, a, [], rfl, ⟨haction, hok⟩, fun b hb => absurd hb not_mem_nil⟩
      · cases h
      rename_i haction
      refine hkept (fun ht => ?_) (fun hr => ?_) h
      · rw [ht.1] at haction
        cases haction
      · rw [hr.1] at haction
        cases haction
    rename_i hok
    exact hkept (fun ht => hok ht.2) (fun hr => hok hr.2) h

/-- The back-off after a failure: its end, cut to the largest `i64`. -/
def retryEnd (minRepageSecs : Nat) (now : Int) : Int := saturate (now + (min minRepageSecs retryFloorCeilingSecs : Nat))

private theorem saturate_le_of_nonneg {n : Int} (h : 0 ≤ n) : saturate n ≤ n := by
  unfold saturate
  omega

private theorem saturate_mono {m n : Int} (h : m ≤ n) : saturate m ≤ saturate n := by
  unfold saturate
  omega

namespace AlertPager

variable {p : AlertPager} {now : Int}

private theorem blocked_iff : p.blockedByRetryFloor now = true ↔ ∃ t, p.retryNotBefore = some t ∧ now < t := by
  unfold blockedByRetryFloor
  cases p.retryNotBefore with
  | none => simp
  | some t => simp

private theorem onFiring_eq_trigger : p.onFiring now = .trigger ↔ p.blockedByRetryFloor now = false ∧
    ∀ prev, p.state.lastPagedAt = some prev → (p.minRepageSecs : Int) ≤ saturate (now - prev) := by
  unfold onFiring
  cases hblocked : p.blockedByRetryFloor now with
  | true => simp
  | false =>
    cases p.state.lastPagedAt with
    | none => simp
    | some prev => simp

private theorem onFiring_ne_resolve : p.onFiring now ≠ .resolve := by
  unfold onFiring
  split
  · simp
  split
  · simp
  · split <;> simp

theorem onClear_eq_resolve : p.onClear now = .resolve ↔ p.blockedByRetryFloor now = false ∧ p.state.firing = true := by
  unfold onClear
  cases hblocked : p.blockedByRetryFloor now with
  | true => simp
  | false => cases p.state.firing <;> simp

private theorem onClear_ne_trigger : p.onClear now ≠ .trigger := by
  unfold onClear
  split
  · simp
  · split <;> simp

private theorem onPageResult_failed {action : PageAction} (h : action ≠ .none) : p.onPageResult now action false =
    ({ p with retryNotBefore := some (retryEnd p.minRepageSecs now) }, false) := by
  cases action with
  | none => exact absurd rfl h
  | trigger => rfl
  | resolve => rfl

private theorem onPageResult_delivered {action : PageAction} (h : action ≠ .none) (process : Nat) :
    p.onPageResult now action true = ({ p with
      state := Attempt.tell p.state ⟨now, action, true, process⟩
      retryNotBefore := .none }, decide (Attempt.tell p.state ⟨now, action, true, process⟩ ≠ p.state)) := by
  cases action with
  | none => exact absurd rfl h
  | trigger => rfl
  | resolve => rfl

end AlertPager

def Justified (minRepageSecs : Nat) (s : PagerState) (a : Attempt) : Prop :=
  match a.action with
  | .trigger => ∀ prev, s.lastPagedAt = some prev → prev + minRepageSecs ≤ a.now
  | .resolve => s.firing = true
  | .none => False

/-- The pager and the table hold what the receiver knows, and each page so far was justified and kept the back-off. -/
structure Monitor.Inv (chainId : Int) (dedupKey : Text) (minRepageSecs : Nat) (clock : Int) (m : Monitor) : Prop where
  secs : m.pager.minRepageSecs = minRepageSecs
  state : m.pager.state = believed m.sent
  saved : (loadPagerState m.rows chainId dedupKey).getD .default = m.pager.state
  processes : ∀ a ∈ m.sent, a.process ≤ m.process
  times : ∀ a ∈ m.sent, a.now ≤ clock
  retry : ∀ f ∈ m.sent, f.ok = false → f.process = m.process →
    retryEnd minRepageSecs f.now ≤ clock ∨ m.pager.retryNotBefore = some (retryEnd minRepageSecs f.now)
  ordered : m.sent.Pairwise fun a b => a.now ≤ b.now
  backedOff : m.sent.Pairwise fun f g => f.ok = false → f.process = g.process → retryEnd minRepageSecs f.now ≤ g.now
  justified : ∀ before a after, m.sent = before ++ a :: after → Justified minRepageSecs (believed before) a

namespace Monitor

open List AlertPager

variable {chainId : Int} {dedupKey : Text} {minRepageSecs : Nat} {clock now : Int} {m : Monitor} {firing : Bool}

theorem inv_start (clock : Int) : Inv chainId dedupKey minRepageSecs clock (start chainId dedupKey minRepageSecs) where
  secs := rfl
  state := rfl
  saved := rfl
  processes := fun _ h => absurd h not_mem_nil
  times := fun _ h => absurd h not_mem_nil
  retry := fun _ h => absurd h not_mem_nil
  ordered := List.Pairwise.nil
  backedOff := List.Pairwise.nil
  justified := fun before a after h => absurd (congrArg length h) (by simp [start])

private theorem not_blocked_of_action (h : m.action now firing ≠ .none) : m.pager.blockedByRetryFloor now = false := by
  rw [Bool.eq_false_iff]
  intro hblocked
  apply h
  unfold action onFiring AlertPager.onClear
  rw [if_pos hblocked, if_pos hblocked, ite_self]

private theorem justified_action (hsecs : m.pager.minRepageSecs = minRepageSecs)
    (htimes : ∀ prev, m.pager.state.lastPagedAt = some prev →
      prev ≤ now) (ok : Bool) (h : m.action now firing ≠ .none) :
    Justified minRepageSecs m.pager.state ⟨now, m.action now firing, ok, m.process⟩ := by
  unfold Justified
  cases haction : m.action now firing with
  | none => exact absurd haction h
  | trigger =>
    intro prev hprev
    cases firing with
    | true =>
      have hdue := (onFiring_eq_trigger.1 haction).2 prev hprev
      have hle := saturate_le_of_nonneg (show 0 ≤ now - prev by have := htimes prev hprev; omega)
      rw [hsecs] at hdue
      change prev + (minRepageSecs : Int) ≤ now
      omega
    | false => exact absurd haction onClear_ne_trigger
  | resolve =>
    cases firing with
    | true => exact absurd haction onFiring_ne_resolve
    | false => exact (onClear_eq_resolve.1 haction).2

private theorem lastPagedAt_le {sent : List Attempt} (htimes : ∀ a ∈ sent, a.now ≤ clock) {prev : Int}
    (h : (believed sent).lastPagedAt = some prev) : prev ≤ clock := by
  induction sent using reverseRecOn with
  | nil => cases h
  | append_singleton sent a ih =>
    have hrest := ih fun b hb => htimes b (mem_append_left _ hb)
    rw [believed_append, Attempt.tell] at h
    split at h
    · split at h
      · cases h
        exact htimes a (mem_append_right _ (mem_singleton_self a))
      · cases h
      · exact hrest h
    · exact hrest h

private theorem commitPage_spec (hinv : Inv chainId dedupKey minRepageSecs clock m) {action : PageAction}
    (h : action ≠ .none) (ok : Bool) :
    (m.commitPage chainId dedupKey now action ok).pager.minRepageSecs = minRepageSecs ∧
      (m.commitPage chainId dedupKey now action ok).pager.state =
        Attempt.tell m.pager.state ⟨now, action, ok, m.process⟩ ∧
      (loadPagerState (m.commitPage chainId dedupKey now action ok).rows chainId dedupKey).getD .default =
        (m.commitPage chainId dedupKey now action ok).pager.state ∧
      (m.commitPage chainId dedupKey now action ok).pager.retryNotBefore =
        if ok then none else some (retryEnd minRepageSecs now) := by
  cases ok with
  | false =>
    unfold commitPage
    rw [onPageResult_failed h]
    refine ⟨hinv.secs, rfl, hinv.saved, ?_⟩
    rw [hinv.secs]
    rfl
  | true =>
    unfold commitPage
    rw [onPageResult_delivered h m.process]
    refine ⟨hinv.secs, rfl, ?_, rfl⟩
    dsimp only
    split
    · rw [loadPagerState_save, if_pos ⟨rfl, rfl⟩]
      rfl
    rename_i hsame
    rw [hinv.saved]
    exact (not_not.1 (mt decide_eq_true hsame)).symm

private theorem split_concat {α : Type} {l before after : List α} {a b : α} (h : l ++ [b] = before ++ a :: after) :
    (before = l ∧ a = b ∧ after = []) ∨ ∃ rest, l = before ++ a :: rest ∧ after = rest ++ [b] := by
  induction after using reverseRecOn with
  | nil =>
    obtain ⟨rfl, hb⟩ := append_inj' h rfl
    exact .inl ⟨rfl, (cons.inj hb).1.symm, rfl⟩
  | append_singleton rest c =>
    rw [← cons_append, ← append_assoc] at h
    obtain ⟨rfl, hb⟩ := append_inj' h rfl
    exact .inr ⟨rest, rfl, by rw [(cons.inj hb).1]⟩

/-- A poll keeps the invariant. -/
theorem Inv.commitPage (hinv : Inv chainId dedupKey minRepageSecs clock m) (hclock : clock ≤ now)
    (h : m.action now firing ≠ .none) (ok : Bool) :
    Inv chainId dedupKey minRepageSecs now (m.commitPage chainId dedupKey now (m.action now firing) ok) := by
  obtain ⟨hsecs, hstate, hsaved, hretry⟩ := commitPage_spec hinv h ok
  have hfloor : ∀ f ∈ m.sent, f.ok = false → f.process = m.process → retryEnd minRepageSecs f.now ≤ now := by
    intro f hf hfailed hprocess
    rcases hinv.retry f hf hfailed hprocess with hpast | hrunning
    · exact hpast.trans hclock
    by_contra hlt
    have hblocked := blocked_iff.2 ⟨_, hrunning, not_le.1 hlt⟩
    rw [not_blocked_of_action h] at hblocked
    cases hblocked
  refine ⟨hsecs, ?_, hsaved, ?_, ?_, ?_, ?_, ?_, ?_⟩
  · rw [hstate, hinv.state]
    exact (believed_append _ _).symm
  · intro a ha
    rcases mem_append.1 ha with ha | ha
    · exact hinv.processes a ha
    rw [mem_singleton.1 ha]
    exact le_refl _
  · intro a ha
    rcases mem_append.1 ha with ha | ha
    · exact (hinv.times a ha).trans hclock
    · rw [mem_singleton.1 ha]
  · intro f hf hfailed hprocess
    rcases mem_append.1 hf with hf | hf
    · exact .inl (hfloor f hf hfailed hprocess)
    rw [mem_singleton.1 hf] at hfailed ⊢
    have hok : ok = false := hfailed
    exact .inr (hretry.trans (by rw [hok]; rfl))
  · refine pairwise_append.2 ⟨hinv.ordered, pairwise_singleton _ _, fun a ha b hb => ?_⟩
    rw [mem_singleton.1 hb]
    exact (hinv.times a ha).trans hclock
  · refine pairwise_append.2 ⟨hinv.backedOff, pairwise_singleton _ _, fun f hf g hg => ?_⟩
    rw [mem_singleton.1 hg]
    exact hfloor f hf
  · intro before a after hsplit
    rcases split_concat hsplit with ⟨rfl, rfl, -⟩ | ⟨rest, hsent, -⟩
    · have hjustified := justified_action hinv.secs (fun prev hprev => ?_) ok h
      · rwa [hinv.state] at hjustified
      · rw [hinv.state] at hprev
        exact (lastPagedAt_le hinv.times hprev).trans hclock
    · exact hinv.justified before a rest hsent

private theorem Inv.mono (hinv : Inv chainId dedupKey minRepageSecs clock m) (hclock : clock ≤ now) :
    Inv chainId dedupKey minRepageSecs now m :=
  { hinv with
    times := fun a ha => (hinv.times a ha).trans hclock
    retry := fun f hf hfailed hprocess => (hinv.retry f hf hfailed hprocess).imp_left fun h => h.trans hclock }

private theorem Inv.restart (hinv : Inv chainId dedupKey minRepageSecs clock m) :
    Inv chainId dedupKey minRepageSecs clock (m.step chainId dedupKey minRepageSecs .restart) where
  secs := rfl
  state := hinv.saved.trans hinv.state
  saved := rfl
  processes := fun a ha => (hinv.processes a ha).trans (Nat.le_succ _)
  times := hinv.times
  retry := fun f hf _ hprocess => absurd (hinv.processes f hf) (by
    have hnext : f.process = m.process + 1 := hprocess
    omega)
  ordered := hinv.ordered
  backedOff := hinv.backedOff
  justified := hinv.justified

theorem Inv.run {inputs : List Input} : ∀ {m : Monitor} {clock : Int}, Inv chainId dedupKey minRepageSecs clock m →
    (∀ t ∈ pollTimes inputs, clock ≤ t) → (pollTimes inputs).Pairwise (· ≤ ·) →
    ∃ clock', Inv chainId dedupKey minRepageSecs clock' (m.run chainId dedupKey minRepageSecs inputs) := by
  induction inputs with
  | nil => exact fun hinv _ _ => ⟨_, hinv⟩
  | cons i inputs ih =>
    intro m clock hinv hclock htimes
    cases i with
    | poll now firing delivered =>
      obtain ⟨hnow, -⟩ := forall_mem_cons.1 hclock
      obtain ⟨hlater, htimes⟩ := pairwise_cons.1 htimes
      have hstep : Inv chainId dedupKey minRepageSecs now
          (m.step chainId dedupKey minRepageSecs (.poll now firing delivered)) := by
        rw [step]
        split
        · exact hinv.mono hnow
        rename_i h
        exact hinv.commitPage hnow h delivered
      exact ih hstep hlater htimes
    | restart => exact ih hinv.restart hclock htimes

private theorem inv_run {inputs : List Input} (htimes : (pollTimes inputs).Pairwise (· ≤ ·)) : ∃ clock,
    Inv chainId dedupKey minRepageSecs clock (monitored chainId dedupKey minRepageSecs inputs) := by
  cases htimes' : pollTimes inputs with
  | nil => exact (inv_start 0).run (fun t ht => absurd ht (by simp [htimes'])) htimes
  | cons t times =>
    refine (inv_start t).run (fun t' ht' => ?_) htimes
    rw [htimes'] at ht' htimes
    rcases mem_cons.1 ht' with rfl | ht'
    · exact le_refl _
    · exact (pairwise_cons.1 htimes).1 t' ht'

end Monitor

/-- What holds of the pages that were sent, oldest first. -/
structure OneIncident (minRepageSecs : Nat) (sent : List Attempt) : Prop where
  /-- Two delivered triggers without a delivered resolve between them are an interval apart. -/
  repaged : ∀ before t mid t' after, sent = before ++ t :: (mid ++ t' :: after) → t.Triggered → t'.Triggered →
    (∀ a ∈ mid, ¬ a.Resolved) → t.now + (minRepageSecs : Int) ≤ t'.now
  /-- A resolve is sent only after a delivered trigger that no delivered resolve has followed. -/
  resolved : ∀ before r after, sent = before ++ r :: after → r.action = .resolve →
    ∃ before' t mid, before = before' ++ t :: mid ∧ t.Triggered ∧ ∀ a ∈ mid, ¬ a.Resolved
  /-- Between two delivered resolves a trigger is delivered. -/
  once : ∀ before r mid r' after, sent = before ++ r :: (mid ++ r' :: after) → r.Resolved → r'.Resolved →
    ∃ t ∈ mid, t.Triggered
  /-- After a failure the same process sends nothing until the back-off ends. -/
  backedOff : sent.Pairwise fun f g => f.ok = false → f.process = g.process → retryEnd minRepageSecs f.now ≤ g.now

namespace Monitor

variable {chainId : Int} {dedupKey : Text} {minRepageSecs : Nat} {clock now : Int} {m : Monitor} {firing : Bool}

private theorem exists_triggered_after {before mid : List Attempt} {r : Attempt} (hr : r.Resolved)
    (h : (believed (before ++ r :: mid)).firing = true) : ∃ t ∈ mid, t.Triggered := by
  induction mid using reverseRecOn with
  | nil =>
    rw [believed_append, Attempt.tell, if_pos hr.2, hr.1] at h
    cases h
  | append_singleton mid a ih =>
    rw [← cons_append, ← append_assoc, believed_append, Attempt.tell] at h
    have hrest : (believed (before ++ r :: mid)).firing = true → ∃ t ∈ mid ++ [a], t.Triggered := by
      intro hfiring
      obtain ⟨t, ht, htriggered⟩ := ih hfiring
      exact ⟨t, mem_append_left _ ht, htriggered⟩
    split at h
    · rename_i hok
      split at h
      · rename_i haction
        exact ⟨a, mem_append_right _ (mem_singleton_self a), haction, hok⟩
      · cases h
      · exact hrest h
    · exact hrest h

theorem Inv.oneIncident (hinv : Inv chainId dedupKey minRepageSecs clock m) : OneIncident minRepageSecs m.sent where
  repaged := by
    intro before t mid t' after hsent ht ht' hmid
    rw [← cons_append, ← append_assoc] at hsent
    have hordered := hinv.ordered
    rw [hsent, append_assoc] at hordered
    have hlater := (pairwise_cons.1 (pairwise_append.1 hordered).2.1).1
    obtain ⟨prev, hknown, hle⟩ : ∃ prev, believed (before ++ t :: mid) = ⟨true, some prev⟩ ∧ t.now ≤ prev :=
      believed_of_triggered ht fun a ha => ⟨hmid a ha, hlater a (mem_append_left _ ha)⟩
    have hjustified := hinv.justified _ t' after hsent
    rw [Justified, ht'.1, hknown] at hjustified
    have hapart := hjustified prev rfl
    omega
  resolved := by
    intro before r after hsent hr
    have hjustified := hinv.justified before r after hsent
    rw [Justified, hr] at hjustified
    exact exists_triggered_of_firing hjustified
  once := by
    intro before r mid r' after hsent hr hr'
    rw [← cons_append, ← append_assoc] at hsent
    have hjustified := hinv.justified _ r' after hsent
    rw [Justified, hr'.1] at hjustified
    exact exists_triggered_after hr hjustified
  backedOff := hinv.backedOff

private theorem failed_commits_nothing (m : Monitor) (now : Int) (firing : Bool) :
    (m.step chainId dedupKey minRepageSecs (.poll now firing false)).pager.state = m.pager.state ∧
      (m.step chainId dedupKey minRepageSecs (.poll now firing false)).rows = m.rows := by
  rw [step]
  split
  · exact ⟨rfl, rfl⟩
  rename_i h
  rw [commitPage, AlertPager.onPageResult_failed h]
  exact ⟨rfl, rfl⟩

private theorem run_of_blocked {t : Int} {later : List (Int × Bool × Bool)} (hretry : m.pager.retryNotBefore = some t)
    (hlater : ∀ p ∈ later, p.1 < t) :
    m.run chainId dedupKey minRepageSecs (later.map fun p => .poll p.1 p.2.1 p.2.2) = m := by
  induction later with
  | nil => rfl
  | cons p later ih =>
    obtain ⟨hp, hlater⟩ := forall_mem_cons.1 hlater
    have hnone : m.action p.1 p.2.1 = .none := by
      by_contra h
      have hblocked := not_blocked_of_action h
      rw [AlertPager.blocked_iff.2 ⟨t, hretry, hp⟩] at hblocked
      cases hblocked
    have hstep : m.step chainId dedupKey minRepageSecs (.poll p.1 p.2.1 p.2.2) = m := by
      rw [step, if_pos hnone]
    rw [map_cons, run, foldl_cons, hstep]
    exact ih hlater

private theorem action_of_due {m' : Monitor} {now' : Int} (hstate : m'.pager.state = m.pager.state)
    (hsecs : m'.pager.minRepageSecs = m.pager.minRepageSecs) (hfree : m'.pager.blockedByRetryFloor now' = false)
    (hnow : now ≤ now') (h : m.action now firing ≠ .none) : m'.action now' firing = m.action now firing := by
  cases firing with
  | true =>
    have htrigger : m.pager.onFiring now = .trigger := by
      cases haction : m.pager.onFiring now with
      | none => exact absurd haction h
      | trigger => rfl
      | resolve => exact absurd haction AlertPager.onFiring_ne_resolve
    have hdue : m'.pager.onFiring now' = .trigger := by
      refine AlertPager.onFiring_eq_trigger.2 ⟨hfree, fun prev hprev => ?_⟩
      rw [hstate] at hprev
      rw [hsecs]
      exact ((AlertPager.onFiring_eq_trigger.1 htrigger).2 prev hprev).trans (saturate_mono (by omega))
    exact hdue.trans htrigger.symm
  | false =>
    have hresolve : m.pager.onClear now = .resolve := by
      cases haction : m.pager.onClear now with
      | none => exact absurd haction h
      | trigger => exact absurd haction AlertPager.onClear_ne_trigger
      | resolve => rfl
    have hdue : m'.pager.onClear now' = .resolve := by
      refine AlertPager.onClear_eq_resolve.2 ⟨hfree, ?_⟩
      rw [hstate]
      exact (AlertPager.onClear_eq_resolve.1 hresolve).2
    exact hdue.trans hresolve.symm

private theorem retried (hinv : Inv chainId dedupKey minRepageSecs clock m) (h : m.action now firing ≠ .none)
    {later : List (Int × Bool × Bool)} (hlater : ∀ p ∈ later, p.1 < retryEnd minRepageSecs now) {now' : Int}
    (hnow : now ≤ now') (hend : retryEnd minRepageSecs now ≤ now') (delivered : Bool) :
    (m.run chainId dedupKey minRepageSecs (.poll now firing false :: (later.map fun p => .poll p.1 p.2.1 p.2.2) ++
      [.poll now' firing delivered])).sent = m.sent ++ [⟨now, m.action now firing, false, m.process⟩,
        ⟨now', m.action now firing, delivered, m.process⟩] := by
  obtain ⟨hsecs, hstate, -, hretry⟩ := commitPage_spec hinv h false
  have hstep : m.step chainId dedupKey minRepageSecs (.poll now firing false) =
      m.commitPage chainId dedupKey now (m.action now firing) false := by
    rw [step, if_neg h]
  have hfree : (m.commitPage chainId dedupKey now (m.action now firing) false).pager.blockedByRetryFloor now' =
      false := by
    rw [Bool.eq_false_iff]
    intro hblocked
    obtain ⟨t, ht, hlt⟩ := AlertPager.blocked_iff.1 hblocked
    rw [hretry] at ht
    cases ht
    exact absurd hend (not_le.2 hlt)
  have haction := action_of_due hstate (hsecs.trans hinv.secs.symm) hfree hnow h
  have hblocked : (m.commitPage chainId dedupKey now (m.action now firing) false).run chainId dedupKey minRepageSecs
      (later.map fun p => .poll p.1 p.2.1 p.2.2) = m.commitPage chainId dedupKey now (m.action now firing) false :=
    run_of_blocked hretry hlater
  rw [run] at hblocked
  rw [run, cons_append, foldl_cons, hstep, foldl_append, hblocked, foldl_cons, foldl_nil,
    step, haction, if_neg h]
  exact append_assoc _ _ _

/-- Of every run of polls at nondecreasing times, with restarts anywhere: the pages are those of one incident at a time,
a page that fails commits nothing, and it is sent again by the first poll after its back-off that finds the condition as
it was. -/
theorem one_incident (chainId : Int) (dedupKey : Text) {minRepageSecs : Nat} (_hsecs : minRepageSecs < 2 ^ 63)
    {inputs : List Input} (htimes : (pollTimes inputs).Pairwise (· ≤ ·)) {m : Monitor}
    (hm : m = monitored chainId dedupKey minRepageSecs inputs) :
    OneIncident minRepageSecs m.sent ∧
      (∀ now firing, (m.step chainId dedupKey minRepageSecs (.poll now firing false)).pager.state = m.pager.state ∧
        (m.step chainId dedupKey minRepageSecs (.poll now firing false)).rows = m.rows) ∧
      ∀ now firing, m.action now firing ≠ .none →
        ∀ later : List (Int × Bool × Bool), (∀ p ∈ later, p.1 < retryEnd minRepageSecs now) →
        ∀ now', now ≤ now' → retryEnd minRepageSecs now ≤ now' → ∀ delivered,
        (m.run chainId dedupKey minRepageSecs (.poll now firing false :: (later.map fun p => .poll p.1 p.2.1 p.2.2) ++
          [.poll now' firing delivered])).sent = m.sent ++ [⟨now, m.action now firing, false, m.process⟩,
            ⟨now', m.action now firing, delivered, m.process⟩] := by
  subst hm
  obtain ⟨clock, hinv⟩ : ∃ clock, Inv chainId dedupKey minRepageSecs clock
      (monitored chainId dedupKey minRepageSecs inputs) := inv_run htimes
  refine ⟨hinv.oneIncident, failed_commits_nothing _, ?_⟩
  intro now firing h later hlater now' hnow hend delivered
  exact retried hinv h hlater hnow hend delivered

/-- A failure, a poll in its back-off, a delivery, a restart and the end of the condition. -/
theorem one_incident_of_restart : OneIncident 86400 (monitored 8453 "weight_setter_path_drift:8453".toList 86400
    [.poll 100 true false, .poll 112 true true, .poll 160 true true, .restart, .poll 172 true true,
      .poll 184 false true]).sent :=
  (one_incident 8453 _ (by decide) (by decide) rfl).1

/-- At the last second of the clock the back-off is over at once. -/
theorem not_backedOff_at_last_second : ¬ (monitored 8453 "weight_setter_path_drift:8453".toList 60
    [.poll (2 ^ 63 - 1) true false, .poll (2 ^ 63 - 1) true false]).sent.Pairwise
      fun f g => f.ok = false → f.process = g.process → f.now + min 60 60 ≤ g.now := by
  have hsent : (monitored 8453 "weight_setter_path_drift:8453".toList 60
      [.poll (2 ^ 63 - 1) true false, .poll (2 ^ 63 - 1) true false]).sent =
      [⟨2 ^ 63 - 1, .trigger, false, 0⟩, ⟨2 ^ 63 - 1, .trigger, false, 0⟩] := by decide
  rw [hsent, pairwise_pair]
  decide

end Monitor

end RobotMoney.Watchdog
