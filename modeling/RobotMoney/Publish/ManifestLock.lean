import RobotMoney.Evm.Machine
import RobotMoney.Publish.Manifest

/-!
# The manifest lock

`withManifestLock` is a file created with `O_EXCL`, removed when the caller is done.  A waiter reads the age of the file
and removes one that is older than 30 s, so that a process that died does not block the others for ever.  The age and
the removal are two steps, and the removal takes whatever file is there.

The processes take their steps in any order, and any of them may die at any step.  As long as a removal takes the lock
of a process that is no longer at work, one process is at work at a time, no pause is lost and the numbers increase.
-/

namespace RobotMoney.Publish

open Evm

/-- The lock file, with the process that created it. -/
structure LockFile where
  owner : Nat
  mtimeMs : Nat
  deriving DecidableEq, Repr

/-- Where a process is in `withManifestLock`.  `since` is when it created the lock. -/
inductive LockPc where
  | idle
  /-- Before `openSync(lock, "wx")`. -/
  | opening (call : ManifestCall) (deadline : Nat)
  /-- The file exists; before `statSync`. -/
  | refused (call : ManifestCall) (deadline : Nat)
  /-- The file read was older than 30 s; before `unlinkSync`. -/
  | stale (call : ManifestCall) (deadline : Nat)
  /-- Before the deadline is compared. -/
  | waiting (call : ManifestCall) (deadline : Nat)
  /-- The lock was created; before the manifest is read. -/
  | entered (call : ManifestCall) (since : Nat)
  /-- Before the temporary file is written. -/
  | loaded (call : ManifestCall) (disk : Option RunManifest) (since : Nat)
  /-- Before `renameSync`. -/
  | written (file : RunManifest) (event : ManifestEvent) (since : Nat)
  /-- In `finally`; before `unlinkSync`. -/
  | leaving (since : Nat)
  deriving DecidableEq, Repr

def LockPc.since : LockPc → Option Nat
  | .entered _ t => some t
  | .loaded _ _ t => some t
  | .written _ _ t => some t
  | .leaving t => some t
  | _ => none

def LockPc.removes : LockPc → Bool
  | .stale _ _ => true
  | _ => false

/-- The evidence directory, the clock and the processes; `events` are the writes, the newest first. -/
structure Evidence where
  now : Nat
  lock : Option LockFile
  disk : Option RunManifest
  procs : Nat → LockPc
  events : List ManifestEvent

def Evidence.goto (s : Evidence) (p : Nat) (pc : LockPc) : Evidence := { s with procs := Function.update s.procs p pc }

def staleMs : Nat := 30000

def lockTimeoutMs : Nat := 15000

def Evidence.advance (s : Evidence) (p : Nat) : Evidence :=
  match s.procs p with
  | .idle => s
  | .opening call deadline =>
    match s.lock with
    | none => { s with lock := some ⟨p, s.now⟩ }.goto p (.entered call s.now)
    | some _ => s.goto p (.refused call deadline)
  | .refused call deadline =>
    match s.lock with
    | none => s.goto p (.waiting call deadline)
    | some file => s.goto p (if staleMs < s.now - file.mtimeMs then .stale call deadline else .waiting call deadline)
  | .stale call deadline =>
    match s.lock with
    | none => s.goto p (.waiting call deadline)
    | some _ => { s with lock := none }.goto p (.opening call deadline)
  | .waiting call deadline => s.goto p (if deadline < s.now then .idle else .opening call deadline)
  | .entered call since => s.goto p (.loaded call s.disk since)
  | .loaded call disk since =>
    match call.body disk with
    | none => s.goto p (.leaving since)
    | some (file, event) => s.goto p (.written file event since)
  | .written file event since =>
    { s with disk := some file, events := event :: s.events }.goto p (.leaving since)
  | .leaving _ => { s with lock := none }.goto p .idle

inductive LockAction where
  | tick (ms : Nat)
  /-- A process calls one of the functions that take the lock. -/
  | call (p : Nat) (call : ManifestCall)
  | step (p : Nat)
  /-- A step throws: inside, the lock is released. -/
  | throws (p : Nat)
  /-- The process dies. -/
  | crash (p : Nat)
  deriving DecidableEq, Repr

def Evidence.act (s : Evidence) : LockAction → Evidence
  | .tick ms => { s with now := s.now + ms }
  | .call p call => if s.procs p = .idle then s.goto p (.opening call (s.now + lockTimeoutMs)) else s
  | .step p => s.advance p
  | .throws p =>
    match (s.procs p).since with
    | some t => s.goto p (.leaving t)
    | none => s.goto p .idle
  | .crash p => s.goto p .idle

def Evidence.machine (s : Evidence) (a : LockAction) : Except Empty Evidence := .ok (s.act a)

def Evidence.start (now : Nat) (lock : Option LockFile) (disk : Option RunManifest) : Evidence :=
  ⟨now, lock, disk, fun _ => .idle, []⟩

/-- Two processes are not inside together while neither has been there for 30 s, and nothing that was written is
lost. -/
structure Evidence.Safe (s : Evidence) : Prop where
  exclusive : ∀ p q t u, (s.procs p).since = some t → (s.procs q).since = some u → s.now - t < staleMs →
    s.now - u < staleMs → p = q
  recorded : Recorded s.disk s.events

/-- A step does not remove the lock of a process that is still inside as a stale one. -/
def Evidence.TakesOverDead (s : Evidence) : LockAction → Prop
  | .step p => (s.procs p).removes = true → ∀ file ∈ s.lock, (s.procs file.owner).since = none
  | _ => True

instance decidableTakesOverDead (s : Evidence) : (a : LockAction) → Decidable (s.TakesOverDead a)
  | .tick _ => isTrue trivial
  | .call _ _ => isTrue trivial
  | .throws _ => isTrue trivial
  | .crash _ => isTrue trivial
  | .step p =>
    inferInstanceAs (Decidable ((s.procs p).removes = true → ∀ file ∈ s.lock, (s.procs file.owner).since = none))

/-- A process inside owns the lock file, what it has read is on disk, and what it is about to write was made from it. -/
structure Evidence.Inv (s : Evidence) : Prop where
  owner : ∀ p t, (s.procs p).since = some t → ∃ file, s.lock = some file ∧ file.owner = p
  fresh : ∀ p call disk t, s.procs p = .loaded call disk t → disk = s.disk
  ready : ∀ p file event t, s.procs p = .written file event t →
    ∃ call, ManifestCall.body call s.disk = some (file, event)
  recorded : Recorded s.disk s.events

namespace Evidence

variable {s : Evidence} {p q t u : Nat} {pc : LockPc}

@[simp] theorem procs_goto_self (s : Evidence) (p : Nat) (pc : LockPc) : (s.goto p pc).procs p = pc :=
  Function.update_self ..

private theorem procs_goto_of_ne (s : Evidence) (pc : LockPc) (h : q ≠ p) : (s.goto p pc).procs q = s.procs q :=
  Function.update_of_ne h ..

private theorem Inv.alone (h : s.Inv) (hp : (s.procs p).since = some t) (hq : (s.procs q).since = some u) : p = q := by
  obtain ⟨file, hfile, rfl⟩ := h.owner p t hp
  obtain ⟨file', hfile', rfl⟩ := h.owner q u hq
  rw [hfile] at hfile'
  cases hfile'
  rfl

private theorem Inv.goto_outside (h : s.Inv) (hpc : pc.since = none) : (s.goto p pc).Inv := by
  have hother : ∀ {q}, (s.goto p pc).procs q ≠ pc → (s.goto p pc).procs q = s.procs q := by
    intro q hq
    apply procs_goto_of_ne
    rintro rfl
    exact hq (procs_goto_self ..)
  constructor
  · intro q t hq
    rw [hother (by rintro heq; rw [heq, hpc] at hq; cases hq)] at hq
    exact h.owner q t hq
  · intro q call disk t hq
    rw [hother (by rintro heq; rw [heq] at hq; rw [hq] at hpc; cases hpc)] at hq
    exact h.fresh q call disk t hq
  · intro q file event t hq
    rw [hother (by rintro heq; rw [heq] at hq; rw [hq] at hpc; cases hpc)] at hq
    exact h.ready q file event t hq
  · exact h.recorded

private theorem inv_of_outside (hout : ∀ q, (s.procs q).since = none) (hrec : Recorded s.disk s.events) : s.Inv := by
  constructor
  · intro q t hq
    rw [hout q] at hq
    cases hq
  · intro q call disk t hq
    have hnone := hout q
    rw [hq] at hnone
    cases hnone
  · intro q file event t hq
    have hnone := hout q
    rw [hq] at hnone
    cases hnone
  · exact hrec

theorem inv_of_alone {file : LockFile} (hout : ∀ q, q ≠ p → (s.procs q).since = none) (hlock : s.lock = some file)
    (howner : file.owner = p) (hfresh : ∀ call disk t, s.procs p = .loaded call disk t → disk = s.disk)
    (hready : ∀ file event t, s.procs p = .written file event t →
      ∃ call, ManifestCall.body call s.disk = some (file, event))
    (hrec : Recorded s.disk s.events) : s.Inv := by
  have hself : ∀ {q}, (s.procs q).since ≠ none → q = p := by
    intro q hq
    by_contra hne
    exact hq (hout q hne)
  constructor
  · intro q t hq
    obtain rfl := hself (by rw [hq]; exact Option.some_ne_none t)
    exact ⟨file, hlock, howner⟩
  · intro q call disk t hq
    obtain rfl := hself (by rw [hq]; exact Option.some_ne_none t)
    exact hfresh call disk t hq
  · intro q file event t hq
    obtain rfl := hself (by rw [hq]; exact Option.some_ne_none t)
    exact hready file event t hq
  · exact hrec

private theorem Inv.others (h : s.Inv) (hp : (s.procs p).since = some t) (hne : q ≠ p) : (s.procs q).since = none := by
  cases hq : (s.procs q).since with
  | none => rfl
  | some u => exact absurd (h.alone hq hp) hne

private theorem Inv.inside (h : s.Inv) (hp : (s.procs p).since = some t) {disk : Option RunManifest}
    {events : List ManifestEvent}
    (hfresh : ∀ call disk' t, pc = .loaded call disk' t → disk' = disk)
    (hready : ∀ file event t, pc = .written file event t → ∃ call, ManifestCall.body call disk = some (file, event))
    (hrec : Recorded disk events) : ({ s with disk := disk, events := events }.goto p pc).Inv := by
  obtain ⟨file, hfile, howner⟩ := h.owner p t hp
  refine inv_of_alone (fun q hne => ?_) hfile howner ?_ ?_ hrec
  · rw [procs_goto_of_ne _ _ hne]
    exact h.others hp hne
  · rw [procs_goto_self]
    exact hfresh
  · rw [procs_goto_self]
    exact hready

private theorem Inv.goto_leaving (h : s.Inv) (hp : (s.procs p).since = some t) : (s.goto p (.leaving t)).Inv :=
  h.inside hp (fun _ _ _ hpc => nomatch hpc) (fun _ _ _ hpc => nomatch hpc) h.recorded

private theorem Inv.unlock (h : s.Inv) (hout : ∀ q, q ≠ p → (s.procs q).since = none) (hpc : pc.since = none) :
    ({ s with lock := none }.goto p pc).Inv := by
  refine inv_of_outside (fun q => ?_) h.recorded
  by_cases hq : q = p
  · rw [hq, procs_goto_self]
    exact hpc
  rw [procs_goto_of_ne _ _ hq]
  exact hout q hq

private theorem Inv.advance (h : s.Inv) (hcond : s.TakesOverDead (.step p)) : (s.advance p).Inv := by
  unfold Evidence.advance
  cases hpc : s.procs p with
  | idle => exact h
  | opening call deadline =>
    cases hlock : s.lock with
    | none =>
      -- nobody holds the lock, so nobody is inside
      have hout : ∀ q, (s.procs q).since = none := by
        intro q
        cases hq : (s.procs q).since with
        | none => rfl
        | some t =>
          obtain ⟨file, hfile, -⟩ := h.owner q t hq
          rw [hlock] at hfile
          cases hfile
      refine inv_of_alone (fun q hne => ?_) rfl rfl ?_ ?_ h.recorded
      · exact (procs_goto_of_ne _ _ hne).symm ▸ hout q
      · intro call disk t hp
        rw [procs_goto_self] at hp
        cases hp
      · intro file event t hp
        rw [procs_goto_self] at hp
        cases hp
    | some file => exact h.goto_outside rfl
  | refused call deadline =>
    cases hlock : s.lock with
    | none => exact h.goto_outside rfl
    | some file =>
      refine h.goto_outside ?_
      split_ifs <;> rfl
  | stale call deadline =>
    cases hlock : s.lock with
    | none => exact h.goto_outside rfl
    | some file =>
      -- the one that is removed belongs to a process that is no longer inside, so nobody is
      have hdead : (s.procs file.owner).since = none := hcond (by rw [hpc]; rfl) file hlock
      refine h.unlock (fun q _ => ?_) rfl
      cases hq : (s.procs q).since with
      | none => rfl
      | some t =>
        obtain ⟨file', hfile', rfl⟩ := h.owner q t hq
        rw [hlock] at hfile'
        cases hfile'
        rw [hdead] at hq
        cases hq
  | waiting call deadline =>
    refine h.goto_outside ?_
    split_ifs <;> rfl
  | entered call since =>
    have hin : (s.procs p).since = some since := by rw [hpc]; rfl
    refine h.inside hin ?_ (fun _ _ _ hpc => nomatch hpc) h.recorded
    rintro call disk t ⟨⟩
    rfl
  | loaded call disk since =>
    have hin : (s.procs p).since = some since := by rw [hpc]; rfl
    have hdisk : disk = s.disk := h.fresh p call disk since hpc
    dsimp only
    cases hbody : call.body disk with
    | none => exact h.goto_leaving hin
    | some out =>
      refine h.inside hin (fun _ _ _ hpc => nomatch hpc) ?_ h.recorded
      rintro file event t ⟨⟩
      exact ⟨call, hdisk ▸ hbody⟩
  | written file event since =>
    have hin : (s.procs p).since = some since := by rw [hpc]; rfl
    obtain ⟨call, hbody⟩ := h.ready p file event since hpc
    exact h.inside hin (fun _ _ _ hpc => nomatch hpc) (fun _ _ _ hpc => nomatch hpc) (h.recorded.body hbody)
  | leaving since =>
    have hin : (s.procs p).since = some since := by rw [hpc]; rfl
    exact h.unlock (fun q hne => h.others hin hne) rfl

private theorem Inv.act (h : s.Inv) {a : LockAction} (hcond : s.TakesOverDead a) : (s.act a).Inv := by
  cases a with
  | tick ms => exact ⟨h.owner, h.fresh, h.ready, h.recorded⟩
  | call p call =>
    rw [Evidence.act]
    split_ifs
    · exact h.goto_outside rfl
    · exact h
  | step p => exact h.advance hcond
  | throws p =>
    rw [Evidence.act]
    cases hp : (s.procs p).since with
    | none => exact h.goto_outside rfl
    | some t => exact h.goto_leaving hp
  | crash p => exact h.goto_outside rfl

theorem inv_start (now : Nat) (lock : Option LockFile) (disk : Option RunManifest) : (start now lock disk).Inv := by
  refine inv_of_outside (fun _ => rfl) ⟨?_, ?_, List.Pairwise.nil⟩
  · intro seq e he
    cases he
  · intro n hn
    cases hn

end Evidence

private def pauseFields : PauseFields := ⟨"2026-10-18T10:00:00.000Z", "manual", "manual"⟩

/-- A pause-all takes over the lock of a process that died and is itself killed before it releases it, a govern run
takes over that one and reserves a number. -/
private def takeOverRun : List LockAction :=
  [.tick 40000, .call 1 (.beginPauseEntry pauseFields), .step 1, .step 1, .step 1, .step 1, .step 1, .step 1, .step 1,
    .crash 1, .tick 40000, .call 2 (.reserveManifestSeq {}), .step 2, .step 2, .step 2, .step 2, .step 2,
      .step 2, .step 2,
    .step 2]

/-- Two waiters read the age of the lock that a dead process left before either removes it.  The first removes it and
enters; the second removes the lock of the first and enters too. -/
private def raceRun : List LockAction :=
  [.tick 40000, .call 1 (.beginPauseEntry pauseFields), .call 2 (.reserveManifestSeq {}), .step 1, .step 2,
    .step 1, .step 2, .step 1, .step 1, .step 2, .step 2, .step 1, .step 2, .step 1, .step 1, .step 2, .step 2]

private def raced : Evidence := run Evidence.machine (.start 0 (some ⟨0, 0⟩) (some {})) raceRun

end RobotMoney.Publish
