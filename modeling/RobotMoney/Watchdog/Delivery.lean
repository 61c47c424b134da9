import RobotMoney.Indexer.Follow
import RobotMoney.Watchdog.Protocol

/-!
# Alerts and pauses of a breach

On tables that stand still, a record of an alert says that the receiver has acknowledged it (`Sound`), so a cycle that
finds the record need not send the alert, and the cursor passes a block only when each of its alerts was acknowledged
once (`cursor_waits_for_alerts`).

Nothing holds the cursor for a pause: a block whose pause failed is passed like any other.  What holds is that the pause
was tried (`cursor_waits_for_pause`).
-/

open Effect

namespace RobotMoney.Watchdog

open Evm Indexer SqlTable List

section Breaches

variable {cfg : Config}

def Check.scope (check : Check) : Text := (check.vault.map Prod.fst).getD "global".toList

variable {vault : Option (Text × List UInt8)} {mintBlock mintHour burnBlock burnHour : Text} {c c' : Check}

private theorem mem_checksOf (hc : c ∈ checksOf vault mintBlock mintHour burnBlock burnHour)
    (hc' : c' ∈ checksOf vault mintBlock mintHour burnBlock burnHour) (hkind : c.kind = c'.kind) : c = c' := by
  simp only [checksOf, mem_cons, not_mem_nil, or_false] at hc hc'
  rcases hc with rfl | rfl | rfl | rfl <;> rcases hc' with rfl | rfl | rfl | rfl <;> first | rfl | cases hkind

theorem vault_of_mem_checksOf (hc : c ∈ checksOf vault mintBlock mintHour burnBlock burnHour) : c.vault = vault := by
  simp only [checksOf, mem_cons, not_mem_nil, or_false] at hc
  rcases hc with rfl | rfl | rfl | rfl <;> rfl

private theorem scope_of_vaultChecks {entry : Text × VaultThresholds} (hc : c ∈ cfg.vaultChecks entry) :
    c.scope = entry.1 ∧ (decodeVaultHex entry.1).isSome = true := by
  unfold Config.vaultChecks at hc
  split at hc
  · cases hc
  rename_i bytes hbytes
  rw [Check.scope, vault_of_mem_checksOf hc]
  exact ⟨rfl, by simp [hbytes]⟩

private theorem scope_of_globalChecks (hc : c ∈ cfg.globalChecks) : c.scope = "global".toList := by
  rw [Check.scope, vault_of_mem_checksOf hc]
  rfl

private theorem decodeVaultHex_global : (decodeVaultHex "global".toList).isSome = false := by decide

theorem check_eq (hc : c ∈ cfg.checks) (hc' : c' ∈ cfg.checks) (hkind : c.kind = c'.kind)
    (hscope : c.scope = c'.scope) : c = c' := by
  have hclash : ∀ {x y : Check} {entry : Text × VaultThresholds}, x ∈ cfg.globalChecks → y ∈ cfg.vaultChecks entry →
      x.scope ≠ y.scope := by
    intro x y entry hx hy heq
    obtain ⟨hkey, hhex⟩ := scope_of_vaultChecks hy
    rw [← hkey, ← heq, scope_of_globalChecks hx, decodeVaultHex_global] at hhex
    cases hhex
  rw [Config.checks, mem_append, mem_flatMap] at hc hc'
  obtain hc | ⟨entry, hentry, hc⟩ := hc <;> obtain hc' | ⟨entry', hentry', hc'⟩ := hc'
  · exact mem_checksOf hc hc' hkind
  · exact absurd hscope (hclash hc hc')
  · exact absurd hscope.symm (hclash hc' hc)
  have hkeys : entry.1 = entry'.1 := (scope_of_vaultChecks hc).1.symm.trans (hscope.trans (scope_of_vaultChecks hc').1)
  obtain rfl : entry = entry' := inj_on_of_nodup_map cfg.nodup hentry hentry' hkeys
  unfold Config.vaultChecks at hc hc'
  split at hc
  · cases hc
  rename_i bytes hbytes
  rw [hbytes] at hc'
  exact mem_checksOf hc hc' hkind

variable {H : Type} {db : Db H} {b : Nat} {e e' : BreachEvent}

private theorem check_of_mem_breaches (he : e ∈ cfg.breaches db b) : ∃ c ∈ cfg.checks,
    e = ⟨c.kind, c.limit, c.volume db b (blockAnchor db b), cfg.chainId, b, c.vault.map Prod.fst⟩ := by
  obtain ⟨c, hc, hbreach⟩ := mem_flatMap.mp he
  unfold Check.breach at hbreach
  split at hbreach
  · exact ⟨c, hc, mem_singleton.mp hbreach⟩
  · cases hbreach

private theorem place_of_mem_breaches (he : e ∈ cfg.breaches db b) : e.chainId = cfg.chainId ∧ e.blockNumber = b := by
  obtain ⟨c, -, rfl⟩ := check_of_mem_breaches he
  exact ⟨rfl, rfl⟩

private theorem breach_eq (he : e ∈ cfg.breaches db e.blockNumber) (he' : e' ∈ cfg.breaches db e'.blockNumber)
    (hkey : volumeBreachDedupKey e = volumeBreachDedupKey e') : e = e' := by
  have hchain : e.chainId = e'.chainId := (place_of_mem_breaches he).1.trans (place_of_mem_breaches he').1.symm
  obtain ⟨hblock, hkind, hscope⟩ := volumeBreachDedupKey_inj hchain hkey
  rw [← hblock] at he'
  obtain ⟨c, hc, heq⟩ := check_of_mem_breaches he
  obtain ⟨c', hc', heq'⟩ := check_of_mem_breaches he'
  rw [heq, heq'] at hkind hscope
  obtain rfl := check_eq hc hc' hkind hscope
  rw [heq, heq']

end Breaches

variable {H : Type}

theorem evaluation_eq {cfg : Config} {db : Db H} {cycle : List (Exchange H)} {b : Nat} {breaches : List BreachEvent}
    (h : Evaluation cfg cycle b breaches) (hdb : ∀ x ∈ cycle, x.state.db = db) : breaches = cfg.breaches db b := by
  obtain ⟨now, ⟨x, hx, -, hanchor⟩, reads, hchecks, hreads, rfl⟩ := h
  have hnow : now = blockAnchor db b := by
    rw [hdb x hx] at hanchor
    obtain htime | ⟨hnone, y, hy, -, hlatest⟩ := hanchor
    · simp [blockAnchor, htime]
    rw [hdb y hy] at hlatest
    simp [blockAnchor, hnone, hlatest]
  rw [Config.breaches, ← hchecks, flatMap_map]
  apply flatMap_congr
  intro p hp
  obtain ⟨y, hy, -, hdbp⟩ := hreads p hp
  rw [Config.breachOf, ← hdbp, hdb y hy, hnow]

section Records

variable (cfg : Config)

def PagerRow.IsBreach (r : PagerRow) : Prop := r.chainId = cfg.chainId ∧ volumeBreachStart cfg.chainId <+: r.dedupKey

def Sound (db : Db H) (pager : List PagerRow) (log : List (Exchange H)) : Prop :=
  ∀ r ∈ pager, r.IsBreach cfg → r.state.firing = true ∧
    ((∃ b, r.dedupKey = volumeBreachPauseKey cfg.chainId b) ∨
      ∃ e, e ∈ cfg.breaches db e.blockNumber ∧ r.dedupKey = volumeBreachDedupKey e ∧
        ∃ x ∈ log, x.Did (.dispatchAlert e))

/-- What holds in a state with these exchanges before it. -/
structure Seen (db : Db H) (s : State H) (log : List (Exchange H)) : Prop where
  standing : s.db = db
  sound : Sound cfg db s.pager log
  /-- Since the last exchange no one has touched the records. -/
  kept : ∀ y older, log = y :: older → ∀ r : PagerRow, r.IsBreach cfg → (r ∈ s.pager ↔ r ∈ (y.after cfg).pager)

/-- What holds along every run on tables that stand still. -/
structure Recorded (db : Db H) (w : World H) : Prop where
  seen : Seen cfg db w.state w.log
  logged : Logged (fun x older => Seen cfg db x.state older ∧ Allowed cfg x older) w.log

/-- Runs on tables that stand still: no tick of the indexer, and the others keep to their own records. -/
def standing : Rely Request (World H) Reply Interference where
  event _ e := match e with
    | .begin _ | .index => False
    | .save chainId dedupKey _ => chainId ≠ cfg.chainId ∨ ∃ p, dedupKey = OtherPage.dedupKey chainId p
    | .clear chainId _ => chainId ≠ cfg.chainId
  reply _ _ _ := True

end Records

section Records

variable {cfg : Config} {db : Db H} {w : World H} {state : PagerState}

private theorem isBreach_of_dedupKey {e : BreachEvent} (he : e.chainId = cfg.chainId) :
    PagerRow.IsBreach cfg ⟨cfg.chainId, volumeBreachDedupKey e, state⟩ := by
  refine ⟨rfl, ?_⟩
  rw [← he]
  refine (volumeBreachStart_isPrefix _ e.blockNumber).trans ⟨e.kind.label ++ ':' :: e.vault.getD "global".toList, ?_⟩
  simp [volumeBreachDedupKey]

private theorem not_isBreach_of_other {chainId : Int} {dedupKey : Text}
    (h : chainId ≠ cfg.chainId ∨ ∃ p, dedupKey = OtherPage.dedupKey chainId p) :
    ¬ PagerRow.IsBreach cfg ⟨chainId, dedupKey, state⟩ := by
  rintro ⟨hchain, hstart⟩
  obtain hne | ⟨p, hkey⟩ := h
  · exact hne hchain
  subst hkey
  exact not_isPrefix_otherPage chainId p hstart

private theorem mem_savePagerState_of_isBreach {rows : List PagerRow} {chainId : Int} {dedupKey : Text}
    (h : ∀ state, ¬ PagerRow.IsBreach cfg ⟨chainId, dedupKey, state⟩) {r : PagerRow} (hr : r.IsBreach cfg) :
    r ∈ savePagerState rows chainId dedupKey state ↔ r ∈ rows := by
  have hnot : ¬ r.Is chainId dedupKey := by
    rintro ⟨rfl, rfl⟩
    exact h r.state hr
  have hne : r ≠ ⟨chainId, dedupKey, state⟩ := by
    rintro rfl
    exact hnot ⟨rfl, rfl⟩
  simp [mem_savePagerState, hne, hnot]

private theorem Sound.of_mem {rows rows' : List PagerRow} {log log' : List (Exchange H)} (h : Sound cfg db rows log)
    (hrows : ∀ r ∈ rows', r.IsBreach cfg → r ∈ rows) (hlog : log ⊆ log') : Sound cfg db rows' log' := by
  intro r hr hbreach
  obtain ⟨hfiring, hpause | ⟨e, he, hkey, x, hx, hdid⟩⟩ := h r (hrows r hr hbreach) hbreach
  · exact ⟨hfiring, .inl hpause⟩
  · exact ⟨hfiring, .inr ⟨e, he, hkey, x, hlog hx, hdid⟩⟩

private theorem Recorded.interfere {d : Indexer.Deployment H} [DecidableEq H] (h : Recorded cfg db w) {e : Interference}
    (he : (standing cfg).event w e) : Recorded cfg db ((watchdogHost cfg d).interfere w e) := by
  have hrows : ∀ r : PagerRow, r.IsBreach cfg → (r ∈ (w.state.interfere d e).pager ↔ r ∈ w.state.pager) := by
    intro r hr
    cases e with
    | begin chain => exact he.elim
    | index => exact he.elim
    | save chainId dedupKey state => exact mem_savePagerState_of_isBreach (fun _ => not_isBreach_of_other he) hr
    | clear chainId start =>
      have hne : chainId ≠ cfg.chainId := he
      have hchain : r.chainId ≠ chainId := fun heq => hne (heq.symm.trans hr.1)
      simp only [State.interfere, mem_clearPagerStatesWithStart]
      exact and_iff_left fun hand => hchain hand.1
  refine ⟨⟨?_, h.seen.sound.of_mem (fun r hr hbreach => (hrows r hbreach).mp hr) fun _ hx => hx, ?_⟩, h.logged⟩
  · cases e with
    | begin chain => exact he.elim
    | index => exact he.elim
    | save chainId dedupKey state => exact h.seen.standing
    | clear chainId start => exact h.seen.standing
  · intro y older hlog r hr
    exact (hrows r hr).trans (h.seen.kept y older hlog r hr)

/-- What is read since the start of a cycle is read in the standing state. -/
theorem Recorded.standing (h : Recorded cfg db w) {older : List (Exchange H)} (hsub : older ⊆ w.log) :
    ∀ y ∈ sinceStart older, y.state.db = db := by
  intro y hy
  obtain ⟨_, -, hseen, -⟩ := h.logged.of_mem (hsub (sinceStart_subset older hy))
  exact hseen.standing

private theorem Recorded.mem_breaches (h : Recorded cfg db w) {x : Exchange H} {e : BreachEvent} (hx : x ∈ w.log)
    (hrequest : x.request = .dispatchAlert e) : e ∈ cfg.breaches db e.blockNumber := by
  obtain ⟨older, hsub, -, hallowed⟩ := h.logged.of_mem hx
  unfold Allowed at hallowed
  rw [hrequest] at hallowed
  obtain ⟨⟨b, breaches, heval, he⟩, -⟩ := hallowed
  rw [evaluation_eq heval (h.standing hsub)] at he
  rw [(place_of_mem_breaches he).2]
  exact he

private theorem Recorded.sound_effect (h : Recorded cfg db w) {q : Request} {r : Reply}
    (hallowed : Allowed cfg ⟨w.state, q, r⟩ w.log) :
    Sound cfg db (effect cfg w.state r q).1.pager (⟨w.state, q, r⟩ :: w.log) := by
  have hkeep : Sound cfg db w.state.pager (⟨w.state, q, r⟩ :: w.log) :=
    h.seen.sound.of_mem (fun _ hr _ => hr) (subset_cons_self _ _)
  cases q with
  | clearPagerStates start =>
    simp only [effect, Reply.write]
    split
    · exact hkeep
    · exact hkeep.of_mem (fun row hrow _ => (mem_clearPagerStatesWithStart.mp hrow).1) fun _ hx => hx
  | savePagerState dedupKey state =>
    simp only [effect, Reply.write]
    split
    · exact hkeep
    intro row hrow hbreach
    obtain rfl | ⟨hrow, -⟩ := mem_savePagerState.mp hrow
    · obtain ⟨hfiring, y, older, hlog, ⟨e, hkey, hdid⟩ | ⟨b, nonce, gasPrice, hkey, -⟩⟩ := hallowed
      · have hy : y ∈ w.log := by
          rw [show w.log = y :: older from hlog]
          exact mem_cons_self
        exact ⟨hfiring, .inr ⟨e, h.mem_breaches hy hdid.1, hkey, y, mem_cons_of_mem _ hy, hdid⟩⟩
      · exact ⟨hfiring, .inl ⟨b, hkey⟩⟩
    · exact hkeep row hrow hbreach
  | touchCursor | advanceCursor =>
    simp only [effect, Reply.write]
    split <;> exact hkeep
  | _ => exact hkeep

private theorem Recorded.perform (h : Recorded cfg db w) {q : Request} {r : Reply}
    (hallowed : Allowed cfg ⟨w.state, q, r⟩ w.log) :
    Recorded cfg db (w.perform cfg q r).1 := by
  refine ⟨⟨(db_effect ..).trans h.seen.standing, h.sound_effect hallowed, ?_⟩, ⟨h.seen, hallowed⟩, h.logged⟩
  rintro y older ⟨⟩ row -
  rfl

end Records

section Alerts

variable {cfg : Config} {db : Db H} {w : World H} {newer older : List (Exchange H)}

private theorem Recorded.acknowledged (h : Recorded cfg db w) {x : Exchange H} {b : Nat}
    (hlog : w.log = newer ++ x :: older) (hrequest : x.request = .advanceCursor b)
    (halerts : cfg.alerts = true) {e : BreachEvent}
    (he : e ∈ cfg.breaches db b) : ∃ y ∈ older, y.Did (.dispatchAlert e) := by
  have hsub : older ⊆ w.log := by
    intro y hy
    rw [hlog]
    exact mem_append_right _ (mem_cons_of_mem _ hy)
  have hlogged := h.logged
  rw [hlog] at hlogged
  obtain ⟨-, hallowed⟩ := hlogged.of_append
  unfold Allowed at hallowed
  rw [hrequest] at hallowed
  obtain ⟨-, -, breaches, heval, hdelivered, -⟩ := hallowed
  rw [evaluation_eq heval (h.standing hsub)] at hdelivered
  obtain ⟨y, hy, hdid⟩ | ⟨y, hy, -, state, hrecord, hset⟩ := hdelivered halerts e he
  · exact ⟨y, sinceStart_subset older hy, hdid⟩
  -- A record was found: its key is that of the alert, so it is the record of the alert.
  · obtain ⟨hchain, hblock⟩ := place_of_mem_breaches he
    have holder : Logged (fun x older => Seen cfg db x.state older ∧ Allowed cfg x older) older := hlogged.tail
    obtain ⟨before, hbefore, hseen, -⟩ := holder.of_mem (sinceStart_subset older hy)
    obtain ⟨-, ⟨b', hkey⟩ | ⟨e', he', hkey, z, hz, hdid⟩⟩ :=
      hseen.sound _ (mem_of_loadPagerState hrecord) (isBreach_of_dedupKey hchain)
    · rw [← hchain] at hkey
      exact absurd hkey (volumeBreachDedupKey_ne_pauseKey e b')
    obtain rfl : e = e' := breach_eq (by rwa [hblock]) he' hkey
    exact ⟨z, hbefore hz, hdid⟩

private theorem Recorded.unreadable (h : Recorded cfg db w) {x : Exchange H} {e : BreachEvent}
    {state : PagerState} (hlog : w.log = newer ++ x :: older) (hrequest : x.request = .dispatchAlert e)
    (hrecord : x.record cfg (volumeBreachDedupKey e) = some state) :
    ∃ y older', older = y :: older' ∧ y.request = .loadPagerState (volumeBreachDedupKey e) ∧ y.reply.outcome ≠ .ok := by
  have hx : x ∈ w.log := by
    rw [hlog]
    exact mem_append_right _ mem_cons_self
  have hbreach : ∀ state, PagerRow.IsBreach cfg ⟨cfg.chainId, volumeBreachDedupKey e, state⟩ :=
    fun _ => isBreach_of_dedupKey (place_of_mem_breaches (h.mem_breaches hx hrequest)).1
  have hlogged := h.logged
  rw [hlog] at hlogged
  obtain ⟨hseen, hallowed⟩ := hlogged.of_append
  unfold Allowed at hallowed
  rw [hrequest] at hallowed
  obtain ⟨-, y, older', rfl, hload, hquiet⟩ := hallowed
  refine ⟨y, older', rfl, hload, fun hok => ?_⟩
  -- The record was there when it was looked up.
  have hafter : (y.after cfg).pager = y.state.pager := by
    unfold Exchange.after
    rw [hload]
    rfl
  have hrow := (hseen.kept y older' rfl _ (hbreach state)).mp (mem_of_loadPagerState hrecord)
  rw [hafter] at hrow
  obtain ⟨found, hfound⟩ := exists_loadPagerState hrow
  obtain ⟨hseen', -⟩ := hlogged.tail.1
  have hfiring := (hseen'.sound _ (mem_of_loadPagerState hfound) (hbreach found)).1
  have hnot := hquiet hok
  rw [Exchange.record, hfound] at hnot
  exact absurd hfiring (by simpa using hnot)

private theorem mem_clear_of_other {rows : List PagerRow} {r : PagerRow} (hr : r ∈ rows) {b : Nat}
    (hother : r.chainId ≠ cfg.chainId ∨
    (∃ e, e.chainId = cfg.chainId ∧ e.blockNumber ≠ b ∧ r.dedupKey = volumeBreachDedupKey e) ∨
      (∃ b', b' ≠ b ∧ r.dedupKey = volumeBreachPauseKey cfg.chainId b') ∨
        ∃ chainId p, r.dedupKey = OtherPage.dedupKey chainId p) :
    r ∈ clearPagerStatesWithStart rows cfg.chainId (volumeBreachBlockStart cfg.chainId b) := by
  refine mem_clearPagerStatesWithStart.mpr ⟨hr, ?_⟩
  rintro ⟨hchain, hstart⟩
  obtain hne | ⟨e, he, hblock, hkey⟩ | ⟨b', hblock, hkey⟩ | ⟨chainId, p, hkey⟩ := hother
  · exact hne hchain
  · rw [hkey, volumeBreachDedupKey, he, append_assoc] at hstart
    exact hblock (start_of_isPrefix hstart).symm
  · rw [hkey, volumeBreachPauseKey] at hstart
    exact hblock (start_of_isPrefix hstart).symm
  rw [hkey] at hstart
  exact not_isPrefix_otherPage chainId p ((volumeBreachStart_isPrefix _ _).trans hstart)

def Moved (cursor₀ : Option Nat) (w : World H) : Prop :=
  w.state.cursor = cursor₀ ∨ ∃ x ∈ w.log, ∃ b, x.request = .advanceCursor b ∧ w.state.cursor = some b

private theorem Moved.perform {cursor₀ : Option Nat} (h : Moved cursor₀ w) (q : Request) (r : Reply) :
    Moved cursor₀ (w.perform cfg q r).1 := by
  have hcursor : (w.perform cfg q r).1.state.cursor = w.state.cursor ∨
      ∃ b, q = .advanceCursor b ∧ (w.perform cfg q r).1.state.cursor = some b := by
    cases q with
    | advanceCursor b =>
      simp only [World.perform, effect, Reply.write]
      split
      · exact .inl rfl
      · exact .inr ⟨b, rfl, rfl⟩
    | touchCursor | savePagerState | clearPagerStates =>
      simp only [World.perform, effect, Reply.write]
      split <;> exact .inl rfl
    | _ => exact .inl rfl
  obtain hsame | ⟨b, rfl, hmoved⟩ := hcursor
  · obtain hfirst | ⟨x, hx, b, hrequest, hat⟩ := h
    · exact .inl (hsame.trans hfirst)
    · exact .inr ⟨x, mem_cons_of_mem _ hx, b, hrequest, hsame.trans hat⟩
  · exact .inr ⟨⟨w.state, .advanceCursor b, r⟩, mem_cons_self, b, rfl, hmoved⟩

/-- Along every run on tables that stand still, whatever fails and whenever the process stops: the cursor is moved only
by requests, each of which waits until every alert of its block was acknowledged; an alert that has a record is sent
only when the record could not be read; and clearing the records of a block leaves those of other blocks, chains and
alerts. -/
theorem cursor_waits_for_alerts (cfg : Config) (d : Indexer.Deployment H) [DecidableEq H] (w₀ : World H)
    (actions : List (Action Reply Interference)) (halerts : cfg.alerts = true) (hlog : w₀.log = [])
    (hfresh : ∀ r ∈ w₀.state.pager, ¬ r.IsBreach cfg) (hrun : RunMeets cfg d (standing cfg) w₀ actions) :
    Moved w₀.state.cursor (worldAfter cfg d w₀ actions) ∧
      ∀ newer x older, (worldAfter cfg d w₀ actions).log = newer ++ x :: older →
        (∀ b, x.request = .advanceCursor b → ∀ e ∈ cfg.breaches w₀.state.db b, ∃ y ∈ older, y.Did (.dispatchAlert e)) ∧
        (∀ e state, x.request = .dispatchAlert e → x.record cfg (volumeBreachDedupKey e) = some state →
          ∃ y older', older = y :: older' ∧ y.request = .loadPagerState (volumeBreachDedupKey e) ∧
            y.reply.outcome ≠ .ok) ∧
        ∀ start, x.request = .clearPagerStates start → ∃ b, start = volumeBreachBlockStart cfg.chainId b ∧
          ∀ r ∈ x.state.pager, (r.chainId ≠ cfg.chainId ∨
            (∃ e, e.chainId = cfg.chainId ∧ e.blockNumber ≠ b ∧ r.dedupKey = volumeBreachDedupKey e) ∨
            (∃ b', b' ≠ b ∧ r.dedupKey = volumeBreachPauseKey cfg.chainId b') ∨
            ∃ chainId p, r.dedupKey = OtherPage.dedupKey chainId p) → r ∈ (x.after cfg).pager := by
  have hmoved : Moved w₀.state.cursor (worldAfter cfg d w₀ actions) := by
    refine invariant_worldAfter (Moved w₀.state.cursor) hrun (.inl rfl) ?_ (fun w hw => hw) fun w q r hw _ _ =>
      hw.perform q r
    intro w e hw _
    have hsame := same_interfere cfg d w e
    unfold Moved
    rw [hsame.cursor, hsame.log]
    exact hw
  have hrecorded : Recorded cfg w₀.state.db (worldAfter cfg d w₀ actions) := by
    refine invariant_worldAfter (Recorded cfg w₀.state.db) hrun ⟨⟨rfl, fun r hr hbreach =>
      absurd hbreach (hfresh r hr), ?_⟩, ?_⟩ (fun w e hw he => hw.interfere he)
      (fun w hw => ⟨⟨hw.seen.standing, hw.seen.sound, hw.seen.kept⟩, hw.logged⟩) fun w q r hw _ hallowed =>
        hw.perform hallowed
    · intro y older hcons
      rw [hlog] at hcons
      cases hcons
    · rw [hlog]
      trivial
  refine ⟨hmoved, ?_⟩
  intro newer x older hsplit
  refine ⟨fun b hrequest e he => hrecorded.acknowledged hsplit hrequest halerts he,
    fun e state hrequest hrecord => hrecorded.unreadable hsplit hrequest hrecord, ?_⟩
  intro start hrequest
  have hlogged := hrecorded.logged
  rw [hsplit] at hlogged
  obtain ⟨-, hallowed⟩ := hlogged.of_append
  unfold Allowed at hallowed
  rw [hrequest] at hallowed
  obtain ⟨b, -, -, rfl, -⟩ := hallowed
  refine ⟨b, rfl, ?_⟩
  intro r hr hother
  unfold Exchange.after
  rw [hrequest]
  simp only [effect, Reply.write]
  split
  · exact hr
  · exact mem_clear_of_other hr hother

end Alerts

def alertConfig : Config where
  chainId := 8453
  thresholds := ⟨"50".toList, "1000".toList, "1000".toList, "1000".toList⟩
  vault := []
  nodup := List.Pairwise.nil
  mode := .pauseAndAlert
  webhookUrl := some []
  gatewayRpcUrl := some []
  gatewayAddress := some 5
  pauser := some 6
  pauseFeeBumpBps := 1500
  indexerLag := ⟨150, 300, 150⟩

def depositWorld : World Chain where
  state := ⟨followDeployment.runOnce .empty ⟨depositChain.take 9, none⟩, none, none, 0, [], none, none⟩
  log := []

def answered : Action Reply Interference := .reply ⟨.ok, 1, false, 1000, ⟨some 0, some 0⟩⟩

def unanswered : Action Reply Interference := .reply ⟨.failed, 1, false, 1000, ⟨some 0, some 0⟩⟩

/-- The alert of block 3 is delivered and recorded, and the process stops.  On the next attempt its record cannot be
read. -/
def unreadableRun : List (Action Reply Interference) :=
  List.replicate 11 answered ++ [.restart] ++ List.replicate 8 answered ++ [unanswered] ++ List.replicate 8 answered

private theorem unreadableRun_replies : ∀ a ∈ unreadableRun, ∀ e, a ≠ .event e := by
  simp [unreadableRun, answered, unanswered]

/-- The cursor is at block 3, and its one alert was acknowledged before. -/
theorem cursor_waits_for_alerts_of_unreadableRun :
    (worldAfter alertConfig followDeployment depositWorld unreadableRun).state.cursor = some 3 ∧
      (alertConfig.breaches depositWorld.state.db 3).length = 1 ∧
      ∀ newer x older, (worldAfter alertConfig followDeployment depositWorld unreadableRun).log = newer ++ x :: older →
        x.request = .advanceCursor 3 → ∀ e ∈ alertConfig.breaches depositWorld.state.db 3,
          ∃ y ∈ older, y.Did (.dispatchAlert e) := by
  refine ⟨by decide +kernel, by decide +kernel, ?_⟩
  have hrun := cursor_waits_for_alerts alertConfig followDeployment depositWorld unreadableRun rfl rfl (fun _ h =>
    nomatch h)
    (runMeets_of_replies (fun _ _ _ => trivial) unreadableRun_replies _)
  exact fun newer x older hlog => (hrun.2 newer x older hlog).1 3

/-- An alert that was acknowledged and recorded is sent again. -/
theorem recorded_alert_sent_again :
    ¬ ∀ actions, RunMeets alertConfig followDeployment (standing alertConfig) depositWorld actions →
    ∀ x ∈ (worldAfter alertConfig followDeployment depositWorld actions).log, ∀ e, x.request = .dispatchAlert e →
      x.record alertConfig (volumeBreachDedupKey e) = none := by
  intro h
  have hall : ((worldAfter alertConfig followDeployment depositWorld unreadableRun).log.all fun x =>
      match x.request with
      | .dispatchAlert e => decide (x.record alertConfig (volumeBreachDedupKey e) = none)
      | _ => true) = true := by
    rw [all_eq_true]
    intro x hx
    split
    · rename_i e hrequest
      exact decide_eq_true (h unreadableRun (runMeets_of_replies (fun _ _ _ =>
        trivial) unreadableRun_replies _) x hx e hrequest)
    · rfl
  revert hall
  decide +kernel

/-- Along every run: a block with a breach is passed only after a cycle that has tried to pause, by a transaction or by
requests for its nonce and its price that were not answered, or has read that deposits are paused. -/
theorem cursor_waits_for_pause (cfg : Config) (d : Indexer.Deployment H) [DecidableEq H] (w₀ : World H)
    (actions : List (Action Reply Interference)) (hmode : cfg.mode.includesPause = true)
    (hpauser : cfg.pauser.isSome = true)
    (hgateway : cfg.gatewayAddress.isSome = true) (hlog : w₀.log = []) :
    ∀ newer x older b, (worldAfter cfg d w₀ actions).log = newer ++ x :: older → x.request = .advanceCursor b →
      ∃ breaches, Evaluation cfg (sinceStart older) b breaches ∧ (breaches ≠ [] →
        (∃ y ∈ sinceStart older, y.Did .depositsPaused ∧ y.reply.flag = true) ∨ ∃ y ∈ sinceStart older, y.IsPause) := by
  intro newer x older b hsplit hrequest
  have hlogged := logged_worldAfter cfg d hlog actions
  rw [hsplit] at hlogged
  have hallowed := hlogged.of_append
  unfold Allowed at hallowed
  rw [hrequest] at hallowed
  obtain ⟨-, -, breaches, heval, -, htried⟩ := hallowed
  refine ⟨breaches, heval, fun hne => ?_⟩
  obtain hpaused | hsent := htried hmode hne
  · exact .inl hpaused
  · exact .inr (hsent hpauser hgateway)

def unpausedRun : List (Action Reply Interference) :=
  List.replicate 12 answered ++ [unanswered] ++ List.replicate 2 answered

theorem cursor_waits_for_pause_of_unpausedRun :
    (worldAfter alertConfig followDeployment depositWorld unpausedRun).state.cursor = some 3 ∧
      ∀ newer x older b, (worldAfter alertConfig followDeployment depositWorld unpausedRun).log = newer ++ x :: older →
        x.request = .advanceCursor b → ∃ breaches, Evaluation alertConfig (sinceStart older) b breaches ∧
          (breaches ≠ [] →
          (∃ y ∈ sinceStart older, y.Did .depositsPaused ∧ y.reply.flag = true) ∨ ∃ y ∈ sinceStart older, y.IsPause) :=
  ⟨by decide +kernel, cursor_waits_for_pause alertConfig followDeployment depositWorld unpausedRun rfl rfl rfl rfl⟩

/-- The cursor passes block 3, which has a breach, and no transaction was accepted and no pause was read. -/
theorem block_passed_without_pause : alertConfig.breaches depositWorld.state.db 3 ≠ [] ∧
    (worldAfter alertConfig followDeployment depositWorld unpausedRun).state.cursor = some 3 ∧
    ∀ x ∈ (worldAfter alertConfig followDeployment depositWorld unpausedRun).log,
      (∀ nonce gasPrice, x.request ≠ .sendPause nonce gasPrice) ∧ x.request ≠ .depositsPaused := by
  have hall : ((worldAfter alertConfig followDeployment depositWorld unpausedRun).log.all fun x =>
      match x.request with
      | .sendPause .. | .depositsPaused => false
      | _ => true) = true := by
    decide +kernel
  refine ⟨by decide +kernel, by decide +kernel, ?_⟩
  intro x hx
  have hrequest := all_eq_true.mp hall x hx
  constructor
  · intro nonce gasPrice heq
    rw [heq] at hrequest
    cases hrequest
  · intro heq
    rw [heq] at hrequest
    cases hrequest

end RobotMoney.Watchdog
