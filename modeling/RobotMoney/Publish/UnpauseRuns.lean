import RobotMoney.Publish.StaleUnpause

/-!
# Govern runs send no stale unpause

Each part of a govern run keeps the invariant of the manifest.  The execution of an operation that reopens a vault is
sent after a read of the pauses, and what that read has found stays true as long as no pause is begun (`Seen`).
-/

open Effect

namespace RobotMoney.Publish

open Evm List Option

/-- What the last read of the pauses by the process says of an operation: no pause was begun since it was scheduled, or
it was scheduled again after the read. -/
def Seen (p : Nat) (id : OperationId) : List GovernEvent → Prop
  | [] => True
  | .checked q ok :: older => if q = p then ok = true → begunSince older id = [] else Seen p id older
  | .scheduled i :: older => i = id ∨ Seen p id older
  | _ :: older => Seen p id older

variable {id : OperationId} {log : List GovernEvent} {w : GovernWorld}

theorem begunSince_eq_nil {p : Nat} (hseen : Seen p id log) (hquiet : Quiet p log) : begunSince log id = [] := by
  induction log with
  | nil => exact hquiet.elim
  | cons ev older ih =>
    cases ev with
    | checked q ok =>
      rw [Seen] at hseen
      rw [Quiet] at hquiet
      split_ifs at hseen hquiet
      · exact hseen hquiet
      · exact ih hseen hquiet
    | scheduled i =>
      rw [begunSince]
      split_ifs with hi
      · rfl
      · exact ih (hseen.resolve_left hi) hquiet
    | manifest e =>
      cases e with
      | began e => exact hquiet.elim
      | updated e => exact ih hseen hquiet
      | reserved n => exact ih hseen hquiet
      | saved => exact ih hseen hquiet

private theorem not_stale {p : Nat} (hseen : Seen p id w.log) (hquiet : Quiet p w.log) : ¬w.Stale id := by
  rintro ⟨e, -, he⟩
  rw [begunSince_eq_nil hseen hquiet] at he
  exact absurd he not_mem_nil

private theorem stable_seen (p : Nat) (id : OperationId) : Stable p fun w => Seen p id w.log := by
  intro o w w' ho hmoves hw
  rcases hmoves.log with hlog | ⟨ev, hlog, -, hchecked⟩
  · rw [hlog]
    exact hw
  rw [hlog]
  cases ev with
  | checked q ok =>
    have hq : q ≠ p := by
      rintro rfl
      exact ho (hchecked q ok rfl)
    rw [Seen, if_neg hq]
    exact hw
  | scheduled i => exact .inr hw
  | manifest e => exact hw

def Passed (p : Nat) (id : OperationId) (w : GovernWorld) : Prop := Seen p id w.log ∨ w.timelock id ≠ .pending

private theorem stable_passed (p : Nat) (id : OperationId) : Stable p (Passed p id) := by
  rintro o w w' ho hmoves (hseen | hstatus)
  · exact .inl (stable_seen p id o w w' ho hmoves hseen)
  · by_cases hstatus' : w'.timelock id = .pending
    · -- the operation was not on the timelock, so it was scheduled by this step
      have hunset : w.timelock id = .unset := by
        cases hw : w.timelock id with
        | unset => rfl
        | pending => exact absurd hw hstatus
        | done => exact absurd (hmoves.done id hw) (by rw [hstatus']; decide)
      left
      rw [hmoves.unset id hunset (by rw [hstatus']; decide)]
      exact .inl rfl
    · exact .inr hstatus'

section Requests

variable (cfg : GovernConfig)

/-- The invariant of the manifest, what a step may change, and that no stale unpause is sent. -/
def unpauseRules : Rules GovernRequest GovernWorld where
  inv := GovernInv cfg
  guar p := Moves (some p)
  env := Moves none
  spec p q w := ∀ row id, q = .sendExecute row id → row.reopens = true → Quiet p w.log → ¬w.Stale id

/-- A part of a run of the process `p` is safe, and what it returns meets `post`. -/
abbrev Safe {α : Type} (p : Nat) (post : α → GovernWorld → Prop) (x : Govern α) (w : GovernWorld) : Prop :=
  SafeTry (governHost cfg) (unpauseRules cfg) p post x w

variable {cfg} {p : Nat} {w w' : GovernWorld} {F : GovernWorld → Prop} {q : GovernRequest}

private theorem Stable.others (hF : Stable p F) (hothers : (unpauseRules cfg).Others p w w') (hw : F w) : F w' := by
  refine hothers.stable ?_ hw
  rintro v v' (hmoves | ⟨o, ho, hmoves⟩) hv
  · exact hF none v v' (by rintro ⟨⟩) hmoves hv
  · refine hF (some o) v v' ?_ hmoves hv
    rintro ⟨⟩
    exact ho rfl

private theorem Stable.next (hF : Stable p F) (hq : q ≠ .loadPauses) (r : GovernReply) (hw : F w) : F (w.next p q r) :=
  hF none w _ (by rintro ⟨⟩) (moves_next w r fun h => absurd h hq) hw

private theorem safe_ask {post : Content q → GovernWorld → Prop} (hF : Stable p F) (hw : F w) (hq : q ≠ .loadPauses)
    (hsaves : ∀ v m, F v → q.saves = some m → Numbered cfg m v)
    (hsend : ∀ v row id, F v → q = .sendExecute row id → row.reopens = true → Quiet p v.log → ¬v.Stale id)
    (hpost : ∀ v r a, F v → GovernInv cfg (v.next p q r) → F (v.next p q r) → v.reply q r = .ok a →
      post a (v.next p q r)) : Safe cfg p post (ask q) w := by
  intro v hothers hinv
  have hv : F v := hF.others hothers hw
  refine ⟨fun row id h => hsend v row id hv h, fun r => ?_⟩
  have hinv' : GovernInv cfg (v.next p q r) := hinv.next p q r fun m hm => hsaves v m hv hm
  refine ⟨hinv', moves_next v r fun _ => rfl, fun a ha => ?_⟩
  exact hpost v r a hv hinv' (hF.next hq r hv) ha

/-- A request that neither reads the pauses, nor writes the manifest, nor executes anything. -/
def GovernRequest.plain : GovernRequest → Bool
  | .loadPauses => false
  | .saveRunManifest _ => false
  | .reserveManifestSeq _ => false
  | .sendExecute _ _ => false
  | _ => true

section

variable (hF : Stable p F)

include hF

private theorem safe_plain {post : Content q → GovernWorld → Prop} (hw : F w) (hq : q.plain = true)
    (hpost : ∀ v r a, F v → GovernInv cfg (v.next p q r) → F (v.next p q r) → v.reply q r = .ok a →
      post a (v.next p q r)) : Safe cfg p post (ask q) w := by
  refine safe_ask hF hw ?_ ?_ ?_ hpost
  · rintro rfl
    cases hq
  · intro v m _ hm
    cases q with
    | saveRunManifest m => cases hq
    | reserveManifestSeq m => cases hq
    | _ => cases hm
  · rintro v row id - rfl
    cases hq

private theorem safe_require (hw : F w) (hq : q.plain = true) : Safe cfg p (fun _ v => F v) (require q) w :=
  SafeTry.bind (safe_plain hF hw hq fun _ _ _ _ _ hv _ => hv) fun _ _ hv => SafeTry.pure hv

private theorem safe_operationState (hw : F w) (id : OperationId) :
    Safe cfg p (fun _ v => F v ∧ GovernInv cfg v) (operationState id) w :=
  safe_plain hF hw rfl fun _ _ _ _ hinv hv _ => ⟨hv, hinv⟩

private theorem safe_saveRunManifest {m : RunManifest} (hw : F w) (hm : ∀ v, F v → Numbered cfg m v) :
    Safe cfg p (fun m' v => F v ∧ m'.govern = m.govern) (saveRunManifest m) w := by
  refine safe_ask hF hw (fun h => nomatch h) ?_ (fun _ _ _ _ h => nomatch h) ?_
  · rintro v _ hv ⟨⟩
    exact hm v hv
  · intro v r m' _ _ hv' hreply
    obtain ⟨-, rfl⟩ := of_answer hreply
    exact ⟨hv', rfl⟩

private theorem safe_reserveManifestSeq {m : RunManifest} (hw : F w) (hm : ∀ v, F v → Numbered cfg m v) :
    Safe cfg p (fun reserved v => (F v ∧ reserved.1 ≤ highOf v.disk) ∧ reserved.2.govern = m.govern)
      (reserveManifestSeq m) w := by
  refine safe_ask hF hw (fun h => nomatch h) ?_ (fun _ _ _ _ h => nomatch h) ?_
  · rintro v _ hv ⟨⟩
    exact hm v hv
  · intro v r reserved _ _ hv' hreply
    obtain ⟨hr, rfl⟩ := of_answer hreply
    refine ⟨⟨hv', ?_⟩, rfl⟩
    have hnext : v.next p (.reserveManifestSeq m) r = v.write (.reserveManifestSeq m) := if_pos hr
    rw [hnext]
    exact le_rfl

end

private theorem kept_high (n : Nat) : Kept fun w => n ≤ highOf w.disk := fun _ _ _ hmoves hw => hw.trans hmoves.high

private theorem safe_sendSchedule {row : GovernRow} {id : OperationId} {n : Nat} (hF : Stable p F) (hw : F w)
    (hn : n ≤ highOf w.disk) : Safe cfg p (fun _ v => F v ∧ Since id n v) (require (.sendSchedule row id)) w := by
  have hsend : Safe cfg p (fun _ v => F v ∧ Since id n v) (ask (.sendSchedule row id)) w := by
    refine safe_plain (hF.and ((kept_high n).stable p)) ⟨hw, hn⟩ rfl ?_
    rintro v r a - - ⟨hv', hn'⟩ hreply
    refine ⟨hv', hn', ?_⟩
    have htook : r.took ∧ v.timelock id = .unset := by
      by_contra hnot
      rw [GovernWorld.reply, if_neg hnot] at hreply
      cases hreply
    have hnext : v.next p (.sendSchedule row id) r = v.schedule id := if_pos htook
    rw [hnext, GovernWorld.schedule, begunSince, if_pos rfl]
    exact fun k hk => absurd hk not_mem_nil
  exact .bind hsend fun _ _ hv => SafeTry.pure hv

end Requests

private theorem mem_of_begunSince {n : Nat} (h : n ∈ begunSince log id) :
    ∃ e : PauseEntry, e.seq = n ∧ GovernEvent.manifest (.began e) ∈ log := by
  induction log with
  | nil => cases h
  | cons ev older ih =>
    have hcons : n ∈ begunSince older id → ∃ e : PauseEntry, e.seq = n ∧
        GovernEvent.manifest (.began e) ∈ ev :: older := by
      intro h
      obtain ⟨e, he, hmem⟩ := ih h
      exact ⟨e, he, mem_cons_of_mem _ hmem⟩
    cases ev with
    | checked q ok => exact hcons h
    | scheduled i =>
      rw [begunSince] at h
      split_ifs at h
      · cases h
      · exact hcons h
    | manifest e =>
      cases e with
      | began e =>
        rcases mem_cons.1 h with rfl | h
        · exact ⟨e, rfl, mem_cons_self⟩
        · exact hcons h
      | updated e => exact hcons h
      | reserved n => exact hcons h
      | saved => exact hcons h

private theorem GovernInv.since_zero {cfg : GovernConfig} (h : GovernInv cfg w) (id : OperationId) : Since id 0 w := by
  refine ⟨Nat.zero_le _, fun n hn => ?_⟩
  obtain ⟨e, rfl, hmem⟩ := mem_of_begunSince hn
  exact h.positive e hmem

private theorem mem_manifestLog {e : ManifestEvent} (h : GovernEvent.manifest e ∈ log) : e ∈ manifestLog log :=
  mem_filterMap.2 ⟨_, h, rfl⟩

theorem GovernInv.begunSince_eq_nil {cfg : GovernConfig} (h : GovernInv cfg w) {seq : Nat} (hsince : Since id seq w)
    {m : RunManifest} (hlive : ∀ e ∈ livePauses m (some (entriesOf w.disk)), e.seq ≤ seq) :
    begunSince w.log id = [] := by
  refine eq_nil_iff_forall_not_mem.2 fun n hn => ?_
  obtain ⟨e, rfl, hmem⟩ := mem_of_begunSince hn
  obtain ⟨e', he'⟩ := isSome_iff_exists.1 (isSome_newest (mem_manifestLog hmem))
  have honly := h.recorded.present _ e' he'
  have hle := hlive e' (honly.bySeq (m.pauses.getD [])).sortBySeq.1
  have hlt := hsince.2 _ hn
  rw [seq_newest he'] at hle
  omega

section Records

variable (cfg : GovernConfig)

/-- The operation is that of the record of a row, which has what the operation is made of. -/
def Keyed (row : GovernRow) (id : OperationId) (m : RunManifest) : Prop :=
  row.reopens = true → currentId cfg m row = id ∧ row.Fits ((m.record row.key).getD { round := some 1 })

/-- The record of a row has a schedule, with a number that is right for the operation. -/
def Placed (row : GovernRow) (id : OperationId) (m : RunManifest) (w : GovernWorld) : Prop :=
  row.reopens = true → ∃ r sched, m.record row.key = some r ∧ r.scheduled = some sched ∧ Since id (sched.seq.getD 0) w

def SameBut (row : GovernRow) (m m' : RunManifest) : Prop :=
  ∀ other : GovernRow, other.key ≠ row.key → m'.record other.key = m.record other.key

def Extends (m m' : RunManifest) : Prop :=
  ∀ key r, m.record key = some r → ∃ r', m'.record key = some r' ∧ r'.scheduled = r.scheduled

variable {cfg} {w : GovernWorld} {m m' m'' : RunManifest} {row other : GovernRow} {id : OperationId}

private theorem kept_placed (row : GovernRow) (id : OperationId) (m : RunManifest) : Kept (Placed row id m) := by
  intro o w w' hmoves h hrow
  obtain ⟨r, sched, hr, hsched, hsince⟩ := h hrow
  exact ⟨r, sched, hr, hsched, kept_since id _ o w w' hmoves hsince⟩

private theorem Placed.extends (h : Placed row id m w) (hm : Extends m m') : Placed row id m' w := by
  intro hrow
  obtain ⟨r, sched, hr, hsched, hsince⟩ := h hrow
  obtain ⟨r', hr', hsched'⟩ := hm _ r hr
  exact ⟨r', sched, hr', hsched'.trans hsched, hsince⟩

private theorem Placed.sameBut (h : Placed row id m w) (hm : SameBut other m m') (hne : row.key ≠ other.key) :
    Placed row id m' w := by
  intro hrow
  obtain ⟨r, sched, hr, hsched, hsince⟩ := h hrow
  exact ⟨r, sched, (hm row hne).trans hr, hsched, hsince⟩

private theorem SameBut.trans (h : SameBut row m m') (h' : SameBut row m' m'') : SameBut row m m'' :=
  fun other hne => (h' other hne).trans (h other hne)

private theorem SameBut.refl (row : GovernRow) (m : RunManifest) : SameBut row m m := fun _ _ => rfl

private theorem record_of_govern (hm : m'.govern = m.govern) (key : RecordKey) : m'.record key = m.record key := by
  rw [RunManifest.record, hm]
  rfl

private theorem Numbered.of_govern (h : Numbered cfg m w) (hm : m'.govern = m.govern) : Numbered cfg m' w :=
  h.congr fun _ => record_of_govern hm _

private theorem sameBut_of_govern (hm : m'.govern = m.govern) : SameBut row m m' := fun _ _ => record_of_govern hm _

private theorem extends_of_govern (hm : m'.govern = m.govern) : Extends m m' :=
  fun _ r hr => ⟨r, (record_of_govern hm _).trans hr, rfl⟩

theorem sameBut_setRecord (row : GovernRow) (r : RowRecord) (m : RunManifest) : SameBut row m (m.setRecord row.key r) :=
  fun _ hne => record_setRecord_of_ne m r hne

private theorem eq_of_key (hother : other.reopens = true) (hkey : other.key = row.key) : other = row := by
  have hname : other.name = row.name := RecordKey.row.inj hkey
  cases other with
  | unpause vault =>
    cases row with
    | unpause vault' =>
      cases hname
      rfl
    | _ => cases hname
  | redeployVault key ordinal =>
    cases row with
    | redeployVault key' ordinal' =>
      cases hname
      rfl
    | _ => cases hname
  | _ => cases hother

private theorem Numbered.setRecord {r : RowRecord} (h : Numbered cfg m w)
    (hr : row.reopens = true → ∀ sched, r.scheduled = some sched →
      row.Fits r ∧ Since (cfg.operationId (operationKey row r)) (sched.seq.getD 0) w) :
    Numbered cfg (m.setRecord row.key r) w := by
  intro other hother r' sched hr' hsched
  by_cases hkey : other.key = row.key
  · obtain rfl := eq_of_key hother hkey
    have hself := record_setRecord_self m other.key r
    obtain rfl : r = r' := some.inj (hself.symm.trans hr')
    have hid : currentId cfg (m.setRecord other.key r) other = cfg.operationId (operationKey other r) := by
      rw [currentId, hself]
      rfl
    rw [hid]
    exact hr hother sched hsched
  have hsame := record_setRecord_of_ne m r hkey
  have hid : currentId cfg (m.setRecord row.key r) other = currentId cfg m other := by rw [currentId, currentId, hsame]
  rw [hid]
  exact h other hother r' sched (hsame.symm.trans hr') hsched

private theorem Numbered.setRecord_same {r : RowRecord} (h : Numbered cfg m w)
    (hsame : ∀ sched, r.scheduled = some sched → ∃ old, m.record row.key = some old ∧ old.scheduled = some sched ∧
      old.round = r.round ∧ old.plan = r.plan) : Numbered cfg (m.setRecord row.key r) w := by
  refine h.setRecord fun hrow sched hsched => ?_
  obtain ⟨old, hold, hsched', hround, hplan⟩ := hsame sched hsched
  obtain ⟨hfits, hsince⟩ := h row hrow old sched hold hsched'
  have hkey : operationKey row old = operationKey row r := by
    unfold operationKey
    rw [hround, hplan]
  rw [currentId, hold, getD_some, hkey] at hsince
  refine ⟨?_, hsince⟩
  unfold GovernRow.Fits at hfits ⊢
  rw [← hplan]
  exact hfits

end Records

section Phases

variable {cfg : GovernConfig} {p : Nat} {w : GovernWorld} {F : GovernWorld → Prop} {m : RunManifest} {row : GovernRow}
  {id : OperationId}

private theorem safe_signLoop (hF : Stable p F) (signed : Nat) (signers : List Bool) (hw : F w) :
    Safe cfg p (fun _ v => F v) (signLoop cfg signed signers) w := by
  induction signers generalizing signed w with
  | nil => exact .pure hw
  | cons isOwner rest ih =>
    rw [signLoop]
    split_ifs
    · exact .pure hw
    · exact .bind (safe_require hF hw rfl) fun _ _ hv => ih (signed + 1) hv
    · exact ih signed hw

private theorem safe_signAll (hF : Stable p F) (hw : F w) : Safe cfg p (fun _ v => F v) (signAll cfg) w := by
  refine .bind (safe_signLoop hF 0 cfg.ownerSigners hw) fun signed v hv => ?_
  split_ifs
  · exact .throw
  · exact .pure hv

private theorem safe_pollReady (hF : Stable p F) (latest : Nat) (ids : List OperationId) (hw : F w) :
    Safe cfg p (fun _ v => F v) (pollReady latest ids) w := by
  induction ids generalizing latest w with
  | nil => exact .pure hw
  | cons id rest ih =>
    refine .bind (safe_operationState hF hw id) ?_
    rintro st v ⟨hv, -⟩
    split_ifs
    · exact ih latest hv
    · exact ih _ hv
    · exact .throw

private theorem safe_waitReady (hF : Stable p F) (ids : List OperationId) (polls : Nat) (hw : F w) :
    Safe cfg p (fun _ v => F v) (waitReady ids polls) w := by
  induction polls generalizing w with
  | zero => exact .throw
  | succ polls ih =>
    refine .bind (safe_pollReady hF 0 ids hw) fun latest v hv => ?_
    split_ifs
    · exact .pure hv
    · exact .bind (safe_require hF hv rfl) fun _ _ hv => ih hv

variable {r : RowRecord}

private theorem safe_saveScheduled {n : Nat} (hF : Stable p F) (hw : F w) (hnumbered : Numbered cfg m w)
    (hkeyed : Keyed cfg row id m) (hr : (m.record row.key).getD { round := some 1 } = r) (hsince : Since id n w) :
    Safe cfg p (fun m' v => F v ∧ Numbered cfg m' v ∧ Placed row id m' v ∧ SameBut row m m')
      (saveScheduled row r n id m) w := by
  have hset : ∀ v, Numbered cfg m v → Since id n v →
      Numbered cfg (m.setRecord row.key { r with scheduled := some ⟨some n, some id⟩ }) v := by
    intro v hv hsince
    refine hv.setRecord fun hrow => ?_
    rintro _ ⟨⟩
    obtain ⟨hid, hfits⟩ := hkeyed hrow
    rw [hr] at hfits
    rw [currentId, hr] at hid
    exact ⟨hfits, hid ▸ hsince⟩
  have hstable := hF.and (((kept_numbered cfg m).and (kept_since id n)).stable p)
  refine .mono (safe_saveRunManifest hstable ⟨hw, hnumbered, hsince⟩ fun v hv => hset v hv.2.1 hv.2.2) ?_
  rintro m' v ⟨⟨hv, hnum, hsince⟩, hm'⟩
  refine ⟨hv, (hset v hnum hsince).of_govern hm', fun _ => ?_, ?_⟩
  · exact ⟨_, _, (record_of_govern hm' _).trans (record_setRecord_self ..), rfl, hsince⟩
  · exact (sameBut_setRecord row _ m).trans (sameBut_of_govern hm')

theorem safe_schedulePhase (hF : Stable p F) (hw : F w) (hnumbered : Numbered cfg m w) (hkeyed : Keyed cfg row id m) :
    Safe cfg p (fun m' v => F v ∧ Numbered cfg m' v ∧ Placed row id m' v ∧ SameBut row m m')
      (schedulePhase cfg row id m) w := by
  unfold schedulePhase
  dsimp only
  have hstable := hF.and ((kept_numbered cfg m).stable p)
  split_ifs with hscheduled
  · -- the record has a schedule already
    refine .pure ⟨hw, hnumbered, fun hrow => ?_, SameBut.refl row m⟩
    obtain ⟨sched, hsched⟩ := isSome_iff_exists.1 hscheduled
    cases hr : m.record row.key with
    | none =>
      rw [hr] at hsched
      cases hsched
    | some r =>
      rw [hr] at hsched
      have hid := (hkeyed hrow).1
      exact ⟨r, sched, rfl, hsched, hid ▸ (hnumbered row hrow r sched hr hsched).2⟩
  · refine .bind (safe_operationState hstable ⟨hw, hnumbered⟩ id) ?_
    rintro st v ⟨⟨hv, hnum⟩, hinv⟩
    split_ifs
    · -- an operation that is found on the timelock: every pause has a greater number than 0
      exact safe_saveScheduled hF hv hnum hkeyed rfl (hinv.since_zero id)
    · refine .bind (safe_reserveManifestSeq hstable ⟨hv, hnum⟩ fun _ h => h.2) ?_
      rintro ⟨n, m'⟩ v ⟨⟨hv, hn⟩, hm'⟩
      have hstable' := hstable.and ((kept_high n).stable p)
      refine .bind (safe_require hstable' ⟨hv, hn⟩ rfl) fun _ v hv => ?_
      refine .bind (safe_signAll hstable' hv) fun _ v hv => ?_
      refine .bind (safe_sendSchedule hstable hv.1 hv.2) fun _ v hv => ?_
      have hstable' := hstable.and ((kept_since id n).stable p)
      refine .bind (safe_require hstable' hv rfl) ?_
      rintro - v ⟨⟨hv, hnum⟩, hsince⟩
      have hkeyed' : Keyed cfg row id m' := by
        unfold Keyed currentId
        rw [record_of_govern hm']
        exact hkeyed
      refine .mono (safe_saveScheduled hF hv (hnum.of_govern hm') hkeyed' ?_ hsince) ?_
      · rw [record_of_govern hm']
      · rintro m'' v ⟨hv, hnum, hplaced, hsame⟩
        exact ⟨hv, hnum, hplaced, (sameBut_of_govern hm').trans hsame⟩

private theorem safe_operationState_of_passed (hF : Stable p F) (hw : F w) (id : OperationId) :
    Safe cfg p (fun st v => F v ∧ (st.done = true ∨ st.isOperation = false → Passed p id v)) (operationState id) w := by
  refine safe_plain hF hw rfl ?_
  intro v r st _ _ hv' hreply
  obtain ⟨-, rfl⟩ := of_answer hreply
  refine ⟨hv', ?_⟩
  rintro (hdone | hunset)
  · right
    have hstatus : v.timelock id = .done := of_decide_eq_true hdone
    change v.timelock id ≠ _
    rw [hstatus]
    decide
  · right
    have hstatus : v.timelock id = .unset := not_not.1 (of_decide_eq_false hunset)
    change v.timelock id ≠ _
    rw [hstatus]
    decide

private theorem safe_loadPauses (hF : Kept F) (hw : F w) {seq : Nat} (hsince : Since id seq w) (m : RunManifest) :
    Safe cfg p (fun disk v => F v ∧ ((∀ e ∈ livePauses m disk, e.seq ≤ seq) → Seen p id v.log)) loadPauses w := by
  intro v hothers hinv
  obtain ⟨hv, hsince⟩ := ((hF.and (kept_since id seq)).stable p).others hothers ⟨hw, hsince⟩
  refine ⟨(fun _ _ h => nomatch h), fun r => ?_⟩
  have hmoves : Moves (some p) v (v.next p .loadPauses r) := moves_next v r fun _ => rfl
  have hinv' : GovernInv cfg (v.next p .loadPauses r) := hinv.next p .loadPauses r fun _ h => nomatch h
  refine ⟨hinv', hmoves, ?_⟩
  rintro disk ⟨⟩
  refine ⟨hF _ v _ hmoves hv, fun hlive => ?_⟩
  change Seen p id (.checked p r.ok :: v.log)
  rw [Seen, if_pos rfl]
  intro hok
  have hreply : v.reply .loadPauses r = .ok (entriesOf v.disk) := if_pos hok
  have hlive : ∀ e ∈ livePauses m (v.reply .loadPauses r).toOption, e.seq ≤ seq := hlive
  rw [hreply] at hlive
  exact GovernInv.begunSince_eq_nil hinv hsince hlive

private theorem safe_refuseIfPausedSince (hF : Kept F) (hw : F w) (hplaced : Placed row id m w) :
    Safe cfg p (fun m' v => F v ∧ m'.govern = m.govern ∧
      (row.reopens = true → ((m.record row.key).getD {}).executed = none → Passed p id v))
      (refuseIfPausedSince row id m) w := by
  unfold refuseIfPausedSince
  split_ifs with hrow
  · refine .pure ⟨hw, rfl, fun h => ?_⟩
    rw [hrow] at h
    cases h
  · have hrow : row.reopens = true := by simpa using hrow
    obtain ⟨r, sched, hr, hsched, hsince⟩ := hplaced hrow
    rw [hr]
    dsimp only
    rw [hsched]
    dsimp only
    split_ifs with hexecuted
    · refine .pure ⟨hw, rfl, fun _ h => ?_⟩
      rw [getD_some] at h
      rw [h] at hexecuted
      cases hexecuted
    · refine .bind (safe_loadPauses hF hw hsince m) ?_
      rintro disk v ⟨hv, hseen⟩
      split_ifs with hall
      · refine .pure ⟨hv, rfl, fun _ _ => .inl (hseen fun e he => ?_)⟩
        exact of_decide_eq_true (all_eq_true.1 hall e he)
      · refine .bind (safe_operationState_of_passed (hF.stable p) hv id) ?_
        rintro st v ⟨hv, hpassed⟩
        split_ifs with hst
        · refine .pure ⟨hv, rfl, fun _ _ => hpassed ?_⟩
          simpa using hst
        · exact .throw

private theorem extends_setRecord {key : RecordKey} (h : ∀ old, m.record key = some old → r.scheduled = old.scheduled) :
    Extends m (m.setRecord key r) := by
  intro k old hold
  by_cases hk : k = key
  · subst hk
    exact ⟨r, record_setRecord_self .., h old hold⟩
  · exact ⟨old, (record_setRecord_of_ne m r hk).trans hold, rfl⟩

private theorem safe_saveExecuted (hF : Stable p F) (hw : F w) (hnumbered : Numbered cfg m w)
    (hr : (m.record row.key).getD {} = r) :
    Safe cfg p (fun m' v => F v ∧ Numbered cfg m' v ∧ Extends m m') (saveExecuted row r id m) w := by
  have hstable := hF.and ((kept_numbered cfg m).stable p)
  have hold : ∀ old, m.record row.key = some old → old = r := by
    intro old hold
    rw [hold] at hr
    exact hr
  have hset : ∀ v, Numbered cfg m v →
      Numbered cfg (m.setRecord row.key { r with executed := some ⟨none, some id⟩ }) v := by
    intro v hv
    refine hv.setRecord_same fun sched hsched => ?_
    cases hrec : m.record row.key with
    | none =>
      rw [hrec] at hr
      rw [← hr] at hsched
      cases hsched
    | some old =>
      obtain rfl := hold old hrec
      exact ⟨old, rfl, hsched, rfl, rfl⟩
  have hread : Safe cfg p (fun _ v => F v ∧ Numbered cfg m v) (readBack row r.plan) w :=
    safe_plain hstable ⟨hw, hnumbered⟩ rfl fun _ _ _ _ _ hv _ => hv
  refine .bind hread ?_
  rintro bad v ⟨hv, hnum⟩
  split_ifs
  · exact .throw
  · refine .mono (safe_saveRunManifest hstable ⟨hv, hnum⟩ fun v hv => hset v hv.2) ?_
    rintro m' v ⟨⟨hv, hnum⟩, hm'⟩
    refine ⟨hv, (hset v hnum).of_govern hm', fun key r' hr' => ?_⟩
    have hext : Extends m (m.setRecord row.key { r with executed := some ⟨none, some id⟩ }) :=
      extends_setRecord fun old h => by rw [hold old h]
    obtain ⟨r'', hr'', hsched⟩ := hext key r' hr'
    exact ⟨r'', (record_of_govern hm' _).trans hr'', hsched⟩

private theorem safe_executeOnTimelock (hF : Stable p F) (hw : F w) (hpassed : row.reopens = true → Passed p id w) :
    Safe cfg p (fun _ v => F v ∧ (row.reopens = true → Seen p id v.log)) (require (.executeOnTimelock id)) w := by
  have hstable : Stable p fun w => row.reopens = true → Passed p id w :=
    fun o w w' ho hmoves h hrow => stable_passed p id o w w' ho hmoves (h hrow)
  have hask : Safe cfg p (fun _ v => F v ∧ (row.reopens = true → Seen p id v.log)) (ask (.executeOnTimelock id)) w := by
    refine safe_plain (hF.and hstable) ⟨hw, hpassed⟩ rfl ?_
    intro v r _ hv _ hv' hreply
    have hpending : v.timelock id = .pending := by
      by_contra hnot
      rw [GovernWorld.reply, if_neg hnot] at hreply
      cases hreply
    exact ⟨hv'.1, fun hrow => (hv.2 hrow).resolve_right fun h => h hpending⟩
  exact .bind hask fun _ _ hv => SafeTry.pure hv

private theorem safe_sendExecute (hF : Stable p F) (hw : F w) (hseen : row.reopens = true → Seen p id w.log) :
    Safe cfg p (fun _ v => F v) (require (.sendExecute row id)) w := by
  have hstable : Stable p fun w => row.reopens = true → Seen p id w.log :=
    fun o w w' ho hmoves h hrow => stable_seen p id o w w' ho hmoves (h hrow)
  have hask : Safe cfg p (fun _ v => F v) (ask (.sendExecute row id)) w := by
    refine safe_ask (hF.and hstable) ⟨hw, hseen⟩ (fun h => nomatch h) (fun _ _ _ h => nomatch h) ?_ ?_
    · rintro v _ _ hv ⟨⟩ hrow hquiet
      exact not_stale (hv.2 hrow) hquiet
    · exact fun _ _ _ _ _ hv _ => hv.1
  exact .bind hask fun _ _ hv => SafeTry.pure hv

theorem safe_executePhase (hF : Kept F) (hw : F w) (hnumbered : Numbered cfg m w) (hplaced : Placed row id m w) :
    Safe cfg p (fun m' v => F v ∧ Numbered cfg m' v ∧ Extends m m') (executePhase cfg row id m) w := by
  unfold executePhase
  dsimp only
  by_cases hexecuted : ((m.record row.key).getD {}).executed.isSome
  · rw [if_pos hexecuted]
    exact .pure ⟨hw, hnumbered, fun key r hr => ⟨r, hr, rfl⟩⟩
  rw [if_neg hexecuted]
  have hexecuted : ((m.record row.key).getD {}).executed = none := by simpa using hexecuted
  have hkept := hF.and (kept_numbered cfg m)
  refine .bind (safe_refuseIfPausedSince hkept ⟨hw, hnumbered⟩ hplaced) ?_
  rintro m' v ⟨hv, hm', hpassed⟩
  have hfinish : ∀ v, F v ∧ Numbered cfg m v → Safe cfg p (fun m'' v => F v ∧ Numbered cfg m'' v ∧ Extends m m'')
      (saveExecuted row ((m.record row.key).getD {}) id m') v := by
    intro v hv
    have hsame : (m'.record row.key).getD {} = (m.record row.key).getD {} := by rw [record_of_govern hm']
    refine .mono (safe_saveExecuted (hF.stable p) hv.1 (hv.2.of_govern hm') hsame) ?_
    rintro m'' v ⟨hv, hnum, hext⟩
    refine ⟨hv, hnum, fun key r hr => ?_⟩
    exact hext key r ((record_of_govern hm' key).trans hr)
  have hsend : ∀ v, (F v ∧ Numbered cfg m v) ∧ (row.reopens = true → Passed p id v) →
      Safe cfg p (fun m'' v => F v ∧ Numbered cfg m'' v ∧ Extends m m'') (do
        require (.executeOnTimelock id)
        signAll cfg
        require (.sendExecute row id)
        require (.verifyTimelockEffect id)
        saveExecuted row ((m.record row.key).getD {}) id m') v := by
    rintro v ⟨hv, hpassed⟩
    refine .bind (safe_executeOnTimelock (hkept.stable p) hv hpassed) fun _ v hv => ?_
    have hstable : Stable p fun v => (F v ∧ Numbered cfg m v) ∧ (row.reopens = true → Seen p id v.log) :=
      (hkept.stable p).and fun o w w' ho hmoves h hrow => stable_seen p id o w w' ho hmoves (h hrow)
    refine .bind (safe_signAll hstable hv) fun _ v hv => ?_
    refine .bind (safe_sendExecute (hkept.stable p) hv.1 hv.2) fun _ v hv => ?_
    exact .bind (safe_require (hkept.stable p) hv rfl) fun _ v hv => hfinish v hv
  have hpassed : row.reopens = true → Passed p id v := fun hrow => hpassed hrow hexecuted
  have hstable : Stable p fun v => (F v ∧ Numbered cfg m v) ∧ (row.reopens = true → Passed p id v) :=
    (hkept.stable p).and fun o w w' ho hmoves h hrow => stable_passed p id o w w' ho hmoves (h hrow)
  refine .bind (safe_operationState hstable ⟨hv, hpassed⟩ id) ?_
  rintro st v ⟨hv, -⟩
  split_ifs with hdone hrereads
  · exact hfinish v hv.1
  · exact .bind (safe_require hstable hv rfl) fun _ v hv => hsend v hv
  · exact hsend v hv

private theorem safe_round (hw : Numbered cfg m w) (hkeyed : Keyed cfg row id m) (polls : Nat) :
    Safe cfg p (fun m' v => Numbered cfg m' v) (round cfg row id polls m) w := by
  have htrue : Kept fun _ => True := fun _ _ _ _ _ => trivial
  refine .bind (safe_schedulePhase (htrue.stable p) trivial hw hkeyed) ?_
  rintro m v ⟨-, hnum, hplaced, -⟩
  have hexecute : ∀ v, Numbered cfg m v ∧ Placed row id m v → Safe cfg p (fun m' v => Numbered cfg m' v)
      (executePhase cfg row id m) v :=
    fun v hv => SafeTry.mono (safe_executePhase htrue trivial hv.1 hv.2) fun _ _ hpost => hpost.2.1
  split_ifs
  · exact hexecute v ⟨hnum, hplaced⟩
  · have hstable := ((kept_numbered cfg m).and (kept_placed row id m)).stable p
    exact .bind (safe_waitReady hstable [id] polls ⟨hnum, hplaced⟩) fun _ v hv => hexecute v hv

end Phases

section Rows

variable {cfg : GovernConfig} {p : Nat} {w : GovernWorld} {F : GovernWorld → Prop} {m : RunManifest} {row : GovernRow}
  {id : OperationId}

private theorem keyed_of_not_reopens (hrow : row.reopens = false) (id : OperationId) (m : RunManifest) :
    Keyed cfg row id m := by
  intro h
  rw [hrow] at h
  cases h

variable {r : RowRecord} {live : List (GovernRow × OperationId)}

private theorem Numbered.setRecord_unscheduled (h : Numbered cfg m w) (hr : r.scheduled = none) :
    Numbered cfg (m.setRecord row.key r) w := by
  refine h.setRecord fun _ sched hsched => ?_
  rw [hr] at hsched
  cases hsched

private theorem Numbered.setRecord_aside {key : RecordKey} (h : Numbered cfg m w) (hkey : ∀ name, key ≠ .row name) :
    Numbered cfg (m.setRecord key r) w :=
  h.congr fun row => record_setRecord_of_ne m r (Ne.symm (hkey row.name))

private theorem sameBut_setRecord_aside {key : RecordKey} (hkey : ∀ name, key ≠ .row name) :
    SameBut row m (m.setRecord key r) :=
  fun other _ => record_setRecord_of_ne m r (Ne.symm (hkey other.name))

private theorem archiveKey_ne_row (row : GovernRow) (n k : Nat) (name : RowName) : row.archiveKey n k ≠ .row name := by
  cases row <;> exact fun h => nomatch h

private theorem round_ne_row (name : RowName) (n : Nat) (name' : RowName) : RecordKey.round name n ≠ .row name' :=
  fun h => nomatch h

private theorem safe_rescheduleIfCancelled (hF : Stable p F) (hw : F w) (hnumbered : Numbered cfg m w) :
    Safe cfg p (fun m' v => F v ∧ Numbered cfg m' v ∧ SameBut row m m') (rescheduleIfCancelled row m) w := by
  have hsame : Safe cfg p (fun m' v => F v ∧ Numbered cfg m' v ∧ SameBut row m m') (pure m) w :=
    SafeTry.pure ⟨hw, hnumbered, SameBut.refl row m⟩
  unfold rescheduleIfCancelled
  split
  · rename_i r prior _ _
    split_ifs
    · exact hsame
    · have hstable := hF.and ((kept_numbered cfg m).stable p)
      have hreopened : ∀ v, Numbered cfg m v → Numbered cfg (reopened row r m) v :=
        fun v hv => (hv.setRecord_aside (archiveKey_ne_row row _ _)).setRecord_unscheduled rfl
      refine .bind (safe_operationState hstable ⟨hw, hnumbered⟩ prior) ?_
      rintro st v ⟨hv, -⟩
      split_ifs
      · exact .pure ⟨hv.1, hv.2, SameBut.refl row m⟩
      · refine .mono (safe_saveRunManifest hstable hv fun v hv => hreopened v hv.2) ?_
        rintro m' v ⟨⟨hv, hnum⟩, hm'⟩
        refine ⟨hv, (hreopened v hnum).of_govern hm', ?_⟩
        have hbut : SameBut row m (reopened row r m) :=
          (sameBut_setRecord_aside (archiveKey_ne_row row _ _)).trans (sameBut_setRecord row _ _)
        exact hbut.trans (sameBut_of_govern hm')
  · exact hsame

private theorem safe_checkFresh (hF : Stable p F) (hw : F w) : Safe cfg p (fun _ v => F v) (checkFresh row id m) w := by
  unfold checkFresh
  split_ifs
  · exact .pure hw
  · refine .bind (safe_operationState hF hw id) ?_
    rintro st v ⟨hv, -⟩
    split_ifs
    · exact .pure hv
    · exact safe_require hF hv rfl

private theorem Numbered.setRecord_getD {fresh : RowRecord} (h : Numbered cfg m w) (hfresh : fresh.scheduled = none) :
    Numbered cfg (m.setRecord row.key ((m.record row.key).getD fresh)) w := by
  refine h.setRecord_same fun sched hsched => ?_
  cases hr : m.record row.key with
  | none =>
    rw [hr, getD_none, hfresh] at hsched
    cases hsched
  | some old =>
    rw [hr] at hsched
    exact ⟨old, rfl, hsched, rfl, rfl⟩

private theorem safe_singleRow (hrow : row.reopens = false) (hw : Numbered cfg m w) (polls : Nat) :
    Safe cfg p (fun m' v => Numbered cfg m' v) (singleRow cfg row polls m) w := by
  have hstable := (kept_numbered cfg m).stable p
  unfold singleRow
  dsimp only
  by_cases hother : namesOther m row (cfg.operationId ⟨row, none, none⟩)
  · rw [if_pos hother]
    exact .throw
  rw [if_neg hother]
  by_cases hcomplete : rowComplete (m.record row.key)
  · rw [if_pos hcomplete]
    exact .pure hw
  rw [if_neg hcomplete]
  refine .bind (safe_checkFresh hstable hw) fun _ v hv => ?_
  refine .bind (safe_saveRunManifest hstable hv fun v hv => hv.setRecord_getD rfl) ?_
  rintro m' v ⟨hv, hm'⟩
  exact safe_round ((hv.setRecord_getD rfl).of_govern hm') (keyed_of_not_reopens hrow _ _) polls

private theorem safe_roundsRow (hrow : row.reopens = false) (hw : Numbered cfg m w) (polls : Nat) :
    Safe cfg p (fun m' v => Numbered cfg m' v) (roundsRow cfg row polls m) w := by
  have htrue : Stable p fun _ => True := fun _ _ _ _ _ _ => trivial
  refine .bind (safe_rescheduleIfCancelled htrue trivial hw) ?_
  rintro m v ⟨-, hv, -⟩
  dsimp only
  split_ifs
  · exact .pure hv
  · exact .throw
  · refine .bind (safe_checkFresh ((kept_numbered cfg m).stable p) hv) fun _ v hv => ?_
    exact safe_round (hv.setRecord_getD rfl) (keyed_of_not_reopens hrow _ _) polls

private theorem Numbered.setRecord_plan (h : Numbered cfg m w) (hplan : (m.record row.key).bind (·.plan) = none)
    (plan : RowPlan)
    (hrow : ∀ vault, row ≠ .unpause vault) :
    Numbered cfg (m.setRecord row.key { (m.record row.key).getD { round := some 1 } with plan := some plan }) w := by
  refine h.setRecord fun hreopens sched hsched => ?_
  cases hr : m.record row.key with
  | none =>
    rw [hr] at hsched
    cases hsched
  | some old =>
    rw [hr] at hsched hplan
    have hfits := (h row hreopens old sched hr hsched).1
    cases row with
    | redeployVault key ordinal =>
      have hnone : old.plan = none := hplan
      rw [GovernRow.Fits, hnone] at hfits
      cases hfits
    | unpause vault => exact absurd rfl (hrow vault)
    | _ => cases hreopens

private theorem safe_planOf (hw : Numbered cfg m w) (hrow : ∀ vault, row ≠ .unpause vault) :
    Safe cfg p (fun planned v => Numbered cfg planned.2 v ∧
      (planned.2.record row.key).bind (·.plan) = some planned.1) (planOf row m) w := by
  have hstable := (kept_numbered cfg m).stable p
  unfold planOf
  cases hplan : (m.record row.key).bind (·.plan) with
  | some plan => exact .pure ⟨hw, hplan⟩
  | none =>
    have hask : Safe cfg p (fun _ v => Numbered cfg m v) (ask (.plan row)) w :=
      safe_plain hstable hw rfl fun _ _ _ _ _ hv _ => hv
    refine .bind hask fun plan v hv => ?_
    refine .bind (safe_saveRunManifest hstable hv fun v hv => hv.setRecord_plan hplan plan hrow) ?_
    rintro m' v ⟨hv, hm'⟩
    refine .pure ⟨(hv.setRecord_plan hplan plan hrow).of_govern hm', ?_⟩
    rw [record_of_govern hm', record_setRecord_self]
    rfl

private theorem safe_plannedRow (hrow : row.reopens = false) (hw : Numbered cfg m w) (polls : Nat) :
    Safe cfg p (fun m' v => Numbered cfg m' v) (plannedRow cfg row polls m) w := by
  have hne : ∀ vault, row ≠ .unpause vault := by
    rintro vault rfl
    cases hrow
  unfold plannedRow
  split_ifs
  · exact .pure hw
  · refine .bind (safe_planOf hw hne) ?_
    rintro planned v ⟨hv, -⟩
    exact safe_round hv (keyed_of_not_reopens hrow _ _) polls

private theorem keyed_redeploy {key : String} {ordinal : Nat} {plan : RowPlan}
    (hplan : (m.record (GovernRow.redeployVault key ordinal).key).bind (·.plan) = some plan) :
    Keyed cfg (.redeployVault key ordinal) (cfg.operationId ⟨.redeployVault key ordinal, none, some plan⟩) m := by
  intro _
  obtain ⟨r, hr, hplan⟩ := bind_eq_some_iff.1 hplan
  have hkey : operationKey (.redeployVault key ordinal) r = ⟨.redeployVault key ordinal, none, some plan⟩ := by
    rw [← hplan]
    rfl
  rw [currentId, hr, getD_some, hkey]
  refine ⟨rfl, ?_⟩
  change r.plan.isSome = true
  rw [hplan]
  rfl

private theorem safe_redeployRow {key : String} {ordinal : Nat} (hw : Numbered cfg m w) (polls : Nat) :
    Safe cfg p (fun m' v => Numbered cfg m' v) (redeployRow cfg (.redeployVault key ordinal) polls m) w := by
  refine .bind (safe_require ((kept_numbered cfg m).stable p) hw rfl) fun _ v hv => ?_
  have htrue : Stable p fun _ => True := fun _ _ _ _ _ _ => trivial
  refine .bind (safe_rescheduleIfCancelled htrue trivial hv) ?_
  rintro m v ⟨-, hv, -⟩
  split_ifs
  · exact .throw
  · exact .pure hv
  · refine .bind (safe_planOf hv fun _ h => nomatch h) ?_
    rintro planned v ⟨hv, hplan⟩
    dsimp only
    split_ifs
    · exact .throw
    · exact safe_round hv (keyed_redeploy hplan) polls

private theorem keyed_unpause (vault : String) (m : RunManifest) :
    Keyed cfg (.unpause vault) (cfg.operationId ⟨.unpause vault, some (roundOf m (.unpause vault)), none⟩) m := by
  intro _
  refine ⟨?_, trivial⟩
  rw [currentId, roundOf]
  cases m.record (GovernRow.unpause vault).key with
  | none => rfl
  | some r => rfl

def Opened (cfg : GovernConfig) (vault : String) (m : RunManifest) (opened : RunManifest × Option OperationId)
    (w : GovernWorld) : Prop :=
  Numbered cfg opened.1 w ∧ SameBut (.unpause vault) m opened.1 ∧
    ∀ id, opened.2 = some id → Placed (.unpause vault) id opened.1 w

private theorem safe_depositsPaused (hF : Stable p F) (hw : F w) (vault : String) :
    Safe cfg p (fun _ v => F v) (depositsPaused vault) w :=
  safe_plain hF hw rfl fun _ _ _ _ _ hv _ => hv

private theorem safe_scheduleUnpause (hF : Stable p F) (hw : F w) (hnumbered : Numbered cfg m w) (vault : String) :
    Safe cfg p (fun opened v => F v ∧ Opened cfg vault m opened v) (scheduleUnpause cfg vault m) w := by
  have hstable := hF.and ((kept_numbered cfg m).stable p)
  unfold scheduleUnpause
  dsimp only
  have hkeyed : Keyed cfg (.unpause vault) _ m := keyed_unpause vault m
  generalize cfg.operationId ⟨.unpause vault, some (roundOf m (.unpause vault)), none⟩ = id at hkeyed
  have hschedule : ∀ v, F v ∧ Numbered cfg m v → Safe cfg p (fun opened v => F v ∧ Opened cfg vault m opened v) (do
      let m' ← schedulePhase cfg (.unpause vault) id m
      pure (m', some id)) v := by
    rintro v ⟨hv, hnum⟩
    refine .bind (safe_schedulePhase hF hv hnum hkeyed) ?_
    rintro m' v ⟨hv, hnum, hplaced, hsame⟩
    refine .pure ⟨hv, hnum, hsame, ?_⟩
    rintro _ ⟨⟩
    exact hplaced
  by_cases hselected : cfg.unpauseVaults.contains vault = false
  · rw [if_pos hselected]
    refine .bind (safe_saveRunManifest hstable ⟨hw, hnumbered⟩ fun v hv => hv.2.setRecord_unscheduled rfl) ?_
    rintro m' v ⟨hv, hm'⟩
    refine .pure ⟨hv.1, (hv.2.setRecord_unscheduled rfl).of_govern hm', ?_, fun _ h => nomatch h⟩
    exact (sameBut_setRecord _ _ m).trans (sameBut_of_govern hm')
  rw [if_neg hselected]
  refine .bind (safe_require hstable ⟨hw, hnumbered⟩ rfl) fun _ v hv => ?_
  split_ifs
  · refine .bind (safe_operationState hstable hv id) ?_
    rintro st v ⟨hv, -⟩
    split_ifs
    · exact hschedule v hv
    · refine .bind (safe_depositsPaused hstable hv vault) fun paused v hv => ?_
      split_ifs
      · exact hschedule v hv
      · exact .throw_bind
  · exact hschedule v hv

private theorem safe_openUnpause (hF : Stable p F) (hw : F w) (hnumbered : Numbered cfg m w) (selected : Option String)
    (vault : String) :
    Safe cfg p (fun opened v => F v ∧ Opened cfg vault m opened v) (openUnpause cfg selected vault m) w := by
  have hstable : ∀ m, Stable p fun v => F v ∧ Numbered cfg m v := fun m => hF.and ((kept_numbered cfg m).stable p)
  -- the row goes on from a manifest that differs only in its own record
  have hschedule : ∀ m' v, F v ∧ Numbered cfg m' v → SameBut (.unpause vault) m m' →
      Safe cfg p (fun opened v => F v ∧ Opened cfg vault m opened v) (scheduleUnpause cfg vault m') v := by
    rintro m' v ⟨hv, hnum⟩ hsame
    refine .mono (safe_scheduleUnpause hF hv hnum vault) ?_
    rintro opened v ⟨hv, hnum, hsame', hplaced⟩
    exact ⟨hv, hnum, hsame.trans hsame', hplaced⟩
  have hrest : ∀ m' v, F v ∧ Numbered cfg m' v ∧ SameBut (.unpause vault) m m' →
      Safe cfg p (fun opened v => F v ∧ Opened cfg vault m opened v)
        (if rowComplete (m'.record (GovernRow.unpause vault).key) then
          if ((m'.record (GovernRow.unpause vault).key).getD {}).executed.isSome then do
            let paused ← depositsPaused vault
            if paused then
              if selected = some vault then do
                let m'' ← saveRunManifest
                  (nextRound (.unpause vault) ((m'.record (GovernRow.unpause vault).key).getD {}) m')
                scheduleUnpause cfg vault m''
              else throw .govern
            else pure (m', none)
          else pure (m', none)
        else scheduleUnpause cfg vault m') v := by
    rintro m' v ⟨hv, hnum, hsame⟩
    have hclosed : ∀ v, F v ∧ Numbered cfg m' v →
        Safe cfg p (fun opened v => F v ∧ Opened cfg vault m opened v) (pure (m', none)) v :=
      fun v hv => SafeTry.pure ⟨hv.1, hv.2, hsame, fun _ h => nomatch h⟩
    have hnext : ∀ r v, Numbered cfg m' v → Numbered cfg (nextRound (.unpause vault) r m') v :=
      fun r v hv => (hv.setRecord_aside (round_ne_row _ _)).setRecord_unscheduled rfl
    by_cases hcomplete : rowComplete (m'.record (GovernRow.unpause vault).key)
    · rw [if_pos hcomplete]
      by_cases hexecuted : ((m'.record (GovernRow.unpause vault).key).getD {}).executed.isSome
      · rw [if_pos hexecuted]
        refine .bind (safe_depositsPaused (hstable m') ⟨hv, hnum⟩ vault) fun paused v hv => ?_
        split_ifs
        · refine .bind (safe_saveRunManifest (hstable m') hv fun v hv => hnext _ v hv.2) ?_
          rintro m'' v ⟨hv, hm''⟩
          refine hschedule m'' v ⟨hv.1, (hnext _ v hv.2).of_govern hm''⟩ ?_
          have hbut : SameBut (.unpause vault) m' (nextRound (.unpause vault)
              ((m'.record (GovernRow.unpause vault).key).getD {}) m') :=
            (sameBut_setRecord_aside (round_ne_row _ _)).trans (sameBut_setRecord _ _ _)
          exact (hsame.trans hbut).trans (sameBut_of_govern hm'')
        · exact .throw
        · exact hclosed v hv
      rw [if_neg hexecuted]
      exact hclosed v ⟨hv, hnum⟩
    rw [if_neg hcomplete]
    exact hschedule m' v ⟨hv, hnum⟩ hsame
  unfold openUnpause
  dsimp only
  by_cases hselected : selected = some vault
  · rw [if_pos hselected]
    exact .bind (safe_rescheduleIfCancelled hF hw hnumbered) hrest
  rw [if_neg hselected]
  exact hrest m w ⟨hw, hnumbered, SameBut.refl _ m⟩

def AllPlaced (live : List (GovernRow × OperationId)) (m : RunManifest) (w : GovernWorld) : Prop :=
  ∀ x ∈ live, Placed x.1 x.2 m w

private theorem kept_allPlaced (live : List (GovernRow × OperationId)) (m : RunManifest) : Kept (AllPlaced live m) :=
  fun o w w' hmoves h x hx => kept_placed x.1 x.2 m o w w' hmoves (h x hx)

theorem AllPlaced.extends {m' : RunManifest} (h : AllPlaced live m w) (hm : Extends m m') : AllPlaced live m' w :=
  fun x hx => (h x hx).extends hm

private theorem safe_openAll (selected : Option String) {vaults : List String} (hnodup : vaults.Nodup)
    (hw : Numbered cfg m w) (hlive : AllPlaced live m w)
    (hfresh : ∀ x ∈ live, ∀ vault ∈ vaults, x.1.key ≠ (GovernRow.unpause vault).key) :
    Safe cfg p (fun opened v => Numbered cfg opened.1 v ∧ AllPlaced opened.2 opened.1 v)
      (openAll cfg selected vaults m live) w := by
  induction vaults generalizing m live w with
  | nil => exact .pure ⟨hw, hlive⟩
  | cons vault rest ih =>
    have hnodup := nodup_cons.1 hnodup
    refine .bind (safe_openUnpause ((kept_allPlaced live m).stable p) hlive hw selected vault) ?_
    rintro ⟨m', opened⟩ v ⟨hv, hnum, hsame, hplaced⟩
    refine ih hnodup.2 hnum ?_ ?_
    · intro x hx
      rcases mem_append.1 hx with hx | hx
      · exact (hv x hx).sameBut hsame (hfresh x hx vault mem_cons_self)
      obtain ⟨id, hid, rfl⟩ : ∃ id, opened = some id ∧ (GovernRow.unpause vault, id) = x := by simpa using hx
      exact hplaced id hid
    · intro x hx vault' hvault'
      rcases mem_append.1 hx with hx | hx
      · exact hfresh x hx vault' (mem_cons_of_mem _ hvault')
      obtain ⟨id, -, rfl⟩ : ∃ id, opened = some id ∧ (GovernRow.unpause vault, id) = x := by simpa using hx
      intro hkey
      cases hkey
      exact hnodup.1 hvault'

private theorem safe_refuseAll (hw : Numbered cfg m w) (hlive : AllPlaced live m w) :
    Safe cfg p (fun m' v => Numbered cfg m' v ∧ AllPlaced live m' v) (refuseAll live m) w := by
  have hmain : ∀ part m' v, part ⊆ live → Numbered cfg m' v ∧ AllPlaced live m' v →
      Safe cfg p (fun m' v => Numbered cfg m' v ∧ AllPlaced live m' v) (refuseAll part m') v := by
    intro part
    induction part with
    | nil => exact fun m' v _ hv => SafeTry.pure hv
    | cons x rest ih =>
      intro m' v hpart hv
      have hkept := (kept_numbered cfg m').and (kept_allPlaced live m')
      refine .bind (safe_refuseIfPausedSince hkept hv (hv.2 x (hpart mem_cons_self))) ?_
      rintro m'' v ⟨⟨hnum, hplaced⟩, hm'', -⟩
      refine ih m'' v (fun y hy => hpart (mem_cons_of_mem _ hy)) ⟨hnum.of_govern hm'', ?_⟩
      exact hplaced.extends (extends_of_govern hm'')
  exact hmain live m w (fun _ h => h) ⟨hw, hlive⟩

private theorem safe_executeAll (hw : Numbered cfg m w) (hlive : AllPlaced live m w) :
    Safe cfg p (fun m' v => Numbered cfg m' v) (executeAll cfg live m) w := by
  induction live generalizing m w with
  | nil => exact .pure hw
  | cons x rest ih =>
    have hrest : AllPlaced rest m w := fun y hy => hlive y (mem_cons_of_mem _ hy)
    refine .bind (safe_executePhase (kept_allPlaced rest m) hrest hw (hlive x mem_cons_self)) ?_
    rintro m' v ⟨hplaced, hnum, hext⟩
    exact ih hnum (hplaced.extends hext)

private theorem safe_runSet (selected : Option String) {vaults : List String} (hnodup : vaults.Nodup) (polls : Nat)
    (hw : Numbered cfg m w) : Safe cfg p (fun m' v => Numbered cfg m' v) (runSet cfg selected vaults polls m) w := by
  refine .bind (safe_openAll selected hnodup hw (fun _ h => nomatch h) fun _ h => nomatch h) ?_
  rintro ⟨m, live⟩ v ⟨hnum, hplaced⟩
  refine .bind (safe_refuseAll hnum hplaced) fun m v hv => ?_
  have hstable := ((kept_numbered cfg m).and (kept_allPlaced live m)).stable p
  exact .bind (safe_waitReady hstable _ polls hv) fun _ v hv => safe_executeAll hv.1 hv.2

private theorem safe_runRow (row : GovernRow) (polls : Nat) (hw : Numbered cfg m w) :
    Safe cfg p (fun m' v => Numbered cfg m' v) (runRow cfg row polls m) w := by
  cases row with
  | unpause vault => exact safe_runSet (some vault) (nodup_singleton vault) polls hw
  | redeployVault key ordinal => exact safe_redeployRow hw polls
  | registerSubmitter submitter => exact safe_singleRow rfl hw polls
  | retireVault vault weights => exact safe_roundsRow rfl hw polls
  | freezeUpgrades => exact safe_plannedRow rfl hw polls
  | upgradeProxy proxy implementation migration => exact safe_plannedRow rfl hw polls
  | other name reschedules =>
    rw [runRow]
    split_ifs
    · exact safe_roundsRow rfl hw polls
    · exact safe_singleRow rfl hw polls

private theorem safe_withManifest {body : RunManifest → Govern RunManifest}
    (hbody : ∀ m v, Numbered cfg m v → Safe cfg p (fun m' v => Numbered cfg m' v) (body m) v) (w : GovernWorld) :
    Safe cfg p (fun _ _ => True) (withManifest body) w := by
  have htrue : Stable p fun _ => True := fun _ _ _ _ _ _ => trivial
  have hload : Safe cfg p (fun loaded v => ∀ m, loaded = some m → Numbered cfg m v) (ask .loadRunManifest) w := by
    refine safe_plain htrue trivial rfl ?_
    intro v r loaded _ hinv _ hreply m hm
    obtain ⟨-, rfl⟩ := of_answer hreply
    exact hinv.numbered m hm
  refine .bind hload fun loaded v hv => ?_
  cases loaded with
  | none => exact .throw
  | some m =>
    refine .bind (hbody m v (hv m rfl)) fun m v hv => ?_
    have hsave := safe_saveRunManifest ((kept_numbered cfg m).stable p) hv fun _ hv => hv
    exact .bind hsave fun _ _ _ => SafeTry.pure trivial

end Rows

section Runs

variable {cfg : GovernConfig} {p : Nat} {w : GovernWorld}

private theorem safe_pause {α : Type} {q : GovernRequest} {next : Answer q → Program GovernRequest Answer α}
    (hq : q.plain = true)
    (hnext : ∀ x v, (next x).SafeAs (governHost cfg) (unpauseRules cfg) p (fun _ _ => True) v) :
    (Program.ask q next).SafeAs (governHost cfg) (unpauseRules cfg) p (fun _ _ => True) w := by
  have hask : Safe cfg p (fun _ _ => True) (ask q) w :=
    safe_plain (fun _ _ _ _ _ _ => trivial) trivial hq fun _ _ _ _ _ _ _ => trivial
  intro v hothers hinv
  obtain ⟨hspec, hstep⟩ := hask v hothers hinv
  exact ⟨hspec, fun r => ⟨(hstep r).1, (hstep r).2.1, hnext _ _⟩⟩

private theorem safe_recordEntry (entry : Option PauseEntry) (results : List PauseVaultResult) (done : Bool) :
    (recordEntry entry results done).SafeAs (governHost cfg) (unpauseRules cfg) p (fun _ _ => True) w := by
  cases entry with
  | none => trivial
  | some e => exact safe_pause rfl fun _ _ => trivial

private theorem safe_pauseVaults (entry : Option PauseEntry) (vaults : List String) (results : List PauseVaultResult) :
    (pauseVaults entry vaults results).SafeAs (governHost cfg) (unpauseRules cfg) p (fun _ _ => True) w := by
  induction vaults generalizing results w with
  | nil => trivial
  | cons vault rest ih =>
    exact safe_pause rfl fun _ _ => Program.SafeAs.bind (safe_recordEntry entry _ false) fun _ _ _ => ih _

private theorem safe_program (i : GovernRun) (p : Nat) (w : GovernWorld) :
    (i.program cfg).SafeAs (governHost cfg) (unpauseRules cfg) p (fun _ _ => True) w := by
  cases i with
  | stage polls =>
    refine Program.SafeAs.bind (safe_withManifest (fun m v hv => ?_) w) fun _ _ _ => trivial
    exact safe_runSet none cfg.unpauseRows_nodup polls hv
  | row r polls =>
    refine Program.SafeAs.bind (safe_withManifest (fun m v hv => ?_) w) fun _ _ _ => trivial
    refine .bind (safe_runRow r polls hv) fun m v hv => ?_
    exact .bind (safe_require ((kept_numbered cfg m).stable p) hv rfl) fun _ _ hv => SafeTry.pure hv
  | pauseAll e vaults =>
    refine safe_pause rfl fun _ _ => ?_
    exact Program.SafeAs.bind (safe_pauseVaults _ vaults []) fun _ _ _ => safe_recordEntry _ _ true

private theorem governInv_start (pauses : Option (List PauseEntry)) (seqHigh : Option Nat) :
    GovernInv cfg (.start pauses seqHigh) := by
  refine ⟨⟨(fun _ _ h => nomatch h), (fun _ h => nomatch h), List.Pairwise.nil⟩, (fun _ h => nomatch h), ?_⟩
  rintro m ⟨⟩ row _ r sched hr
  cases hr

/-- Whenever a run is about to send the execution of an operation that reopens a vault, and no pause was begun since it
last read the pauses, no pause on disk was begun after the operation was scheduled. -/
theorem unpause_not_stale (cfg : GovernConfig) (pauses : Option (List PauseEntry)) (seqHigh : Option Nat)
    (turns : List (Turn GovernReply SafeEvent GovernRun)) {c : Crew GovernRequest Answer GovernWorld}
    (hc : run (governHost cfg).machine (Crew.start (.start pauses seqHigh)) turns = c) {p : Nat} {row : GovernRow}
    {id : OperationId} (hsending : sending c p = some (row, id)) (hrow : row.reopens = true)
    (hquiet : Quiet p c.world.log) : ¬c.world.Stale id := by
  have hok : c.Ok (governHost cfg) (unpauseRules cfg) := by
    rw [← hc]
    refine crew_run (fun i p w _ => safe_program i p w) (fun w e hw => ?_) (governInv_start pauses seqHigh) turns
    exact ⟨hw.interfere e, moves_interfere w e⟩
  unfold sending at hsending
  split at hsending
  · rename_i hcode
    cases hsending
    exact hok.spec hcode row id rfl hrow hquiet
  · cases hsending

end Runs

def oneVault : GovernConfig where
  operationId _ := 7
  unpauseRows := ["USDC"]
  unpauseRows_nodup := List.nodup_singleton _
  unpauseVaults := ["USDC"]
  ownerSigners := [true]
  threshold := 1

def untilSend : List (Turn GovernReply SafeEvent GovernRun) := .start 1 (.stage 1) :: List.replicate 17 (.reply 1 {})

def beginPause : List (Turn GovernReply SafeEvent GovernRun) :=
  [.start 2 (.pauseAll ⟨"2026-01-01", "incident", "drain"⟩ ["USDC"]), .reply 2 {}]

/-- A pause that was begun before the operation is scheduled does not hold its execution back. -/
theorem unpause_not_stale_stage :
    let w := (run (governHost oneVault).machine (Crew.start (.start none none)) (beginPause ++ untilSend)).world
    (entriesOf w.disk).length = 1 ∧ ¬w.Stale 7 :=
  ⟨by decide +kernel, @unpause_not_stale oneVault none none (beginPause ++ untilSend) _ rfl 1 (.unpause "USDC") 7
    (by decide +kernel) rfl (by decide +kernel)⟩

/-- The transaction that leaves next executes a stale unpause. -/
theorem paused_before_send : ¬∀ (cfg : GovernConfig) (pauses : Option (List PauseEntry)) (seqHigh : Option Nat)
    (turns : List (Turn GovernReply SafeEvent GovernRun)) (p : Nat) (row : GovernRow) (id : OperationId),
    sending (run (governHost cfg).machine (Crew.start (.start pauses seqHigh)) turns) p = some (row, id) →
    row.reopens = true → ¬(run (governHost cfg).machine (Crew.start (.start pauses seqHigh)) turns).world.Stale id := by
  intro h
  exact h oneVault none none (untilSend ++ beginPause) 1 (.unpause "USDC") 7 (by decide +kernel) rfl (by decide +kernel)

end RobotMoney.Publish
