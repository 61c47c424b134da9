import RobotMoney.Publish.NonceRuns

/-!
# Attempts of one stage

The turn of a stage has come.  It is attempted once or several times, each attempt stops somewhere (the process is
killed between two steps, a simulation fails, the operator refuses, a broadcast fails after some of its transactions),
and nobody else uses the deployer account.

Forge writes the manifest of the stage whenever it runs the script, sends the transactions that it has planned in the
order of their nonces, and with `--resume` those that are not mined.  What every attempt keeps is `Tracked`.
-/

open Effect List Option

namespace RobotMoney.Publish.Deploy

open Evm

def Begins (cfg : DeployConfig) (i base : Nat) (m : DeployManifest) : Prop :=
  cfg.fromZero = true ∧ base = 0 ∨
    cfg.fromZero = false ∧ m.deployerStartNonce = some base ∧
      (0 < i → ∃ first, m.stages 0 = some first ∧ first.startNonce = base) ∨
    cfg.fromZero = false ∧ i = 0 ∧ m.deployerStartNonce = none ∧ ∀ j < cfg.rows.length, m.stages j = none

/-- A stage whose turn has come: the manifest, where the stage starts, and what its script plans. -/
structure StageTurn (cfg : DeployConfig) where
  i : Nat
  lt : i < cfg.rows.length
  manifest : Option DeployManifest
  base : Nat
  start : Nat
  /-- The creations of the stage that are on chain already. -/
  onChain : Nat
  /-- The planned transactions that a simulation leaves out once they are mined: creations at an address of their
  own. -/
  reusable : Nat → Bool
  unrecorded : (manifest.getD {}).stages i = none
  proven : cfg.proofAt = some i → (manifest.getD {}).proof ≠ none
  adopted : adoptionOutside cfg (manifest.getD {}) = false
  starts : expectedStartNonce cfg (manifest.getD {}) i base = start
  begins : Begins cfg i base (manifest.getD {})
  fits : onChain ≤ (cfg.row i).count
  /-- The Safe is created by one transaction, and every library at an address of its own; the script of any other stage
  sends a transaction that is planned again whenever it is simulated. -/
  safe_one : (cfg.row i).kind = .safe → (cfg.row i).count = 1 ∧ onChain = 0
  libs_all : (cfg.row i).kind = .libs → ∀ j, reusable j = true
  forge_own : (cfg.row i).kind = .forge → ∃ j < (cfg.row i).count - onChain, reusable j = false

open StageTurn

/-- The transactions of the stage that were mined, by their place in the plan, the run manifest, and whether the file
that the stage writes is there. -/
structure StageWorld where
  mined : List Nat
  manifest : Option DeployManifest
  out : Bool

/-- What the environment chooses of an answer. -/
structure StageReply where
  ok : Bool := true
  resume : Bool := true
  /-- Forge runs the script, or stops before it. -/
  ran : Bool := true
  /-- How many of the transactions that are left get mined, when not all are. -/
  stopAfter : Option Nat := none

def StageWorld.record (w : StageWorld) : DeployManifest := w.manifest.getD {}

section Turn

variable {cfg : DeployConfig} (t : StageTurn cfg)

namespace StageTurn

def record : DeployManifest := t.manifest.getD {}

def planned : Nat := (cfg.row t.i).count - t.onChain

/-- The creations that a simulation finds on chain after `k` transactions of the stage. -/
def found (k : Nat) : Nat := t.onChain + (range k).countP t.reusable

def nonce (w : StageWorld) : Nat := t.start + w.mined.length

def answer {α : Type} (r : StageReply) (a : α) : Except DeployError α := if r.ok then .ok a else .error .tool

def sends (r : StageReply) (txs : List Nat) : List Nat := txs.take (r.stopAfter.getD txs.length)

def next (w : StageWorld) : DeployRequest → StageReply → StageWorld
  | .saveRunManifest m, r => if r.ok then { w with manifest := some m } else w
  | .removeOut _, r => if r.ok then { w with out := false } else w
  | .restoreOut _, r => if r.ok then { w with out := true } else w
  | .writeOut _, r => if r.ok then { w with out := true } else w
  | .simulate _, r => if r.ran then { w with out := true } else w
  | .broadcast _ resuming, r =>
    if resuming then { w with mined := w.mined ++ sends r ((range t.planned).filter (· ∉ w.mined)) }
    else if r.ran then { w with out := true, mined := w.mined ++ sends r (range t.planned) }
    else w
  | .sendSafe _, r => { w with mined := w.mined ++ sends r (range t.planned) }
  | _, _ => w

def simulation (w : StageWorld) : Simulation :=
  ⟨(cfg.row t.i).count - t.found w.mined.length, t.found w.mined.length⟩

def reply (w : StageWorld) : (q : DeployRequest) → StageReply → Answer q
  | .options, r => answer r (r.resume, fun row => row = .stage t.i)
  | .loadRunManifest, r => answer r w.manifest
  | .saveRunManifest _, r => answer r ()
  | .deployerNonce _, r => answer r (t.nonce w)
  | .gate _, r => answer r ()
  | .outExists _, r => answer r w.out
  | .removeOut _, r => answer r ()
  | .restoreOut _, r => answer r ()
  | .writeOut _, r => answer r ()
  | .simulate _, r => if r.ran then answer r (t.simulation w) else .error .simulation
  | .checkSimulation _, r => answer r ()
  | .checkBalance, r => answer r ()
  | .confirm _, r => answer r ()
  | .broadcast _ _, r => if r.ran ∧ r.stopAfter = none then answer r () else .error .broadcast
  | .readTxCount _, r => answer r w.mined.length
  | .checkOut _, r => answer r ()
  | .planSafe, r => answer r ()
  | .sendSafe _, r => if r.stopAfter = none then answer r () else .error .safe
  | .connectSafe, r => if w.mined = [] then .error .safe else answer r ()
  | .verifyCreatedSafe, r => answer r ()
  | .safeNonce, _ => .error .control
  | .signProof, r => answer r ()
  | .sendProof, _ => .error .control
  | .landedProof, _ => .error .control

def host : Host DeployRequest Answer StageWorld StageReply Empty where
  perform w q r := (t.next w q r, t.reply w q r)
  interfere w _ := w
  restart w := w

def free : Rely DeployRequest StageWorld StageReply Empty where
  event _ _ := True
  reply _ _ _ := True

def world : StageWorld := ⟨[], t.manifest, false⟩

end StageTurn

/-- The transactions were mined in the order of the plan and none twice, and the record of the stage says no more than
that. -/
structure Tracked (w : StageWorld) : Prop where
  mined : ∃ k ≤ t.planned, w.mined = range k
  others : OtherRows t.i t.record w.record
  begins : Begins cfg t.i t.base w.record
  record : ∀ r, w.record.stages t.i = some r →
    r.startNonce = t.start ∧ (r.status = .done → w.mined = range t.planned) ∧
      ((cfg.row t.i).kind = .safe → r.safe = true)
  unrecorded : w.record.stages t.i = none → w.mined = [] ∧ ((cfg.row t.i).kind = .safe → w.out = false)
  out : (cfg.row t.i).kind ≠ .safe → w.mined ≠ [] → w.out = true
  libs : (cfg.row t.i).kind = .libs → w.mined ≠ [] → t.onChain = 0

private theorem tracked_world : Tracked t t.world where
  mined := ⟨0, Nat.zero_le _, rfl⟩
  others := OtherRows.refl _ _
  begins := t.begins
  record r hr := by
    rw [show t.world.record.stages t.i = none from t.unrecorded] at hr
    cases hr
  unrecorded _ := ⟨rfl, fun _ => rfl⟩
  out _ h := absurd rfl h
  libs _ h := absurd rfl h

private theorem StageTurn.start_eq_base (hi : t.i = 0) : t.start = t.base := by
  have hstarts := t.starts
  rw [hi, expectedStartNonce, proofNoncesBefore_zero] at hstarts
  exact hstarts.symm

variable {i : Nat}

theorem adoptedTxs_of_undone {m : DeployManifest} (h : isDone (m.stages i) = false) : adoptedTxs m i = none := by
  unfold adoptedTxs
  cases hr : m.stages i with
  | none => rfl
  | some r =>
    rw [hr] at h
    refine if_neg fun hdone => ?_
    rw [isDone, any_some, hdone] at h
    cases h

theorem adoptedTxs_congr {m m' : DeployManifest} (h : m'.stages i = m.stages i) : adoptedTxs m' i = adoptedTxs m i := by
  unfold adoptedTxs
  rw [h]

section Starts

variable {t} {m : DeployManifest} (hothers : OtherRows t.i t.record m)
include hothers

private theorem adoptionOutside_eq (hundone : isDone (m.stages t.i) = false) : adoptionOutside cfg m = false := by
  refine any_eq_false.2 fun j hj => ?_
  by_cases hji : j = t.i
  · rw [hji, adoptedTxs_of_undone hundone]
    simp
  rw [adoptedTxs_congr (hothers.stages j hji)]
  exact any_eq_false.1 t.adopted j hj

private theorem expectedStartNonce_eq : expectedStartNonce cfg m t.i t.base = t.start := by
  rw [← t.starts]
  have hsum : sumCounts cfg m t.i = sumCounts cfg t.record t.i := by
    unfold sumCounts
    congr 1
    refine map_congr_left fun j hj => ?_
    unfold effectiveCount
    rw [adoptedTxs_congr (hothers.stages j (mem_range.1 hj).ne)]
  unfold expectedStartNonce
  rw [hsum]
  rfl

theorem proof_of_others (hproof : cfg.proofAt = some t.i) : m.proof.isNone = false := by
  rw [hothers.proof]
  exact isNone_eq_false_iff.2 (isSome_iff_ne_none.2 (t.proven hproof))

end Starts

variable {t} {w v : StageWorld} {m : DeployManifest} {r : StageRecord}

theorem length_mined (h : Tracked t w) : w.mined = range w.mined.length ∧ w.mined.length ≤ t.planned := by
  obtain ⟨k, hk, hmined⟩ := h.mined
  rw [hmined, length_range]
  exact ⟨rfl, hk⟩

private theorem planned_le : t.planned ≤ (cfg.row t.i).count := Nat.sub_le _ _

theorem nonce_eq_start (h : w.mined = []) : t.nonce w = t.start := by
  rw [nonce, h]
  rfl

theorem isStarted_of_mined (h : Tracked t w) (hundone : isDone (w.record.stages t.i) = false) (hmined : w.mined ≠ []) :
    isStarted (w.record.stages t.i) = true := by
  cases hr : w.record.stages t.i with
  | none => exact absurd (h.unrecorded hr).1 hmined
  | some r =>
    rw [hr] at hundone
    cases hstatus : r.status with
    | started => rw [isStarted, any_some, hstatus]; rfl
    | done =>
      rw [isDone, any_some, hstatus] at hundone
      cases hundone

private theorem startNonce_eq (h : Tracked t w) (hundone : isDone (w.record.stages t.i) = false) :
    (if isStarted (w.record.stages t.i) then ((w.record.stages t.i).map (·.startNonce)).getD
    (t.nonce w) else t.nonce w) =
      t.start := by
  split_ifs with hstarted
  · obtain ⟨r, hr, -⟩ := isStarted_iff.1 hstarted
    rw [hr]
    exact (h.record r hr).1
  · by_contra hnonce
    exact hstarted (isStarted_of_mined h hundone fun hmined => hnonce (nonce_eq_start hmined))

/-- Every attempt keeps `I`, and what this part of it returns meets `post`. -/
abbrev Holds (t : StageTurn cfg) (I : StageWorld → Prop) {α : Type} (post : α → StageWorld → Prop) (x : Stage α)
    (w : StageWorld) : Prop :=
  SafeOr t.host free (fun _ w' => I w') I post x w

variable {q : DeployRequest} {I : StageWorld → Prop} {post : Content q → StageWorld → Prop}

private theorem holds_ask (hnext : ∀ r, I (t.next w q r))
    (hpost : ∀ r a, t.reply w q r = .ok a → post a (t.next w q r)) : Holds t I post (ask q) w := by
  intro v hreach r _
  have hv : w = v := hreach.invariant (fun _ e => nomatch e) rfl
  subst hv
  refine ⟨hnext r, ?_⟩
  change (Program.done (t.reply w q r) : Program DeployRequest Answer (Answer q)).Safe t.host _ _ _ (t.next w q r)
  cases hreply : t.reply w q r with
  | ok a => exact hpost r a hreply
  | error e => exact hnext r

private theorem holds_read (hw : I w) (hq : ∀ r, t.next w q r = w)
    (hpost : ∀ r a, t.reply w q r = .ok a → post a w) : Holds t I post (ask q) w := by
  refine holds_ask (fun r => ?_) fun r a hreply => ?_
  · rw [hq]
    exact hw
  · rw [hq]
    exact hpost r a hreply

private theorem holds_require (hw : I w) (hq : ∀ r, t.next w q r = w) : Holds t I (fun _ v => v = w) (require q) w :=
  SafeOr.bind (holds_read hw hq fun _ _ _ => rfl) fun _ _ hv => SafeOr.pure hv.symm

private theorem of_stageAnswer {α : Type} {r : StageReply} {a b : α} (h : answer r a = .ok b) :
    r.ok = true ∧ a = b := by
  unfold answer at h
  split_ifs at h with hok
  cases h
  exact ⟨hok, rfl⟩

private theorem holds_nonce (hw : I w) (read : NonceRead) :
    Holds t I (fun n v => v = w ∧ n = t.nonce w) (deployerNonce read) w :=
  holds_read hw (fun _ => rfl) fun _ _ hreply => ⟨rfl, (of_stageAnswer hreply).2.symm⟩

private theorem holds_out (hw : I w) (i : Nat) : Holds t I (fun there v => v = w ∧ there = w.out) (outExists i) w :=
  holds_read hw (fun _ => rfl) fun _ _ hreply => ⟨rfl, (of_stageAnswer hreply).2.symm⟩

private theorem holds_change (hw : I w) (hv : I v) (hq : ∀ r, t.next w q r = if r.ok then v else w)
    (hok : ∀ r a, t.reply w q r = .ok a → r.ok = true) : Holds t I (fun _ v' => v' = v) (require q) w := by
  have hask : Holds t I (fun _ v' => v' = v) (ask q) w := by
    refine holds_ask (fun r => ?_) fun r a hreply => ?_
    · rw [hq]
      split_ifs
      · exact hv
      · exact hw
    · rw [hq, if_pos (hok r a hreply)]
  exact .bind hask fun _ _ hv => SafeOr.pure hv

private theorem holds_save (hw : I w) (hm : I { w with manifest := some m }) :
    Holds t I (fun _ v => v = { w with manifest := some m }) (saveRunManifest m) w :=
  holds_change hw hm (fun _ => rfl) fun _ _ hreply => (of_stageAnswer hreply).1

def Begun (cfg : DeployConfig) (m : DeployManifest) : Prop := cfg.fromZero = false → m.deployerStartNonce ≠ none

private theorem Begins.setStage {base : Nat} (h : Begins cfg i base m) (hbegun : Begun cfg m) :
    Begins cfg i base (m.setStage i r) := by
  rcases h with hzero | ⟨hzero, hbase, hfirst⟩ | ⟨hzero, -, hnone, -⟩
  · exact .inl hzero
  · refine .inr (.inl ⟨hzero, hbase, fun hi => ?_⟩)
    obtain ⟨first, hr, hstart⟩ := hfirst hi
    exact ⟨first, (stages_setStage_of_ne m r hi.ne).trans hr, hstart⟩
  · exact absurd hnone (hbegun hzero)

private theorem begun_of_record (hw : Tracked t w) (hrecord : w.record.stages t.i ≠ none) : Begun cfg w.record := by
  intro hzero hnone
  rcases hw.begins with ⟨hzero', -⟩ | ⟨-, hbase, -⟩ | ⟨-, -, -, hnew⟩
  · rw [hzero] at hzero'
    cases hzero'
  · rw [hnone] at hbase
    cases hbase
  · exact hrecord (hnew t.i t.lt)

/-- What may be recorded of the stage in a world. -/
structure Recordable (t : StageTurn cfg) (r : StageRecord) (w : StageWorld) : Prop where
  start : r.startNonce = t.start
  done : r.status = .done → w.mined = range t.planned
  safe : (cfg.row t.i).kind = .safe → r.safe = true

private theorem Tracked.setStage (h : Tracked t w) (hbegun : Begun cfg w.record) (hr : Recordable t r w) :
    Tracked t { w with manifest := some (w.record.setStage t.i r) } where
  mined := h.mined
  others := h.others.trans (otherRows_setStage _ _ _)
  begins := h.begins.setStage hbegun
  record r' hr' := by
    obtain rfl : r = r' := some.inj ((stages_setStage_self w.record t.i r).symm.trans hr')
    exact ⟨hr.start, hr.done, hr.safe⟩
  unrecorded hnone := by
    rw [show ({ w with manifest := some (w.record.setStage t.i r) } : StageWorld).record.stages t.i = some r from
      stages_setStage_self _ _ _] at hnone
    cases hnone
  out := h.out
  libs := h.libs

/-- The start of the run is known, or it is recorded now. -/
theorem runStartNonce_eq (hw : Tracked t w) :
    runStartNonce cfg t.i w.record (t.nonce w) = pure (t.base, w.record) ∧ Begun cfg w.record ∨
      (runStartNonce cfg t.i w.record (t.nonce w) = do
        saveRunManifest { w.record with deployerStartNonce := some t.base }
        pure (t.base, { w.record with deployerStartNonce := some t.base })) ∧
      Tracked t { w with manifest := some { w.record with deployerStartNonce := some t.base } } := by
  unfold runStartNonce Begun
  rcases hw.begins with ⟨hzero, hbase⟩ | ⟨hzero, hbase, hfirst⟩ | ⟨hzero, hi, hnone, hnew⟩
  · refine .inl ⟨?_, fun h => absurd hzero (by rw [h]; decide)⟩
    rw [if_pos hzero, hbase]
  · refine .inl ⟨?_, fun _ h => by rw [hbase] at h; cases h⟩
    rw [if_neg (by rw [hzero]; decide), hbase]
    dsimp only
    cases hr : w.record.stages 0 with
    | some first =>
      refine if_neg (not_not.2 ?_)
      by_cases hi : t.i = 0
      · rw [← hi] at hr
        rw [← t.start_eq_base hi]
        exact (hw.record first hr).1
      obtain ⟨first', hr', hstart⟩ := hfirst (Nat.pos_of_ne_zero hi)
      obtain rfl : first = first' := some.inj (hr.symm.trans hr')
      exact hstart
    | none =>
      have hi : t.i = 0 := by
        by_contra hi
        obtain ⟨first', hr', -⟩ := hfirst (Nat.pos_of_ne_zero hi)
        rw [hr] at hr'
        cases hr'
      refine if_neg (not_not.2 ?_)
      rw [← hi] at hr
      rw [nonce_eq_start (hw.unrecorded hr).1, t.start_eq_base hi]
  right
  have hown : w.record.stages t.i = none := hnew t.i t.lt
  have hnonce : t.nonce w = t.base := by rw [nonce_eq_start (hw.unrecorded hown).1, t.start_eq_base hi]
  have hnostage : ((range cfg.rows.length).any fun j => (w.record.stages j).isSome) = false := by
    refine any_eq_false.2 fun j hj => ?_
    rw [hnew j (mem_range.1 hj)]
    decide
  constructor
  · rw [if_neg (by rw [hzero]; decide), hnone]
    dsimp only
    rw [hnostage, hnonce, if_neg (by simp [hi])]
  · exact
      { mined := hw.mined
        others := ⟨hw.others.stages, hw.others.proof⟩
        begins := .inr (.inl ⟨hzero, rfl, fun h => absurd hi h.ne'⟩)
        record := hw.record
        unrecorded := hw.unrecorded
        out := hw.out
        libs := hw.libs }

/-- After `runStartNonce`: nothing changed but the start of the run, which is recorded. -/
structure AfterStart (t : StageTurn cfg) (w : StageWorld) (p : Nat × DeployManifest) (v : StageWorld) : Prop where
  base : p.1 = t.base
  record : v.record = p.2
  tracked : Tracked t v
  begun : Begun cfg p.2
  mined : v.mined = w.mined
  out : v.out = w.out
  stages : p.2.stages = w.record.stages

theorem afterStart_known (hw : Tracked t w) (hbegun : Begun cfg w.record) : AfterStart t w (t.base, w.record) w :=
  ⟨rfl, rfl, hw, hbegun, rfl, rfl, rfl⟩

theorem afterStart_saved
    (hw : Tracked t { w with manifest := some { w.record with deployerStartNonce := some t.base } }) :
    AfterStart t w (t.base, { w.record with deployerStartNonce := some t.base })
      { w with manifest := some { w.record with deployerStartNonce := some t.base } } :=
  ⟨rfl, rfl, hw, fun _ => some_ne_none _, rfl, rfl, rfl⟩

private theorem holds_runStartNonce (hw : Tracked t w) :
    Holds t (Tracked t) (AfterStart t w) (runStartNonce cfg t.i w.record (t.nonce w)) w := by
  rcases runStartNonce_eq hw with ⟨heq, hbegun⟩ | ⟨heq, hsaved⟩
  · rw [heq]
    exact .pure (afterStart_known hw hbegun)
  rw [heq]
  refine .bind (holds_save hw hsaved) fun _ v hv => SafeOr.pure ?_
  rw [hv]
  exact afterStart_saved hsaved

namespace StageTurn

open List Option

theorem onChain_le_found (k : Nat) : t.onChain ≤ t.found k := Nat.le_add_right _ _

theorem found_libs (hkind : (cfg.row t.i).kind = .libs) (k : Nat) : t.found k = t.onChain + k := by
  have hall : (range k).countP t.reusable = (range k).length :=
    countP_eq_length.2 fun j _ => t.libs_all hkind j
  rw [found, hall, length_range]

theorem onChain_add_planned : t.onChain + t.planned = (cfg.row t.i).count := Nat.add_sub_cancel' t.fits

theorem found_lt (hkind : (cfg.row t.i).kind = .forge) {k : Nat} (hk : k ≤ t.planned) :
    t.found k < (cfg.row t.i).count := by
  obtain ⟨j, hj, hown⟩ := t.forge_own hkind
  have hsub : (range k).countP t.reusable ≤ (range t.planned).countP t.reusable :=
    (range_sublist.2 hk).countP_le
  have hlt : (range t.planned).countP t.reusable < (range t.planned).length := by
    refine lt_of_le_of_ne countP_le_length fun hall => ?_
    have hj' := countP_eq_length.1 hall j (mem_range.2 hj)
    rw [hown] at hj'
    cases hj'
  rw [length_range] at hlt
  have := t.onChain_add_planned
  unfold found
  omega

end StageTurn

variable {k n : Nat}

theorem filter_range (hk : k ≤ n) : (range n).filter (· ∉ range k) = (range (n - k)).map (k + ·) := by
  obtain ⟨d, rfl⟩ := Nat.exists_eq_add_of_le hk
  have hfirst : (range k).filter (· ∉ range k) = [] :=
    filter_eq_nil_iff.2 fun j hj => by simpa using mem_range.1 hj
  have hsecond : ((range d).map (k + ·)).filter (· ∉ range k) = (range d).map (k + ·) := by
    refine filter_eq_self.2 fun j hj => ?_
    obtain ⟨b, -, rfl⟩ := mem_map.1 hj
    simp
  rw [range_add, filter_append, hfirst, hsecond, nil_append, Nat.add_sub_cancel_left]

private theorem range_append_take (hk : k ≤ n) (a : Nat) :
    range k ++ ((range (n - k)).map (k + ·)).take a = range (min n (k + a)) := by
  rw [← map_take, take_range, ← range_add]
  congr 1
  omega

private theorem mined_sends (hw : Tracked t w) (r : StageReply) :
    ∃ k ≤ t.planned, w.mined ++ sends r ((range t.planned).filter (· ∉ w.mined)) = range k ∧
      (r.stopAfter = none → k = t.planned) := by
  obtain ⟨k, hk, hmined⟩ := hw.mined
  rw [hmined, sends, filter_range hk, range_append_take hk]
  refine ⟨_, min_le_left _ _, rfl, fun hall => ?_⟩
  rw [hall, getD_none, length_map, length_range]
  omega

private theorem filter_nil (n : Nat) : (range n).filter (· ∉ ([] : List Nat)) = range n :=
  filter_eq_self.2 fun _ _ => by simp

theorem next_broadcast (hw : Tracked t w) {resuming : Bool} (hfresh : resuming = decide (w.mined ≠ [])) (r : StageReply)
    (hkind : (cfg.row t.i).kind ≠ .safe) :
    ∃ k ≤ t.planned, ∃ out, t.next w (.broadcast t.i resuming) r = { w with mined := range k, out := out } ∧
      (0 < k → out = true) ∧ (r.ran = true → r.stopAfter = none → k = t.planned ∧ out = true) := by
  obtain ⟨k, hk, hsends, hall⟩ := mined_sends hw r
  rw [StageTurn.next]
  by_cases hmined : w.mined = []
  · obtain rfl : resuming = false := by rw [hfresh, hmined]; rfl
    rw [if_neg Bool.false_ne_true]
    by_cases hran : r.ran = true
    · rw [hmined, filter_nil] at hsends
      rw [if_pos hran, hmined, hsends]
      exact ⟨k, hk, true, rfl, fun _ => rfl, fun _ h => ⟨hall h, rfl⟩⟩
    rw [if_neg hran]
    exact ⟨0, Nat.zero_le _, w.out, by rw [range_zero, ← hmined], fun h => absurd h (lt_irrefl 0),
      fun h => absurd h hran⟩
  obtain rfl : resuming = true := by rw [hfresh, decide_eq_true hmined]
  have hout : w.out = true := hw.out hkind hmined
  rw [if_pos rfl, hsends]
  exact ⟨k, hk, w.out, rfl, fun _ => hout, fun _ h => ⟨hall h, hout⟩⟩

variable {out : Bool}

private theorem Tracked.mine (hw : Tracked t w) (hstarted : isStarted (w.record.stages t.i) = true)
    (hlibs : (cfg.row t.i).kind = .libs → t.onChain = 0) (hk : k ≤ t.planned) (hout : (cfg.row t.i).kind ≠ .safe →
      0 < k → out = true) :
    Tracked t { w with mined := range k, out := out } := by
  obtain ⟨r, hr, hstatus⟩ := isStarted_iff.1 hstarted
  exact
    { mined := ⟨k, hk, rfl⟩
      others := hw.others
      begins := hw.begins
      record := fun r' hr' => by
        obtain rfl : r = r' := some.inj (hr.symm.trans hr')
        refine ⟨(hw.record r hr).1, fun hdone => ?_, (hw.record r hr).2.2⟩
        rw [hstatus] at hdone
        cases hdone
      unrecorded := fun hnone => by
        rw [show w.record.stages t.i = none from hnone] at hr
        cases hr
      out := fun hkind hmined => hout hkind (by simpa using length_pos_iff.2 hmined)
      libs := fun hl _ => hlibs hl }

private theorem Tracked.setOut (hw : Tracked t w)
    (hsafe : (cfg.row t.i).kind = .safe → w.record.stages t.i ≠ none ∨ out = false)
    (hout : (cfg.row t.i).kind ≠ .safe → w.mined ≠ [] → out = true) : Tracked t { w with out := out } where
  mined := hw.mined
  others := hw.others
  begins := hw.begins
  record := hw.record
  unrecorded hnone := ⟨(hw.unrecorded hnone).1, fun h => (hsafe h).resolve_left fun hsome => hsome hnone⟩
  out := hout
  libs := hw.libs

/-- A run of the stage that has the manifest `m` in memory, of a stage that is not recorded done. -/
structure InForge (t : StageTurn cfg) (m : DeployManifest) (w : StageWorld) : Prop where
  record : w.record = m
  tracked : Tracked t w
  begun : Begun cfg m
  kind : (cfg.row t.i).kind ≠ .safe

theorem InForge.setOut (h : InForge t m w) (hout : w.mined ≠ [] → out = true) : InForge t m { w with out := out } :=
  ⟨h.record, h.tracked.setOut (fun hsafe => absurd hsafe h.kind) fun _ => hout, h.begun, h.kind⟩

theorem InForge.setStage (h : InForge t m w) (hr : Recordable t r w) :
    InForge t (m.setStage t.i r) { w with manifest := some (m.setStage t.i r) } := by
  obtain ⟨rfl, htracked, hbegun, hkind⟩ := h
  exact ⟨rfl, htracked.setStage hbegun hr, fun hzero => hbegun hzero, hkind⟩

private theorem InForge.mine (h : InForge t m w) (hstarted : isStarted (m.stages t.i) = true)
    (hlibs : (cfg.row t.i).kind = .libs → t.onChain = 0) (hk : k ≤ t.planned)
    (hout : 0 < k → out = true) : InForge t m { w with mined := range k, out := out } := by
  refine ⟨h.record, h.tracked.mine ?_ hlibs hk fun _ => hout, h.begun, h.kind⟩
  rw [h.record]
  exact hstarted

theorem length_eq_planned (hw : Tracked t w) (h : w.mined.length = t.planned) : w.mined = range t.planned := by
  rw [(length_mined hw).1, h]

def Waits (t : StageTurn cfg) (mined : List Nat) (w : StageWorld) : Prop := Tracked t w ∧ w.mined = mined

private theorem holds_adoptLibsStage (hw : InForge t m w) (hall : t.onChain + w.mined.length = (cfg.row t.i).count) :
    Holds t (Waits t w.mined) (fun _ v => Tracked t v) (adoptLibsStage cfg t.i t.start m) w := by
  have hwaits : Waits t w.mined w := ⟨hw.tracked, rfl⟩
  unfold adoptLibsStage
  refine .bind (holds_require hwaits fun _ => rfl) fun _ v hv => ?_
  subst hv
  refine .bind (holds_nonce hwaits (.libs t.i)) fun nonce v hv => ?_
  obtain ⟨rfl, rfl⟩ := hv
  split_ifs
  · exact .throw hwaits
  · have hplanned := t.onChain_add_planned
    have hrecord (r : StageRecord) (hr : r.startNonce = t.start) : Recordable t r v :=
      ⟨hr, fun _ => length_eq_planned hw.tracked (by omega), fun h => absurd h hw.kind⟩
    refine .bind (holds_save hwaits ⟨(hw.setStage (hrecord _ rfl)).tracked, rfl⟩) fun _ v' hv' => SafeOr.pure ?_
    subst hv'
    exact (hw.setStage (hrecord _ rfl)).tracked

theorem holds_simulate (hw : InForge t m w) : Holds t (Waits t w.mined) (fun sim v =>
      sim = t.simulation w ∧ v = { w with out := true }) (ask (.simulate t.i)) w := by
  refine holds_ask (fun r => ?_) fun r a hreply => ?_
  · rw [StageTurn.next]
    split_ifs
    · exact ⟨(hw.setOut fun _ => rfl).tracked, rfl⟩
    · exact ⟨hw.tracked, rfl⟩
  · rw [reply] at hreply
    split_ifs at hreply with hran
    rw [StageTurn.next, if_pos hran]
    exact ⟨(of_stageAnswer hreply).2.symm, rfl⟩

/-- What a simulation that goes on to a broadcast says: the libraries are then all to be created. -/
def GoesOn (t : StageTurn cfg) (w : StageWorld) (simulated : DeployManifest ⊕ Simulation) (v : StageWorld) : Prop :=
  simulated.isRight = true → v = { w with out := true } ∧ ((cfg.row t.i).kind = .libs → t.onChain = 0)

theorem holds_simulateStage (hw : InForge t m w) : Holds t (Waits t w.mined) (fun simulated v =>
      Tracked t v ∧ GoesOn t w simulated v) (simulateStage cfg t.i t.start m) w := by
  have hsim : InForge t m { w with out := true } := hw.setOut fun _ => rfl
  have hwaits : Waits t w.mined { w with out := true } := ⟨hsim.tracked, rfl⟩
  have hlength := (length_mined hw.tracked).2
  have hplanned := t.onChain_add_planned
  unfold simulateStage
  refine .bind (holds_simulate hw) fun sim v hv => ?_
  obtain ⟨rfl, rfl⟩ := hv
  by_cases hnone : (t.simulation w).planned = 0
  · rw [if_pos hnone]
    by_cases hlibs : (cfg.row t.i).kind = .libs
    · have hfound := found_libs hlibs w.mined.length
      have hcount : (cfg.row t.i).count - t.found w.mined.length = 0 := hnone
      rw [if_pos hlibs]
      exact .bind (holds_adoptLibsStage hsim (by dsimp only; omega)) fun m' v hv => SafeOr.pure ⟨hv, fun h => nomatch h⟩
    rw [if_neg hlibs]
    exact .throw hwaits
  rw [if_neg hnone]
  dsimp only
  by_cases hcount : (t.simulation w).planned + (if (cfg.row t.i).count ≤ (t.simulation w).planned ∨
      (cfg.row t.i).kind = .libs then 0 else (t.simulation w).adoptable) ≠ (cfg.row t.i).count
  · rw [if_pos hcount]
    exact .throw hwaits
  rw [if_neg hcount]
  refine .bind (holds_require hwaits fun _ => rfl) fun _ v hv => SafeOr.pure ?_
  subst hv
  refine ⟨hsim.tracked, fun _ => ⟨rfl, fun hlibs => ?_⟩⟩
  have hfound := found_libs hlibs w.mined.length
  rw [if_pos (.inr hlibs), not_not] at hcount
  have hsimulation : (t.simulation w).planned = (cfg.row t.i).count - t.found w.mined.length := rfl
  omega

private theorem holds_checkCounts (hw : Tracked t w) (resuming : Bool) (sim : Simulation) (sent nonce1 : Nat) :
    Holds t (Tracked t) (fun _ v => v = w) (checkCounts cfg t.i t.start resuming sim sent nonce1) w := by
  unfold checkCounts
  by_cases hadoptable : sim.adoptable = 0
  · rw [if_pos hadoptable]
    split_ifs
    · exact .throw hw
    · exact .pure rfl
  rw [if_neg hadoptable]
  dsimp only
  generalize (if resuming then _ else sim.planned) = lo
  generalize (if resuming then _ else sim.planned) = hi
  split_ifs
  · exact .throw hw
  · exact .pure rfl

private theorem holds_readAfterWrite (hw : Tracked t w) (i target nonce1 : Nat) :
    Holds t (Tracked t) (fun _ v => v = w) (readAfterWrite i target nonce1) w := by
  unfold readAfterWrite
  split_ifs
  · refine .bind (holds_nonce hw _) fun n v hv => ?_
    obtain ⟨rfl, -⟩ := hv
    split_ifs
    · exact .throw hw
    · exact .pure rfl
  · exact .pure rfl

section Broadcast

variable {resuming : Bool} (hw : InForge t m w) (hstarted : isStarted (m.stages t.i) = true)
  (hlibs : (cfg.row t.i).kind = .libs → t.onChain = 0) (hresuming : resuming = decide (w.mined ≠ []))
include hw hstarted hlibs hresuming

theorem holds_broadcast : Holds t (Tracked t) (fun _ v => v = { w with mined := range t.planned, out := true })
      (require (.broadcast t.i resuming)) w := by
  have hask : Holds t (Tracked t) (fun _ v => v = { w with mined := range t.planned, out := true })
      (ask (.broadcast t.i resuming)) w := by
    refine holds_ask (fun r => ?_) fun r a hreply => ?_
    · obtain ⟨k, hk, out, hnext, hout, -⟩ := next_broadcast hw.tracked hresuming r hw.kind
      rw [hnext]
      exact (hw.mine hstarted hlibs hk hout).tracked
    · obtain ⟨k, hk, out, hnext, -, hall⟩ := next_broadcast hw.tracked hresuming r hw.kind
      rw [reply] at hreply
      split_ifs at hreply with hcomplete
      obtain ⟨rfl, rfl⟩ := hall hcomplete.1 hcomplete.2
      exact hnext
  exact .bind hask fun _ _ hv => SafeOr.pure hv

private theorem holds_broadcastStage (sim : Simulation) :
    Holds t (Tracked t) (fun _ v => Tracked t v) (broadcastStage cfg t.i t.start resuming sim m) w := by
  have hmined : InForge t m { w with mined := range t.planned, out := true } :=
    hw.mine hstarted hlibs le_rfl fun _ => rfl
  unfold broadcastStage
  refine .bind (holds_broadcast hw hstarted hlibs hresuming) fun _ v hv => ?_
  rw [← hv] at hmined
  refine .bind (holds_nonce hmined.tracked _) fun nonce1 v' hv' => ?_
  obtain ⟨rfl, -⟩ := hv'
  have hsent : Holds t (Tracked t) (fun _ v => v = v') (ask (.readTxCount t.i)) v' :=
    holds_read hmined.tracked (fun _ => rfl) fun _ _ _ => rfl
  refine .bind hsent fun sent v hv'' => ?_
  subst hv''
  refine .bind (holds_readAfterWrite hmined.tracked _ _ _) fun nonce1 v' hv' => ?_
  subst hv'
  refine .bind (holds_checkCounts hmined.tracked resuming sim sent nonce1) fun deployerTxs v hv'' => ?_
  subst hv''
  refine .bind (holds_out hmined.tracked _) fun written v' hv' => ?_
  obtain ⟨rfl, -⟩ := hv'
  split_ifs
  · exact .throw hmined.tracked
  · refine .bind (holds_require hmined.tracked fun _ => rfl) fun _ v hv'' => ?_
    subst hv''
    have hrecord (r : StageRecord) (hr : r.startNonce = t.start) : Recordable t r v :=
      ⟨hr, fun _ => by rw [hv], fun h => absurd h hw.kind⟩
    refine .bind (holds_save hmined.tracked (hmined.setStage (hrecord _ rfl)).tracked) fun _ v' hv' => SafeOr.pure ?_
    subst hv'
    exact (hmined.setStage (hrecord _ rfl)).tracked

end Broadcast

private theorem holds_cleaning {α : Type} {post : α → StageWorld → Prop} {cleanup : Stage Unit} {body : Stage α}
    (hbody : Holds t I post body w) (hI : ∀ v, I v → Tracked t v)
    (hcleanup : ∀ v, I v → Holds t (Tracked t) (fun _ v => Tracked t v) cleanup v) :
    Holds t (Tracked t) post (cleaning cleanup body) w := by
  refine Program.Safe.bind (hbody.guarantee_mono fun _ v hv => hI v hv) fun result v hv => ?_
  cases result with
  | ok a => exact hv
  | error e =>
    refine .bind (hcleanup v hv) fun result v hv => ?_
    cases result with
    | ok a => exact hv
    | error e => exact hv

/-- The file of the stage is put back when its own broadcast is resumed, and removed before a fresh one. -/
def settle (i : Nat) (resuming : Bool) : Stage Unit :=
  if resuming then require (.restoreOut i) else require (.removeOut i)

theorem forgeStage_eq (i startNonce : Nat) (resuming : Bool) (m : DeployManifest) :
    forgeStage cfg i startNonce resuming resuming m = (do
      let simulated ← cleaning (settle i resuming) (simulateStage cfg i startNonce m)
      match simulated with
      | .inl m => pure m
      | .inr sim => do
        settle i resuming
        require .checkBalance
        saveRunManifest (m.setStage i { status := .started, startNonce })
        require (.confirm i)
        broadcastStage cfg i startNonce resuming sim (m.setStage i { status := .started, startNonce })) := by
  cases resuming <;> rfl

private theorem holds_settle (hw : Tracked t w) (hkind : (cfg.row t.i).kind ≠ .safe) {resuming : Bool}
    (hresuming : resuming = decide (w.mined ≠ [])) :
    Holds t (Tracked t) (fun _ v => v = { w with out := resuming }) (settle t.i resuming) w := by
  have hsettled : Tracked t { w with out := resuming } :=
    hw.setOut (fun hsafe => absurd hsafe hkind) fun _ hmined => by rw [hresuming, decide_eq_true hmined]
  cases resuming with
  | true | false =>
    exact holds_change hw hsettled (fun _ => rfl) fun _ _ hreply => (of_stageAnswer hreply).1

private theorem holds_forgeStage (hw : InForge t m w) {resuming : Bool} (hresuming : resuming = decide (w.mined ≠ [])) :
    Holds t (Tracked t) (fun _ v => Tracked t v) (forgeStage cfg t.i t.start resuming resuming m) w := by
  have hsettle : ∀ v, Tracked t v → v.mined = w.mined →
      Holds t (Tracked t) (fun _ v' => v' = { v with out := resuming } ∧ Tracked t v') (settle t.i resuming) v := by
    intro v hv hmined
    refine .mono (holds_settle hv hw.kind (by rw [hresuming, hmined])) fun _ v' hv' => ⟨hv', ?_⟩
    rw [hv']
    exact hv.setOut (fun hsafe => absurd hsafe hw.kind) fun _ h => by rw [hresuming, ← hmined, decide_eq_true h]
  rw [forgeStage_eq]
  refine .bind (holds_cleaning (holds_simulateStage hw) (fun v hv => hv.1) fun v hv => ?_) fun simulated v hv => ?_
  · exact .mono (hsettle v hv.1 hv.2) fun _ _ h => h.2
  · obtain ⟨htracked, hgoes⟩ := hv
    cases simulated with
    | inl m' => exact .pure htracked
    | inr sim =>
      obtain ⟨rfl, hlibs⟩ := hgoes rfl
      refine .bind (hsettle _ htracked rfl) fun _ v hv => ?_
      have hsettled : InForge t m v := by
        obtain ⟨rfl, hv⟩ := hv
        exact ⟨hw.record, hv, hw.begun, hw.kind⟩
      have hmined : v.mined = w.mined := by rw [hv.1]
      refine .bind (holds_require hsettled.tracked fun _ => rfl) fun _ v' hv' => ?_
      subst hv'
      have hrecord : Recordable t { status := .started, startNonce := t.start } v' :=
        ⟨rfl, fun h => (nomatch h), fun h => absurd h hw.kind⟩
      have hsaved := hsettled.setStage hrecord
      refine .bind (holds_save hsettled.tracked hsaved.tracked) fun _ v hv' => ?_
      subst hv'
      refine .bind (holds_require hsaved.tracked fun _ => rfl) fun _ v hv' => ?_
      subst hv'
      refine holds_broadcastStage hsaved ?_ hlibs ?_ sim
      · rw [stages_setStage_self]
        rfl
      · rw [hresuming, ← hmined]

private theorem resuming_eq (hw : Tracked t w) (hundone : isDone (w.record.stages t.i) = false) :
    (isStarted (w.record.stages t.i) && decide (t.start < t.nonce w) &&
      decide (t.nonce w ≤ t.start + (cfg.row t.i).count)) = decide (w.mined ≠ []) := by
  by_cases hmined : w.mined = []
  · rw [nonce_eq_start hmined, hmined]
    simp
  have hpos := length_pos_iff.2 hmined
  have hle := (length_mined hw).2.trans planned_le
  rw [isStarted_of_mined hw hundone hmined, decide_eq_true hmined, nonce]
  simp only [Bool.true_and, Bool.and_eq_true, decide_eq_true_eq]
  omega

/-- The part of `runForgeStage` after its start: it is refused without `--resume` when something was mined, and when its
file is there and nothing was. -/
def forgeTurn (t : StageTurn cfg) (resume : Bool) (w : StageWorld) (m : DeployManifest) : Stage DeployManifest :=
  if resume = false ∧ w.mined ≠ [] then throw .nonce
  else do
    let there ← outExists t.i
    if there ∧ w.mined = [] then throw .manifest
    else forgeStage cfg t.i t.start (decide (w.mined ≠ [])) (decide (w.mined ≠ []) && there) m

theorem forgeTurn_eq {p : Nat × DeployManifest} (h : AfterStart t w p v) (hw : Tracked t w)
    (hundone : isDone (w.record.stages t.i) = false) (resume : Bool) :
    (if adoptionOutside cfg p.2 then throw .libsAdoption
      else
        let wantStart := expectedStartNonce cfg p.2 t.i p.1
        let resuming := resume && isStarted (p.2.stages t.i) && wantStart < t.nonce w &&
          t.nonce w ≤ wantStart + (cfg.row t.i).count
        if t.nonce w ≠ wantStart ∧ resuming = false then throw .nonce
        else do
          let startNonce := if isStarted (p.2.stages t.i) then ((p.2.stages t.i).map (·.startNonce)).getD (t.nonce w)
            else t.nonce w
          let there ← outExists t.i
          if there ∧ resuming = false then throw .manifest
          else forgeStage cfg t.i startNonce resuming (resuming && there) p.2 : Stage DeployManifest) =
      forgeTurn t resume w p.2 := by
  have hothers : OtherRows t.i t.record p.2 := h.record ▸ h.tracked.others
  have hmined : t.nonce w ≠ t.start ↔ w.mined ≠ [] := by
    rw [nonce, ← length_pos_iff]
    omega
  rw [if_neg (by rw [adoptionOutside_eq hothers (by rw [h.stages]; exact hundone)]; decide), h.base, h.stages]
  dsimp only
  rw [expectedStartNonce_eq hothers, startNonce_eq hw hundone, Bool.and_assoc, Bool.and_assoc,
    ← Bool.and_assoc (isStarted _), resuming_eq hw hundone]
  simp only [hmined]
  unfold forgeTurn
  cases resume with
  | true => by_cases hnone : w.mined = [] <;> simp [hnone]
  | false => by_cases hnone : w.mined = [] <;> simp [hnone]

private theorem holds_forgeTurn (hw : InForge t m w) (hmined : v.mined = w.mined) (hout : w.mined ≠ [] → w.out = true)
    (resume : Bool) :
    Holds t (Tracked t) (fun _ v => Tracked t v) (forgeTurn t resume v m) w := by
  unfold forgeTurn
  rw [hmined]
  split_ifs
  · exact .throw hw.tracked
  · refine .bind (holds_out hw.tracked _) fun there v' hv => ?_
    obtain ⟨rfl, rfl⟩ := hv
    by_cases hnone : v'.mined = []
    · split_ifs
      · exact .throw hw.tracked
      · rw [decide_eq_false (not_not.2 hnone), Bool.false_and]
        exact holds_forgeStage hw (by rw [hnone]; rfl)
    rw [if_neg fun h => hnone h.2, decide_eq_true hnone, hout hnone]
    exact holds_forgeStage hw (by rw [decide_eq_true hnone])

variable {resume : Bool}

private theorem holds_runForgeStage (hw : Tracked t w) (hkind : (cfg.row t.i).kind ≠ .safe)
    (hundone : isDone (w.record.stages t.i) = false) :
    Holds t (Tracked t) (fun _ v => Tracked t v) (runForgeStage cfg resume t.i w.record) w := by
  unfold runForgeStage
  split_ifs
  · exact .throw hw
  · refine .bind (holds_require hw fun _ => rfl) fun _ v hv => ?_
    subst hv
    refine .bind (holds_nonce hw _) fun nonce0 v' hv => ?_
    obtain ⟨rfl, rfl⟩ := hv
    refine .bind (holds_runStartNonce hw) fun p v hv => ?_
    have hforge : InForge t p.2 v := ⟨hv.record, hv.tracked, hv.begun, hkind⟩
    have hturn := holds_forgeTurn hforge hv.mined.symm (hforge.tracked.out hkind) resume
    rw [← forgeTurn_eq hv hw hundone] at hturn
    exact hturn

section

variable (hkind : (cfg.row t.i).kind = .safe)

include hkind

private theorem row_zero_of_safe : t.i = 0 := by
  refine cfg.safe_first t.i (cfg.row t.i) ?_ hkind
  rw [DeployConfig.row, getD_eq_getElem?_getD, getElem?_eq_getElem t.lt]
  rfl

theorem planned_of_safe : t.planned = 1 := by
  obtain ⟨hcount, hchain⟩ := t.safe_one hkind
  rw [planned, hcount, hchain]

theorem expectedStartNonce_safe (m : DeployManifest) :
    expectedStartNonce cfg m t.i t.base = t.start := by
  rw [t.start_eq_base (row_zero_of_safe hkind), row_zero_of_safe hkind, expectedStartNonce, proofNoncesBefore_zero]
  rfl

end

theorem mined_of_safe (hw : Tracked t w) (hkind : (cfg.row t.i).kind = .safe) (hmined : w.mined ≠ []) :
    w.mined = range t.planned := by
  have hpos := length_pos_iff.2 hmined
  have hle := (length_mined hw).2
  rw [planned_of_safe hkind] at hle
  refine length_eq_planned hw ?_
  rw [planned_of_safe hkind]
  omega

/-- A run of the Safe stage that has the manifest `m` in memory. -/
structure InSafe (t : StageTurn cfg) (m : DeployManifest) (w : StageWorld) : Prop where
  record : w.record = m
  tracked : Tracked t w
  begun : Begun cfg m
  kind : (cfg.row t.i).kind = .safe

private theorem InSafe.setStage (h : InSafe t m w) (hr : Recordable t r w) :
    InSafe t (m.setStage t.i r) { w with manifest := some (m.setStage t.i r) } := by
  obtain ⟨rfl, htracked, hbegun, hkind⟩ := h
  exact ⟨rfl, htracked.setStage hbegun hr, fun hzero => hbegun hzero, hkind⟩

private theorem InSafe.writeOut (h : InSafe t m w) (hm : m.stages t.i ≠ none) : InSafe t m { w with out := true } := by
  refine ⟨h.record, h.tracked.setOut (fun _ => ?_) fun hkind => absurd h.kind hkind, h.begun, h.kind⟩
  rw [h.record]
  exact .inl hm

private theorem holds_writeOut (hw : InSafe t m w) (hm : m.stages t.i ≠ none) :
    Holds t (Tracked t) (fun _ v => v = { w with out := true }) (require (.writeOut t.i)) w :=
  holds_change hw.tracked (hw.writeOut hm).tracked (fun _ => rfl) fun _ _ hreply => (of_stageAnswer hreply).1

private theorem holds_sendSafe (hw : InSafe t m w) (hstarted : isStarted (m.stages t.i) = true) (hnone : w.mined = []) :
    Holds t (Tracked t) (fun _ v => v = { w with mined := range t.planned }) (require (.sendSafe t.i)) w := by
  have hmine (r : StageReply) : ∃ k ≤ t.planned, t.next w (.sendSafe t.i) r = { w with mined := range k } ∧
      (r.stopAfter = none → k = t.planned) := by
    obtain ⟨k, hk, hsends, hall⟩ := mined_sends hw.tracked r
    rw [hnone, filter_nil] at hsends
    rw [StageTurn.next, hnone, hsends]
    exact ⟨k, hk, rfl, hall⟩
  have hask : Holds t (Tracked t) (fun _ v =>
      v = { w with mined := range t.planned }) (ask (.sendSafe t.i)) w := by
    refine holds_ask (fun r => ?_) fun r a hreply => ?_
    · obtain ⟨k, hk, hnext, -⟩ := hmine r
      rw [hnext]
      refine hw.tracked.mine (by rw [hw.record]; exact hstarted) (fun h => ?_) hk fun h => absurd hw.kind h
      rw [hw.kind] at h
      cases h
    · obtain ⟨k, -, hnext, hall⟩ := hmine r
      rw [reply] at hreply
      split_ifs at hreply with hcomplete
      rw [hnext, hall hcomplete]
  exact .bind hask fun _ _ hv => SafeOr.pure hv

/-- The Safe was created, and its address is recorded. -/
structure Created (t : StageTurn cfg) (m : DeployManifest) (w : StageWorld) : Prop where
  inSafe : InSafe t m w
  mined : w.mined = range t.planned
  recorded : m.stages t.i ≠ none

theorem Created.done (h : Created t m w) (hstart : r.startNonce = t.start) (hsafe : r.safe = true) : Recordable t r w :=
  ⟨hstart, fun _ => h.mined, fun _ => hsafe⟩

private theorem holds_createSafe (hw : InSafe t m w) (hnone : w.mined = []) :
    Holds t (Tracked t) (Created t) (createSafe t.i t.start m) w := by
  unfold createSafe
  refine .bind (holds_require hw.tracked fun _ => rfl) fun _ v hv => ?_
  subst hv
  refine .bind (holds_nonce hw.tracked _) fun nonce v' hv => ?_
  obtain ⟨rfl, rfl⟩ := hv
  rw [if_neg (not_not.2 (nonce_eq_start hnone))]
  refine .bind (holds_require hw.tracked fun _ => rfl) fun _ v hv => ?_
  subst hv
  have hrecord : Recordable t { status := .started, startNonce := t.start, safe := true } v :=
    ⟨rfl, fun h => (nomatch h), fun _ => rfl⟩
  have hsaved := hw.setStage hrecord
  refine .bind (holds_save hw.tracked hsaved.tracked) fun _ v' hv => ?_
  rw [← hv] at hsaved
  have hnone' : v'.mined = [] := by rw [hv, hnone]
  refine .bind (holds_sendSafe hsaved (by rw [stages_setStage_self]; rfl) hnone') fun _ v hv => ?_
  have hcreated : Created t (m.setStage t.i { status := .started, startNonce := t.start, safe := true }) v := by
    rw [hv]
    have hmine : Tracked t { v' with mined := range t.planned } := by
      refine hsaved.tracked.mine (by rw [hsaved.record, stages_setStage_self]; rfl) (fun h => ?_) le_rfl
        fun h => absurd hw.kind h
      rw [hw.kind] at h
      cases h
    exact ⟨⟨hsaved.record, hmine, hsaved.begun, hw.kind⟩, rfl,
      by rw [stages_setStage_self]; exact some_ne_none _⟩
  have htracked := hcreated.inSafe.tracked
  refine .bind (holds_require htracked fun _ => rfl) fun _ v hv => ?_
  subst hv
  refine .bind (holds_require htracked fun _ => rfl) fun _ v hv => ?_
  subst hv
  refine .bind (holds_nonce htracked _) fun after v hv => ?_
  obtain ⟨rfl, -⟩ := hv
  refine .bind (holds_readAfterWrite htracked _ _ _) fun after v hv => ?_
  subst hv
  split_ifs
  · exact .throw htracked
  · exact .pure hcreated

private theorem holds_fresh (hw : Tracked t w) (hkind : (cfg.row t.i).kind = .safe) (there : Bool) :
    Holds t (Tracked t) (fun _ v => Tracked t v) (runSafeStage.fresh cfg t.i w.record (t.nonce w) there) w := by
  unfold runSafeStage.fresh
  refine .bind (holds_runStartNonce hw) fun p v hv => ?_
  rw [hv.base, expectedStartNonce_safe hkind]
  by_cases hnonce : t.nonce w = t.start
  · have hnone : v.mined = [] := by
      rw [hv.mined, ← length_eq_zero_iff]
      unfold nonce at hnonce
      omega
    have hsafe : InSafe t p.2 v := ⟨hv.record, hv.tracked, hv.begun, hkind⟩
    rw [hnonce, if_neg (not_not.2 rfl)]
    split_ifs
    · exact .throw hv.tracked
    · refine .bind (holds_createSafe hsafe hnone) fun m v hcreated => ?_
      refine .bind (holds_writeOut hcreated.inSafe hcreated.recorded) fun _ v' hv' => ?_
      have hwritten : Created t m v' := by
        rw [hv']
        exact ⟨hcreated.inSafe.writeOut hcreated.recorded, hcreated.mined, hcreated.recorded⟩
      have htracked := hwritten.inSafe.tracked
      refine .bind (holds_nonce htracked _) fun last v hv => ?_
      obtain ⟨rfl, -⟩ := hv
      split_ifs
      · exact .throw htracked
      · have hsaved (n : Nat) := hwritten.inSafe.setStage (hwritten.done (r :=
          { status := .done, startNonce := t.start, endNonce := some n, safe := true }) rfl rfl)
        refine .bind (holds_save htracked (hsaved last).tracked) fun _ v hv => SafeOr.pure ?_
        subst hv
        exact (hsaved last).tracked
  rw [if_pos hnonce]
  exact .throw hv.tracked

private theorem holds_runSafeStage (hw : Tracked t w) (hkind : (cfg.row t.i).kind = .safe) (resume : Bool) :
    Holds t (Tracked t) (fun _ v => Tracked t v) (runSafeStage cfg resume t.i w.record) w := by
  unfold runSafeStage
  refine .bind (holds_nonce hw _) fun nonce0 v hv => ?_
  obtain ⟨rfl, rfl⟩ := hv
  refine .bind (holds_out hw _) fun there v' hv => ?_
  obtain ⟨rfl, rfl⟩ := hv
  cases hr : v'.record.stages t.i with
  | none => exact holds_fresh hw hkind _
  | some prior =>
    dsimp only
    split_ifs with hadopt
    · have hrecorded : v'.record.stages t.i ≠ none := by rw [hr]; exact some_ne_none _
      have hsafe : InSafe t v'.record v' := ⟨rfl, hw, begun_of_record hw hrecorded, hkind⟩
      have hconnect : Holds t (Tracked t) (fun _ v => v = v' ∧ v'.mined ≠ []) (require .connectSafe) v' := by
        have hask : Holds t (Tracked t) (fun _ v => v = v' ∧ v'.mined ≠ []) (ask .connectSafe) v' := by
          refine holds_read hw (fun _ => rfl) fun r a hreply => ⟨rfl, fun hnone => ?_⟩
          rw [reply, if_pos hnone] at hreply
          cases hreply
        exact .bind hask fun _ _ hv => SafeOr.pure hv
      refine .bind hconnect fun _ v hv => ?_
      obtain ⟨rfl, hmined⟩ := hv
      refine .bind (holds_require hw fun _ => rfl) fun _ v' hv => ?_
      subst hv
      refine .bind (holds_writeOut hsafe hrecorded) fun _ v hv => ?_
      have hwritten : Created t v'.record v := by
        have hall := mined_of_safe hw hkind hmined
        rw [hv]
        exact ⟨hsafe.writeOut hrecorded, hall, hrecorded⟩
      have htracked := hwritten.inSafe.tracked
      refine .bind (holds_nonce htracked _) fun last v hv => ?_
      obtain ⟨rfl, -⟩ := hv
      have hprior := hw.record prior hr
      have hsaved := hwritten.inSafe.setStage (hwritten.done (r :=
        { prior with status := .done, endNonce := some last })
        hprior.1 (hprior.2.2 hkind))
      refine .bind (holds_save htracked hsaved.tracked) fun _ v hv => SafeOr.pure ?_
      subst hv
      exact hsaved.tracked
    · exact holds_fresh hw hkind _

private theorem mem_table (h : i < cfg.rows.length) : RowName.stage i ∈ cfg.table := by
  have hmem : RowName.stage i ∈ (range cfg.rows.length).map RowName.stage :=
    mem_map.2 ⟨i, mem_range.2 h, rfl⟩
  unfold DeployConfig.table
  dsimp only
  cases cfg.proofAt with
  | none => exact hmem
  | some k =>
    rw [← take_append_drop k ((range cfg.rows.length).map RowName.stage)] at hmem
    rcases mem_append.1 hmem with h | h
    · exact mem_append_left _ h
    · exact mem_append_right _ (mem_cons_of_mem _ h)

theorem filter_table (t : StageTurn cfg) : cfg.table.filter (fun row => row = .stage t.i) = [.stage t.i] := by
  rw [filter_eq, count_eq_one_of_mem (nodup_table cfg) (mem_table t.lt)]
  rfl

private theorem holds_runRows (hw : Tracked t w) (hrefuse : resume = false → isDone (w.record.stages t.i) = false) :
    Holds t (Tracked t) (fun _ v => Tracked t v) (runRows cfg resume [.stage t.i] w.record) w := by
  rw [runRows]
  by_cases hskip : (resume && isDone (w.record.stages t.i)) = true
  · rw [if_pos hskip]
    exact .pure hw
  have hundone : isDone (w.record.stages t.i) = false := by
    cases resume with
    | true => simpa using hskip
    | false => exact hrefuse rfl
  rw [if_neg hskip]
  by_cases hkind : (cfg.row t.i).kind = .safe
  · rw [if_pos hkind]
    exact .bind (holds_runSafeStage hw hkind resume) fun m v hv => SafeOr.pure hv
  rw [if_neg hkind]
  exact .bind (holds_runForgeStage hw hkind hundone) fun m v hv => SafeOr.pure hv

private theorem holds_runStages (hw : Tracked t w) (resume : Bool) :
    Holds t (Tracked t) (fun _ v => Tracked t v) (runStages cfg resume fun row => row = .stage t.i) w := by
  unfold runStages
  have hload : Holds t (Tracked t) (fun loaded v => v = w ∧ loaded = w.manifest) (ask .loadRunManifest) w :=
    holds_read hw (fun _ => rfl) fun _ _ hreply => ⟨rfl, (of_stageAnswer hreply).2.symm⟩
  refine .bind hload fun loaded v hv => ?_
  obtain ⟨rfl, hloaded⟩ := hv
  rw [filter_table]
  have hrecord : v.record = loaded.getD {} := by rw [hloaded]; rfl
  cases loaded with
  | none =>
    have hrows : Holds t (Tracked t) (fun _ v => Tracked t v) (runRows cfg resume [.stage t.i] v.record) v :=
      holds_runRows hw fun _ => by rw [hrecord]; rfl
    rw [hrecord] at hrows
    exact .bind hrows fun _ _ hv => SafeOr.pure hv
  | some m =>
    dsimp only
    split_ifs with hrefuse
    · exact .throw hw
    · have hstages : resume = false → hasStages cfg m = false := fun hresume =>
        Bool.eq_false_iff.2 fun h => hrefuse ⟨hresume, h⟩
      have hrun := (toRun_table (fun row => row = .stage t.i) hstages).2 t.i
        (by rw [filter_table]; exact mem_cons_self)
      have hrows : Holds t (Tracked t) (fun _ v => Tracked t v) (runRows cfg resume [.stage t.i] v.record) v :=
        holds_runRows hw fun hresume => by rw [hrecord, getD_some, hrun.2 hresume]
      rw [hrecord] at hrows
      exact .bind hrows fun _ _ hv => SafeOr.pure hv

private theorem safe_attempt (hw : Tracked t w) :
    (publish cfg).Safe t.host free (fun _ w' => Tracked t w') (fun _ _ => True) w := by
  refine .bind (?_ : Holds t (Tracked t) (fun _ _ => True) _ w) fun _ _ _ => trivial
  have hoptions : Holds t (Tracked t) (fun o v => v = w ∧ ∃ resume, o = (resume, fun row => decide (row = .stage t.i)))
      (ask .options) w :=
    holds_read hw (fun _ => rfl) fun r o hreply => ⟨rfl, r.resume, (of_stageAnswer hreply).2.symm⟩
  refine .bind hoptions fun o v hv => ?_
  obtain ⟨rfl, resume, rfl⟩ := hv
  exact .mono (holds_runStages hw resume) fun _ _ _ => trivial

theorem tracked_run (t : StageTurn cfg) (actions : List (Action StageReply Empty)) :
    Tracked t (run (t.host.machine (publish cfg)) ⟨t.world, publish cfg⟩ actions).world := by
  have hmeets (a : Action StageReply Empty) (s : Process DeployRequest Answer StageWorld) : a.Meets
      free s := by
    cases a with
    | reply r => exact meets_reply (fun _ _ _ => trivial) s r
    | restart => trivial
    | event e => exact nomatch e
  exact (safe_run (fun w hw => safe_attempt hw) (fun _ e => nomatch e) (fun _ h => h) (fun _ _ _ h =>
    h) (tracked_world t)
    (along_of_meets fun a _ s => hmeets a s)).1

end Turn

end RobotMoney.Publish.Deploy
