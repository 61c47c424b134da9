import RobotMoney.Publish.Resume

/-!
# What `--resume` makes of a stopped stage

A run with `--resume` in which no step fails is `StageTurn.resumed`.  It continues a stage exactly from the worlds that
are `Resumable`; the others are refused, each for a file or a record that an earlier attempt has left.
-/

open Effect

namespace RobotMoney.Publish.Deploy

open Evm List

section Turn

variable {cfg : DeployConfig} {t : StageTurn cfg} {w v : StageWorld} {m : DeployManifest}

def StageTurn.plays (t : StageTurn cfg) {α : Type} (x : Stage α) (w : StageWorld) : Except DeployError α × StageWorld :=
  t.host.attempt {} x w

section Plays

variable {α β : Type} {x : Stage α} {f : α → Stage β} {a : α} {e : DeployError} {q : DeployRequest}

private theorem plays_pure (a : α) (w : StageWorld) : t.plays (pure a : Stage α) w = (.ok a, w) := rfl

private theorem plays_bind (h : t.plays x w = (.ok a, v)) : t.plays (x >>= f) w = t.plays (f a) v := attempt_bind h

private theorem plays_bind_error (h : t.plays x w = (.error e, v)) : t.plays (x >>= f) w = (.error e, v) :=
  attempt_bind_error h

theorem plays_ask (w : StageWorld) (q : DeployRequest) : t.plays (ask q) w = (t.reply w q {}, t.next w q {}) := rfl

private theorem plays_require {c : Content q} (h : t.reply w q {} = .ok c) :
    t.plays (require q) w = (.ok (), t.next w q {}) := by
  have hask : t.plays (ask q) w = (.ok c, t.next w q {}) := by rw [plays_ask, h]
  exact plays_bind hask

private theorem plays_check {c : Content q} (h : t.reply w q {} = .ok c) (hq : t.next w q {} = w) :
    t.plays (require q) w = (.ok (), w) := by
  rw [plays_require h, hq]

theorem plays_nonce (w : StageWorld) (read : NonceRead) : t.plays (deployerNonce read) w = (.ok (t.nonce w), w) := rfl

private theorem plays_out (w : StageWorld) (i : Nat) : t.plays (outExists i) w = (.ok w.out, w) := rfl

private theorem plays_save (w : StageWorld) (m : DeployManifest) :
    t.plays (saveRunManifest m) w = (.ok (), { w with manifest := some m }) := rfl

private theorem plays_cleaning {cleanup : Stage Unit} (h : t.plays x w = (.ok a, v)) :
    t.plays (cleaning cleanup x) w = (.ok a, v) := by
  unfold cleaning StageTurn.plays Host.attempt at *
  refine (play_bind _ _ _ _ _).trans ?_
  rw [h]
  rfl

private theorem plays_cleaning_error (cleanup : Stage Unit) (h : t.plays x w = (.error e, v)) :
    ∃ v', t.plays (cleaning cleanup x) w = (.error e, v') := by
  refine ⟨(t.host.play {} cleanup.run v).2, ?_⟩
  unfold cleaning StageTurn.plays Host.attempt at *
  refine (play_bind _ _ _ _ _).trans ?_
  rw [h]
  exact play_bind _ _ _ _ _

end Plays

/-- The part of a run returns, the stage is recorded done, and its transactions were each mined once. -/
def Finishes (t : StageTurn cfg) {α : Type} (x : Stage α) (w : StageWorld) : Prop :=
  ∃ a v, t.plays x w = (.ok a, v) ∧ isDone (v.record.stages t.i) = true ∧ v.mined = List.range t.planned

def Refused (t : StageTurn cfg) {α : Type} (x : Stage α) (w : StageWorld) : Prop :=
  ∃ e v, t.plays x w = (.error e, v)

section Ends

variable {α β : Type} {x : Stage α} {f : α → Stage β} {a : α}

private theorem Finishes.bind (h : t.plays x w = (.ok a, v)) (hf : Finishes t (f a) v) : Finishes t (x >>= f) w := by
  unfold Finishes
  rw [plays_bind h]
  exact hf

private theorem Refused.bind (h : t.plays x w = (.ok a, v)) (hf : Refused t (f a) v) : Refused t (x >>= f) w := by
  unfold Refused
  rw [plays_bind h]
  exact hf

private theorem Refused.bind_left (h : Refused t x w) : Refused t (x >>= f) w := by
  obtain ⟨e, v, hx⟩ := h
  exact ⟨e, v, plays_bind_error hx⟩

private theorem Refused.throw (e : DeployError) (w : StageWorld) : Refused t (throw e : Stage α) w := ⟨e, w, rfl⟩

private theorem Refused.not_finishes (h : Refused t x w) : ¬Finishes t x w := by
  rintro ⟨a, v, hx, -⟩
  obtain ⟨e, v', hx'⟩ := h
  rw [hx] at hx'
  cases hx'

theorem finishes_save {r : StageRecord} (hr : r.status = .done) (hw : w.mined = range t.planned) : Finishes t (do
      saveRunManifest (m.setStage t.i r)
      pure (m.setStage t.i r)) w := by
  refine ⟨_, _, plays_bind (plays_save w _), ?_, hw⟩
  change isDone ((m.setStage t.i r).stages t.i) = true
  rw [stages_setStage_self, isDone, Option.any_some, hr]
  rfl

end Ends

private theorem plays_runStartNonce (hw : Tracked t w) :
    ∃ p v, t.plays (runStartNonce cfg t.i w.record (t.nonce w)) w = (.ok p, v) ∧ AfterStart t w p v := by
  rcases runStartNonce_eq hw with ⟨heq, hbegun⟩ | ⟨heq, hsaved⟩
  · rw [heq]
    exact ⟨_, _, plays_pure _ _, afterStart_known hw hbegun⟩
  rw [heq]
  exact ⟨_, _, plays_bind (plays_save w _), afterStart_saved hsaved⟩

private theorem finishes_adoptLibsStage (hw : Tracked t w) (hkind : (cfg.row t.i).kind = .libs)
    (hall : t.onChain + w.mined.length = (cfg.row t.i).count) : Finishes t (adoptLibsStage cfg t.i t.start m) w := by
  have hplanned := t.onChain_add_planned
  have hnonce : ¬(t.nonce w ≠ t.start ∧ t.nonce w ≠ t.start + (cfg.row t.i).count) := by
    rintro ⟨hstart, hend⟩
    have hmined : w.mined ≠ [] := fun h => hstart (nonce_eq_start h)
    have hchain := hw.libs hkind hmined
    unfold StageTurn.nonce at hend
    omega
  unfold adoptLibsStage
  refine .bind (plays_check rfl rfl) (.bind (plays_nonce _ _) ?_)
  rw [if_neg hnonce]
  exact finishes_save rfl (length_eq_planned hw (by omega))

private theorem plays_simulate (w : StageWorld) :
    t.plays (ask (.simulate t.i)) w = (.ok (t.simulation w), { w with out := true }) := rfl

private theorem simulation_planned (t : StageTurn cfg) (w : StageWorld) :
    (t.simulation w).planned = (cfg.row t.i).count - t.found w.mined.length := rfl

private theorem simulation_adoptable (t : StageTurn cfg) (w : StageWorld) :
    (t.simulation w).adoptable = t.found w.mined.length := rfl

private theorem plays_simulateStage (adopted : Nat) (hplanned : (t.simulation w).planned ≠ 0)
    (hadopted : (if (cfg.row t.i).count ≤ (t.simulation w).planned ∨ (cfg.row t.i).kind = .libs then 0
      else (t.simulation w).adoptable) = adopted) (hcount : (t.simulation w).planned + adopted = (cfg.row t.i).count) :
    t.plays (simulateStage cfg t.i t.start m) w = (.ok (.inr ⟨(t.simulation w).planned, adopted⟩), { w with out :=
  true }) := by
  unfold simulateStage
  refine (plays_bind (plays_simulate w)).trans ?_
  rw [if_neg hplanned]
  dsimp only
  rw [hadopted, if_neg (not_not.2 hcount)]
  exact plays_bind (plays_check rfl rfl)

variable {resuming : Bool} {sim : Simulation}

private theorem plays_checkCounts (hresuming : resuming = false → sim.planned = t.planned)
    (hlow : t.onChain ≤ sim.adoptable) (w : StageWorld) :
    ∃ txs, t.plays (checkCounts cfg t.i t.start resuming sim t.planned (t.start + t.planned)) w = (.ok txs, w) := by
  have hplanned := t.onChain_add_planned
  unfold checkCounts
  by_cases hadoptable : sim.adoptable = 0
  · rw [if_pos hadoptable, if_neg (by omega)]
    exact ⟨none, rfl⟩
  rw [if_neg hadoptable]
  dsimp only
  cases resuming with
  | true =>
    rw [if_pos rfl, if_pos rfl, if_neg (by omega)]
    exact ⟨_, rfl⟩
  | false =>
    have hsim := hresuming rfl
    rw [if_neg Bool.false_ne_true, if_neg Bool.false_ne_true, if_neg (by omega)]
    exact ⟨_, rfl⟩

private theorem plays_readAfterWrite {i target nonce1 : Nat} (h : nonce1 = target) :
    t.plays (readAfterWrite i target nonce1) w = (.ok nonce1, w) := by
  rw [readAfterWrite, if_neg (by omega)]
  rfl

private theorem plays_broadcast (hw : Tracked t w) (hkind : (cfg.row t.i).kind ≠ .safe)
    (hresuming : resuming = decide (w.mined ≠ [])) :
    t.plays (require (.broadcast t.i resuming)) w = (.ok (), { w with mined := range t.planned, out := true }) := by
  obtain ⟨k, -, out, hnext, -, hall⟩ := next_broadcast hw hresuming {} hkind
  obtain ⟨rfl, rfl⟩ := hall rfl rfl
  rw [plays_require rfl, hnext]

private theorem finishes_broadcastStage (hw : Tracked t w) (hkind : (cfg.row t.i).kind ≠ .safe)
    (hresuming : resuming = decide (w.mined ≠ [])) (hsim : w.mined = [] → sim.planned = t.planned)
    (hlow : t.onChain ≤ sim.adoptable) : Finishes t (broadcastStage cfg t.i t.start resuming sim m) w := by
  have hlength : (range t.planned).length = t.planned := length_range
  have hnonce : t.nonce { w with mined := range t.planned, out := true } = t.start + t.planned := by
    rw [StageTurn.nonce, hlength]
  have hfresh : resuming = false → sim.planned = t.planned := by
    intro h
    rw [hresuming, decide_eq_false_iff_not, not_not] at h
    exact hsim h
  obtain ⟨txs, hcounts⟩ := plays_checkCounts hfresh hlow { w with mined := range t.planned, out := true }
  have hsent : t.plays (ask (.readTxCount t.i)) { w with mined := range t.planned, out := true } =
      (.ok t.planned, { w with mined := range t.planned, out := true }) := by
    rw [plays_ask]
    exact congrArg (fun n => (Except.ok n, _)) hlength
  unfold broadcastStage
  refine .bind (plays_broadcast hw hkind hresuming) (.bind (plays_nonce _ _) (.bind hsent ?_))
  rw [hnonce]
  refine .bind (plays_readAfterWrite rfl) (.bind hcounts (.bind (plays_out _ _) ?_))
  exact .bind (plays_check rfl rfl) (finishes_save rfl rfl)

private theorem plays_settle (w : StageWorld) (resuming : Bool) :
    t.plays (settle t.i resuming) w = (.ok (), { w with out := resuming }) := by
  cases resuming <;> rfl

private theorem finishes_of_simulated (hw : InForge t m w) (hresuming : resuming = decide (w.mined ≠ []))
    (hsim : t.plays (simulateStage cfg t.i t.start m) w = (.ok (.inr sim), { w with out := true }))
    (hplanned : w.mined = [] → sim.planned = t.planned) (hlow : t.onChain ≤ sim.adoptable) :
    Finishes t (forgeStage cfg t.i t.start resuming resuming m) w := by
  have hsettled : InForge t m { w with out := resuming } := hw.setOut fun h => by rw [hresuming, decide_eq_true h]
  have hrecord : Recordable t { status := .started, startNonce := t.start } { w with out := resuming } :=
    ⟨rfl, fun h => (nomatch h), fun h => absurd h hw.kind⟩
  rw [forgeStage_eq]
  refine .bind (plays_cleaning hsim) (.bind (plays_settle _ _) ?_)
  refine .bind (plays_check rfl rfl) (.bind (plays_save _ _) (.bind (plays_check rfl rfl) ?_))
  exact finishes_broadcastStage (hsettled.setStage hrecord).tracked hw.kind hresuming hplanned hlow

private theorem finishes_forgeStage (hw : InForge t m w) (hkind : (cfg.row t.i).kind = .forge)
    (hresuming : resuming = decide (w.mined ≠ [])) : Finishes t (forgeStage cfg t.i t.start resuming resuming m) w := by
  have hfound := StageTurn.found_lt hkind (length_mined hw.tracked).2
  have hlow := t.onChain_le_found w.mined.length
  have hplanned := simulation_planned t w
  have hadoptable := simulation_adoptable t w
  have hadopted : (if (cfg.row t.i).count ≤ (t.simulation w).planned ∨ (cfg.row t.i).kind = .libs then 0
      else (t.simulation w).adoptable) = t.found w.mined.length := by
    split_ifs with h
    · rcases h with h | h
      · omega
      rw [hkind] at h
      cases h
    · exact hadoptable
  refine finishes_of_simulated hw hresuming (plays_simulateStage _ (by omega) hadopted (by omega))
    (fun hnone => ?_) hlow
  rw [hplanned, hnone]
  rfl

private theorem finishes_libs (hw : InForge t m w) (hkind : (cfg.row t.i).kind = .libs)
    (hresuming : resuming = decide (w.mined ≠ []))
    (hall : t.onChain + w.mined.length = 0 ∨ t.onChain + w.mined.length = (cfg.row t.i).count) :
    Finishes t (forgeStage cfg t.i t.start resuming resuming m) w := by
  have hfound := StageTurn.found_libs hkind w.mined.length
  have hplanned := simulation_planned t w
  by_cases hcount : t.onChain + w.mined.length = (cfg.row t.i).count
  · have hsim : InForge t m { w with out := true } := hw.setOut fun _ => rfl
    obtain ⟨m', v, hadopt, hdone⟩ := finishes_adoptLibsStage (m := m) hsim.tracked hkind hcount
    have hstage : t.plays (simulateStage cfg t.i t.start m) w = (.ok (.inl m'), v) := by
      unfold simulateStage
      refine (plays_bind (plays_simulate w)).trans ?_
      rw [if_pos (by omega), if_pos hkind]
      exact plays_bind hadopt
    rw [forgeStage_eq]
    exact ⟨m', v, plays_bind (plays_cleaning hstage), hdone⟩
  have hzero := hall.resolve_right hcount
  refine finishes_of_simulated hw hresuming (plays_simulateStage 0 (by omega) (if_pos (.inr hkind)) (by omega))
    (fun _ => ?_) (by dsimp only; omega)
  have := t.onChain_add_planned
  dsimp only
  omega

private theorem refused_libs (hw : InForge t m w) (hkind : (cfg.row t.i).kind = .libs)
    (hsome : t.onChain + w.mined.length ≠ 0) (hmissing : t.onChain + w.mined.length ≠ (cfg.row t.i).count) :
    Refused t (forgeStage cfg t.i t.start resuming resuming m) w := by
  have hfound := StageTurn.found_libs hkind w.mined.length
  have hplanned := simulation_planned t w
  have hlength := (length_mined hw.tracked).2
  have htotal := t.onChain_add_planned
  have hstage : t.plays (simulateStage cfg t.i t.start m) w = (.error .countMismatch, { w with out := true }) := by
    unfold simulateStage
    refine (plays_bind (plays_simulate w)).trans ?_
    rw [if_neg (by omega)]
    dsimp only
    rw [if_pos (show (cfg.row t.i).count ≤ (t.simulation w).planned ∨ _ from .inr hkind), if_pos (by omega)]
    rfl
  obtain ⟨v, hclean⟩ := plays_cleaning_error (settle t.i resuming) hstage
  rw [forgeStage_eq]
  exact Refused.bind_left ⟨_, _, hclean⟩

private theorem plays_runForgeStage (hw : Tracked t w) (hkind : (cfg.row t.i).kind ≠ .safe)
    (hundone : isDone (w.record.stages t.i) = false) : ∃ m v, InForge t m v ∧ v.mined = w.mined ∧ v.out = w.out ∧
      t.plays (runForgeStage cfg true t.i w.record) w = t.plays (forgeTurn t true w m) v := by
  obtain ⟨p, v, hstart, hafter⟩ := plays_runStartNonce hw
  refine ⟨p.2, v, ⟨hafter.record, hafter.tracked, hafter.begun, hkind⟩, hafter.mined, hafter.out, ?_⟩
  rw [← forgeTurn_eq hafter hw hundone]
  unfold runForgeStage
  rw [if_neg fun h => by rw [proof_of_others hw.others h.1] at h; cases h.2]
  exact (plays_bind (plays_check rfl rfl)).trans ((plays_bind (plays_nonce _ _)).trans (plays_bind hstart))

private theorem plays_createSafe (hkind : (cfg.row t.i).kind = .safe) (hnone : w.mined = []) :
    t.plays (createSafe t.i t.start m) w =
      (.ok (m.setStage t.i { status := .started, startNonce := t.start, safe := true }),
        { w with
          mined := [0]
          manifest := some (m.setStage t.i { status := .started, startNonce := t.start, safe := true }) }) := by
  have hsend (v : StageWorld) (hv : v.mined = []) :
      t.plays (require (.sendSafe t.i)) v = (.ok (), { v with mined := [0] }) := by
    rw [plays_require rfl, StageTurn.next, hv, planned_of_safe hkind]
    rfl
  unfold createSafe
  refine (plays_bind (plays_check rfl rfl)).trans ((plays_bind (plays_nonce _ _)).trans ?_)
  rw [if_neg (not_not.2 (nonce_eq_start hnone))]
  refine (plays_bind (plays_check rfl rfl)).trans ((plays_bind (plays_save _ _)).trans ?_)
  rw [plays_bind (hsend { w with manifest := some _ } hnone)]
  refine (plays_bind (plays_check rfl rfl)).trans ((plays_bind (plays_check rfl rfl)).trans ?_)
  refine (plays_bind (plays_nonce _ _)).trans ((plays_bind (plays_readAfterWrite rfl)).trans ?_)
  rw [if_neg (not_not.2 rfl)]
  rfl

private theorem finishes_fresh (hw : Tracked t w) (hkind : (cfg.row t.i).kind = .safe) (hnone : w.mined = []) :
    Finishes t (runSafeStage.fresh cfg t.i w.record (t.nonce w) false) w := by
  obtain ⟨p, v, hstart, hafter⟩ := plays_runStartNonce hw
  unfold runSafeStage.fresh
  refine .bind hstart ?_
  rw [hafter.base, expectedStartNonce_safe hkind, nonce_eq_start hnone, if_neg (not_not.2 rfl),
    if_neg Bool.false_ne_true]
  refine .bind (plays_createSafe hkind (hafter.mined.trans hnone)) ?_
  refine .bind (plays_require rfl) (.bind (plays_nonce _ _) ?_)
  rw [(t.safe_one hkind).1, if_neg (not_not.2 (show t.nonce _ = t.start + 1 from rfl))]
  refine finishes_save rfl ?_
  rw [planned_of_safe hkind]
  rfl

private theorem refused_fresh (hw : Tracked t w) (hkind : (cfg.row t.i).kind = .safe) {there : Bool}
    (hrefuse : w.mined ≠ [] ∨ there = true) : Refused t (runSafeStage.fresh cfg t.i w.record (t.nonce w) there) w := by
  obtain ⟨p, v, hstart, hafter⟩ := plays_runStartNonce hw
  unfold runSafeStage.fresh
  refine Refused.bind hstart ?_
  rw [hafter.base, expectedStartNonce_safe hkind]
  by_cases hnone : w.mined = []
  · rw [nonce_eq_start hnone, if_neg (not_not.2 rfl), if_pos (hrefuse.resolve_left (not_not.2 hnone))]
    exact Refused.throw _ _
  have hpos := length_pos_iff.2 hnone
  have hnonce : t.nonce w ≠ t.start := by
    unfold StageTurn.nonce
    omega
  rw [if_pos hnonce]
  exact Refused.throw _ _

section Recorded

variable {prior : StageRecord} (hprior : w.record.stages t.i = some prior) (hsafe : prior.safe = true)
include hprior hsafe

private theorem finishes_adoptSafe (hw : Tracked t w) (hkind : (cfg.row t.i).kind = .safe) (hout : w.out = false)
    (hmined : w.mined ≠ []) : Finishes t (runSafeStage cfg true t.i w.record) w := by
  have hconnect : t.plays (require .connectSafe) w = (.ok (), w) := by
    refine plays_check (c := ()) ?_ rfl
    rw [StageTurn.reply, if_neg hmined]
    rfl
  have hall := mined_of_safe hw hkind hmined
  unfold runSafeStage
  refine .bind (plays_nonce _ _) (.bind (plays_out _ _) ?_)
  rw [hprior]
  dsimp only
  rw [if_pos ⟨rfl, hsafe, hout⟩]
  refine .bind hconnect (.bind (plays_check rfl rfl) (.bind (plays_require rfl) ?_))
  exact .bind (plays_nonce _ _) (finishes_save rfl hall)

private theorem refused_adoptSafe (hw : Tracked t w) (hkind : (cfg.row t.i).kind = .safe)
    (hrefuse : ¬(w.mined ≠ [] ∧ w.out = false)) :
    Refused t (runSafeStage cfg true t.i w.record) w := by
  unfold runSafeStage
  refine Refused.bind (plays_nonce _ _) (Refused.bind (plays_out _ _) ?_)
  rw [hprior]
  dsimp only
  by_cases hout : w.out = false
  · have hnone : w.mined = [] := by
      by_contra hmined
      exact hrefuse ⟨hmined, hout⟩
    have hconnect : t.plays (ask .connectSafe) w = (.error .safe, w) := by
      rw [plays_ask, StageTurn.reply, if_pos hnone]
      rfl
    rw [if_pos ⟨rfl, hsafe, hout⟩]
    exact Refused.bind_left ⟨_, _, plays_bind_error hconnect⟩
  rw [if_neg fun h => hout h.2.2]
  exact refused_fresh hw hkind (.inr (by simpa using hout))

end Recorded

/-- Where a run with `--resume` continues: the stage is done; or nothing was mined and no file is left, or something
was; or the Safe is not recorded, or it was created and its file is missing.  The libraries are all on chain or none
is. -/
def Resumable (t : StageTurn cfg) (w : StageWorld) : Prop :=
  isDone (w.record.stages t.i) = true ∨
    match (cfg.row t.i).kind with
    | .safe => w.record.stages t.i ≠ none → w.mined ≠ [] ∧ w.out = false
    | .libs => (w.mined = [] → w.out = false) ∧
        (t.onChain + w.mined.length = 0 ∨ t.onChain + w.mined.length = (cfg.row t.i).count)
    | .forge => w.mined = [] → w.out = false

/-- A run with `--resume` and the same arguments, in which no step fails, returns, records the stage done, and then each
of its transactions was mined once. -/
def Continues (t : StageTurn cfg) (w : StageWorld) : Prop :=
  Finishes t (runStages cfg true fun row => row = .stage t.i) w

private theorem finishes_runSafeStage_iff (hw : Tracked t w) (hkind : (cfg.row t.i).kind = .safe) :
    Finishes t (runSafeStage cfg true t.i w.record) w ↔
    (w.record.stages t.i ≠ none → w.mined ≠ [] ∧ w.out = false) := by
  cases hprior : w.record.stages t.i with
  | none =>
    obtain ⟨hnone, hout⟩ := hw.unrecorded hprior
    refine iff_of_true ?_ fun h => absurd rfl h
    have hfresh := finishes_fresh hw hkind hnone
    unfold runSafeStage
    refine .bind (plays_nonce _ _) (.bind (plays_out _ _) ?_)
    rw [hprior, hout hkind]
    exact hfresh
  | some prior =>
    have hsafe := (hw.record prior hprior).2.2 hkind
    by_cases hresume : w.mined ≠ [] ∧ w.out = false
    · exact iff_of_true (finishes_adoptSafe hprior hsafe hw hkind hresume.2 hresume.1) fun _ => hresume
    refine iff_of_false (refused_adoptSafe hprior hsafe hw hkind hresume).not_finishes fun h => hresume (h ?_)
    exact Option.some_ne_none _

def LibsWhole (t : StageTurn cfg) (w : StageWorld) : Prop :=
  (cfg.row t.i).kind = .libs → t.onChain + w.mined.length = 0 ∨ t.onChain + w.mined.length = (cfg.row t.i).count

private theorem finishes_forgeStage_iff (hw : InForge t m w) (hresuming : resuming = decide (w.mined ≠ [])) :
    Finishes t (forgeStage cfg t.i t.start resuming resuming m) w ↔ LibsWhole t w := by
  unfold LibsWhole
  cases hkind : (cfg.row t.i).kind with
  | safe => exact absurd hkind hw.kind
  | forge => exact iff_of_true (finishes_forgeStage hw hkind hresuming) fun h => nomatch h
  | libs =>
    by_cases hall : t.onChain + w.mined.length = 0 ∨ t.onChain + w.mined.length = (cfg.row t.i).count
    · exact iff_of_true (finishes_libs hw hkind hresuming hall) fun _ => hall
    obtain ⟨hsome, hmissing⟩ := not_or.1 hall
    exact iff_of_false (refused_libs hw hkind hsome hmissing).not_finishes fun h => hall (h rfl)

private theorem finishes_runForgeStage_iff (hw : Tracked t w) (hkind : (cfg.row t.i).kind ≠ .safe)
    (hundone : isDone (w.record.stages t.i) = false) :
    Finishes t (runForgeStage cfg true t.i w.record) w ↔ (w.mined = [] → w.out = false) ∧ LibsWhole t w := by
  obtain ⟨m, v, hforge, hmined, hout, hplays⟩ := plays_runForgeStage hw hkind hundone
  have hturn : Finishes t (runForgeStage cfg true t.i w.record) w ↔ Finishes t (forgeTurn t true w m) v := by
    unfold Finishes
    rw [hplays]
  have hlibs : LibsWhole t v ↔ LibsWhole t w := by
    unfold LibsWhole
    rw [hmined]
  rw [hturn, forgeTurn, if_neg fun h => Bool.noConfusion h.1, ← hlibs]
  by_cases hnone : w.mined = []
  · by_cases hthere : w.out = true
    · refine iff_of_false (Refused.not_finishes (Refused.bind (plays_out _ _) ?_)) fun h => ?_
      · rw [if_pos ⟨hout.trans hthere, hnone⟩]
        exact Refused.throw _ _
      · rw [h.1 hnone] at hthere
        cases hthere
    have hfalse : w.out = false := by simpa using hthere
    have hfresh : Finishes t (forgeStage cfg t.i t.start false false m) v ↔ LibsWhole t v :=
      finishes_forgeStage_iff hforge (by rw [hmined, hnone]; rfl)
    rw [and_iff_right fun _ => hfalse, ← hfresh]
    unfold Finishes
    rw [plays_bind (plays_out _ _), hout, hfalse, if_neg fun h => Bool.noConfusion h.1,
      decide_eq_false (not_not.2 hnone), Bool.false_and]
  have htrue : v.out = true := hforge.tracked.out hkind (by rw [hmined]; exact hnone)
  have hresumed : Finishes t (forgeStage cfg t.i t.start true true m) v ↔ LibsWhole t v :=
    finishes_forgeStage_iff hforge (by rw [hmined, decide_eq_true hnone])
  rw [and_iff_right fun h => absurd h hnone, ← hresumed]
  unfold Finishes
  rw [plays_bind (plays_out _ _), htrue, if_neg fun h => hnone h.2, decide_eq_true hnone, Bool.true_and]

theorem plays_runStages (w : StageWorld) : t.plays (runStages cfg true fun row => row = .stage t.i) w = t.plays (do
      let _ ← runRows cfg true [.stage t.i] w.record
      pure ()) w := by
  have hload : t.plays (ask .loadRunManifest) w = (.ok w.manifest, w) := rfl
  unfold runStages
  refine (plays_bind hload).trans ?_
  rw [filter_table]
  unfold StageWorld.record
  cases w.manifest with
  | none => rfl
  | some m => rfl

private theorem finishes_map {α β : Type} {x : Stage α} (f : α → β) :
    Finishes t (x >>= fun a => pure (f a)) w ↔ Finishes t x w := by
  constructor
  · rintro ⟨u, v, hx, hv⟩
    cases hplays : t.plays x w with
    | mk result v' =>
      cases result with
      | ok a =>
        rw [plays_bind hplays, plays_pure] at hx
        cases hx
        exact ⟨a, _, hplays, hv⟩
      | error e =>
        rw [plays_bind_error hplays] at hx
        cases hx
  · rintro ⟨a, v, hx, hv⟩
    exact ⟨f a, v, plays_bind hx, hv⟩

private theorem continues_iff (hw : Tracked t w) : Continues t w ↔ Resumable t w := by
  have hrows : Continues t w ↔ Finishes t (runRows cfg true [.stage t.i] w.record) w := by
    rw [← finishes_map fun _ => ()]
    unfold Continues Finishes
    rw [plays_runStages]
  rw [hrows, runRows, Resumable]
  cases hundone : isDone (w.record.stages t.i) with
  | true =>
    obtain ⟨r, hr, hdone⟩ := exists_record hundone
    exact iff_of_true ⟨_, _, plays_pure _ _, hundone, (hw.record r hr).2.1 hdone⟩ (.inl rfl)
  | false =>
    rw [Bool.and_false, if_neg Bool.false_ne_true, or_iff_right Bool.false_ne_true]
    by_cases hsafe : (cfg.row t.i).kind = .safe
    · rw [if_pos hsafe, hsafe]
      exact (finishes_map id).trans (finishes_runSafeStage_iff hw hsafe)
    rw [if_neg hsafe]
    refine (finishes_map id).trans ((finishes_runForgeStage_iff hw hsafe hundone).trans ?_)
    unfold LibsWhole
    cases hkind : (cfg.row t.i).kind with
    | safe => exact absurd hkind hsafe
    | libs => exact and_congr_right fun _ => ⟨fun h => h rfl, fun h _ => h⟩
    | forge => exact and_iff_left (by rintro ⟨⟩)

def StageTurn.stopped (t : StageTurn cfg) (actions : List (Action StageReply Empty)) : StageWorld :=
  (run (t.host.machine (publish cfg)) ⟨t.world, publish cfg⟩ actions).world

/-- After every run of attempts of a stage, each stopped at any point, `--resume` continues the stage exactly from what
is resumable. -/
theorem resume_continues (t : StageTurn cfg) (actions : List (Action StageReply Empty)) :
    Continues t (t.stopped actions) ↔ Resumable t (t.stopped actions) :=
  continues_iff (tracked_run t actions)

end Turn

def oneStage : DeployConfig where
  rows := [⟨.forge, 1⟩]
  proofAt := none
  fromZero := true
  rows_ne := by decide
  safe_first := by
    rintro (_ | i) row hrow hkind
    · rfl
    · cases hrow
  proofAt_bounds := fun _ h => nomatch h

def firstTurn : StageTurn oneStage where
  i := 0
  lt := by decide
  manifest := none
  base := 0
  start := 0
  onChain := 0
  reusable _ := false
  unrecorded := rfl
  proven h := nomatch h
  adopted := rfl
  starts := rfl
  begins := .inl ⟨rfl, rfl⟩
  fits := by decide
  safe_one h := nomatch h
  libs_all h := nomatch h
  forge_own _ := ⟨0, by decide, rfl⟩

/-- The run up to the broadcast, which writes the file of the stage and stops before its first transaction is mined. -/
def noneMined : List (Action StageReply Empty) := List.replicate 11 (.reply {}) ++ [.reply { stopAfter := some 0 }]

theorem refused_after_failed_broadcast :
    ¬∀ (cfg : DeployConfig) (t : StageTurn cfg) (actions : List (Action StageReply Empty)),
      Continues t (t.stopped actions) := by
  intro h
  have hresumable := (continues_iff (tracked_run firstTurn noneMined)).1 (h oneStage firstTurn noneMined)
  rcases hresumable with hdone | hout
  · revert hdone
    decide +kernel
  · have hstopped := hout rfl
    revert hstopped
    decide +kernel

end RobotMoney.Publish.Deploy
