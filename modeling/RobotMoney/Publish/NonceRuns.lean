import RobotMoney.Publish.NonceLedger

/-!
# Every run keeps the ledger

Each stage saves its record only after it has compared the nonces, so every save keeps the ledger exact
(`Exact.setStage`). The rest of a stage changes no record.
-/

open Effect

namespace RobotMoney.Publish.Deploy

open Evm List Option

section Records

variable {cfg : DeployConfig} {m : DeployManifest} {i j nonce : Nat} {r : StageRecord}

theorem stages_setStage_self (m : DeployManifest) (i : Nat) (r : StageRecord) : (m.setStage i r).stages i = some r :=
  Function.update_self ..

theorem stages_setStage_of_ne (m : DeployManifest) (r : StageRecord) (h : j ≠ i) :
    (m.setStage i r).stages j = m.stages j :=
  Function.update_of_ne h ..

theorem effectiveCount_setStage_of_ne (h : j ≠ i) : effectiveCount cfg (m.setStage i r) j = effectiveCount cfg m j := by
  unfold effectiveCount adoptedTxs
  rw [stages_setStage_of_ne m r h]

private theorem sumCounts_setStage (h : j ≤ i) : sumCounts cfg (m.setStage i r) j = sumCounts cfg m j := by
  unfold sumCounts
  refine congrArg sum (map_congr_left fun k hk => ?_)
  exact effectiveCount_setStage_of_ne (by have := mem_range.1 hk; omega)

private theorem expectedStartNonce_setStage (h : j ≤ i) (start : Nat) :
    expectedStartNonce cfg (m.setStage i r) j start = expectedStartNonce cfg m j start := by
  rw [expectedStartNonce, expectedStartNonce, sumCounts_setStage h]

private theorem EarlierDone.setStage (h : EarlierDone cfg m j) (hij : j ≤ i) : EarlierDone cfg (m.setStage i r) j := by
  refine ⟨fun k hk => ?_, h.2⟩
  rw [stages_setStage_of_ne m r (by omega)]
  exact h.1 k hk

/-- A stage may be recorded: it is the first one that is not done, and starts where the counts say. -/
structure Ready (cfg : DeployConfig) (m : DeployManifest) (i startNonce : Nat) : Prop where
  lt : i < cfg.rows.length
  undone : isDone (m.stages i) = false
  earlier : EarlierDone cfg m i
  start : startNonce = expectedStartNonce cfg m i (recordedStartNonce cfg m)
  base : cfg.fromZero = false → m.deployerStartNonce ≠ none

/-- What a record that is written must say. -/
structure Fair (cfg : DeployConfig) (i : Nat) (r : StageRecord) (nonce : Nat) : Prop where
  started : r.status = .started → r.deployerTxs = none
  done : r.status = .done → r.endNonce = some (r.startNonce + r.deployerTxs.getD (cfg.row i).count) ∧
    r.deployerTxs.getD (cfg.row i).count ≤ (cfg.row i).count ∧
      r.startNonce + r.deployerTxs.getD (cfg.row i).count ≤ nonce

theorem Exact.setStage (h : Exact cfg m nonce) (hready : Ready cfg m i r.startNonce) (hfair : Fair cfg i r nonce) :
    Exact cfg (m.setStage i r) nonce := by
  -- no row after this one has a record, since this one is not done
  have hlater : ∀ j < cfg.rows.length, ∀ r', m.stages j = some r' → j ≤ i := by
    intro j hj r' hr'
    by_contra hlt
    have hdone := (h.record j hj r' hr').1.1 i (by omega)
    rw [hready.undone] at hdone
    cases hdone
  constructor
  · intro j hj r' hr'
    by_cases hji : j = i
    · subst hji
      rw [stages_setStage_self] at hr'
      cases hr'
      refine ⟨hready.earlier.setStage le_rfl, ?_⟩
      rw [expectedStartNonce_setStage le_rfl]
      exact hready.start
    rw [stages_setStage_of_ne m r hji] at hr'
    obtain ⟨hearlier, hstart⟩ := h.record j hj r' hr'
    have hle := hlater j hj r' hr'
    refine ⟨hearlier.setStage hle, ?_⟩
    rw [expectedStartNonce_setStage hle]
    exact hstart
  · intro j r' hr' hstatus
    by_cases hji : j = i
    · subst hji
      rw [stages_setStage_self] at hr'
      cases hr'
      exact hfair.started hstatus
    rw [stages_setStage_of_ne m r hji] at hr'
    exact h.started j r' hr' hstatus
  · intro j hj r' hr' hdone
    by_cases hji : j = i
    · subst hji
      rw [effectiveCount_of_done hr' hdone]
      rw [stages_setStage_self] at hr'
      cases hr'
      exact hfair.done hdone
    rw [effectiveCount_setStage_of_ne hji]
    rw [stages_setStage_of_ne m r hji] at hr'
    exact h.done j hj r' hr' hdone
  · intro p hp
    obtain ⟨k, hk, hbefore, heq, hlt⟩ := h.proof p hp
    have hki : k ≤ i := by
      by_contra hlt
      have hdone := hbefore i (by omega)
      rw [hready.undone] at hdone
      cases hdone
    have hnonce : proofNonce cfg (m.setStage i r) k = proofNonce cfg m k := by
      rw [proofNonce, proofNonce, sumCounts_setStage hki]
      rfl
    refine ⟨k, hk, fun j hj => ?_, ?_, ?_⟩
    · rw [stages_setStage_of_ne m r (by omega)]
      exact hbefore j hj
    · rw [hnonce]
      exact heq
    · rw [hnonce]
      exact hlt
  · exact fun hzero hnone => absurd hnone (hready.base hzero)

private theorem Ready.setStage {startNonce : Nat} (h : Ready cfg m i startNonce) (hr : r.status = .started) :
    Ready cfg (m.setStage i r) i startNonce where
  lt := h.lt
  undone := by
    rw [stages_setStage_self, isDone, any_some, hr]
    rfl
  earlier := h.earlier.setStage le_rfl
  start := by
    rw [expectedStartNonce_setStage le_rfl]
    exact h.start
  base := h.base

private theorem Exact.setProof {k : Nat} (h : Exact cfg m nonce) (hk : cfg.proofAt = some k)
    (hbefore : ∀ j < k, isDone (m.stages j) = true) (hlt : proofNonce cfg m k < nonce) :
    Exact cfg { m with proof := some (some (proofNonce cfg m k)) } nonce where
  record i hi r hr := by
    obtain ⟨hearlier, hstart⟩ := h.record i hi r hr
    exact ⟨⟨hearlier.1, fun _ => rfl⟩, hstart⟩
  started := h.started
  done := h.done
  proof := by
    rintro p ⟨⟩
    exact ⟨k, hk, hbefore, rfl, hlt⟩
  base hzero hnone := by
    obtain ⟨hpos, hlen⟩ := cfg.proofAt_bounds k hk
    obtain ⟨r, hr, -⟩ := exists_record (hbefore 0 hpos)
    rw [(h.base hzero hnone).1 0 (by omega)] at hr
    cases hr

theorem Exact.setStart (h : Exact cfg m nonce) (hzero : cfg.fromZero = false) (hnone : m.deployerStartNonce = none)
    (n : Nat) : Exact cfg { m with deployerStartNonce := some n } nonce := by
  obtain ⟨hstages, hproof⟩ := h.base hzero hnone
  constructor
  · intro i hi r hr
    rw [show m.stages i = none from hstages i hi] at hr
    cases hr
  · exact h.started
  · intro i hi r hr
    rw [show m.stages i = none from hstages i hi] at hr
    cases hr
  · intro p hp
    rw [show m.proof = none from hproof] at hp
    cases hp
  · intro _ h
    cases h

end Records

section Requests

variable (cfg : DeployConfig)

def LedgerInv (w : LedgerWorld) : Prop := Exact cfg w.record w.nonce

/-- A part of a run keeps the ledger, and what it returns meets `post`. -/
abbrev Keeps {α : Type} (post : α → LedgerWorld → Prop) (x : Stage α) (w : LedgerWorld) : Prop :=
  SafeOr ledgerHost (orderly cfg) (fun _ w' => LedgerInv cfg w') (LedgerInv cfg) post x w

/-- The world of a run that has the manifest `m` in memory. -/
def At (m : DeployManifest) (w : LedgerWorld) : Prop := w.record = m ∧ Exact cfg m w.nonce

def Steady (F : LedgerWorld → Prop) : Prop := ∀ w e, F w → F (w.interfere e)

variable {cfg} {w : LedgerWorld} {F G : LedgerWorld → Prop} {q : DeployRequest} {m : DeployManifest} {n : Nat}

private theorem At.inv (h : At cfg m w) : LedgerInv cfg w := by
  unfold LedgerInv
  rw [h.1]
  exact h.2

private theorem nonce_interfere (w : LedgerWorld) (e : LedgerEvent) : w.nonce ≤ (w.interfere e).nonce := by
  cases e with
  | stray =>
    change w.sent.length ≤ (w.sent ++ [DeployTx.stray]).length
    rw [length_append]
    omega
  | otherProof => exact le_rfl

private theorem record_interfere (w : LedgerWorld) (e : LedgerEvent) : (w.interfere e).record = w.record := by
  cases e <;> rfl

private theorem steady_at (m : DeployManifest) : Steady (At cfg m) := by
  rintro w e ⟨hrecord, hexact⟩
  exact ⟨(record_interfere w e).trans hrecord, hexact.mono (nonce_interfere w e)⟩

private theorem steady_nonce (n : Nat) : Steady fun w => n ≤ w.nonce := fun w e h => h.trans (nonce_interfere w e)

private theorem Steady.and (hF : Steady F) (hG : Steady G) : Steady fun w => F w ∧ G w :=
  fun w e h => ⟨hF w e h.1, hG w e h.2⟩

private theorem keeps_ask {post : Content q → LedgerWorld → Prop} (hF : Steady F) (hw : F w)
    (hnext : ∀ v r, F v → Orderly cfg v q → LedgerInv cfg (v.next q r))
    (hpost : ∀ v r a, F v → Orderly cfg v q → v.reply q r = .ok a → post a (v.next q r)) :
    Keeps cfg post (ask q) w := by
  intro v hreach r hr
  have hv : F v := hreach.invariant (fun v e hv _ => hF v e hv) hw
  refine ⟨hnext v r hv hr, ?_⟩
  change (Program.done (v.reply q r) : Program DeployRequest Answer (Answer q)).Safe ledgerHost _ _ _ (v.next q r)
  cases hreply : v.reply q r with
  | ok a => exact hpost v r a hv hr hreply
  | error e => exact hnext v r hv hr

private theorem keeps_read {post : Content q → LedgerWorld → Prop} (hF : Steady F) (hw : F w)
    (hinv : ∀ v, F v → LedgerInv cfg v)
    (hq : ∀ v r, LedgerWorld.next v q r = v) (hpost : ∀ v r a, F v → Orderly cfg v q → v.reply q r = .ok a → post a v) :
    Keeps cfg post (ask q) w := by
  refine keeps_ask hF hw (fun v r hv _ => ?_) fun v r a hv horderly hreply => ?_
  · rw [hq]
    exact hinv v hv
  · rw [hq]
    exact hpost v r a hv horderly hreply

private theorem keeps_require (hF : Steady F) (hw : F w) (hinv : ∀ v, F v → LedgerInv cfg v)
    (hq : ∀ v r, LedgerWorld.next v q r = v) : Keeps cfg (fun _ v => F v) (require q) w :=
  SafeOr.bind (keeps_read hF hw hinv hq fun _ _ _ hv _ _ => hv) fun _ _ hv => SafeOr.pure hv

private theorem of_answer {α : Type} {r : LedgerReply} {a b : α} (h : LedgerWorld.answer r a = .ok b) :
    r.ok = true ∧ a = b := by
  unfold LedgerWorld.answer at h
  split_ifs at h with hok
  cases h
  exact ⟨hok, rfl⟩

private theorem keeps_deployerNonce (hF : Steady F) (hw : F w) (hinv : ∀ v, F v → LedgerInv cfg v) (read : NonceRead) :
    Keeps cfg (fun n v => F v ∧ n ≤ v.nonce) (deployerNonce read) w := by
  refine keeps_read hF hw hinv (fun _ _ => rfl) fun v r n hv _ hreply => ?_
  obtain ⟨-, rfl⟩ := of_answer hreply
  exact ⟨hv, le_rfl⟩

private theorem keeps_outExists (hF : Steady F) (hw : F w) (hinv : ∀ v, F v → LedgerInv cfg v) (i : Nat) :
    Keeps cfg (fun _ v => F v) (outExists i) w :=
  keeps_read hF hw hinv (fun _ _ => rfl) fun _ _ _ hv _ _ => hv

private theorem At.send (h : At cfg m w) (txs : List DeployTx) : At cfg m (w.send txs) := by
  refine ⟨h.1, h.2.mono ?_⟩
  change w.sent.length ≤ (w.sent ++ txs).length
  rw [length_append]
  omega

private theorem nonce_send (w : LedgerWorld) (txs : List DeployTx) : (w.send txs).nonce = w.nonce + txs.length :=
  length_append

/-- The world of a run that has the manifest `m` in memory and has seen the nonce `n`. -/
def Running (cfg : DeployConfig) (m : DeployManifest) (n : Nat) (w : LedgerWorld) : Prop := At cfg m w ∧ n ≤ w.nonce

private theorem steady_running (m : DeployManifest) (n : Nat) : Steady (Running cfg m n) :=
  (steady_at m).and (steady_nonce n)

private theorem running_inv (v : LedgerWorld) (h : Running cfg m n v) : LedgerInv cfg v := h.1.inv

private theorem Running.require (h : Running cfg m n w) (hq : ∀ v r, LedgerWorld.next v q r = v) :
    Keeps cfg (fun _ v => Running cfg m n v) (require q) w :=
  keeps_require (steady_running m n) h running_inv hq

private theorem Running.deployerNonce (h : Running cfg m n w) (read : NonceRead) :
    Keeps cfg (fun k v => Running cfg m n v ∧ k ≤ v.nonce) (deployerNonce read) w :=
  keeps_deployerNonce (steady_running m n) h running_inv read

private theorem Running.send (h : Running cfg m n w) (txs : List DeployTx) : Running cfg m n (w.send txs) := by
  refine ⟨h.1.send txs, h.2.trans ?_⟩
  rw [nonce_send]
  omega

private theorem keeps_saveRunManifest (hF : Steady F) (hw : F w) (hinv : ∀ v, F v → LedgerInv cfg v)
    (hexact : ∀ v, F v → Exact cfg m v.nonce ∧ n ≤ v.nonce) :
    Keeps cfg (fun _ v => Running cfg m n v) (saveRunManifest m) w := by
  have hask : Keeps cfg (fun _ v => Running cfg m n v) (ask (.saveRunManifest m)) w := by
    refine keeps_ask hF hw (fun v r hv _ => ?_) fun v r a hv _ hreply => ?_
    · rw [LedgerWorld.next]
      split_ifs
      · exact (hexact v hv).1
      · exact hinv v hv
    · rw [LedgerWorld.next]
      split_ifs with hok
      · exact ⟨⟨rfl, (hexact v hv).1⟩, (hexact v hv).2⟩
      · exact absurd (of_answer hreply).1 hok
  exact .bind hask fun _ _ hv => SafeOr.pure hv

end Requests

section Stages

variable {cfg : DeployConfig} {w : LedgerWorld} {m : DeployManifest} {i startNonce : Nat} {r : StageRecord}

/-- The other rows are as before. -/
structure OtherRows (i : Nat) (m m' : DeployManifest) : Prop where
  stages : ∀ j, j ≠ i → m'.stages j = m.stages j
  proof : m'.proof = m.proof

theorem OtherRows.refl (i : Nat) (m : DeployManifest) : OtherRows i m m := ⟨fun _ _ => rfl, rfl⟩

theorem OtherRows.trans {m₁ m₂ m₃ : DeployManifest} (h : OtherRows i m₁ m₂) (h' : OtherRows i m₂ m₃) :
    OtherRows i m₁ m₃ :=
  ⟨fun j hj => (h'.stages j hj).trans (h.stages j hj), h'.proof.trans h.proof⟩

theorem otherRows_setStage (m : DeployManifest) (i : Nat) (r : StageRecord) : OtherRows i m (m.setStage i r) :=
  ⟨fun _ hj => stages_setStage_of_ne m r hj, rfl⟩

private theorem keeps_saveStage (hready : Ready cfg m i r.startNonce) {n : Nat} (hw : Running cfg m n w)
    (hfair : ∀ v : LedgerWorld, n ≤ v.nonce → Fair cfg i r v.nonce) :
    Keeps cfg (fun _ v => Running cfg (m.setStage i r) n v) (saveRunManifest (m.setStage i r)) w := by
  refine keeps_saveRunManifest (steady_running m n) hw running_inv fun v hv => ?_
  exact ⟨hv.1.2.setStage hready (hfair v hv.2), hv.2⟩

private theorem fair_started {nonce : Nat} (hstatus : r.status = .started) (htxs : r.deployerTxs = none) :
    Fair cfg i r nonce := by
  refine ⟨fun _ => htxs, fun hdone => ?_⟩
  rw [hstatus] at hdone
  cases hdone

private theorem keeps_adoptLibsStage (hready : Ready cfg m i startNonce) (hw : Running cfg m startNonce w) :
    Keeps cfg (fun m' v => At cfg m' v ∧ OtherRows i m m') (adoptLibsStage cfg i startNonce m) w := by
  refine .bind (hw.require fun _ _ => rfl) fun _ v hv => ?_
  refine .bind (hv.deployerNonce _) ?_
  rintro nonce v ⟨hv, hnonce⟩
  split_ifs with hbad
  · exact .throw hv.1.inv
  · have hsent : nonce = startNonce ∨ nonce = startNonce + (cfg.row i).count := by
      by_contra hnot
      exact hbad ⟨fun h => hnot (.inl h), fun h => hnot (.inr h)⟩
    have hfair : ∀ v : LedgerWorld, nonce ≤ v.nonce →
        Fair cfg i ⟨.done, startNonce, some nonce, false, some (nonce - startNonce)⟩ v.nonce := by
      refine fun v hle => ⟨(fun h => nomatch h), fun _ => ?_⟩
      have hend : startNonce + (nonce - startNonce) = nonce := by omega
      exact ⟨congrArg some hend.symm, by rw [getD_some]; omega, hend.trans_le hle⟩
    refine .bind (keeps_saveStage hready ⟨hv.1, hnonce⟩ hfair) fun _ v hv => ?_
    exact .pure ⟨hv.1, otherRows_setStage m i _⟩

def Simulated (cfg : DeployConfig) (m : DeployManifest) (i startNonce : Nat) (simulated : DeployManifest ⊕ Simulation)
    (w : LedgerWorld) : Prop :=
  match simulated with
  | .inl m' => At cfg m' w ∧ OtherRows i m m'
  | .inr sim => Running cfg m startNonce w ∧ sim.planned + sim.adoptable = (cfg.row i).count

private theorem keeps_simulateStage (hready : Ready cfg m i startNonce) (hw : Running cfg m startNonce w) :
    Keeps cfg (Simulated cfg m i startNonce) (simulateStage cfg i startNonce m) w := by
  have hsimulate : Keeps cfg (fun _ v => Running cfg m startNonce v) (ask (.simulate i)) w :=
    keeps_read (steady_running m _) hw running_inv (fun _ _ => rfl) fun _ _ _ hv _ _ => hv
  refine .bind hsimulate fun sim v hv => ?_
  dsimp only
  by_cases hplanned : sim.planned = 0
  · rw [if_pos hplanned]
    split_ifs
    · exact .bind (keeps_adoptLibsStage hready hv) fun m' v hv => SafeOr.pure hv
    · exact .throw hv.1.inv
  rw [if_neg hplanned]
  generalize (if (cfg.row i).count ≤ sim.planned ∨ (cfg.row i).kind = .libs then 0 else sim.adoptable) = adopted
  split_ifs with hcount
  · exact .throw hv.1.inv
  · refine .bind (hv.require fun _ _ => rfl) fun _ v hv => ?_
    exact .pure ⟨hv, not_not.1 hcount⟩

variable {resuming resume : Bool} {nonce0 : Nat}

private theorem keeps_checkCounts {F : LedgerWorld → Prop} {sim : Simulation} {sent nonce1 : Nat} (hw : F w)
    (hinv : LedgerInv cfg w) (hsim : sim.planned + sim.adoptable = (cfg.row i).count) :
    Keeps cfg (fun txs v => F v ∧ nonce1 = startNonce + txs.getD (cfg.row i).count ∧
      txs.getD (cfg.row i).count ≤ (cfg.row i).count) (checkCounts cfg i startNonce resuming sim sent nonce1) w := by
  unfold checkCounts
  dsimp only
  split_ifs with hadopted hbad hresuming hbad hbad
  · exact .throw hinv
  · refine .pure ⟨hw, ?_, le_rfl⟩
    by_contra hne
    exact hbad (.inr hne)
  · exact .throw hinv
  · refine .pure ⟨hw, ?_⟩
    rw [getD_some]
    omega
  · exact .throw hinv
  · refine .pure ⟨hw, ?_⟩
    rw [getD_some]
    omega

private theorem keeps_readAfterWrite {n target nonce1 : Nat} (hw : Running cfg m n w) (hnonce : nonce1 ≤ w.nonce) :
    Keeps cfg (fun nonce1 v => Running cfg m n v ∧ nonce1 ≤ v.nonce) (readAfterWrite i target nonce1) w := by
  unfold readAfterWrite
  split_ifs
  · refine .bind (hw.deployerNonce _) ?_
    rintro nonce1 v ⟨hv, hnonce⟩
    split_ifs
    · exact .throw hv.1.inv
    · exact .pure ⟨hv, hnonce⟩
  · exact .pure ⟨hw, hnonce⟩

theorem keeps_broadcastStage {sim : Simulation} (hready : Ready cfg m i startNonce) (hw : Running cfg m startNonce w)
    (hsim : sim.planned + sim.adoptable = (cfg.row i).count) :
    Keeps cfg (fun m' v => At cfg m' v ∧ OtherRows i m m') (broadcastStage cfg i startNonce resuming sim m) w := by
  have hbroadcast : Keeps cfg (fun _ v => Running cfg m startNonce v) (require (.broadcast i resuming)) w := by
    have hask : Keeps cfg (fun _ v => Running cfg m startNonce v) (ask (.broadcast i resuming)) w :=
      keeps_ask (steady_running m _) hw (fun v r hv _ => running_inv _ (hv.send _)) fun v r a hv _ _ => hv.send _
    exact .bind hask fun _ _ hv => SafeOr.pure hv
  refine .bind hbroadcast fun _ v hv => ?_
  refine .bind (hv.deployerNonce _) ?_
  rintro nonce1 v ⟨hv, hnonce⟩
  have hcount : Keeps cfg (fun _ v => Running cfg m startNonce v ∧ nonce1 ≤ v.nonce) (ask (.readTxCount i)) v :=
    keeps_read ((steady_running m _).and (steady_nonce nonce1)) ⟨hv, hnonce⟩ (fun v hv => running_inv v hv.1)
      (fun _ _ => rfl) fun _ _ _ hv _ _ => hv
  refine .bind hcount ?_
  rintro sent v ⟨hv, hnonce⟩
  refine .bind (keeps_readAfterWrite hv hnonce) ?_
  rintro nonce1 v ⟨hv, hnonce⟩
  have hrun : Running cfg m nonce1 v := ⟨hv.1, hnonce⟩
  refine .bind (keeps_checkCounts hrun (running_inv v hv) hsim) ?_
  rintro txs v ⟨hv, hend, hle⟩
  refine .bind (keeps_outExists (steady_running m _) hv running_inv i) fun written v hv => ?_
  split_ifs
  · exact .throw hv.1.inv
  · refine .bind (hv.require fun _ _ => rfl) fun _ v hv => ?_
    have hfair : ∀ v : LedgerWorld, nonce1 ≤ v.nonce →
        Fair cfg i ⟨.done, startNonce, some nonce1, false, txs⟩ v.nonce := by
      refine fun v hn => ⟨(fun h => nomatch h), fun _ => ⟨congrArg some hend, hle, ?_⟩⟩
      exact hend ▸ hn
    refine .bind (keeps_saveStage hready hv hfair) fun _ v hv => ?_
    exact .pure ⟨hv.1, otherRows_setStage m i _⟩

private theorem keeps_cleaning {α : Type} {post : α → LedgerWorld → Prop} {cleanup : Stage Unit} {body : Stage α}
    (hbody : Keeps cfg post body w) (hcleanup : ∀ v, LedgerInv cfg v → Keeps cfg (fun _ v =>
      LedgerInv cfg v) cleanup v) :
    Keeps cfg post (cleaning cleanup body) w := by
  refine Program.Safe.bind hbody fun out v hv => ?_
  cases out with
  | ok a => exact hv
  | error e =>
    refine .bind (hcleanup v hv) fun out v hv => ?_
    cases out with
    | ok a => exact hv
    | error e => exact hv

private theorem steady_inv : Steady (LedgerInv cfg) := by
  intro w e hw
  unfold LedgerInv
  rw [record_interfere]
  exact hw.mono (nonce_interfere w e)

theorem keeps_forgeStage {resuming kept : Bool} (hready : Ready cfg m i startNonce) (hw : Running cfg m startNonce w) :
    Keeps cfg (fun m' v => At cfg m' v ∧ OtherRows i m m') (forgeStage cfg i startNonce resuming kept m) w := by
  have hcleanup : ∀ v, LedgerInv cfg v → Keeps cfg (fun _ v => LedgerInv cfg v)
      (if resuming then (if kept then require (.restoreOut i) else pure ()) else require (.removeOut i)) v := by
    intro v hv
    split_ifs
    · exact keeps_require steady_inv hv (fun _ h => h) fun _ _ => rfl
    · exact .pure hv
    · exact keeps_require steady_inv hv (fun _ h => h) fun _ _ => rfl
  refine .bind (keeps_cleaning (keeps_simulateStage hready hw) hcleanup) fun simulated v hv => ?_
  cases simulated with
  | inl m' => exact .pure hv
  | inr sim =>
    obtain ⟨hv, hsim⟩ := hv
    have hstarted : (⟨.started, startNonce, none, false, none⟩ : StageRecord).status = .started := rfl
    have hfinish : ∀ v, Running cfg m startNonce v → Keeps cfg (fun m' v => At cfg m' v ∧ OtherRows i m m') (do
        require .checkBalance
        saveRunManifest (m.setStage i { status := .started, startNonce })
        require (.confirm i)
        broadcastStage cfg i startNonce resuming sim (m.setStage i { status := .started, startNonce })) v := by
      intro v hv
      refine .bind (hv.require fun _ _ => rfl) fun _ v hv => ?_
      refine .bind (keeps_saveStage hready hv fun _ _ => fair_started rfl rfl) fun _ v hv => ?_
      refine .bind (hv.require fun _ _ => rfl) fun _ v hv => ?_
      refine .mono (keeps_broadcastStage (hready.setStage hstarted) hv hsim) ?_
      rintro m' v ⟨hv, hother⟩
      exact ⟨hv, (otherRows_setStage m i _).trans hother⟩
    dsimp only
    split_ifs
    · exact .bind (hv.require fun _ _ => rfl) fun _ v hv => hfinish v hv
    · exact .bind (hv.require fun _ _ => rfl) fun _ v hv => hfinish v hv

theorem proofNoncesBefore_zero : proofNoncesBefore cfg 0 = 0 := by
  unfold proofNoncesBefore
  split
  · rename_i k hk
    rw [if_neg (by have := (cfg.proofAt_bounds k hk).1; omega)]
  · rfl

private theorem earlierDone_zero (m : DeployManifest) : EarlierDone cfg m 0 := by
  refine ⟨(fun j hj => absurd hj (Nat.not_lt_zero j)), fun h => ?_⟩
  rw [proofNoncesBefore_zero] at h
  cases h

/-- What `runStartNonce` returns: the start of the run, which is recorded; the manifest is new only for the first
row. -/
theorem keeps_runStartNonce (hw : Running cfg m nonce0 w) :
    Keeps cfg (fun started v => Running cfg started.2 nonce0 v ∧ started.1 = recordedStartNonce cfg started.2 ∧
      started.2.stages = m.stages ∧ started.2.proof = m.proof ∧ (i = 0 ∨ started.2 = m) ∧
      (cfg.fromZero = false → started.2.deployerStartNonce ≠ none)) (runStartNonce cfg i m nonce0) w := by
  have hinv := running_inv w hw
  unfold runStartNonce
  by_cases hzero : cfg.fromZero = true
  · rw [if_pos hzero]
    refine .pure ⟨hw, ?_, rfl, rfl, .inr rfl, fun h => ?_⟩
    · rw [recordedStartNonce, if_pos hzero]
    · rw [hzero] at h
      cases h
  rw [if_neg hzero]
  have hzero : cfg.fromZero = false := by simpa using hzero
  have hrecorded : ∀ n, m.deployerStartNonce = some n → Keeps cfg (fun started v =>
      Running cfg started.2 nonce0 v ∧ started.1 = recordedStartNonce cfg started.2 ∧
        started.2.stages = m.stages ∧ started.2.proof = m.proof ∧ (i = 0 ∨ started.2 = m) ∧
        (cfg.fromZero = false → started.2.deployerStartNonce ≠ none)) (pure (n, m)) w := by
    intro n hn
    refine .pure ⟨hw, ?_, rfl, rfl, .inr rfl, fun _ => ?_⟩
    · rw [recordedStartNonce, if_neg (by rw [hzero]; decide), hn]
      rfl
    · rw [hn]
      exact some_ne_none n
  cases hn : m.deployerStartNonce with
  | none =>
    dsimp only
    split_ifs with hlate
    · exact .throw hinv
    · have hi : i = 0 := by
        by_contra hne
        exact hlate (by simp [hne])
      have hsave := keeps_saveRunManifest (steady_running m nonce0) hw running_inv
        fun v hv => ⟨hv.1.2.setStart hzero hn nonce0, hv.2⟩
      refine .bind hsave fun _ v hv => ?_
      refine .pure ⟨hv, ?_, rfl, rfl, .inl hi, fun _ => some_ne_none nonce0⟩
      rw [recordedStartNonce, if_neg (by rw [hzero]; decide)]
      rfl
  | some n =>
    dsimp only
    cases m.stages 0 with
    | none | some first =>
      dsimp only
      split_ifs
      · exact .throw hinv
      · exact hrecorded n hn

private theorem otherRows_of_start {m' : DeployManifest} (hstages : m'.stages = m.stages)
    (hproof : m'.proof = m.proof) (i : Nat) :
    OtherRows i m m' :=
  ⟨fun j _ => congrFun hstages j, hproof⟩

theorem isStarted_iff {prior : Option StageRecord} :
    isStarted prior = true ↔ ∃ r, prior = some r ∧ r.status = .started := by
  cases prior with
  | none => exact ⟨fun h => (nomatch h), fun ⟨_, h, _⟩ => nomatch h⟩
  | some r =>
    constructor
    · exact fun h => ⟨r, rfl, of_decide_eq_true h⟩
    · rintro ⟨_, ⟨⟩, hr⟩
      exact decide_eq_true hr

theorem keeps_runForgeStage (hi : i < cfg.rows.length) (hundone : isDone (m.stages i) = false) (hw : At cfg m w) :
    Keeps cfg (fun m' v => At cfg m' v ∧ OtherRows i m m') (runForgeStage cfg resume i m) w := by
  have hsteady : Steady (At cfg m) := steady_at m
  unfold runForgeStage
  by_cases hgate : cfg.proofAt = some i ∧ m.proof.isNone
  · rw [if_pos hgate]
    exact .throw hw.inv
  rw [if_neg hgate]
  refine .bind (keeps_require hsteady hw (fun _ h => h.inv) fun _ _ => rfl) fun _ v hv => ?_
  have hread : Keeps cfg (fun nonce0 v => Running cfg m nonce0 v ∧
      (nonce0 = expectedStartNonce cfg m i (recordedStartNonce cfg m) → EarlierDone cfg m i))
      (deployerNonce (.start i)) v := by
    refine keeps_read hsteady hv (fun _ h => h.inv) (fun _ _ => rfl) fun v r n hv horderly hreply => ?_
    obtain ⟨-, rfl⟩ := of_answer hreply
    have horderly : v.nonce = expectedStartNonce cfg v.record i (recordedStartNonce cfg v.record) →
      EarlierDone cfg v.record i := horderly
    rw [hv.1] at horderly
    exact ⟨⟨hv, le_rfl⟩, horderly⟩
  refine .bind hread ?_
  rintro nonce0 v ⟨hv, horderly⟩
  refine .bind (keeps_runStartNonce hv) ?_
  rintro ⟨start, m'⟩ v ⟨hv, hstart, hstages, hproof, hsame, hbase⟩
  dsimp only at hv hstart hstages hproof hsame hbase ⊢
  subst hstart
  have hother : OtherRows i m m' := otherRows_of_start hstages hproof i
  have hearlier : nonce0 = expectedStartNonce cfg m' i (recordedStartNonce cfg m') → EarlierDone cfg m' i := by
    rcases hsame with rfl | rfl
    · exact fun _ => earlierDone_zero m'
    · exact horderly
  have hrecord : isStarted (m'.stages i) = true → EarlierDone cfg m' i ∧
      ((m'.stages i).map (·.startNonce)).getD nonce0 = expectedStartNonce cfg m' i (recordedStartNonce cfg m') := by
    intro hstarted
    obtain ⟨r, hr, -⟩ := isStarted_iff.1 hstarted
    obtain ⟨hearlier, hstart⟩ := hv.1.2.record i hi r hr
    rw [hr]
    exact ⟨hearlier, hstart⟩
  generalize hwant : expectedStartNonce cfg m' i (recordedStartNonce cfg m') = wantStart at hearlier hrecord ⊢
  generalize hresuming : (resume && isStarted (m'.stages i) && decide (wantStart < nonce0) &&
    decide (nonce0 ≤ wantStart + (cfg.row i).count)) = resuming
  by_cases houtside : adoptionOutside cfg m' = true
  · rw [if_pos houtside]
    exact .throw hv.1.inv
  rw [if_neg houtside]
  by_cases hnonce : nonce0 ≠ wantStart ∧ resuming = false
  · rw [if_pos hnonce]
    exact .throw hv.1.inv
  rw [if_neg hnonce]
  generalize hfrom : (if isStarted (m'.stages i) = true then ((m'.stages i).map (·.startNonce)).getD nonce0
    else nonce0) = startNonce
  -- the stage is fresh at the nonce it expects, or was started there
  have hplace : EarlierDone cfg m' i ∧ startNonce = wantStart ∧ wantStart ≤ nonce0 := by
    by_cases hstarted : isStarted (m'.stages i) = true
    · rw [if_pos hstarted] at hfrom
      obtain ⟨hearlier, hstart⟩ := hrecord hstarted
      refine ⟨hearlier, hfrom.symm.trans hstart, ?_⟩
      by_contra hlt
      refine hnonce ⟨by omega, ?_⟩
      rw [← hresuming, show decide (wantStart < nonce0) = false from decide_eq_false (by omega)]
      simp
    rw [if_neg hstarted] at hfrom
    have heq : nonce0 = wantStart := by
      by_contra hne
      refine hnonce ⟨hne, ?_⟩
      rw [← hresuming, show isStarted (m'.stages i) = false by simpa using hstarted]
      simp
    exact ⟨hearlier heq, hfrom.symm.trans heq, heq.ge⟩
  obtain ⟨hdone, rfl, hle⟩ := hplace
  have hready : Ready cfg m' i startNonce := by
    refine ⟨hi, ?_, hdone, hwant.symm, hbase⟩
    rw [hstages]
    exact hundone
  have hrun : Running cfg m' startNonce v := ⟨hv.1, hle.trans hv.2⟩
  refine .bind (keeps_outExists (steady_running m' _) hrun running_inv i) fun there v hv => ?_
  split_ifs
  · exact .throw hv.1.inv
  · refine .mono (keeps_forgeStage hready hv) ?_
    rintro m'' v ⟨hv, hother'⟩
    exact ⟨hv, hother.trans hother'⟩

theorem keeps_createSafe (hready : Ready cfg m i nonce0) (hw : Running cfg m nonce0 w) : Keeps cfg (fun m' v =>
      Running cfg m' nonce0 v ∧ Ready cfg m' i nonce0 ∧ OtherRows i m m') (createSafe i nonce0 m) w := by
  refine .bind (hw.require fun _ _ => rfl) fun _ v hv => ?_
  refine .bind (hv.deployerNonce _) ?_
  rintro nonce v ⟨hv, -⟩
  split_ifs
  · exact .throw hv.1.inv
  · refine .bind (hv.require fun _ _ => rfl) fun _ v hv => ?_
    refine .bind (keeps_saveStage hready hv fun _ _ => fair_started rfl rfl) fun _ v hv => ?_
    have hstarted : (⟨.started, nonce0, none, true, none⟩ : StageRecord).status = .started := rfl
    have hsteady : Steady (Running cfg (m.setStage i ⟨.started, nonce0, none, true, none⟩) nonce0) := steady_running _ _
    have hsend : Keeps cfg (fun _ v => Running cfg (m.setStage i ⟨.started, nonce0, none, true, none⟩) nonce0 v)
        (require (.sendSafe i)) v :=
      SafeOr.bind (keeps_ask hsteady hv (fun v r hv _ => running_inv _ (hv.send _)) fun v r a hv _ _ => hv.send _)
        fun _ _ hv => SafeOr.pure hv
    refine .bind hsend fun _ v hv => ?_
    refine .bind (keeps_require hsteady hv running_inv fun _ _ => rfl) fun _ v hv => ?_
    refine .bind (keeps_require hsteady hv running_inv fun _ _ => rfl) fun _ v hv => ?_
    refine .bind (keeps_deployerNonce hsteady hv running_inv _) ?_
    rintro after v ⟨hv, hafter⟩
    refine .bind (keeps_readAfterWrite hv hafter) ?_
    rintro after v ⟨hv, -⟩
    split_ifs
    · exact .throw hv.1.inv
    · exact .pure ⟨hv, hready.setStage hstarted, otherRows_setStage m i _⟩

private theorem keeps_runSafeStage_fresh {there : Bool} (hi : i < cfg.rows.length) (hsafe : i = 0)
    (hundone : isDone (m.stages i) = false) (hw : Running cfg m nonce0 w) :
    Keeps cfg (fun m' v => At cfg m' v ∧ OtherRows i m m') (runSafeStage.fresh cfg i m nonce0 there) w := by
  refine .bind (keeps_runStartNonce hw) ?_
  rintro ⟨start, m'⟩ v ⟨hv, hstart, hstages, hproof, -, hbase⟩
  dsimp only at hv hstart hstages hproof hbase ⊢
  subst hstart
  have hother : OtherRows i m m' := otherRows_of_start hstages hproof i
  have hexpected : ∀ m'' start, expectedStartNonce cfg m'' i start = start := by
    intro m'' start
    rw [hsafe, expectedStartNonce, proofNoncesBefore_zero]
    rfl
  rw [hexpected]
  split_ifs with hnonce hthere
  · exact .throw hv.1.inv
  · exact .throw hv.1.inv
  · have hready : Ready cfg m' i nonce0 := by
      refine ⟨hi, ?_, ?_, ?_, hbase⟩
      · rw [hstages]
        exact hundone
      · rw [hsafe]
        exact earlierDone_zero m'
      · rw [hexpected]
        exact not_not.1 hnonce
    refine .bind (keeps_createSafe hready hv) ?_
    rintro m'' v ⟨hv, hready, hother'⟩
    refine .bind (hv.require fun _ _ => rfl) fun _ v hv => ?_
    refine .bind (hv.deployerNonce _) ?_
    rintro last v ⟨hv, hlast⟩
    split_ifs with hbad
    · exact .throw hv.1.inv
    · have hend : last = nonce0 + (cfg.row i).count := not_not.1 hbad
      have hfair : ∀ v : LedgerWorld, last ≤ v.nonce → Fair cfg i ⟨.done, nonce0, some last, true, none⟩ v.nonce :=
        fun v hle => ⟨(by rintro ⟨⟩), fun _ => ⟨congrArg some hend, le_rfl, hend ▸ hle⟩⟩
      refine .bind (keeps_saveStage hready ⟨hv.1, hlast⟩ hfair) fun _ v hv => ?_
      exact .pure ⟨hv.1, (hother.trans hother').trans (otherRows_setStage m'' i _)⟩

private theorem keeps_runSafeStage (hi : i < cfg.rows.length) (hsafe : i = 0) (hundone : isDone (m.stages i) = false)
    (hw : At cfg m w) : Keeps cfg (fun m' v => At cfg m' v ∧ OtherRows i m m') (runSafeStage cfg resume i m) w := by
  refine .bind (keeps_deployerNonce (steady_at m) hw (fun _ h => h.inv) _) ?_
  rintro nonce0 v hv
  refine .bind (keeps_outExists (steady_running m nonce0) hv running_inv i) fun there v hv => ?_
  have hfresh := @keeps_runSafeStage_fresh cfg v m i nonce0 there hi hsafe hundone hv
  cases hprior : m.stages i with
  | none => exact hfresh
  | some prior =>
    dsimp only
    split_ifs
    · refine .bind (hv.require fun _ _ => rfl) fun _ v hv => ?_
      refine .bind (hv.require fun _ _ => rfl) fun _ v hv => ?_
      refine .bind (hv.require fun _ _ => rfl) fun _ v hv => ?_
      have hread : Keeps cfg (fun last v => Running cfg m last v ∧ last = prior.startNonce + (cfg.row i).count)
          (deployerNonce (.adopted i)) v := by
        refine keeps_read (steady_running m nonce0) hv running_inv (fun _ _ => rfl) fun v r n hv horderly hreply => ?_
        obtain ⟨-, rfl⟩ := of_answer hreply
        have horderly : (v.record.stages i).any (fun r => v.nonce = r.startNonce + (cfg.row i).count) = true := horderly
        rw [hv.1.1, hprior] at horderly
        exact ⟨⟨hv.1, le_rfl⟩, of_decide_eq_true horderly⟩
      refine .bind hread ?_
      rintro last v ⟨hv, hend⟩
      obtain ⟨hearlier, hstart⟩ := hv.1.2.record i hi prior hprior
      have hready : Ready cfg m i ({ prior with status := .done, endNonce := some last } : StageRecord).startNonce := by
        refine ⟨hi, hundone, hearlier, hstart, fun hzero hnone => ?_⟩
        rw [(hv.1.2.base hzero hnone).1 i hi] at hprior
        cases hprior
      have hstatus : prior.status = .started := by
        rw [hprior] at hundone
        cases hs : prior.status with
        | started => rfl
        | done => exact absurd hs (of_decide_eq_false hundone)
      have htxs := hv.1.2.started i prior hprior hstatus
      have hfair : ∀ v : LedgerWorld, last ≤ v.nonce →
          Fair cfg i { prior with status := .done, endNonce := some last } v.nonce := by
        refine fun v hle => ⟨(fun h => nomatch h), fun _ => ?_⟩
        rw [show ({ prior with status := .done, endNonce := some last } : StageRecord).deployerTxs = none from htxs,
          getD_none]
        exact ⟨congrArg some hend, le_rfl, hend ▸ hle⟩
      refine .bind (keeps_saveStage hready hv hfair) fun _ v hv => ?_
      exact .pure ⟨hv.1, otherRows_setStage m i _⟩
    · exact hfresh

def Proven (cfg : DeployConfig) (m : DeployManifest) (p : Option Nat) (w : LedgerWorld) : Prop :=
  ∃ k, cfg.proofAt = some k ∧ (∀ j < k, isDone (m.stages j) = true) ∧ p = some (proofNonce cfg m k) ∧
    Running cfg m (proofNonce cfg m k + 1) w

private theorem keeps_saveProof {p : Option Nat} (hw : Proven cfg m p w) :
    Keeps cfg (fun _ v => At cfg { m with proof := some p } v) (saveRunManifest { m with proof := some p }) w := by
  obtain ⟨k, hk, hbefore, rfl, hw⟩ := hw
  have hexact : ∀ v, Running cfg m (proofNonce cfg m k + 1) v →
      Exact cfg { m with proof := some (some (proofNonce cfg m k)) } v.nonce ∧ 0 ≤ v.nonce :=
    fun v hv => ⟨hv.1.2.setProof hk hbefore hv.2, Nat.zero_le _⟩
  exact .mono (keeps_saveRunManifest (steady_running m _) hw running_inv hexact) fun _ _ hv => hv.1

theorem keeps_sendProof (hw : At cfg m w) : Keeps cfg (fun n v => Proven cfg m (some n) v) (ask .sendProof) w := by
  refine keeps_ask (steady_at m) hw (fun v r hv _ => ?_) fun v r n hv horderly hreply => ?_
  · rw [LedgerWorld.next]
    split_ifs
    · exact hv.inv
    · exact (hv.send _).inv
  · obtain ⟨hsome, hbefore, hnonce⟩ := horderly
    obtain ⟨k, hk⟩ := isSome_iff_exists.1 hsome
    rw [BeforeProof, hv.1, hk] at hbefore
    rw [hv.1, hk] at hnonce
    rw [LedgerWorld.reply] at hreply
    split_ifs at hreply with hmined
    obtain ⟨-, rfl⟩ := of_answer hreply
    rw [LedgerWorld.next, if_neg hmined]
    refine ⟨k, hk, hbefore, congrArg some hnonce, hv.send _, ?_⟩
    rw [nonce_send, hnonce]
    exact le_rfl

private theorem keeps_landedProof (hw : At cfg m w) : Keeps cfg (fun p v => Proven cfg m p v) (ask .landedProof) w := by
  refine keeps_read (steady_at m) hw (fun _ h => h.inv) (fun _ _ => rfl) fun v r p hv horderly hreply => ?_
  obtain ⟨hsome, hbefore, hlanded⟩ := horderly
  obtain ⟨k, hk⟩ := isSome_iff_exists.1 hsome
  rw [BeforeProof, hv.1, hk] at hbefore
  rw [hv.1, hk] at hlanded
  rw [LedgerWorld.reply, hlanded] at hreply
  obtain ⟨-, rfl⟩ := of_answer hreply
  refine ⟨k, hk, hbefore, rfl, hv, ?_⟩
  unfold LedgerWorld.landed at hlanded
  split_ifs at hlanded with hmem
  · have hlt : v.sent.idxOf .proof < v.sent.length := idxOf_lt_length_of_mem hmem
    rw [some.inj (some.inj hlanded)] at hlt
    exact hlt
  · cases some.inj hlanded

private theorem keeps_runProveControl (hw : At cfg m w) :
    Keeps cfg (fun m' v => At cfg m' v ∧ m'.stages = m.stages) (runProveControl resume m) w := by
  refine .bind (keeps_require (steady_at m) hw (fun _ h => h.inv) fun _ _ => rfl) fun _ v hv => ?_
  have hnonce : Keeps cfg (fun _ v => At cfg m v) (ask .safeNonce) v :=
    keeps_read (steady_at m) hv (fun _ h => h.inv) (fun _ _ => rfl) fun _ _ _ hv _ _ => hv
  refine .bind hnonce fun nonce v hv => ?_
  split_ifs
  · refine .bind (keeps_require (steady_at m) hv (fun _ h => h.inv) fun _ _ => rfl) fun _ v hv => ?_
    refine .bind (keeps_sendProof hv) fun sent v hv => ?_
    exact .bind (keeps_saveProof hv) fun _ v hv => SafeOr.pure ⟨hv, rfl⟩
  · exact .throw hv.inv
  · refine .bind (keeps_landedProof hv) fun landed v hv => ?_
    exact .bind (keeps_saveProof hv) fun _ v hv => SafeOr.pure ⟨hv, rfl⟩

/-- The rows that are still to run: each once, none of them done, unless `--resume` skips it. -/
def ToRun (cfg : DeployConfig) (resume : Bool) (rows : List RowName) (m : DeployManifest) : Prop :=
  rows.Nodup ∧ ∀ i, RowName.stage i ∈ rows → i < cfg.rows.length ∧ (resume = false → isDone (m.stages i) = false)

private theorem keeps_runRows {rows : List RowName} (hrows : ToRun cfg resume rows m) (hw : At cfg m w) :
    Keeps cfg (fun m' v => At cfg m' v) (runRows cfg resume rows m) w := by
  induction rows generalizing m w with
  | nil => exact .pure hw
  | cons row rest ih =>
    obtain ⟨hnodup, hopen⟩ := hrows
    obtain ⟨hfresh, hnodup⟩ := nodup_cons.1 hnodup
    -- the rows after this one are as they were
    have hrest : ∀ m' : DeployManifest, (∀ i, RowName.stage i ∈ rest → m'.stages i = m.stages i) →
        ToRun cfg resume rest m' := by
      refine fun m' hm' => ⟨hnodup, fun i hi => ?_⟩
      rw [hm' i hi]
      exact hopen i (mem_cons_of_mem _ hi)
    cases row with
    | proveControl =>
      rw [runRows]
      split_ifs
      · exact ih (hrest m fun _ _ => rfl) hw
      · refine .bind (keeps_runProveControl hw) ?_
        rintro m' v ⟨hv, hstages⟩
        exact ih (hrest m' fun i _ => congrFun hstages i) hv
    | stage i =>
      obtain ⟨hi, hundone⟩ := hopen i mem_cons_self
      rw [runRows]
      by_cases hskip : (resume && isDone (m.stages i)) = true
      · rw [if_pos hskip]
        exact ih (hrest m fun _ _ => rfl) hw
      rw [if_neg hskip]
      have hundone : isDone (m.stages i) = false := by
        cases resume with
        | false => exact hundone rfl
        | true => simpa using hskip
      have hnext : ∀ m' v, At cfg m' v ∧ OtherRows i m m' → Keeps cfg (fun m' v => At cfg m' v)
          (runRows cfg resume rest m') v := by
        rintro m' v ⟨hv, hother⟩
        refine ih (hrest m' fun j hj => hother.stages j ?_) hv
        rintro rfl
        exact hfresh hj
      split_ifs with hkind
      · have hzero : i = 0 := by
          refine cfg.safe_first i (cfg.row i) ?_ hkind
          rw [DeployConfig.row, getD_eq_getElem?_getD, getElem?_eq_getElem hi]
          rfl
        exact .bind (keeps_runSafeStage hi hzero hundone hw) hnext
      · exact .bind (keeps_runForgeStage hi hundone hw) hnext

theorem nodup_table (cfg : DeployConfig) : cfg.table.Nodup := by
  have hstages : ((range cfg.rows.length).map RowName.stage).Nodup :=
    nodup_range.map fun _ _ h => RowName.stage.inj h
  have hnot : RowName.proveControl ∉ (range cfg.rows.length).map RowName.stage := by
    intro h
    obtain ⟨i, -, hi⟩ := mem_map.1 h
    cases hi
  unfold DeployConfig.table
  dsimp only
  cases cfg.proofAt with
  | none => exact hstages
  | some k =>
    refine nodup_middle.2 (nodup_cons.2 ?_)
    rw [take_append_drop]
    exact ⟨hnot, hstages⟩

private theorem lt_of_mem_table (h : RowName.stage i ∈ cfg.table) : i < cfg.rows.length := by
  have hmem : RowName.stage i ∈ (range cfg.rows.length).map RowName.stage := by
    unfold DeployConfig.table at h
    dsimp only at h
    cases hk : cfg.proofAt with
    | none =>
      rw [hk] at h
      exact h
    | some k =>
      rw [hk] at h
      rcases mem_append.1 h with h | h
      · exact mem_of_mem_take h
      rcases mem_cons.1 h with h | h
      · cases h
      · exact mem_of_mem_drop h
  obtain ⟨j, hj, hij⟩ := mem_map.1 hmem
  cases hij
  exact mem_range.1 hj

theorem toRun_table (named : RowName → Bool) (hm : resume = false → hasStages cfg m = false) :
    ToRun cfg resume (cfg.table.filter named) m := by
  refine ⟨(nodup_table cfg).filter _, fun i hi => ?_⟩
  have hlt := lt_of_mem_table (mem_filter.1 hi).1
  refine ⟨hlt, fun hresume => ?_⟩
  have hnone := hm hresume
  unfold hasStages at hnone
  have hrow := any_eq_false.1 (Bool.or_eq_false_iff.1 hnone).2 i (mem_range.2 hlt)
  cases hr : m.stages i with
  | none => rfl
  | some r =>
    rw [hr] at hrow
    exact absurd rfl hrow

private theorem safe_publish (cfg : DeployConfig) (w : LedgerWorld) (hw : LedgerInv cfg w) :
    (publish cfg).Safe ledgerHost (orderly cfg) (fun _ w' => LedgerInv cfg w') (fun _ _ => True) w := by
  refine .bind (?_ : Keeps cfg (fun _ _ => True) _ w) fun _ _ _ => trivial
  have hoptions : Keeps cfg (fun _ v => LedgerInv cfg v) (ask .options) w :=
    keeps_read steady_inv hw (fun _ h => h) (fun _ _ => rfl) fun _ _ _ hv _ _ => hv
  refine .bind hoptions fun o v hv => ?_
  have hload : Keeps cfg (fun loaded v => At cfg (loaded.getD {}) v) (ask .loadRunManifest) v := by
    refine keeps_read steady_inv hv (fun _ h => h) (fun _ _ => rfl) fun v r loaded hv _ hreply => ?_
    obtain ⟨-, rfl⟩ := of_answer hreply
    exact ⟨rfl, hv⟩
  refine .bind hload fun loaded v hv => ?_
  cases loaded with
  | none =>
    refine .bind (keeps_runRows (toRun_table o.2 fun _ => ?_) hv) fun _ _ _ => SafeOr.pure trivial
    exact Bool.or_eq_false_iff.2 ⟨rfl, any_eq_false.2 fun _ _ h => nomatch h⟩
  | some m =>
    dsimp only
    split_ifs with hrefuse
    · exact .throw hv.inv
    · refine .bind (keeps_runRows (toRun_table o.2 fun hresume => ?_) hv) fun _ _ _ => SafeOr.pure trivial
      by_contra hstages
      exact hrefuse ⟨hresume, by simpa using hstages⟩

/-- Along every run of `publish contracts`, stopped and resumed at any point, whose adoptions of a Safe, whose stages
and whose proof of control come where they should, the records are exact in every state. -/
theorem ledger_exact (cfg : DeployConfig) (sent : List DeployTx) {actions : List (Action LedgerReply LedgerEvent)}
    {s : Process DeployRequest Answer LedgerWorld}
    (hs : s = run (ledgerHost.machine (publish cfg)) ⟨⟨sent, none, false⟩, publish cfg⟩ actions)
    (hrun : Along (ledgerHost.machine (publish cfg)) (fun s a => a.Meets (orderly cfg) s)
      ⟨⟨sent, none, false⟩, publish cfg⟩ actions) :
    LedgerExact cfg s.world.record s.world.nonce := by
  have hok : s.Ok ledgerHost (orderly cfg) (fun _ w' => LedgerInv cfg w') (LedgerInv cfg) := by
    rw [hs]
    refine safe_run (fun w hw => safe_publish cfg w hw) (fun w e hw _ => steady_inv w e hw) (fun _ h => h)
      (fun _ _ _ h => h) ?_ hrun
    exact exact_empty _
  exact hok.1.ledgerExact

end Stages

def safeAndHandover : DeployConfig where
  rows := [⟨.safe, 1⟩, ⟨.forge, 2⟩]
  proofAt := some 1
  fromZero := true
  rows_ne := by decide
  safe_first := by
    intro i row hrow hkind
    cases i with
    | zero => rfl
    | succ i =>
      cases i with
      | zero =>
        cases hrow
        cases hkind
      | succ i => cases hrow
  proofAt_bounds := by
    rintro k ⟨⟩
    decide

def untilCreated : List (Action LedgerReply LedgerEvent) :=
  List.replicate 8 (.reply {}) ++ [.reply { mined := 1 }, .restart]

def thenStray : List (Action LedgerReply LedgerEvent) := untilCreated ++ .event .stray :: List.replicate 9 (.reply {})

def thenAll : List (Action LedgerReply LedgerEvent) :=
  untilCreated ++ List.replicate 12 (.reply {}) ++ .reply { mined := 1 } :: List.replicate 4 (.reply {}) ++
    List.replicate 12 (.reply { mined := 2, sim := ⟨2, 0⟩, there := true })

def twoStages (actions : List (Action LedgerReply LedgerEvent)) : Process DeployRequest Answer LedgerWorld :=
  run (ledgerHost.machine (publish safeAndHandover)) ⟨⟨[], none, false⟩, publish safeAndHandover⟩ actions

theorem ledger_exact_two_stages :
    finalNonceCheck safeAndHandover (twoStages thenAll).world.record (twoStages thenAll).world.nonce = some true ∧
      LedgerExact safeAndHandover (twoStages thenAll).world.record (twoStages thenAll).world.nonce :=
  ⟨by decide +kernel, ledger_exact safeAndHandover [] rfl (by decide +kernel)⟩

/-- The record of the Safe has two nonces, and its frozen count is one. -/
theorem stray_in_adopted_safe :
    ¬∀ (cfg : DeployConfig) (sent : List DeployTx) (actions : List (Action LedgerReply LedgerEvent))
    (s : Process DeployRequest Answer LedgerWorld),
    s = run (ledgerHost.machine (publish cfg)) ⟨⟨sent, none, false⟩, publish cfg⟩ actions →
      LedgerExact cfg s.world.record s.world.nonce := by
  intro h
  have hexact := h safeAndHandover [] thenStray (twoStages thenStray) rfl
  have hrecord : (twoStages thenStray).world.record.stages 0 = some ⟨.done, 0, some 2, true, none⟩ := by decide +kernel
  obtain ⟨-, hend, -⟩ := hexact.stages 0 (by decide) _ hrecord rfl
  exact absurd hend (by decide)

end RobotMoney.Publish.Deploy
