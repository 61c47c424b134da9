import RobotMoney.Publish.Deploy

/-!
# The ledger of the deployer's nonces

Runs of `publish contracts` stop at any point and are resumed, the deployer sends other transactions in between, and
someone else may execute the control proof.  What is recorded of the stages is compared here with the nonces that the
deployer has used.

A stage that is recorded done starts at the nonce that the counts give and ends after as many transactions as they say,
because each stage compares the two before it is recorded (`Exact`).  Three places compare nothing: the adoption of a
Safe that exists, the order in which the rows are run, and the proof of control.
-/

open Effect List

namespace RobotMoney.Publish.Deploy

open Evm

/-- The transactions of the deployer. -/
inductive DeployTx where
  | stage (i : Nat)
  | proof
  | stray
  deriving DecidableEq, Repr

/-- What the deployer has sent, in the order of the nonces, and the run manifest. -/
structure LedgerWorld where
  sent : List DeployTx
  manifest : Option DeployManifest
  /-- The proof was executed through another account. -/
  otherProof : Bool

/-- What the environment chooses of an answer. -/
structure LedgerReply where
  ok : Bool := true
  options : Bool × (RowName → Bool) := (true, fun _ => true)
  there : Bool := false
  sim : Simulation := ⟨0, 0⟩
  /-- How many transactions of the stage a broadcast mines, or whether the one that is sent is mined. -/
  mined : Nat := 0
  safeNonce : Nat := 0

inductive LedgerEvent where
  /-- The deployer sends a transaction of its own. -/
  | stray
  | otherProof

namespace LedgerWorld

def nonce (w : LedgerWorld) : Nat := w.sent.length

def record (w : LedgerWorld) : DeployManifest := w.manifest.getD {}

def landed (w : LedgerWorld) : Option (Option Nat) :=
  if .proof ∈ w.sent then some (some (w.sent.idxOf .proof)) else if w.otherProof then some none else none

def safeNonce (w : LedgerWorld) (r : LedgerReply) : Nat := if w.landed.isSome then max 1 r.safeNonce else r.safeNonce

def send (w : LedgerWorld) (txs : List DeployTx) : LedgerWorld := { w with sent := w.sent ++ txs }

def answer {α : Type} (r : LedgerReply) (a : α) : Except DeployError α := if r.ok then .ok a else .error .tool

def next (w : LedgerWorld) : DeployRequest → LedgerReply → LedgerWorld
  | .saveRunManifest m, r => if r.ok then { w with manifest := some m } else w
  | .broadcast i _, r => w.send (replicate r.mined (.stage i))
  | .sendSafe i, r => w.send (replicate (min r.mined 1) (.stage i))
  | .sendProof, r => if r.mined = 0 then w else w.send [.proof]
  | _, _ => w

def reply (w : LedgerWorld) : (q : DeployRequest) → LedgerReply → Answer q
  | .options, r => answer r r.options
  | .loadRunManifest, r => answer r w.manifest
  | .saveRunManifest _, r => answer r ()
  | .deployerNonce _, r => answer r w.nonce
  | .gate _, r => answer r ()
  | .outExists _, r => answer r r.there
  | .removeOut _, r => answer r ()
  | .restoreOut _, r => answer r ()
  | .writeOut _, r => answer r ()
  | .simulate _, r => answer r r.sim
  | .checkSimulation _, r => answer r ()
  | .checkBalance, r => answer r ()
  | .confirm _, r => answer r ()
  | .broadcast _ _, r => answer r ()
  | .readTxCount i, r => answer r (w.sent.count (.stage i))
  | .checkOut _, r => answer r ()
  | .planSafe, r => answer r ()
  | .sendSafe _, r => if r.mined = 0 then .error .safe else answer r ()
  | .connectSafe, r => if .stage 0 ∈ w.sent then answer r () else .error .safe
  | .verifyCreatedSafe, r => answer r ()
  | .safeNonce, r => answer r (w.safeNonce r)
  | .signProof, r => answer r ()
  | .sendProof, r => if r.mined = 0 then .error .safe else answer r w.nonce
  | .landedProof, r =>
    match w.landed with
    | some p => answer r p
    | none => .error .control

def interfere (w : LedgerWorld) : LedgerEvent → LedgerWorld
  | .stray => w.send [.stray]
  | .otherProof => { w with otherProof := true }

end LedgerWorld

def ledgerHost : Host DeployRequest Answer LedgerWorld LedgerReply LedgerEvent where
  perform w q r := (w.next q r, w.reply q r)
  interfere := LedgerWorld.interfere
  restart w := w

section Ledger

variable (cfg : DeployConfig)

def EarlierDone (m : DeployManifest) (i : Nat) : Prop :=
  (∀ j < i, isDone (m.stages j) = true) ∧ (proofNoncesBefore cfg i = 1 → m.proof.isSome)

def proofNonce (m : DeployManifest) (k : Nat) : Nat := recordedStartNonce cfg m + sumCounts cfg m k

/-- The requests at which a run goes on without a comparison of its own. -/
inductive Unchecked where
  | adopted (i : Nat)
  | start (i : Nat)
  | sendProof
  | landedProof

def DeployRequest.unchecked : DeployRequest → Option Unchecked
  | .deployerNonce (.adopted i) => some (.adopted i)
  | .deployerNonce (.start i) => some (.start i)
  | .sendProof => some .sendProof
  | .landedProof => some .landedProof
  | _ => none

def BeforeProof (m : DeployManifest) : Prop := ∀ j < cfg.proofAt.getD 0, isDone (m.stages j) = true

/-- A Safe is adopted when the deployer has sent the frozen count since the stage started; a stage that finds the nonce
it expects has every row before it recorded done; and so has the control proof, which is the deployer's next transaction
after them. -/
def Unchecked.Holds (w : LedgerWorld) : Unchecked → Prop
  | .adopted i => (w.record.stages i).any (fun r => w.nonce = r.startNonce + (cfg.row i).count) = true
  | .start i =>
    w.nonce = expectedStartNonce cfg w.record i (recordedStartNonce cfg w.record) → EarlierDone cfg w.record i
  | .sendProof => cfg.proofAt.isSome ∧ BeforeProof cfg w.record ∧ w.nonce = proofNonce cfg w.record (cfg.proofAt.getD 0)
  | .landedProof => cfg.proofAt.isSome ∧ BeforeProof cfg w.record ∧
      w.landed = some (some (proofNonce cfg w.record (cfg.proofAt.getD 0)))

def Orderly (w : LedgerWorld) (q : DeployRequest) : Prop := q.unchecked.elim True (Unchecked.Holds cfg w)

instance decidableEarlierDone (m : DeployManifest) (i : Nat) : Decidable (EarlierDone cfg m i) :=
  inferInstanceAs (Decidable (_ ∧ _))

instance decidableBeforeProof (m : DeployManifest) : Decidable (BeforeProof cfg m) :=
  inferInstanceAs (Decidable (∀ j < cfg.proofAt.getD 0, isDone (m.stages j) = true))

instance decidableUnchecked (w : LedgerWorld) : (u : Unchecked) → Decidable (u.Holds cfg w)
  | .adopted _ => inferInstanceAs (Decidable (_ = true))
  | .start _ => inferInstanceAs (Decidable (_ → _))
  | .sendProof => inferInstanceAs (Decidable (_ ∧ _ ∧ _))
  | .landedProof => inferInstanceAs (Decidable (_ ∧ _ ∧ _))

instance decidableOrderly (w : LedgerWorld) (q : DeployRequest) : Decidable (Orderly cfg w q) :=
  decideUnchecked q.unchecked
where
  decideUnchecked : (u : Option Unchecked) → Decidable (u.elim True (Unchecked.Holds cfg w))
    | none => isTrue trivial
    | some u => decidableUnchecked cfg w u

def orderly : Rely DeployRequest LedgerWorld LedgerReply LedgerEvent where
  event _ _ := True
  reply w q _ := Orderly cfg w q

instance decidableOrderlyEvent (w : LedgerWorld) (e : LedgerEvent) : Decidable ((orderly cfg).event w e) :=
  isTrue trivial

instance decidableOrderlyReply (w : LedgerWorld) (q : DeployRequest) (r : LedgerReply) :
    Decidable ((orderly cfg).reply w q r) :=
  decidableOrderly cfg w q

def interval (m : DeployManifest) (i : Nat) : Option (Nat × Nat) :=
  match m.stages i with
  | some r => if r.status = .done then r.endNonce.map fun last => (r.startNonce, last) else none
  | none => none

def pieces (m : DeployManifest) : List (Nat × Nat) :=
  (range cfg.rows.length).filterMap (interval m) ++ ((m.proof.bind id).map fun n => (n, n + 1)).toList

def Covered (m : DeployManifest) (n : Nat) : Prop := ∃ p ∈ pieces cfg m, p.1 ≤ n ∧ n < p.2

/-- The pieces tile the nonces from a start on. -/
structure Tiles (start : Nat) (m : DeployManifest) : Prop where
  above : ∀ n, Covered cfg m n → start ≤ n
  no_gap : ∀ n n', Covered cfg m n → start ≤ n' → n' < n → Covered cfg m n'
  no_overlap : (pieces cfg m).Pairwise fun p q => p.2 ≤ q.1 ∨ q.2 ≤ p.1

/-- What a manifest says is what the deployer has sent. -/
structure LedgerExact (m : DeployManifest) (nonce : Nat) : Prop where
  stages : ∀ i < cfg.rows.length, ∀ r, m.stages i = some r → r.status = .done →
    r.startNonce = expectedStartNonce cfg m i (recordedStartNonce cfg m) ∧
      r.endNonce = some (r.startNonce + r.deployerTxs.getD (cfg.row i).count) ∧
      r.deployerTxs.getD (cfg.row i).count ≤ (cfg.row i).count
  tiles : Tiles cfg (recordedStartNonce cfg m) m
  final : ∀ passes, finalNonceCheck cfg m nonce = some passes →
    (passes = true ↔ ∀ n, recordedStartNonce cfg m ≤ n → n < nonce → Covered cfg m n)

/-- The invariant: the records of a manifest and the nonce of the deployer. -/
structure Exact (m : DeployManifest) (nonce : Nat) : Prop where
  record : ∀ i < cfg.rows.length, ∀ r, m.stages i = some r →
    EarlierDone cfg m i ∧ r.startNonce = expectedStartNonce cfg m i (recordedStartNonce cfg m)
  started : ∀ i r, m.stages i = some r → r.status = .started → r.deployerTxs = none
  done : ∀ i < cfg.rows.length, ∀ r, m.stages i = some r → r.status = .done →
    r.endNonce = some (r.startNonce + effectiveCount cfg m i) ∧ effectiveCount cfg m i ≤ (cfg.row i).count ∧
      r.startNonce + effectiveCount cfg m i ≤ nonce
  proof : ∀ p, m.proof = some p → ∃ k, cfg.proofAt = some k ∧ (∀ j < k, isDone (m.stages j) = true) ∧
    p = some (proofNonce cfg m k) ∧ proofNonce cfg m k < nonce
  base : cfg.fromZero = false → m.deployerStartNonce = none → (∀ i < cfg.rows.length, m.stages i = none) ∧
    m.proof = none

variable {cfg}

theorem Exact.mono {m : DeployManifest} {n n' : Nat} (h : Exact cfg m n) (hn : n ≤ n') : Exact cfg m n' where
  record := h.record
  started := h.started
  done i hi r hr hdone := by
    obtain ⟨hend, hle, hnonce⟩ := h.done i hi r hr hdone
    exact ⟨hend, hle, hnonce.trans hn⟩
  proof p hp := by
    obtain ⟨k, hk, hbefore, heq, hlt⟩ := h.proof p hp
    exact ⟨k, hk, hbefore, heq, hlt.trans_le hn⟩
  base := h.base

theorem exact_empty (n : Nat) : Exact cfg {} n where
  record _ _ _ h := nomatch h
  started _ _ h := nomatch h
  done _ _ _ h := nomatch h
  proof _ h := nomatch h
  base _ _ := ⟨fun _ _ => rfl, rfl⟩

section Tiling

variable {m : DeployManifest} {nonce : Nat}

private theorem sumCounts_succ (m : DeployManifest) (i : Nat) :
    sumCounts cfg m (i + 1) = sumCounts cfg m i + effectiveCount cfg m i := by
  rw [sumCounts, range_succ, map_append, sum_append]
  simp [sumCounts]

private theorem sumCounts_mono {i j : Nat} (h : i ≤ j) : sumCounts cfg m i ≤ sumCounts cfg m j := by
  induction j, h using Nat.le_induction with
  | base => exact le_rfl
  | succ j _ ih =>
    rw [sumCounts_succ]
    omega

theorem exists_record {i : Nat} (h : isDone (m.stages i) = true) : ∃ r, m.stages i = some r ∧ r.status = .done := by
  cases hr : m.stages i with
  | none =>
    rw [hr] at h
    cases h
  | some r =>
    rw [hr] at h
    exact ⟨r, rfl, of_decide_eq_true h⟩

theorem effectiveCount_of_done {i : Nat} {r : StageRecord} (hr : m.stages i = some r) (hdone : r.status = .done) :
    effectiveCount cfg m i = r.deployerTxs.getD (cfg.row i).count := by
  unfold effectiveCount adoptedTxs
  rw [hr]
  dsimp only
  rw [if_pos hdone]

/-- Where row `i` ends, when it is done. -/
def endOf (cfg : DeployConfig) (m : DeployManifest) (i : Nat) : Nat :=
  recordedStartNonce cfg m + sumCounts cfg m (i + 1) + proofNoncesBefore cfg i

section

variable (h : Exact cfg m nonce)

include h

theorem Exact.interval_eq {i : Nat} (hi : i < cfg.rows.length) {p : Nat × Nat} (hp : interval m i = some p) :
    isDone (m.stages i) = true ∧ p = (expectedStartNonce cfg m i (recordedStartNonce cfg m), endOf cfg m i) := by
  unfold interval at hp
  cases hr : m.stages i with
  | none =>
    rw [hr] at hp
    cases hp
  | some r =>
    rw [hr] at hp
    dsimp only at hp
    split_ifs at hp with hdone
    obtain ⟨hend, -, -⟩ := h.done i hi r hr hdone
    have hstart := (h.record i hi r hr).2
    rw [hend] at hp
    cases hp
    refine ⟨decide_eq_true hdone, ?_⟩
    rw [hstart, endOf, sumCounts_succ, expectedStartNonce]
    congr 1
    omega

theorem Exact.interval_of_done {i : Nat} (hi : i < cfg.rows.length) (hdone : isDone (m.stages i) = true) :
    interval m i = some (expectedStartNonce cfg m i (recordedStartNonce cfg m), endOf cfg m i) := by
  obtain ⟨r, hr, hdone⟩ := exists_record hdone
  obtain ⟨hend, -, -⟩ := h.done i hi r hr hdone
  have hp : interval m i = some (r.startNonce, r.startNonce + effectiveCount cfg m i) := by
    unfold interval
    rw [hr]
    dsimp only
    rw [if_pos hdone, hend]
    rfl
  rw [(h.interval_eq hi hp).2] at hp
  exact hp

theorem Exact.mem_pieces {p : Nat × Nat} (hp : p ∈ pieces cfg m) : (∃ i < cfg.rows.length, isDone (m.stages i) = true ∧
      p = (expectedStartNonce cfg m i (recordedStartNonce cfg m), endOf cfg m i)) ∨
    ∃ k, cfg.proofAt = some k ∧ (∀ j < k, isDone (m.stages j) = true) ∧ m.proof.isSome ∧
      p = (proofNonce cfg m k, proofNonce cfg m k + 1) := by
  rcases mem_append.1 hp with hp | hp
  · obtain ⟨i, hi, hp⟩ := mem_filterMap.1 hp
    have hi := mem_range.1 hi
    exact .inl ⟨i, hi, h.interval_eq hi hp⟩
  cases hproof : m.proof with
  | none =>
    rw [hproof] at hp
    cases hp
  | some q =>
    obtain ⟨k, hk, hbefore, rfl, -⟩ := h.proof q hproof
    rw [hproof] at hp
    exact .inr ⟨k, hk, hbefore, rfl, mem_singleton.1 hp⟩

private theorem Exact.covered_row {i n : Nat} (hi : i < cfg.rows.length)
    (hdone : isDone (m.stages i) = true) (hle : expectedStartNonce cfg m i (recordedStartNonce cfg m) ≤ n)
    (hlt : n < endOf cfg m i) : Covered cfg m n := by
  refine ⟨_, mem_append_left _
    (mem_filterMap.2 ⟨i, mem_range.2 hi, h.interval_of_done hi hdone⟩), hle, hlt⟩

private theorem Exact.covered_proof {k : Nat} (hk : cfg.proofAt = some k) (hproof : m.proof.isSome) :
    Covered cfg m (proofNonce cfg m k) := by
  obtain ⟨q, hq⟩ := Option.isSome_iff_exists.1 hproof
  obtain ⟨k', hk', -, rfl, -⟩ := h.proof q hq
  obtain rfl : k' = k := Option.some.inj (hk'.symm.trans hk)
  refine ⟨(proofNonce cfg m k', proofNonce cfg m k' + 1), mem_append_right _ ?_, le_rfl, Nat.lt_succ_self _⟩
  rw [hq]
  exact mem_singleton_self _

end

private theorem proofNoncesBefore_mono {i j : Nat} (h : i ≤ j) : proofNoncesBefore cfg i ≤ proofNoncesBefore cfg j := by
  unfold proofNoncesBefore
  split
  · split_ifs <;> omega
  · exact le_rfl

/-- When the rows before `i` are done, the nonces before it are covered; the proof counts once the row after it is
done. -/
theorem Exact.covered_before (h : Exact cfg m nonce) {i : Nat} (hi : i ≤ cfg.rows.length)
    (hdone : ∀ j < i, isDone (m.stages j) = true) {n : Nat} (hstart : recordedStartNonce cfg m ≤ n)
    (hn : n < recordedStartNonce cfg m + sumCounts cfg m i + proofNoncesBefore cfg (i - 1)) : Covered cfg m n := by
  induction i with
  | zero =>
    have hzero : proofNoncesBefore cfg 0 = 0 := by
      unfold proofNoncesBefore
      split
      · rename_i k hk
        rw [if_neg (by have := (cfg.proofAt_bounds k hk).1; omega)]
      · rfl
    have hsum : sumCounts cfg m 0 = 0 := rfl
    have hpred : proofNoncesBefore cfg (0 - 1) = 0 := hzero
    omega
  | succ i ih =>
    have hlen : i < cfg.rows.length := hi
    have hrow := hdone i (Nat.lt_succ_self i)
    by_cases hprev : n < recordedStartNonce cfg m + sumCounts cfg m i + proofNoncesBefore cfg (i - 1)
    · exact ih (by omega) (fun j hj => hdone j (by omega)) hprev
    by_cases hown : expectedStartNonce cfg m i (recordedStartNonce cfg m) ≤ n
    · refine h.covered_row hlen hrow hown ?_
      exact hn
    -- the proof stands right before this row
    unfold expectedStartNonce at hown
    obtain ⟨k, hk, hki, hbefore⟩ : ∃ k, cfg.proofAt = some k ∧ k = i ∧ proofNoncesBefore cfg i = 1 := by
      unfold proofNoncesBefore at hprev hown ⊢
      cases hproof : cfg.proofAt with
      | none =>
        rw [hproof] at hprev hown
        dsimp only at hprev hown
        omega
      | some k =>
        rw [hproof] at hprev hown
        dsimp only at hprev hown ⊢
        have hpos := (cfg.proofAt_bounds k hproof).1
        refine ⟨k, rfl, ?_, ?_⟩
        · split_ifs at hprev hown <;> omega
        · split_ifs at hprev hown ⊢ <;> omega
    obtain ⟨r, hr, -⟩ := exists_record hrow
    have hproof := (h.record i hlen r hr).1.2 hbefore
    have heq : n = proofNonce cfg m k := by
      rw [proofNonce, hki]
      omega
    rw [heq]
    exact h.covered_proof hk hproof

private theorem Exact.tiles (h : Exact cfg m nonce) : Tiles cfg (recordedStartNonce cfg m) m where
  above := by
    rintro n ⟨p, hp, hle, -⟩
    rcases h.mem_pieces hp with ⟨i, -, -, rfl⟩ | ⟨k, -, -, -, rfl⟩
    · rw [expectedStartNonce] at hle
      omega
    rw [proofNonce] at hle
    omega
  no_gap := by
    rintro n n' ⟨p, hp, -, hlt⟩ hstart hn'
    rcases h.mem_pieces hp with ⟨i, hi, hdone, rfl⟩ | ⟨k, hk, hbefore, -, rfl⟩
    · obtain ⟨r, hr, -⟩ := exists_record hdone
      have hearlier := (h.record i hi r hr).1.1
      refine h.covered_before (Nat.succ_le_of_lt hi) (fun j hj => ?_) hstart (hn'.trans hlt)
      rcases Nat.lt_succ_iff_lt_or_eq.1 hj with hj | rfl
      · exact hearlier j hj
      · exact hdone
    have hlt : n < proofNonce cfg m k + 1 := hlt
    rw [proofNonce] at hlt
    exact h.covered_before (cfg.proofAt_bounds k hk).2.le hbefore hstart (by omega)
  no_overlap := by
    have hmono : ∀ {i j : Nat}, i < j → endOf cfg m i ≤ expectedStartNonce cfg m j (recordedStartNonce cfg m) := by
      intro i j hij
      have hsum : sumCounts cfg m (i + 1) ≤ sumCounts cfg m j := sumCounts_mono hij
      have hbefore : proofNoncesBefore cfg i ≤ proofNoncesBefore cfg j := proofNoncesBefore_mono hij.le
      rw [endOf, expectedStartNonce]
      omega
    refine pairwise_append.2 ⟨?_, ?_, ?_⟩
    · refine pairwise_filterMap.2 (pairwise_lt_range.imp_of_mem ?_)
      intro i j hi hj hij p hp q hq
      have hp := (h.interval_eq (mem_range.1 hi) hp).2
      have hq := (h.interval_eq (mem_range.1 hj) hq).2
      rw [hp, hq]
      exact .inl (hmono hij)
    · cases (m.proof.bind id).map fun n => (n, n + 1) with
      | none => exact List.Pairwise.nil
      | some p => exact pairwise_singleton _ _
    · intro p hp q hq
      obtain ⟨i, hi, hp⟩ := mem_filterMap.1 hp
      obtain ⟨-, rfl⟩ := h.interval_eq (mem_range.1 hi) hp
      cases hproof : m.proof with
      | none =>
        rw [hproof] at hq
        cases hq
      | some n =>
        obtain ⟨k, hk, -, rfl, -⟩ := h.proof n hproof
        rw [hproof] at hq
        obtain rfl := mem_singleton.1 hq
        by_cases hik : i < k
        · left
          have hnone : proofNoncesBefore cfg i = 0 := by
            unfold proofNoncesBefore
            rw [hk]
            exact if_neg (by omega)
          have hsum : sumCounts cfg m (i + 1) ≤ sumCounts cfg m k := sumCounts_mono hik
          change endOf cfg m i ≤ proofNonce cfg m k
          rw [endOf, proofNonce, hnone]
          omega
        right
        have hone : proofNoncesBefore cfg i = 1 := by
          unfold proofNoncesBefore
          rw [hk]
          exact if_pos (by omega)
        have hsum : sumCounts cfg m k ≤ sumCounts cfg m i := sumCounts_mono (by omega)
        change proofNonce cfg m k + 1 ≤ expectedStartNonce cfg m i _
        rw [expectedStartNonce, proofNonce, hone]
        omega

private theorem endOf_last (m : DeployManifest) : endOf cfg m (cfg.rows.length - 1) =
    recordedStartNonce cfg m + sumCounts cfg m cfg.rows.length + proofTxNonces cfg := by
  have hpos : 0 < cfg.rows.length := length_pos_of_ne_nil cfg.rows_ne
  have hproof : proofNoncesBefore cfg (cfg.rows.length - 1) = proofTxNonces cfg := by
    unfold proofNoncesBefore proofTxNonces
    cases hk : cfg.proofAt with
    | none => rfl
    | some k =>
      have := (cfg.proofAt_bounds k hk).2
      exact if_pos (by omega)
  rw [endOf, hproof, Nat.sub_add_cancel hpos]

theorem Exact.ledgerExact (h : Exact cfg m nonce) : LedgerExact cfg m nonce where
  stages i hi r hr hdone := by
    obtain ⟨hend, hle, -⟩ := h.done i hi r hr hdone
    rw [effectiveCount_of_done hr hdone] at hend hle
    exact ⟨(h.record i hi r hr).2, hend, hle⟩
  tiles := h.tiles
  final passes hpasses := by
    unfold finalNonceCheck at hpasses
    split_ifs at hpasses with hall
    cases hpasses
    have hdone : ∀ i < cfg.rows.length, isDone (m.stages i) = true :=
      fun i hi => all_eq_true.1 hall i (mem_range.2 hi)
    have hpos : 0 < cfg.rows.length := length_pos_of_ne_nil cfg.rows_ne
    have hlast : cfg.rows.length - 1 < cfg.rows.length := by omega
    rw [decide_eq_true_iff, ← endOf_last m]
    constructor
    · rintro rfl n hstart hn
      refine h.covered_before le_rfl (fun j hj => hdone j hj) hstart ?_
      rwa [endOf, Nat.sub_add_cancel hpos] at hn
    · intro hcovered
      have hreached : endOf cfg m (cfg.rows.length - 1) ≤ nonce := by
        obtain ⟨r, hr, hd⟩ := exists_record (hdone _ hlast)
        obtain ⟨-, -, hle⟩ := h.done _ hlast r hr hd
        rw [(h.record _ hlast r hr).2, expectedStartNonce] at hle
        rw [endOf, sumCounts_succ]
        omega
      by_contra hne
      -- the nonce after the last piece is not covered
      have hlt : endOf cfg m (cfg.rows.length - 1) < nonce := by omega
      have hstart : recordedStartNonce cfg m ≤ endOf cfg m (cfg.rows.length - 1) := by
        rw [endOf]
        omega
      obtain ⟨p, hp, -, hn⟩ := hcovered _ hstart hlt
      rcases h.mem_pieces hp with ⟨i, hi, -, rfl⟩ | ⟨k, hk, -, -, rfl⟩
      · have hsum : sumCounts cfg m (i + 1) ≤ sumCounts cfg m (cfg.rows.length - 1 + 1) := sumCounts_mono (by omega)
        have hbefore : proofNoncesBefore cfg i ≤ proofNoncesBefore cfg (cfg.rows.length - 1) :=
          proofNoncesBefore_mono (by omega)
        have hn : endOf cfg m (cfg.rows.length - 1) < endOf cfg m i := hn
        rw [endOf, endOf] at hn
        omega
      have hbound := (cfg.proofAt_bounds k hk).2
      have hone : proofTxNonces cfg = 1 := by
        unfold proofTxNonces
        rw [hk]
        rfl
      have hsum : sumCounts cfg m k ≤ sumCounts cfg m cfg.rows.length := sumCounts_mono hbound.le
      have hn : endOf cfg m (cfg.rows.length - 1) < proofNonce cfg m k + 1 := hn
      rw [endOf_last, hone, proofNonce] at hn
      omega

end Tiling

end Ledger

end RobotMoney.Publish.Deploy
