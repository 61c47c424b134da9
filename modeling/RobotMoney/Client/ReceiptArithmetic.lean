import Mathlib.Algebra.Order.Floor.Semifield
import RobotMoney.Client.ReceiptWeights

/-!
# The arithmetic of receipt validation

`from_json_slice` and `validate` again, with the 64-bit operations on the counts of a receipt checked as a debug build
checks them: an overflow or a division by zero is a panic.  Two of them can overflow, both before a count is bounded by
the signatures: the rounding in `participation_bps` and the sum of the stances (`ConsensusReceipt.Overflows`).  What is
accepted carries counts that are all derived from its signatures (`ConsensusReceipt.Derived`).
-/

namespace RobotMoney.Client

open Evm JsonText List

inductive ReceiptFault where
  | panic (p : Panic)
  | refused (e : ReceiptError)
  deriving DecidableEq, Repr

/-- A check without arithmetic. -/
def refuse {α : Type} (x : Except ReceiptError α) : Except ReceiptFault α := x.mapError .refused

/-- The result of a 64-bit operation. -/
def checked64 (n : Nat) : Except ReceiptFault Nat := if n < UInt64.size then .ok n else .error (.panic .arithmetic)

def checkedParticipationBps (submitted active : Nat) : Except ReceiptFault Nat :=
  if active = 0 then .ok 0
  else do
    let scaled ← checked64 (submitted * 10000)
    let rounded ← checked64 (scaled + active / 2)
    .ok (rounded / active % 2 ^ 32)

/-- The checks before those of the quorum. -/
def validateHead (r : ConsensusReceipt) : Except ReceiptError Unit := do
  revertIf (r.schemaVersion ≠ "1.0") (.schema "schema_version")
  revertIf (isLowercaseUuid r.sessionId = false) (.schema "session_id")
  revertIf (isSlug r.subjectId = false) (.schema "subject_id")
  revertIf (isSecondsPrecisionUtc r.createdAt = false) (.schema "created_at")
  revertIf (isHash32 r.promptHash = false) (.schema "prompt_hash")
  revertIf (isHash32 r.inputsDigest = false) (.schema "inputs_digest")

/-- The counts of the quorum, as far as no product is needed. -/
def validateCounts (q : Quorum) : Except ReceiptError Unit := do
  revertIf (q.active < 1) (.schema "quorum.active")
  revertIf (q.submitted < 1) (.schema "quorum.submitted")
  revertIf (q.submitted > q.active) (.schema "quorum.submitted")
  revertIf (q.absent.toNat ≠ q.active.toNat - q.submitted.toNat) (.schema "quorum.absent")

def validateJudge (r : ConsensusReceipt) : Except ReceiptError Unit := do
  revertIf (r.judge.rationale = "") (.schema "judge.rationale")
  r.judge.disagreements.forM validateDisagreement
  validateReleaseSafety r.quorum r.judge.releaseSafety
  revertIf (r.judge.source ≠ "model" ∧ r.judge.source ≠ "fallback") (.schema "judge.source")
  revertIf (r.judge.mode ≠ "shadow" ∧ r.judge.mode ≠ "enforce") (.schema "judge.mode")
  revertIf (r.judge.mode ≠ "enforce") (.schema "judge.mode")

def Stances.counts (s : Stances) : List Nat :=
  [s.bearish.toNat, s.cautious.toNat, s.neutral.toNat, s.constructive.toNat, s.bullish.toNat]

section Checks

variable (reader : JsonReader) (arith : WeightArithmetic)

/-- The entries, and the submissions they carry. -/
def validateCarried (r : ConsensusReceipt) : Except ReceiptError (List Value) := do
  revertIf (r.analystSignatures = []) (.schema "analyst_signatures")
  validateEntries r.analystSignatures []
  revertIf (r.analystSignatures.length ≠ r.quorum.submitted.toNat) (.schema "analyst_signatures")
  r.analystSignatures.mapM (submissionOf reader r.subjectId)

/-- The checks before the sum of the stances. -/
def checkBeforeStances (r : ConsensusReceipt) : Except ReceiptFault (List Value) := do
  refuse (validateHead r)
  refuse (validateCounts r.quorum)
  let expected ← checkedParticipationBps r.quorum.submitted.toNat r.quorum.active.toNat
  refuse (revertIf (r.quorum.participationBps.toNat ≠ expected) (.schema "quorum.participation_bps"))
  refuse (validateJudge r)
  refuse (validateCarried reader r)

/-- The sum is taken count by count, and a counter is raised for each submission. -/
def checkStances (q : Quorum) (s : Stances) (submissions : List Value) : Except ReceiptFault Unit := do
  let total ← s.counts.foldlM (fun total c => checked64 (total + c)) 0
  refuse (revertIf (total ≠ q.submitted.toNat) (.schema "stances"))
  let recomputed ← refuse (submissions.mapM stanceOf)
  s.counts.zipIdx.forM fun (c, k) => do
    let counter ← checked64 (recomputed.count k)
    refuse (revertIf (c ≠ counter) (.schema "stances"))

def ConsensusReceipt.check (r : ConsensusReceipt) : Except ReceiptFault Unit := do
  let submissions ← checkBeforeStances reader r
  checkStances r.quorum r.stances submissions
  refuse (validateAttributions r.judge r.analystSignatures)
  refuse (validateWeights arith r.weights submissions)

/-- The value that holds the receipt, and the bytes that an envelope publishes. -/
def locateReceipt (raw : String) : Except ReceiptError (Value × Option String) :=
  match reader.fromSlice raw with
  | none => .error .parse
  | some parsed =>
    if (parsed.get? "schema_version").isSome then .ok (parsed, none)
    else
      match parsed.get? "receipt" with
      | none => .ok (parsed, none)
      | some v =>
        if (v.get? "schema_version").isSome then
          match parsed.get? "canonicalBytes" with
          | some (.string published) => .ok (v, some published)
          | _ => .error .envelopeCanonicalBytesMissing
        else .ok (parsed, none)

/-- The bytes that an envelope publishes are those of its receipt. -/
def crossCheck (r : ConsensusReceipt) : Option String → Except ReceiptFault Unit
  | none => .ok ()
  | some published => do
    r.check reader arith
    refuse (revertIf (published ≠ domainSeparator ++ r.canonicalJson ++ "\n") .canonicalBytesMismatch)

/-- `from_json_slice`, then `validate`. -/
def acceptReceipt (raw : String) : Except ReceiptFault ConsensusReceipt := do
  let located ← refuse (locateReceipt reader raw)
  let r ← refuse (ConsensusReceipt.readReceipt located.1)
  crossCheck reader arith r located.2
  r.check reader arith
  .ok r

end Checks

/-- The counts for which an operation overflows, at a receipt that passes the checks before it. -/
def ConsensusReceipt.Overflows (reader : JsonReader) (r : ConsensusReceipt) : Prop :=
  (validateHead r = .ok () ∧ validateCounts r.quorum = .ok () ∧
      UInt64.size ≤ r.quorum.submitted.toNat * 10000 + r.quorum.active.toNat / 2) ∨
    ((∃ submissions, checkBeforeStances reader r = .ok submissions) ∧ UInt64.size ≤ r.stances.counts.sum)

/-- The stance of the submission that an entry carries. -/
def carriedStance (reader : JsonReader) (s : AnalystSignature) : Option String :=
  ((reader.fromSlice s.canonicalSubmission).bind (·.get? "stance")).bind Value.asString

/-- All that an accepted receipt says is derived from its signatures. -/
structure ConsensusReceipt.Derived (reader : JsonReader) (r : ConsensusReceipt) : Prop where
  active : 1 ≤ r.quorum.active.toNat
  participation : r.quorum.participationBps.toNat =
    ⌊(r.quorum.submitted.toNat : ℚ) / r.quorum.active.toNat * 10000 + 1 / 2⌋₊
  signatures : r.analystSignatures.length = r.quorum.submitted.toNat
  takes : r.judge.releaseSafety.takeCount = r.quorum.submitted
  total : r.stances.counts.sum = r.quorum.submitted.toNat
  stances : ∀ (k : Nat) (stance : String), receiptStanceKeys[k]? = some stance →
    r.stances.counts[k]? = some (r.analystSignatures.countP fun s => carriedStance reader s = some stance)
  carried : ∀ s ∈ r.analystSignatures, ∃ fields, reader.fromSlice s.canonicalSubmission = some (.object fields) ∧
    ((Value.object fields).get? "memberId").bind Value.asString = some s.memberId ∧
    ((Value.object fields).get? "subjectId").bind Value.asString = some r.subjectId
  members : (r.analystSignatures.map (·.memberId)).Nodup
  attributed : ∀ d ∈ r.judge.disagreements, ∀ p ∈ d.positions, p.memberId ∈ r.analystSignatures.map (·.memberId)
  thin : r.judge.releaseSafety.thinlySupported =
    decide (r.judge.releaseSafety.takeCount < r.judge.releaseSafety.minTakes)
  release : r.judge.releaseSafety.release = "safe" ↔
    r.judge.releaseSafety.thinlySupported = false ∧ r.judge.releaseSafety.concerns = []

section Faults

variable {α : Type} {x : Except ReceiptError α}

@[simp] theorem refuse_eq_ok {a : α} : refuse x = .ok a ↔ x = .ok a := mapError_eq_ok

@[simp] theorem refuse_ne_panic {p : Panic} : refuse x = .error (.panic p) ↔ False := by
  cases x <;> simp [refuse, Except.mapError]

@[simp] theorem checked64_eq_ok {n m : Nat} : checked64 n = .ok m ↔ n < UInt64.size ∧ n = m := by
  unfold checked64
  split <;> simp_all

@[simp] theorem checked64_eq_error {n : Nat} {e : ReceiptFault} :
    checked64 n = .error e ↔ UInt64.size ≤ n ∧ e = .panic .arithmetic := by
  unfold checked64
  split <;> simp_all [eq_comm]

private theorem checkedParticipationBps_eq {submitted active : Nat} (hactive : 1 ≤ active) :
    checkedParticipationBps submitted active =
      if submitted * 10000 + active / 2 < UInt64.size then .ok ((submitted * 10000 + active / 2) / active % 2 ^ 32)
      else .error (.panic .arithmetic) := by
  unfold checkedParticipationBps checked64
  rw [if_neg (by omega)]
  by_cases hscaled : submitted * 10000 < UInt64.size
  · rw [if_pos hscaled, ok_bind]
    split
    · rfl
    · rfl
  rw [if_neg hscaled, error_bind]
  exact (if_neg fun h => hscaled ((Nat.le_add_right _ _).trans_lt h)).symm

/-- The sum count by count overflows when the whole sum does. -/
theorem foldlM_checked64 {counts : List Nat} {start : Nat} (hstart : start < UInt64.size) :
    counts.foldlM (fun total c => checked64 (total + c)) start =
      if start + counts.sum < UInt64.size then .ok (start + counts.sum) else .error (.panic .arithmetic) := by
  induction counts generalizing start with
  | nil => exact (if_pos hstart).symm
  | cons c counts ih =>
    rw [foldlM_cons, sum_cons, ← Nat.add_assoc, checked64]
    by_cases hnext : start + c < UInt64.size
    · rw [if_pos hnext, ok_bind, ih hnext]
    · rw [if_neg hnext, if_neg (by omega), error_bind]

theorem forM_eq_ok {ε : Type} {f : α → Except ε Unit} {l : List α} : l.forM f = .ok () ↔ ∀ a ∈ l, f a = .ok () := by
  induction l with
  | nil => simp
  | cons a l ih =>
    rw [forM_eq_forM, forM_cons, bind_eq_ok, forall_mem_cons, ← ih]
    exact ⟨fun ⟨_, ha, hrest⟩ => ⟨ha, hrest⟩, fun ⟨ha, hrest⟩ => ⟨(), ha, hrest⟩⟩

private theorem forM_eq_error {ε : Type} {f : α → Except ε Unit} {l : List α} {e : ε} (h : l.forM f = .error e) :
    ∃ a ∈ l, f a = .error e := by
  induction l with
  | nil => cases h
  | cons a l ih =>
    rw [forM_eq_forM, forM_cons, bind_eq_error] at h
    rcases h with ha | ⟨_, -, hrest⟩
    · exact ⟨a, by simp, ha⟩
    obtain ⟨b, hb, hfail⟩ := ih hrest
    exact ⟨b, by simp [hb], hfail⟩

end Faults

section Check

variable {reader : JsonReader} {arith : WeightArithmetic} {r : ConsensusReceipt} {q : Quorum}

private theorem validateCounts_eq_ok :
    validateCounts q = .ok () ↔ 1 ≤ q.active.toNat ∧ 1 ≤ q.submitted.toNat ∧ q.submitted.toNat ≤ q.active.toNat ∧
      q.absent.toNat = q.active.toNat - q.submitted.toNat := by
  simp [validateCounts, bind_eq_ok, UInt64.lt_iff_toNat_lt, Nat.one_le_iff_ne_zero]

variable {submissions : List Value}

private theorem checkBeforeStances_eq_ok : checkBeforeStances reader r = .ok submissions ↔
      validateHead r = .ok () ∧ validateCounts r.quorum = .ok () ∧
        checkedParticipationBps r.quorum.submitted.toNat r.quorum.active.toNat = .ok r.quorum.participationBps.toNat ∧
        validateJudge r = .ok () ∧ validateCarried reader r = .ok submissions := by
  simp only [checkBeforeStances, bind_eq_ok, refuse_eq_ok, revertIf_eq_ok, ne_eq, not_not]
  constructor
  · rintro ⟨_, hhead, _, hcounts, bps, hbps, _, rfl, _, hjudge, hcarried⟩
    exact ⟨hhead, hcounts, hbps, hjudge, hcarried⟩
  · rintro ⟨hhead, hcounts, hbps, hjudge, hcarried⟩
    exact ⟨(), hhead, (), hcounts, _, hbps, (), rfl, (), hjudge, hcarried⟩

private theorem checkBeforeStances_panic {p : Panic} : checkBeforeStances reader r = .error (.panic p) ↔
      validateHead r = .ok () ∧ validateCounts r.quorum = .ok () ∧
        UInt64.size ≤ r.quorum.submitted.toNat * 10000 + r.quorum.active.toNat / 2 ∧ p = .arithmetic := by
  have hpanic (hcounts : validateCounts r.quorum = .ok ()) :
      checkedParticipationBps r.quorum.submitted.toNat r.quorum.active.toNat = .error (.panic p) ↔
        UInt64.size ≤ r.quorum.submitted.toNat * 10000 + r.quorum.active.toNat / 2 ∧ p = .arithmetic := by
    rw [checkedParticipationBps_eq (validateCounts_eq_ok.1 hcounts).1]
    split
    · simp [*]
    · simp [Nat.le_of_not_lt, *, eq_comm]
  simp only [checkBeforeStances, bind_eq_error, refuse_eq_ok, refuse_ne_panic, false_or, and_false,
    exists_const, or_false]
  constructor
  · rintro ⟨_, hhead, _, hcounts, h⟩
    exact ⟨hhead, hcounts, (hpanic hcounts).1 h⟩
  · rintro ⟨hhead, hcounts, h⟩
    exact ⟨(), hhead, (), hcounts, (hpanic hcounts).2 h⟩

private theorem validateCarried_eq_ok (h : validateCarried reader r = .ok submissions) :
    (r.analystSignatures.map (·.memberId)).Nodup ∧ r.analystSignatures.length = r.quorum.submitted.toNat ∧
      r.analystSignatures.mapM (submissionOf reader r.subjectId) = .ok submissions := by
  simp only [validateCarried, bind_eq_ok, revertIf_eq_ok, ne_eq, not_not] at h
  obtain ⟨_, -, _, hentries, _, hlength, hmap⟩ := h
  exact ⟨(validateEntries_eq_ok.1 hentries).2.1, hlength, hmap⟩

variable {subjectId : String}

private theorem object_of_submissionOf {s : AnalystSignature} {payload : Value}
    (h : submissionOf reader subjectId s = .ok payload) :
    ∃ fields, reader.fromSlice s.canonicalSubmission = some (.object fields) ∧
      ((Value.object fields).get? "memberId").bind Value.asString = some s.memberId ∧
      ((Value.object fields).get? "subjectId").bind Value.asString = some subjectId := by
  unfold submissionOf at h
  split at h
  · rename_i fields hread
    simp only [bind_eq_ok, revertIf_eq_ok, ne_eq, not_not] at h
    obtain ⟨_, hmember, _, hsubject, -⟩ := h
    exact ⟨fields, hread, hmember, hsubject⟩
  · cases h

private theorem stanceOf_eq_ok {payload : Value} {k : Nat} (h : stanceOf payload = .ok k) :
    ∃ stance, (payload.get? "stance").bind Value.asString = some stance ∧ receiptStanceKeys.idxOf? stance = some k := by
  unfold stanceOf at h
  split at h
  · rename_i j hj
    cases h
    exact Option.bind_eq_some_iff.1 hj
  · cases h

/-- A counter counts the entries that carry its stance. -/
theorem count_stances {l : List AnalystSignature}
    {recomputed : List Nat} (hmap : l.mapM (submissionOf reader subjectId) = .ok submissions)
    (hstances : submissions.mapM stanceOf = .ok recomputed) {k : Nat} {stance : String}
    (hk : receiptStanceKeys[k]? = some stance) :
    recomputed.count k = l.countP fun s => carriedStance reader s = some stance := by
  rw [mapM_eq_ok] at hmap hstances
  induction hmap generalizing recomputed with
  | nil =>
    cases hstances
    rfl
  | cons hpayload _ ih =>
    obtain ⟨j, rest, hj, hrest, rfl⟩ := forall₂_cons_left_iff.1 hstances
    obtain ⟨found, hfound, hindex⟩ := stanceOf_eq_ok hj
    have hsame : j = k ↔ found = stance := by
      have hnodup : receiptStanceKeys.Nodup := by decide
      obtain ⟨hlt, hget, -⟩ := idxOf?_eq_some_iff.1 hindex
      have hj : receiptStanceKeys[j]? = some found := (getElem?_eq_getElem hlt).trans (congrArg some hget)
      constructor
      · rintro rfl
        exact Option.some.inj (hj.symm.trans hk)
      · rintro rfl
        exact (getElem?_inj hlt hnodup).1 (hj.trans hk.symm)
    rw [count_cons, countP_cons, ih hrest, carriedStance, submissionOf_ok hpayload, Option.bind_some, hfound]
    simp [hsame]

private theorem checkStances_eq_ok {s : Stances} (h : checkStances q s submissions = .ok ()) :
    s.counts.sum = q.submitted.toNat ∧ ∃ recomputed, submissions.mapM stanceOf = .ok recomputed ∧
      ∀ k, k < 5 → s.counts[k]? = some (recomputed.count k) := by
  rw [checkStances, foldlM_checked64 (by decide), Nat.zero_add] at h
  split at h
  · simp only [ok_bind, bind_eq_ok, refuse_eq_ok, revertIf_eq_ok, ne_eq, not_not, forM_eq_ok, checked64_eq_ok] at h
    obtain ⟨_, htotal, recomputed, hmap, hcounts⟩ := h
    refine ⟨htotal, recomputed, hmap, fun k hk => ?_⟩
    have hlen : k < s.counts.length := hk
    obtain ⟨counter, ⟨-, rfl⟩, hcounter⟩ := hcounts (s.counts[k], k) (mem_zipIdx_iff_getElem?.2 (by simp [hlen]))
    exact (getElem?_eq_getElem hlen).trans (congrArg some hcounter)
  · cases h

/-- The sum is the only operation on the stances that can overflow, as there are no more submissions than a count can
tell. -/
theorem checkStances_panic {s : Stances} (hlength : submissions.length = q.submitted.toNat) :
    (∃ p, checkStances q s submissions = .error (.panic p)) ↔ UInt64.size ≤ s.counts.sum := by
  rw [checkStances, foldlM_checked64 (by decide), Nat.zero_add]
  by_cases hlt : s.counts.sum < UInt64.size
  · rw [if_pos hlt, ok_bind]
    refine iff_of_false ?_ (by omega)
    rintro ⟨p, h⟩
    simp only [bind_eq_error, refuse_ne_panic, refuse_eq_ok, false_or] at h
    obtain ⟨_, -, recomputed, hmap, hcounts⟩ := h
    obtain ⟨⟨c, k⟩, -, hfail⟩ := forM_eq_error hcounts
    simp only [bind_eq_error, checked64_eq_error, refuse_ne_panic, and_false, exists_const, or_false] at hfail
    have hcount := (count_le_length (a := k) (l := recomputed)).trans_eq (mapM_eq_ok.1 hmap).length_eq.symm
    have := q.submitted.toNat_lt_size
    omega
  rw [if_neg hlt, error_bind]
  exact iff_of_true ⟨_, rfl⟩ (by omega)

/-- A receipt panics validation exactly when its counts overflow. -/
theorem check_panic : (∃ p, r.check reader arith = .error (.panic p)) ↔ r.Overflows reader := by
  have hstep : ∀ p, r.check reader arith = .error (.panic p) ↔ checkBeforeStances reader r = .error (.panic p) ∨
      ∃ submissions, checkBeforeStances reader r = .ok submissions ∧
        checkStances r.quorum r.stances submissions = .error (.panic p) := by
    intro p
    simp only [ConsensusReceipt.check, bind_eq_error, refuse_ne_panic, and_false, exists_const, or_false]
  have hlength : ∀ submissions, checkBeforeStances reader r = .ok submissions →
      submissions.length = r.quorum.submitted.toNat := by
    intro submissions h
    obtain ⟨-, hlen, hmap⟩ := validateCarried_eq_ok (checkBeforeStances_eq_ok.1 h).2.2.2.2
    exact (mapM_eq_ok.1 hmap).length_eq.symm.trans hlen
  simp only [hstep, checkBeforeStances_panic]
  constructor
  · rintro ⟨p, ⟨hhead, hcounts, hle, -⟩ | ⟨submissions, hbefore, hpanic⟩⟩
    · exact .inl ⟨hhead, hcounts, hle⟩
    · exact .inr ⟨⟨submissions, hbefore⟩, (checkStances_panic (hlength _ hbefore)).1 ⟨p, hpanic⟩⟩
  · rintro (⟨hhead, hcounts, hle⟩ | ⟨⟨submissions, hbefore⟩, hle⟩)
    · exact ⟨_, .inl ⟨hhead, hcounts, hle, rfl⟩⟩
    · obtain ⟨p, hpanic⟩ := (checkStances_panic (hlength _ hbefore)).2 hle
      exact ⟨p, .inr ⟨submissions, hbefore, hpanic⟩⟩

/-- Rounding half up, on the integers. -/
theorem participation_floor {submitted active : Nat} (hactive : 1 ≤ active) :
    (submitted * 10000 + active / 2) / active = ⌊(submitted : ℚ) / active * 10000 + 1 / 2⌋₊ := by
  have hne : (active : ℚ) ≠ 0 := by
    have : active ≠ 0 := by omega
    exact_mod_cast this
  have hratio : (submitted : ℚ) / active * 10000 + 1 / 2 =
      ((submitted * 20000 + active : Nat) : ℚ) / ((2 * active : Nat) : ℚ) := by
    push_cast
    field_simp
    ring
  rw [hratio, Nat.floor_div_eq_div, ← Nat.div_div_eq_div_mul]
  congr 1
  omega

private theorem validateReleaseSafety_eq_ok {rs : ReleaseSafety} (h : validateReleaseSafety q rs = .ok ()) :
    rs.takeCount = q.submitted ∧ rs.thinlySupported = decide (rs.takeCount < rs.minTakes) ∧
      (rs.release = "safe" ↔ rs.thinlySupported = false ∧ rs.concerns = []) := by
  simp only [validateReleaseSafety, bind_eq_ok, revertIf_eq_ok, ne_eq, not_not] at h
  obtain ⟨_, -, _, -, _, htakes, _, hthin, _, -, hrelease⟩ := h
  refine ⟨htakes, hthin, ?_⟩
  rw [hrelease, ← hthin]
  cases rs.thinlySupported <;> cases rs.concerns <;> simp

private theorem validateJudge_eq_ok (h : validateJudge r = .ok ()) :
    validateReleaseSafety r.quorum r.judge.releaseSafety = .ok () := by
  simp only [validateJudge, bind_eq_ok] at h
  obtain ⟨_, -, _, -, _, hsafety, -⟩ := h
  exact hsafety

private theorem derived_of_check (h : r.check reader arith = .ok ()) : r.Derived reader := by
  simp only [ConsensusReceipt.check, bind_eq_ok, refuse_eq_ok] at h
  obtain ⟨submissions, hbefore, _, hstances, _, hattributions, -⟩ := h
  obtain ⟨-, hcounts, hbps, hjudge, hcarried⟩ := checkBeforeStances_eq_ok.1 hbefore
  obtain ⟨hactive, -, hle, -⟩ := validateCounts_eq_ok.1 hcounts
  obtain ⟨hnodup, hlength, hmap⟩ := validateCarried_eq_ok hcarried
  obtain ⟨htakes, hthin, hrelease⟩ := validateReleaseSafety_eq_ok (validateJudge_eq_ok hjudge)
  obtain ⟨htotal, recomputed, hrecomputed, hcount⟩ := checkStances_eq_ok hstances
  refine ⟨hactive, ?_, hlength, htakes, htotal, ?_, ?_, hnodup, ?_, hthin, hrelease⟩
  · rw [checkedParticipationBps_eq hactive] at hbps
    split at hbps
    · rw [← participation_floor hactive, ← Except.ok.inj hbps, Nat.mod_eq_of_lt]
      -- no more members submit than there are
      have hmax : (r.quorum.submitted.toNat * 10000 + r.quorum.active.toNat / 2) / r.quorum.active.toNat < 10001 := by
        rw [Nat.div_lt_iff_lt_mul (by omega)]
        omega
      omega
    · cases hbps
  · intro k stance hk
    have hlt : k < 5 := (List.getElem?_eq_some_iff.1 hk).1
    rw [hcount k hlt, count_stances hmap hrecomputed hk]
  · intro s hs
    obtain ⟨i, hi, rfl⟩ := getElem_of_mem hs
    have hall := mapM_eq_ok.1 hmap
    exact object_of_submissionOf (hall.get hi (hall.length_eq ▸ hi))
  · intro d hd p hp
    have hany := forM_eq_ok.1 (forM_eq_ok.1 hattributions d hd) p hp
    rw [revertIf_eq_ok, Bool.not_eq_false, any_eq_true] at hany
    obtain ⟨s, hs, heq⟩ := hany
    exact mem_map.2 ⟨s, hs, of_decide_eq_true heq⟩

private theorem acceptReceipt_panic {raw : String} : (∃ p, acceptReceipt reader arith raw = .error (.panic p)) ↔
      ∃ v published r, locateReceipt reader raw = .ok (v, published) ∧ ConsensusReceipt.readReceipt v = .ok r ∧
        ∃ p, r.check reader arith = .error (.panic p) := by
  simp only [acceptReceipt, bind_eq_error, refuse_ne_panic, refuse_eq_ok, false_or, reduceCtorEq, and_false,
    exists_const, or_false]
  constructor
  · rintro ⟨p, ⟨v, published⟩, hlocate, r, hread, h⟩
    refine ⟨v, published, r, hlocate, hread, p, ?_⟩
    rcases h with hcross | ⟨_, -, hcheck⟩
    · cases published with
      | none => cases hcross
      | some bytes => simpa [crossCheck, bind_eq_error] using hcross
    · exact hcheck
  · rintro ⟨v, published, r, hlocate, hread, p, hcheck⟩
    refine ⟨p, (v, published), hlocate, r, hread, ?_⟩
    cases published with
    | none => exact .inr ⟨(), rfl, hcheck⟩
    | some bytes => exact .inl (by simp [crossCheck, hcheck])

/-- Reading a text and validating what it holds never panics, and an accepted receipt is derived from its signatures,
exactly when no operation on the counts that the text holds overflows. -/
theorem receipt_arithmetic_iff (reader : JsonReader) (arith : WeightArithmetic) (raw : String) :
    ((∀ p, acceptReceipt reader arith raw ≠ .error (.panic p)) ∧
        ∀ r, acceptReceipt reader arith raw = .ok r → r.Derived reader) ↔
      ∀ v published r, locateReceipt reader raw = .ok (v, published) → ConsensusReceipt.readReceipt v = .ok r →
        ¬ r.Overflows reader := by
  have hpanic := @acceptReceipt_panic reader arith raw
  simp only [check_panic] at hpanic
  have hderived : ∀ r, acceptReceipt reader arith raw = .ok r → r.Derived reader := by
    intro r h
    simp only [acceptReceipt, bind_eq_ok, Except.ok.injEq] at h
    obtain ⟨_, -, _, -, _, -, _, hcheck, rfl⟩ := h
    exact derived_of_check hcheck
  constructor
  · rintro ⟨hnever, -⟩ v published r hlocate hread hoverflows
    obtain ⟨p, hp⟩ := hpanic.2 ⟨v, published, r, hlocate, hread, hoverflows⟩
    exact hnever p hp
  · intro h
    refine ⟨fun p hp => ?_, hderived⟩
    obtain ⟨v, published, r, hlocate, hread, hoverflows⟩ := hpanic.1 ⟨p, hp⟩
    exact h v published r hlocate hread hoverflows

end Check

/-- A receipt whose quorum counts half of all 64-bit values. -/
def crowdedReceipt : ConsensusReceipt :=
  { sampleReceipt [] with quorum := ⟨9223372036854775808, 9223372036854775808, 0, 0⟩ }

theorem receipt_arithmetic_crowded :
    ¬ ((∀ p, acceptReceipt compactReader binary64Arithmetic crowdedReceipt.canonicalJson ≠ .error (.panic p)) ∧
      ∀ r, acceptReceipt compactReader binary64Arithmetic crowdedReceipt.canonicalJson = .ok r →
        r.Derived compactReader) := by
  rintro ⟨hpanic, -⟩
  have hlocate : locateReceipt compactReader crowdedReceipt.canonicalJson =
      .ok (crowdedReceipt.ordered.toValue, none) := by
    rw [locateReceipt, ConsensusReceipt.canonicalJson, compactReader_print]
    simp only [ConsensusReceipt.get?_schemaVersion, Option.isSome_some, ↓reduceIte]
  have hcheck : (crowdedReceipt.ordered).Overflows compactReader := .inl ⟨by decide +kernel, by decide, by decide⟩
  obtain ⟨p, hp⟩ := acceptReceipt_panic.2 ⟨_, _, _, hlocate, ConsensusReceipt.readReceipt_toValue _,
    check_panic.2 hcheck⟩
  exact hpanic p hp

end RobotMoney.Client
