import Mathlib.Data.UInt
import RobotMoney.Client.ConsensusReceipt

/-!
# Validation of a receipt

`ConsensusReceipt::validate`, in the order of the source.  An error names the path of the field it is about.

All checks but the last read the analyst signatures as a set: they hold for every order of the entries or for none
(`validate_perm`).  The last one recomputes the weights from the submissions in the order in which they are listed.
-/

namespace RobotMoney.Client

open Evm JsonText List

inductive ReceiptError where
  | parse
  | schema (path : String)
  | canonicalBytesMismatch
  | envelopeCanonicalBytesMissing
  deriving DecidableEq, Repr

/-- The arithmetic of the weights: `normalized_submission_weights` and `mean_weights_bps`. -/
structure WeightArithmetic where
  Vector : Type
  normalizedSubmissionWeights : Option Value → Option Vector
  meanWeightsBps : List Vector → Except String (Fin 4 → UInt32)

-- The source walks bytes; a character outside ASCII fails each pattern, as its bytes do.
def isLowerHex (c : Char) : Bool := c.isDigit || ('a' ≤ c && c ≤ 'f')

def isAsciiLowercase (c : Char) : Bool := 'a' ≤ c && c ≤ 'z'

def isLowercaseUuid (s : String) : Bool :=
  s.toList.length = 36 && s.toList.zipIdx.all fun (c, i) =>
    if i = 8 ∨ i = 13 ∨ i = 18 ∨ i = 23 then c = '-'
    else if i = 14 then '1' ≤ c && c ≤ '5'
    else if i = 19 then c = '8' || c = '9' || c = 'a' || c = 'b'
    else isLowerHex c

def isSlug (s : String) : Bool :=
  match s.toList with
  | [] => false
  | c :: rest => rest.length < 128 && (isAsciiLowercase c || c.isDigit) &&
      rest.all fun c => isAsciiLowercase c || c.isDigit || c = '_' || c = '-'

def isHash32 (s : String) : Bool :=
  s.toList.length = 66 && s.toList.take 2 = ['0', 'x'] && (s.toList.drop 2).all isLowerHex

def isSecondsPrecisionUtc (s : String) : Bool :=
  match s.toList with
  | [y₁, y₂, y₃, y₄, '-', m₁, m₂, '-', d₁, d₂, 'T', h₁, h₂, ':', n₁, n₂, ':', s₁, s₂, 'Z'] =>
    let two (a b : Char) : Nat := (a.toNat - 48) * 10 + (b.toNat - 48)
    [y₁, y₂, y₃, y₄, m₁, m₂, d₁, d₂, h₁, h₂, n₁, n₂, s₁, s₂].all (·.isDigit) &&
      (1 ≤ two m₁ m₂ && two m₁ m₂ ≤ 12) && (1 ≤ two d₁ d₂ && two d₁ d₂ ≤ 31) && two h₁ h₂ ≤ 23 &&
      two n₁ n₂ ≤ 59 && two s₁ s₂ ≤ 59
  | _ => false

def isBase64Body (s : String) (body pad : Nat) : Bool :=
  s.toList.length = body + pad &&
    (s.toList.take body).all (fun c => c.isDigit || isAsciiLowercase c || ('A' ≤ c && c ≤ 'Z') || c = '+' || c = '/') &&
    (s.toList.drop body).all (· = '=')

def participationBps (submitted active : UInt64) : UInt32 :=
  if active = 0 then 0 else ((submitted * 10000 + active / 2) / active).toUInt32

def canonicalBucketOrder : List String :=
  ["agent_tokens", "conservative_defi_yield", "protocol_tokens", "real_world_assets"]

def receiptStanceKeys : List String := ["bearish", "cautious", "neutral", "constructive", "bullish"]

section Checks

variable (reader : JsonReader) (arith : WeightArithmetic)

def validateQuorum (q : Quorum) : Except ReceiptError Unit := do
  revertIf (q.active < 1) (.schema "quorum.active")
  revertIf (q.submitted < 1) (.schema "quorum.submitted")
  revertIf (q.submitted > q.active) (.schema "quorum.submitted")
  revertIf (q.absent ≠ q.active - q.submitted) (.schema "quorum.absent")
  revertIf (q.participationBps ≠ participationBps q.submitted q.active) (.schema "quorum.participation_bps")

def validatePosition (p : Position) : Except ReceiptError Unit := do
  revertIf (isSlug p.memberId = false) (.schema "judge.disagreements[].positions[].member_id")
  revertIf (p.view = "") (.schema "judge.disagreements[].positions[].view")

def validateDisagreement (d : Disagreement) : Except ReceiptError Unit := do
  revertIf (d.topic = "") (.schema "judge.disagreements[].topic")
  revertIf (d.positions = []) (.schema "judge.disagreements[].positions")
  d.positions.forM validatePosition
  revertIf (d.whatSettles = "") (.schema "judge.disagreements[].what_settles")

def validateReleaseSafety (q : Quorum) (rs : ReleaseSafety) : Except ReceiptError Unit := do
  revertIf (rs.release ≠ "safe" ∧ rs.release ≠ "hold") (.schema "judge.release_safety.release")
  revertIf (rs.minTakes < 1) (.schema "judge.release_safety.min_takes")
  revertIf (rs.takeCount ≠ q.submitted) (.schema "judge.release_safety.take_count")
  let expectedThin := decide (rs.takeCount < rs.minTakes)
  revertIf (rs.thinlySupported ≠ expectedThin) (.schema "judge.release_safety.thinly_supported")
  rs.concerns.forM fun c => revertIf (c = "") (.schema "judge.release_safety.concerns[]")
  let expectedRelease := if !expectedThin && rs.concerns.isEmpty then "safe" else "hold"
  revertIf (rs.release ≠ expectedRelease) (.schema "judge.release_safety.release")

def validateFixed (r : ConsensusReceipt) : Except ReceiptError Unit := do
  revertIf (r.schemaVersion ≠ "1.0") (.schema "schema_version")
  revertIf (isLowercaseUuid r.sessionId = false) (.schema "session_id")
  revertIf (isSlug r.subjectId = false) (.schema "subject_id")
  revertIf (isSecondsPrecisionUtc r.createdAt = false) (.schema "created_at")
  revertIf (isHash32 r.promptHash = false) (.schema "prompt_hash")
  revertIf (isHash32 r.inputsDigest = false) (.schema "inputs_digest")
  validateQuorum r.quorum
  revertIf (r.judge.rationale = "") (.schema "judge.rationale")
  r.judge.disagreements.forM validateDisagreement
  validateReleaseSafety r.quorum r.judge.releaseSafety
  revertIf (r.judge.source ≠ "model" ∧ r.judge.source ≠ "fallback") (.schema "judge.source")
  revertIf (r.judge.mode ≠ "shadow" ∧ r.judge.mode ≠ "enforce") (.schema "judge.mode")
  revertIf (r.judge.mode ≠ "enforce") (.schema "judge.mode")

def validateEntry (s : AnalystSignature) : Except ReceiptError Unit := do
  revertIf (isBase64Body s.publicKey 43 1 = false) (.schema "analyst_signatures[].public_key")
  revertIf (s.canonicalSubmission.utf8ByteSize < 2) (.schema "analyst_signatures[].canonical_submission")
  revertIf (isBase64Body s.signature 86 2 = false) (.schema "analyst_signatures[].signature")
  revertIf (s.revision < 1) (.schema "analyst_signatures[].revision")

def validateEntries : List AnalystSignature → List String → Except ReceiptError Unit
  | [], _ => .ok ()
  | s :: rest, seen => do
    revertIf (isSlug s.memberId = false) (.schema "analyst_signatures[].member_id")
    revertIf (s.memberId ∈ seen) (.schema "analyst_signatures")
    validateEntry s
    validateEntries rest (seen ++ [s.memberId])

def submissionOf (subjectId : String) (s : AnalystSignature) : Except ReceiptError Value :=
  match reader.fromSlice s.canonicalSubmission with
  | some (.object fields) => do
    revertIf (((Value.object fields).get? "memberId").bind Value.asString ≠ some s.memberId)
      (.schema "analyst_signatures[].canonical_submission")
    revertIf (((Value.object fields).get? "subjectId").bind Value.asString ≠ some subjectId)
      (.schema "analyst_signatures[].canonical_submission")
    .ok (.object fields)
  | _ => .error (.schema "analyst_signatures[].canonical_submission")

def stanceOf (payload : Value) : Except ReceiptError Nat :=
  match ((payload.get? "stance").bind Value.asString).bind (receiptStanceKeys.idxOf? ·) with
  | some k => .ok k
  | none => .error (.schema "stances")

def validateStances (q : Quorum) (s : Stances) (submissions : List Value) : Except ReceiptError Unit := do
  let carried := [s.bearish, s.cautious, s.neutral, s.constructive, s.bullish]
  revertIf (carried.sum ≠ q.submitted) (.schema "stances")
  let recomputed ← submissions.mapM stanceOf
  carried.zipIdx.forM fun (c, k) => revertIf (c ≠ UInt64.ofNat (recomputed.count k)) (.schema "stances")

def validateAttributions (judge : Judge) (signatures : List AnalystSignature) : Except ReceiptError Unit :=
  judge.disagreements.forM fun d => d.positions.forM fun p =>
    revertIf (signatures.any (·.memberId = p.memberId) = false) (.schema "judge.disagreements[].positions[]")

def validateWeightShape (weights : List BucketWeight) : Except ReceiptError Unit := do
  revertIf (weights.length ≠ canonicalBucketOrder.length) (.schema "weights")
  (weights.zip canonicalBucketOrder).forM fun (w, bucket) => do
    revertIf (w.bucket ≠ bucket) (.schema "weights[].bucket")
    revertIf (w.weightBps > 10000) (.schema "weights[].weight_bps")
  revertIf ((weights.map (·.weightBps.toNat)).sum ≠ 10000) (.schema "weights")

def validateWeights (weights : Option (List BucketWeight)) (submissions : List Value) : Except ReceiptError Unit :=
  match weights with
  | none => .ok ()
  | some weights => do
    validateWeightShape weights
    let vectors := submissions.filterMap fun payload => arith.normalizedSubmissionWeights (payload.get? "weights")
    match arith.meanWeightsBps vectors with
    | .error _ => .error (.schema "weights")
    | .ok expected => revertIf (weights.map (·.weightBps) ≠ List.ofFn expected) (.schema "weights")

def ConsensusReceipt.validate (r : ConsensusReceipt) : Except ReceiptError Unit := do
  validateFixed r
  revertIf (r.analystSignatures = []) (.schema "analyst_signatures")
  validateEntries r.analystSignatures []
  revertIf (UInt64.ofNat r.analystSignatures.length ≠ r.quorum.submitted) (.schema "analyst_signatures")
  let submissions ← r.analystSignatures.mapM (submissionOf reader r.subjectId)
  validateStances r.quorum r.stances submissions
  validateAttributions r.judge r.analystSignatures
  validateWeights arith r.weights submissions

end Checks

theorem validateEntries_eq_ok {l : List AnalystSignature} {seen : List String} : validateEntries l seen = .ok () ↔
      (∀ s ∈ l, isSlug s.memberId = true ∧ validateEntry s = .ok ()) ∧ (l.map (·.memberId)).Nodup ∧
        ∀ s ∈ l, s.memberId ∉ seen := by
  induction l generalizing seen with
  | nil => simp [validateEntries]
  | cons s l ih =>
    simp only [validateEntries, bind_eq_ok, revertIf_eq_ok, ih, mem_append, mem_singleton, not_or,
      map_cons, nodup_cons, forall_mem_cons, Bool.not_eq_false]
    constructor
    · rintro ⟨-, hslug, -, hseen, u, hentry, hall, hnodup, hrest⟩
      refine ⟨⟨⟨hslug, hentry⟩, hall⟩, ⟨?_, hnodup⟩, hseen, fun t ht => (hrest t ht).1⟩
      intro hmem
      obtain ⟨t, ht, heq⟩ := mem_map.1 hmem
      exact (hrest t ht).2 heq
    · rintro ⟨⟨⟨hslug, hentry⟩, hall⟩, ⟨hmem, hnodup⟩, hseen, hrest⟩
      refine ⟨(), hslug, (), hseen, (), hentry, hall, hnodup, fun t ht => ⟨hrest t ht, ?_⟩⟩
      intro heq
      exact hmem (mem_map.2 ⟨t, ht, heq⟩)

theorem validateEntries_perm {l l' : List AnalystSignature} (h : l.Perm l') (hl : validateEntries l [] = .ok ()) :
    validateEntries l' [] = .ok () := by
  rw [validateEntries_eq_ok] at hl ⊢
  obtain ⟨hall, hnodup, hseen⟩ := hl
  refine ⟨fun s hs => hall s (h.mem_iff.2 hs), (h.map _).nodup_iff.1 hnodup, fun s hs => hseen s (h.mem_iff.2 hs)⟩

private theorem validateStances_perm {q : Quorum} {s : Stances} {l l' : List Value} (h : l.Perm l')
    (hl : validateStances q s l = .ok ()) : validateStances q s l' = .ok () := by
  simp only [validateStances, bind_eq_ok] at hl ⊢
  obtain ⟨u, htotal, recomputed, hmap, hcount⟩ := hl
  obtain ⟨recomputed', hmap', hperm⟩ := mapM_ok_perm h hmap
  refine ⟨u, htotal, recomputed', hmap', ?_⟩
  rw [← hcount]
  congr 1
  funext ck
  rw [hperm.count_eq]

private theorem validateAttributions_perm {judge : Judge} {l l' : List AnalystSignature} (h : l.Perm l') :
    validateAttributions judge l = validateAttributions judge l' := by
  have hany : ∀ p : Position, l.any (fun s => decide (s.memberId = p.memberId)) =
      l'.any (fun s => decide (s.memberId = p.memberId)) := fun p => h.any_eq
  simp only [validateAttributions, hany]

section Validate

variable {reader : JsonReader} {arith : WeightArithmetic} {r : ConsensusReceipt}

theorem ConsensusReceipt.validate_eq_ok : r.validate reader arith = .ok () ↔
      validateFixed r = .ok () ∧ r.analystSignatures ≠ [] ∧ validateEntries r.analystSignatures [] = .ok () ∧
        UInt64.ofNat r.analystSignatures.length = r.quorum.submitted ∧
        ∃ submissions, r.analystSignatures.mapM (submissionOf reader r.subjectId) = .ok submissions ∧
          validateStances r.quorum r.stances submissions = .ok () ∧
          validateAttributions r.judge r.analystSignatures = .ok () ∧
          validateWeights arith r.weights submissions = .ok () := by
  simp only [ConsensusReceipt.validate, bind_eq_ok, revertIf_eq_ok, ne_eq, not_not]
  constructor
  · rintro ⟨u₁, h₁, -, h₂, u₃, h₃, -, h₄, submissions, h₅, u₆, h₆, u₇, h₇, h₈⟩
    exact ⟨h₁, h₂, h₃, h₄, submissions, h₅, h₆, h₇, h₈⟩
  · rintro ⟨h₁, h₂, h₃, h₄, submissions, h₅, h₆, h₇, h₈⟩
    exact ⟨(), h₁, (), h₂, (), h₃, (), h₄, submissions, h₅, (), h₆, (), h₇, h₈⟩

def weightVectors (reader : JsonReader) (arith : WeightArithmetic) (l : List AnalystSignature) : List arith.Vector :=
  l.filterMap fun s => (reader.fromSlice s.canonicalSubmission).bind fun payload =>
    arith.normalizedSubmissionWeights (payload.get? "weights")

theorem submissionOf_ok {subjectId : String} {s : AnalystSignature} {payload : Value}
    (h : submissionOf reader subjectId s = .ok payload) : reader.fromSlice s.canonicalSubmission = some payload := by
  unfold submissionOf at h
  split at h
  · rename_i fields hparse
    simp only [bind_eq_ok, Except.ok.injEq] at h
    obtain ⟨-, -, -, -, rfl⟩ := h
    exact hparse
  · cases h

theorem filterMap_submissions {subjectId : String} {l : List AnalystSignature} {submissions : List Value}
    (h : l.mapM (submissionOf reader subjectId) = .ok submissions) :
    (submissions.filterMap fun payload => arith.normalizedSubmissionWeights (payload.get? "weights")) =
      weightVectors reader arith l := by
  rw [mapM_eq_ok] at h
  induction h with
  | nil => rfl
  | cons hpayload _ ih =>
    rw [weightVectors, filterMap_cons, filterMap_cons, submissionOf_ok hpayload, Option.bind_some, ih]
    rfl

theorem validateWeights_eq_ok {weights : List BucketWeight} {submissions : List Value} :
    validateWeights arith (some weights) submissions = .ok () ↔ validateWeightShape weights = .ok () ∧
        ∃ expected, arith.meanWeightsBps (submissions.filterMap fun payload =>
            arith.normalizedSubmissionWeights (payload.get? "weights")) = .ok expected ∧
          weights.map (·.weightBps) = List.ofFn expected := by
  simp only [validateWeights, bind_eq_ok]
  constructor
  · rintro ⟨u, hshape, h⟩
    split at h
    · cases h
    rename_i expected hmean
    exact ⟨hshape, expected, hmean, by simpa using h⟩
  · rintro ⟨hshape, expected, hmean, hweights⟩
    refine ⟨(), hshape, ?_⟩
    rw [hmean]
    simpa using hweights

/-- Another order of the entries of an accepted receipt is accepted exactly when the weights are recomputed from it. -/
theorem validate_perm (h : r.validate reader arith = .ok ()) {l : List AnalystSignature}
    (hl : l.Perm r.analystSignatures) :
    ConsensusReceipt.validate reader arith { r with analystSignatures := l } = .ok () ↔
      r.weights = none ∨ arith.meanWeightsBps (weightVectors reader arith l) =
        arith.meanWeightsBps (weightVectors reader arith r.analystSignatures) := by
  obtain ⟨hfixed, hne, hentries, hlen, submissions, hmap, hstances, hattributions, hweights⟩ :=
    ConsensusReceipt.validate_eq_ok.1 h
  obtain ⟨submissions', hmap', hperm⟩ := mapM_ok_perm hl.symm hmap
  have hvectors := @filterMap_submissions reader arith _ _ _ hmap
  have hvectors' := @filterMap_submissions reader arith _ _ _ hmap'
  have hlast : ConsensusReceipt.validate reader arith { r with analystSignatures := l } = .ok () ↔
      validateWeights arith r.weights submissions' = .ok () := by
    rw [ConsensusReceipt.validate_eq_ok]
    constructor
    · rintro ⟨-, -, -, -, found, hfound, -, -, hw⟩
      rw [hmap'] at hfound
      cases hfound
      exact hw
    · intro hw
      refine ⟨hfixed, ?_, validateEntries_perm hl.symm hentries, ?_, submissions', hmap',
        validateStances_perm hperm hstances, ?_, hw⟩
      · intro hnil
        subst hnil
        exact hne (nil_perm.1 hl)
      · rw [hl.length_eq, hlen]
      · rw [validateAttributions_perm hl, hattributions]
  rw [hlast]
  cases hr : r.weights with
  | none => simp [validateWeights]
  | some weights =>
    rw [hr] at hweights
    obtain ⟨hshape, expected, hmean, heq⟩ := validateWeights_eq_ok.1 hweights
    rw [validateWeights_eq_ok, hvectors']
    rw [hvectors] at hmean
    constructor
    · rintro ⟨-, expected', hmean', heq'⟩
      right
      rw [hmean, hmean', ofFn_injective (heq'.symm.trans heq)]
    · rintro (hnone | hmean')
      · cases hnone
      · exact ⟨hshape, expected, hmean'.trans hmean, heq⟩

end Validate

end RobotMoney.Client
