import RobotMoney.Client.ReceiptBytes
import RobotMoney.Float.Binary64

/-!
# The mean of the submitted weights

`normalized_submission_weights`, `bucket_shares_to_bps` and `mean_weights_bps` in binary64 arithmetic.  The values here
stay far below the overflow threshold, so infinities are left out.

Addition of floats is not associative: a receipt is given whose mean depends on the order of its entries.  The mean does
not where the order of the addends of each bucket is immaterial (`meanWeightsBps_congr`).
-/

namespace RobotMoney.Client

open Evm JsonText List ConsensusReceipt

def decimalValue (text : List Char) : Rat :=
  let negative := text.head? = some '-'
  let body := if negative then text.tail else text
  let whole := body.takeWhile (·.isDigit)
  let afterWhole := body.drop whole.length
  let fraction := if afterWhole.head? = some '.' then afterWhole.tail.takeWhile (·.isDigit) else []
  let exponentText := (afterWhole.drop (if afterWhole.head? = some '.' then fraction.length + 1 else 0)).tail
  let exponentNegative := exponentText.head? = some '-'
  let exponent := Nat.ofDigitChars 10 (exponentText.filter (·.isDigit)) 0
  let digits := mkRat (Nat.ofDigitChars 10 (whole ++ fraction) 0) (10 ^ fraction.length)
  let magnitude := if exponentNegative then digits / (10 ^ exponent : Nat) else digits * (10 ^ exponent : Nat)
  if negative then -magnitude else magnitude

def asF64 : Value → Option Rat
  | .number n => some (Binary64.round (decimalValue n.text))
  | _ => none

/-- One entry of a submitted vector; a bucket does not come twice and no weight is negative. -/
def submittedEntry (seen : List (String × Rat)) (candidate : Value) : Option (String × Rat) := do
  let bucket ← (candidate.get? "bucket").bind Value.asString
  let weight ← (candidate.get? "weight").bind asF64
  if bucket.toList.all (·.isWhitespace) ∨ seen.any (·.1 = bucket) ∨ weight < 0 then none else some (bucket, weight)

def normalizedSubmissionWeights (value : Option Value) : Option (List (String × Rat)) := do
  let array ← value.bind Value.asArray
  if array.isEmpty then none
  else
    let entries ← array.foldlM (fun seen candidate => (submittedEntry seen candidate).map (seen ++ [·])) []
    let total := Binary64.sum (entries.map (·.2))
    if total ≤ 0 then none else some (entries.map fun (bucket, weight) => (bucket, Binary64.div weight total))

def jsRound (x : Rat) : Rat := if 1 / 2 ≤ Binary64.sub x x.floor then x.floor + 1 else x.floor

def round8 (v : Rat) : Rat := Binary64.div (jsRound (Binary64.mul v 100000000)) 100000000

def shareSumTolerance : Rat := Binary64.round (1 / 1000000)

def remainderFirst (remainders : List Rat) (a b : Nat) : Prop :=
  remainders.getD b 0 < remainders.getD a 0 ∨ (remainders.getD b 0 = remainders.getD a 0 ∧ a ≤ b)

instance (remainders : List Rat) : DecidableRel (remainderFirst remainders) :=
  fun _ _ => inferInstanceAs (Decidable (_ ∨ _ ∧ _))

/-- `bucket_shares_to_bps`: the largest remainders get the basis points that the floors leave. -/
def bucketSharesToBps (shares : List Rat) : Except String (Fin 4 → UInt32) :=
  if shares.any fun s => s < -shareSumTolerance || 1 < s then .error "a share is not in 0..1"
  else
    let shares := shares.map fun s => if 0 < s then s else 0
    let total := Binary64.sum shares
    if shareSumTolerance < |Binary64.sub total 1| then .error "the shares do not sum to 1"
    else
      let raw := shares.map fun s => Binary64.mul s 10000
      let floors := raw.map Rat.floor
      let remainders := raw.map fun x => Binary64.sub x x.floor
      let order := (range 4).insertionSort (remainderFirst remainders)
      let leftover := 10000 - floors.sum
      if leftover < 0 ∨ 4 < leftover then .error "basis points could not be apportioned"
      else
        let raised := order.take leftover.toNat
        .ok fun i => UInt32.ofNat ((floors.getD i 0).toNat + if i.val ∈ raised then 1 else 0)

/-- `mean_weights_bps`: the vectors are added in the order given. -/
def meanWeightsBps (vectors : List (List (String × Rat))) : Except String (Fin 4 → UInt32) :=
  if vectors = [] then .error "no carried submission has a weight vector"
  else if vectors.any fun vector => vector.any fun entry => !canonicalBucketOrder.contains entry.1 then
    .error "a carried submission names another bucket"
  else if canonicalBucketOrder.any fun bucket =>
    !(vectors.any fun vector => vector.any fun entry => entry.1 = bucket) then
    .error "the union of the buckets is short"
  else
    let totals := canonicalBucketOrder.map fun bucket =>
      Binary64.sum ((vectors.flatten.filter fun entry => entry.1 = bucket).map (·.2))
    let averaged := totals.map fun t => Binary64.div t vectors.length
    let averageTotal := Binary64.sum averaged
    let shares := averaged.map fun w => round8 (Binary64.div w averageTotal)
    let leading := shares.take 3
    bucketSharesToBps (leading ++ [round8 (Binary64.sub 1 (Binary64.sum leading))])

/-- The vectors name the four buckets: each of them, and no other. -/
def NamesBuckets (vectors : List (List (String × Rat))) : Prop :=
  (∀ vector ∈ vectors, ∀ entry ∈ vector, entry.1 ∈ canonicalBucketOrder) ∧
    ∀ bucket ∈ canonicalBucketOrder, ∃ vector ∈ vectors, ∃ entry ∈ vector, entry.1 = bucket

/-- The weights of a bucket, in the order in which they are added. -/
def bucketWeights (vectors : List (List (String × Rat))) (bucket : String) : List Rat :=
  (vectors.flatten.filter fun entry => entry.1 = bucket).map (·.2)

/-- Where weights are added at all, those of each bucket that are not zero stand in the same order in both lists, or are
at most two, or have exact sums. -/
def OrderImmaterial (vectors vectors' : List (List (String × Rat))) : Prop :=
  NamesBuckets vectors → ∀ bucket ∈ canonicalBucketOrder,
    (bucketWeights vectors bucket).filter (· ≠ 0) = (bucketWeights vectors' bucket).filter (· ≠ 0) ∨
      ((bucketWeights vectors bucket).filter (· ≠ 0)).length ≤ 2 ∨ Binary64.Exact (bucketWeights vectors bucket)

private theorem bucketWeights_perm {vectors vectors' : List (List (String × Rat))} (h : vectors.Perm vectors')
    (bucket : String) : (bucketWeights vectors bucket).Perm (bucketWeights vectors' bucket) :=
  (h.flatten.filter _).map _

/-- The normalised weights are floats, as quotients. -/
theorem isFloat_of_normalized {value : Option Value} {vector : List (String × Rat)}
    (h : normalizedSubmissionWeights value = some vector) : ∀ entry ∈ vector, Binary64.IsFloat entry.2 := by
  simp only [normalizedSubmissionWeights, Option.bind_eq_bind, Option.bind_eq_some_iff] at h
  obtain ⟨array, -, h⟩ := h
  split at h
  · cases h
  obtain ⟨entries, -, h⟩ := Option.bind_eq_some_iff.1 h
  split at h
  · cases h
  obtain rfl := Option.some.inj h
  intro entry hentry
  obtain ⟨e, -, rfl⟩ := mem_map.1 hentry
  exact Binary64.isFloat_round _

/-- The mean is the same for two orders of the vectors between which the order is immaterial. -/
theorem meanWeightsBps_congr {vectors vectors' : List (List (String × Rat))} (hperm : vectors.Perm vectors')
    (hfloat : ∀ vector ∈ vectors, ∀ entry ∈ vector, Binary64.IsFloat entry.2) (h : OrderImmaterial vectors vectors') :
    meanWeightsBps vectors = meanWeightsBps vectors' := by
  have hnil : vectors = [] ↔ vectors' = [] := by
    rw [← length_eq_zero_iff, ← length_eq_zero_iff, hperm.length_eq]
  have hany : ∀ p : List (String × Rat) → Bool, vectors.any p = vectors'.any p := fun p => hperm.any_eq
  unfold meanWeightsBps
  simp only [hnil, hany, hperm.length_eq]
  split_ifs with hempty hother hunion
  · rfl
  · rfl
  · rfl
  have hnames : NamesBuckets vectors := by
    refine ⟨fun vector hvector entry hentry => ?_, fun bucket hbucket => ?_⟩
    · by_contra hne
      refine hother (any_eq_true.2 ⟨vector, hperm.mem_iff.1 hvector, ?_⟩)
      exact any_eq_true.2 ⟨entry, hentry, by simpa using hne⟩
    · by_contra hne
      refine hunion (any_eq_true.2 ⟨bucket, hbucket, ?_⟩)
      rw [Bool.not_eq_true', any_eq_false]
      intro vector hvector hany
      obtain ⟨entry, hentry, heq⟩ := any_eq_true.1 hany
      exact hne ⟨vector, hperm.mem_iff.2 hvector, entry, hentry, by simpa using heq⟩
  have hsum : ∀ bucket ∈ canonicalBucketOrder,
      Binary64.sum (bucketWeights vectors bucket) = Binary64.sum (bucketWeights vectors' bucket) := by
    intro bucket hbucket
    have hfloats : ∀ x ∈ bucketWeights vectors bucket, Binary64.IsFloat x := by
      intro x hx
      obtain ⟨entry, hentry, rfl⟩ := mem_map.1 hx
      obtain ⟨vector, hvector, hmem⟩ := mem_flatten.1 (mem_of_mem_filter hentry)
      exact hfloat vector hvector entry hmem
    rcases h hnames bucket hbucket with hsame | hrest
    · rw [← Binary64.sum_filter, hsame, Binary64.sum_filter]
    · exact Binary64.sum_perm hfloats (bucketWeights_perm hperm bucket) hrest
  simp only [bucketWeights] at hsum
  rw [map_congr_left hsum]

def binary64Arithmetic : WeightArithmetic := ⟨List (String × Rat), normalizedSubmissionWeights, meanWeightsBps⟩

def compactReader : JsonReader where
  fromSlice raw := parse raw.toList

theorem compactReader_print (v : Value) : compactReader.fromSlice (String.ofList (print v)) = some v := by
  simp only [compactReader, String.toList_ofList, parse_print]

/-- A decimal fraction `0.…`. -/
def sampleWeight (digits : List Char) (h : ∀ c ∈ digits, isNumberChar c = true) : Number where
  text := '0' :: '.' :: digits
  ne_nil := by simp
  valid := by
    intro c hc
    simp only [mem_cons] at hc
    rcases hc with rfl | rfl | hc
    · decide
    · decide
    · exact h c hc

def sampleSubmission (member : String) (first last : Number) : Value :=
  let weight (bucket : String) (n : Number) : Value := .object [("bucket", .string bucket), ("weight", .number n)]
  .object [("memberId", .string member), ("subjectId", .string "s"), ("stance", .string "neutral"),
    ("weights", .array [weight "agent_tokens" first,
      weight "conservative_defi_yield" (sampleWeight ['1', '3', '9', '6', '3', '3', '3', '4'] (all_eq_true.1 rfl)),
      weight "protocol_tokens" (sampleWeight ['1', '6', '2', '2'] (all_eq_true.1 rfl)),
      weight "real_world_assets" last])]

def sampleEntry (member : String) (submission : Value) : AnalystSignature where
  memberId := member
  publicKey := String.ofList (replicate 43 'A' ++ ['='])
  canonicalSubmission := String.ofList (print submission)
  signature := String.ofList (replicate 86 'A' ++ ['=', '='])
  revision := 1

def submissionA : Value :=
  sampleSubmission "a" (sampleWeight ['0', '6', '9'] (all_eq_true.1 rfl))
    (sampleWeight ['6', '2', '9', '1', '6', '6', '6', '6'] (all_eq_true.1 rfl))

def submissionB : Value :=
  sampleSubmission "b" (sampleWeight ['0', '8', '9'] (all_eq_true.1 rfl))
    (sampleWeight ['6', '0', '9', '1', '6', '6', '6', '6'] (all_eq_true.1 rfl))

def submissionC : Value :=
  sampleSubmission "c" (sampleWeight ['2', '4', '3', '8', '0', '0', '0', '0', '5'] (all_eq_true.1 rfl))
    (sampleWeight ['4', '5', '4', '3', '6', '6', '6', '5', '5'] (all_eq_true.1 rfl))

/-- A receipt over three submissions, with the weights their mean has in the order of the members `c`, `b`, `a`. -/
def sampleReceipt (entries : List AnalystSignature) : ConsensusReceipt where
  schemaVersion := "1.0"
  sessionId := "00000000-0000-1000-8000-000000000000"
  subjectId := "s"
  createdAt := "2026-01-01T00:00:00Z"
  promptHash := "0x0000000000000000000000000000000000000000000000000000000000000000"
  inputsDigest := "0x0000000000000000000000000000000000000000000000000000000000000000"
  quorum := ⟨3, 3, 0, 10000⟩
  stances := ⟨0, 0, 3, 0, 0⟩
  judge := ⟨"r", [], ⟨"safe", false, 3, 1, []⟩, "model", "enforce"⟩
  analystSignatures := entries
  weights := some (zipWith BucketWeight.mk canonicalBucketOrder [1339, 1397, 1622, 5642])

def sampleEntries : List AnalystSignature :=
  [sampleEntry "c" submissionC, sampleEntry "b" submissionB, sampleEntry "a" submissionA]

private theorem length_le_utf8ByteSize (l : List Char) : l.length ≤ (String.ofList l).utf8ByteSize := by
  induction l with
  | nil => exact Nat.zero_le _
  | cons c l ih =>
    rw [String.ofList_cons, String.utf8ByteSize_append, String.utf8ByteSize_singleton, length_cons]
    have := c.utf8Size_pos
    omega

private theorem two_le_length_print (fields : List (String × Value)) : 2 ≤ (print (.object fields)).length := by
  cases fields with
  | nil => simp [print]
  | cons field fields =>
    simp only [print, length_cons, length_append]
    omega

private theorem sampleEntry_valid {member : String} {submission : Value} {fields : List (String × Value)}
    (hobject : submission = .object fields) (hmember : isSlug member = true) :
    isSlug (sampleEntry member submission).memberId = true ∧
      validateEntry (sampleEntry member submission) = .ok () := by
  subst hobject
  refine ⟨hmember, ?_⟩
  have hlen := two_le_length_print fields
  have hkey : isBase64Body (sampleEntry member (.object fields)).publicKey 43 1 = true := by
    simp only [isBase64Body, sampleEntry, String.toList_ofList]
    decide
  have hsignature : isBase64Body (sampleEntry member (.object fields)).signature 86 2 = true := by
    simp only [isBase64Body, sampleEntry, String.toList_ofList]
    decide
  have hsize : 2 ≤ (sampleEntry member (.object fields)).canonicalSubmission.utf8ByteSize :=
    hlen.trans (length_le_utf8ByteSize _)
  have hrevision : ¬ (sampleEntry member (.object fields)).revision < 1 := by
    simp only [sampleEntry]
    decide
  simp only [validateEntry, hkey, hsignature, hrevision, Nat.not_lt.2 hsize, revertIf, reduceCtorEq, ↓reduceIte]
  rfl

private theorem submissionOf_sampleEntry {member : String} {submission : Value} {fields : List (String × Value)}
    (hobject : submission = .object fields) (hmember : (submission.get? "memberId").bind Value.asString = some member)
    (hsubject : (submission.get? "subjectId").bind Value.asString = some "s") :
    submissionOf compactReader "s" (sampleEntry member submission) = .ok submission := by
  have hparse : compactReader.fromSlice (sampleEntry member submission).canonicalSubmission = some submission :=
    compactReader_print submission
  subst hobject
  rw [submissionOf, hparse]
  simp only [hmember, hsubject, sampleEntry, revertIf, ne_eq, not_true_eq_false, ↓reduceIte]
  rfl

def sampleSorted : List AnalystSignature :=
  [sampleEntry "a" submissionA, sampleEntry "b" submissionB, sampleEntry "c" submissionC]

private theorem submissionOf_a : submissionOf compactReader "s" (sampleEntry "a" submissionA) = .ok submissionA :=
  submissionOf_sampleEntry rfl rfl rfl

private theorem submissionOf_b : submissionOf compactReader "s" (sampleEntry "b" submissionB) = .ok submissionB :=
  submissionOf_sampleEntry rfl rfl rfl

private theorem submissionOf_c : submissionOf compactReader "s" (sampleEntry "c" submissionC) = .ok submissionC :=
  submissionOf_sampleEntry rfl rfl rfl

private theorem submissionsOf_sampleEntries :
    sampleEntries.mapM (submissionOf compactReader "s") = .ok [submissionC, submissionB, submissionA] := by
  simp only [sampleEntries, mapM_cons, submissionOf_a, submissionOf_b, submissionOf_c, mapM_nil]
  rfl

private theorem submissionsOf_sampleSorted :
    sampleSorted.mapM (submissionOf compactReader "s") = .ok [submissionA, submissionB, submissionC] := by
  simp only [sampleSorted, mapM_cons, submissionOf_a, submissionOf_b, submissionOf_c, mapM_nil]
  rfl

private theorem sampleEntries_valid : validateEntries sampleEntries [] = .ok () := by
  rw [validateEntries_eq_ok]
  refine ⟨?_, by decide, by simp⟩
  have hmem : ∀ s ∈ sampleEntries, s = sampleEntry "c" submissionC ∨ s = sampleEntry "b" submissionB ∨
      s = sampleEntry "a" submissionA := by simp [sampleEntries]
  intro s hs
  obtain rfl | rfl | rfl := hmem s hs
  · exact sampleEntry_valid rfl (by decide)
  · exact sampleEntry_valid rfl (by decide)
  · exact sampleEntry_valid rfl (by decide)

private theorem sampleWeights_valid :
    validateWeights binary64Arithmetic (sampleReceipt sampleEntries).weights [submissionC, submissionB, submissionA] =
      .ok () := by
  decide +kernel

private theorem sampleReceipt_fixed : validateFixed (sampleReceipt sampleEntries) = .ok () := by
  decide +kernel

theorem sampleStances_valid : validateStances (sampleReceipt sampleEntries).quorum (sampleReceipt sampleEntries).stances
      [submissionC, submissionB, submissionA] = .ok () := by
  decide +kernel

theorem sampleReceipt_valid : (sampleReceipt sampleEntries).validate compactReader binary64Arithmetic = .ok () := by
  rw [validate_eq_ok]
  exact ⟨sampleReceipt_fixed, cons_ne_nil _ _, sampleEntries_valid, rfl, _, submissionsOf_sampleEntries,
    sampleStances_valid, rfl, sampleWeights_valid⟩

theorem sampleSorted_mean :
    binary64Arithmetic.meanWeightsBps (weightVectors compactReader binary64Arithmetic sampleSorted) ≠
      binary64Arithmetic.meanWeightsBps (weightVectors compactReader binary64Arithmetic sampleEntries) := by
  rw [← filterMap_submissions submissionsOf_sampleEntries, ← filterMap_submissions submissionsOf_sampleSorted]
  decide +kernel

theorem sampleSorted_perm : sampleSorted.Perm (sampleReceipt sampleEntries).analystSignatures :=
  reverse_perm sampleEntries

private theorem sampleEntries_ordered : (sampleReceipt sampleEntries).ordered = sampleReceipt sampleSorted := by
  have hnodup := nodup_of_validate sampleReceipt_valid
  have hsort : sortSignatures sampleSorted = sampleSorted := by
    apply mergeSort_of_pairwise
    decide
  have hperm := sortSignatures_eq_of_perm hnodup sampleSorted_perm
  rw [hsort] at hperm
  rw [ordered, ← hperm]
  rfl

/-- A receipt over two submissions, the later member first. -/
def pairReceipt : ConsensusReceipt :=
  { sampleReceipt [sampleEntry "b" submissionB, sampleEntry "a" submissionA] with
    quorum := ⟨2, 2, 0, 10000⟩
    stances := ⟨0, 0, 2, 0, 0⟩
    judge := ⟨"r", [], ⟨"safe", false, 2, 1, []⟩, "model", "enforce"⟩
    weights := some (zipWith BucketWeight.mk canonicalBucketOrder [790, 1396, 1622, 6192]) }

def pairSorted : List AnalystSignature := [sampleEntry "a" submissionA, sampleEntry "b" submissionB]

theorem pairSorted_perm : pairSorted.Perm pairReceipt.analystSignatures := List.Perm.swap _ _ _

private theorem submissionsOf_pairReceipt :
    pairReceipt.analystSignatures.mapM (submissionOf compactReader "s") = .ok [submissionB, submissionA] := by
  simp only [pairReceipt, sampleReceipt, mapM_cons, submissionOf_a, submissionOf_b, mapM_nil]
  rfl

private theorem submissionsOf_pairSorted :
    pairSorted.mapM (submissionOf compactReader "s") = .ok [submissionA, submissionB] := by
  simp only [pairSorted, mapM_cons, submissionOf_a, submissionOf_b, mapM_nil]
  rfl

theorem pairReceipt_valid : pairReceipt.validate compactReader binary64Arithmetic = .ok () := by
  have hfixed : validateFixed pairReceipt = .ok () := by decide +kernel
  have hstances : validateStances pairReceipt.quorum pairReceipt.stances [submissionB, submissionA] = .ok () := by
    decide +kernel
  have hweights : validateWeights binary64Arithmetic pairReceipt.weights [submissionB, submissionA] = .ok () := by
    decide +kernel
  have hentries : validateEntries pairReceipt.analystSignatures [] = .ok () := by
    rw [validateEntries_eq_ok]
    refine ⟨?_, by decide, by simp⟩
    intro s hs
    obtain rfl | rfl : s = sampleEntry "b" submissionB ∨ s = sampleEntry "a" submissionA := by
      simpa [pairReceipt, sampleReceipt] using hs
    · exact sampleEntry_valid rfl (by decide)
    · exact sampleEntry_valid rfl (by decide)
  rw [validate_eq_ok]
  exact ⟨hfixed, cons_ne_nil _ _, hentries, rfl, _, submissionsOf_pairReceipt, hstances, rfl, hweights⟩

/-- Two submissions give each bucket at most two weights. -/
theorem pairSorted_immaterial :
    OrderImmaterial (weightVectors compactReader binary64Arithmetic pairSorted)
      (weightVectors compactReader binary64Arithmetic pairReceipt.analystSignatures) := by
  intro _ bucket hbucket
  refine .inr (.inl ?_)
  rw [← filterMap_submissions submissionsOf_pairSorted]
  revert bucket
  decide +kernel

theorem sortSignatures_pairReceipt :
    sortSignatures pairReceipt.analystSignatures = pairSorted := by
  rw [← sortSignatures_eq_of_perm (nodup_of_validate pairReceipt_valid)
    pairSorted_perm]
  apply mergeSort_of_pairwise
  decide

end RobotMoney.Client
