import Mathlib.Data.String.Basic
import RobotMoney.Client.ReceiptValidation

/-!
# Canonical bytes of a receipt

`canonical_bytes`, `from_json_slice` and `canonical_bytes_from_json_slice`.  The bytes of an accepted receipt determine
it up to the order of its analyst signatures (`eq_up_to_order`), and an accepted envelope has the bytes of the receipt
in it (`canonicalBytes_of_envelope`).  Another order of the entries has the same bytes if it is accepted
(`canonicalBytes_perm`): validation recomputes the mean of the weights from the entries as they are listed, before they
are sorted.
-/

namespace RobotMoney.Client

open Evm JsonText

def domainSeparator : String := "robotmoney:consensus-receipt:v1\n"

namespace ConsensusReceipt

variable (reader : JsonReader) (arith : WeightArithmetic)

def sortSignatures (l : List AnalystSignature) : List AnalystSignature :=
  l.mergeSort fun a b => decide (a.memberId ≤ b.memberId)

def ordered (r : ConsensusReceipt) : ConsensusReceipt :=
  { r with analystSignatures := sortSignatures r.analystSignatures }

def canonicalJson (r : ConsensusReceipt) : String := String.ofList (print r.ordered.toValue)

def canonicalBytes (r : ConsensusReceipt) : Except ReceiptError String := do
  r.validate reader arith
  .ok (domainSeparator ++ r.canonicalJson ++ "\n")

/-- The last steps of `from_json_slice`: null weights are refused, then the value is read. -/
def readReceipt (v : Value) : Except ReceiptError ConsensusReceipt :=
  match v.get? "weights", ofValue v with
  | some .null, _ => .error (.schema "weights")
  | _, none => .error .parse
  | _, some r => .ok r

def readEnvelope (parsed v : Value) : Except ReceiptError ConsensusReceipt :=
  match parsed.get? "canonicalBytes" with
  | some (.string published) => do
    let r ← readReceipt v
    let derived ← r.canonicalBytes reader arith
    revertIf (published ≠ derived) .canonicalBytesMismatch
    .ok r
  | _ => .error .envelopeCanonicalBytesMissing

/-- `from_json_slice`: a top level that is a receipt wins over one that holds a receipt. -/
def fromJsonSlice (raw : String) : Except ReceiptError ConsensusReceipt :=
  match reader.fromSlice raw with
  | none => .error .parse
  | some parsed =>
    if (parsed.get? "schema_version").isSome then readReceipt parsed
    else
      match parsed.get? "receipt" with
      | none => readReceipt parsed
      | some v =>
        if (v.get? "schema_version").isSome then readEnvelope reader arith parsed v else readReceipt parsed

def canonicalBytesFromJsonSlice (raw : String) : Except ReceiptError String := do
  let r ← fromJsonSlice reader arith raw
  r.canonicalBytes reader arith

variable {reader arith} {r r' : ConsensusReceipt}

theorem sortSignatures_perm (l : List AnalystSignature) : (sortSignatures l).Perm l := List.mergeSort_perm _ _

private theorem pairwise_sortSignatures (l : List AnalystSignature) :
    (sortSignatures l).Pairwise fun a b => a.memberId ≤ b.memberId := by
  have h : (sortSignatures l).Pairwise fun a b => decide (a.memberId ≤ b.memberId) = true := by
    apply List.pairwise_mergeSort
    · intro a b c hab hbc
      simp only [decide_eq_true_eq] at hab hbc ⊢
      exact hab.trans hbc
    · intro a b
      simpa using le_total a.memberId b.memberId
  exact h.imp fun h => by simpa using h

theorem sortSignatures_eq_of_perm {l l' : List AnalystSignature} (hnodup : (l.map (·.memberId)).Nodup)
    (h : l'.Perm l) : sortSignatures l' = sortSignatures l := by
  have hperm : (sortSignatures l').Perm (sortSignatures l) :=
    (sortSignatures_perm l').trans (h.trans (sortSignatures_perm l).symm)
  refine List.Perm.eq_of_pairwise ?_ (pairwise_sortSignatures l') (pairwise_sortSignatures l) hperm
  intro a b ha hb hab hba
  have ha : a ∈ l := h.mem_iff.1 ((sortSignatures_perm l').mem_iff.1 ha)
  have hb : b ∈ l := (sortSignatures_perm l).mem_iff.1 hb
  exact List.inj_on_of_nodup_map hnodup ha hb (le_antisymm hab hba)

theorem nodup_of_validate (h : r.validate reader arith = .ok ()) : (r.analystSignatures.map (·.memberId)).Nodup := by
  obtain ⟨-, -, hentries, -⟩ := validate_eq_ok.1 h
  exact (validateEntries_eq_ok.1 hentries).2.1

private theorem canonicalBytes_of_validate (h : r.validate reader arith = .ok ()) :
    r.canonicalBytes reader arith = .ok (domainSeparator ++ r.canonicalJson ++ "\n") := by
  rw [canonicalBytes, h]
  rfl

private theorem validate_of_canonicalBytes {bytes : String} (h : r.canonicalBytes reader arith = .ok bytes) :
    r.validate reader arith = .ok () := by
  simp only [canonicalBytes, bind_eq_ok] at h
  obtain ⟨u, hu, -⟩ := h
  exact hu

theorem canonicalBytes_perm (h : r.validate reader arith = .ok ()) {l : List AnalystSignature}
    (hl : l.Perm r.analystSignatures) :
    canonicalBytes reader arith { r with analystSignatures := l } = r.canonicalBytes reader arith ↔
      validate reader arith { r with analystSignatures := l } = .ok () := by
  have hordered : ordered { r with analystSignatures := l } = r.ordered := by
    simp only [ordered, sortSignatures_eq_of_perm (nodup_of_validate h) hl]
  rw [canonicalBytes_of_validate h]
  constructor
  · exact validate_of_canonicalBytes
  · intro hvalid
    rw [canonicalBytes_of_validate hvalid, canonicalJson, canonicalJson, hordered]

theorem get?_schemaVersion (r : ConsensusReceipt) :
    r.toValue.get? "schema_version" = some (.string r.schemaVersion) := by
  unfold toValue
  split <;> rfl

private theorem readReceipt_of_ofValue {v : Value} (hweights : v.get? "weights" ≠ some .null)
    (h : ofValue v = some r) : readReceipt v = .ok r := by
  unfold readReceipt
  rw [h]
  split
  · exact absurd ‹_› hweights
  · cases ‹some r = none›
  rename_i heq _
  cases heq
  rfl

private theorem get?_weights (r : ConsensusReceipt) : r.toValue.get? "weights" ≠ some .null := by
  unfold toValue
  split <;> exact fun hnull => by cases hnull

theorem readReceipt_toValue (r : ConsensusReceipt) : readReceipt r.toValue = .ok r :=
  readReceipt_of_ofValue (get?_weights r) (ofValue_toValue r)

/-- A reader that reads back all that is printed reads receipts back. -/
theorem readsReceipts_of_print (h : ∀ v, reader.fromSlice (String.ofList (print v)) = some v) :
    reader.ReadsReceipts :=
  fun r => ⟨r.toValue, h _, by rw [get?_schemaVersion]; rfl, get?_weights r, ofValue_toValue r⟩

/-- The canonical text of a receipt is read as the receipt with its entries in the order of the members. -/
theorem fromJsonSlice_canonicalJson (hreader : reader.ReadsReceipts) (r : ConsensusReceipt) :
    fromJsonSlice reader arith r.canonicalJson = .ok r.ordered := by
  obtain ⟨v, hread, hversion, hweights, hvalue⟩ := hreader r.ordered
  rw [fromJsonSlice, canonicalJson, hread]
  simp only [hversion, ↓reduceIte]
  exact readReceipt_of_ofValue hweights hvalue

private theorem ordered_eq_of_canonicalJson (h : r.canonicalJson = r'.canonicalJson) : r.ordered = r'.ordered := by
  have hprint : print r.ordered.toValue = print r'.ordered.toValue := String.ofList_injective h
  have hvalue : r.ordered.toValue = r'.ordered.toValue := by
    have := parse_print r.ordered.toValue
    rw [hprint, parse_print] at this
    exact (Option.some.inj this).symm
  have := ofValue_toValue r.ordered
  rw [hvalue, ofValue_toValue] at this
  exact (Option.some.inj this).symm

private theorem canonicalJson_eq_of_canonicalBytes (h : r.validate reader arith = .ok ())
    (h' : r'.validate reader arith = .ok ())
    (heq : r.canonicalBytes reader arith = r'.canonicalBytes reader arith) : r.canonicalJson = r'.canonicalJson := by
  rw [canonicalBytes_of_validate h, canonicalBytes_of_validate h', Except.ok.injEq] at heq
  have hlist := congrArg String.toList heq
  simp only [String.toList_append, List.append_cancel_right_eq, List.append_cancel_left_eq] at hlist
  exact String.toList_inj.1 hlist

private theorem readReceipt_ne_ok {fields : List (String × Value)} {v : Value} (h : fields.lookup "receipt" = some v) :
    readReceipt (.object fields) ≠ .ok r := by
  unfold readReceipt ofValue
  rw [Value.record_eq_none (by decide) h]
  intro heq
  split at heq
  · cases heq
  · cases heq
  rename_i hsome _
  cases hsome

/-- The canonical bytes determine an accepted receipt up to the order of its entries. -/
theorem eq_up_to_order (h : r.validate reader arith = .ok ()) (h' : r'.validate reader arith = .ok ())
    (heq : r.canonicalBytes reader arith = r'.canonicalBytes reader arith) :
    r'.analystSignatures.Perm r.analystSignatures ∧ r' = { r with analystSignatures := r'.analystSignatures } := by
  have hordered := ordered_eq_of_canonicalJson (canonicalJson_eq_of_canonicalBytes h h' heq)
  cases r
  cases r'
  simp only [ordered, mk.injEq] at hordered ⊢
  obtain ⟨rfl, rfl, rfl, rfl, rfl, rfl, rfl, rfl, rfl, hsorted, rfl⟩ := hordered
  refine ⟨?_, by simp⟩
  exact (sortSignatures_perm _).symm.trans (hsorted ▸ sortSignatures_perm _)

/-- An accepted envelope has the bytes of the receipt in it. -/
theorem canonicalBytes_of_envelope {rawBare rawEnvelope bytes : String} {v : Value}
    {fields : List (String × Value)}
    (hbare : reader.fromSlice rawBare = some v) (henvelope : reader.fromSlice rawEnvelope = some (.object fields))
    (hreceipt : fields.lookup "receipt" = some v)
    (h : canonicalBytesFromJsonSlice reader arith rawEnvelope = .ok bytes) :
    canonicalBytesFromJsonSlice reader arith rawBare = .ok bytes := by
  simp only [canonicalBytesFromJsonSlice, bind_eq_ok] at h ⊢
  obtain ⟨r, hr, hbytes⟩ := h
  refine ⟨r, ?_, hbytes⟩
  have hget : (Value.object fields).get? "receipt" = some v := hreceipt
  simp only [fromJsonSlice, henvelope, hget] at hr
  split at hr
  · exact (readReceipt_ne_ok hreceipt hr).elim
  split at hr
  · rename_i hversion
    unfold readEnvelope at hr
    split at hr
    · simp only [bind_eq_ok, Except.ok.injEq] at hr
      obtain ⟨r', hr', derived, -, u, -, rfl⟩ := hr
      simp only [fromJsonSlice, hbare, hversion, ↓reduceIte]
      exact hr'
    · cases hr
  · exact (readReceipt_ne_ok hreceipt hr).elim

end ConsensusReceipt

end RobotMoney.Client
