import Mathlib.Data.String.Basic
import RobotMoney.Client.ReceiptValidation

/-!
# Receipt ids

A receipt is recorded on chain under a hash of its session and its subject.  The client builds the text that is hashed
by appending to a string, the contract packs the bytes of the same four parts.  The parts are not escaped: that the
text determines them is due to the patterns of the validator, under which a session always has 36 characters.
-/

namespace RobotMoney.Client

open Evm List

/-- The session and the subject of a receipt that passed the patterns of the validator. -/
structure ReceiptIds where
  sessionId : String
  subjectId : String
  session_uuid : isLowercaseUuid sessionId = true
  subject_slug : isSlug subjectId = true
  deriving DecidableEq

def receiptIdDomainSeparator : String := "robotmoney:consensus-receipt-id:v1\n"

/-- The text `derive_receipt_id` builds. -/
def receiptIdText (sessionId subjectId : String) : String :=
  receiptIdDomainSeparator ++ sessionId ++ "\n" ++ subjectId

/-- The bytes hashed by `derive_receipt_id`. -/
def deriveReceiptIdBytes (sessionId subjectId : String) : ByteArray := (receiptIdText sessionId subjectId).toUTF8

def deriveReceiptId {H : Type} (keccak256 : ByteArray → H) (sessionId subjectId : String) : H :=
  keccak256 (deriveReceiptIdBytes sessionId subjectId)

def receiptIdDomain : String := "robotmoney:consensus-receipt-id:v1\n"

/-- `abi.encodePacked` of byte strings. -/
def encodePacked (parts : List ByteArray) : ByteArray := parts.foldl (· ++ ·) ByteArray.empty

/-- The bytes hashed by `computeReceiptId`; the arguments are the bytes of the call data. -/
def computeReceiptIdBytes (sessionId subjectId : ByteArray) : ByteArray :=
  encodePacked [receiptIdDomain.toUTF8, sessionId, "\n".toUTF8, subjectId]

def computeReceiptId {H : Type} (keccak256 : ByteArray → H) (sessionId subjectId : ByteArray) : H :=
  keccak256 (computeReceiptIdBytes sessionId subjectId)

private theorem encodePacked_toUTF8 (parts : List String) :
    encodePacked (parts.map String.toUTF8) = (parts.foldl (· ++ ·) "").toUTF8 := by
  have key : ∀ s : String, (parts.map String.toUTF8).foldl (· ++ ·) s.toUTF8 = (parts.foldl (· ++ ·) s).toUTF8 := by
    induction parts with
    | nil => intro s; rfl
    | cons p parts ih =>
      intro s
      have hstep : s.toUTF8 ++ p.toUTF8 = (s ++ p).toUTF8 := by simp
      rw [map_cons, foldl_cons, foldl_cons, hstep, ih]
  exact key ""

private theorem deriveReceiptIdBytes_eq (sessionId subjectId : String) :
    deriveReceiptIdBytes sessionId subjectId = computeReceiptIdBytes sessionId.toUTF8 subjectId.toUTF8 := by
  have h := encodePacked_toUTF8 [receiptIdDomain, sessionId, "\n", subjectId]
  simp only [map_cons, map_nil, foldl_cons, foldl_nil, String.empty_append] at h
  rw [computeReceiptIdBytes, h]
  rfl

private theorem length_of_isLowercaseUuid {s : String} (h : isLowercaseUuid s = true) : s.toList.length = 36 := by
  rw [isLowercaseUuid, Bool.and_eq_true, decide_eq_true_eq] at h
  exact h.1

private theorem receiptIdText_injective {sessionId subjectId sessionId' subjectId' : String}
    (hlen : sessionId.toList.length = sessionId'.toList.length)
    (h : receiptIdText sessionId subjectId = receiptIdText sessionId' subjectId') :
    sessionId = sessionId' ∧ subjectId = subjectId' := by
  have hlist : receiptIdDomainSeparator.toList ++ (sessionId.toList ++ ("\n".toList ++ subjectId.toList)) =
      receiptIdDomainSeparator.toList ++ (sessionId'.toList ++ ("\n".toList ++ subjectId'.toList)) := by
    simpa [receiptIdText] using congrArg String.toList h
  obtain ⟨hsession, hrest⟩ := append_inj (append_cancel_left hlist) hlen
  exact ⟨String.toList_injective hsession, String.toList_injective (append_cancel_left hrest)⟩

namespace ReceiptIds

def ofReceipt {reader : JsonReader} {arith : WeightArithmetic} (r : ConsensusReceipt)
    (h : r.validate reader arith = .ok ()) : ReceiptIds where
  sessionId := r.sessionId
  subjectId := r.subjectId
  session_uuid := by
    have hfixed := (ConsensusReceipt.validate_eq_ok.1 h).1
    simp only [validateFixed, bind_eq_ok, revertIf_eq_ok, Bool.not_eq_false] at hfixed
    obtain ⟨-, -, -, huuid, -⟩ := hfixed
    exact huuid
  subject_slug := by
    have hfixed := (ConsensusReceipt.validate_eq_ok.1 h).1
    simp only [validateFixed, bind_eq_ok, revertIf_eq_ok, Bool.not_eq_false] at hfixed
    obtain ⟨-, -, -, -, -, hslug, -⟩ := hfixed
    exact hslug

variable (ids : ReceiptIds)

/-- The bytes the client hashes for `ids`. -/
def clientBytes : ByteArray := deriveReceiptIdBytes ids.sessionId ids.subjectId

/-- The bytes the contract hashes for `ids`. -/
def contractBytes : ByteArray := computeReceiptIdBytes ids.sessionId.toUTF8 ids.subjectId.toUTF8

private theorem clientBytes_injective : Function.Injective clientBytes := by
  intro ids ids' h
  have htext : receiptIdText ids.sessionId ids.subjectId = receiptIdText ids'.sessionId ids'.subjectId :=
    String.toByteArray_inj.1 h
  have hlen : ids.sessionId.toList.length = ids'.sessionId.toList.length := by
    rw [length_of_isLowercaseUuid ids.session_uuid, length_of_isLowercaseUuid ids'.session_uuid]
  obtain ⟨hsession, hsubject⟩ := receiptIdText_injective hlen htext
  cases ids
  cases ids'
  cases hsession
  cases hsubject
  rfl

end ReceiptIds

/-- The client and the contract hash the same bytes for every accepted session and subject, two accepted pairs that
differ give different bytes, and so, under a hash without collisions, different ids on chain. -/
theorem receipt_ids_agree :
    (∀ ids : ReceiptIds, ids.clientBytes = ids.contractBytes) ∧
      (∀ ids ids' : ReceiptIds, (ids.sessionId, ids.subjectId) ≠ (ids'.sessionId, ids'.subjectId) →
        ids.clientBytes ≠ ids'.clientBytes ∧ ids.contractBytes ≠ ids'.contractBytes) ∧
      ∀ (H : Type) (keccak256 : ByteArray → H), Function.Injective keccak256 → ∀ ids ids' : ReceiptIds,
        computeReceiptId keccak256 ids.sessionId.toUTF8 ids.subjectId.toUTF8 =
            deriveReceiptId keccak256 ids'.sessionId ids'.subjectId ↔ ids = ids' := by
  have hbytes : ∀ ids : ReceiptIds, ids.clientBytes = ids.contractBytes := fun ids =>
    deriveReceiptIdBytes_eq ids.sessionId ids.subjectId
  refine ⟨hbytes, ?_, ?_⟩
  · intro ids ids' hne
    have hclient : ids.clientBytes ≠ ids'.clientBytes := by
      intro h
      have heq := ReceiptIds.clientBytes_injective h
      exact hne (by rw [heq])
    exact ⟨hclient, by rwa [← hbytes ids, ← hbytes ids']⟩
  · intro H keccak256 hkeccak ids ids'
    have hcontract : computeReceiptId keccak256 ids.sessionId.toUTF8 ids.subjectId.toUTF8 =
        keccak256 ids.clientBytes := congrArg keccak256 (hbytes ids).symm
    rw [hcontract]
    constructor
    · intro h
      exact ReceiptIds.clientBytes_injective (hkeccak h)
    · rintro rfl
      rfl

/-- Two subjects of one session. -/
theorem receipt_ids_agree_two_subjects :
    ∃ ids ids' : ReceiptIds, ids.sessionId = ids'.sessionId ∧ ids.clientBytes = ids.contractBytes ∧
      ids.clientBytes ≠ ids'.clientBytes ∧
      computeReceiptId (fun bytes => bytes) ids.sessionId.toUTF8 ids.subjectId.toUTF8 =
        deriveReceiptId (fun bytes => bytes) ids.sessionId ids.subjectId := by
  refine ⟨⟨"3f2504e0-4f89-41d3-9a0c-0305e82c3301", "rm-usdc", by decide +kernel, by decide +kernel⟩,
    ⟨"3f2504e0-4f89-41d3-9a0c-0305e82c3301", "rm-basket", by decide +kernel, by decide +kernel⟩, rfl,
    receipt_ids_agree.1 _, (receipt_ids_agree.2.1 _ _ (by decide)).1, ?_⟩
  exact (receipt_ids_agree.2.2 ByteArray (fun bytes => bytes) (fun _ _ h => h) _ _).2 rfl

end RobotMoney.Client
