import RobotMoney.Evm.Checked
import RobotMoney.Json.Record

/-!
# Consensus recommendation receipts

The receipt of `consensus_receipt.rs`: its records with the fields in canonical order, their JSON values and the reader
of these, validation, and the canonical bytes whose hash is anchored on chain.  A string is its UTF-8 bytes, so the
bytes are modelled as a `String`.

Two things the module relies on are given from outside.  `fromSlice` reads a JSON text; where it matters that printed
receipts are read back, that is an assumption (`JsonReader.ReadsReceipts`).  The recomputation of the weights is
arithmetic on 64-bit floats (`WeightArithmetic`); it is handed the weight vectors in the order in which the receipt
lists the submissions.
-/

namespace RobotMoney.Client

open Evm JsonText List

/-- `serde_json::from_slice` into a value. -/
structure JsonReader where
  fromSlice : String → Option Value

structure Quorum where
  active : UInt64
  submitted : UInt64
  absent : UInt64
  participationBps : UInt32
  deriving DecidableEq

structure Stances where
  bearish : UInt64
  cautious : UInt64
  neutral : UInt64
  constructive : UInt64
  bullish : UInt64
  deriving DecidableEq

structure Position where
  memberId : String
  view : String
  deriving DecidableEq

structure Disagreement where
  topic : String
  positions : List Position
  whatSettles : String
  deriving DecidableEq

structure ReleaseSafety where
  release : String
  thinlySupported : Bool
  takeCount : UInt64
  minTakes : UInt64
  concerns : List String
  deriving DecidableEq

structure Judge where
  rationale : String
  disagreements : List Disagreement
  releaseSafety : ReleaseSafety
  source : String
  mode : String
  deriving DecidableEq

structure AnalystSignature where
  memberId : String
  publicKey : String
  canonicalSubmission : String
  signature : String
  revision : UInt64
  deriving DecidableEq

structure BucketWeight where
  bucket : String
  weightBps : UInt32
  deriving DecidableEq

structure ConsensusReceipt where
  schemaVersion : String
  sessionId : String
  subjectId : String
  createdAt : String
  promptHash : String
  inputsDigest : String
  quorum : Quorum
  stances : Stances
  judge : Judge
  analystSignatures : List AnalystSignature
  weights : Option (List BucketWeight)
  deriving DecidableEq

/-- What a derived serializer and deserializer of a record are: its field names in order, the value of each field, and
the record of the fields found. -/
structure RecordFormat (α : Type) where
  names : List String
  values : α → List Value
  build : List (Option Value) → Option α

namespace RecordFormat

variable {α : Type} (f : RecordFormat α)

def write (a : α) : Value := .object (f.names.zip (f.values a))

def read (v : Value) : Option α := (v.record f.names).bind f.build

private theorem read_write (hnames : f.names.Nodup) {a : α} (hlen : (f.values a).length = f.names.length)
    (hbuild : f.build ((f.values a).map some) = some a) : f.read (f.write a) = some a := by
  have hrecord := @Value.record_zip f.names [] (by simpa using hnames) (f.values a) hlen
  simp only [append_nil, map_nil] at hrecord
  rw [read, write, hrecord, Option.bind_some, hbuild]

end RecordFormat

def quorumFormat : RecordFormat Quorum where
  names := ["active", "submitted", "absent", "participation_bps"]
  values q := [.ofNat q.active.toNat, .ofNat q.submitted.toNat, .ofNat q.absent.toNat, .ofNat q.participationBps.toNat]
  build
    | [some active, some submitted, some absent, some bps] =>
      return ⟨← active.asU64, ← submitted.asU64, ← absent.asU64, ← bps.asU32⟩
    | _ => none

def stancesFormat : RecordFormat Stances where
  names := ["bearish", "cautious", "neutral", "constructive", "bullish"]
  values s := [.ofNat s.bearish.toNat, .ofNat s.cautious.toNat, .ofNat s.neutral.toNat, .ofNat s.constructive.toNat,
    .ofNat s.bullish.toNat]
  build
    | [some bearish, some cautious, some neutral, some constructive, some bullish] =>
      return ⟨← bearish.asU64, ← cautious.asU64, ← neutral.asU64, ← constructive.asU64, ← bullish.asU64⟩
    | _ => none

def positionFormat : RecordFormat Position where
  names := ["member_id", "view"]
  values p := [.string p.memberId, .string p.view]
  build
    | [some memberId, some view] => return ⟨← memberId.asString, ← view.asString⟩
    | _ => none

def disagreementFormat : RecordFormat Disagreement where
  names := ["topic", "positions", "what_settles"]
  values d := [.string d.topic, .array (d.positions.map positionFormat.write), .string d.whatSettles]
  build
    | [some topic, some positions, some whatSettles] =>
      return ⟨← topic.asString, ← positions.asList positionFormat.read, ← whatSettles.asString⟩
    | _ => none

def releaseSafetyFormat : RecordFormat ReleaseSafety where
  names := ["release", "thinly_supported", "take_count", "min_takes", "concerns"]
  values r := [.string r.release, .bool r.thinlySupported, .ofNat r.takeCount.toNat, .ofNat r.minTakes.toNat,
    .array (r.concerns.map .string)]
  build
    | [some release, some thinlySupported, some takeCount, some minTakes, some concerns] =>
      return ⟨← release.asString, ← thinlySupported.asBool, ← takeCount.asU64, ← minTakes.asU64,
        ← concerns.asList Value.asString⟩
    | _ => none

def judgeFormat : RecordFormat Judge where
  names := ["rationale", "disagreements", "release_safety", "source", "mode"]
  values j := [.string j.rationale, .array (j.disagreements.map disagreementFormat.write),
    releaseSafetyFormat.write j.releaseSafety, .string j.source, .string j.mode]
  build
    | [some rationale, some disagreements, some releaseSafety, some source, some mode] =>
      return ⟨← rationale.asString, ← disagreements.asList disagreementFormat.read,
        ← releaseSafetyFormat.read releaseSafety, ← source.asString, ← mode.asString⟩
    | _ => none

def analystSignatureFormat : RecordFormat AnalystSignature where
  names := ["member_id", "public_key", "canonical_submission", "signature", "revision"]
  values s := [.string s.memberId, .string s.publicKey, .string s.canonicalSubmission, .string s.signature,
    .ofNat s.revision.toNat]
  build
    | [some memberId, some publicKey, some canonicalSubmission, some signature, some revision] =>
      return ⟨← memberId.asString, ← publicKey.asString, ← canonicalSubmission.asString, ← signature.asString,
        ← revision.asU64⟩
    | _ => none

def bucketWeightFormat : RecordFormat BucketWeight where
  names := ["bucket", "weight_bps"]
  values w := [.string w.bucket, .ofNat w.weightBps.toNat]
  build
    | [some bucket, some weightBps] => return ⟨← bucket.asString, ← weightBps.asU32⟩
    | _ => none

private theorem quorum_read_write (q : Quorum) : quorumFormat.read (quorumFormat.write q) = some q :=
  quorumFormat.read_write (by decide) rfl (by simp [quorumFormat])

private theorem stances_read_write (s : Stances) : stancesFormat.read (stancesFormat.write s) = some s :=
  stancesFormat.read_write (by decide) rfl (by simp [stancesFormat])

private theorem position_read_write (p : Position) : positionFormat.read (positionFormat.write p) = some p :=
  positionFormat.read_write (by decide) rfl (by simp [positionFormat, Value.asString])

theorem disagreement_read_write (d : Disagreement) : disagreementFormat.read (disagreementFormat.write d) = some d :=
  disagreementFormat.read_write (by decide) rfl
    (by simp [disagreementFormat, Value.asString, Value.asList_map position_read_write])

private theorem releaseSafety_read_write (r : ReleaseSafety) :
    releaseSafetyFormat.read (releaseSafetyFormat.write r) = some r :=
  releaseSafetyFormat.read_write (by decide) rfl (by
    have hconcerns : Value.asList Value.asString (.array (r.concerns.map .string)) = some r.concerns :=
      @Value.asList_map _ _ Value.string (fun _ => rfl) r.concerns
    simp [releaseSafetyFormat, Value.asString, Value.asBool, hconcerns])

private theorem judge_read_write (j : Judge) : judgeFormat.read (judgeFormat.write j) = some j :=
  judgeFormat.read_write (by decide) rfl
    (by simp [judgeFormat, Value.asString, Value.asList_map disagreement_read_write, releaseSafety_read_write])

private theorem analystSignature_read_write (s : AnalystSignature) :
    analystSignatureFormat.read (analystSignatureFormat.write s) = some s :=
  analystSignatureFormat.read_write (by decide) rfl (by simp [analystSignatureFormat, Value.asString])

theorem bucketWeight_read_write (w : BucketWeight) : bucketWeightFormat.read (bucketWeightFormat.write w) = some w :=
  bucketWeightFormat.read_write (by decide) rfl (by simp [bucketWeightFormat, Value.asString])

namespace ConsensusReceipt

/-- The required fields, in canonical order; `weights` comes last when it is there. -/
def requiredNames : List String :=
  ["schema_version", "session_id", "subject_id", "created_at", "prompt_hash", "inputs_digest", "quorum", "stances",
    "judge", "analyst_signatures"]

def requiredValues (r : ConsensusReceipt) : List Value :=
  [.string r.schemaVersion, .string r.sessionId, .string r.subjectId, .string r.createdAt, .string r.promptHash,
    .string r.inputsDigest, quorumFormat.write r.quorum, stancesFormat.write r.stances, judgeFormat.write r.judge,
    .array (r.analystSignatures.map analystSignatureFormat.write)]

def weightsValue (weights : List BucketWeight) : Value := .array (weights.map bucketWeightFormat.write)

def toValue (r : ConsensusReceipt) : Value :=
  match r.weights with
  | none => .object (requiredNames.zip r.requiredValues)
  | some weights => .object ((requiredNames ++ ["weights"]).zip (r.requiredValues ++ [weightsValue weights]))

def readWeights : Option Value → Option (Option (List BucketWeight))
  | none => some none
  | some .null => some none
  | some v => (v.asList bucketWeightFormat.read).map some

def build : List (Option Value) → Option ConsensusReceipt
  | [some schemaVersion, some sessionId, some subjectId, some createdAt, some promptHash, some inputsDigest,
      some quorum, some stances, some judge, some analystSignatures, weights] =>
    return ⟨← schemaVersion.asString, ← sessionId.asString, ← subjectId.asString, ← createdAt.asString,
      ← promptHash.asString, ← inputsDigest.asString, ← quorumFormat.read quorum, ← stancesFormat.read stances,
      ← judgeFormat.read judge, ← analystSignatures.asList analystSignatureFormat.read, ← readWeights weights⟩
  | _ => none

/-- `serde_json::from_value`. -/
def ofValue (v : Value) : Option ConsensusReceipt := (v.record (requiredNames ++ ["weights"])).bind build

private theorem build_required (r : ConsensusReceipt) (weights : Option Value) :
    build (r.requiredValues.map some ++ [weights]) = (readWeights weights).map fun w => { r with weights := w } := by
  simp [requiredValues, build, Value.asString, quorum_read_write, stances_read_write, judge_read_write,
    Value.asList_map analystSignature_read_write, Option.map_eq_bind]

theorem ofValue_toValue (r : ConsensusReceipt) : ofValue r.toValue = some r := by
  unfold ofValue toValue
  split
  · rename_i hweights
    have hrecord := @Value.record_zip requiredNames ["weights"] (by decide) r.requiredValues rfl
    rw [hrecord, Option.bind_some, map_cons, map_nil, build_required]
    simp [readWeights, ← hweights]
  rename_i weights hweights
  have hrecord := @Value.record_zip (requiredNames ++ ["weights"]) [] (by decide)
    (r.requiredValues ++ [weightsValue weights]) rfl
  rw [append_nil, map_nil, append_nil, map_append, map_cons, map_nil] at hrecord
  have hread : readWeights (some (weightsValue weights)) = some (some weights) := by
    simp [readWeights, weightsValue, Value.asList_map bucketWeight_read_write]
  rw [hrecord, Option.bind_some, build_required, hread, ← hweights]
  rfl

end ConsensusReceipt

/-- A printed receipt is read back: as a value in which the receipt is found at the top level. -/
def JsonReader.ReadsReceipts (reader : JsonReader) : Prop :=
  ∀ r : ConsensusReceipt, ∃ v, reader.fromSlice (String.ofList (print r.toValue)) = some v ∧
    (v.get? "schema_version").isSome = true ∧ v.get? "weights" ≠ some .null ∧ ConsensusReceipt.ofValue v = some r

end RobotMoney.Client
