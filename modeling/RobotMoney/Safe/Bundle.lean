import RobotMoney.Json.Layout
import RobotMoney.Safe.Signatures

/-!
# Signature bundles (`safeProposal.ts`, `safe/tx.ts`)

A bundle `robotmoney-safe-tx/1` holds one Safe transaction and the signatures of some owners.  Both tools write it as
indented JSON.  The dapp reads back what it writes (`parseBundle_exportBundle`).

The fields whose type has one value only (the format, the zero value, operation and gas fields) are written and checked,
but not kept.  A number is kept as its text.
-/

namespace RobotMoney.Safe

open Evm JsonText List

structure SafeTxBundle where
  chainId : Number
  safe : Address
  safeVersion : String
  timelock : Option Address
  action : String
  description : String
  toAddress : Address
  data : Hex
  gasToken : Address
  refundReceiver : Address
  nonce : Number
  safeTxHash : Hex
  timelockOperationId : Option Hex
  timelockMinDelay : Option String
  threshold : Number
  owners : List Address
  signatures : List BundleSignature
  proposedAt : String

def bundleFormat : String := "robotmoney-safe-tx/1"

def textValue (s : List Char) : Value := .string (String.ofList s)

def signatureValue (c : Crypto) (s : BundleSignature) : Value :=
  .ofEntries [("owner", some (textValue (checksumAddress c s.owner))), ("signature", some (textValue s.signature.text))]

/-- Where a bundle has its timelock fields: among the others as `newBundle` sets them, or last as `parseBundle` does. -/
inductive KeyOrder
  | built
  | parsed
  deriving DecidableEq

def SafeTxBundle.entries (c : Crypto) (order : KeyOrder) (b : SafeTxBundle) : List (String × Option Value) :=
  let address (a : Address) : Value := textValue (checksumAddress c a)
  let timelock := [("timelock", b.timelock.map address)]
  let operation := [("timelock_operation_id", b.timelockOperationId.map fun h => textValue h.text),
    ("timelock_min_delay", b.timelockMinDelay.map Value.string)]
  let among (fields : List (String × Option Value)) := if order = .built then fields else []
  [("format", some (.string bundleFormat)),
    ("chain_id", some (.number b.chainId)),
    ("safe", some (address b.safe)),
    ("safe_version", some (.string b.safeVersion))] ++ among timelock ++
  [("action", some (.string b.action)),
    ("description", some (.string b.description)),
    ("to", some (address b.toAddress)),
    ("value", some (.string "0")),
    ("data", some (textValue b.data.text)),
    ("operation", some (.ofNat 0)),
    ("safe_tx_gas", some (.string "0")),
    ("base_gas", some (.string "0")),
    ("gas_price", some (.string "0")),
    ("gas_token", some (address b.gasToken)),
    ("refund_receiver", some (address b.refundReceiver)),
    ("nonce", some (.number b.nonce)),
    ("safe_tx_hash", some (textValue b.safeTxHash.text))] ++ among operation ++
  [("threshold", some (.number b.threshold)),
    ("owners", some (.array (b.owners.map address))),
    ("signatures", some (.array (b.signatures.map (signatureValue c)))),
    ("proposed_at", some (.string b.proposedAt))] ++ if order = .built then [] else timelock ++ operation

def SafeTxBundle.toValue (c : Crypto) (order : KeyOrder) (b : SafeTxBundle) : Value := .ofEntries (b.entries c order)

theorem SafeTxBundle.property?_toValue (c : Crypto) (order : KeyOrder) (b : SafeTxBundle) (key : String) :
    (b.toValue c order).property? key = ((b.entries c order).lookup key).join :=
  Value.property?_ofEntries (by cases order <;> simp [SafeTxBundle.entries]) key

/-- `exportBundle` of the dapp and `writeBundle` of the publishing tool: indented JSON and a line break. -/
def exportBundle (c : Crypto) (order : KeyOrder) (b : SafeTxBundle) : List Char :=
  stringify (b.toValue c order) ++ ['\n']

namespace Dapp

def isZero (n : Number) : Bool :=
  (n.text.takeWhile fun ch => ch ≠ 'e' && ch ≠ 'E').all fun ch => ch = '0' || ch = '-' || ch = '.'

def badField {α : Type} (name : String) : Result α :=
  refuse .bundleInvalid ("bundle field " ++ name ++ " must be the zero value this dapp signs")

def addr (c : Crypto) (v : Option Value) (name : String) : Result Address :=
  match v with
  | some (.string s) =>
    if isAddress c s.toList then .ok (addressOf s.toList)
    else refuse .bundleInvalid ("bundle field " ++ name ++ " is not an address")
  | _ => refuse .bundleInvalid ("bundle field " ++ name ++ " is not an address")

def hex (v : Option Value) (name : String) : Result Hex :=
  match v with
  | some (.string s) =>
    if h : isHex s.toList = true then .ok ⟨s.toList, h⟩
    else refuse .bundleInvalid ("bundle field " ++ name ++ " is not hex")
  | _ => refuse .bundleInvalid ("bundle field " ++ name ++ " is not hex")

def str (v : Option Value) (name : String) : Result String :=
  match v with
  | some (.string s) => .ok s
  | _ => refuse .bundleInvalid ("bundle field " ++ name ++ " is not a string")

def number (v : Option Value) : Result Number :=
  match v with
  | some (.number n) => .ok n
  | _ => refuse .bundleInvalid "chain_id, nonce and threshold must be numbers"

def array (v : Option Value) (message : String) : Result (List Value) :=
  match v with
  | some (.array items) => .ok items
  | _ => refuse .bundleInvalid message

/-- `=== "0"`. -/
def zeroText (v : Option Value) (name : String) : Result Unit :=
  match v with
  | some (.string "0") => .ok ()
  | _ => badField name

/-- `=== 0`. -/
def zeroNumber (v : Option Value) (name : String) : Result Unit :=
  match v with
  | some (.number n) => if isZero n then .ok () else badField name
  | _ => badField name

def optional {α : Type} (v : Option Value) (read : Option Value → Result α) : Result (Option α) :=
  match v with
  | none => .ok none
  | some v => (read (some v)).map some

def isRecord : Value → Bool
  | .object _ => true
  | _ => false

def parseSignature (c : Crypto) (s : Value) : Result BundleSignature := do
  revertIf (isRecord s = false) (.refused .bundleInvalid "a signature entry is malformed")
  let owner ← addr c (s.property? "owner") "signatures[].owner"
  let signature ← hex (s.property? "signature") "signatures[].signature"
  return { owner, signature }

def descriptionOf : Option Value → String
  | some (.string s) => s
  | _ => ""

/-- Whether the value under `format` is the text of this format. -/
def hasFormat (raw : Value) : Bool :=
  match raw.property? "format" with
  | some (.string s) => s = bundleFormat
  | _ => false

def parseBundle (c : Crypto) (json : List Char) : Result SafeTxBundle := do
  let raw ← (readText json).elim (refuse .bundleInvalid "the bundle is not JSON") .ok
  revertIf ((isRecord raw && hasFormat raw) = false) (.refused .bundleInvalid ("not a " ++ bundleFormat ++ " bundle"))
  let sigsRaw ← array (raw.property? "signatures") "the bundle has no signatures array"
  let signatures ← sigsRaw.mapM (parseSignature c)
  let ownersRaw ← array (raw.property? "owners") "the bundle has no owners array"
  let chainId ← number (raw.property? "chain_id")
  let nonce ← number (raw.property? "nonce")
  let threshold ← number (raw.property? "threshold")
  let safe ← addr c (raw.property? "safe") "safe"
  let safeVersion ← str (raw.property? "safe_version") "safe_version"
  let action ← str (raw.property? "action") "action"
  let description := descriptionOf (raw.property? "description")
  let toAddress ← addr c (raw.property? "to") "to"
  zeroText (raw.property? "value") "value"
  let data ← hex (raw.property? "data") "data"
  zeroNumber (raw.property? "operation") "operation"
  zeroText (raw.property? "safe_tx_gas") "safe_tx_gas"
  zeroText (raw.property? "base_gas") "base_gas"
  zeroText (raw.property? "gas_price") "gas_price"
  let gasToken ← addr c (raw.property? "gas_token") "gas_token"
  let refundReceiver ← addr c (raw.property? "refund_receiver") "refund_receiver"
  let safeTxHash ← hex (raw.property? "safe_tx_hash") "safe_tx_hash"
  let owners ← ownersRaw.mapM fun o => addr c (some o) "owners[]"
  let proposedAt ← str (raw.property? "proposed_at") "proposed_at"
  let timelock ← optional (raw.property? "timelock") fun v => addr c v "timelock"
  let timelockOperationId ← optional (raw.property? "timelock_operation_id") fun v => hex v "timelock_operation_id"
  let timelockMinDelay ← optional (raw.property? "timelock_min_delay") fun v => str v "timelock_min_delay"
  return { chainId, safe, safeVersion, timelock, action, description, toAddress, data, gasToken, refundReceiver, nonce,
           safeTxHash, timelockOperationId, timelockMinDelay, threshold, owners, signatures, proposedAt }

private theorem addr_checksumAddress (c : Crypto) (a : Address) (name : String) :
    addr c (some (textValue (checksumAddress c a))) name = .ok a := by
  simp [addr, textValue, isAddress_checksumAddress, addressOf_checksumAddress]

private theorem hex_text (h : Hex) (name : String) : hex (some (textValue h.text)) name = .ok h := by
  simp [hex, textValue, h.valid]

private theorem parseSignature_signatureValue (c : Crypto) (s : BundleSignature) :
    parseSignature c (signatureValue c s) = .ok s := by
  have howner : (signatureValue c s).property? "owner" = some (textValue (checksumAddress c s.owner)) :=
    Value.property?_ofEntries (by simp) "owner"
  have hsignature : (signatureValue c s).property? "signature" = some (textValue s.signature.text) :=
    Value.property?_ofEntries (by simp) "signature"
  unfold parseSignature
  rw [howner, hsignature, addr_checksumAddress, hex_text]
  rfl

private theorem mapM_map_eq_ok {α β : Type} {write : α → β} {read : β → Result α} (h : ∀ a, read (write a) = .ok a)
    (l : List α) :
    (l.map write).mapM read = .ok l := by
  induction l with
  | nil => rfl
  | cons a l ih =>
    rw [map_cons, mapM_cons, h a, ok_bind, ih]
    rfl

private theorem optional_map {α : Type} {read : Option Value → Result α} {write : α → Value}
    (h : ∀ a, read (some (write a)) = .ok a) (o : Option α) : optional (o.map write) read = .ok o := by
  cases o with
  | none => rfl
  | some a =>
    simp only [optional, Option.map_some, h a]
    rfl

theorem parseBundle_export (c : Crypto) (order : KeyOrder) (b : SafeTxBundle) :
    parseBundle c (exportBundle c order b) = .ok b := by
  have hprop := b.property?_toValue c order
  have hread : readText (exportBundle c order b) = some (b.toValue c order) := readText_stringify _ rfl rfl
  have hformat : hasFormat (b.toValue c order) = true := by
    rw [hasFormat, hprop]
    rfl
  have hrecord : ¬ (isRecord (b.toValue c order) && hasFormat (b.toValue c order)) = false := by
    rw [hformat]
    exact Bool.noConfusion
  unfold parseBundle
  rw [hread, Option.elim_some, ok_bind, revertIf_of_not _ hrecord, ok_bind]
  simp only [hprop]
  have hsignatures := mapM_map_eq_ok (parseSignature_signatureValue c) b.signatures
  have howners : (b.owners.map fun a => textValue (checksumAddress c a)).mapM (fun o => addr c (some o) "owners[]") =
      .ok b.owners := by
    apply mapM_map_eq_ok
    intro a
    exact addr_checksumAddress c a "owners[]"
  have htimelock : optional (b.timelock.map fun a => textValue (checksumAddress c a)) (fun v => addr c v "timelock") =
      .ok b.timelock := by
    apply optional_map
    intro a
    exact addr_checksumAddress c a "timelock"
  have hid : optional (b.timelockOperationId.map fun h => textValue h.text) (fun v => hex v "timelock_operation_id") =
      .ok b.timelockOperationId := optional_map (fun h => hex_text h _) b.timelockOperationId
  have hdelay : optional (b.timelockMinDelay.map Value.string) (fun v => str v "timelock_min_delay") =
      .ok b.timelockMinDelay := optional_map (fun _ => rfl) b.timelockMinDelay
  have hzero : ∀ name, zeroText (some (.string "0")) name = .ok () := fun _ => rfl
  have hzeroNumber : ∀ name, zeroNumber (some (.ofNat 0)) name = .ok () := fun _ => rfl
  have hstr : ∀ s name, str (some (.string s)) name = .ok s := fun _ _ => rfl
  cases order <;>
    simp only [SafeTxBundle.entries, reduceCtorEq, if_true, if_false, cons_append, nil_append,
      append_nil, lookup_cons, String.reduceBEq, Option.join_some, array, number, hstr, hzero, hzeroNumber,
      addr_checksumAddress, hex_text, ok_bind, hsignatures, howners, htimelock, hid, hdelay] <;>
    rfl

end Dapp

end RobotMoney.Safe
