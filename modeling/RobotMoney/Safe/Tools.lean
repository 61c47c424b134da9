import RobotMoney.Safe.Bundle

/-!
# Proposing, signing, importing and executing (`safeProposal.ts`, `SafeProposalPanel.tsx`, `safe/tx.ts`)

The steps of both Safe tools on a bundle: a new bundle, the signature of an owner, the import of the signatures of
another bundle, and the arguments of `execTransaction`.  Reads of the Safe and of the kit come in as arguments.  The
checks against the chain that only refuse (nonce, roles, balance, the Safe's own check of signatures) are left out.
-/

namespace RobotMoney.Safe

open Evm JsonText

/-- `a ?? b`. -/
def nullish (a b : Option Value) : Option Value :=
  match a with
  | none | some .null => b
  | some v => some v

/-- The arguments of `execTransaction`. -/
structure ExecTransactionArgs where
  toAddress : Address
  value : Nat
  data : Hex
  operation : Nat
  safeTxGas : Nat
  baseGas : Nat
  gasPrice : Nat
  gasToken : Address
  refundReceiver : Address
  signatures : Hex
  deriving DecidableEq

def execCall (b : SafeTxBundle) (signatures : Hex) : ExecTransactionArgs :=
  ⟨b.toAddress, 0, b.data, 0, 0, 0, 0, 0, 0, signatures⟩

namespace Dapp

structure NewBundleInput where
  chainId : Nat
  safe : Address
  timelock : Address
  toAddress : Address
  data : Hex
  nonce : Nat
  safeTxHash : Hex
  action : String
  description : String
  operationId : Hex
  minDelay : Nat
  threshold : Nat
  owners : List Address
  proposedAt : String

def newBundle (i : NewBundleInput) : SafeTxBundle where
  chainId := .ofNat i.chainId
  safe := i.safe
  safeVersion := "1.4.1"
  timelock := some i.timelock
  action := i.action
  description := i.description
  toAddress := i.toAddress
  data := i.data
  gasToken := 0
  refundReceiver := 0
  nonce := .ofNat i.nonce
  safeTxHash := i.safeTxHash
  timelockOperationId := some i.operationId
  timelockMinDelay := some (toString i.minDelay)
  threshold := .ofNat i.threshold
  owners := i.owners
  signatures := []
  proposedAt := i.proposedAt

/-- The signature of the connected owner, as the panel takes it: over the digest that the dapp built, into the bundle it
holds for that digest. -/
def signProposal (c : Crypto) (owners : List Address) (safeTxHash : Hex) (base : SafeTxBundle) (account : Address)
    (raw : List Char) : Result SafeTxBundle := do
  revertIf (account ∉ owners) (.refused .notOwner
    ("Refusing to sign: the connected wallet " ++ String.ofList (checksumAddress c account) ++
      " is not an owner of the Safe " ++
      String.ofList (checksumAddress c base.safe) ++
        ". Connect one of the Safe owners. Nothing was sent to the wallet."))
  let signature ← toSafeSignature raw
  let signer ← recoverSigner c safeTxHash signature
  revertIf (lcAddress signer ≠ lcAddress account) (.refused .signatureInvalid
    ("The wallet returned a signature from " ++ String.ofList (checksumAddress c signer) ++
      ", not from the connected " ++ String.ofList (checksumAddress c account) ++ "."))
  return { base with signatures := addSignature base.signatures ⟨account, signature⟩ }

def signatureOf (entry : Value) : Result String :=
  match nullish (entry.property? "signature") (entry.property? "data") with
  | some (.string s) => .ok s
  | _ => refuse .bundleInvalid "an imported entry has no signature"

def checkClaimed (c : Crypto) (entry : Value) (recovered : Address) : Result Unit :=
  match nullish (entry.property? "owner") (entry.property? "signer") with
  | some (.string claimed) =>
    revertIf (sameAddress claimed.toList recovered = false) (.refused .signatureInvalid
      ("an imported signature claims " ++ claimed ++ " but recovers to " ++
        String.ofList (checksumAddress c recovered) ++ " for this transaction hash"))
  | _ => .ok ()

def importEntry (c : Crypto) (current : SafeTxBundle) (signatures : List BundleSignature) (entry : Value) :
    Result (List BundleSignature) := do
  revertIf (isRecord entry = false) (.refused .bundleInvalid "an imported entry is malformed")
  let sig ← signatureOf entry
  let normalised ← toSafeSignature sig.toList
  let recovered ← recoverSigner c current.safeTxHash normalised
  checkClaimed c entry recovered
  revertIf (recovered ∉ current.owners) (.refused .notOwner
    ("an imported signature recovers to " ++ String.ofList (checksumAddress c recovered) ++
      ", who is not an owner of the Safe"))
  return addSignature signatures ⟨recovered, normalised⟩

def checkHash (current : SafeTxBundle) (parsed : Value) : Result Unit :=
  match nullish (parsed.property? "safe_tx_hash") (parsed.property? "safeTxHash") with
  | some (.string theirHash) =>
    revertIf (HexText.lower theirHash.toList ≠ current.safeTxHash.lc) (.refused .digestMismatch
      "the imported signatures are for a different Safe transaction hash")
  | _ => .ok ()

def importSignatures (c : Crypto) (current : SafeTxBundle) (source : List Char) : Result SafeTxBundle := do
  let parsed ← (readText source).elim (refuse .bundleInvalid "the imported text is not JSON") .ok
  revertIf (isRecord parsed = false) (.refused .bundleInvalid "the imported JSON is not an object")
  checkHash current parsed
  let list ← array (parsed.property? "signatures") "no signatures array in the imported JSON"
  let signatures ← list.foldlM (importEntry c current) current.signatures
  return { current with signatures }

/-- The arguments of `execTransaction`: the signatures of the first owners, as many as the threshold. -/
def execTransactionArgs (c : Crypto) (b : SafeTxBundle) : Result ExecTransactionArgs := do
  let threshold ← orThrow b.threshold.toNat?
  revertIf (b.signatures.length < threshold) (.refused .signatureInvalid
    ("the bundle has " ++ toString b.signatures.length ++ " signatures, the Safe needs " ++
      String.ofList b.threshold.text))
  let packed ← packSignatures c ((Keyed.sort byOwnerAscending b.signatures).take threshold)
  return execCall b packed

end Dapp

namespace Publish

/-- The Safe that the tool is connected to. -/
structure SafeHandle where
  chainId : Nat
  address : Address
  version : String
  owners : List Address
  threshold : Nat

structure ProposeOpts where
  toAddress : Address
  data : Hex
  action : Option String
  description : Option String
  timelock : Option Address
  timelockOperationId : Option Hex
  timelockMinDelay : Option Nat

def timelockAbi : List String :=
  ["function getMinDelay() view returns (uint256)",
    "function hasRole(bytes32 role, address account) view returns (bool)",
    "function isOperation(bytes32 id) view returns (bool)",
    "function isOperationPending(bytes32 id) view returns (bool)",
    "function isOperationReady(bytes32 id) view returns (bool)",
    "function isOperationDone(bytes32 id) view returns (bool)",
    "function getTimestamp(bytes32 id) view returns (uint256)",
    "function hashOperation(address target, uint256 value, bytes data, bytes32 predecessor, bytes32 salt) pure returns (bytes32)",
    "function hashOperationBatch(address[] targets, uint256[] values, bytes[] payloads, bytes32 predecessor, bytes32 salt) pure returns (bytes32)",
    "function schedule(address target, uint256 value, bytes data, bytes32 predecessor, bytes32 salt, uint256 delay)",
    "function scheduleBatch(address[] targets, uint256[] values, bytes[] payloads, bytes32 predecessor, bytes32 salt, uint256 delay)",
    "function execute(address target, uint256 value, bytes payload, bytes32 predecessor, bytes32 salt) payable",
    "function executeBatch(address[] targets, uint256[] values, bytes[] payloads, bytes32 predecessor, bytes32 salt) payable",
    "function cancel(bytes32 id)",
    "function updateDelay(uint256 newDelay)"]

def timelockAllowedFunctions : List String := ["schedule", "scheduleBatch", "execute", "executeBatch", "cancel"]

def assertTimelockCall (c : Crypto) (toAddress : Address) (data : Hex) (timelock : Address) : Result Unit := do
  revertIf (toAddress ≠ timelock) (.refused .callNotAllowed ("the bundle's target " ++
    String.ofList (checksumAddress c toAddress) ++ " is not the timelock " ++
      String.ofList (checksumAddress c timelock)))
  revertIf ((c.decodeFunctionName timelockAbi data.toBytes).all (fun fn => fn ∉ timelockAllowedFunctions))
    (.refused .callNotAllowed ("the calldata selector " ++ String.ofList (data.text.take 10) ++
      " is not one of the timelock's schedule, execute, scheduleBatch, executeBatch or cancel"))

def proposeTx (c : Crypto) (handle : SafeHandle) (o : ProposeOpts) (nonce : Nat) (sdkHash onchain : Hex)
    (proposedAt : String) : Result SafeTxBundle := do
  revertIf ((o.data.text.length - 2) % 2 ≠ 0) (.refused .badInput "data must be 0x hex calldata")
  o.timelock.elim (.ok ()) (assertTimelockCall c o.toAddress o.data)
  let hash ← safeTxHashOf c handle.chainId handle.address o.toAddress o.data nonce sdkHash onchain
  return { chainId := .ofNat handle.chainId
           safe := handle.address
           safeVersion := handle.version
           timelock := o.timelock
           action := o.action.getD "call"
           description := o.description.getD ""
           toAddress := o.toAddress
           data := o.data
           gasToken := 0
           refundReceiver := 0
           nonce := .ofNat nonce
           safeTxHash := hash
           timelockOperationId := o.timelockOperationId
           timelockMinDelay := o.timelockMinDelay.map toString
           threshold := .ofNat handle.threshold
           owners := handle.owners
           signatures := []
           proposedAt }

/-- What a signer offers: its account, its modes, and the wallet signature of a hash for a mode. -/
structure Signer where
  kind : String
  address : Address
  modes : List SignMode
  sign : Hex → SignMode → Hex

def SignMode.text : SignMode → String
  | .raw => "raw"
  | .ethSign => "eth_sign"

/-- The mode asked for, or `raw` when the signer can. -/
def Signer.mode (signer : Signer) (asked : Option SignMode) : SignMode :=
  asked.getD (if .raw ∈ signer.modes then .raw else .ethSign)

def signTx (c : Crypto) (owners : List Address) (bundle : SafeTxBundle) (signer : Signer) (asked : Option SignMode) :
    Result SafeTxBundle := do
  revertIf (signer.address ∉ owners)
    (.refused .notOwner ("the signer " ++ String.ofList (checksumAddress c signer.address) ++
    " is not an owner of the Safe. Nothing was signed."))
  let mode := signer.mode asked
  revertIf (mode ∉ signer.modes) (.refused .unsupportedSignMode
    ("a " ++ signer.kind ++ " signer cannot sign in mode " ++ mode.text))
  let sig ← toSafeSignature (signer.sign bundle.safeTxHash mode) mode
  revertIf (verifySafeSignature c bundle.safeTxHash signer.address sig = false) (.refused .signatureInvalid
    ("the signature does not recover to " ++ String.ofList (checksumAddress c signer.address)))
  return { bundle with signatures := addSignature bundle.signatures ⟨signer.address, sig⟩ }

/-- The white space that `trim` takes away. -/
def isTrimmed (ch : Char) : Bool :=
  ch.toNat ∈ [9, 10, 11, 12, 13, 32, 160, 0x1680, 0x2028, 0x2029, 0x202f, 0x205f, 0x3000, 0xfeff] ||
    (0x2000 ≤ ch.toNat && ch.toNat ≤ 0x200a)

def trim (s : List Char) : List Char := ((s.dropWhile isTrimmed).reverse.dropWhile isTrimmed).reverse

/-- Where signatures are imported from. -/
inductive Source where
  | text (s : List Char)
  | object (v : Value)

/-- An imported signature, and the owner it names. -/
structure Claim where
  owner : Option Value
  sig : Value

def truthy : Option Value → Bool
  | none | some .null | some (.bool false) => false
  | some (.string s) => s ≠ ""
  | some (.number n) => !Dapp.isZero n
  | some _ => true

def readSource (files : List Char → Option (List Char)) : Source → Result Value
  | .object v => .ok v
  | .text s =>
    if isHex (trim s) then .ok (textValue (trim s))
    else
      match files (trim s) with
      | some content => orThrow (readText content)
      | none =>
        (readText (trim s)).elim
          (refuse .bundleInvalid "signature source is neither hex, JSON nor an existing file") .ok

def blobClaims (blob : List Char) : Result (List Claim) := do
  revertIf (blob = [] ∨
    blob.length % 130 ≠ 0) (.refused .signatureInvalid "a signature blob must be a multiple of 65 bytes")
  return (List.range (blob.length / 130)).map fun i => ⟨none, textValue ('0' :: 'x' :: (blob.drop (130 * i)).take 130)⟩

def claimOf : Value → Result Claim
  | .null => .error .other
  | e => do
    let sig := nullish (e.property? "signature") (e.property? "data")
    revertIf (truthy sig = false) (.refused .bundleInvalid "an imported entry has no signature (signature or data)")
    return ⟨nullish (e.property? "owner") (e.property? "signer"), sig.getD .null⟩

def checkHash (bundle : SafeTxBundle) (parsed : Value) : Result Unit :=
  let theirHash := nullish (parsed.property? "safeTxHash") (parsed.property? "safe_tx_hash")
  if truthy theirHash then
    match theirHash with
    | some (.string h) =>
      revertIf (HexText.lower h.toList ≠ bundle.safeTxHash.lc) (.refused .hashMismatch
        "the imported signatures are for a different Safe transaction hash")
    | _ => .error .other
  else .ok ()

/-- The entries of a document: an array, or the array under `signatures`. -/
def entriesOf (parsed : Value) : Result (List Value) :=
  match parsed with
  | .array items => .ok items
  | v =>
    match v.property? "signatures" with
    | some (.array items) => .ok items
    | _ => refuse .bundleInvalid "no signatures array in the imported JSON"

def claimsOf (bundle : SafeTxBundle) : Value → Result (List Claim)
  | .string s => blobClaims (s.toList.drop 2)
  | .null => .error .other
  | parsed => do
    checkHash bundle parsed
    let list ← entriesOf parsed
    list.mapM claimOf

def signatureOf : Value → Result Hex
  | .string s =>
    if h : isSignature s.toList = true then .ok ⟨s.toList, (Bool.and_eq_true_iff.1 h).1⟩
    else refuse .signatureInvalid "a signature must be 65 bytes of hex (r, s, v)"
  | _ => refuse .signatureInvalid "a signature must be 65 bytes of hex (r, s, v)"

def checkClaimed (c : Crypto) (owner : Option Value) (recovered : Address) : Result Unit :=
  if truthy owner then
    match owner with
    | some (.string claimed) =>
      revertIf (sameAddress claimed.toList recovered = false) (.refused .signatureInvalid
        ("an imported signature claims " ++ claimed ++ " but recovers to " ++
          String.ofList (checksumAddress c recovered) ++ " for this transaction hash"))
    | _ => .error .other
  else .ok ()

def importClaim (c : Crypto) (owners : List Address) (safeTxHash : Hex) (signatures : List BundleSignature)
    (claim : Claim) :
    Result (List BundleSignature) := do
  let sig ← signatureOf claim.sig
  let recovered ← recoverSafeSigner c safeTxHash sig
  checkClaimed c claim.owner recovered
  revertIf (recovered ∉ owners) (.refused .notOwner
    ("an imported signature recovers to " ++ String.ofList (checksumAddress c recovered) ++
      ", who is not an owner of the Safe"))
  return addSignature signatures ⟨recovered, sig⟩

def importSignatureBundle (c : Crypto) (files : List Char → Option (List Char)) (owners : List Address)
    (bundle : SafeTxBundle) (source : Source) : Result SafeTxBundle := do
  let parsed ← readSource files source
  let claims ← claimsOf bundle parsed
  let signatures ← claims.foldlM (importClaim c owners bundle.safeTxHash) bundle.signatures
  return { bundle with signatures }

/-- The local checks of a bundle before it is sent: every signer is an owner, the owners ascend, and each signed. -/
def checkSignatures (c : Crypto) (owners : List Address) (safeTxHash : Hex) :
    Nat → Option Address → List BundleSignature → Result Unit
  | _, _, [] => .ok ()
  | i, prev, s :: rest => do
    revertIf (s.owner ∉ owners) (.refused .notOwner ("signature " ++ toString i ++ " claims " ++
      String.ofList (checksumAddress c s.owner) ++ ", which is not an owner of the Safe"))
    revertIf (prev = some s.owner) (.refused .signatureInvalid ("signature " ++ toString i ++ " repeats owner " ++
      String.ofList (lcAddress s.owner)))
    revertIf (prev.any fun p => !(lcAddress p < lcAddress s.owner)) (.refused .signatureInvalid
      ("signatures are not sorted by owner address ascending (" ++ String.ofList (lcAddress s.owner) ++ " after " ++
        String.ofList ((prev.map lcAddress).getD []) ++ ")"))
    revertIf (verifySafeSignature c safeTxHash s.owner s.signature = false) (.refused .signatureInvalid
      ("signature " ++ toString i ++ " does not recover to " ++ String.ofList (checksumAddress c s.owner) ++
        " for this Safe transaction hash"))
    checkSignatures c owners safeTxHash (i + 1) (some s.owner) rest

/-- The arguments of `execTransaction` that `executeTx` sends. -/
def executeTx (c : Crypto) (handle : SafeHandle) (bundle : SafeTxBundle) : Result ExecTransactionArgs := do
  revertIf (bundle.signatures.length < handle.threshold) (.refused .belowThreshold
    ("the bundle has " ++ toString bundle.signatures.length ++ " signatures, the Safe needs " ++
      toString handle.threshold))
  checkSignatures c handle.owners bundle.safeTxHash 0 none bundle.signatures
  return execCall bundle (packSignatures ((Keyed.sort byOwner bundle.signatures).take handle.threshold))

end Publish

end RobotMoney.Safe
