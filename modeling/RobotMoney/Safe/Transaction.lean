import RobotMoney.Evm.TypedData
import RobotMoney.Json.Record

/-!
# Safe transactions and their digests (`safeProposal.ts`, `safe/tx.ts`)

The texts that both Safe tools work on, addresses and hexadecimal data, and the EIP-712 digest of a Safe transaction as
each tool computes it.  The dapp computes it twice, by hand and with the library, and gives up when the two differ,
which they never do (`buildSafeTx_digest`).  Both tools sign a plain call only: no value, no gas, refund or token field.

Addresses are values here; their texts are checked where texts are read.  The hash function, the recovery of a signer
and the decoding of calldata are parameters.
-/

namespace RobotMoney.Safe

open Evm HexText List

/-- The library functions that are not interpreted. -/
structure Crypto where
  keccak256 : List UInt8 → List UInt8
  /-- The account that signed a hash, from the 65 bytes of its signature. -/
  ecrecover : List UInt8 → List UInt8 → Option Address
  /-- The function of an ABI that calldata calls. -/
  decodeFunctionName : List String → List UInt8 → Option String

/-- What a function throws: an error of the tool, or one of a library. -/
inductive Thrown (Code : Type) where
  | refused (code : Code) (message : String)
  | other
  deriving DecidableEq, Repr

def isHex : List Char → Bool
  | '0' :: 'x' :: rest => rest.all isHexDigit
  | _ => false

/-- A text of the type `Hex`. -/
@[ext]
structure Hex where
  text : List Char
  valid : isHex text = true
  deriving DecidableEq

namespace Hex

def lc (h : Hex) : List Char := lower h.text

def toBytes (h : Hex) : List UInt8 := bytes (h.text.drop 2)

/-- `toHex`. -/
def ofBytes (bs : List UInt8) : Hex where
  text := '0' :: 'x' :: HexText.ofBytes bs
  valid := all_eq_true.2 fun _ hc => isHexDigit_of_mem_ofBytes hc

theorem toBytes_eq_of_lc {h h' : Hex} (heq : h.lc = h'.lc) : h.toBytes = h'.toBytes := by
  apply bytes_eq_of_lower
  unfold lower
  rw [map_drop, map_drop]
  exact congrArg (drop 2) heq

end Hex

/-- `lc` of an address: its lower-case text. -/
def lcAddress (a : Address) : List Char := '0' :: 'x' :: digits 40 a.val

/-- `checksumAddress`: the letters under a high half byte of the hash of the text are upper case. -/
def checksumAddress (c : Crypto) (a : Address) : List Char :=
  let hash := HexText.ofBytes (c.keccak256 (Eip712.utf8 (String.ofList (digits 40 a.val))))
  '0' :: 'x' :: (digits 40 a.val).zipWith (fun d high => if high then d.toUpper else d)
    ((range 40).map fun i => decide (8 ≤ toNat [hash.getD i '0']))

def addressOf (s : List Char) : Address := Fin.ofNat _ (toNat (s.drop 2))

/-- `isAddress`: lower case, or with the right checksum. -/
def isAddress (c : Crypto) (s : List Char) : Bool :=
  isHex s && s.length = 42 && (lower s = s || s = checksumAddress c (addressOf s))

/-- `sameAddress` of a text and an address. -/
def sameAddress (s : List Char) (a : Address) : Bool := lower s = lcAddress a

theorem lcAddress_lt_iff {a b : Address} : lcAddress a < lcAddress b ↔ a < b := by
  have hbound : ∀ x : Address, x.val < 16 ^ 40 := fun x => x.isLt
  simp only [lcAddress, cons_lt_cons_iff, Char.lt_irrefl, true_and, false_or]
  rw [digits_lt_digits (hbound a) (hbound b)]
  rfl

theorem lcAddress_inj {a b : Address} : lcAddress a = lcAddress b ↔ a = b := by
  constructor
  · intro h
    have hdigits : digits 40 a.val = digits 40 b.val := by simpa [lcAddress] using h
    exact Fin.ext (digits_injective a.isLt b.isLt hdigits)
  · rintro rfl
    rfl

private theorem lower_checksumAddress (c : Crypto) (a : Address) : lower (checksumAddress c a) = lcAddress a := by
  have hzip : ∀ (ds : List Char) (bs : List Bool), ds.length = bs.length → (∀ d ∈ ds, ∃ k < 16, d = Nat.digitChar k) →
      lower (ds.zipWith (fun d high => if high then d.toUpper else d) bs) = ds := by
    intro ds
    induction ds with
    | nil => exact fun _ _ _ => rfl
    | cons d ds ih =>
      intro bs hlen hds
      obtain ⟨b, bs, rfl⟩ := exists_cons_of_length_eq_add_one hlen.symm
      obtain ⟨k, hk, rfl⟩ := hds d (by simp)
      have hd : ∀ k < 16, ∀ b : Bool,
          (if b then (Nat.digitChar k).toUpper else Nat.digitChar k).toLower = Nat.digitChar k := by decide
      rw [zipWith_cons_cons, lower, map_cons, hd k hk b]
      exact congrArg _ (ih bs (by simpa using hlen) fun d' hd' => hds d' (mem_cons_of_mem _ hd'))
  unfold checksumAddress lcAddress
  exact congrArg (fun ds => '0' :: 'x' :: ds) (hzip (digits 40 a.val) _ (by simp) fun d hd => mem_digits hd)

private theorem isHex_of_lower {s : List Char} (h : isHex (lower s) = true) (hmark : s.take 2 = ['0', 'x']) :
    isHex s = true := by
  obtain ⟨rest, rfl⟩ : ∃ rest, s = '0' :: 'x' :: rest :=
    ⟨s.drop 2, (take_append_drop 2 s).symm.trans (by rw [hmark]; rfl)⟩
  have hall : (lower rest).all isHexDigit = true := h
  rw [lower, all_map] at hall
  simpa [isHex, Function.comp_def] using hall

theorem addressOf_checksumAddress (c : Crypto) (a : Address) : addressOf (checksumAddress c a) = a := by
  have hlower := congrArg (drop 2) (lower_checksumAddress c a)
  rw [lower, ← map_drop] at hlower
  have hval : toNat ((checksumAddress c a).drop 2) = a.val := by
    rw [← toNat_lower, lower, hlower]
    exact toNat_digits a.isLt
  unfold addressOf
  rw [hval]
  exact Fin.ext (Nat.mod_eq_of_lt a.isLt)

theorem isAddress_checksumAddress (c : Crypto) (a : Address) : isAddress c (checksumAddress c a) = true := by
  have hlower := lower_checksumAddress c a
  have hhex : isHex (checksumAddress c a) = true := by
    apply isHex_of_lower
    · rw [hlower]
      exact all_eq_true.2 fun _ hc => isHexDigit_of_mem_digits hc
    · rfl
  have hlen : (checksumAddress c a).length = 42 := by
    have := congrArg length hlower
    simpa [lower, lcAddress] using this
  simp [isAddress, hhex, hlen, addressOf_checksumAddress]

theorem sameAddress_checksumAddress (c : Crypto) (a b : Address) :
    sameAddress (checksumAddress c a) b = decide (a = b) := by
  unfold sameAddress
  rw [lower_checksumAddress]
  exact decide_eq_decide.2 lcAddress_inj

def safeTxType : List Eip712.Field :=
  [⟨"to", .address⟩, ⟨"value", .uint 256⟩, ⟨"data", .bytes⟩, ⟨"operation", .uint 8⟩, ⟨"safeTxGas", .uint 256⟩,
    ⟨"baseGas", .uint 256⟩, ⟨"gasPrice", .uint 256⟩, ⟨"gasToken", .address⟩, ⟨"refundReceiver", .address⟩,
    ⟨"nonce", .uint 256⟩]

def safeTxMessage (toAddress : Address) (data : Hex) (nonce : Nat) : Eip712.Message :=
  [("to", .address toAddress), ("value", .uint 0), ("data", .bytes data.toBytes), ("operation", .uint 0),
    ("safeTxGas", .uint 0),
    ("baseGas", .uint 0), ("gasPrice", .uint 0), ("gasToken", .address 0), ("refundReceiver", .address 0),
    ("nonce", .uint nonce)]

namespace Dapp

/-- `SafeProposalErrorCode`. -/
inductive Code where
  | callNotAllowed
  | fieldNotAllowed
  | badInput
  | digestMismatch
  | bundleInvalid
  | signatureInvalid
  | notOwner
  deriving DecidableEq, Repr

abbrev Result := Except (Thrown Code)

def refuse {α : Type} (code : Code) (message : String) : Result α := .error (.refused code message)

def orThrow {α : Type} (o : Option α) : Result α := o.elim (.error .other) .ok

def domainSeparatorTypehash (c : Crypto) : List UInt8 :=
  c.keccak256 (Eip712.utf8 "EIP712Domain(uint256 chainId,address verifyingContract)")

def safeTxTypehash (c : Crypto) : List UInt8 :=
  c.keccak256 (Eip712.utf8
    ("SafeTx(address to,uint256 value,bytes data,uint8 operation,uint256 safeTxGas,uint256 baseGas," ++
    "uint256 gasPrice,address gasToken,address refundReceiver,uint256 nonce)"))

def timelockCallAbi : List String :=
  ["function schedule(address target, uint256 value, bytes data, bytes32 predecessor, bytes32 salt, uint256 delay)",
    "function execute(address target, uint256 value, bytes payload, bytes32 predecessor, bytes32 salt) payable",
    "function getMinDelay() view returns (uint256)",
    "function hasRole(bytes32 role, address account) view returns (bool)",
    "function hashOperation(address target, uint256 value, bytes data, bytes32 predecessor, bytes32 salt) pure returns (bytes32)",
    "function isOperationReady(bytes32 id) view returns (bool)"]

inductive TimelockFunction where
  | schedule
  | execute
  deriving DecidableEq, Repr

def timelockFunctionOf (c : Crypto) (data : Hex) : Result TimelockFunction :=
  match c.decodeFunctionName timelockCallAbi data.toBytes with
  | none =>
    refuse .callNotAllowed ("calldata selector " ++ String.ofList (data.text.take 10) ++
      " is not a timelock schedule or execute call")
  | some name =>
    if name = "schedule" then .ok .schedule
    else if name = "execute" then .ok .execute
    else refuse .callNotAllowed
      ("timelock " ++ name ++ " is not a proposal the dapp builds (only schedule and execute)")

/-- `BuildSafeTxInput`; the optional fields are there to be refused. -/
structure BuildSafeTxInput where
  chainId : Nat
  safe : Address
  timelock : Address
  toAddress : Address
  data : Hex
  nonce : Int
  value : Option Int
  operation : Option Int
  safeTxGas : Option Int
  baseGas : Option Int
  gasPrice : Option Int
  gasToken : Option Address
  refundReceiver : Option Address

structure SafeTxBuild where
  typedDataJson : List Char
  domainSeparator : Hex
  structHash : Hex
  safeTxHash : Hex
  timelockFunction : TimelockFunction

def typedDataJson (c : Crypto) (chainId : Nat) (safe toAddress : Address) (data : Hex) (nonce : Nat) : List Char :=
  let field (f : Eip712.Field) : JsonText.Value := .object [("name", .string f.name), ("type", .string f.type.name)]
  let text (s : List Char) : JsonText.Value := .string (String.ofList s)
  JsonText.print (.object [
    ("types", .object [("EIP712Domain", .array (Eip712.domainType.map field)),
      ("SafeTx", .array (safeTxType.map field))]),
    ("primaryType", .string "SafeTx"),
    ("domain", .object [("chainId", .ofNat chainId), ("verifyingContract", text (checksumAddress c safe))]),
    ("message", .object [("to", text (checksumAddress c toAddress)), ("value", .string "0"), ("data", text data.text),
      ("operation", .ofNat 0), ("safeTxGas", .string "0"), ("baseGas", .string "0"), ("gasPrice", .string "0"),
      ("gasToken", text (lcAddress 0)), ("refundReceiver", text (lcAddress 0)), ("nonce", .string (toString nonce))])])

def domainSeparator (c : Crypto) (chainId : Nat) (safe : Address) : Option (List UInt8) :=
  (Eip712.encodeAbiParameters [.bytes32 (domainSeparatorTypehash c), .uint 256 chainId, .address safe]).map c.keccak256

def structHash (c : Crypto) (toAddress : Address) (data : Hex) (nonce : Nat) : Option (List UInt8) :=
  (Eip712.encodeAbiParameters [.bytes32 (safeTxTypehash c), .address toAddress, .uint 256 0,
    .bytes32 (c.keccak256 data.toBytes),
    .uint 8 0, .uint 256 0, .uint 256 0, .uint 256 0, .address 0, .address 0, .uint 256 nonce]).map c.keccak256

def requireZero (name : String) (v : Option Int) : Result Unit :=
  revertIf (v.getD 0 ≠ 0) (.refused .fieldNotAllowed (name ++ " must be 0"))

def requireZeroAddress (name : String) (v : Option Address) : Result Unit :=
  revertIf (v.getD 0 ≠ 0) (.refused .fieldNotAllowed (name ++ " must be the zero address"))

def buildSafeTx (c : Crypto) (i : BuildSafeTxInput) : Result SafeTxBuild := do
  revertIf (i.chainId = 0) (.refused .badInput ("chainId must be a positive integer, got " ++ toString i.chainId))
  revertIf ((i.data.text.length - 2) % 2 ≠ 0) (.refused .badInput "data must be 0x hex calldata")
  revertIf (i.nonce < 0) (.refused .badInput "nonce must not be negative")
  revertIf (i.operation.getD 0 ≠ 0)
    (.refused .fieldNotAllowed "operation must be 0 (CALL). A delegatecall is never signed.")
  revertIf (i.value.getD 0 ≠ 0) (.refused .fieldNotAllowed "value must be 0. The proposal moves no ETH.")
  requireZero "safeTxGas" i.safeTxGas
  requireZero "baseGas" i.baseGas
  requireZero "gasPrice" i.gasPrice
  requireZeroAddress "gasToken" i.gasToken
  requireZeroAddress "refundReceiver" i.refundReceiver
  revertIf (i.toAddress ≠ i.timelock)
    (.refused .callNotAllowed ("the SafeTx target " ++ String.ofList (checksumAddress c i.toAddress) ++
    " is not the configured timelock " ++ String.ofList (checksumAddress c i.timelock)))
  let timelockFunction ← timelockFunctionOf c i.data
  let nonce := i.nonce.toNat
  let domainSeparator ← orThrow (domainSeparator c i.chainId i.safe)
  let structHash ← orThrow (structHash c i.toAddress i.data nonce)
  let safeTxHash := Hex.ofBytes (c.keccak256 ([0x19, 0x01] ++ domainSeparator ++ structHash))
  let viaViem ← orThrow
    (Eip712.hashTypedData c.keccak256 i.chainId i.safe "SafeTx" safeTxType (safeTxMessage i.toAddress i.data nonce))
  revertIf ((Hex.ofBytes viaViem).lc ≠ safeTxHash.lc)
    (.refused .digestMismatch "the two local EIP-712 computations disagree. Do not sign.")
  return { typedDataJson := typedDataJson c i.chainId i.safe i.toAddress i.data nonce
           domainSeparator := Hex.ofBytes domainSeparator
           structHash := Hex.ofBytes structHash
           safeTxHash
           timelockFunction }

private theorem domainSeparator_eq (c : Crypto) (chainId : Nat) (safe : Address) :
    domainSeparator c chainId safe = Eip712.hashDomain c.keccak256 chainId safe := by
  rfl

private theorem structHash_eq (c : Crypto) (toAddress : Address) (data : Hex) (nonce : Nat) :
    structHash c toAddress data nonce =
      Eip712.hashStruct c.keccak256 "SafeTx" safeTxType (safeTxMessage toAddress data nonce) := by
  rfl

private theorem hashTypedData_eq (c : Crypto) (chainId : Nat) (safe toAddress : Address) (data : Hex) (nonce : Nat) :
    Eip712.hashTypedData c.keccak256 chainId safe "SafeTx" safeTxType (safeTxMessage toAddress data nonce) =
      (domainSeparator c chainId safe).bind fun d => (structHash c toAddress data nonce).bind fun t =>
        some (c.keccak256 ([0x19, 0x01] ++ d ++ t)) := by
  rw [domainSeparator_eq, structHash_eq]
  rfl

private theorem exists_domainSeparator {c : Crypto} {chainId : Nat} {safe : Address} :
    (∃ d, domainSeparator c chainId safe = some d) ↔ chainId < 2 ^ 256 := by
  rw [domainSeparator, Eip712.exists_map_encodeAbiParameters]
  simp [Eip712.Param.Fits]

private theorem exists_structHash {c : Crypto} {toAddress : Address} {data : Hex} {nonce : Nat} :
    (∃ t, structHash c toAddress data nonce = some t) ↔ nonce < 2 ^ 256 := by
  rw [structHash, Eip712.exists_map_encodeAbiParameters]
  simp [Eip712.Param.Fits]

/-- What the dapp signs: a plain call of its timelock, to schedule or to execute. -/
structure Signable (c : Crypto) (i : BuildSafeTxInput) : Prop where
  chainId : 0 < i.chainId ∧ i.chainId < 2 ^ 256
  data : (i.data.text.length - 2) % 2 = 0
  nonce : 0 ≤ i.nonce ∧ i.nonce < 2 ^ 256
  operation : i.operation.getD 0 = 0
  value : i.value.getD 0 = 0
  safeTxGas : i.safeTxGas.getD 0 = 0
  baseGas : i.baseGas.getD 0 = 0
  gasPrice : i.gasPrice.getD 0 = 0
  gasToken : i.gasToken.getD 0 = 0
  refundReceiver : i.refundReceiver.getD 0 = 0
  timelock : i.toAddress = i.timelock
  call : ∃ f, timelockFunctionOf c i.data = .ok f

theorem orThrow_eq_ok {α : Type} {o : Option α} {a : α} : orThrow o = .ok a ↔ o = some a := by
  cases o <;> simp [orThrow]

end Dapp

namespace Publish

/-- The codes of `SafeErrorCode` that these functions raise. -/
inductive Code where
  | badInput
  | bundleInvalid
  | hashMismatch
  | notOwner
  | signatureInvalid
  | belowThreshold
  | callNotAllowed
  | unsupportedSignMode
  deriving DecidableEq, Repr

abbrev Result := Except (Thrown Code)

def refuse {α : Type} (code : Code) (message : String) : Result α := .error (.refused code message)

def orThrow {α : Type} (o : Option α) : Result α := o.elim (.error .other) .ok

theorem orThrow_eq_ok {α : Type} {o : Option α} {a : α} : orThrow o = .ok a ↔ o = some a := by
  cases o <;> simp [orThrow]

def localSafeTxHash (c : Crypto) (chainId : Nat) (safe toAddress : Address) (data : Hex) (nonce : Nat) : Option Hex :=
  (Eip712.hashTypedData c.keccak256 chainId safe "SafeTx" safeTxType (safeTxMessage toAddress data nonce)).map
    Hex.ofBytes

/-- `safeTxHashOf`, with the hash that the kit computed and the one that the Safe answered. -/
def safeTxHashOf (c : Crypto) (chainId : Nat) (safe toAddress : Address) (data : Hex) (nonce : Nat)
    (sdkHash onchain : Hex) :
    Result Hex := do
  let hash ← orThrow (localSafeTxHash c chainId safe toAddress data nonce)
  revertIf (sdkHash.lc ≠ hash.lc) (.refused .hashMismatch
    "the SDK's Safe transaction hash differs from the local EIP-712 computation. Do not sign.")
  revertIf (onchain.lc ≠ sdkHash.lc) (.refused .hashMismatch
    "the SDK's Safe transaction hash differs from what the Safe computes for its own fields. Do not sign.")
  return sdkHash

theorem safeTxHashOf_eq_ok {c : Crypto} {chainId : Nat} {safe toAddress : Address} {data : Hex} {nonce : Nat}
    {sdkHash onchain hash : Hex} (h : safeTxHashOf c chainId safe toAddress data nonce sdkHash onchain = .ok hash) :
    ∃ d, localSafeTxHash c chainId safe toAddress data nonce = some d ∧ hash.lc = d.lc := by
  unfold safeTxHashOf at h
  simp only [bind_eq_ok, orThrow_eq_ok, revertIf_eq_ok, not_not] at h
  obtain ⟨d, hd, -, hsdk, -, -, heq⟩ := h
  obtain rfl : sdkHash = hash := by simpa [pure, Except.pure] using heq
  exact ⟨d, hd, hsdk⟩

end Publish

namespace Dapp

theorem exists_buildSafeTx {c : Crypto} {i : BuildSafeTxInput} : (∃ b, buildSafeTx c i = .ok b) ↔ Signable c i := by
  constructor
  · rintro ⟨b, h⟩
    unfold buildSafeTx requireZero requireZeroAddress at h
    simp only [bind_eq_ok, orThrow_eq_ok, revertIf_eq_ok, not_not, not_lt] at h
    obtain ⟨-, hchain, -, hdata, -, hnonce, -, hoperation, -, hvalue, -, hgas, -, hbase, -, hprice, -, htoken, -,
      hrefund, -, htimelock, f, hcall, d, hd, t, ht, -⟩ := h
    have hd := exists_domainSeparator.1 ⟨d, hd⟩
    have ht := exists_structHash.1 ⟨t, ht⟩
    exact ⟨⟨Nat.pos_of_ne_zero hchain, hd⟩, hdata, ⟨hnonce, by omega⟩, hoperation, hvalue, hgas, hbase, hprice,
      htoken, hrefund, htimelock, f, hcall⟩
  · intro h
    obtain ⟨f, hcall⟩ := h.call
    obtain ⟨d, hd⟩ := exists_domainSeparator.2 h.chainId.2
    obtain ⟨t, ht⟩ := exists_structHash.2 (show i.nonce.toNat < 2 ^ 256 by have := h.nonce; omega)
    have hviem := hashTypedData_eq c i.chainId i.safe i.toAddress i.data i.nonce.toNat
    rw [hd, ht] at hviem
    unfold buildSafeTx requireZero requireZeroAddress
    simp only [revertIf_of_not _ h.chainId.1.ne', revertIf_of_not _ (not_not.2 h.data),
      revertIf_of_not _ h.nonce.1.not_gt,
      revertIf_of_not _ (not_not.2 h.operation), revertIf_of_not _ (not_not.2 h.value),
      revertIf_of_not _ (not_not.2 h.safeTxGas), revertIf_of_not _ (not_not.2 h.baseGas),
      revertIf_of_not _ (not_not.2 h.gasPrice), revertIf_of_not _ (not_not.2 h.gasToken),
      revertIf_of_not _ (not_not.2 h.refundReceiver), revertIf_of_not _ (not_not.2 h.timelock), ok_bind, hcall, hd,
        ht, hviem, orThrow, Option.elim, Option.bind_some]
    rw [revertIf_of_not _ (not_not.2 rfl)]
    exact ⟨_, rfl⟩

theorem buildSafeTx_digest {c : Crypto} {i : BuildSafeTxInput} {b : SafeTxBuild} (h : buildSafeTx c i = .ok b) :
    Publish.localSafeTxHash c i.chainId i.safe i.toAddress i.data i.nonce.toNat = some b.safeTxHash := by
  unfold buildSafeTx at h
  simp only [bind_eq_ok, orThrow_eq_ok, revertIf_eq_ok] at h
  obtain ⟨-, -, -, -, -, -, -, -, -, -, -, -, -, -, -, -, -, -, -, -, -, -, f, -, d, hd, t, ht, -, -, -, -, hb⟩ := h
  have hviem := hashTypedData_eq c i.chainId i.safe i.toAddress i.data i.nonce.toNat
  rw [hd, ht] at hviem
  rw [Publish.localSafeTxHash, hviem, ← Except.ok.inj hb]
  rfl

end Dapp

end RobotMoney.Safe
