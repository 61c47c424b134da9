import RobotMoney.Evm.Chain
import RobotMoney.Evm.HexText

/-!
# ABI words and EIP-712 typed data

The encoding of static parameters, one 32-byte word each, and the digest of typed data: the type of a struct as a text,
the hash of a struct, and the hash of a message under a domain of a chain id and a verifying contract.  An integer that
does not fit its type is refused.  The hash function is a parameter.
-/

namespace Eip712

open Evm

def word (n : Nat) : List UInt8 := HexText.bytes (HexText.digits 64 n)

def utf8 (s : String) : List UInt8 := s.toUTF8.data.toList

inductive Param where
  | bytes32 (b : List UInt8)
  | uint (bits n : Nat)
  | address (a : Address)

def Param.encode : Param → Option (List UInt8)
  | .bytes32 b => some b
  | .uint bits n => if n < 2 ^ bits then some (word n) else none
  | .address a => some (word a.val)

def encodeAbiParameters (params : List Param) : Option (List UInt8) := (params.mapM Param.encode).map List.flatten

def Param.Fits : Param → Prop
  | .uint bits n => n < 2 ^ bits
  | _ => True

private theorem Param.exists_encode {p : Param} : (∃ b, p.encode = some b) ↔ p.Fits := by
  cases p with
  | bytes32 b => simp [encode, Fits]
  | uint bits n =>
    by_cases h : n < 2 ^ bits
    · simp [encode, Fits, h]
    · simp [encode, Fits, h]
  | address a => simp [encode, Fits]

private theorem exists_encodeAbiParameters {params : List Param} :
    (∃ b, encodeAbiParameters params = some b) ↔ ∀ p ∈ params, p.Fits := by
  induction params with
  | nil => simp [encodeAbiParameters]
  | cons p params ih =>
    rw [List.forall_mem_cons, ← Param.exists_encode, ← ih]
    unfold encodeAbiParameters
    rw [List.mapM_cons]
    cases p.encode with
    | none => simp
    | some b => cases params.mapM Param.encode <;> simp

theorem exists_map_encodeAbiParameters {α : Type} (f : List UInt8 → α) {params : List Param} :
    (∃ a, (encodeAbiParameters params).map f = some a) ↔ ∀ p ∈ params, p.Fits := by
  rw [← exists_encodeAbiParameters]
  cases encodeAbiParameters params <;> simp

inductive FieldType where
  | address
  | uint (bits : Nat)
  | bytes
  deriving DecidableEq, Repr

def FieldType.name : FieldType → String
  | .address => "address"
  | .uint bits => "uint" ++ toString bits
  | .bytes => "bytes"

structure Field where
  name : String
  type : FieldType

inductive FieldValue where
  | address (a : Address)
  | uint (n : Nat)
  | bytes (b : List UInt8)

abbrev Message := List (String × FieldValue)

/-- The text of a struct type, as `SafeTx(address to,uint256 value)`. -/
def encodeType (primaryType : String) (fields : List Field) : String :=
  primaryType ++ "(" ++ ",".intercalate (fields.map fun f => f.type.name ++ " " ++ f.name) ++ ")"

section

variable (keccak256 : List UInt8 → List UInt8)

def encodeField : FieldType → FieldValue → Option Param
  | .address, .address a => some (.address a)
  | .uint bits, .uint n => some (.uint bits n)
  | .bytes, .bytes b => some (.bytes32 (keccak256 b))
  | _, _ => none

def hashStruct (primaryType : String) (fields : List Field) (message : Message) : Option (List UInt8) := do
  let params ← fields.mapM fun f => (message.lookup f.name).bind (encodeField keccak256 f.type)
  (encodeAbiParameters (.bytes32 (keccak256 (utf8 (encodeType primaryType fields))) :: params)).map keccak256

def domainType : List Field := [⟨"chainId", .uint 256⟩, ⟨"verifyingContract", .address⟩]

def hashDomain (chainId : Nat) (verifyingContract : Address) : Option (List UInt8) :=
  hashStruct keccak256 "EIP712Domain" domainType
    [("chainId", .uint chainId), ("verifyingContract", .address verifyingContract)]

def hashTypedData (chainId : Nat) (verifyingContract : Address) (primaryType : String) (fields : List Field)
    (message : Message) : Option (List UInt8) := do
  let domain ← hashDomain keccak256 chainId verifyingContract
  let struct ← hashStruct keccak256 primaryType fields message
  return keccak256 ([0x19, 0x01] ++ domain ++ struct)

end

end Eip712
