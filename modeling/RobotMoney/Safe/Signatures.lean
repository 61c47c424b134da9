import RobotMoney.Safe.Transaction
import RobotMoney.Sort.Keyed

/-!
# Owner signatures (`safeProposal.ts`, `safe/sig.ts`, `safe/tx.ts`)

How each Safe tool brings a signature into the form of the Safe, recovers its signer, keeps a list of signatures with
one per owner, and packs it.  The dapp knows the recovery bytes 27 and 28 only; the publishing tool also offers
`eth_sign` signatures, with 31 and 32.  On the signatures that both know, they do the same (`Publish.addSignature_eq`,
`Dapp.packSignatures_eq`).
-/

namespace RobotMoney.Safe

open Evm HexText List Except

structure BundleSignature where
  owner : Address
  signature : Hex
  deriving DecidableEq

/-- `^0x[0-9a-fA-F]{130}$`. -/
def isSignature (s : List Char) : Bool := isHex s && s.length = 132

/-- `parseInt(sig.slice(130, 132), 16)`. -/
def recoveryByte (s : List Char) : Nat := toNat ((s.drop 130).take 2)

private theorem isHexDigit_of_mem_drop {h : Hex} {ch : Char} (hmem : ch ∈ h.text.drop 2) : isHexDigit ch = true := by
  obtain ⟨text, hvalid⟩ := h
  unfold isHex at hvalid
  split at hvalid
  · exact all_eq_true.1 hvalid ch hmem
  · cases hvalid

namespace Hex

def withRecoveryByte (h : Hex) (v : Nat) : Hex where
  text := '0' :: 'x' :: ((h.text.drop 2).take 128 ++ digits 2 v)
  valid := by
    apply all_eq_true.2
    intro ch hch
    rcases mem_append.1 hch with hch | hch
    · exact isHexDigit_of_mem_drop (mem_of_mem_take hch)
    · exact isHexDigit_of_mem_digits hch

def join (l : List Hex) : Hex where
  text := '0' :: 'x' :: l.flatMap fun h => h.text.drop 2
  valid := by
    apply all_eq_true.2
    intro ch hch
    obtain ⟨h, -, hch⟩ := mem_flatMap.1 hch
    exact isHexDigit_of_mem_drop hch

variable {h : Hex} (hs : isSignature h.text = true)
include hs

private theorem length_of_isSignature : h.text.length = 132 := by
  simpa [isSignature, h.valid] using hs

private theorem isSignature_withRecoveryByte (v : Nat) : isSignature (h.withRecoveryByte v).text = true := by
  have hlen : (h.withRecoveryByte v).text.length = 132 := by simp [withRecoveryByte, length_of_isSignature hs]
  rw [isSignature, (h.withRecoveryByte v).valid, hlen]
  rfl

theorem recoveryByte_withRecoveryByte {v : Nat} (hv : v < 256) : recoveryByte (h.withRecoveryByte v).text = v := by
  have hlen := length_of_isSignature hs
  have hdrop : (h.withRecoveryByte v).text.drop 130 = digits 2 v := by
    have hbody : ((h.text.drop 2).take 128).length = 128 := by simp [hlen]
    exact drop_left' hbody
  rw [recoveryByte, hdrop, take_of_length_le (by simp)]
  exact toNat_digits hv

theorem withRecoveryByte_twice (v w : Nat) : (h.withRecoveryByte v).withRecoveryByte w = h.withRecoveryByte w := by
  have hlen := length_of_isSignature hs
  apply Hex.ext
  have hbody : ((h.withRecoveryByte v).text.drop 2).take 128 = (h.text.drop 2).take 128 := by
    apply take_left'
    simp [hlen]
  unfold withRecoveryByte at hbody ⊢
  simp only [hbody]

end Hex

namespace Dapp

def baseOf (v : Nat) : Nat := if v = 0 ∨ v = 1 then v + 27 else v

def toSafeSignature (sig : List Char) : Result Hex :=
  if hsig : isSignature sig = true then
    if baseOf (recoveryByte sig) ≠ 27 ∧ baseOf (recoveryByte sig) ≠ 28 then
      refuse .signatureInvalid ("unexpected recovery byte " ++ toString (recoveryByte sig) ++
        ". The dapp packs only EOA signatures with v 27 or 28.")
    else .ok (Hex.withRecoveryByte ⟨sig, (Bool.and_eq_true_iff.1 hsig).1⟩ (baseOf (recoveryByte sig)))
  else refuse .signatureInvalid "a signature must be 65 bytes of hex (r, s, v)"

def recoverSigner (c : Crypto) (safeTxHash signature : Hex) : Result Address := do
  let sig ← toSafeSignature signature.text
  orThrow (c.ecrecover safeTxHash.toBytes sig.toBytes)

def byOwnerAscending (a b : BundleSignature) : Int :=
  if lcAddress a.owner < lcAddress b.owner then -1 else if lcAddress b.owner < lcAddress a.owner then 1 else 0

def addSignature (signatures : List BundleSignature) (next : BundleSignature) : List BundleSignature :=
  Keyed.sort byOwnerAscending (signatures.filter (fun s => lcAddress s.owner ≠ lcAddress next.owner) ++ [next])

def signedTwice : List BundleSignature → Option Address
  | prev :: cur :: rest => if prev.owner = cur.owner then some cur.owner else signedTwice (cur :: rest)
  | _ => none

def packSignatures (c : Crypto) (signatures : List BundleSignature) : Result Hex := do
  let sorted := Keyed.sort byOwnerAscending signatures
  match signedTwice sorted with
  | some owner => refuse .signatureInvalid ("owner " ++ String.ofList (checksumAddress c owner) ++ " signed twice")
  | none => do
    let sigs ← sorted.mapM fun s => toSafeSignature s.signature.text
    return Hex.join sigs

end Dapp

namespace Publish

/-- `raw` signs the hash, `eth_sign` the hash as a message. -/
inductive SignMode where
  | raw
  | ethSign
  deriving DecidableEq, Repr

structure Split where
  r : List Char
  s : List Char
  v : Nat

def splitSignature (sig : List Char) : Result Split :=
  if isSignature sig then .ok ⟨'0' :: 'x' :: (sig.drop 2).take 64, '0' :: 'x' :: (sig.drop 66).take 64,
    recoveryByte sig⟩
  else refuse .signatureInvalid "a signature must be 65 bytes of hex (r, s, v)"

def baseOf (v : Nat) : Result Nat :=
  if v = 0 ∨ v = 1 then .ok (v + 27)
  else if v = 27 ∨ v = 28 then .ok v
  else refuse .signatureInvalid ("unexpected recovery byte " ++ toString v ++ " from the signer")

def toSafeSignature (sig : Hex) (mode : SignMode) : Result Hex := do
  let split ← splitSignature sig.text
  let base ← baseOf split.v
  return sig.withRecoveryByte (if mode = .ethSign then base + 4 else base)

def modeOf (sig : List Char) : Result SignMode := do
  let v := (← splitSignature sig).v
  if v = 27 ∨ v = 28 then .ok .raw
  else if v = 31 ∨ v = 32 then .ok .ethSign
  else refuse .signatureInvalid ("recovery byte " ++ toString v ++
    ": this tool packs only EOA signatures with v 27/28 (raw) or 31/32 (eth_sign); " ++
    "v 0 and 1 are contract signatures and v 4 is a pre-approved hash")

def hashMessage (c : Crypto) (raw : List UInt8) : List UInt8 :=
  c.keccak256 (Eip712.utf8 ("\x19Ethereum Signed Message:\n" ++ toString raw.length) ++ raw)

def recoverSafeSigner (c : Crypto) (safeTxHash sig : Hex) : Result Address := do
  let mode ← modeOf sig.text
  let v := (← splitSignature sig.text).v
  if mode = .raw then orThrow (c.ecrecover safeTxHash.toBytes sig.toBytes)
  else orThrow (c.ecrecover (hashMessage c safeTxHash.toBytes) (sig.withRecoveryByte (v - 4)).toBytes)

def verifySafeSignature (c : Crypto) (safeTxHash : Hex) (owner : Address) (sig : Hex) : Bool :=
  match recoverSafeSigner c safeTxHash sig with
  | .ok recovered => lcAddress recovered = lcAddress owner
  | .error _ => false

def byOwner (a b : BundleSignature) : Int := if lcAddress a.owner < lcAddress b.owner then -1 else 1

def addSignature (signatures : List BundleSignature) (s : BundleSignature) : List BundleSignature :=
  Keyed.sort byOwner (signatures.filter (fun x => lcAddress x.owner ≠ lcAddress s.owner) ++ [s])

def packSignatures (signatures : List BundleSignature) : Hex :=
  Hex.join ((Keyed.sort byOwner signatures).map fun s => s.signature)

end Publish

theorem follows_byOwnerAscending : Keyed.Follows BundleSignature.owner Dapp.byOwnerAscending := by
  intro a b hne
  simp only [Dapp.byOwnerAscending, lcAddress_lt_iff]
  rcases lt_or_gt_of_ne hne with h | h
  · simp [h]
  · simp [h, h.not_gt]

theorem follows_byOwner : Keyed.Follows BundleSignature.owner Publish.byOwner := by
  intro a b hne
  simp only [Publish.byOwner, lcAddress_lt_iff]
  rcases lt_or_gt_of_ne hne with h | h
  · simp [h]
  · simp [h.not_gt]

abbrev Ascending (l : List BundleSignature) : Prop := Keyed.Ascending BundleSignature.owner l

def put (l : List BundleSignature) (s : BundleSignature) : List BundleSignature :=
  Keyed.put BundleSignature.owner Dapp.byOwnerAscending l s

theorem Dapp.addSignature_eq (l : List BundleSignature) (s : BundleSignature) : Dapp.addSignature l s = put l s := by
  simp only [Dapp.addSignature, put, Keyed.put, ne_eq, lcAddress_inj]

variable {l : List BundleSignature}

theorem ascending_put (hl : Ascending l) (s : BundleSignature) : Ascending (put l s) :=
  Keyed.ascending_put follows_byOwnerAscending hl s

theorem mem_put {s t : BundleSignature} : t ∈ put l s ↔ t = s ∨ t ∈ l ∧ t.owner ≠ s.owner :=
  Keyed.mem_put

theorem Publish.addSignature_eq (hl : Ascending l) (s : BundleSignature) : Publish.addSignature l s = put l s := by
  have hput : Publish.addSignature l s = Keyed.put BundleSignature.owner Publish.byOwner l s := by
    simp only [Publish.addSignature, Keyed.put, ne_eq, lcAddress_inj]
  rw [hput]
  apply Keyed.eq_of_mem_iff (Keyed.ascending_put follows_byOwner hl s) (ascending_put hl s)
  intro t
  rw [mem_put, Keyed.mem_put]

private theorem signedTwice_of_ascending (hl : Ascending l) : Dapp.signedTwice l = none := by
  induction l with
  | nil => rfl
  | cons s l ih =>
    cases l with
    | nil => rfl
    | cons t l =>
      obtain ⟨hs, hl⟩ := pairwise_cons.1 hl
      rw [Dapp.signedTwice, if_neg (hs t (by simp)).ne]
      exact ih hl

/-- The form of the Safe for a signature of an account: 65 bytes with recovery byte 27 or 28. -/
structure Plain (sig : Hex) : Prop where
  size : isSignature sig.text = true
  byte : recoveryByte sig.text = 27 ∨ recoveryByte sig.text = 28
  lowerCase : sig.withRecoveryByte (recoveryByte sig.text) = sig

/-- A signature as the `eth_sign` mode makes it: recovery byte 31 or 32. -/
structure EthSigned (sig : Hex) : Prop where
  size : isSignature sig.text = true
  byte : recoveryByte sig.text = 31 ∨ recoveryByte sig.text = 32

theorem plain_withRecoveryByte {sig : Hex} (hsize : isSignature sig.text = true) {v : Nat} (hv : v = 27 ∨ v = 28) :
    Plain (sig.withRecoveryByte v) := by
  have hbyte := Hex.recoveryByte_withRecoveryByte hsize (show v < 256 by omega)
  refine ⟨Hex.isSignature_withRecoveryByte hsize v, ?_, ?_⟩
  · rwa [hbyte]
  · rw [hbyte, Hex.withRecoveryByte_twice hsize]

theorem ethSigned_withRecoveryByte {sig : Hex} (hsize : isSignature sig.text = true) {v : Nat} (hv : v = 31 ∨ v = 32) :
    EthSigned (sig.withRecoveryByte v) := by
  refine ⟨Hex.isSignature_withRecoveryByte hsize v, ?_⟩
  rwa [Hex.recoveryByte_withRecoveryByte hsize (by omega)]

namespace Dapp

theorem plain_of_toSafeSignature {sig : List Char} {out : Hex} (h : toSafeSignature sig = .ok out) : Plain out := by
  unfold toSafeSignature at h
  split at h
  · rename_i hsig
    split at h
    · cases h
    rename_i hbase
    rw [← ok.inj h]
    exact plain_withRecoveryByte hsig (by omega)
  · cases h

private theorem baseOf_eq_self {v : Nat} (h : 2 ≤ v) : baseOf v = v := if_neg (by omega)

variable {sig : Hex}

theorem toSafeSignature_of_plain (h : Plain sig) : toSafeSignature sig.text = .ok sig := by
  unfold toSafeSignature
  rw [dif_pos h.size, baseOf_eq_self (by have := h.byte; omega), if_neg (by have := h.byte; omega)]
  exact congrArg ok h.lowerCase

theorem toSafeSignature_of_ethSigned (h : EthSigned sig) :
    toSafeSignature sig.text =
      refuse .signatureInvalid ("unexpected recovery byte " ++ toString (recoveryByte sig.text) ++
      ". The dapp packs only EOA signatures with v 27 or 28.") := by
  unfold toSafeSignature
  rw [dif_pos h.size, baseOf_eq_self (by have := h.byte; omega), if_pos (by have := h.byte; omega)]

theorem recoverSigner_of_plain (c : Crypto) (hash : Hex) (h : Plain sig) :
    recoverSigner c hash sig = orThrow (c.ecrecover hash.toBytes sig.toBytes) := by
  unfold recoverSigner
  rw [toSafeSignature_of_plain h]
  rfl

end Dapp

namespace Publish

private theorem splitSignature_eq_ok {sig : List Char} {split : Split} (h : splitSignature sig = .ok split) :
    isSignature sig = true ∧ split.v = recoveryByte sig := by
  unfold splitSignature at h
  split at h
  · rename_i hsig
    rw [← ok.inj h]
    exact ⟨hsig, rfl⟩
  · cases h

def SignMode.Form : SignMode → Hex → Prop
  | .raw => Plain
  | .ethSign => EthSigned

theorem form_of_toSafeSignature {sig out : Hex} {mode : SignMode} (h : toSafeSignature sig mode = .ok out) :
    mode.Form out := by
  obtain ⟨split, hsplit, h⟩ := bind_eq_ok.1 h
  obtain ⟨base, hbase, h⟩ := bind_eq_ok.1 h
  have hsize := (splitSignature_eq_ok hsplit).1
  have hbase : base = 27 ∨ base = 28 := by
    unfold baseOf at hbase
    split at hbase
    · rename_i hv
      have := ok.inj hbase
      omega
    split at hbase
    · rename_i hv
      have := ok.inj hbase
      omega
    · cases hbase
  rw [← ok.inj h]
  cases mode with
  | raw => exact plain_withRecoveryByte hsize hbase
  | ethSign => exact ethSigned_withRecoveryByte hsize (v := base + 4) (by omega)

private theorem modeOf_of_plain {sig : Hex} (h : Plain sig) : modeOf sig.text = .ok .raw := by
  unfold modeOf splitSignature
  rw [if_pos h.size, ok_bind]
  exact if_pos h.byte

theorem recoverSafeSigner_of_plain (c : Crypto) (hash : Hex) {sig : Hex} (h : Plain sig) :
    recoverSafeSigner c hash sig = orThrow (c.ecrecover hash.toBytes sig.toBytes) := by
  unfold recoverSafeSigner
  rw [modeOf_of_plain h, ok_bind, splitSignature, if_pos h.size, ok_bind, if_pos rfl]

end Publish

theorem Publish.packSignatures_eq (hl : Ascending l) :
    Publish.packSignatures l = Hex.join (l.map fun s => s.signature) := by
  rw [Publish.packSignatures, Keyed.sort_eq_self follows_byOwner hl]

theorem Dapp.packSignatures_eq (c : Crypto) (hl : Ascending l)
    (hplain : ∀ s ∈ l, Plain s.signature) : Dapp.packSignatures c l = .ok (Publish.packSignatures l) := by
  have hmap : (l.mapM fun s => Dapp.toSafeSignature s.signature.text) = .ok (l.map fun s => s.signature) := by
    clear hl
    induction l with
    | nil => rfl
    | cons s l ih =>
      rw [mapM_cons, Dapp.toSafeSignature_of_plain (hplain s (by simp)), ok_bind,
        ih fun t ht => hplain t (mem_cons_of_mem s ht)]
      rfl
  unfold Dapp.packSignatures
  rw [Keyed.sort_eq_self follows_byOwnerAscending hl, Publish.packSignatures_eq hl]
  dsimp only
  rw [signedTwice_of_ascending hl]
  dsimp only
  rw [hmap]
  rfl

end RobotMoney.Safe
