import Mathlib.Data.List.TakeWhile
import RobotMoney.Evm.Chain
import RobotMoney.Evm.Rlp

/-!
# The pause transaction (`pause.rs`)

The watchdog encodes the legacy transaction that pauses deposits by itself.  Its numbers are written without leading
zero bytes, but the two halves of the signature are written as byte strings of 32 bytes.  A node reads them as numbers,
and refuses a leading zero byte.

* What is signed determines every field (`encodeLegacyTxForSigning_inj`).
* The transaction is read back, and is the only encoding that is, exactly when neither half of the signature starts with
  a zero byte (`pause_tx_canonical_iff`).
-/

namespace RobotMoney.Watchdog

open Evm List Option Rlp

def trimZeros (bytes : List UInt8) : List UInt8 := bytes.drop ((bytes.findIdx? (· != 0)).getD 7)

def rlpLengthPrefix (offset : UInt8) (len : Nat) : List UInt8 :=
  if len ≤ 55 then [offset + UInt8.ofNat len]
  else
    let lenEnc := trimZeros (Rlp.bigEndian 8 len)
    (offset + 55 + UInt8.ofNat lenEnc.length) :: lenEnc

def rlpBytes (data : List UInt8) : List UInt8 :=
  if data.length = 1 ∧ data.headD 0 < 0x80 then [data.headD 0]
  else rlpLengthPrefix 0x80 data.length ++ data

def rlpUint (v : UInt64) : List UInt8 :=
  if v = 0 then [0x80] else rlpBytes (trimZeros (Rlp.bigEndian 8 v.toNat))

def rlpList (encodedItems : List UInt8) : List UInt8 := rlpLengthPrefix 0xc0 encodedItems.length ++ encodedItems

/-- The fields of a legacy transaction; a slice has at most `isize::MAX` bytes. -/
structure LegacyTx where
  nonce : UInt64
  gasPrice : UInt64
  gasLimit : UInt64
  recipient : Address
  value : UInt64
  data : List UInt8
  data_lt : data.length < 2 ^ 63

def recipientBytes (a : Address) : List UInt8 := Rlp.bigEndian 20 a.val

def encodeLegacyTxForSigning (tx : LegacyTx) (chainId : UInt64) : List UInt8 :=
  rlpList [rlpUint tx.nonce, rlpUint tx.gasPrice, rlpUint tx.gasLimit, rlpBytes (recipientBytes tx.recipient),
    rlpUint tx.value, rlpBytes tx.data, rlpUint chainId, rlpUint 0, rlpUint 0].flatten

def encodeLegacyTxSigned (tx : LegacyTx) (v : UInt64) (r s : List UInt8) : List UInt8 :=
  rlpList [rlpUint tx.nonce, rlpUint tx.gasPrice, rlpUint tx.gasLimit, rlpBytes (recipientBytes tx.recipient),
    rlpUint tx.value, rlpBytes tx.data, rlpUint v, rlpBytes r, rlpBytes s].flatten

def curveOrder : Nat := 0xfffffffffffffffffffffffffffffffebaaedce6af48a03bbfd25e8cd0364141

/-- An ECDSA signature with its recovery bit. -/
structure Signature where
  r : Nat
  s : Nat
  recoveryId : Bool
  r_pos : 0 < r
  r_lt : r < curveOrder
  s_pos : 0 < s
  s_lt : s < curveOrder

/-- The transaction that `send_legacy_transaction` submits: `Signature::to_bytes` is 32 bytes for each half. -/
def signedTransaction (tx : LegacyTx) (chainId : UInt64) (sig : Signature) : List UInt8 :=
  let v := 2 * chainId + 35 + (if sig.recoveryId then 1 else 0)
  encodeLegacyTxSigned tx v (Rlp.bigEndian 32 sig.r) (Rlp.bigEndian 32 sig.s)

/-- The fields of a signed transaction; without a recipient it creates a contract. -/
structure SignedTx where
  nonce : Nat
  gasPrice : Nat
  gasLimit : Nat
  recipient : Option Address
  value : Nat
  data : List UInt8
  v : Nat
  r : Nat
  s : Nat
  deriving DecidableEq

def uintField (bits : Nat) (bs : List UInt8) : Option Nat := do
  let n ← Rlp.scalar bs
  if n < 2 ^ bits then some n else none

def recipientField (bs : List UInt8) : Option (Option Address) :=
  if bs = [] then some none
  else if bs.length = 20 then (if h : Rlp.value bs < 2 ^ 160 then some (some ⟨_, h⟩) else none)
  else none

def decodeFields : List (List UInt8) → Option SignedTx
  | [nonce, gasPrice, gasLimit, recipient, value, data, v, r, s] => do
    let nonce ← uintField 64 nonce
    let gasPrice ← uintField 256 gasPrice
    let gasLimit ← uintField 64 gasLimit
    let recipient ← recipientField recipient
    let value ← uintField 256 value
    let v ← uintField 256 v
    let r ← uintField 256 r
    let s ← uintField 256 s
    some ⟨nonce, gasPrice, gasLimit, recipient, value, data, v, r, s⟩
  | _ => none

def decodeLegacyTx (bs : List UInt8) : Option SignedTx := do
  let fields ← Rlp.readStrings 9 bs
  decodeFields fields

theorem trimZeros_eq {bytes : List UInt8} (h : value bytes ≠ 0) : trimZeros bytes = bytes.dropWhile (· == 0) := by
  have hsome : ∃ b ∈ bytes, (b != 0) = true := by
    by_contra hnone
    refine h ?_
    rw [← value_dropWhile]
    have hall : bytes.dropWhile (· == 0) = [] := by
      refine dropWhile_eq_nil_iff.2 fun b hb => ?_
      by_contra hne
      exact hnone ⟨b, hb, by simpa using hne⟩
    rw [hall]
    rfl
  have hfound : bytes.findIdx? (· != 0) = some (bytes.findIdx (· != 0)) :=
    findIdx?_eq_some_iff_findIdx_eq.2 ⟨findIdx_lt_length_of_exists hsome, rfl⟩
  rw [trimZeros, hfound, getD_some, dropWhile_eq_drop_findIdx_not]
  rfl

private theorem rlpLengthPrefix_eq (k : Rlp.Kind) {len : Nat} (h : len < 2 ^ 64) :
    rlpLengthPrefix (UInt8.ofNat k.offset) len = header k len := by
  unfold rlpLengthPrefix Rlp.header
  split
  · rw [UInt8.ofNat_add]
  rename_i hlong
  have hvalue : Rlp.value (bigEndian 8 len) ≠ 0 := by
    have hword : len < 256 ^ 8 := h
    rw [value_bigEndian, Nat.mod_eq_of_lt hword]
    omega
  rw [trimZeros_eq hvalue, UInt8.ofNat_add, UInt8.ofNat_add]
  rfl

theorem rlpBytes_eq {data : List UInt8} (h : data.length < 2 ^ 64) : rlpBytes data = encodeItem .string data := by
  have hiff : (data.length = 1 ∧ data.headD 0 < 0x80) ↔ Rlp.IsByte .string data := by
    unfold Rlp.IsByte
    constructor
    · rintro ⟨hone, hsmall⟩
      obtain ⟨b, rfl⟩ := length_eq_one_iff.1 hone
      exact ⟨rfl, hone, by simpa [Rlp.value, UInt8.lt_iff_toNat_lt] using hsmall⟩
    · rintro ⟨-, hone, hsmall⟩
      obtain ⟨b, rfl⟩ := length_eq_one_iff.1 hone
      exact ⟨hone, by simpa [Rlp.value, UInt8.lt_iff_toNat_lt] using hsmall⟩
  unfold rlpBytes encodeItem
  by_cases hbyte : Rlp.IsByte .string data
  · rw [if_pos (hiff.2 hbyte), if_pos hbyte]
    obtain ⟨b, rfl⟩ := length_eq_one_iff.1 hbyte.2.1
    rfl
  rw [if_neg (hiff.not.2 hbyte), if_neg hbyte]
  exact congrArg (· ++ data) (rlpLengthPrefix_eq .string h)

private theorem rlpUint_eq (v : UInt64) : rlpUint v = encodeItem .string (minimal 8 v.toNat) := by
  have hlt : v.toNat < 256 ^ 8 := v.toNat_lt
  unfold rlpUint
  split
  · rename_i hzero
    subst hzero
    rfl
  rename_i hne
  have hvalue : Rlp.value (bigEndian 8 v.toNat) ≠ 0 := by
    rw [value_bigEndian, Nat.mod_eq_of_lt hlt]
    exact fun h => hne (UInt64.toNat_inj.1 h)
  rw [trimZeros_eq hvalue]
  exact rlpBytes_eq ((length_minimal_le 8 v.toNat).trans_lt (by decide))

theorem rlpList_eq {items : List UInt8} (h : items.length < 2 ^ 64) : rlpList items = encodeItem .list items := by
  have hlist : ¬ Rlp.IsByte .list items := fun hbyte => by cases hbyte.1
  unfold rlpList encodeItem
  rw [if_neg hlist]
  exact congrArg (· ++ items) (rlpLengthPrefix_eq .list h)

private theorem length_encodeItem_le (k : Rlp.Kind) (content : List UInt8) :
    (encodeItem k content).length ≤ content.length + 9 := by
  have hheader : (Rlp.header k content.length).length ≤ 9 := by
    have hle := length_minimal_le 8 content.length
    unfold Rlp.header
    split
    · rw [length_singleton]
      omega
    rw [length_cons]
    omega
  unfold encodeItem
  split
  · omega
  rw [length_append]
  omega

def fieldsOf (tx : LegacyTx) (tail : List (List UInt8)) : List (List UInt8) :=
  [Rlp.minimal 8 tx.nonce.toNat, Rlp.minimal 8 tx.gasPrice.toNat, Rlp.minimal 8 tx.gasLimit.toNat,
    recipientBytes tx.recipient, Rlp.minimal 8 tx.value.toNat, tx.data] ++ tail

private theorem length_fieldsOf_lt (tx : LegacyTx) {tail : List (List UInt8)} (htail : ∀ f ∈ tail, f.length ≤ 32) :
    ∀ f ∈ fieldsOf tx tail, f.length < 2 ^ 64 := by
  have hdata := tx.data_lt
  intro f hf
  rcases mem_append.1 hf with hf | hf
  · simp only [mem_cons, not_mem_nil, or_false] at hf
    rcases hf with rfl | rfl | rfl | rfl | rfl | rfl
    · exact (length_minimal_le ..).trans_lt (by decide)
    · exact (length_minimal_le ..).trans_lt (by decide)
    · exact (length_minimal_le ..).trans_lt (by decide)
    · exact (length_bigEndian 20 _).trans_lt (by decide)
    · exact (length_minimal_le ..).trans_lt (by decide)
    · omega
  · exact (htail f hf).trans_lt (by decide)

private theorem length_items_lt (tx : LegacyTx) {tail : List (List UInt8)} (htail : ∀ f ∈ tail, f.length ≤ 32)
    (hcount : tail.length = 3) : ((fieldsOf tx tail).flatMap (encodeItem .string)).length < 2 ^ 64 := by
  obtain ⟨a, b, c, rfl⟩ := length_eq_three.1 hcount
  have hdata := tx.data_lt
  have ha := htail a (by simp)
  have hb := htail b (by simp)
  have hc := htail c (by simp)
  have hnumber : ∀ n, (encodeItem .string (Rlp.minimal 8 n)).length ≤ 17 := fun n =>
    (length_encodeItem_le ..).trans (Nat.add_le_add_right (length_minimal_le 8 n) 9)
  have hrecipient := length_encodeItem_le .string (recipientBytes tx.recipient)
  rw [recipientBytes, length_bigEndian] at hrecipient
  have hdataItem := length_encodeItem_le .string tx.data
  have haItem := length_encodeItem_le .string a
  have hbItem := length_encodeItem_le .string b
  have hcItem := length_encodeItem_le .string c
  have h1 := hnumber tx.nonce.toNat
  have h2 := hnumber tx.gasPrice.toNat
  have h3 := hnumber tx.gasLimit.toNat
  have h4 := hnumber tx.value.toNat
  simp only [fieldsOf, recipientBytes, cons_append, nil_append, flatMap_cons, flatMap_nil, length_append, length_nil]
  omega

private theorem items_eq (tx : LegacyTx) (tail : List (List UInt8)) :
    ([rlpUint tx.nonce, rlpUint tx.gasPrice, rlpUint tx.gasLimit, rlpBytes (recipientBytes tx.recipient),
      rlpUint tx.value, rlpBytes tx.data] ++ tail.map (encodeItem .string)).flatten =
      (fieldsOf tx tail).flatMap (encodeItem .string) := by
  have hdata := tx.data_lt
  have haddress : (recipientBytes tx.recipient).length < 2 ^ 64 := (length_bigEndian 20 _).trans_lt (by decide)
  simp only [rlpUint_eq, rlpBytes_eq haddress, rlpBytes_eq (by omega : tx.data.length < 2 ^ 64), fieldsOf,
    flatMap_def, map_append, map_cons, map_nil]

variable {n : Nat} {r s xs ys : List UInt8} {chainId : UInt64}

private theorem tail_le {v r s : List UInt8} (hv : v = minimal 8 n) (hr : r.length ≤ 32) (hs : s.length ≤ 32) :
    ∀ f ∈ [v, r, s], f.length ≤ 32 := by
  intro f hf
  simp only [mem_cons, not_mem_nil, or_false] at hf
  rcases hf with rfl | rfl | rfl
  · rw [hv]
    exact (length_minimal_le ..).trans (by decide)
  · exact hr
  · exact hs

private theorem encodeLegacyTxSigned_eq (tx : LegacyTx) (v : UInt64) (hr : r.length ≤ 32) (hs : s.length ≤ 32) :
    encodeLegacyTxSigned tx v r s = encodeStrings (fieldsOf tx [minimal 8 v.toNat, r, s]) := by
  have hitems := items_eq tx [Rlp.minimal 8 v.toNat, r, s]
  simp only [map_cons, map_nil, ← rlpUint_eq, ← rlpBytes_eq (hr.trans_lt (by decide : 32 < 2 ^ 64)),
    ← rlpBytes_eq (hs.trans_lt (by decide : 32 < 2 ^ 64))] at hitems
  rw [encodeStrings, ← rlpList_eq (length_items_lt tx (tail_le rfl hr hs) rfl), ← hitems]
  rfl

private theorem encodeLegacyTxForSigning_eq (tx : LegacyTx) (chainId : UInt64) :
    encodeLegacyTxForSigning tx chainId = encodeStrings (fieldsOf tx [minimal 8 chainId.toNat, [], []]) := by
  have hitems := items_eq tx [Rlp.minimal 8 chainId.toNat, [], []]
  have hzero : encodeItem .string [] = rlpUint 0 := rfl
  simp only [map_cons, map_nil, ← rlpUint_eq, hzero] at hitems
  rw [encodeStrings, ← rlpList_eq (length_items_lt tx (tail_le rfl (by simp) (by simp)) rfl), ← hitems]
  rfl

private theorem readStrings_signed (tx : LegacyTx) (v : UInt64) (hr : r.length ≤ 32) (hs : s.length ≤ 32) :
    readStrings 9 (encodeLegacyTxSigned tx v r s) = some (fieldsOf tx [minimal 8 v.toNat, r, s]) := by
  rw [encodeLegacyTxSigned_eq tx v hr hs]
  have htail := tail_le (n := v.toNat) rfl hr hs
  exact readStrings_encodeStrings (length_fieldsOf_lt tx htail) (length_items_lt tx htail rfl)

private theorem minimal_inj {a b : UInt64} (h : minimal 8 a.toNat = minimal 8 b.toNat) : a = b := by
  have hvalue := congrArg Rlp.value h
  rw [@value_minimal 8 a.toNat a.toNat_lt, @value_minimal 8 b.toNat b.toNat_lt] at hvalue
  exact UInt64.toNat_inj.1 hvalue

private theorem value_recipientBytes (a : Address) : value (recipientBytes a) = a.val := by
  have hlt : a.val < 256 ^ 20 := a.isLt
  rw [recipientBytes, value_bigEndian, Nat.mod_eq_of_lt hlt]

private theorem encodeLegacyTxForSigning_inj {tx tx' : LegacyTx} {chainId chainId' : UInt64}
    (h : encodeLegacyTxForSigning tx chainId = encodeLegacyTxForSigning tx' chainId') :
    tx = tx' ∧ chainId = chainId' := by
  have hread : ∀ (tx : LegacyTx) (chainId : UInt64), readStrings 9 (encodeLegacyTxForSigning tx chainId) =
      some (fieldsOf tx [Rlp.minimal 8 chainId.toNat, [], []]) := by
    intro tx chainId
    rw [encodeLegacyTxForSigning_eq]
    have htail := tail_le (n := chainId.toNat) (r := []) (s := []) rfl (by simp) (by simp)
    exact readStrings_encodeStrings (length_fieldsOf_lt tx htail) (length_items_lt tx htail rfl)
  have hfields := some.inj ((hread tx chainId).symm.trans ((congrArg _ h).trans (hread tx' chainId')))
  simp only [fieldsOf, cons_append, nil_append, cons.injEq, and_true] at hfields
  obtain ⟨hnonce, hprice, hlimit, hrecipient, hvalue, hdata, hchain⟩ := hfields
  refine ⟨?_, minimal_inj hchain⟩
  have haddress : tx.recipient = tx'.recipient := by
    have hval := congrArg Rlp.value hrecipient
    rw [value_recipientBytes, value_recipientBytes] at hval
    exact Fin.ext hval
  cases tx
  cases tx'
  simp only [LegacyTx.mk.injEq]
  exact ⟨minimal_inj hnonce, minimal_inj hprice, minimal_inj hlimit, haddress, minimal_inj hvalue, hdata⟩

def intended (tx : LegacyTx) (chainId : UInt64) (sig : Signature) : SignedTx where
  nonce := tx.nonce.toNat
  gasPrice := tx.gasPrice.toNat
  gasLimit := tx.gasLimit.toNat
  recipient := some tx.recipient
  value := tx.value.toNat
  data := tx.data
  v := 2 * chainId.toNat + 35 + sig.recoveryId.toNat
  r := sig.r
  s := sig.s

private theorem uintField_minimal {bits : Nat} (hbits : 64 ≤ bits) (v : UInt64) :
    uintField bits (minimal 8 v.toNat) = some v.toNat := by
  have hlt : v.toNat < 2 ^ bits := v.toNat_lt.trans_le (Nat.pow_le_pow_right (by decide) hbits)
  rw [uintField, @scalar_minimal 8 v.toNat v.toNat_lt, bind_eq_bind, bind_some, if_pos hlt]

private theorem recipientField_recipientBytes (a : Address) : recipientField (recipientBytes a) = some (some a) := by
  have hlength : (recipientBytes a).length = 20 := length_bigEndian ..
  have hne : recipientBytes a ≠ [] := fun hnil => by
    rw [hnil] at hlength
    cases hlength
  have hlt : Rlp.value (recipientBytes a) < 2 ^ 160 := by
    rw [value_recipientBytes]
    exact a.isLt
  rw [recipientField, if_neg hne, if_pos hlength, dif_pos hlt]
  exact congrArg (some ∘ some) (Fin.ext (value_recipientBytes a))

theorem uintField_half (h : n < 2 ^ 256) : uintField 256 (bigEndian 32 n) = if 2 ^ 248 ≤ n then some n else none := by
  have hword : n < 256 ^ 32 := h
  have hvalue : Rlp.value (bigEndian 32 n) = n := by rw [value_bigEndian, Nat.mod_eq_of_lt hword]
  have hhead : (bigEndian 32 n).head? = some 0 ↔ ¬ 2 ^ 248 ≤ n := by
    have hpow : 256 ^ 31 = 2 ^ 248 := by decide
    have hsmall : n / 256 ^ 31 < 256 := Nat.div_lt_of_lt_mul (by omega)
    have htoNat : (UInt8.ofNat (n / 256 ^ 31)).toNat = n / 256 ^ 31 := by
      rw [UInt8.toNat_ofNat', Nat.mod_eq_of_lt hsmall]
    rw [bigEndian, head?_cons, some.injEq, ← UInt8.toNat_inj, htoNat, hpow]
    show n / 2 ^ 248 = 0 ↔ _
    rw [Nat.div_eq_zero_iff]
    omega
  unfold uintField Rlp.scalar
  by_cases hlarge : 2 ^ 248 ≤ n
  · rw [if_neg (hhead.not.2 (not_not.2 hlarge)), if_pos hlarge, bind_eq_bind, bind_some, hvalue, if_pos h]
  rw [if_pos (hhead.2 hlarge), if_neg hlarge]
  rfl

private theorem toNat_v (h : chainId.toNat < 2 ^ 62) (recoveryId : Bool) :
    (2 * chainId + 35 + (if recoveryId then 1 else 0)).toNat = 2 * chainId.toNat + 35 + recoveryId.toNat := by
  have hbit : (if recoveryId then (1 : UInt64) else 0).toNat = recoveryId.toNat := by cases recoveryId <;> rfl
  have hle := Bool.toNat_le recoveryId
  rw [UInt64.toNat_add, UInt64.toNat_add, UInt64.toNat_mul, hbit]
  have h2 : (2 : UInt64).toNat = 2 := rfl
  have h35 : (35 : UInt64).toNat = 35 := rfl
  rw [h2, h35]
  omega

private theorem decodeLegacyTx_signed (tx : LegacyTx) (v : UInt64) {r s : Nat} (hr : r < 2 ^ 256) (hs : s < 2 ^ 256) :
    decodeLegacyTx (encodeLegacyTxSigned tx v (bigEndian 32 r) (bigEndian 32 s)) = if 2 ^ 248 ≤ r ∧ 2 ^ 248 ≤ s then
        some ⟨tx.nonce.toNat, tx.gasPrice.toNat, tx.gasLimit.toNat, some tx.recipient, tx.value.toNat, tx.data,
          v.toNat, r, s⟩
      else none := by
  have hread := readStrings_signed tx v (r := bigEndian 32 r) (s := bigEndian 32 s)
    (length_bigEndian ..).le (length_bigEndian ..).le
  have hnumber : ∀ (n : UInt64), uintField 64 (Rlp.minimal 8 n.toNat) = some n.toNat :=
    uintField_minimal (by decide)
  have hword : ∀ (n : UInt64), uintField 256 (Rlp.minimal 8 n.toNat) = some n.toNat :=
    uintField_minimal (by decide)
  simp only [decodeLegacyTx, hread, bind_eq_bind, bind_some, fieldsOf, cons_append,
    nil_append, decodeFields, hnumber, hword, recipientField_recipientBytes, uintField_half hr, uintField_half hs]
  by_cases hr' : 2 ^ 248 ≤ r
  · by_cases hs' : 2 ^ 248 ≤ s
    · rw [if_pos hr', if_pos hs', if_pos ⟨hr', hs'⟩]
      rfl
    have hboth : ¬ (2 ^ 248 ≤ r ∧ 2 ^ 248 ≤ s) := fun hboth => hs' hboth.2
    rw [if_pos hr', if_neg hs', if_neg hboth]
    rfl
  have hboth : ¬ (2 ^ 248 ≤ r ∧ 2 ^ 248 ≤ s) := fun hboth => hr' hboth.1
  rw [if_neg hr', if_neg hboth]
  rfl

private theorem curveOrder_lt : curveOrder < 2 ^ 256 := by decide

private theorem decodeLegacyTx_signedTransaction (tx : LegacyTx) (h : chainId.toNat < 2 ^ 62) (sig : Signature) :
    decodeLegacyTx (signedTransaction tx chainId sig) =
      if 2 ^ 248 ≤ sig.r ∧ 2 ^ 248 ≤ sig.s then some (intended tx chainId sig) else none := by
  have hread := decodeLegacyTx_signed tx (2 * chainId + 35 + (if sig.recoveryId then 1 else 0))
    (sig.r_lt.trans curveOrder_lt) (sig.s_lt.trans curveOrder_lt)
  rw [toNat_v h] at hread
  exact hread

theorem uintField_inj {bits n : Nat} (hx : uintField bits xs = some n) (hy : uintField bits ys = some n) : xs = ys := by
  have hscalar : ∀ {bs : List UInt8}, uintField bits bs = some n → Rlp.scalar bs = some n := by
    intro bs h
    simp only [uintField, bind_eq_bind, bind_eq_some_iff] at h
    obtain ⟨m, hm, h⟩ := h
    split at h
    · cases h
      exact hm
    · cases h
  exact scalar_inj (hscalar hx) (hscalar hy)

theorem recipientField_inj {a : Option Address} (hx : recipientField xs = some a) (hy : recipientField ys = some a) :
    xs = ys := by
  have hshape : ∀ {bs : List UInt8}, recipientField bs = some a →
      (a = none ∧ bs = []) ∨ ∃ b : Address, a = some b ∧ bs.length = 20 ∧ Rlp.value bs = b.val := by
    intro bs h
    unfold recipientField at h
    split at h
    · rename_i hnil
      cases h
      exact Or.inl ⟨rfl, hnil⟩
    split at h
    · rename_i hlength
      split at h
      · rename_i hlt
        cases h
        exact Or.inr ⟨_, rfl, hlength, rfl⟩
      · cases h
    · cases h
  rcases hshape hx with ⟨rfl, rfl⟩ | ⟨b, rfl, hlx, hvx⟩
  · rcases hshape hy with ⟨-, rfl⟩ | ⟨b, hb, -⟩
    · rfl
    · cases hb
  rcases hshape hy with ⟨hb, -⟩ | ⟨c, hc, hly, hvy⟩
  · cases hb
  cases hc
  exact value_inj_of_length (hlx.trans hly.symm) (hvx.trans hvy.symm)

private theorem decodeFields_eq_some {fields : List (List UInt8)} {t : SignedTx} (h : decodeFields fields = some t) :
    ∃ nonce gasPrice gasLimit recipient value v r s,
      fields = [nonce, gasPrice, gasLimit, recipient, value, t.data, v, r, s] ∧
      uintField 64 nonce = some t.nonce ∧ uintField 256 gasPrice = some t.gasPrice ∧
      uintField 64 gasLimit = some t.gasLimit ∧ recipientField recipient = some t.recipient ∧
      uintField 256 value = some t.value ∧ uintField 256 v = some t.v ∧ uintField 256 r = some t.r ∧
      uintField 256 s = some t.s := by
  unfold decodeFields at h
  split at h
  · simp only [bind_eq_bind, bind_eq_some_iff, some.injEq] at h
    obtain ⟨_, h1, _, h2, _, h3, _, h4, _, h5, _, h6, _, h7, _, h8, rfl⟩ := h
    exact ⟨_, _, _, _, _, _, _, _, rfl, h1, h2, h3, h4, h5, h6, h7, h8⟩
  · cases h

private theorem decodeLegacyTx_inj {t : SignedTx} (hx : decodeLegacyTx xs = some t) (hy : decodeLegacyTx ys = some t) :
    xs = ys := by
  simp only [decodeLegacyTx, bind_eq_bind, bind_eq_some_iff] at hx hy
  obtain ⟨fx, hreadx, hx⟩ := hx
  obtain ⟨fy, hready, hy⟩ := hy
  have hfields : fx = fy := by
    obtain ⟨nx, px, lx, rx, vx, wx, ax, bx, rfl, hx1, hx2, hx3, hx4, hx5, hx6, hx7, hx8⟩ := decodeFields_eq_some hx
    obtain ⟨ny, py, ly, ry, vy, wy, ay, by', rfl, hy1, hy2, hy3, hy4, hy5, hy6, hy7, hy8⟩ := decodeFields_eq_some hy
    rw [uintField_inj hx1 hy1, uintField_inj hx2 hy2, uintField_inj hx3 hy3, recipientField_inj hx4 hy4,
      uintField_inj hx5 hy5, uintField_inj hx6 hy6, uintField_inj hx7 hy7, uintField_inj hx8 hy8]
  rw [encodeStrings_of_readStrings hreadx, encodeStrings_of_readStrings hready, hfields]

/-- A node reads the fields and the signature back, and from these bytes only, exactly when neither half of the
signature starts with a zero byte; and what is signed determines the fields. -/
theorem pause_tx_canonical_iff (tx : LegacyTx) (chainId : UInt64) (sig : Signature) :
    (chainId.toNat < 2 ^ 62 →
      ((decodeLegacyTx (signedTransaction tx chainId sig) = some (intended tx chainId sig) ∧
          ∀ bs, decodeLegacyTx bs = some (intended tx chainId sig) → bs = signedTransaction tx chainId sig) ↔
        2 ^ 248 ≤ sig.r ∧ 2 ^ 248 ≤ sig.s)) ∧
      ∀ (tx' : LegacyTx) (chainId' : UInt64),
        encodeLegacyTxForSigning tx chainId = encodeLegacyTxForSigning tx' chainId' →
        tx = tx' ∧ chainId = chainId' := by
  refine ⟨fun h => ?_, fun tx' chainId' => encodeLegacyTxForSigning_inj⟩
  have hdecode := decodeLegacyTx_signedTransaction tx h sig
  constructor
  · rintro ⟨hread, -⟩
    by_contra hzero
    rw [hdecode, if_neg hzero] at hread
    cases hread
  · intro hlarge
    rw [if_pos hlarge] at hdecode
    exact ⟨hdecode, fun bs hbs => decodeLegacyTx_inj hbs hdecode⟩

private theorem selector_lt : [(0x02 : UInt8), 0x19, 0x19, 0x80].length < 2 ^ 63 := by decide

/-- `pauseDeposits()` on a vault of Base, as the watchdog sends it with this nonce. -/
def pauseDeposits (nonce : UInt64) : LegacyTx where
  nonce := nonce
  gasPrice := 1000000000
  gasLimit := 80000
  recipient := 100
  value := 0
  data := [0x02, 0x19, 0x19, 0x80]
  data_lt := selector_lt

private theorem firstSignature_range : (0 < 0xe3848173460cafa0a81246e77188b2d7d7d27b9299723a4c5b630c4fbf95685a ∧
      0xe3848173460cafa0a81246e77188b2d7d7d27b9299723a4c5b630c4fbf95685a < curveOrder) ∧
    0 < 0x5025627f0c9f17d5cc61ec03cafe5a2a1c525d0ded1cec21872b14975bfc882e ∧
      0x5025627f0c9f17d5cc61ec03cafe5a2a1c525d0ded1cec21872b14975bfc882e < curveOrder := by
  decide

def firstSignature : Signature where
  r := 0xe3848173460cafa0a81246e77188b2d7d7d27b9299723a4c5b630c4fbf95685a
  s := 0x5025627f0c9f17d5cc61ec03cafe5a2a1c525d0ded1cec21872b14975bfc882e
  recoveryId := true
  r_pos := firstSignature_range.1.1
  r_lt := firstSignature_range.1.2
  s_pos := firstSignature_range.2.1
  s_lt := firstSignature_range.2.2

private theorem seventhSignature_range : (0 < 0x5cedfc6bfbf3c004920f36e5c01a6e908f020aec45fc094c6c2c7a84f2a7d9cb ∧
      0x5cedfc6bfbf3c004920f36e5c01a6e908f020aec45fc094c6c2c7a84f2a7d9cb < curveOrder) ∧
    0 < 0x4c11fcc8b0581291c273d30e720c71d18db6cdc150eb204b28155f4c3fcbb0 ∧
      0x4c11fcc8b0581291c273d30e720c71d18db6cdc150eb204b28155f4c3fcbb0 < curveOrder := by
  decide

/-- The signature of the seventh pause, by the same key: its second half has 31 bytes. -/
def seventhSignature : Signature where
  r := 0x5cedfc6bfbf3c004920f36e5c01a6e908f020aec45fc094c6c2c7a84f2a7d9cb
  s := 0x4c11fcc8b0581291c273d30e720c71d18db6cdc150eb204b28155f4c3fcbb0
  recoveryId := false
  r_pos := seventhSignature_range.1.1
  r_lt := seventhSignature_range.1.2
  s_pos := seventhSignature_range.2.1
  s_lt := seventhSignature_range.2.2

theorem pause_tx_canonical_iff_first :
    decodeLegacyTx (signedTransaction (pauseDeposits 0) 8453 firstSignature) =
      some (intended (pauseDeposits 0) 8453 firstSignature) :=
  (((pause_tx_canonical_iff (pauseDeposits 0) 8453 firstSignature).1 (by decide)).2 (by decide)).1

/-- A node refuses the seventh pause. -/
theorem pause_tx_refused :
    ¬ ∀ (tx : LegacyTx) (chainId : UInt64) (sig : Signature), chainId.toNat < 2 ^ 62 →
      decodeLegacyTx (signedTransaction tx chainId sig) = some (intended tx chainId sig) := by
  intro h
  have hread := h (pauseDeposits 6) 8453 seventhSignature (by decide)
  have hnone : decodeLegacyTx (signedTransaction (pauseDeposits 6) 8453 seventhSignature) = none := by
    decide +kernel
  rw [hnone] at hread
  cases hread

end RobotMoney.Watchdog
