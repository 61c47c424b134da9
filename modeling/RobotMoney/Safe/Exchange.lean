import RobotMoney.Safe.Tools

/-!
# Bundles that move between the tools

Owners sign with either tool and pass their bundles on.  A bundle is held by an owner after any sequence of proposing,
signing and importing, with the one tool or the other.  Every held bundle has its owners in ascending order, each once,
and signatures of them for the digest of the transaction (`sound_of_held`).  Which signatures it has depends only on
which ones have been made and imported, not on the order (`mem_signatures`).

Both tools import alike (`importSignatures_export`, `importSignatureBundle_export`), but for one thing: the dapp refuses
the `eth_sign` signatures that the publishing tool makes on demand.
-/

namespace RobotMoney.Safe

open Evm JsonText List Option Except

def putAll (l entries : List BundleSignature) : List BundleSignature :=
  Keyed.putAll BundleSignature.owner Dapp.byOwnerAscending l entries

def SafeTxBundle.merge (b e : SafeTxBundle) : SafeTxBundle := { b with signatures := putAll b.signatures e.signatures }

def SafeTxBundle.signatureOf (b : SafeTxBundle) (owner : Address) : Option Hex :=
  (b.signatures.find? fun s => s.owner = owner).map fun s => s.signature

private theorem ascending_putAll {l : List BundleSignature} (hl : Ascending l) (entries : List BundleSignature) :
    Ascending (putAll l entries) :=
  Keyed.ascending_putAll follows_byOwnerAscending hl entries

private theorem mem_putAll {l entries : List BundleSignature} (hentries : Ascending entries) {s : BundleSignature} :
    s ∈ putAll l entries ↔ s ∈ entries ∨ s ∈ l ∧ ∀ t ∈ entries, s.owner ≠ t.owner :=
  Keyed.mem_putAll (Keyed.nodup_of_ascending hentries)

theorem nullish_text (t : List Char) (o : Option Value) : nullish (some (textValue t)) o = some (textValue t) := rfl

/-- A signature of an owner for a transaction hash, in a form that one of the tools makes. -/
structure Signed (c : Crypto) (owners : List Address) (hash : Hex) (s : BundleSignature) : Prop where
  owner : s.owner ∈ owners
  form : Plain s.signature ∨ EthSigned s.signature
  recovers : Publish.recoverSafeSigner c hash s.signature = .ok s.owner

section

variable {c : Crypto} {owners : List Address} {hash hash' : Hex} {s : BundleSignature}

private theorem Signed.of_lc (h : Signed c owners hash s) (heq : hash.lc = hash'.lc) : Signed c owners hash' s := by
  refine ⟨h.owner, h.form, ?_⟩
  have hrec := h.recovers
  unfold Publish.recoverSafeSigner at hrec ⊢
  rwa [Hex.toBytes_eq_of_lc heq] at hrec

private theorem Signed.ecrecover (h : Signed c owners hash s) (hplain : Plain s.signature) :
    c.ecrecover hash.toBytes s.signature.toBytes = some s.owner := by
  have hrec := h.recovers
  rwa [Publish.recoverSafeSigner_of_plain c hash hplain, Publish.orThrow_eq_ok] at hrec

private theorem property_signatureValue (c : Crypto) (s : BundleSignature) :
    (signatureValue c s).property? "owner" = some (textValue (checksumAddress c s.owner)) ∧
      (signatureValue c s).property? "signature" = some (textValue s.signature.text) :=
  ⟨Value.property?_ofEntries (by simp) "owner", Value.property?_ofEntries (by simp) "signature"⟩

private theorem Dapp.importEntry_signatureValue {b : SafeTxBundle} (h : Signed c b.owners b.safeTxHash s)
    (hplain : Plain s.signature) (l : List BundleSignature) :
    importEntry c b l (signatureValue c s) = .ok (put l s) := by
  obtain ⟨howner, hsignature⟩ := property_signatureValue c s
  have hsig : signatureOf (signatureValue c s) = .ok (String.ofList s.signature.text) := by
    rw [signatureOf, hsignature]
    rfl
  have hclaimed : checkClaimed c (signatureValue c s) s.owner = .ok () := by
    rw [checkClaimed, howner]
    exact revertIf_of_not _ (by simp [sameAddress_checksumAddress])
  have hrecovered : recoverSigner c b.safeTxHash s.signature = .ok s.owner := by
    rw [recoverSigner_of_plain c b.safeTxHash hplain, h.ecrecover hplain]
    rfl
  unfold importEntry
  rw [revertIf_of_not _ (by exact Bool.noConfusion), ok_bind, hsig, ok_bind, String.toList_ofList,
    toSafeSignature_of_plain hplain, ok_bind, hrecovered, ok_bind, hclaimed, ok_bind,
      revertIf_of_not _ (not_not.2 h.owner),
    ok_bind, addSignature_eq]
  rfl

theorem Dapp.importEntry_of_ethSigned {b : SafeTxBundle} (h : EthSigned s.signature) (l : List BundleSignature) :
    ∃ message, importEntry c b l (signatureValue c s) = refuse .signatureInvalid message := by
  have hsig : signatureOf (signatureValue c s) = .ok (String.ofList s.signature.text) := by
    rw [signatureOf, (property_signatureValue c s).2]
    rfl
  unfold importEntry
  rw [revertIf_of_not _ (by exact Bool.noConfusion), ok_bind, hsig, ok_bind, String.toList_ofList,
    toSafeSignature_of_ethSigned h]
  exact ⟨_, rfl⟩

private theorem Publish.importClaim_signed {l : List BundleSignature} (hl : Ascending l) (h : Signed c owners hash s) :
    importClaim c owners hash l
      ⟨some (textValue (checksumAddress c s.owner)), textValue s.signature.text⟩ = .ok (put l s) := by
  have hsize : isSignature s.signature.text = true := h.form.elim Plain.size EthSigned.size
  have hsig : signatureOf (textValue s.signature.text) = .ok s.signature := by
    simp [signatureOf, textValue, hsize]
  have hclaimed : checkClaimed c (some (textValue (checksumAddress c s.owner))) s.owner = .ok () := by
    unfold checkClaimed
    split
    · exact revertIf_of_not _ (by simp [sameAddress_checksumAddress])
    · rfl
  unfold importClaim
  dsimp only
  rw [hsig, ok_bind, h.recovers, ok_bind, hclaimed, ok_bind, revertIf_of_not _ (not_not.2 h.owner), ok_bind,
    addSignature_eq hl]
  rfl

private theorem Publish.claimOf_signatureValue (c : Crypto) (s : BundleSignature)
    (hsize : isSignature s.signature.text = true) :
    claimOf (signatureValue c s) = .ok ⟨some (textValue (checksumAddress c s.owner)), textValue s.signature.text⟩ := by
  obtain ⟨howner, hsignature⟩ := property_signatureValue c s
  have htruthy : Publish.truthy (some (textValue s.signature.text)) = true := by
    have hne : s.signature.text ≠ [] := by
      intro hnil
      simp [isSignature, hnil] at hsize
    simpa [Publish.truthy, textValue, ← String.toList_inj] using hne
  rw [Publish.claimOf, howner, hsignature]
  · rw [nullish_text, revertIf_of_not _ (by rw [htruthy]; exact Bool.noConfusion)]
    rfl
  · rintro ⟨⟩

variable {b e : SafeTxBundle} {order : KeyOrder}

private theorem readText_exportBundle (c : Crypto) (e : SafeTxBundle) :
    readText (exportBundle c order e) = some (e.toValue c order) :=
  readText_stringify _ rfl rfl

section

variable (hhash : e.safeTxHash.lc = b.safeTxHash.lc)

include hhash

private theorem Dapp.checkHash_toValue : checkHash b (e.toValue c order) = .ok () := by
  rw [checkHash, e.property?_toValue]
  have hlookup : ((e.entries c order).lookup "safe_tx_hash").join = some (textValue e.safeTxHash.text) := by
    cases order <;> rfl
  rw [hlookup]
  exact revertIf_of_not _ (by simpa [Hex.lc] using hhash)

theorem Dapp.importSignatures_eq : importSignatures c b (exportBundle c order e) = do
      let signatures ← (e.signatures.map (signatureValue c)).foldlM (importEntry c b) b.signatures
      return { b with signatures } := by
  have hlist : Dapp.array ((e.toValue c order).property? "signatures") "no signatures array in the imported JSON" =
      .ok (e.signatures.map (signatureValue c)) := by
    rw [e.property?_toValue]
    cases order <;> rfl
  unfold importSignatures
  rw [readText_exportBundle, elim_some, ok_bind, revertIf_of_not _ (by exact Bool.noConfusion), ok_bind,
    checkHash_toValue hhash, ok_bind, hlist, ok_bind]

private theorem Dapp.importSignatures_export
    (hsigned : ∀ s ∈ e.signatures, Signed c b.owners b.safeTxHash s) (hplain : ∀ s ∈ e.signatures, Plain s.signature) :
    importSignatures c b (exportBundle c order e) = .ok (b.merge e) := by
  have hfold : ∀ (entries l : List BundleSignature), (∀ s ∈ entries, s ∈ e.signatures) →
      (entries.map (signatureValue c)).foldlM (importEntry c b) l = .ok (putAll l entries) := by
    intro entries
    induction entries with
    | nil => exact fun _ _ => rfl
    | cons s entries ih =>
      intro l hmem
      have hs := hmem s (by simp)
      rw [map_cons, foldlM_cons, importEntry_signatureValue (hsigned s hs) (hplain s hs), ok_bind,
        ih (put l s) fun t ht => hmem t (mem_cons_of_mem s ht)]
      rfl
  rw [importSignatures_eq hhash, hfold e.signatures b.signatures fun _ h => h]
  rfl

private theorem Dapp.importSignatures_refused
    (hsigned : ∀ s ∈ e.signatures, Signed c b.owners b.safeTxHash s) (hmode : ∃ s ∈ e.signatures,
      EthSigned s.signature) :
    ∃ message, importSignatures c b (exportBundle c order e) = refuse .signatureInvalid message := by
  have hfold : ∀ (entries l : List BundleSignature), (∀ s ∈ entries, s ∈ e.signatures) →
      (∃ s ∈ entries, EthSigned s.signature) →
      ∃ message, (entries.map (signatureValue c)).foldlM (importEntry c b) l =
          Dapp.refuse .signatureInvalid message := by
    intro entries
    induction entries with
    | nil => exact fun _ _ ⟨_, h, _⟩ => nomatch h
    | cons s entries ih =>
      rintro l hmem ⟨t, ht, hform⟩
      have hs := hsigned s (hmem s (by simp))
      rw [map_cons, foldlM_cons]
      by_cases hplain : Plain s.signature
      · rcases mem_cons.1 ht with rfl | ht
        · have hplainByte := hplain.byte
          have hformByte := hform.byte
          omega
        rw [importEntry_signatureValue hs hplain, ok_bind]
        exact ih _ (fun u hu => hmem u (mem_cons_of_mem s hu)) ⟨t, ht, hform⟩
      obtain ⟨message, hrefused⟩ := importEntry_of_ethSigned (b := b) (hs.form.resolve_left hplain) l
      exact ⟨message, by rw [hrefused]; rfl⟩
  obtain ⟨message, hrefused⟩ := hfold e.signatures b.signatures (fun _ h => h) hmode
  exact ⟨message, by rw [importSignatures_eq hhash, hrefused]; rfl⟩

end

/-- What hands a text to the publishing tool: a file with it, the text itself, or what a caller has parsed from it. -/
inductive Supplies (files : List Char → Option (List Char)) : Publish.Source → List Char → Prop
  | file {path text : List Char} (hpath : isHex (Publish.trim path) = false)
    (h : files (Publish.trim path) = some text) : Supplies files (.text path) text
  | text {text : List Char} (h : files (Publish.trim text) = none) : Supplies files (.text text) text
  | object {v : Value} {text : List Char} (h : readText text = some v) : Supplies files (.object v) text

private theorem trim_exportBundle (c : Crypto) (e : SafeTxBundle) :
    Publish.trim (exportBundle c order e) = stringify (e.toValue c order) := by
  obtain ⟨l, hl⟩ := layout_object 0 (present (e.entries c order))
  have htext : stringify (e.toValue c order) = '\x7b' :: (l ++ ['\x7d']) := hl
  rw [exportBundle, htext, Publish.trim]
  simp [Publish.isTrimmed, dropWhile]

variable {files : List Char → Option (List Char)} {source : Publish.Source}

private theorem Publish.readSource_export
    (h : Supplies files source (exportBundle c order e)) : readSource files source = .ok (e.toValue c order) := by
  cases h with
  | file hpath hfile =>
    rw [readSource, if_neg (by rw [hpath]; exact Bool.noConfusion), hfile]
    dsimp only
    rw [readText_exportBundle]
    rfl
  | text hnone =>
    have hhex : isHex (Publish.trim (exportBundle c order e)) = false := by
      rw [trim_exportBundle]
      rfl
    have hread : readText (stringify (e.toValue c order)) = some (e.toValue c order) := by
      have := @readText_stringify (e.toValue c order) [] rfl trivial
      rwa [append_nil] at this
    rw [readSource, if_neg (by rw [hhex]; exact Bool.noConfusion), hnone]
    dsimp only
    rw [trim_exportBundle, hread]
    rfl
  | object hv =>
    rw [readText_exportBundle] at hv
    rw [readSource, some.inj hv]

private theorem Publish.claimsOf_toValue (hhash : e.safeTxHash.lc = b.safeTxHash.lc)
    (hsize : ∀ s ∈ e.signatures, isSignature s.signature.text = true) :
    claimsOf b (e.toValue c order) = .ok (e.signatures.map fun s =>
      ⟨some (textValue (checksumAddress c s.owner)), textValue s.signature.text⟩) := by
  have hmap : ∀ entries : List BundleSignature, (∀ s ∈ entries, isSignature s.signature.text = true) →
      (entries.map (signatureValue c)).mapM Publish.claimOf = .ok (entries.map fun s =>
        ⟨some (textValue (checksumAddress c s.owner)), textValue s.signature.text⟩) := by
    intro entries
    induction entries with
    | nil => exact fun _ => rfl
    | cons s entries ih =>
      intro hsize
      rw [map_cons, mapM_cons, claimOf_signatureValue c s (hsize s (by simp)), ok_bind,
        ih fun t ht => hsize t (mem_cons_of_mem s ht)]
      rfl
  have hcheck : checkHash b (e.toValue c order) = .ok () := by
    have hsafeTxHash : nullish ((e.toValue c order).property? "safeTxHash")
      ((e.toValue c order).property? "safe_tx_hash") =
        some (textValue e.safeTxHash.text) := by
      rw [e.property?_toValue, e.property?_toValue]
      cases order <;> rfl
    unfold checkHash
    rw [hsafeTxHash]
    dsimp only
    split
    · exact revertIf_of_not _ (by simpa [Hex.lc] using hhash)
    · rfl
  have hentries : entriesOf (e.toValue c order) = .ok (e.signatures.map (signatureValue c)) := by
    rw [entriesOf, e.property?_toValue]
    · cases order <;> rfl
    · exact fun _ h => nomatch h
  rw [claimsOf, hcheck, ok_bind, hentries, ok_bind, hmap e.signatures hsize]
  · exact fun _ h => nomatch h
  · exact fun h => nomatch h

private theorem Publish.importSignatureBundle_export
    (hsource : Supplies files source (exportBundle c order e)) (hhash : e.safeTxHash.lc = b.safeTxHash.lc)
    (hb : Ascending b.signatures) (hsigned : ∀ s ∈ e.signatures, Signed c owners b.safeTxHash s) :
    importSignatureBundle c files owners b source = .ok (b.merge e) := by
  have hfold : ∀ (entries l : List BundleSignature), Ascending l → (∀ s ∈ entries, s ∈ e.signatures) →
      (entries.map fun s =>
        (⟨some (textValue (checksumAddress c s.owner)), textValue s.signature.text⟩ : Publish.Claim)).foldlM
        (importClaim c owners b.safeTxHash) l = .ok (putAll l entries) := by
    intro entries
    induction entries with
    | nil => exact fun _ _ _ => rfl
    | cons s entries ih =>
      intro l hl hmem
      rw [map_cons, foldlM_cons, importClaim_signed hl (hsigned s (hmem s (by simp))), ok_bind,
        ih (put l s) (ascending_put hl s) fun t ht => hmem t (mem_cons_of_mem s ht)]
      rfl
  have hsize : ∀ s ∈ e.signatures, isSignature s.signature.text = true :=
    fun s hs => (hsigned s hs).form.elim Plain.size EthSigned.size
  unfold importSignatureBundle
  rw [readSource_export hsource, ok_bind, claimsOf_toValue hhash hsize, ok_bind,
    hfold e.signatures b.signatures hb fun _ h => h]
  rfl

end

/-- A Safe transaction, with the Safe it is for. -/
structure Transaction where
  chainId : Nat
  safe : Address
  toAddress : Address
  data : Hex
  nonce : Nat
  owners : List Address
  threshold : Nat
  nonce_lt : nonce < 2 ^ 53

namespace Transaction

open RobotMoney.Safe.Publish Dapp

variable (c : Crypto) (x : Transaction)

def digest : Option Hex := Publish.localSafeTxHash c x.chainId x.safe x.toAddress x.data x.nonce

def input : Dapp.BuildSafeTxInput :=
  { chainId := x.chainId, safe := x.safe, timelock := x.toAddress, toAddress := x.toAddress, data :=
    x.data, nonce := x.nonce,
    value := none, operation := none, safeTxGas := none, baseGas := none, gasPrice := none, gasToken := none,
    refundReceiver := none }

def newBundle (safeTxHash : Hex) (action description : String) (operationId : Hex) (minDelay : Nat)
    (proposedAt : String) :
    SafeTxBundle :=
  Dapp.newBundle
    { chainId := x.chainId, safe := x.safe, timelock := x.toAddress, toAddress := x.toAddress, data :=
      x.data, nonce := x.nonce,
      safeTxHash, action, description, operationId, minDelay, threshold := x.threshold, owners := x.owners, proposedAt }

def handle (version : String) : Publish.SafeHandle := ⟨x.chainId, x.safe, version, x.owners, x.threshold⟩

end Transaction

/-- The bundles for a transaction that can be held, with the signatures that were made or imported on the way. -/
inductive Held (c : Crypto) (x : Transaction) : (BundleSignature → Prop) → SafeTxBundle → Prop
  | newBundle {build : Dapp.SafeTxBuild} (hbuild : Dapp.buildSafeTx c x.input = .ok build) (action description : String)
    (operationId : Hex) (minDelay : Nat) (proposedAt : String) :
    Held c x (fun _ => False) (x.newBundle build.safeTxHash action description operationId minDelay proposedAt)
  | proposeTx {version : String} {o : Publish.ProposeOpts} {sdkHash onchain : Hex} {proposedAt : String}
      {b : SafeTxBundle}
    (hto : o.toAddress = x.toAddress) (hdata : o.data = x.data)
    (h : Publish.proposeTx c (x.handle version) o x.nonce sdkHash onchain proposedAt = .ok b) : Held c x
      (fun _ => False) b
  | signProposal {S : BundleSignature → Prop} {b b' : SafeTxBundle} {build : Dapp.SafeTxBuild} {account : Address}
    {raw : List Char} {signature : Hex} (hb : Held c x S b) (hbuild : Dapp.buildSafeTx c x.input = .ok build)
    (hsignature : Dapp.toSafeSignature raw = .ok signature)
    (h : Dapp.signProposal c x.owners build.safeTxHash b account raw = .ok b') :
    Held c x (fun s => S s ∨ s = ⟨account, signature⟩) b'
  | signTx {S : BundleSignature → Prop} {b b' : SafeTxBundle} {signer : Publish.Signer}
    {asked : Option Publish.SignMode} {signature : Hex} (hb : Held c x S b)
    (hsignature : Publish.toSafeSignature (signer.sign b.safeTxHash (signer.mode asked)) (signer.mode asked) =
      .ok signature)
    (h : Publish.signTx c x.owners b signer asked = .ok b') :
    Held c x (fun s => S s ∨ s = ⟨signer.address, signature⟩) b'
  | importSignatures {S T : BundleSignature → Prop} {b e b' : SafeTxBundle} {order : KeyOrder}
    (hb : Held c x S b) (he : Held c x T e)
    (h : Dapp.importSignatures c b (exportBundle c order e) = .ok b') : Held c x (fun s => S s ∨ T s) b'
  | importSignatureBundle {S T : BundleSignature → Prop} {b e b' : SafeTxBundle} {order : KeyOrder}
    {files : List Char → Option (List Char)} {source : Publish.Source} (hb : Held c x S b) (he : Held c x T e)
    (hsource : Supplies files source (exportBundle c order e))
    (h : Publish.importSignatureBundle c files x.owners b source = .ok b') : Held c x (fun s => S s ∨ T s) b'

/-- What holds of every held bundle. -/
structure Sound (c : Crypto) (x : Transaction) (S : BundleSignature → Prop) (b : SafeTxBundle) : Prop where
  digest : ∃ d, x.digest c = some d ∧ b.safeTxHash.lc = d.lc
  owners : b.owners = x.owners
  threshold : b.threshold = .ofNat x.threshold
  call : b.toAddress = x.toAddress ∧ b.data = x.data
  ascending : Ascending b.signatures
  signed : ∀ s ∈ b.signatures, Signed c x.owners b.safeTxHash s
  made : ∀ s ∈ b.signatures, S s
  every : ∀ s, S s → ∃ t ∈ b.signatures, t.owner = s.owner

section

variable {c : Crypto} {x : Transaction} {S T : BundleSignature → Prop} {b e : SafeTxBundle}

private theorem Sound.lc_eq (hb : Sound c x S b) (he : Sound c x T e) : e.safeTxHash.lc = b.safeTxHash.lc := by
  obtain ⟨d, hd, hlc⟩ := hb.digest
  obtain ⟨d', hd', hlc'⟩ := he.digest
  obtain rfl : d = d' := some.inj (hd.symm.trans hd')
  exact hlc'.trans hlc.symm

private theorem Sound.new (hdigest : ∃ d, x.digest c = some d ∧ b.safeTxHash.lc = d.lc) (howners : b.owners = x.owners)
    (hthreshold : b.threshold = .ofNat x.threshold) (hcall : b.toAddress = x.toAddress ∧ b.data = x.data)
    (hnil : b.signatures = []) : Sound c x (fun _ => False) b := by
  refine ⟨hdigest, howners, hthreshold, hcall, ?_, ?_, ?_, fun _ h => h.elim⟩
  · rw [hnil]
    exact .nil
  · simp [hnil]
  · simp [hnil]

private theorem Sound.put {s : BundleSignature} (hb : Sound c x S b) (hs : Signed c x.owners b.safeTxHash s) :
    Sound c x (fun t => S t ∨ t = s) { b with signatures := Safe.put b.signatures s } := by
  refine ⟨hb.digest, hb.owners, hb.threshold, hb.call, ascending_put hb.ascending s, ?_, ?_, ?_⟩
  · intro t ht
    rcases mem_put.1 ht with rfl | ⟨ht, -⟩
    · exact hs
    · exact hb.signed t ht
  · intro t ht
    rcases mem_put.1 ht with rfl | ⟨ht, -⟩
    · exact .inr rfl
    · exact .inl (hb.made t ht)
  · rintro t (ht | rfl)
    · obtain ⟨u, hu, howner⟩ := hb.every t ht
      by_cases hus : u.owner = s.owner
      · exact ⟨s, mem_put.2 (.inl rfl), hus.symm.trans howner⟩
      · exact ⟨u, mem_put.2 (.inr ⟨hu, hus⟩), howner⟩
    · exact ⟨t, mem_put.2 (.inl rfl), rfl⟩

private theorem Sound.merge (hb : Sound c x S b) (he : Sound c x T e) : Sound c x (fun s => S s ∨ T s) (b.merge e) := by
  have hmem : ∀ s, s ∈ (b.merge e).signatures ↔ s ∈ e.signatures ∨ s ∈ b.signatures ∧
      ∀ t ∈ e.signatures, s.owner ≠ t.owner :=
    fun _ => mem_putAll he.ascending
  refine ⟨hb.digest, hb.owners, hb.threshold, hb.call, ascending_putAll hb.ascending _, ?_, ?_, ?_⟩
  · intro s hs
    rcases (hmem s).1 hs with hs | ⟨hs, -⟩
    · exact (he.signed s hs).of_lc (hb.lc_eq he)
    · exact hb.signed s hs
  · intro s hs
    rcases (hmem s).1 hs with hs | ⟨hs, -⟩
    · exact .inr (he.made s hs)
    · exact .inl (hb.made s hs)
  · rintro s (hs | hs)
    · obtain ⟨t, ht, howner⟩ := hb.every s hs
      by_cases hother : ∃ u ∈ e.signatures, u.owner = t.owner
      · obtain ⟨u, hu, hut⟩ := hother
        exact ⟨u, (hmem u).2 (.inl hu), hut.trans howner⟩
      refine ⟨t, (hmem t).2 (.inr ⟨ht, ?_⟩), howner⟩
      exact fun u hu h => hother ⟨u, hu, h.symm⟩
    · obtain ⟨t, ht, howner⟩ := he.every s hs
      exact ⟨t, (hmem t).2 (.inl ht), howner⟩

variable {signature : Hex} {b' : SafeTxBundle}

private theorem Dapp.signProposal_eq_ok {owners : List Address} {hash : Hex} {account : Address} {raw : List Char}
    (hsignature : toSafeSignature raw = .ok signature)
    (h : signProposal c owners hash b account raw = .ok b') :
    Signed c owners hash ⟨account, signature⟩ ∧
      b' = { b with signatures := Safe.put b.signatures ⟨account, signature⟩ } := by
  have hplain := plain_of_toSafeSignature hsignature
  unfold signProposal at h
  simp only [hsignature, bind_eq_ok, revertIf_eq_ok, not_not] at h
  obtain ⟨-, howner, sig, hsig, signer, hsigner, -, haccount, heq⟩ := h
  obtain rfl := ok.inj hsig
  rw [recoverSigner_of_plain c hash hplain, orThrow_eq_ok, lcAddress_inj.1 haccount] at hsigner
  refine ⟨⟨howner, .inl hplain, ?_⟩, ?_⟩
  · rw [Publish.recoverSafeSigner_of_plain c hash hplain, hsigner]
    rfl
  · rw [← addSignature_eq]
    exact (ok.inj heq).symm

private theorem Publish.signTx_eq_ok {owners : List Address} {signer : Publish.Signer}
    {asked : Option Publish.SignMode} (hb : Ascending b.signatures)
    (hsignature : toSafeSignature (signer.sign b.safeTxHash (signer.mode asked)) (signer.mode asked) = .ok signature)
    (h : signTx c owners b signer asked = .ok b') : Signed c owners b.safeTxHash ⟨signer.address, signature⟩ ∧
      b' = { b with signatures := Safe.put b.signatures ⟨signer.address, signature⟩ } := by
  have hform := form_of_toSafeSignature hsignature
  unfold Publish.signTx at h
  simp only [hsignature, bind_eq_ok, revertIf_eq_ok, not_not, Bool.not_eq_false] at h
  obtain ⟨-, howner, -, -, sig, hsig, -, hverify, heq⟩ := h
  obtain rfl := ok.inj hsig
  refine ⟨⟨howner, ?_, ?_⟩, ?_⟩
  · cases hmode : signer.mode asked with
    | raw =>
      rw [hmode] at hform
      exact .inl hform
    | ethSign =>
      rw [hmode] at hform
      exact .inr hform
  · unfold verifySafeSignature at hverify
    split at hverify
    · rename_i recovered hrecovered
      rw [hrecovered, lcAddress_inj.1 (of_decide_eq_true hverify)]
    · cases hverify
  · rw [← addSignature_eq hb]
    exact (ok.inj heq).symm

theorem Publish.signTx_of_verified {owners : List Address} {signer : Publish.Signer} {asked : Option Publish.SignMode}
    {signature : Hex} (howner : signer.address ∈ owners) (hmode : signer.mode asked ∈ signer.modes)
    (hsignature : toSafeSignature (signer.sign b.safeTxHash (signer.mode asked)) (signer.mode asked) = .ok signature)
    (hverify : verifySafeSignature c b.safeTxHash signer.address signature = true) : signTx c owners b signer asked =
      .ok { b with signatures := addSignature b.signatures ⟨signer.address, signature⟩ } := by
  unfold Publish.signTx
  rw [revertIf_of_not _ (not_not.2 howner), ok_bind]
  dsimp only
  rw [revertIf_of_not _ (not_not.2 hmode), ok_bind, hsignature, ok_bind,
    revertIf_of_not _ (by rw [hverify]; exact Bool.noConfusion)]
  rfl

private theorem Publish.sound_proposeTx {version : String} {o : Publish.ProposeOpts} {sdkHash onchain : Hex}
    {proposedAt : String}
    (hto : o.toAddress = x.toAddress) (hdata : o.data = x.data)
    (h : proposeTx c (x.handle version) o x.nonce sdkHash onchain proposedAt = .ok b) :
    Sound c x (fun _ => False) b := by
  unfold proposeTx at h
  obtain ⟨-, -, h⟩ := bind_eq_ok.1 h
  obtain ⟨-, -, h⟩ := bind_eq_ok.1 h
  obtain ⟨hash, hhash, h⟩ := bind_eq_ok.1 h
  rw [hto, hdata] at hhash
  obtain rfl := ok.inj h
  exact Sound.new (safeTxHashOf_eq_ok hhash) rfl rfl ⟨hto, hdata⟩ rfl

variable {build : Dapp.SafeTxBuild}

theorem digest_of_buildSafeTx (h : Dapp.buildSafeTx c x.input = .ok build) : x.digest c = some build.safeTxHash :=
  Dapp.buildSafeTx_digest h

private theorem Sound.importSignatures (hb : Sound c x S b) (he : Sound c x T e) :
    ((∀ s ∈ e.signatures, Plain s.signature) → Dapp.importSignatures c b (exportBundle c order e) = .ok (b.merge e)) ∧
      ((∃ s ∈ e.signatures, EthSigned s.signature) →
        ∃ message, Dapp.importSignatures c b (exportBundle c order e) = Dapp.refuse .signatureInvalid message) := by
  have hlc := hb.lc_eq he
  have hsigned : ∀ s ∈ e.signatures, Signed c b.owners b.safeTxHash s := by
    intro s hs
    rw [hb.owners]
    exact (he.signed s hs).of_lc hlc
  exact ⟨Dapp.importSignatures_export hlc hsigned, Dapp.importSignatures_refused hlc hsigned⟩

private theorem Sound.importSignatureBundle {files : List Char → Option (List Char)} {source : Publish.Source}
    (hb : Sound c x S b)
    (he : Sound c x T e) (hsource : Supplies files source (exportBundle c order e)) :
    Publish.importSignatureBundle c files x.owners b source = .ok (b.merge e) := by
  have hlc := hb.lc_eq he
  exact Publish.importSignatureBundle_export hsource hlc hb.ascending fun s hs => (he.signed s hs).of_lc hlc

private theorem sound_of_held (h : Held c x S b) : Sound c x S b := by
  induction h with
  | newBundle hbuild => exact Sound.new ⟨_, digest_of_buildSafeTx hbuild, rfl⟩ rfl rfl ⟨rfl, rfl⟩ rfl
  | proposeTx hto hdata h => exact Publish.sound_proposeTx hto hdata h
  | signProposal _ hbuild hsignature h ih =>
    obtain ⟨hsigned, rfl⟩ := Dapp.signProposal_eq_ok hsignature h
    obtain ⟨d, hd, hlc⟩ := ih.digest
    obtain rfl : d = _ := some.inj (hd.symm.trans (digest_of_buildSafeTx hbuild))
    exact ih.put (hsigned.of_lc hlc.symm)
  | signTx _ hsignature h ih =>
    obtain ⟨hsigned, rfl⟩ := Publish.signTx_eq_ok ih.ascending hsignature h
    exact ih.put hsigned
  | @importSignatures S T b e b' _ _ _ h ihb ihe =>
    obtain ⟨hplain, hrefused⟩ := ihb.importSignatures ihe
    by_cases hform : ∀ s ∈ e.signatures, Plain s.signature
    · obtain rfl := ok.inj ((hplain hform).symm.trans h)
      exact ihb.merge ihe
    obtain ⟨s, hs⟩ := not_forall.1 hform
    obtain ⟨hmem, hform⟩ := Classical.not_imp.1 hs
    obtain ⟨message, hrefused⟩ := hrefused ⟨s, hmem, (ihe.signed s hmem).form.resolve_left hform⟩
    rw [hrefused] at h
    cases h
  | importSignatureBundle _ _ hsource h ihb ihe =>
    obtain rfl := ok.inj ((ihb.importSignatureBundle ihe hsource).symm.trans h)
    exact ihb.merge ihe

theorem Sound.mem_signatures (hb : Sound c x S b) (hagree : Keyed.Agree BundleSignature.owner S) {s : BundleSignature} :
    s ∈ b.signatures ↔ S s := by
  constructor
  · exact hb.made s
  · intro hs
    obtain ⟨t, ht, howner⟩ := hb.every s hs
    rwa [← hagree t s (hb.made t ht) hs howner]

private theorem signatureOf_eq_some (hb : Ascending b.signatures) {owner : Address} {sig : Hex} :
    b.signatureOf owner = some sig ↔ (⟨owner, sig⟩ : BundleSignature) ∈ b.signatures := by
  unfold SafeTxBundle.signatureOf
  constructor
  · intro h
    obtain ⟨s, hs, rfl⟩ := map_eq_some_iff.1 h
    obtain rfl : s.owner = owner := by simpa using find?_some hs
    exact mem_of_find?_eq_some hs
  · intro h
    cases hfind : b.signatures.find? fun s => s.owner = owner with
    | none =>
      have := find?_eq_none.1 hfind _ h
      simp at this
    | some s =>
      have hmem := mem_of_find?_eq_some hfind
      have howner : s.owner = owner := by simpa using find?_some hfind
      have hnodup := Keyed.nodup_of_ascending hb
      rw [inj_on_of_nodup_map hnodup hmem h howner]
      rfl

private theorem Sound.signatureOf_merge (hb : Sound c x S b) (he : Sound c x T e) (owner : Address) :
    (b.merge e).signatureOf owner = (e.signatureOf owner).or (b.signatureOf owner) := by
  have hmerge : Ascending (b.merge e).signatures := (hb.merge he).ascending
  have hmem : ∀ sig, (⟨owner, sig⟩ : BundleSignature) ∈ (b.merge e).signatures ↔ ⟨owner, sig⟩ ∈ e.signatures ∨
      ⟨owner, sig⟩ ∈ b.signatures ∧ ∀ t ∈ e.signatures, owner ≠ t.owner := fun _ => mem_putAll he.ascending
  cases hsig : e.signatureOf owner with
  | some sig =>
    rw [some_or, signatureOf_eq_some hmerge, hmem]
    exact .inl ((signatureOf_eq_some he.ascending).1 hsig)
  | none =>
    have hnone : ∀ t ∈ e.signatures, owner ≠ t.owner := by
      rintro t ht rfl
      rw [(signatureOf_eq_some he.ascending).2 ht] at hsig
      cases hsig
    apply ext
    intro sig
    rw [none_or, signatureOf_eq_some hmerge, signatureOf_eq_some hb.ascending, hmem]
    constructor
    · rintro (h | ⟨h, -⟩)
      · exact absurd rfl (hnone _ h)
      · exact h
    · exact fun h => .inr ⟨h, hnone⟩

theorem Publish.checkSignatures_eq_ok {owners : List Address} {hash : Hex} {l : List BundleSignature} (hl : Ascending l)
    (hsigned : ∀ s ∈ l, Signed c owners hash s) (i : Nat) {prev : Option Address}
    (hprev : ∀ p, prev = some p → ∀ s ∈ l, p < s.owner) : checkSignatures c owners hash i prev l = .ok () := by
  induction l generalizing i prev with
  | nil => rfl
  | cons s l ih =>
    obtain ⟨hs, hl⟩ := pairwise_cons.1 hl
    have hsignedS := hsigned s (by simp)
    have hne : ¬ prev = some s.owner := fun h => lt_irrefl _ (hprev s.owner h s (by simp))
    have hlt : ¬ (prev.any fun p => !decide (lcAddress p < lcAddress s.owner)) = true := by
      cases hp : prev with
      | none => simp
      | some p => simp [lcAddress_lt_iff, hprev p hp s (by simp)]
    have hverify : ¬ verifySafeSignature c hash s.owner s.signature = false := by
      simp [verifySafeSignature, hsignedS.recovers]
    rw [checkSignatures, revertIf_of_not _ (not_not.2 hsignedS.owner), ok_bind, revertIf_of_not _ hne, ok_bind,
      revertIf_of_not _ hlt, ok_bind, revertIf_of_not _ hverify, ok_bind]
    apply ih hl (fun t ht => hsigned t (mem_cons_of_mem s ht))
    rintro p hp t ht
    obtain rfl := some.inj hp
    exact hs t ht

/-- The call that a bundle with enough signatures makes: the signatures of the first owners, as many as the
threshold. -/
def Transaction.call (x : Transaction) (b : SafeTxBundle) : ExecTransactionArgs :=
  execCall b (Hex.join ((b.signatures.take x.threshold).map fun s => s.signature))

theorem Sound.executeTx_eq (hb : Sound c x S b) (version : String) (hthreshold : x.threshold ≤ b.signatures.length) :
    Publish.executeTx c (x.handle version) b = .ok (x.call b) := by
  have htake : Ascending (b.signatures.take x.threshold) := hb.ascending.sublist (take_sublist _ _)
  have hcheck : Publish.checkSignatures c (x.handle version).owners b.safeTxHash 0 none b.signatures = .ok () :=
    Publish.checkSignatures_eq_ok hb.ascending hb.signed 0 fun _ h => nomatch h
  have hlength : ¬ b.signatures.length < (x.handle version).threshold := hthreshold.not_gt
  unfold Publish.executeTx
  rw [revertIf_of_not _ hlength, ok_bind, hcheck, ok_bind, Keyed.sort_eq_self follows_byOwner hb.ascending]
  exact congrArg (fun packed => ok (execCall b packed)) (Publish.packSignatures_eq htake)

private theorem Sound.execTransactionArgs_eq (hb : Sound c x S b) (hthreshold : x.threshold ≤ b.signatures.length)
    (hplain : ∀ s ∈ b.signatures, Plain s.signature) : Dapp.execTransactionArgs c b = .ok (x.call b) := by
  have htake : Ascending (b.signatures.take x.threshold) := hb.ascending.sublist (take_sublist _ _)
  have hpack := Dapp.packSignatures_eq c htake fun s hs => hplain s (mem_of_mem_take hs)
  rw [Publish.packSignatures_eq htake] at hpack
  unfold Dapp.execTransactionArgs
  rw [hb.threshold, Number.toNat?_ofNat, Dapp.orThrow_eq_ok.2 rfl, ok_bind,
    revertIf_of_not _ hthreshold.not_gt, ok_bind, Keyed.sort_eq_self follows_byOwnerAscending hb.ascending, hpack]
  rfl

end

/-- The dapp and the publishing tool compute the same digest for what the dapp signs, a plain call of its timelock, and
the dapp reads back the bundles it writes.  A bundle that has been passed around by owners with either tool, in any
order, is imported by the publishing tool, and by the dapp unless it has a signature of the `eth_sign` mode, which the
dapp refuses; both imports give the same bundle, in which the imported signatures replace those of the same owners.
When no owner has made two signatures, the result depends only on the signatures that have come together.  Both tools
make the same call of `execTransaction`, with each owner once and in strictly ascending order. -/
theorem bundles_agree (c : Crypto) :
    (∀ i build, Dapp.buildSafeTx c i = .ok build →
      Publish.localSafeTxHash c i.chainId i.safe i.toAddress i.data i.nonce.toNat = some build.safeTxHash) ∧
    (∀ i, (∃ build, Dapp.buildSafeTx c i = .ok build) ↔ Dapp.Signable c i) ∧
    (∀ order b, Dapp.parseBundle c (exportBundle c order b) = .ok b) ∧
    ∀ x : Transaction,
      (∀ S T order b e, Held c x S b → Held c x T e →
        (∀ files source, Supplies files source (exportBundle c order e) →
          Publish.importSignatureBundle c files x.owners b source = .ok (b.merge e)) ∧
        ((∀ s ∈ e.signatures, Plain s.signature) →
          Dapp.importSignatures c b (exportBundle c order e) = .ok (b.merge e)) ∧
        ((∃ s ∈ e.signatures, ¬ Plain s.signature) →
          ∃ message, Dapp.importSignatures c b (exportBundle c order e) = Dapp.refuse .signatureInvalid message) ∧
        (∀ owner, (b.merge e).signatureOf owner = (e.signatureOf owner).or (b.signatureOf owner)) ∧
        ((∀ s, S s ↔ T s) → Keyed.Agree BundleSignature.owner S → b.signatures = e.signatures)) ∧
      ∀ S b, Held c x S b →
        b.signatures.Pairwise (fun s t => s.owner < t.owner) ∧
        (x.threshold ≤ b.signatures.length →
          (∀ version, Publish.executeTx c (x.handle version) b = .ok (x.call b)) ∧
          ((∀ s ∈ b.signatures, Plain s.signature) → Dapp.execTransactionArgs c b = .ok (x.call b))) := by
  refine ⟨fun _ _ h => Dapp.buildSafeTx_digest h, fun _ =>
    Dapp.exists_buildSafeTx, Dapp.parseBundle_export c, fun x => ⟨?_, ?_⟩⟩
  · intro S T order b e hb he
    have hb := sound_of_held hb
    have he := sound_of_held he
    obtain ⟨hplain, hrefused⟩ := hb.importSignatures he
    refine ⟨fun _ _ hsource => hb.importSignatureBundle he hsource, hplain, ?_, hb.signatureOf_merge he, ?_⟩
    · rintro ⟨s, hs, hform⟩
      exact hrefused ⟨s, hs, (he.signed s hs).form.resolve_left hform⟩
    · intro hsame hagree
      have hagree' : Keyed.Agree BundleSignature.owner T :=
        fun s t hs ht => hagree s t ((hsame s).2 hs) ((hsame t).2 ht)
      apply Keyed.eq_of_mem_iff hb.ascending he.ascending
      intro s
      rw [hb.mem_signatures hagree, he.mem_signatures hagree', hsame]
  · intro S b hb
    have hb := sound_of_held hb
    exact ⟨hb.ascending, fun hthreshold =>
      ⟨fun version => hb.executeTx_eq version hthreshold, hb.execTransactionArgs_eq hthreshold⟩⟩

/-- A stand-in for the library functions: the first byte of a signature is its signer. -/
def sampleCrypto : Crypto where
  keccak256 _ := replicate 32 0
  ecrecover _ sig := some (Fin.ofNat _ (sig.headD 0).toNat)
  decodeFunctionName _ _ := some "schedule"

def sampleTransaction : Transaction where
  chainId := 8453
  safe := 100
  toAddress := 200
  data := Hex.ofBytes []
  nonce := 5
  owners := [1, 2]
  threshold := 2
  nonce_lt := by decide

def sampleHash : Hex := Hex.ofBytes (replicate 32 0)

def sampleSignature (owner v : UInt8) : Hex := Hex.ofBytes (owner :: (replicate 63 0 ++ [v]))

def sampleLedger : Publish.Signer := ⟨"ledger", 1, [.ethSign], fun _ _ => sampleSignature 1 27⟩

def sampleKeystore : Publish.Signer := ⟨"keystore", 2, [.raw, .ethSign], fun _ _ => sampleSignature 2 27⟩

private theorem sample_newBundle : ∃ b, Held sampleCrypto sampleTransaction (fun _ => False) b := by
  have hsignable : Dapp.Signable sampleCrypto sampleTransaction.input :=
    ⟨by decide, by decide, by decide, rfl, rfl, rfl, rfl, rfl, rfl, rfl, rfl, .schedule, rfl⟩
  obtain ⟨build, hbuild⟩ := Dapp.exists_buildSafeTx.2 hsignable
  exact ⟨_, Held.newBundle hbuild "" "" sampleHash 0 ""⟩

theorem sample_proposeTx : ∃ b, Held sampleCrypto sampleTransaction (fun _ => False) b ∧ b.safeTxHash = sampleHash ∧
    b.signatures = [] :=
  ⟨_, Held.proposeTx (o := ⟨200, Hex.ofBytes [], none, none, some 200, none, none⟩) rfl rfl
    (rfl : Publish.proposeTx _ (sampleTransaction.handle "1.4.1") _ _ sampleHash sampleHash "" = .ok _), rfl, rfl⟩

set_option maxRecDepth 20000 in
/-- An owner with a hardware wallet signs in the only mode it has, and the dapp of another owner refuses the bundle. -/
theorem ledger_bundle_refused :
    ∃ S T b e, Held sampleCrypto sampleTransaction S b ∧ Held sampleCrypto sampleTransaction T e ∧
    ∃ message, Dapp.importSignatures sampleCrypto b (exportBundle sampleCrypto .built e) =
      Dapp.refuse .signatureInvalid message := by
  obtain ⟨b, hb⟩ := sample_newBundle
  obtain ⟨e, he, hhash, hnil⟩ := sample_proposeTx
  have hsignature : Publish.toSafeSignature (sampleLedger.sign e.safeTxHash (sampleLedger.mode none))
      (sampleLedger.mode none) = .ok (sampleSignature 1 31) := rfl
  have hverify : Publish.verifySafeSignature sampleCrypto e.safeTxHash 1 (sampleSignature 1 31) = true := by
    rw [hhash]
    rfl
  have hform : EthSigned (sampleSignature 1 31) := ⟨by decide +kernel, by decide +kernel⟩
  have hsigned := @Publish.signTx_of_verified sampleCrypto e sampleTransaction.owners sampleLedger none _ (by decide)
    (by decide) hsignature hverify
  have he' := Held.signTx he hsignature hsigned
  refine ⟨_, _, b, _, hb, he', ?_⟩
  apply ((sound_of_held hb).importSignatures (sound_of_held he')).2
  refine ⟨⟨1, sampleSignature 1 31⟩, ?_, hform⟩
  rw [hnil]
  exact mem_singleton_self _

set_option maxRecDepth 20000 in
/-- With a keystore, the same goes through. -/
theorem bundles_agree_of_keystore :
    ∃ S T b e, Held sampleCrypto sampleTransaction S b ∧ Held sampleCrypto sampleTransaction T e ∧
    e.signatures = [⟨2, sampleSignature 2 27⟩] ∧
    Dapp.importSignatures sampleCrypto b (exportBundle sampleCrypto .built e) = .ok (b.merge e) := by
  obtain ⟨b, hb⟩ := sample_newBundle
  obtain ⟨e, he, hhash, hnil⟩ := sample_proposeTx
  have hsignature : Publish.toSafeSignature (sampleKeystore.sign e.safeTxHash (sampleKeystore.mode none))
      (sampleKeystore.mode none) = .ok (sampleSignature 2 27) := rfl
  have hverify : Publish.verifySafeSignature sampleCrypto e.safeTxHash 2 (sampleSignature 2 27) = true := by
    rw [hhash]
    rfl
  have hplain : Plain (sampleSignature 2 27) := ⟨by decide +kernel, by decide +kernel, by decide +kernel⟩
  have hsigned := @Publish.signTx_of_verified sampleCrypto e sampleTransaction.owners sampleKeystore none _ (by decide)
    (by decide) hsignature hverify
  have he' := Held.signTx he hsignature hsigned
  have hsignatures : Publish.addSignature e.signatures ⟨2, sampleSignature 2 27⟩ = [⟨2, sampleSignature 2 27⟩] := by
    rw [hnil]
    rfl
  refine ⟨_, _, b, _, hb, he', hsignatures, ?_⟩
  apply (((bundles_agree sampleCrypto).2.2.2 sampleTransaction).1 _ _ .built b _ hb he').2.1
  intro s hs
  rw [show s = ⟨2, sampleSignature 2 27⟩ from mem_singleton.1 (hsignatures ▸ hs)]
  exact hplain

end RobotMoney.Safe
