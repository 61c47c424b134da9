import RobotMoney.Evm.Machine
import RobotMoney.Indexer.Database
import RobotMoney.Sort.Keyed

/-!
# The verification of receipts

A row of `consensus_receipts` says whether bytes that were fetched for its URI hash to its digest.  The flag is set when
the log is handled, again when the log is handled again, and by a sweep at the start of a tick; a row that is verified
is not written by any of them.  `Audit` keeps, besides the rows, what the hosts have served and how often a row was
swept.

A log that is handled again writes its verification into a row of its key even if the row has another digest or another
URI: rows are verified soundly as long as no log does that (`receipts_verified_soundly`).
-/

namespace RobotMoney.Indexer

open Evm SqlTable List Function

abbrev Body := List UInt8

/-- `keccak256`, and `canonical_bytes_from_json_slice` of the receipt library. -/
structure ReceiptDigests where
  keccak256 : Body → Word
  canonicalBytes : Body → Except String Body

structure ReceiptVerification where
  verified : Bool
  payloadBytes : Option Nat
  attempts : Nat
  lastError : Option String
  deriving DecidableEq, Repr

variable (dg : ReceiptDigests)

def payloadFetchAttempts : Nat := 3

def sweepBatch : Nat := 16

def sweepMaxAttempts : Nat := 12

def digestMatches (body : Body) (expectedDigest : Word) : Bool × Option String :=
  if dg.keccak256 body = expectedDigest then (true, none)
  else
    match dg.canonicalBytes body with
    | .ok canonical =>
      if dg.keccak256 canonical = expectedDigest then (true, none)
      else (false, some ("digest mismatch: neither the served bytes nor the re-derived canonical bytes hash to the " ++
        "on-chain payloadDigest"))
    | .error e => (false, some ("digest mismatch and payload is not a parseable consensus receipt: " ++ e))

/-- The loop of `fetch_and_verify_payload`, with the attempts left and those made. -/
def fetchAttempts (expectedDigest : Word) (fetch : Nat → Except String Body) :
    Nat → Nat → Option String → ReceiptVerification
  | 0, attempts, lastError => ⟨false, none, attempts, lastError.or (some "payload fetch failed")⟩
  | left + 1, attempts, _ =>
    match fetch attempts with
    | .ok body => ⟨(digestMatches dg body expectedDigest).1, some body.length, attempts + 1,
        (digestMatches dg body expectedDigest).2⟩
    | .error e => fetchAttempts expectedDigest fetch left (attempts + 1) (some e)

/-- `fetch_and_verify_payload`, by what each attempt comes to. -/
def fetchAndVerifyPayload (fetch : Nat → Except String Body) (expectedDigest : Word) : ReceiptVerification :=
  fetchAttempts dg expectedDigest fetch payloadFetchAttempts 0 none

/-- A fetch under a deadline: it is cut, or each attempt gets a body or an error. -/
inductive Fetch where
  | cut
  | answers (fetch : Nat → Except String Body)

def Fetch.outcome (cutError : String) (expectedDigest : Word) : Fetch → ReceiptVerification
  | .cut => ⟨false, none, 1, some cutError⟩
  | .answers fetch => fetchAndVerifyPayload dg fetch expectedDigest

/-- The fetch of a log that is handled: none once the budget of the tick is spent. -/
inductive InlineFetch where
  | spent
  | fetch (f : Fetch)

def indexVerification (payloadUri : String) (payloadDigest : Word) (inline : InlineFetch) : ReceiptVerification :=
  if payloadUri = "" then ⟨false, none, 0, some "payload_uri is empty"⟩
  else
    match inline with
    | .spent => ⟨false, none, 0,
        some ("not fetched at index time: the tick's 30s inline fetch budget was spent; the " ++
        "re-verification sweep fetches it")⟩
    | .fetch f => f.outcome dg "payload fetch cut by the tick's 30s inline fetch budget" payloadDigest

/-- A row with its verification. -/
structure StoredReceipt where
  row : ReceiptRow
  verified : Bool
  payloadBytes : Option Nat
  verifyAttempts : Nat
  lastVerifyError : Option String
  deriving DecidableEq, Repr

def StoredReceipt.key (r : StoredReceipt) : Address × Word := r.row.key

/-- `insert_consensus_receipt` of a row that is not there. -/
def storedReceipt (row : ReceiptRow) (v : ReceiptVerification) : StoredReceipt :=
  ⟨row, v.verified, v.payloadBytes, v.attempts, v.lastError⟩

/-- The conflict arm, `WHERE consensus_receipts.verified = FALSE`. -/
def StoredReceipt.merge (v : ReceiptVerification) (r : StoredReceipt) : StoredReceipt :=
  if r.verified then r
  else { r with
    verified := v.verified
    payloadBytes := v.payloadBytes.or r.payloadBytes
    verifyAttempts := r.verifyAttempts + v.attempts
    lastVerifyError := v.lastError }

/-- `insert_consensus_receipt`. -/
def insertReceipt (row : ReceiptRow) (v : ReceiptVerification) (t : List StoredReceipt) : List StoredReceipt :=
  if t.any (fun r => decide (r.key = row.key)) then t.map fun r => if r.key = row.key then r.merge v else r
  else t ++ [storedReceipt row v]

/-- `mark_consensus_receipt_released`. -/
def markReceiptReleased (contractAddress : Address) (receiptId : Word) (release : Release) (t : List StoredReceipt) :
    List StoredReceipt :=
  t.map fun r => { r with row := setRelease contractAddress receiptId release r.row }

/-- `repair_receipt_verification`. -/
def StoredReceipt.repair (v : ReceiptVerification) (r : StoredReceipt) : StoredReceipt :=
  if r.verified then r
  else { r with
    verified := v.verified
    payloadBytes := v.payloadBytes.or r.payloadBytes
    verifyAttempts := r.verifyAttempts + 1
    lastVerifyError := v.lastError }

def repairReceiptVerification (key : Address × Word) (v : ReceiptVerification) (t : List StoredReceipt) :
    List StoredReceipt :=
  t.map fun r => if r.key = key then r.repair v else r

def StoredReceipt.pending (maxAttempts : Nat) (r : StoredReceipt) : Bool :=
  !r.verified && r.row.payloadUri ≠ "" && decide (r.verifyAttempts < maxAttempts)

open StoredReceipt

def listUnverifiedReceipts (maxAttempts limit : Nat) (t : List StoredReceipt) : List StoredReceipt :=
  (Keyed.sortByKey (fun r => r.row.place.pos) (t.filter (·.pending maxAttempts))).take limit

def sweepRow (t : List StoredReceipt) (p : StoredReceipt × Fetch) : List StoredReceipt :=
  repairReceiptVerification p.1.key
    (p.2.outcome dg "payload fetch cut by the sweep's 30s per-tick budget" p.1.row.payloadDigest) t

/-- `delete_above_block`. -/
def deleteReceiptsAbove (root : Int) (t : List StoredReceipt) : List StoredReceipt :=
  (t.filter fun r => survives root .consensusReceipts r.row.place.blockNumber).map fun r =>
    { r with row := undoRelease root r.row }

/-- The bytes, or the canonical bytes that are derived from them, hash to the digest. -/
def IsPreimage (body : Body) (digest : Word) : Prop :=
  dg.keccak256 body = digest ∨ ∃ canonical, dg.canonicalBytes body = .ok canonical ∧ dg.keccak256 canonical = digest

def servedBy (fetch : Nat → Except String Body) : Nat → Nat → Option Body
  | 0, _ => none
  | left + 1, attempts =>
    match fetch attempts with
    | .ok body => some body
    | .error _ => servedBy fetch left (attempts + 1)

def Fetch.served : Fetch → Option Body
  | .cut => none
  | .answers fetch => servedBy fetch payloadFetchAttempts 0

def InlineFetch.served (payloadUri : String) : InlineFetch → Option Body
  | .spent => none
  | .fetch f => if payloadUri = "" then none else f.served

private theorem digestMatches_iff (body : Body) (digest : Word) :
    (digestMatches dg body digest).1 = true ↔ IsPreimage dg body digest := by
  unfold digestMatches IsPreimage
  split
  · rename_i hbody
    simp [hbody]
  rename_i hbody
  split
  · rename_i canonical hcanonical
    split
    · rename_i hmatch
      simp [hbody, hmatch, hcanonical]
    rename_i hno
    simp [hbody, hno, hcanonical]
  rename_i e herror
  simp [hbody, herror]

variable {dg}

variable {digest : Word} {v : ReceiptVerification} {r : StoredReceipt} {row : ReceiptRow} {t : List StoredReceipt}

private theorem fetchAttempts_verified {fetch : Nat → Except String Body} {left attempts : Nat}
    {lastError : Option String} (h : (fetchAttempts dg digest fetch left attempts lastError).verified = true) :
    ∃ body, servedBy fetch left attempts = some body ∧ IsPreimage dg body digest := by
  induction left generalizing attempts lastError with
  | zero => cases h
  | succ left ih =>
    unfold fetchAttempts at h
    unfold servedBy
    cases hfetch : fetch attempts with
    | ok body =>
      simp only [hfetch] at h
      exact ⟨body, rfl, (digestMatches_iff dg body digest).1 h⟩
    | error e =>
      simp only [hfetch] at h
      exact ih h

private theorem outcome_verified {f : Fetch} {cutError : String} (h : (f.outcome dg cutError digest).verified = true) :
    ∃ body, f.served = some body ∧ IsPreimage dg body digest := by
  cases f with
  | cut => cases h
  | answers fetch =>
    have hverified : (fetchAttempts dg digest fetch payloadFetchAttempts 0 none).verified = true := h
    exact fetchAttempts_verified hverified

private theorem indexVerification_verified {uri : String} {inline : InlineFetch}
    (h : (indexVerification dg uri digest inline).verified = true) :
    ∃ body, inline.served uri = some body ∧ IsPreimage dg body digest := by
  unfold indexVerification at h
  split at h
  · cases h
  rename_i huri
  cases inline with
  | spent => cases h
  | fetch f =>
    obtain ⟨body, hserved, hpreimage⟩ := outcome_verified h
    exact ⟨body, by rw [InlineFetch.served, if_neg huri, hserved], hpreimage⟩

variable (dg) (cfg : Config)

/-- The rows, every body that was served with the URI it was served for, and how often each row was swept since it was
inserted. -/
structure Audit where
  rows : List StoredReceipt
  served : List (String × Body)
  sweeps : Address × Word → Nat

def Audit.empty : Audit := ⟨[], [], fun _ => 0⟩

inductive ReceiptStep where
  /-- A `ReceiptRecorded` is handled, for the first time or again. -/
  | insert (row : ReceiptRow) (inline : InlineFetch)
  | release (contractAddress : Address) (receiptId : Word) (release : Release)
  | sweep (fetches : List Fetch)
  | rollback (root : Int)

def Audit.sweepRow (a : Audit) (p : StoredReceipt × Fetch) : Audit where
  rows := Indexer.sweepRow dg a.rows p
  served := a.served ++ (p.2.served.map fun body => (p.1.row.payloadUri, body)).toList
  sweeps := Function.update a.sweeps p.1.key (a.sweeps p.1.key + 1)

def Audit.step (a : Audit) : ReceiptStep → Audit
  | .insert row inline =>
    { rows := insertReceipt row (indexVerification dg row.payloadUri row.payloadDigest inline) a.rows
      served := a.served ++ ((inline.served row.payloadUri).map fun body => (row.payloadUri, body)).toList
      sweeps := if a.rows.any (fun r => decide (r.key = row.key)) then a.sweeps
        else Function.update a.sweeps row.key 0 }
  | .release contractAddress receiptId release =>
    { a with rows := markReceiptReleased contractAddress receiptId release a.rows }
  | .sweep fetches =>
    if cfg.consensusReceipt.isNone then a
    else ((listUnverifiedReceipts sweepMaxAttempts sweepBatch a.rows).zip fetches).foldl (Audit.sweepRow dg) a
  | .rollback root => { a with rows := deleteReceiptsAbove root a.rows }

def Audit.call (a : Audit) (s : ReceiptStep) : Except Empty Audit := .ok (a.step dg cfg s)

/-- A log that is handled again writes no verification of another digest or of another URI: a row of its key that is not
verified has its digest and its URI, or what is fetched does not hash to its digest. -/
def Conforms (a : Audit) : ReceiptStep → Prop
  | .insert row inline =>
    ∀ r ∈ a.rows, r.key = row.key → r.verified = false →
      (r.row.payloadDigest = row.payloadDigest ∧ r.row.payloadUri = row.payloadUri) ∨
        ∀ body, inline.served row.payloadUri = some body → ¬ IsPreimage dg body row.payloadDigest
  | _ => True

def SoundRow (served : List (String × Body)) (r : StoredReceipt) : Prop :=
  r.verified = true → ∃ body, (r.row.payloadUri, body) ∈ served ∧ IsPreimage dg body r.row.payloadDigest

/-- What holds in every audit of a run: a key has one row, a row is not swept more often than it has attempts, and a row
was swept at most the bounded number of times. -/
structure Audit.Bounded (a : Audit) : Prop where
  nodup : (a.rows.map key).Nodup
  attempts : ∀ r ∈ a.rows, a.sweeps r.key ≤ r.verifyAttempts
  bounded : ∀ r ∈ a.rows, a.sweeps r.key ≤ sweepMaxAttempts

variable {dg} {cfg} {a : Audit}

@[simp] theorem key_merge (v : ReceiptVerification) (r : StoredReceipt) : (r.merge v).key = r.key := by
  unfold StoredReceipt.merge
  split <;> rfl

@[simp] theorem key_repair (v : ReceiptVerification) (r : StoredReceipt) : (r.repair v).key = r.key := by
  unfold repair
  split <;> rfl

@[simp] theorem row_merge (v : ReceiptVerification) (r : StoredReceipt) : (r.merge v).row = r.row := by
  unfold StoredReceipt.merge
  split <;> rfl

@[simp] theorem row_repair (v : ReceiptVerification) (r : StoredReceipt) : (r.repair v).row = r.row := by
  unfold repair
  split <;> rfl

private theorem merge_of_verified (h : r.verified = true) : r.merge v = r := by
  rw [StoredReceipt.merge, if_pos h]

private theorem repair_of_verified (h : r.verified = true) : r.repair v = r := by
  rw [repair, if_pos h]

private theorem attempts_le_merge (v : ReceiptVerification) (r : StoredReceipt) :
    r.verifyAttempts ≤ (r.merge v).verifyAttempts := by
  unfold StoredReceipt.merge
  split
  · exact le_rfl
  · exact Nat.le_add_right _ _

private theorem verified_of_merge (h : (r.merge v).verified = true) :
    r.verified = true ∨ (r.verified = false ∧ v.verified = true) := by
  unfold StoredReceipt.merge at h
  split at h
  · exact .inl h
  rename_i hr
  exact .inr ⟨by simpa using hr, h⟩

private theorem mem_insertReceipt {r' : StoredReceipt} : r' ∈ insertReceipt row v t ↔
      (r' ∈ t ∧ r'.key ≠ row.key) ∨ (∃ r ∈ t, r.key = row.key ∧ r' = r.merge v) ∨
        ((∀ r ∈ t, r.key ≠ row.key) ∧ r' = storedReceipt row v) := by
  unfold insertReceipt
  split
  · rename_i hany
    obtain ⟨r₀, hr₀, hkey₀⟩ := any_eq_true.1 hany
    rw [mem_map]
    constructor
    · rintro ⟨r, hr, rfl⟩
      split
      · rename_i hkey
        exact .inr (.inl ⟨r, hr, hkey, rfl⟩)
      rename_i hkey
      exact .inl ⟨hr, hkey⟩
    · rintro (⟨hr, hkey⟩ | ⟨r, hr, hkey, rfl⟩ | ⟨hfresh, -⟩)
      · exact ⟨r', hr, if_neg hkey⟩
      · exact ⟨r, hr, if_pos hkey⟩
      · exact (hfresh r₀ hr₀ (of_decide_eq_true hkey₀)).elim
  rename_i hany
  have hfresh : ∀ r ∈ t, r.key ≠ row.key := fun r hr hkey => hany (any_eq_true.2 ⟨r, hr, decide_eq_true hkey⟩)
  rw [mem_append, mem_singleton]
  constructor
  · rintro (hr | rfl)
    · exact .inl ⟨hr, hfresh r' hr⟩
    · exact .inr (.inr ⟨hfresh, rfl⟩)
  · rintro (⟨hr, -⟩ | ⟨r, hr, hkey, -⟩ | ⟨-, rfl⟩)
    · exact .inl hr
    · exact (hfresh r hr hkey).elim
    · exact .inr rfl

theorem nodup_insertReceipt (h : (t.map key).Nodup) :
    ((insertReceipt row v t).map key).Nodup := by
  unfold insertReceipt
  split
  · rw [map_map]
    have hkeys : (key ∘ fun r : StoredReceipt => if r.key = row.key then r.merge v else r) =
        key := by
      funext r
      simp only [comp_apply]
      split
      · exact key_merge v r
      · rfl
    rwa [hkeys]
  rename_i hany
  rw [map_append, nodup_append]
  refine ⟨h, nodup_singleton _, ?_⟩
  intro k hk k' hk'
  obtain ⟨r, hr, rfl⟩ := mem_map.1 hk
  rw [mem_singleton.1 hk']
  intro hkey
  exact hany (any_eq_true.2 ⟨r, hr, decide_eq_true hkey⟩)

private theorem key_release (c : Address) (id : Word) (release : Release) (r : StoredReceipt) :
    key { r with row := setRelease c id release r.row } = r.key := by
  simp only [key, setRelease]
  split <;> rfl

private theorem key_undoRelease (root : Int) (r : StoredReceipt) :
    key { r with row := undoRelease root r.row } = r.key := by
  simp only [key, undoRelease]
  split
  · split <;> rfl
  · rfl

private theorem Audit.Bounded.map (h : a.Bounded) {f : StoredReceipt → StoredReceipt} (hkey : ∀ r, (f r).key = r.key)
    (hattempts : ∀ r, (f r).verifyAttempts = r.verifyAttempts) (ht : t.Sublist a.rows) :
    Audit.Bounded { a with rows := t.map f } := by
  refine ⟨?_, ?_, ?_⟩
  · have hkeys : (t.map f).map key = t.map key := by
      rw [map_map]
      exact map_congr_left fun r _ => hkey r
    rw [hkeys]
    exact h.nodup.sublist (ht.map _)
  · intro r' hr'
    obtain ⟨r, hr, rfl⟩ := mem_map.1 hr'
    simp only [hkey, hattempts]
    exact h.attempts r (ht.subset hr)
  · intro r' hr'
    obtain ⟨r, hr, rfl⟩ := mem_map.1 hr'
    simp only [hkey]
    exact h.bounded r (ht.subset hr)

/-- A row that the sweep fetches is swept once more, and has one attempt more. -/
theorem sweepRow_bounded (h : a.Bounded) {p : StoredReceipt × Fetch} (hmem : p.1 ∈ a.rows)
    (hpending : p.1.pending sweepMaxAttempts = true) : (a.sweepRow dg p).Bounded := by
  simp only [StoredReceipt.pending, Bool.and_eq_true, Bool.not_eq_eq_eq_not, Bool.not_true,
    decide_eq_true_eq] at hpending
  obtain ⟨⟨hunverified, -⟩, hlt⟩ := hpending
  have hone : ∀ r ∈ a.rows, r.key = p.1.key → r = p.1 :=
    fun r hr hkey => inj_on_of_nodup_map h.nodup hr hmem hkey
  have hrow : ∀ r' ∈ (a.sweepRow dg p).rows, (r' ∈ a.rows ∧ r'.key ≠ p.1.key) ∨
      (r'.key = p.1.key ∧ r'.verifyAttempts = p.1.verifyAttempts + 1) := by
    intro r' hr'
    obtain ⟨r, hr, rfl⟩ := mem_map.1 hr'
    split
    · rename_i hkey
      obtain rfl := hone r hr hkey
      refine .inr ⟨key_repair .., ?_⟩
      rw [repair, if_neg (by rw [hunverified]; decide)]
    rename_i hkey
    exact .inl ⟨hr, hkey⟩
  have hattempts := h.attempts p.1 hmem
  refine ⟨?_, ?_, ?_⟩
  · have hkeys : (a.sweepRow dg p).rows.map key = a.rows.map key := by
      simp only [Audit.sweepRow, sweepRow, repairReceiptVerification, map_map]
      apply map_congr_left
      intro r _
      simp only [comp_apply]
      split
      · exact key_repair ..
      · rfl
    rw [hkeys]
    exact h.nodup
  · intro r' hr'
    obtain ⟨hr, hkey⟩ | ⟨hkey, hattempts'⟩ := hrow r' hr'
    · simp only [Audit.sweepRow, update_of_ne hkey]
      exact h.attempts r' hr
    simp only [Audit.sweepRow, hkey, update_self]
    omega
  · intro r' hr'
    obtain ⟨hr, hkey⟩ | ⟨hkey, -⟩ := hrow r' hr'
    · simp only [Audit.sweepRow, update_of_ne hkey]
      exact h.bounded r' hr
    simp only [Audit.sweepRow, hkey, update_self]
    omega

private theorem sweep_invariant {P : Audit → Prop}
    (hstep : ∀ a p, P a → p.1 ∈ a.rows → p.1.pending sweepMaxAttempts = true → P (a.sweepRow dg p)) (h : P a)
    {pending : List (StoredReceipt × Fetch)} (hmem : ∀ p ∈ pending, p.1 ∈ a.rows ∧ p.1.pending sweepMaxAttempts = true)
    (hnodup : (pending.map fun p => p.1.key).Nodup) : P (pending.foldl (Audit.sweepRow dg) a) := by
  induction pending generalizing a with
  | nil => exact h
  | cons p pending ih =>
    obtain ⟨hfresh, hnodup⟩ := nodup_cons.1 hnodup
    obtain ⟨hp, hpending⟩ := hmem p (by simp)
    refine ih (hstep a p h hp hpending) ?_ hnodup
    intro q hq
    obtain ⟨hrow, hqpending⟩ := hmem q (mem_cons_of_mem p hq)
    refine ⟨mem_map.2 ⟨q.1, hrow, if_neg ?_⟩, hqpending⟩
    intro hkey
    exact hfresh (mem_map.2 ⟨q, hq, hkey⟩)

private theorem pending_rows (fetches : List Fetch) :
    ∀ p ∈ (listUnverifiedReceipts sweepMaxAttempts sweepBatch a.rows).zip fetches,
      p.1 ∈ a.rows ∧ p.1.pending sweepMaxAttempts = true := by
  intro p hp
  have hmem : p.1 ∈ listUnverifiedReceipts sweepMaxAttempts sweepBatch a.rows := (of_mem_zip hp).1
  have hfilter := Keyed.mem_sortByKey.1 (mem_of_mem_take hmem)
  exact mem_filter.1 hfilter

private theorem map_fst_zip_sublist {α β : Type} (l : List α) (m : List β) : ((l.zip m).map Prod.fst).Sublist l := by
  induction l generalizing m with
  | nil => exact .refl _
  | cons x l ih =>
    cases m with
    | nil => exact nil_sublist _
    | cons y m => exact (ih m).cons_cons x

private theorem pending_nodup (h : (a.rows.map key).Nodup) (fetches : List Fetch) :
    (((listUnverifiedReceipts sweepMaxAttempts sweepBatch a.rows).zip fetches).map fun p => p.1.key).Nodup := by
  have hsorted : ((Keyed.sortByKey (fun r : StoredReceipt => r.row.place.pos)
      (a.rows.filter (·.pending sweepMaxAttempts))).map key).Nodup :=
    ((Keyed.sortByKey_perm _).map _).nodup_iff.2 (h.sublist (filter_sublist.map _))
  have htake : ((listUnverifiedReceipts sweepMaxAttempts sweepBatch a.rows).map key).Nodup :=
    hsorted.sublist ((take_sublist _ _).map _)
  have hzip : ((listUnverifiedReceipts sweepMaxAttempts sweepBatch a.rows).zip fetches).map (fun p => p.1.key) =
      (((listUnverifiedReceipts sweepMaxAttempts sweepBatch a.rows).zip fetches).map Prod.fst).map
          key := by
    rw [map_map]
    rfl
  rw [hzip]
  exact htake.sublist ((map_fst_zip_sublist _ _).map _)

private theorem sweeps_insert {inline : InlineFetch} {r' : StoredReceipt}
    (hr' : r' ∈ (a.step dg cfg (.insert row inline)).rows) : (a.step dg cfg (.insert row inline)).sweeps r'.key = 0 ∨
      ∃ r ∈ a.rows, r.verifyAttempts ≤ r'.verifyAttempts ∧
        (a.step dg cfg (.insert row inline)).sweeps r'.key = a.sweeps r.key := by
  obtain ⟨hr, hkey⟩ | ⟨r, hr, hkey, rfl⟩ | ⟨hfresh, rfl⟩ := mem_insertReceipt.1 hr'
  · refine .inr ⟨r', hr, le_rfl, ?_⟩
    simp only [Audit.step]
    split
    · rfl
    · exact update_of_ne hkey ..
  · refine .inr ⟨r, hr, attempts_le_merge .., ?_⟩
    have hany : a.rows.any (fun r => decide (r.key = row.key)) = true := any_eq_true.2 ⟨r, hr, decide_eq_true hkey⟩
    simp only [Audit.step, hany, if_true, key_merge]
  left
  have hany : a.rows.any (fun r => decide (r.key = row.key)) = false := by
    rw [any_eq_false]
    intro r hr
    simpa using hfresh r hr
  have hkey : ∀ v, (storedReceipt row v).key = row.key := fun _ => rfl
  simp only [Audit.step, hany, Bool.false_eq_true, if_false, hkey, update_self]

private theorem step_bounded (h : a.Bounded) (s : ReceiptStep) : (a.step dg cfg s).Bounded := by
  cases s with
  | insert row inline =>
    refine ⟨nodup_insertReceipt h.nodup, ?_, ?_⟩
    · intro r' hr'
      obtain hzero | ⟨r, hr, hattempts, hsweeps⟩ := sweeps_insert hr'
      · rw [hzero]
        exact Nat.zero_le _
      rw [hsweeps]
      exact (h.attempts r hr).trans hattempts
    · intro r' hr'
      obtain hzero | ⟨r, hr, -, hsweeps⟩ := sweeps_insert hr'
      · rw [hzero]
        exact Nat.zero_le _
      rw [hsweeps]
      exact h.bounded r hr
  | release c id release => exact h.map (fun r => key_release c id release r) (fun _ => rfl) (.refl _)
  | sweep fetches =>
    simp only [Audit.step]
    split
    · exact h
    · exact sweep_invariant (fun _ _ h => sweepRow_bounded h) h (pending_rows fetches) (pending_nodup h.nodup fetches)
  | rollback root => exact h.map (fun r => key_undoRelease root r) (fun _ => rfl) filter_sublist

private theorem SoundRow.mono {served served' : List (String × Body)} (h : SoundRow dg served r)
    (hsub : ∀ x ∈ served, x ∈ served') : SoundRow dg served' r := by
  intro hverified
  obtain ⟨body, hbody, hpreimage⟩ := h hverified
  exact ⟨body, hsub _ hbody, hpreimage⟩

theorem sweepRow_sound (h : ∀ r ∈ a.rows, SoundRow dg a.served r) (hnodup : (a.rows.map key).Nodup)
    {p : StoredReceipt × Fetch} (hmem : p.1 ∈ a.rows) :
    ∀ r ∈ (a.sweepRow dg p).rows, SoundRow dg (a.sweepRow dg p).served r := by
  intro r' hr'
  obtain ⟨r, hr, rfl⟩ := mem_map.1 hr'
  have hold : SoundRow dg (a.sweepRow dg p).served r := (h r hr).mono fun x hx => mem_append_left _ hx
  split
  · rename_i hkey
    obtain rfl : r = p.1 := inj_on_of_nodup_map hnodup hr hmem hkey
    cases hverified : p.1.verified with
    | true => rwa [repair_of_verified hverified]
    | false =>
      intro hnew
      rw [repair, if_neg (by rw [hverified]; decide)] at hnew
      obtain ⟨body, hserved, hpreimage⟩ := outcome_verified hnew
      rw [row_repair]
      exact ⟨body, mem_append_right _ (by simp [hserved]), hpreimage⟩
  · exact hold

/-- A step that conforms keeps the rows sound. -/
theorem step_sound (hb : a.Bounded) (h : ∀ r ∈ a.rows, SoundRow dg a.served r) {s : ReceiptStep}
    (hs : Conforms dg a s) : ∀ r ∈ (a.step dg cfg s).rows, SoundRow dg (a.step dg cfg s).served r := by
  cases s with
  | insert row inline =>
    intro r' hr'
    have hmono : ∀ r ∈ a.rows, SoundRow dg (a.step dg cfg (.insert row inline)).served r :=
      fun r hr => (h r hr).mono fun x hx => mem_append_left _ hx
    have hnew : ∀ body, inline.served row.payloadUri = some body →
        (row.payloadUri, body) ∈ (a.step dg cfg (.insert row inline)).served :=
      fun body hbody => mem_append_right _ (by simp [hbody])
    obtain ⟨hr, -⟩ | ⟨r, hr, hkey, rfl⟩ | ⟨-, rfl⟩ := mem_insertReceipt.1 hr'
    · exact hmono r' hr
    · intro hverified
      obtain hold | ⟨hunverified, hverification⟩ := verified_of_merge hverified
      · have hsound := hmono r hr hold
        rwa [merge_of_verified hold]
      obtain ⟨body, hbody, hpreimage⟩ := indexVerification_verified hverification
      rw [row_merge]
      obtain ⟨hdigest, huri⟩ | hno := hs r hr hkey hunverified
      · rw [hdigest, huri]
        exact ⟨body, hnew body hbody, hpreimage⟩
      · exact (hno body hbody hpreimage).elim
    intro hverified
    obtain ⟨body, hbody, hpreimage⟩ := indexVerification_verified hverified
    exact ⟨body, hnew body hbody, hpreimage⟩
  | release c id release =>
    intro r' hr'
    obtain ⟨r, hr, rfl⟩ := mem_map.1 hr'
    intro hverified
    have hsame : (setRelease c id release r.row).payloadUri = r.row.payloadUri ∧
        (setRelease c id release r.row).payloadDigest = r.row.payloadDigest := by
      unfold setRelease
      split <;> exact ⟨rfl, rfl⟩
    simp only [hsame.1, hsame.2]
    exact h r hr hverified
  | sweep fetches =>
    simp only [Audit.step]
    split
    · exact h
    have hboth := sweep_invariant (P := fun a => a.Bounded ∧ ∀ r ∈ a.rows, SoundRow dg a.served r)
      (fun _ _ h hmem hpending => ⟨sweepRow_bounded h.1 hmem hpending, sweepRow_sound h.2 h.1.nodup hmem⟩) ⟨hb, h⟩
      (pending_rows fetches) (pending_nodup hb.nodup fetches)
    exact hboth.2
  | rollback root =>
    intro r' hr'
    obtain ⟨r, hr, rfl⟩ := mem_map.1 hr'
    intro hverified
    have hsame : (undoRelease root r.row).payloadUri = r.row.payloadUri ∧
        (undoRelease root r.row).payloadDigest = r.row.payloadDigest := by
      unfold undoRelease
      split
      · split <;> exact ⟨rfl, rfl⟩
      · exact ⟨rfl, rfl⟩
    simp only [hsame.1, hsame.2]
    exact h r (mem_filter.1 hr).1 hverified

private theorem sweepRow_keeps (hr : r ∈ a.rows) (hverified : r.verified = true) (p : StoredReceipt × Fetch) :
    r ∈ (a.sweepRow dg p).rows := by
  refine mem_map.2 ⟨r, hr, ?_⟩
  split
  · exact repair_of_verified hverified
  · rfl

/-- A verified row stays, with its digest and its URI, unless a rollback deletes it. -/
theorem step_keeps_verified (hr : r ∈ a.rows) (hverified : r.verified = true) (s : ReceiptStep) :
    (∃ r' ∈ (a.step dg cfg s).rows, r'.key = r.key ∧ r'.verified = true ∧
      r'.row.payloadDigest = r.row.payloadDigest ∧ r'.row.payloadUri = r.row.payloadUri) ∨
    ∃ root, s = .rollback root ∧ root < r.row.place.blockNumber := by
  cases s with
  | insert row inline =>
    left
    refine ⟨r, mem_insertReceipt.2 ?_, rfl, hverified, rfl, rfl⟩
    by_cases hkey : r.key = row.key
    · exact .inr (.inl ⟨r, hr, hkey, (merge_of_verified hverified).symm⟩)
    · exact .inl ⟨hr, hkey⟩
  | release c id release =>
    left
    refine ⟨_, mem_map_of_mem hr, key_release c id release r, hverified, ?_, ?_⟩
    · simp only [setRelease]
      split <;> rfl
    · simp only [setRelease]
      split <;> rfl
  | sweep fetches =>
    left
    refine ⟨r, ?_, rfl, hverified, rfl, rfl⟩
    simp only [Audit.step]
    split
    · exact hr
    generalize (listUnverifiedReceipts sweepMaxAttempts sweepBatch a.rows).zip fetches = pending
    induction pending generalizing a with
    | nil => exact hr
    | cons p pending ih => exact ih (sweepRow_keeps hr hverified p)
  | rollback root =>
    by_cases hroot : root < r.row.place.blockNumber
    · exact .inr ⟨root, rfl, hroot⟩
    left
    have hsurvives : survives root .consensusReceipts r.row.place.blockNumber = true := by
      simp only [survives, Bool.or_eq_true, decide_eq_true_eq]
      right
      omega
    refine ⟨_, mem_map_of_mem (mem_filter.2 ⟨hr, hsurvives⟩), key_undoRelease root r, hverified, ?_, ?_⟩
    · simp only [undoRelease]
      split
      · split <;> rfl
      · rfl
    · simp only [undoRelease]
      split
      · split <;> rfl
      · rfl

/-- Along a run whose logs conform every verified row has bytes that were served for its URI and hash to its digest; a
row is swept at most the bounded number of times; and in any step a verified row stays verified or is deleted by a
rollback. -/
theorem receipts_verified_soundly (steps : List ReceiptStep)
    (h : Along (Audit.call dg cfg) (Conforms dg) .empty steps) :
    (∀ r ∈ (run (Audit.call dg cfg) .empty steps).rows, r.verified = true →
      ∃ body, (r.row.payloadUri, body) ∈ (run (Audit.call dg cfg) .empty steps).served ∧
        IsPreimage dg body r.row.payloadDigest) ∧
    (∀ r ∈ (run (Audit.call dg cfg) .empty steps).rows,
      (run (Audit.call dg cfg) .empty steps).sweeps r.key ≤ sweepMaxAttempts) ∧
    ∀ s, ∀ r ∈ (run (Audit.call dg cfg) .empty steps).rows, r.verified = true →
      (∃ r' ∈ ((run (Audit.call dg cfg) .empty steps).step dg cfg s).rows, r'.key = r.key ∧ r'.verified = true ∧
        r'.row.payloadDigest = r.row.payloadDigest ∧ r'.row.payloadUri = r.row.payloadUri) ∨
      ∃ root, s = .rollback root ∧ root < r.row.place.blockNumber := by
  have hempty : Audit.empty.Bounded := ⟨nodup_nil, by simp [Audit.empty], by simp [Audit.empty]⟩
  have hstep : ∀ (a : Audit) (s : ReceiptStep) (a' : Audit),
      (a.Bounded ∧ ∀ r ∈ a.rows, SoundRow dg a.served r) → Conforms dg a s → a.call dg cfg s = .ok a' →
      a'.Bounded ∧ ∀ r ∈ a'.rows, SoundRow dg a'.served r := by
    intro a s a' ha hs hcall
    obtain rfl := Except.ok.inj hcall
    exact ⟨step_bounded ha.1 s, step_sound ha.1 ha.2 hs⟩
  obtain ⟨hbounded, hsound⟩ := Along.invariant hstep ⟨hempty, by simp [Audit.empty]⟩ h
  exact ⟨hsound, hbounded.bounded, fun s r hr hverified => step_keeps_verified hr hverified s⟩

/-- The digests of the texts `a` and `b`, neither of which is a receipt. -/
def letterDigests : ReceiptDigests where
  keccak256 body :=
    if body = [0x61] then 0x3ac225168df54212a25c1c01fd35bebfea408fdac2e31ddd6f80a4bbf9a5f1cb
    else if body = [0x62] then 0xb5553de315e0edf504d9150af82dafa5c4667fa618ed0a6f19c69b41166c5510
    else 0
  canonicalBytes _ := .error "ErrReceiptParse: not valid JSON: expected value at line 1 column 1"

/-- An indexer of the receipt contract `0x05`. -/
def receiptConfig : Config where
  gateway := none
  vault := 1
  registry := none
  routerGovernance := none
  portfolioRouter := none
  consensusReceipt := some 5
  timelock := none
  safe := none
  maxBlocksPerTick := 1000
  endBlock := none
  multiVaultEvents := false

/-- The receipt 7 with the digest of `a`. -/
def receiptOfA : ReceiptRow where
  place := ⟨100, 0, 1⟩
  contractAddress := 5
  receiptId := 7
  receiptIndex := 0
  submitter := 9
  payloadDigest := 0x3ac225168df54212a25c1c01fd35bebfea408fdac2e31ddd6f80a4bbf9a5f1cb
  payloadUri := "https://receipts.example/7"
  recordedAt := 1700000000
  release := none

/-- The receipt 7 with the digest of `b`, on another fork. -/
def receiptOfB : ReceiptRow :=
  { receiptOfA with payloadDigest := 0xb5553de315e0edf504d9150af82dafa5c4667fa618ed0a6f19c69b41166c5510 }

def unreachable : Fetch := .answers fun _ => .error "GET https://receipts.example/7 returned 502 Bad Gateway"

/-- A receipt whose host does not answer at first is verified by the sweep. -/
theorem receipts_verified_soundly_of_sweep :
    ∃ body, ("https://receipts.example/7", body) ∈ (run (Audit.call letterDigests receiptConfig) .empty
        [.insert receiptOfA (.fetch unreachable), .sweep [.answers fun _ => .ok [0x61]]]).served ∧
      IsPreimage letterDigests body receiptOfA.payloadDigest := by
  have hconform : Along (Audit.call letterDigests receiptConfig) (Conforms letterDigests) .empty
      [.insert receiptOfA (.fetch unreachable), .sweep [.answers fun _ => .ok [0x61]]] := by
    refine ⟨?_, trivial, trivial⟩
    intro r hr
    cases hr
  exact (receipts_verified_soundly _ hconform).1 ⟨receiptOfA, true, some 1, 4, none⟩ (by decide +kernel) rfl

/-- A receipt of another fork that is handled again verifies a row of the first fork, with its digest. -/
theorem not_sound_of_other_digest :
    ¬ ∀ steps, ∀ r ∈ (run (Audit.call letterDigests receiptConfig) .empty steps).rows, r.verified = true →
      ∃ body, (r.row.payloadUri, body) ∈ (run (Audit.call letterDigests receiptConfig) .empty steps).served ∧
        IsPreimage letterDigests body r.row.payloadDigest := by
  intro h
  obtain ⟨body, hserved, hpreimage⟩ := h
    [.insert receiptOfA (.fetch unreachable), .insert receiptOfB (.fetch (.answers fun _ => .ok [0x62]))]
    ⟨receiptOfA, true, some 1, 4, none⟩ (by decide +kernel) rfl
  have hrun : (run (Audit.call letterDigests receiptConfig) .empty
      [.insert receiptOfA (.fetch unreachable), .insert receiptOfB (.fetch (.answers fun _ => .ok [0x62]))]).served =
      [("https://receipts.example/7", [0x62])] := by
    decide +kernel
  rw [hrun, mem_singleton] at hserved
  obtain rfl : body = [0x62] := congrArg Prod.snd hserved
  obtain hbytes | ⟨canonical, hcanonical, -⟩ := hpreimage
  · exact absurd hbytes (by decide +kernel)
  · cases hcanonical

end RobotMoney.Indexer
