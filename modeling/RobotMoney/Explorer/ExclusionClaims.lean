import RobotMoney.Explorer.RouterWeights
import RobotMoney.Ledger.Events

/-!
# The exclusion claims that the explorer serves (`routes.rs`)

`/v1/accounts/:address/exclusion-claims` joins the records of the ledgers with the credits, the closing events and the
claims that the indexer has stored, and computes what a holder can claim.  It agrees with the ledger: the recovered
amount is the greatest total that an event has reported, what was paid is the sum of the claims, and both divide alike
(`claims_served`).

A record is stored under its id as an `i64`.  Ids that do not fit one would fall together, and the primary key of the
table excludes that all of them are stored (`fits_of_indexed`).
-/

namespace RobotMoney.Explorer

open Evm Indexer List Option Prod

/-- A row of `exclusion_holder_balances`. -/
structure HolderBalance where
  ledgerAddress : Address
  exclusionId : Nat
  holder : Address
  balanceAt : Nat
  deriving DecidableEq, Repr

def HolderBalance.key (b : HolderBalance) : Address × Nat × Address := (b.ledgerAddress, b.exclusionId, b.holder)

/-- The columns of `exclusion_records` that the query reads. -/
structure RecordColumns where
  vaultAddress : Address
  adapterAddress : Address
  adapterIndex : Nat
  openedBlock : Nat
  snapshotSupply : Nat
  deriving DecidableEq, Repr

structure ExclusionClaim where
  vault : Address
  exclusionLedger : Address
  exclusionId : Nat
  adapter : Address
  adapterIndex : Nat
  openedBlock : Nat
  snapshotSupply : Nat
  balanceAt : Nat
  recoveredUsdc : Nat
  claimedUsdc : Nat
  claimableUsdc : Nat
  finalized : Bool
  finalizeReason : Option String
  deriving DecidableEq, Repr

/-- `AccountExclusionClaimsResponse`; its freshness is a block. -/
structure ExclusionClaimsResponse where
  address : Address
  claims : List ExclusionClaim
  totalClaimableUsdc : Nat
  freshness : Nat
  deriving DecidableEq, Repr

def exclusionFinalizeReasonLabel : Nat → String
  | 0 => "restored"
  | 1 => "removed"
  | 2 => "force_removed"
  | _ => "unknown"

section Query

variable (ledger : Address) (id : Nat)

/-- The join with `exclusion_records`. -/
def recordColumns : ExclusionRow → Option RecordColumns
  | .record place ledger' id' vault adapterIndex adapter snapshotSupply _ =>
    if ledger' = ledger ∧ id' = id then some ⟨vault, adapter, adapterIndex, place.blockNumber, snapshotSupply⟩ else none
  | _ => none

/-- The `recovered_total` of a credit. -/
def recoveredTotal : ExclusionRow → Option Nat
  | .recovery _ ledger' id' _ _ total => if ledger' = ledger ∧ id' = id then some total else none
  | _ => none

/-- The reason and the `recovered_total` of a closing event. -/
def finalization : ExclusionRow → Option (Nat × Nat)
  | .finalization _ ledger' id' reason total => if ledger' = ledger ∧ id' = id then some (reason, total) else none
  | _ => none

def claimedAmount (holder : Address) : ExclusionRow → Option Nat
  | .claim _ ledger' id' holder' amount => if ledger' = ledger ∧ id' = id ∧ holder' = holder then some amount else none
  | _ => none

end Query

/-- A `LEFT JOIN`: without a match there is one row of nulls. -/
def leftJoin {α : Type} : List α → List (Option α)
  | [] => [none]
  | a :: rest => (a :: rest).map some

/-- A row of the query, as the response shows it.  `GREATEST(.. - claimed, 0)` is the difference of natural numbers, and
the quotient by an empty supply is null and so zero. -/
def exclusionClaim (rows : List ExclusionRow) (b : HolderBalance) (r : RecordColumns) (f : Option (Nat × Nat)) :
    ExclusionClaim :=
  let recovered := max ((rows.filterMap (recoveredTotal b.ledgerAddress b.exclusionId)).max?.getD 0)
    ((f.map snd).getD 0)
  let claimed := (rows.filterMap (claimedAmount b.ledgerAddress b.exclusionId b.holder)).sum
  { vault := r.vaultAddress
    exclusionLedger := b.ledgerAddress
    exclusionId := b.exclusionId
    adapter := r.adapterAddress
    adapterIndex := r.adapterIndex
    openedBlock := r.openedBlock
    snapshotSupply := r.snapshotSupply
    balanceAt := b.balanceAt
    recoveredUsdc := recovered
    claimedUsdc := claimed
    claimableUsdc := (if r.snapshotSupply = 0 then 0 else recovered * b.balanceAt / r.snapshotSupply) - claimed
    finalized := f.isSome
    finalizeReason := f.map fun x => exclusionFinalizeReasonLabel x.1 }

def joinClaims (rows : List ExclusionRow) (balances : List HolderBalance) (address : Address) : List ExclusionClaim :=
  (balances.filter fun b => decide (b.holder = address)).flatMap fun b =>
    (rows.filterMap (recordColumns b.ledgerAddress b.exclusionId)).flatMap fun r =>
      (leftJoin (rows.filterMap (finalization b.ledgerAddress b.exclusionId))).map (exclusionClaim rows b r)

def ExclusionClaim.order (c : ExclusionClaim) : Address ×ₗ (Address ×ₗ Nat) :=
  toLex (c.vault, toLex (c.exclusionLedger, c.exclusionId))

def getAccountExclusionClaims {H : Type} (db : Db H) (balances : List HolderBalance) (address : Address) :
    ExclusionClaimsResponse :=
  let claims := (joinClaims db.log.exclusions balances address).insertionSort fun a b => a.order ≤ b.order
  ⟨address, claims, (claims.map ExclusionClaim.claimableUsdc).sum, latestFreshness db⟩

def ledgerOf : ExclusionRow → Address
  | .record _ ledger .. | .recovery _ ledger .. | .finalization _ ledger .. | .claim _ ledger .. => ledger

/-- The row of an event of the ledger of `vault`. -/
def rowAt (vault ledger : Address) (l : LogPlace × Event) : Option ExclusionRow := exclusionRow vault ⟨ledger, l.1, l.2⟩

/-- The events of a ledger, at these places of the chain, are indexed: each has its row, the ledger has no other rows,
and the tables have their primary keys. -/
structure IndexedLedger (vault ledger : Address) (places : List LogPlace) (events : List Event)
    (rows : List ExclusionRow) : Prop where
  length : places.length = events.length
  ordered : places.Pairwise fun a b => a.pos < b.pos
  mem : ∀ row, ledgerOf row = ledger → (row ∈ rows ↔ ∃ l ∈ places.zip events, rowAt vault ledger l = some row)
  keys : (rows.map ExclusionRow.key).Nodup

section Indexed

variable {vault ledger : Address} {places : List LogPlace} {events : List Event} {rows : List ExclusionRow}
    {row : ExclusionRow}
  {l : LogPlace × Event}

private theorem place_of_rowAt (h : rowAt vault ledger l = some row) : row.place = l.1 ∧ ledgerOf row = ledger := by
  obtain ⟨place, event⟩ := l
  cases event with
  | exclusionOpened | exclusionRecoveryCredited | exclusionFinalized | exclusionClaimed =>
    cases h
    exact ⟨rfl, rfl⟩
  | _ => cases h

section

variable (h : IndexedLedger vault ledger places events rows)

include h

theorem IndexedLedger.exists_mem_zip {e : Event} (he : e ∈ events) : ∃ place, (place, e) ∈ places.zip events := by
  obtain ⟨i, hi, rfl⟩ := getElem_of_mem he
  have hplace : i < places.length := h.length ▸ hi
  have hzip : i < (places.zip events).length := by
    rw [length_zip]
    omega
  refine ⟨places[i], ?_⟩
  have hmem := getElem_mem hzip
  rwa [getElem_zip] at hmem

private theorem IndexedLedger.nodup_zip : ((places.zip events).map fst).Nodup := by
  rw [map_fst_zip (le_of_eq h.length)]
  refine h.ordered.imp fun hlt heq => ?_
  rw [heq] at hlt
  exact lt_irrefl _ hlt

private theorem IndexedLedger.event_eq {place : LogPlace} {e e' : Event}
    (he : (place, e) ∈ places.zip events) (he' : (place, e') ∈ places.zip events) : e = e' :=
  congrArg snd (inj_on_of_nodup_map h.nodup_zip he he' rfl)

private theorem IndexedLedger.row_eq {row' : ExclusionRow} (hrow : row ∈ rows)
    (hrow' : row' ∈ rows) (hkey : row.key = row'.key) : row = row' :=
  inj_on_of_nodup_map h.keys hrow hrow' hkey

theorem IndexedLedger.mem_row (hl : l ∈ places.zip events) (hrow : rowAt vault ledger l = some row) : row ∈ rows :=
  (h.mem row (place_of_rowAt hrow).2).mpr ⟨l, hl, hrow⟩

theorem fits_of_indexed {l : Ledger} (hl : Recorded l events) : l.exclusionCount < 2 ^ 63 := by
  by_contra hnot
  obtain ⟨i, a, supply, value, hlast⟩ := hl.mem_opened (by decide) (show 2 ^ 63 - 1 ≤ l.exclusionCount by omega)
  obtain ⟨i', a', supply', value', hnext⟩ := hl.mem_opened (by decide) (show 2 ^ 63 ≤ l.exclusionCount by omega)
  obtain ⟨place, hzip⟩ := h.exists_mem_zip hlast
  obtain ⟨place', hzip'⟩ := h.exists_mem_zip hnext
  have heq := h.row_eq (h.mem_row hzip rfl) (h.mem_row hzip' rfl) rfl
  obtain rfl : place = place' := congrArg ExclusionRow.place heq
  cases h.event_eq hzip hzip'

end

private theorem intoI64_eq {id n : Nat} (hid : id ≤ n) (hn : n < 2 ^ 63) : intoI64 id = id := min_eq_left (by omega)

theorem max_getD {xs : List Nat} {n : Nat} (hle : ∀ x ∈ xs, x ≤ n) (hmem : n = 0 ∨ n ∈ xs) : xs.max?.getD 0 = n := by
  cases hmax : xs.max? with
  | none =>
    obtain rfl | hmem := hmem
    · rfl
    rw [max?_eq_none_iff.mp hmax] at hmem
    cases hmem
  | some m =>
    obtain ⟨hm, hge⟩ := max?_eq_some_iff.mp hmax
    refine le_antisymm (hle m hm) ?_
    obtain rfl | hmem := hmem
    · exact Nat.zero_le _
    · exact hge n hmem

private theorem mem_leftJoin {α : Type} {xs : List α} {f : Option α} :
    f ∈ leftJoin xs ↔ xs = [] ∧ f = none ∨ ∃ x ∈ xs, f = some x := by
  cases xs with
  | nil => simp [leftJoin]
  | cons a rest => simp [leftJoin, eq_comm]

section Columns

variable {l : Ledger} (h : IndexedLedger vault ledger places events rows) (hl : Recorded l events)

include h

private theorem IndexedLedger.recovery_row {p : LogPlace} {id source amount total : Nat}
    (hrow : .recovery p ledger id source amount total ∈ rows) :
    ∃ id', Event.exclusionRecoveryCredited id' source amount total ∈ events ∧ id = intoI64 id' := by
  obtain ⟨⟨p', e⟩, hmem, he⟩ := (h.mem _ rfl).mp hrow
  cases e with
  | exclusionRecoveryCredited id' source' amount' total' =>
    cases he
    exact ⟨id', (of_mem_zip hmem).2, rfl⟩
  | _ => cases he

private theorem IndexedLedger.finalization_row {p : LogPlace} {id reason total : Nat}
    (hrow : .finalization p ledger id reason total ∈ rows) :
    ∃ id', Event.exclusionFinalized id' reason total ∈ events ∧ id = intoI64 id' := by
  obtain ⟨⟨p', e⟩, hmem, he⟩ := (h.mem _ rfl).mp hrow
  cases e with
  | exclusionFinalized id' reason' total' =>
    cases he
    exact ⟨id', (of_mem_zip hmem).2, rfl⟩
  | _ => cases he

private theorem perm_rows : (rows.filter fun row => decide (ledgerOf row = ledger)).Perm
    ((places.zip events).filterMap (rowAt vault ledger)) := by
  have hzip : ((places.zip events).filterMap (rowAt vault ledger)).Nodup := by
    rw [List.Nodup, pairwise_filterMap]
    refine (pairwise_map.mp h.nodup_zip).imp ?_
    intro x y hne row hrow row' hrow' heq
    rw [← (place_of_rowAt hrow).1, ← (place_of_rowAt hrow').1, heq] at hne
    exact hne rfl
  rw [perm_ext_iff_of_nodup ((List.Nodup.of_map _ h.keys).filter _) hzip]
  intro row
  rw [mem_filter, decide_eq_true_eq, mem_filterMap]
  constructor
  · rintro ⟨hrow, hledger⟩
    exact (h.mem row hledger).mp hrow
  · rintro ⟨x, hx, hrow⟩
    exact ⟨h.mem_row hx hrow, (place_of_rowAt hrow).2⟩

include hl

private theorem intoI64_of_mem {e : Event} {id : Nat} (he : e ∈ events) (hid : exclusionIdOf e = some id) :
    intoI64 id = id := by
  obtain ⟨id', hid', hle⟩ := hl.ids e he
  rw [hid] at hid'
  cases hid'
  exact intoI64_eq hle (fits_of_indexed h hl)

private theorem max_recoveredTotal (id : Nat) :
    (rows.filterMap (recoveredTotal ledger id)).max?.getD 0 = (l.exclusions id).recoveredUsdc := by
  refine max_getD (fun total hmem => ?_) ((hl.records id).recovered.imp_right fun ⟨source, amount, hmem⟩ => ?_)
  · obtain ⟨row, hrow, htotal⟩ := mem_filterMap.mp hmem
    cases row with
    | recovery p ledger' id' source amount total' =>
      simp only [recoveredTotal, ite_none_right_eq_some, some.injEq] at htotal
      obtain ⟨⟨rfl, rfl⟩, rfl⟩ := htotal
      obtain ⟨id'', he, rfl⟩ := h.recovery_row hrow
      rw [intoI64_of_mem h hl he rfl]
      exact (hl.records id'').credited _ _ _ he
    | _ => cases htotal
  · obtain ⟨place, hzip⟩ := h.exists_mem_zip hmem
    refine mem_filterMap.mpr ⟨_, h.mem_row hzip rfl, ?_⟩
    simp [recoveredTotal, intoI64_of_mem h hl hmem rfl]

private theorem mem_finalization {id : Nat} {f : Nat × Nat} (hf : f ∈ rows.filterMap (finalization ledger id)) :
    (l.exclusions id).finalized = true ∧ f.2 = (l.exclusions id).recoveredUsdc := by
  obtain ⟨row, hrow, hfinal⟩ := mem_filterMap.mp hf
  cases row with
  | finalization p ledger' id' reason total =>
    simp only [finalization, ite_none_right_eq_some, some.injEq] at hfinal
    obtain ⟨⟨rfl, rfl⟩, rfl⟩ := hfinal
    obtain ⟨id'', he, rfl⟩ := h.finalization_row hrow
    rw [intoI64_of_mem h hl he rfl]
    exact (hl.records id'').closed _ _ he
  | _ => cases hfinal

private theorem exists_finalization {id : Nat} (hfinal : (l.exclusions id).finalized = true) :
    rows.filterMap (finalization ledger id) ≠ [] := by
  obtain ⟨reason, total, hmem⟩ := (hl.records id).finalized hfinal
  obtain ⟨place, hzip⟩ := h.exists_mem_zip hmem
  refine ne_nil_of_mem (mem_filterMap.mpr ⟨_, h.mem_row hzip rfl, ?_⟩) (a := (reason, total))
  simp [finalization, intoI64_of_mem h hl hmem rfl]

private theorem sum_claimedAmount (id : Nat) (holder : Address) :
    (rows.filterMap (claimedAmount ledger id holder)).sum = l.claimed id holder := by
  have hledger : rows.filterMap (claimedAmount ledger id holder) =
      (rows.filter fun row => decide (ledgerOf row = ledger)).filterMap (claimedAmount ledger id holder) := by
    rw [filterMap_filter]
    refine filterMap_congr fun row _ => ?_
    split
    · rfl
    rename_i hne
    cases row with
    | claim p ledger' id' holder' amount => exact if_neg fun heq => hne (decide_eq_true heq.1)
    | _ => rfl
  have hevent : ∀ x ∈ places.zip events,
      (rowAt vault ledger x).bind (claimedAmount ledger id holder) = claimAmount id holder x.2 := by
    rintro ⟨place, e⟩ hx
    cases e with
    | exclusionClaimed id' holder' amount =>
      simp [rowAt, exclusionRow, claimedAmount, claimAmount, intoI64_of_mem h hl (of_mem_zip hx).2 rfl]
    | _ => rfl
  have hclaims : ((places.zip events).filterMap (rowAt vault ledger)).filterMap (claimedAmount ledger id holder) =
      events.filterMap (claimAmount id holder) := by
    have hsnd : (places.zip events).map snd = events := map_snd_zip (le_of_eq h.length.symm)
    rw [filterMap_filterMap, filterMap_congr hevent]
    conv_rhs => rw [← hsnd, filterMap_map]
    rfl
  rw [hledger, ((perm_rows h).filterMap _).sum_eq, hclaims, hl.claimed]

private theorem exclusionClaim_amounts {b : HolderBalance} {r : RecordColumns} {f : Option (Nat × Nat)}
    (hledger : b.ledgerAddress = ledger)
    (hf : f ∈ leftJoin (rows.filterMap (finalization ledger b.exclusionId))) :
    (exclusionClaim rows b r f).recoveredUsdc = (l.exclusions b.exclusionId).recoveredUsdc ∧
      (exclusionClaim rows b r f).claimedUsdc = l.claimed b.exclusionId b.holder ∧
      ((exclusionClaim rows b r f).finalized = true ↔ (l.exclusions b.exclusionId).finalized = true) := by
  subst hledger
  refine ⟨?_, sum_claimedAmount h hl _ _, ?_⟩
  · have hmax := max_recoveredTotal h hl b.exclusionId
    simp only [exclusionClaim, hmax]
    cases f with
    | none => exact Nat.max_zero _
    | some x =>
      obtain ⟨-, hnone⟩ | ⟨y, hy, hsome⟩ := mem_leftJoin.mp hf
      · cases hnone
      cases hsome
      rw [map_some, getD_some, (mem_finalization h hl hy).2]
      exact Nat.max_self _
  · obtain ⟨hnil, rfl⟩ | ⟨y, hy, rfl⟩ := mem_leftJoin.mp hf
    · exact ⟨(fun hsome => nomatch hsome), fun hfinal => absurd hnil (exists_finalization h hl hfinal)⟩
    · exact ⟨fun _ => (mem_finalization h hl hy).1, fun _ => rfl⟩

omit hl

private theorem recordColumns_eq {id : Nat} {r r' : RecordColumns} (hr : r ∈ rows.filterMap (recordColumns ledger id))
    (hr' : r' ∈ rows.filterMap (recordColumns ledger id)) : r = r' := by
  obtain ⟨row, hrow, hcolumns⟩ := mem_filterMap.mp hr
  obtain ⟨row', hrow', hcolumns'⟩ := mem_filterMap.mp hr'
  cases row with
  | record p ledger₁ id₁ =>
    cases row' with
    | record p' ledger₂ id₂ =>
      simp only [recordColumns, ite_none_right_eq_some, some.injEq] at hcolumns hcolumns'
      obtain ⟨⟨rfl, rfl⟩, rfl⟩ := hcolumns
      obtain ⟨⟨rfl, rfl⟩, rfl⟩ := hcolumns'
      cases h.row_eq hrow hrow' rfl
      rfl
    | _ => cases hcolumns'
  | _ => cases hcolumns

private theorem finalization_eq {id : Nat} {f f' : Nat × Nat} (hf : f ∈ rows.filterMap (finalization ledger id))
    (hf' : f' ∈ rows.filterMap (finalization ledger id)) : f = f' := by
  obtain ⟨row, hrow, hfinal⟩ := mem_filterMap.mp hf
  obtain ⟨row', hrow', hfinal'⟩ := mem_filterMap.mp hf'
  cases row with
  | finalization p ledger₁ id₁ =>
    cases row' with
    | finalization p' ledger₂ id₂ =>
      simp only [finalization, ite_none_right_eq_some, some.injEq] at hfinal hfinal'
      obtain ⟨⟨rfl, rfl⟩, rfl⟩ := hfinal
      obtain ⟨⟨rfl, rfl⟩, rfl⟩ := hfinal'
      cases h.row_eq hrow hrow' rfl
      rfl
    | _ => cases hfinal'
  | _ => cases hfinal

theorem leftJoin_eq {id : Nat} {f f' : Option (Nat × Nat)} (hf : f ∈ leftJoin (rows.filterMap (finalization ledger id)))
    (hf' : f' ∈ leftJoin (rows.filterMap (finalization ledger id))) : f = f' := by
  obtain ⟨hnil, rfl⟩ | ⟨x, hx, rfl⟩ := mem_leftJoin.mp hf <;> obtain ⟨hnil', rfl⟩ | ⟨x', hx', rfl⟩ :=
    mem_leftJoin.mp hf'
  · rfl
  · rw [hnil] at hx'
    cases hx'
  · rw [hnil'] at hx
    cases hx
  · rw [finalization_eq h hx hx']

end Columns

end Indexed

private theorem mem_joinClaims {rows : List ExclusionRow} {balances : List HolderBalance} {address : Address}
    {c : ExclusionClaim} :
    c ∈ joinClaims rows balances address ↔ ∃ b ∈ balances, b.holder = address ∧
      ∃ r ∈ rows.filterMap (recordColumns b.ledgerAddress b.exclusionId),
        ∃ f ∈ leftJoin (rows.filterMap (finalization b.ledgerAddress b.exclusionId)),
            exclusionClaim rows b r f = c := by
  simp only [joinClaims, List.mem_flatMap, List.mem_filter, List.mem_map, decide_eq_true_eq, and_assoc]

private theorem claimable_value {l : Ledger} {shares : Balances} {id amount : Nat} {holder : Address}
    (h : l.claimable shares id holder = .ok amount) : amount = (if (l.exclusions id).snapshotSupply = 0 then 0
      else (l.exclusions id).recoveredUsdc * l.balanceAt shares holder id / (l.exclusions id).snapshotSupply) -
          l.claimed id holder := by
  unfold Ledger.claimable at h
  dsimp only at h
  split at h
  · rename_i hzero
    cases h
    rw [if_pos hzero, Nat.zero_sub]
  rename_i hne
  rw [bind_eq_ok] at h
  obtain ⟨owed, howed, hamount⟩ := h
  obtain ⟨-, -, rfl⟩ := mulDiv_eq_ok.mp howed
  rw [if_neg hne]
  unfold mulDivNat at hamount
  dsimp only at hamount
  cases hamount
  split <;> omega

/-- After every run of the ledger whose events are indexed, and for every record and holder whose balance at the
snapshot is stored: the holder's answer has one claim on the record, and its recovered, claimed and claimable amounts
and its `finalized` are those of the ledger. -/
theorem claims_served {H : Type} (d : Deployment) (usdc : Balances) (cs : List LedgerCall) (db : Db H)
    (balances : List HolderBalance)
    (vault ledger holder : Address) (places : List LogPlace) (id : Nat)
    (hindexed : IndexedLedger vault ledger places (run (ledgerStep d) (.init usdc, []) cs).2 db.log.exclusions)
    (hbalances : (balances.map HolderBalance.key).Nodup) (hid : 1 ≤ id)
    (hle : id ≤ (run (ledgerStep d) (.init usdc, []) cs).1.ledger.exclusionCount)
    (hstored : ⟨ledger, intoI64 id, holder,
    (run (ledgerStep d) (.init usdc, []) cs).1.balanceAt holder id⟩ ∈ balances) :
    ∃ c ∈ (getAccountExclusionClaims db balances holder).claims, c.exclusionLedger = ledger ∧ c.exclusionId = id ∧
      (∀ c' ∈ (getAccountExclusionClaims db balances holder).claims, c'.exclusionLedger = ledger →
        c'.exclusionId = id → c' = c) ∧
      c.recoveredUsdc = ((run (ledgerStep d) (.init usdc, []) cs).1.ledger.exclusions id).recoveredUsdc ∧
      c.claimedUsdc = (run (ledgerStep d) (.init usdc, []) cs).1.ledger.claimed id holder ∧
      (∀ amount, (run (ledgerStep d) (.init usdc, []) cs).1.ledger.claimable
        (run (ledgerStep d) (.init usdc, []) cs).1.shares id holder = .ok amount → c.claimableUsdc = amount) ∧
      (Along (bookStep d) SwitchOn (.init usdc) (cs.map LedgerCall.call) →
        (run (ledgerStep d) (.init usdc, []) cs).1.ledger.claimable
          (run (ledgerStep d) (.init usdc, []) cs).1.shares id holder = .ok c.claimableUsdc) ∧
      (c.finalized = true ↔ ((run (ledgerStep d) (.init usdc, []) cs).1.ledger.exclusions id).finalized = true) := by
  have hrecorded := recorded_run d usdc cs
  have hbook := book_run d (.init usdc, []) cs
  generalize run (ledgerStep d) (.init usdc, []) cs = s at *
  rw [intoI64_eq hle (fits_of_indexed hindexed hrecorded)] at hstored
  -- The record has its row, and there is a row of the join for it.
  obtain ⟨i, a, supply, value, hopened⟩ := hrecorded.mem_opened hid hle
  obtain ⟨place, hzip⟩ := hindexed.exists_mem_zip hopened
  have hrow := hindexed.mem_row hzip rfl
  obtain ⟨-, -, hsupply, -⟩ := (hrecorded.records id).opened _ _ _ _ hopened
  have hcolumns : (⟨vault, a, intoI64 i, place.blockNumber, supply⟩ : RecordColumns) ∈
      db.log.exclusions.filterMap (recordColumns ledger id) := by
    refine mem_filterMap.mpr ⟨_, hrow, ?_⟩
    simp [recordColumns, intoI64_of_mem hindexed hrecorded hopened rfl]
  obtain ⟨f, hf⟩ : ∃ f, f ∈ leftJoin (db.log.exclusions.filterMap (finalization ledger id)) := by
    cases db.log.exclusions.filterMap (finalization ledger id) with
    | nil => exact ⟨none, mem_cons_self⟩
    | cons x rest => exact ⟨some x, mem_cons_self⟩
  have hclaim := mem_joinClaims.mpr ⟨_, hstored, rfl, _, hcolumns, f, hf, rfl⟩
  obtain ⟨hrecovered, hclaimed, hfinal⟩ :=
    exclusionClaim_amounts (r := ⟨vault, a, intoI64 i, place.blockNumber, supply⟩)
    (b := ⟨ledger, id, holder, s.1.balanceAt holder id⟩) hindexed hrecorded rfl hf
  have hvalue : ∀ amount, s.1.ledger.claimable s.1.shares id holder = .ok amount →
      (exclusionClaim db.log.exclusions ⟨ledger, id, holder, s.1.balanceAt holder id⟩
        ⟨vault, a, intoI64 i, place.blockNumber, supply⟩ f).claimableUsdc = amount := by
    intro amount hok
    rw [claimable_value hok, hsupply, ← hrecovered, ← hclaimed]
    rfl
  refine ⟨_, (mem_insertionSort _).mpr hclaim, rfl, rfl, fun c' hc' hledger hid' => ?_, hrecovered, hclaimed, hvalue,
    fun hswitch => ?_, hfinal⟩
  · obtain ⟨b, hb, hholder, r, hr, f', hf', rfl⟩ := mem_joinClaims.mp ((mem_insertionSort _).mp hc')
    obtain rfl : b = ⟨ledger, id, holder, s.1.balanceAt holder id⟩ := by
      refine inj_on_of_nodup_map hbalances hb hstored ?_
      exact Prod.ext hledger (Prod.ext hid' hholder)
    rw [recordColumns_eq hindexed hr hcolumns, leftJoin_eq hindexed hf' hf]
  · have hsound : s.1.Sound d := hbook ▸ ShareBook.sound_run hswitch
    rw [hsound.claimable_eq id holder, hvalue _ (hsound.claimable_eq id holder)]

def closedCalls : List LedgerCall := (twoCredits ++ [BookCall.finalize 1]).map fun c => ⟨c, 1⟩

def closedEvents : List Event := (run (ledgerStep .sample) (.init fun _ => 0, []) closedCalls).2

def closedPlaces : List LogPlace := (List.range closedEvents.length).map fun n => ⟨n, 0, 1⟩

def closedDb : Db Unit :=
  { (.empty : Db Unit) with log :=
    { LogState.empty with exclusions := (closedPlaces.zip closedEvents).filterMap (rowAt 7 8) } }

private theorem closedDb_indexed : IndexedLedger 7 8 closedPlaces closedEvents closedDb.log.exclusions where
  length := by simp [closedPlaces]
  ordered := by decide +kernel
  mem _ _ := mem_filterMap
  keys := by decide +kernel

theorem claims_served_of_closedCalls :
    ∃ c ∈ (getAccountExclusionClaims closedDb [⟨8, 1, 5, 60⟩] 5).claims, c.recoveredUsdc = 13 ∧ c.claimedUsdc = 4 ∧
      c.claimableUsdc = 3 ∧ c.finalized = true := by
  have hbalance : (run (ledgerStep .sample) (.init fun _ => 0, []) closedCalls).1.balanceAt 5 1 = 60 :=
    by decide +kernel
  obtain ⟨c, hc, -, -, -, hrecovered, hclaimed, hclaimable, -, hfinal⟩ :=
    claims_served .sample (fun _ =>
      0) closedCalls closedDb [⟨8, 1, 5, 60⟩] 7 8 5 closedPlaces 1 closedDb_indexed (by decide)
      (by decide) (by decide +kernel) (by rw [hbalance]; decide)
  refine ⟨c, hc, ?_, ?_, ?_, ?_⟩
  · rw [hrecovered]
    decide +kernel
  · rw [hclaimed]
    decide +kernel
  · exact hclaimable 3 rfl
  · exact hfinal.mpr (by decide +kernel)

end RobotMoney.Explorer
