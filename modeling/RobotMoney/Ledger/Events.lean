import RobotMoney.Indexer.Logs
import RobotMoney.Ledger.Solvency

/-!
# The events of the exclusion ledger

Every call of `ExclusionLedger` that changes a record or pays a holder emits an event.  The ledger keeps running totals,
and the events determine them: what a record has recovered is the greatest total that a credit has reported, it is
closed when an event says so, and what a holder was paid is the sum of its claims (`Recorded`).
-/

namespace RobotMoney

open Evm Indexer List Except Function

/-- A call, with the `RecoverySource` or `FinalizeReason` of `credit` and `finalize`, which the ledger only emits. -/
structure LedgerCall where
  call : BookCall
  tag : Nat

/-- `claim` emits an event when it pays. -/
def claimedEvent (id : Nat) (holder : Address) (amount : Nat) : List Event :=
  if amount = 0 then [] else [.exclusionClaimed id holder amount]

section Events

variable (d : Deployment)

/-- The events of the loop of `claimAll`. -/
def claimAllEvents (shares : Balances) (holder : Address) : List Nat → Ledger → Balances → List Event
  | [], _, _ => []
  | id :: ids, l, usdc =>
    match l.claim d shares usdc id holder with
    | .ok (amount, l', usdc') => claimedEvent id holder amount ++ claimAllEvents shares holder ids l' usdc'
    | .error _ => []

def eventsOf (b : ShareBook) (c : LedgerCall) : List Event :=
  match c.call with
  | .openRecord adapterIndex adapter reply block =>
    match b.openRecord d adapterIndex adapter reply block with
    | .ok (id, b') => [.exclusionOpened id adapterIndex adapter b.totalSupply (b'.ledger.exclusions id).adapterValue]
    | .error _ => []
  | .credit id amount => [.exclusionRecoveryCredited id c.tag amount ((b.ledger.exclusions id).recoveredUsdc + amount)]
  | .finalize id => [.exclusionFinalized id c.tag (b.ledger.exclusions id).recoveredUsdc]
  | .claim id holder =>
    match b.claim d id holder with
    | .ok (amount, _) => claimedEvent id holder amount
    | .error _ => []
  | .claimAll holder => claimAllEvents d b.shares holder (List.range' 1 b.ledger.exclusionCount) b.ledger b.usdc
  | _ => []

def ledgerStep (s : ShareBook × List Event) (c : LedgerCall) : Except Revert (ShareBook × List Event) := do
  let b ← bookStep d s.1 c.call
  .ok (b, s.2 ++ eventsOf d s.1 c)

end Events

def exclusionIdOf : Event → Option Nat
  | .exclusionOpened id .. | .exclusionRecoveryCredited id .. | .exclusionFinalized id .. | .exclusionClaimed id
      .. => some id
  | _ => none

def openedId : Event → Option Nat
  | .exclusionOpened id .. => some id
  | _ => none

def claimAmount (id : Nat) (holder : Address) : Event → Option Nat
  | .exclusionClaimed id' holder' amount => if id' = id ∧ holder' = holder then some amount else none
  | _ => none

/-- A record is as the events say. -/
structure Matches (id : Nat) (e : Exclusion) (events : List Event) : Prop where
  opened : ∀ i a supply value, .exclusionOpened id i a supply value ∈ events →
    e.adapterIndex = i ∧ e.adapter = a ∧ e.snapshotSupply = supply ∧ e.adapterValue = value
  credited : ∀ source amount total, .exclusionRecoveryCredited id source amount total ∈ events → total ≤ e.recoveredUsdc
  recovered : e.recoveredUsdc = 0 ∨
    ∃ source amount, .exclusionRecoveryCredited id source amount e.recoveredUsdc ∈ events
  closed : ∀ reason total, .exclusionFinalized id reason total ∈ events → e.finalized = true ∧ total = e.recoveredUsdc
  finalized : e.finalized = true → ∃ reason total, .exclusionFinalized id reason total ∈ events

/-- The records and the payments of the ledger are those of the events. -/
structure Recorded (l : Ledger) (events : List Event) : Prop where
  ids : ∀ e ∈ events, ∃ id, exclusionIdOf e = some id ∧ id ≤ l.exclusionCount
  opened : events.filterMap openedId = List.range' 1 l.exclusionCount
  records : ∀ id, Matches id (l.exclusions id) events
  claimed : ∀ id holder, l.claimed id holder = (events.filterMap (claimAmount id holder)).sum

section Recorded

variable {d : Deployment} {l l' : Ledger} {events : List Event} {id : Nat} {e : Exclusion} {x : Event}

private theorem recorded_init : Recorded .init [] where
  ids := fun _ h => nomatch h
  opened := rfl
  records := fun _ =>
    ⟨(fun _ _ _ _ h => nomatch h), (fun _ _ _ h => nomatch h), .inl rfl, (fun _ _ h => nomatch h), (fun h => nomatch h)⟩
  claimed := fun _ _ => rfl

private theorem Recorded.of_same (h : Recorded l events) (hcount : l'.exclusionCount = l.exclusionCount)
    (hexclusions : l'.exclusions = l.exclusions) (hclaimed : l'.claimed = l.claimed) : Recorded l' events := by
  constructor
  · rw [hcount]
    exact h.ids
  · rw [hcount]
    exact h.opened
  · rw [hexclusions]
    exact h.records
  · rw [hclaimed]
    exact h.claimed

private theorem mem_snoc {y : Event} : y ∈ events ++ [x] ↔ y ∈ events ∨ y = x := by
  rw [mem_append, mem_singleton]

private theorem mem_of_ne {y : Event} (hne : y ≠ x) (hmem : y ∈ events ++ [x]) : y ∈ events :=
  (mem_snoc.mp hmem).resolve_right hne

private theorem mem_of_other (hne : exclusionIdOf x ≠ some id) {y : Event} (hy : exclusionIdOf y = some id)
    (hmem : y ∈ events ++ [x]) :
    y ∈ events := by
  obtain hmem | rfl := mem_snoc.mp hmem
  · exact hmem
  · exact absurd hy hne

theorem Matches.other (h : Matches id e events) (hne : exclusionIdOf x ≠ some id) : Matches id e (events ++ [x]) where
  opened i a supply value hmem := h.opened i a supply value (mem_of_other hne rfl hmem)
  credited source amount total hmem := h.credited source amount total (mem_of_other hne rfl hmem)
  recovered := h.recovered.imp_right fun ⟨source, amount, hmem⟩ => ⟨source, amount, mem_snoc.mpr (.inl hmem)⟩
  closed reason total hmem := h.closed reason total (mem_of_other hne rfl hmem)
  finalized hfinal :=
    have ⟨reason, total, hmem⟩ := h.finalized hfinal
    ⟨reason, total, mem_snoc.mpr (.inl hmem)⟩

section

variable (h : Recorded l events)

include h

private theorem Recorded.snoc (hid : exclusionIdOf x = some id) (hle : id ≤ l'.exclusionCount)
    (hcount : l.exclusionCount ≤ l'.exclusionCount) (hexclusions : l'.exclusions = update l.exclusions id e)
    (hrecord : Matches id e (events ++ [x])) (hopened : (events ++ [x]).filterMap openedId =
      List.range' 1 l'.exclusionCount)
    (hclaimed : ∀ id' holder, l'.claimed id' holder = l.claimed id' holder + (claimAmount id' holder x).getD 0) :
    Recorded l' (events ++ [x]) := by
  refine ⟨fun y hy => ?_, hopened, fun id' => ?_, fun id' holder => ?_⟩
  · obtain hy | rfl := mem_snoc.mp hy
    · obtain ⟨id', hid', hle'⟩ := h.ids y hy
      exact ⟨id', hid', hle'.trans hcount⟩
    · exact ⟨id, hid, hle⟩
  · rw [hexclusions]
    by_cases heq : id' = id
    · subst heq
      rwa [update_self]
    rw [update_of_ne heq]
    refine (h.records id').other ?_
    rw [hid]
    exact fun hsome => heq (Option.some.inj hsome).symm
  · rw [hclaimed, h.claimed, filterMap_append, sum_append]
    cases hamount : claimAmount id' holder x <;> simp [hamount]

theorem Recorded.mem_opened (hid : 1 ≤ id) (hle : id ≤ l.exclusionCount) :
    ∃ i a supply value, Event.exclusionOpened id i a supply value ∈ events := by
  have hmem : id ∈ events.filterMap openedId := by
    rw [h.opened, mem_range'_1]
    omega
  obtain ⟨y, hy, hopened⟩ := mem_filterMap.mp hmem
  cases y with
  | exclusionOpened id' i a supply value =>
    cases hopened
    exact ⟨i, a, supply, value, hy⟩
  | _ => cases hopened

private theorem Recorded.notMem (hy : exclusionIdOf x = some id) (hid : l.exclusionCount < id) : x ∉ events := by
  intro hmem
  obtain ⟨id', hid', hle⟩ := h.ids x hmem
  rw [hy] at hid'
  cases hid'
  omega

theorem Recorded.openRecord (hrecovered : e.recoveredUsdc = 0) (hopen : e.finalized = false) : Recorded { l with
        exclusionCount := l.exclusionCount + 1
        exclusions := update l.exclusions (l.exclusionCount + 1) e }
      (events ++ [.exclusionOpened (l.exclusionCount + 1) e.adapterIndex e.adapter e.snapshotSupply
          e.adapterValue]) := by
  have hnew : ∀ y, exclusionIdOf y = some (l.exclusionCount + 1) → y ∉ events := fun y hy =>
    h.notMem hy (Nat.lt_succ_self _)
  refine h.snoc rfl le_rfl (Nat.le_succ _) rfl ?_ ?_ fun _ _ => rfl
  · refine ⟨fun i a supply value hmem => ?_, fun source amount total hmem =>
      ?_, .inl hrecovered, fun reason total hmem => ?_, fun hfinal => ?_⟩
    · obtain hmem | heq := mem_snoc.mp hmem
      · exact absurd hmem (hnew _ rfl)
      cases heq
      exact ⟨rfl, rfl, rfl, rfl⟩
    · obtain hmem | heq := mem_snoc.mp hmem
      · exact absurd hmem (hnew _ rfl)
      · cases heq
    · obtain hmem | heq := mem_snoc.mp hmem
      · exact absurd hmem (hnew _ rfl)
      · cases heq
    · rw [hopen] at hfinal
      cases hfinal
  · rw [filterMap_append, h.opened, range'_1_concat, add_comm 1]
    rfl

theorem Recorded.credit {amount : Nat} (source : Nat) (hopen : ¬ l.NotOpen id) {held : Nat} : Recorded { l with
        exclusions := update l.exclusions id
          { l.exclusions id with recoveredUsdc := (l.exclusions id).recoveredUsdc + amount }
        heldUsdc := held }
      (events ++ [.exclusionRecoveryCredited id source amount ((l.exclusions id).recoveredUsdc + amount)]) := by
  obtain ⟨hid, hnot⟩ : id ≤ l.exclusionCount ∧ (l.exclusions id).finalized = false := by
    simp only [Ledger.NotOpen, not_or, not_lt, Bool.not_eq_true] at hopen
    exact hopen.2
  refine h.snoc rfl hid le_rfl rfl ?_ ?_ fun _ _ => rfl
  · refine ⟨fun i a supply value hmem => ?_, fun source' amount' total hmem =>
      ?_, .inr ⟨source, amount, mem_snoc.mpr (.inr rfl)⟩, fun reason total hmem => ?_, fun hfinal => ?_⟩
    · exact (h.records id).opened i a supply value (mem_of_ne (by simp) hmem)
    · obtain hmem | heq := mem_snoc.mp hmem
      · exact ((h.records id).credited source' amount' total hmem).trans (Nat.le_add_right _ _)
      cases heq
      exact le_rfl
    · obtain hmem | heq := mem_snoc.mp hmem
      · rw [((h.records id).closed reason total hmem).1] at hnot
        cases hnot
      · cases heq
    · rw [show (l.exclusions id).finalized = true from hfinal] at hnot
      cases hnot
  · rw [filterMap_append, h.opened]
    exact append_nil _

private theorem Recorded.finalize (reason : Nat) (hopen : ¬ l.NotOpen id) :
    Recorded { l with exclusions := update l.exclusions id { l.exclusions id with finalized := true } }
      (events ++ [.exclusionFinalized id reason (l.exclusions id).recoveredUsdc]) := by
  have hid : id ≤ l.exclusionCount := by
    simp only [Ledger.NotOpen, not_or, not_lt] at hopen
    exact hopen.2.1
  refine h.snoc rfl hid le_rfl rfl ?_ ?_ fun _ _ => rfl
  · refine ⟨fun i a supply value hmem => ?_, fun source amount total hmem => ?_, ?_, fun reason' total hmem => ?_,
      fun _ => ⟨reason, _, mem_snoc.mpr (.inr rfl)⟩⟩
    · exact (h.records id).opened i a supply value (mem_of_ne (by simp) hmem)
    · exact (h.records id).credited source amount total (mem_of_ne (by simp) hmem)
    · exact (h.records id).recovered.imp_right fun ⟨source, amount, hmem⟩ => ⟨source, amount, mem_snoc.mpr (.inl hmem)⟩
    · obtain hmem | heq := mem_snoc.mp hmem
      · exact ⟨rfl, ((h.records id).closed reason' total hmem).2⟩
      cases heq
      exact ⟨rfl, rfl⟩
  · rw [filterMap_append, h.opened]
    exact append_nil _

private theorem Recorded.pay {holder : Address} {amount claimedUsdc held : Nat} (hid : id ≤ l.exclusionCount) :
    Recorded { l with
        claimed := update l.claimed id (update (l.claimed id) holder (l.claimed id holder + amount))
        exclusions := update l.exclusions id { l.exclusions id with claimedUsdc := claimedUsdc }
        heldUsdc := held }
      (events ++ [.exclusionClaimed id holder amount]) := by
  refine h.snoc rfl hid le_rfl rfl ?_ ?_ fun id' holder' => ?_
  · refine ⟨fun i a supply value hmem => ?_, fun source amount' total hmem => ?_, ?_, fun reason total hmem =>
      ?_, fun hfinal => ?_⟩
    · exact (h.records id).opened i a supply value (mem_of_ne (by simp) hmem)
    · exact (h.records id).credited source amount' total (mem_of_ne (by simp) hmem)
    · exact (h.records id).recovered.imp_right fun ⟨source, amount', hmem⟩ =>
        ⟨source, amount', mem_snoc.mpr (.inl hmem)⟩
    · exact (h.records id).closed reason total (mem_of_ne (by simp) hmem)
    · obtain ⟨reason, total, hmem⟩ := (h.records id).finalized hfinal
      exact ⟨reason, total, mem_snoc.mpr (.inl hmem)⟩
  · rw [filterMap_append, h.opened]
    exact append_nil _
  · by_cases hid' : id' = id
    · subst hid'
      by_cases hholder : holder' = holder
      · subst hholder
        simp [claimAmount]
      · simp [claimAmount, hholder, Ne.symm hholder]
    · simp [claimAmount, hid', Ne.symm hid']

end

def Ledger.Unopened (l : Ledger) : Prop := ∀ id, id = 0 ∨ l.exclusionCount < id → l.exclusions id = .zero

private theorem Recorded.claim {shares usdc usdc' : Balances} {holder : Address} {amount : Nat}
    (h : Recorded l events) (hzero : l.Unopened)
    (hclaim : l.claim d shares usdc id holder = .ok (amount, l', usdc')) :
    Recorded l' (events ++ claimedEvent id holder amount) := by
  simp only [Ledger.claim, bind_eq_ok] at hclaim
  obtain ⟨owed, howed, hclaim⟩ := hclaim
  split at hclaim
  · cases hclaim
    simpa [claimedEvent] using h
  rename_i hne
  simp only [bind_eq_ok, add_eq_ok, ok.injEq, Prod.mk.injEq] at hclaim
  obtain ⟨_, ⟨-, rfl⟩, _, ⟨-, rfl⟩, _, -, _, -, rfl, rfl, -⟩ := hclaim
  have hid : id ≤ l.exclusionCount := by
    by_contra hnot
    simp only [Ledger.claimable, hzero id (.inr (Nat.not_le.mp hnot)), Exclusion.zero, if_true, ok.injEq] at howed
    exact hne howed.symm
  rw [claimedEvent, if_neg hne]
  exact h.pay hid

private theorem Recorded.claimAll {shares usdc : Balances} {holder : Address} {total : Nat} {ids : List Nat}
    {r : Nat × Ledger × Balances}
    (h : Recorded l events) (hzero : l.Unopened)
    (hloop : ids.foldlM (Ledger.claimNext d shares holder) (total, l, usdc) = .ok r) :
    Recorded r.2.1 (events ++ claimAllEvents d shares holder ids l usdc) := by
  induction ids generalizing l usdc total events with
  | nil =>
    cases hloop
    simpa [claimAllEvents] using h
  | cons id ids ih =>
    rw [foldlM_cons, bind_eq_ok] at hloop
    obtain ⟨x, hx, hloop⟩ := hloop
    simp only [Ledger.claimNext, bind_eq_ok, ok.injEq] at hx
    obtain ⟨⟨amount, m, usdc'⟩, hclaim, _, -, _, -, rfl⟩ := hx
    have hbooked := Ledger.claim_booked hclaim
    have hzero' : m.Unopened := fun id' hid =>
      hbooked.unopened id' (hzero id' (hbooked.count ▸ hid)) (hbooked.count ▸ hid)
    simp only [claimAllEvents, hclaim, ← append_assoc]
    exact ih (h.claim hzero hclaim) hzero' hloop

private theorem Recorded.step {b b' : ShareBook} {c : LedgerCall} (hw : b.WellFormed) (h : Recorded b.ledger events)
    (hstep : bookStep d b c.call = .ok b') : Recorded b'.ledger (events ++ eventsOf d b c) := by
  obtain ⟨call, tag⟩ := c
  have hupdate : ∀ {source target value}, b.update d source target value = .ok b' →
      Recorded b'.ledger (events ++ []) := by
    intro source target value hu
    obtain ⟨m, hreported, hmoved, -⟩ := ShareBook.update_spec hw hu
    rw [hmoved.ledger, append_nil]
    exact h.of_same hreported.count hreported.exclusions hreported.claimed
  cases call with
  | mint account value | burn account value =>
    simp only [bookStep, ShareBook.mint, ShareBook.burn, bind_eq_ok] at hstep
    exact hupdate hstep.choose_spec.2
  | transferShares source target value =>
    simp only [bookStep, ShareBook.transferShares, bind_eq_ok] at hstep
    obtain ⟨-, -, -, -, hu⟩ := hstep
    exact hupdate hu
  | openRecord i adapter reply block =>
    simp only [bookStep, bind_eq_ok, ok.injEq] at hstep
    obtain ⟨⟨id, x⟩, hopen, rfl⟩ := hstep
    simp only [eventsOf, hopen]
    obtain ⟨rfl, -, -, e, rfl, rfl, hfinal, hsupply, hrecovered, -, rfl⟩ := ShareBook.openRecord_spec hopen
    dsimp only
    rw [update_self, ← hsupply]
    exact h.openRecord hrecovered hfinal
  | credit id amount =>
    simp only [bookStep, ShareBook.credit, Ledger.credit, bind_eq_ok, revertIf_eq_ok, add_eq_ok, ok.injEq] at hstep
    obtain ⟨_, -, _, ⟨-, -, -, hopen, _, ⟨-, rfl⟩, _, -, rfl⟩, rfl⟩ := hstep
    exact h.credit tag hopen
  | finalize id =>
    simp only [bookStep, ShareBook.finalize, Ledger.finalize, bind_eq_ok, revertIf_eq_ok, ok.injEq] at hstep
    obtain ⟨_, ⟨-, -, -, hopen, rfl⟩, rfl⟩ := hstep
    exact h.finalize tag hopen
  | checkpoint source target =>
    obtain ⟨m, hreported, rfl⟩ := ShareBook.checkpoint_spec hw hstep
    simpa [eventsOf] using h.of_same hreported.count hreported.exclusions hreported.claimed
  | claim id holder =>
    simp only [bookStep, bind_eq_ok, ok.injEq] at hstep
    obtain ⟨⟨amount, x⟩, hclaim, rfl⟩ := hstep
    simp only [eventsOf, hclaim]
    simp only [ShareBook.claim, bind_eq_ok, ok.injEq, Prod.mk.injEq] at hclaim
    obtain ⟨⟨_, m, _⟩, hclaim, rfl, rfl⟩ := hclaim
    exact h.claim hw.unopened hclaim
  | claimAll holder =>
    simp only [bookStep, ShareBook.claimAll, Ledger.claimAll, bind_eq_ok, ok.injEq] at hstep
    obtain ⟨x, ⟨r, hloop, rfl⟩, rfl⟩ := hstep
    exact h.claimAll hw.unopened hloop
  | markExclusionOpened | issueUsdc account value =>
    simp only [bookStep, ShareBook.markExclusionOpened, if_true, ok.injEq] at hstep
    subst hstep
    simpa [eventsOf] using h
  | returnSurplus =>
    simp only [bookStep, ShareBook.returnSurplus, bind_eq_ok, ok.injEq] at hstep
    obtain ⟨x, ⟨-, -, rfl⟩, rfl⟩ := hstep
    simpa [eventsOf] using h
  | moveUsdc source target value =>
    simp only [bookStep, bind_eq_ok, ok.injEq] at hstep
    obtain ⟨-, -, u, -, rfl⟩ := hstep
    simpa [eventsOf] using h

end Recorded

theorem recorded_run (d : Deployment) (usdc : Balances) (cs : List LedgerCall) :
    Recorded (run (ledgerStep d) (.init usdc, []) cs).1.ledger (run (ledgerStep d) (.init usdc, []) cs).2 := by
  have hstep : ∀ s (c : LedgerCall) s', s.1.WellFormed ∧ Recorded s.1.ledger s.2 → ledgerStep d s c = .ok s' →
      s'.1.WellFormed ∧ Recorded s'.1.ledger s'.2 := by
    rintro s c s' ⟨hw, hs⟩ h
    simp only [ledgerStep, bind_eq_ok, ok.injEq] at h
    obtain ⟨b, hb, rfl⟩ := h
    exact ⟨ShareBook.wellFormed_step hw hb, hs.step hw hb⟩
  exact (run_invariant hstep ⟨ShareBook.wellFormed_init usdc, recorded_init⟩ cs).2

theorem book_run (d : Deployment) (s : ShareBook × List Event) (cs : List LedgerCall) :
    (run (ledgerStep d) s cs).1 = run (bookStep d) s.1 (cs.map LedgerCall.call) := by
  induction cs generalizing s with
  | nil => rfl
  | cons c rest ih =>
    rw [run_cons, map_cons, run_cons, ih]
    congr 1
    unfold exec ledgerStep
    cases bookStep d s.1 c.call <;> rfl

end RobotMoney
