import Mathlib.Algebra.BigOperators.Intervals
import RobotMoney.Ledger.Snapshots

/-!
# The ledger pays exactly what it owes

Over every run that keeps the switch: the ledger's books add up (`Solvent`), a claim brings what its holder was paid
from a record to exactly the floor of its pro-rata share, and nothing the ledger does can fail for lack of USDC or
take a record's money.

The invariant behind it (`Sound`) bounds what each holder was paid by its entitlement.  Entitlements only grow, since
snapshot balances are constant, so a claim always tops up to the current one; and the floors add up to at most what
the record recovered, so the money is there.
-/

namespace RobotMoney

open Evm Except

/-- The floor of the pro-rata share of `h` in what record `id` recovered so far. -/
def ShareBook.entitlement (b : ShareBook) (id : Nat) (h : Address) : Nat :=
  mulDivNat .floor (b.ledger.exclusions id).recoveredUsdc (b.balanceAt h id) (b.ledger.exclusions id).snapshotSupply

def Exclusion.outstanding (e : Exclusion) : Nat := e.recoveredUsdc - e.claimedUsdc

/-- The books of the ledger add up and its USDC covers them. -/
structure ShareBook.Solvent (d : Deployment) (b : ShareBook) : Prop where
  held : b.ledger.heldUsdc = ∑ id ∈ Finset.Icc 1 b.ledger.exclusionCount, (b.ledger.exclusions id).outstanding
  paid : ∀ id, ∑ h, b.ledger.claimed id h = (b.ledger.exclusions id).claimedUsdc
  covered : ∀ id, (b.ledger.exclusions id).claimedUsdc ≤ (b.ledger.exclusions id).recoveredUsdc
  funded : b.ledger.heldUsdc ≤ b.usdc d.ledger

/-- The invariant of the runs that keep the switch. -/
structure ShareBook.Sound (d : Deployment) (b : ShareBook) : Prop where
  wellFormed : b.WellFormed
  snapshot : ∀ id, ∑ h, b.balanceAt h id = (b.ledger.exclusions id).snapshotSupply
  entitled : ∀ id h, b.ledger.claimed id h ≤ b.entitlement id h
  solvent : b.Solvent d
  recovered_lt : ∀ id, (b.ledger.exclusions id).recoveredUsdc < wordSize
  held_lt : b.ledger.heldUsdc < wordSize
  count_lt : b.ledger.exclusionCount < wordSize

open ShareBook

namespace ShareBook

open List Function Finset Ledger Exclusion Except

variable {d : Deployment} {b b' : ShareBook}

private theorem sound_init (usdc : Balances) : (init usdc).Sound d where
  wellFormed := wellFormed_init usdc
  snapshot := by
    intro id
    refine Finset.sum_eq_zero fun h _ => ?_
    unfold balanceAt Ledger.balanceAt
    rw [if_pos (by simp only [init, Ledger.init]; omega)]
  entitled := fun _ _ => Nat.zero_le _
  solvent := ⟨rfl, fun _ => by simp [init, Ledger.init, Exclusion.zero], fun _ => Nat.le_refl _, Nat.zero_le _⟩
  recovered_lt := fun _ => by simp [init, Ledger.init, Exclusion.zero, wordSize]
  held_lt := by simp [init, Ledger.init, wordSize]
  count_lt := by simp [init, Ledger.init, wordSize]

variable {id : Nat}

theorem balanceAt_of_unopened (h : id = 0 ∨ b.ledger.exclusionCount < id) (a : Address) : b.balanceAt a id = 0 := by
  unfold balanceAt Ledger.balanceAt
  rw [if_pos h]

private theorem balanceAt_zero (hw : b.WellFormed) (id : Nat) : b.balanceAt 0 id = 0 := by
  by_cases h : id = 0 ∨ b.ledger.exclusionCount < id
  · exact balanceAt_of_unopened h 0
  unfold balanceAt
  rw [balanceAt_eq (hw.ordered.ascending 0) (by omega) (by omega), hw.ordered.zero]
  exact hw.zeroShares

private theorem Sound.sum_entitlement_le (hs : b.Sound d) (id : Nat) :
    ∑ h, b.entitlement id h ≤ (b.ledger.exclusions id).recoveredUsdc :=
  sum_mulDivNat_floor_le _ _ _ _ (hs.snapshot id)

private theorem Sound.entitlement_le (hs : b.Sound d) (id : Nat) (h : Address) :
    b.entitlement id h ≤ (b.ledger.exclusions id).recoveredUsdc :=
  (single_le_sum (fun _ _ => Nat.zero_le _) (mem_univ h)).trans (hs.sum_entitlement_le id)

private theorem WellFormed.mem_of_supply_ne_zero (hw : b.WellFormed) (h : (b.ledger.exclusions id).snapshotSupply ≠ 0) :
    id ∈ Finset.Icc 1 b.ledger.exclusionCount := by
  rw [mem_Icc]
  by_contra hc
  exact h (by rw [hw.unopened id (by omega)]; rfl)

private theorem Sound.of_same_money (hs : b.Sound d) (hw : b'.WellFormed)
    (hcount : b'.ledger.exclusionCount = b.ledger.exclusionCount)
    (hmoney : ∀ id, (b'.ledger.exclusions id).recoveredUsdc = (b.ledger.exclusions id).recoveredUsdc ∧
      (b'.ledger.exclusions id).claimedUsdc = (b.ledger.exclusions id).claimedUsdc ∧
      (b'.ledger.exclusions id).snapshotSupply = (b.ledger.exclusions id).snapshotSupply)
    (hclaimed : b'.ledger.claimed = b.ledger.claimed) (hheld : b'.ledger.heldUsdc = b.ledger.heldUsdc)
    (hbal : ∀ h id, b'.balanceAt h id = b.balanceAt h id) (hfunded : b.ledger.heldUsdc ≤ b'.usdc d.ledger) :
    b'.Sound d where
  wellFormed := hw
  snapshot := by
    intro id
    rw [(hmoney id).2.2, ← hs.snapshot id]
    exact sum_congr rfl fun h _ => hbal h id
  entitled := by
    intro id h
    unfold entitlement
    rw [hclaimed, hbal, (hmoney id).1, (hmoney id).2.2]
    exact hs.entitled id h
  solvent := by
    refine ⟨?_, ?_, ?_, by rw [hheld]; exact hfunded⟩
    · rw [hheld, hcount, hs.solvent.held]
      refine sum_congr rfl fun id _ => ?_
      unfold outstanding
      rw [(hmoney id).1, (hmoney id).2.1]
    · intro id
      rw [hclaimed, (hmoney id).2.1]
      exact hs.solvent.paid id
    · intro id
      rw [(hmoney id).1, (hmoney id).2.1]
      exact hs.solvent.covered id
  recovered_lt := by
    intro id
    rw [(hmoney id).1]
    exact hs.recovered_lt id
  held_lt := by rw [hheld]; exact hs.held_lt
  count_lt := by rw [hcount]; exact hs.count_lt

private theorem sum_outstanding_update {l : Ledger} (e : Exclusion) (hid : id ∈ Finset.Icc 1 l.exclusionCount) :
    (∑ x ∈ Finset.Icc 1 l.exclusionCount, (Function.update l.exclusions id e x).outstanding) +
      (l.exclusions id).outstanding =
      (∑ x ∈ Finset.Icc 1 l.exclusionCount, (l.exclusions x).outstanding) + e.outstanding := by
  have h := sum_add_of_eq_off (f := fun x => (l.exclusions x).outstanding)
    (g := fun x => (Function.update l.exclusions id e x).outstanding) hid
    (fun x _ hx => by simp [hx])
  simpa using h

private theorem Sound.credit (hs : b.Sound d) {id amount : Nat} (h : b.credit d id amount = .ok b') : b'.Sound d := by
  have hbook : b.Booked b' := by
    simp only [ShareBook.credit, bind_eq_ok, ok.injEq] at h
    obtain ⟨u, -, l, hl, rfl⟩ := h
    exact ⟨credit_booked hl, rfl, rfl⟩
  simp only [ShareBook.credit, Ledger.credit, bind_eq_ok, revertIf_eq_ok, add_eq_ok, moveUsdc_eq_ok, ok.injEq] at h
  obtain ⟨u, ⟨-, hvault, rfl⟩, l, ⟨-, -, -, hopen, recovered, ⟨hrlt, rfl⟩, held, ⟨hhlt, rfl⟩, rfl⟩, rfl⟩ := h
  have hid : id ∈ Finset.Icc 1 b.ledger.exclusionCount := by
    unfold Ledger.NotOpen at hopen
    rw [mem_Icc]
    omega
  have hcov := hs.solvent.covered id
  refine ⟨hbook.wellFormed hs.wellFormed, ?_, ?_, ⟨?_, ?_, ?_, ?_⟩, ?_, hhlt, hs.count_lt⟩
  · intro id'
    rw [hbook.ledger.supplies id', ← hs.snapshot id']
    exact sum_congr rfl fun a _ => hbook.balanceAt a id'
  · -- more recovery, same snapshot: entitlements grow
    intro id' a
    refine (hs.entitled id' a).trans ?_
    unfold entitlement
    rw [hbook.balanceAt a id', hbook.ledger.supplies id']
    by_cases he : id' = id
    · subst he
      simp only [update_self, mulDivNat]
      exact Nat.div_le_div_right (Nat.mul_le_mul_right _ (Nat.le_add_right _ _))
    · simp [he]
  · have hsum := sum_outstanding_update
      { b.ledger.exclusions id with recoveredUsdc := (b.ledger.exclusions id).recoveredUsdc + amount } hid
    have hheld := hs.solvent.held
    simp only [outstanding] at hsum hheld ⊢
    omega
  · intro id'
    rw [hs.solvent.paid id']
    by_cases he : id' = id
    · subst he; simp
    · simp [he]
  · intro id'
    by_cases he : id' = id
    · subst he
      simp only [update_self]
      omega
    · simpa [he] using hs.solvent.covered id'
  · have := hs.solvent.funded
    simp only
    rw [moveBalance_target d.ledger_ne_vault.symm]
    omega
  · intro id'
    by_cases he : id' = id
    · subst he; simpa using hrlt
    · simpa [he] using hs.recovered_lt id'

/-- The book after `holder` was paid `amount` from record `id`. -/
def paidOut (d : Deployment) (b : ShareBook) (id : Nat) (holder : Address) (amount : Nat) : ShareBook :=
  { b with
    ledger := { b.ledger with
      claimed := Function.update b.ledger.claimed id
        (Function.update (b.ledger.claimed id) holder (b.ledger.claimed id holder + amount))
      exclusions := Function.update b.ledger.exclusions id
        { b.ledger.exclusions id with claimedUsdc := (b.ledger.exclusions id).claimedUsdc + amount }
      heldUsdc := b.ledger.heldUsdc - amount }
    usdc := moveBalance b.usdc d.ledger holder amount }

private theorem paidOut_zero (b : ShareBook) (id : Nat) (holder : Address) : b.paidOut d id holder 0 = b := by
  simp [paidOut]

private theorem Sound.owed_le (hs : b.Sound d) (id : Nat) (h : Address) :
    (b.ledger.exclusions id).claimedUsdc + (b.entitlement id h - b.ledger.claimed id h) ≤
      (b.ledger.exclusions id).recoveredUsdc := by
  have hsum := sum_update_add (b.ledger.claimed id) h (b.entitlement id h)
  have hle : ∑ x, Function.update (b.ledger.claimed id) h (b.entitlement id h) x ≤ ∑ x, b.entitlement id x := by
    refine Finset.sum_le_sum fun x _ => ?_
    by_cases hx : x = h
    · subst hx; simp
    · simpa [hx] using hs.entitled id x
  have hrec := hs.sum_entitlement_le id
  have hpaid := hs.solvent.paid id
  have hent := hs.entitled id h
  omega

private theorem Sound.outstanding_le_held (hs : b.Sound d) (hid : id ∈ Finset.Icc 1 b.ledger.exclusionCount) :
    (b.ledger.exclusions id).outstanding ≤ b.ledger.heldUsdc := by
  rw [hs.solvent.held]
  exact single_le_sum (f := fun x => (b.ledger.exclusions x).outstanding) (fun _ _ => Nat.zero_le _) hid

theorem Sound.claimable_eq (hs : b.Sound d) (id : Nat) (h : Address) :
    b.ledger.claimable b.shares id h = .ok (b.entitlement id h - b.ledger.claimed id h) := by
  have hent := hs.entitled id h
  have hlt : b.entitlement id h < wordSize := (hs.entitlement_le id h).trans_lt (hs.recovered_lt id)
  unfold claimable
  dsimp only
  split
  · rename_i hz
    have : b.entitlement id h = 0 := by simp [entitlement, mulDivNat, hz]
    simp [this]
  rename_i hne
  have hmul : (mulDiv .floor (b.ledger.exclusions id).recoveredUsdc (b.ledger.balanceAt b.shares h id)
      (b.ledger.exclusions id).snapshotSupply : Except Revert Nat) = .ok (b.entitlement id h) :=
    mulDiv_eq_ok.2 ⟨hne, hlt, rfl⟩
  rw [hmul, ok_bind]
  congr 1
  split <;> omega

private theorem Sound.claim_eq (hs : b.Sound d) (id : Nat) (h : Address) :
    b.claim d id h = .ok (b.entitlement id h - b.ledger.claimed id h,
      b.paidOut d id h (b.entitlement id h - b.ledger.claimed id h)) := by
  have howed := hs.owed_le id h
  have hrec := hs.recovered_lt id
  have hentle := hs.entitlement_le id h
  simp only [claim, Ledger.claim, hs.claimable_eq id h, ok_bind]
  split
  · rename_i hz
    rw [hz, paidOut_zero]
    rfl
  rename_i hne
  -- something is owed, so the record is open, the holder is a holder, and the money is held
  have hsupply : (b.ledger.exclusions id).snapshotSupply ≠ 0 := by
    intro hz
    exact hne (by simp [entitlement, mulDivNat, hz])
  have hholder : h ≠ 0 := by
    rintro rfl
    exact hne (by simp [entitlement, mulDivNat, balanceAt_zero hs.wellFormed])
  have hheld := hs.outstanding_le_held (hs.wellFormed.mem_of_supply_ne_zero hsupply)
  have hfunded := hs.solvent.funded
  unfold outstanding at hheld
  generalize hamount : b.entitlement id h - b.ledger.claimed id h = amount at hne ⊢
  have h1 : (add (b.ledger.claimed id h) amount : Except Revert Nat) = .ok (b.ledger.claimed id h + amount) :=
    add_eq_ok.2 ⟨by omega, rfl⟩
  have h2 : (add (b.ledger.exclusions id).claimedUsdc amount : Except Revert Nat) =
      .ok ((b.ledger.exclusions id).claimedUsdc + amount) := add_eq_ok.2 ⟨by omega, rfl⟩
  have h3 : (sub b.ledger.heldUsdc amount : Except Revert Nat) = .ok (b.ledger.heldUsdc - amount) :=
    sub_eq_ok.2 ⟨by omega, rfl⟩
  have h4 : moveUsdc b.usdc d.ledger h amount = .ok (moveBalance b.usdc d.ledger h amount) :=
    moveUsdc_eq_ok.2 ⟨hholder, by omega, rfl⟩
  rw [h1, h2, h3, h4]
  rfl

/-- The books still add up after a payment within the entitlement. -/
theorem Sound.paidOut (hs : b.Sound d) {id amount : Nat} {h : Address}
    (hle : b.ledger.claimed id h + amount = b.entitlement id h) : (b.paidOut d id h amount).Sound d := by
  by_cases hne : amount = 0
  · rw [hne, paidOut_zero]
    exact hs
  have howed := hs.owed_le id h
  have hsupply : (b.ledger.exclusions id).snapshotSupply ≠ 0 := by
    intro hz
    have : b.entitlement id h = 0 := by simp [entitlement, mulDivNat, hz]
    omega
  have hid := hs.wellFormed.mem_of_supply_ne_zero hsupply
  have hheld := hs.outstanding_le_held hid
  have hfunded := hs.solvent.funded
  have hbook : b.Booked (b.paidOut d id h amount) := by
    refine ⟨⟨rfl, rfl, ?_, ?_⟩, rfl, rfl⟩
    · intro id'
      by_cases he : id' = id
      · subst he; simp [ShareBook.paidOut]
      · simp [ShareBook.paidOut, he]
    · intro id' hz hid'
      have he : id' ≠ id := by
        rintro rfl
        exact hsupply (by rw [hz]; rfl)
      simp [ShareBook.paidOut, he, hz]
  have hrecovered : ∀ id', ((b.paidOut d id h amount).ledger.exclusions id').recoveredUsdc =
      (b.ledger.exclusions id').recoveredUsdc := by
    intro id'
    by_cases he : id' = id
    · subst he; simp [ShareBook.paidOut]
    · simp [ShareBook.paidOut, he]
  have hentitlement : ∀ id' x, (b.paidOut d id h amount).entitlement id' x = b.entitlement id' x := by
    intro id' x
    unfold entitlement
    rw [hrecovered, hbook.balanceAt, hbook.ledger.supplies]
  refine ⟨hbook.wellFormed hs.wellFormed, ?_, ?_, ⟨?_, ?_, ?_, ?_⟩, ?_, ?_, hs.count_lt⟩
  · intro id'
    rw [hbook.ledger.supplies id', ← hs.snapshot id']
    exact sum_congr rfl fun a _ => hbook.balanceAt a id'
  · intro id' x
    rw [hentitlement]
    by_cases he : id' = id
    · subst he
      by_cases hx : x = h
      · subst hx
        simp only [ShareBook.paidOut, update_self]
        omega
      · simpa [ShareBook.paidOut, hx] using hs.entitled id' x
    · simpa [ShareBook.paidOut, he] using hs.entitled id' x
  · have hsum := sum_outstanding_update
      { b.ledger.exclusions id with claimedUsdc := (b.ledger.exclusions id).claimedUsdc + amount } hid
    have hall := hs.solvent.held
    simp only [outstanding, ShareBook.paidOut] at hsum hall hheld ⊢
    omega
  · intro id'
    by_cases he : id' = id
    · subst he
      have hsum := sum_update_add (b.ledger.claimed id') h (b.ledger.claimed id' h + amount)
      have hpaid := hs.solvent.paid id'
      simp only [ShareBook.paidOut, update_self]
      omega
    · simpa [ShareBook.paidOut, he] using hs.solvent.paid id'
  · intro id'
    rw [hrecovered]
    by_cases he : id' = id
    · subst he
      simp only [ShareBook.paidOut, update_self]
      omega
    · simpa [ShareBook.paidOut, he] using hs.solvent.covered id'
  · simp only [ShareBook.paidOut]
    by_cases hself : h = d.ledger
    · subst hself
      unfold outstanding at hheld
      rw [moveBalance_self _ _ (by omega)]
      omega
    rw [moveBalance_source (Ne.symm hself)]
    omega
  · intro id'
    rw [hrecovered]
    exact hs.recovered_lt id'
  · have := hs.held_lt
    simp only [ShareBook.paidOut]
    omega

/-- What one claim leaves: the holder is paid up on that record, every other payment and every entitlement stays. -/
structure Topped (d : Deployment) (b b' : ShareBook) (holder : Address) : Prop where
  sound : b'.Sound d
  count : b'.ledger.exclusionCount = b.ledger.exclusionCount
  entitlement : ∀ id h, b'.entitlement id h = b.entitlement id h
  claimed : ∀ id, b'.ledger.claimed id holder = b.ledger.claimed id holder ∨
    b'.ledger.claimed id holder = b.entitlement id holder
  others : ∀ id h, h ≠ holder → b'.ledger.claimed id h = b.ledger.claimed id h

private theorem Topped.refl (hs : b.Sound d) (holder : Address) : b.Topped d b holder :=
  ⟨hs, rfl, fun _ _ => rfl, fun _ => .inl rfl, fun _ _ _ => rfl⟩

private theorem Topped.trans {m : ShareBook} {holder : Address} (h₁ : b.Topped d m holder) (h₂ : m.Topped d b' holder) :
    b.Topped d b' holder where
  sound := h₂.sound
  count := h₂.count.trans h₁.count
  entitlement := fun id h => (h₂.entitlement id h).trans (h₁.entitlement id h)
  claimed := by
    intro id
    rcases h₂.claimed id with hc | hc
    · rw [hc]; exact h₁.claimed id
    · exact .inr (hc.trans (h₁.entitlement id holder))
  others := fun id h hne => (h₂.others id h hne).trans (h₁.others id h hne)

private theorem Sound.claim_topped (hs : b.Sound d) (id : Nat) (h : Address) :
    ∃ amount, b.claim d id h = .ok (amount, b.paidOut d id h amount) ∧ b.Topped d (b.paidOut d id h amount) h ∧
      b.ledger.claimed id h + amount = b.entitlement id h ∧
      (b.paidOut d id h amount).ledger.claimed id h = b.entitlement id h ∧
      amount + (b.paidOut d id h amount).ledger.heldUsdc = b.ledger.heldUsdc := by
  have hent := hs.entitled id h
  have howed := hs.owed_le id h
  refine ⟨_, hs.claim_eq id h, ?_, by omega, ?_, ?_⟩
  · refine ⟨hs.paidOut (by omega), rfl, ?_, ?_, ?_⟩
    · intro id' h'
      unfold entitlement balanceAt
      by_cases he : id' = id
      · subst he; simp [ShareBook.paidOut, Ledger.balanceAt]
      · simp [ShareBook.paidOut, Ledger.balanceAt, he]
    · intro id'
      by_cases he : id' = id
      · subst he
        right
        simp only [ShareBook.paidOut, update_self]
        omega
      left
      simp [ShareBook.paidOut, he]
    · intro id' h' hne
      by_cases he : id' = id
      · subst he; simp [ShareBook.paidOut, hne]
      · simp [ShareBook.paidOut, he]
  · simp only [ShareBook.paidOut, update_self]
    omega
  · simp only [ShareBook.paidOut]
    by_cases hz : b.entitlement id h - b.ledger.claimed id h = 0
    · omega
    have hsupply : (b.ledger.exclusions id).snapshotSupply ≠ 0 := by
      intro hz'
      exact hz (by simp [entitlement, mulDivNat, hz'])
    have := hs.outstanding_le_held (hs.wellFormed.mem_of_supply_ne_zero hsupply)
    unfold outstanding at this
    omega

private theorem claimNext_eq (hs : b.Sound d) {id total : Nat} {h : Address} (hid : id + 1 < wordSize)
    (htotal : total + b.ledger.heldUsdc < wordSize) :
    ∃ b' total', claimNext d b.shares h (total, b.ledger, b.usdc) id = .ok (total', b'.ledger, b'.usdc) ∧
      b'.shares = b.shares ∧ b'.totalSupply = b.totalSupply ∧ b'.snapshots = b.snapshots ∧ b.Topped d b' h ∧
      b'.ledger.claimed id h = b.entitlement id h ∧ total' + b'.ledger.heldUsdc = total + b.ledger.heldUsdc ∧
      total ≤ total' ∧ b'.usdc = moveBalance b.usdc d.ledger h (total' - total) := by
  obtain ⟨amount, hclaim, htop, -, hpaid, hheld⟩ := hs.claim_topped id h
  refine ⟨b.paidOut d id h amount, total + amount, ?_, rfl, rfl, rfl, htop, hpaid, by omega, by omega, ?_⟩
  swap
  · rw [Nat.add_sub_cancel_left]
    rfl
  simp only [claim, bind_eq_ok, ok.injEq, Prod.mk.injEq] at hclaim
  obtain ⟨⟨x, l, u⟩, hl, rfl, hb⟩ := hclaim
  have hledger : l = (b.paidOut d id h x).ledger := by rw [← hb]
  have husdc : u = (b.paidOut d id h x).usdc := by rw [← hb]
  have htot : (add total x : Except Revert Nat) = .ok (total + x) := add_eq_ok.2 ⟨by omega, rfl⟩
  have hnext : (add id 1 : Except Revert Nat) = .ok (id + 1) := add_eq_ok.2 ⟨hid, rfl⟩
  simp only [claimNext, hl, ok_bind, htot, hnext, hledger, husdc]

private theorem claimAll_loop (hs : b.Sound d) (h : Address) (ids : List Nat) (total : Nat)
    (hids : ∀ id ∈ ids, id + 1 < wordSize) (htotal : total + b.ledger.heldUsdc < wordSize) :
    ∃ b' total', ids.foldlM (claimNext d b.shares h) (total, b.ledger, b.usdc) = .ok (total', b'.ledger, b'.usdc) ∧
      b'.shares = b.shares ∧ b'.totalSupply = b.totalSupply ∧ b'.snapshots = b.snapshots ∧ b.Topped d b' h ∧
      (∀ id ∈ ids, b'.ledger.claimed id h = b.entitlement id h) ∧
      total' + b'.ledger.heldUsdc = total + b.ledger.heldUsdc ∧
      total ≤ total' ∧ b'.usdc = moveBalance b.usdc d.ledger h (total' - total) := by
  induction ids generalizing b total with
  | nil =>
    exact ⟨b, total, rfl, rfl, rfl, rfl, .refl hs h, by simp, rfl, le_rfl, by simp⟩
  | cons id ids ih =>
    obtain ⟨m, t, hround, hsh, hts, hsn, htop, hpaid, hheld, hle, husdc⟩ :=
      claimNext_eq hs (h := h) (hids id (by simp)) htotal
    obtain ⟨b', t', hloop, hsh', hts', hsn', htop', hpaid', hheld', hle', husdc'⟩ :=
      ih (b := m) htop.sound t (fun x hx => hids x (mem_cons_of_mem _ hx)) (by omega)
    rw [hsh] at hloop
    have hfunded := hs.solvent.funded
    have husdc'' : b'.usdc = moveBalance b.usdc d.ledger h (t' - total) := by
      rw [husdc', husdc, moveBalance_moveBalance (by omega)]
      congr 1
      omega
    refine ⟨b', t', ?_, hsh'.trans hsh, hts'.trans hts, hsn'.trans hsn, htop.trans htop', ?_, by omega, by omega,
      husdc''⟩
    · rw [foldlM_cons, hround]
      exact hloop
    · intro x hx
      rcases mem_cons.1 hx with rfl | hx
      · rcases htop'.claimed x with hc | hc
        · rw [hc]; exact hpaid
        · rw [hc, htop.entitlement]
      · rw [hpaid' x hx, htop.entitlement]

private theorem Sound.claimAll (hs : b.Sound d) (h : Address) (hcount : b.ledger.exclusionCount + 1 < wordSize) :
    ∃ total b', b.claimAll d h = .ok (total, b') ∧ b.Topped d b' h ∧
      (∀ id, b'.ledger.claimed id h = b.entitlement id h) ∧ b'.usdc = moveBalance b.usdc d.ledger h total := by
  obtain ⟨b', total, hloop, hsh, hts, hsn, htop, hpaid, hheld, -, husdc⟩ :=
    claimAll_loop hs h (range' 1 b.ledger.exclusionCount) 0
      (by intro id hid; rw [mem_range'_1] at hid; omega) (by have := hs.held_lt; omega)
  refine ⟨total, b', ?_, htop, ?_, husdc⟩
  · simp only [ShareBook.claimAll, Ledger.claimAll, hloop, ok_bind]
    rw [← hsh, ← hts, ← hsn]
  · intro id
    by_cases hid : id = 0 ∨ b.ledger.exclusionCount < id
    · -- a record never opened owes nothing
      have hz : b.entitlement id h = 0 := by
        simp [entitlement, mulDivNat, hs.wellFormed.unopened id hid, Exclusion.zero]
      have hle := htop.sound.entitled id h
      rw [htop.entitlement] at hle
      omega
    · exact hpaid id (by rw [mem_range'_1]; omega)

private theorem claimAll_overflow {holder : Address} (h : wordSize ≤ b.ledger.exclusionCount + 1) (b' : ShareBook) :
    bookStep d b (.claimAll holder) ≠ .ok b' := by
  intro hstep
  simp only [bookStep, claimAll, Ledger.claimAll, bind_eq_ok, ok.injEq] at hstep
  obtain ⟨-, ⟨x, hx, -⟩, -⟩ := hstep
  have hpos : 0 < b.ledger.exclusionCount := by
    have : 2 ≤ wordSize := by decide
    omega
  obtain ⟨n, hn⟩ : ∃ n, b.ledger.exclusionCount = n + 1 := ⟨b.ledger.exclusionCount - 1, by omega⟩
  -- the last round is the one for the newest record
  rw [hn, range'_1_concat, foldlM_append, bind_eq_ok] at hx
  obtain ⟨y, -, hy⟩ := hx
  rw [foldlM_cons, bind_eq_ok] at hy
  obtain ⟨z, hz, -⟩ := hy
  simp only [Ledger.claimNext, bind_eq_ok, add_eq_ok] at hz
  obtain ⟨-, -, -, -, -, ⟨hlt, -⟩, -⟩ := hz
  omega

private theorem Sound.returnSurplus_eq (hs : b.Sound d) : b.returnSurplus d = .ok (b.usdc d.ledger - b.ledger.heldUsdc,
      { b with usdc := moveBalance b.usdc d.ledger d.vault (b.usdc d.ledger - b.ledger.heldUsdc) }) := by
  have hfunded := hs.solvent.funded
  simp only [returnSurplus, Ledger.returnSurplus]
  split
  · have hz : b.usdc d.ledger - b.ledger.heldUsdc = 0 := by omega
    rw [hz, moveBalance_zero]
    rfl
  have hmove : moveUsdc b.usdc d.ledger d.vault (b.usdc d.ledger - b.ledger.heldUsdc) =
      .ok (moveBalance b.usdc d.ledger d.vault (b.usdc d.ledger - b.ledger.heldUsdc)) :=
    moveUsdc_eq_ok.2 ⟨d.vault_ne_zero, by omega, rfl⟩
  rw [hmove]
  rfl

/-- A new record starts with nothing recovered, nothing paid and the current shares. -/
theorem Sound.openRecord (hs : b.Sound d) {i id : Nat} {adapter : Address} {reply : Reply Nat} {block : Block}
    (h : b.openRecord d i adapter reply block = .ok (id, b')) : b'.Sound d := by
  have hw' := openRecord_wellFormed hs.wellFormed h
  have hbal := openRecord_balanceAt hs.wellFormed h
  obtain ⟨rfl, hlt, hcount, e, -, -, -, hsup, hrec, hcl, hb'⟩ := openRecord_spec h
  have hnone : ∀ a, b.ledger.claimed (b.ledger.exclusionCount + 1) a = 0 := by
    intro a
    have hle := hs.entitled (b.ledger.exclusionCount + 1) a
    have hz := hs.wellFormed.unopened (b.ledger.exclusionCount + 1) (by omega)
    simp only [entitlement, hz, Exclusion.zero, mulDivNat] at hle
    omega
  have hold : ∀ id', id' ≠ b.ledger.exclusionCount + 1 → b'.ledger.exclusions id' = b.ledger.exclusions id' := by
    intro id' hne
    rw [hb']
    simp [hne]
  have hnew : b'.ledger.exclusions (b.ledger.exclusionCount + 1) = e := by rw [hb']; simp
  have hclaimed : b'.ledger.claimed = b.ledger.claimed := by rw [hb']
  have hheld : b'.ledger.heldUsdc = b.ledger.heldUsdc := by rw [hb']
  have hbalOld : ∀ id' a, id' ≠ b.ledger.exclusionCount + 1 → b'.balanceAt a id' = b.balanceAt a id' := by
    intro id' a hne
    by_cases hid : id' = 0 ∨ b.ledger.exclusionCount < id'
    · rw [balanceAt_of_unopened hid, balanceAt_of_unopened (by rw [hcount]; omega)]
    · exact (hbal a).2 id' (by omega) (by omega)
  refine ⟨hw', ?_, ?_, ⟨?_, ?_, ?_, ?_⟩, ?_, by rw [hheld]; exact hs.held_lt, by rw [hcount]; exact hlt⟩
  · intro id'
    by_cases hne : id' = b.ledger.exclusionCount + 1
    · subst hne
      rw [hnew, hsup, ← hs.wellFormed.supply]
      exact sum_congr rfl fun a _ => (hbal a).1
    rw [hold id' hne, ← hs.snapshot id']
    exact sum_congr rfl fun a _ => hbalOld id' a hne
  · intro id' a
    rw [hclaimed]
    by_cases hne : id' = b.ledger.exclusionCount + 1
    · subst hne
      rw [hnone a]
      exact Nat.zero_le _
    unfold entitlement
    rw [hold id' hne, hbalOld id' a hne]
    exact hs.entitled id' a
  · have hfresh : (b'.ledger.exclusions (b.ledger.exclusionCount + 1)).outstanding = 0 := by
      rw [hnew]
      simp [outstanding, hrec]
    rw [hheld, hcount, sum_Icc_succ_top (by omega), hfresh, hs.solvent.held, add_zero]
    refine sum_congr rfl fun id' hid' => ?_
    rw [mem_Icc] at hid'
    rw [hold id' (by omega)]
  · intro id'
    rw [hclaimed]
    by_cases hne : id' = b.ledger.exclusionCount + 1
    · subst hne
      rw [hnew, hcl]
      exact sum_eq_zero fun a _ => hnone a
    rw [hold id' hne]
    exact hs.solvent.paid id'
  · intro id'
    by_cases hne : id' = b.ledger.exclusionCount + 1
    · subst hne
      rw [hnew, hcl]
      exact Nat.zero_le _
    rw [hold id' hne]
    exact hs.solvent.covered id'
  · rw [hheld, hb']
    exact hs.solvent.funded
  · intro id'
    by_cases hne : id' = b.ledger.exclusionCount + 1
    · subst hne
      rw [hnew, hrec]
      simp [wordSize]
    rw [hold id' hne]
    exact hs.recovered_lt id'

private theorem Sound.update (hs : b.Sound d) {source target : Address} {value : Nat}
    (hon : b.ledger.exclusionCount ≠ 0 → b.snapshots = true) (h : b.update d source target value = .ok b') :
    b'.Sound d := by
  obtain ⟨l, hr, hm, -⟩ := update_spec hs.wellFormed h
  refine hs.of_same_money (update_wellFormed hs.wellFormed h) ?_ ?_ ?_ ?_ ?_ ?_
  · rw [hm.ledger]; exact hr.count
  · intro id
    rw [hm.ledger]
    simp [hr.exclusions]
  · rw [hm.ledger]; exact hr.claimed
  · rw [hm.ledger]; exact hr.held
  · intro a id
    by_cases hid : id = 0 ∨ b.ledger.exclusionCount < id
    · rw [balanceAt_of_unopened hid, balanceAt_of_unopened]
      rw [hm.ledger]
      simpa [hr.count] using hid
    · exact update_balanceAt hs.wellFormed h hon (by omega) (by omega) a
  · rw [hm.usdc]; exact hs.solvent.funded

theorem Sound.checkpoint (hs : b.Sound d) {source target : Address} (h : b.checkpoint d source target = .ok b') :
    b'.Sound d := by
  have hstep : bookStep d b (.checkpoint source target) = .ok b' := h
  obtain ⟨l, hr, rfl⟩ := checkpoint_spec hs.wellFormed h
  refine hs.of_same_money (wellFormed_step hs.wellFormed hstep) hr.count ?_ hr.claimed hr.held ?_ hs.solvent.funded
  · intro id
    simp [hr.exclusions]
  · intro a id
    by_cases hid : id = 0 ∨ b.ledger.exclusionCount < id
    · rw [balanceAt_of_unopened hid, balanceAt_of_unopened]
      simpa [hr.count] using hid
    · exact hr.balanceAt_eq hs.wellFormed.ordered (by omega) (by omega)

private theorem Sound.finalize (hs : b.Sound d) (h : b.finalize d id = .ok b') : b'.Sound d := by
  simp only [ShareBook.finalize, bind_eq_ok, ok.injEq] at h
  obtain ⟨l, hl, rfl⟩ := h
  have hbook : b.Booked { b with ledger := l } := ⟨finalize_booked hl, rfl, rfl⟩
  simp only [Ledger.finalize, bind_eq_ok, ok.injEq] at hl
  obtain ⟨-, -, -, -, rfl⟩ := hl
  refine hs.of_same_money (hbook.wellFormed hs.wellFormed) rfl ?_ rfl rfl (fun a id' => hbook.balanceAt a id')
    hs.solvent.funded
  intro id'
  by_cases he : id' = id
  · subst he; simp
  · simp [he]

private theorem Sound.of_usdc (hs : b.Sound d) {usdc : Balances} (h : b.ledger.heldUsdc ≤ usdc d.ledger) :
    { b with usdc := usdc }.Sound d := by
  obtain ⟨h1, h2, h3, h4, h5, h6, h7⟩ := hs
  exact ⟨⟨h1.1, h1.2, h1.3, h1.4⟩, h2, h3, ⟨h4.1, h4.2, h4.3, h⟩, h5, h6, h7⟩

/-- Step lemma: every call keeps the books. -/
theorem Sound.step (hs : b.Sound d) {c : BookCall} (hon : SwitchOn b c) (h : bookStep d b c = .ok b') : b'.Sound d := by
  have hfunded := hs.solvent.funded
  cases c with
  | mint account value | burn account value =>
    simp only [bookStep, mint, burn, bind_eq_ok] at h
    obtain ⟨-, -, h⟩ := h
    exact hs.update (hon trivial) h
  | transferShares source target value =>
    simp only [bookStep, transferShares, bind_eq_ok] at h
    obtain ⟨-, -, -, -, h⟩ := h
    exact hs.update (hon trivial) h
  | openRecord i adapter reply block =>
    simp only [bookStep, bind_eq_ok, ok.injEq] at h
    obtain ⟨⟨id, x⟩, h, rfl⟩ := h
    exact hs.openRecord h
  | markExclusionOpened =>
    simp only [bookStep, markExclusionOpened, if_true, ok.injEq] at h
    subst h
    obtain ⟨h1, h2, h3, h4, h5, h6, h7⟩ := hs
    exact ⟨⟨h1.1, h1.2, h1.3, h1.4⟩, h2, h3, ⟨h4.1, h4.2, h4.3, h4.4⟩, h5, h6, h7⟩
  | credit id amount => exact hs.credit h
  | finalize id => exact hs.finalize h
  | checkpoint source target => exact hs.checkpoint h
  | claim id holder =>
    obtain ⟨amount, hclaim, htop, -⟩ := hs.claim_topped id holder
    simp only [bookStep, hclaim, ok_bind, ok.injEq] at h
    exact h ▸ htop.sound
  | claimAll holder =>
    by_cases hcount : b.ledger.exclusionCount + 1 < wordSize
    · obtain ⟨total, m, hclaim, htop, -⟩ := hs.claimAll holder hcount
      simp only [bookStep, hclaim, ok_bind, ok.injEq] at h
      exact h ▸ htop.sound
    -- at the last possible id the loop counter overflows, so the call cannot have returned
    exact absurd h (claimAll_overflow (by omega) b')
  | returnSurplus =>
    simp only [bookStep, hs.returnSurplus_eq, ok_bind, ok.injEq] at h
    subst h
    refine hs.of_usdc ?_
    rw [moveBalance_source d.ledger_ne_vault]
    omega
  | issueUsdc account value =>
    simp only [bookStep, ok.injEq] at h
    subst h
    refine hs.of_usdc ?_
    by_cases ha : d.ledger = account
    · subst ha; simp; omega
    · simpa [ha] using hfunded
  | moveUsdc source target value =>
    simp only [bookStep, bind_eq_ok, revertIf_eq_ok, moveUsdc_eq_ok, ok.injEq] at h
    obtain ⟨-, hsource, u, ⟨-, hle, rfl⟩, rfl⟩ := h
    refine hs.of_usdc ?_
    by_cases ht : d.ledger = target
    · subst ht
      rw [moveBalance_target hsource]
      omega
    rw [moveBalance_of_ne (Ne.symm hsource) ht]
    exact hfunded

end ShareBook

/-- The calls that pay `holder` from record `id`. -/
def BookCall.Claims (id : Nat) (holder : Address) : BookCall → Prop
  | .claim id' h => id' = id ∧ h = holder
  | .claimAll h => h = holder
  | _ => False

variable {d : Deployment}

/-- What a holder was paid from a record changes in its own claims only. -/
theorem ShareBook.Sound.claimed_step {b b' : ShareBook} (hs : b.Sound d) {c : BookCall} (h : bookStep d b c = .ok b')
    {id : Nat} {holder : Address} (hc : ¬ c.Claims id holder) :
    b'.ledger.claimed id holder = b.ledger.claimed id holder := by
  have hupdate : ∀ {source target value}, b.update d source target value = .ok b' →
      b'.ledger.claimed id holder = b.ledger.claimed id holder := by
    intro source target value hu
    obtain ⟨l, hr, hm, -⟩ := update_spec hs.wellFormed hu
    rw [hm.ledger]
    exact congrFun (congrFun hr.claimed id) holder
  cases c with
  | mint account value | burn account value =>
    simp only [bookStep, mint, burn, bind_eq_ok] at h
    exact hupdate h.choose_spec.2
  | transferShares source target value =>
    simp only [bookStep, transferShares, bind_eq_ok] at h
    obtain ⟨-, -, -, -, h⟩ := h
    exact hupdate h
  | openRecord i adapter reply block =>
    simp only [bookStep, bind_eq_ok, ok.injEq] at h
    obtain ⟨⟨id', x⟩, h, rfl⟩ := h
    obtain ⟨-, -, -, e, -, -, -, -, -, -, hb'⟩ := openRecord_spec h
    simp only at hb' ⊢
    rw [hb']
  | markExclusionOpened =>
    simp only [bookStep, markExclusionOpened, if_true, ok.injEq] at h
    subst h
    rfl
  | credit id' amount =>
    simp only [bookStep, ShareBook.credit, Ledger.credit, bind_eq_ok, ok.injEq] at h
    obtain ⟨-, -, l, ⟨-, -, -, -, -, -, -, -, rfl⟩, rfl⟩ := h
    rfl
  | finalize id' =>
    simp only [bookStep, ShareBook.finalize, Ledger.finalize, bind_eq_ok, ok.injEq] at h
    obtain ⟨l, ⟨-, -, -, -, rfl⟩, rfl⟩ := h
    rfl
  | checkpoint source target =>
    obtain ⟨l, hr, rfl⟩ := checkpoint_spec hs.wellFormed h
    exact congrFun (congrFun hr.claimed id) holder
  | claim id' h' =>
    obtain ⟨amount, hclaim, -⟩ := hs.claim_topped id' h'
    simp only [bookStep, hclaim, ok_bind, ok.injEq] at h
    subst h
    simp only [BookCall.Claims, not_and] at hc
    by_cases he : id = id'
    · subst he
      simp [ShareBook.paidOut, Ne.symm (hc rfl)]
    · simp [ShareBook.paidOut, he]
  | claimAll h' =>
    by_cases hcount : b.ledger.exclusionCount + 1 < wordSize
    · obtain ⟨total, m, hclaim, htop, -⟩ := hs.claimAll h' hcount
      simp only [bookStep, hclaim, ok_bind, ok.injEq] at h
      subst h
      exact htop.others id holder (Ne.symm hc)
    · exact absurd h (claimAll_overflow (by omega) b')
  | returnSurplus =>
    simp only [bookStep, returnSurplus, bind_eq_ok, ok.injEq] at h
    obtain ⟨x, ⟨-, -, rfl⟩, rfl⟩ := h
    rfl
  | issueUsdc account value =>
    simp only [bookStep, ok.injEq] at h
    subst h
    rfl
  | moveUsdc source target value =>
    simp only [bookStep, bind_eq_ok, ok.injEq] at h
    obtain ⟨-, -, u, -, rfl⟩ := h
    rfl

theorem ShareBook.sound_run {usdc : Balances} {cs : List BookCall}
    (hcs : Along (bookStep d) SwitchOn (.init usdc) cs) : (run (bookStep d) (.init usdc) cs).Sound d :=
  hcs.invariant (fun _ _ _ hs hon h => hs.step hon h) (sound_init usdc)

private theorem ShareBook.Sound.claimed_run {b : ShareBook} (hs : b.Sound d) {id : Nat} {holder : Address}
    {ds : List BookCall} (hds : Along (bookStep d) SwitchOn b ds) (hc : ∀ c ∈ ds, ¬ c.Claims id holder) :
    (run (bookStep d) b ds).ledger.claimed id holder = b.ledger.claimed id holder := by
  induction ds generalizing b with
  | nil => rfl
  | cons c ds ih =>
    rw [run_cons]
    cases h : bookStep d b c with
    | ok b' =>
      have hds' := hds.2
      rw [exec_of_ok h] at hds' ⊢
      rw [ih (hs.step hds.1 h) hds' fun c' hc' => hc c' (List.mem_cons_of_mem _ hc')]
      exact hs.claimed_step h (hc c (by simp))
    | error e =>
      have hds' := hds.2
      rw [exec_of_error h] at hds' ⊢
      exact ih hs hds' fun c' hc' => hc c' (List.mem_cons_of_mem _ hc')

/-- In every state the system reaches with the switch kept: the books of the ledger add up and its USDC covers them;
a claim returns, moves the rest of the entitlement and leaves the holder paid exactly its floored pro-rata share, which
stays so until its next claim; `claimAll` does the same for every record at once; and `returnSurplus` leaves the
records and their money alone. -/
theorem ledger_solvent_and_claims_exact (d : Deployment) (usdc : Balances) (cs : List BookCall)
    (hcs : Along (bookStep d) SwitchOn (.init usdc) cs) (b : ShareBook)
    (hb : b = run (bookStep d) (.init usdc) cs) :
    b.Solvent d ∧
    (∀ id h, ∃ amount b', b.claim d id h = .ok (amount, b') ∧
      b'.usdc = moveBalance b.usdc d.ledger h amount ∧
      b.ledger.claimed id h + amount = b.entitlement id h ∧ b'.ledger.claimed id h = b.entitlement id h ∧
      ∀ ds, Along (bookStep d) SwitchOn b' ds → (∀ c ∈ ds, ¬ c.Claims id h) →
        (run (bookStep d) b' ds).ledger.claimed id h = b.entitlement id h) ∧
    (∀ h, wordSize ≤ b.ledger.exclusionCount + 1 ∨ ∃ total b', b.claimAll d h = .ok (total, b') ∧
      b'.usdc = moveBalance b.usdc d.ledger h total ∧ ∀ id, b'.ledger.claimed id h = b.entitlement id h) ∧
    ∃ amount b', b.returnSurplus d = .ok (amount, b') ∧ b'.ledger = b.ledger ∧
      b'.usdc = moveBalance b.usdc d.ledger d.vault amount ∧ b'.usdc d.ledger = b.ledger.heldUsdc := by
  have hs : b.Sound d := hb ▸ sound_run hcs
  refine ⟨hs.solvent, ?_, ?_, ?_⟩
  · intro id h
    obtain ⟨amount, hclaim, htop, hsum, hpaid, -⟩ := hs.claim_topped id h
    refine ⟨amount, _, hclaim, rfl, hsum, hpaid, ?_⟩
    intro ds hds hc
    rw [htop.sound.claimed_run hds hc, hpaid]
  · intro h
    rcases lt_or_ge (b.ledger.exclusionCount + 1) wordSize with hlt | hge
    · obtain ⟨total, b', hclaim, -, hpaid, husdc⟩ := hs.claimAll h hlt
      exact .inr ⟨total, b', hclaim, husdc, hpaid⟩
    · exact .inl hge
  · refine ⟨_, _, hs.returnSurplus_eq, rfl, rfl, ?_⟩
    have hfunded := hs.solvent.funded
    simp only
    rw [moveBalance_source d.ledger_ne_vault]
    omega

def twoCredits : List BookCall :=
  [.issueUsdc 1 50, .mint 5 60, .mint 6 40, .openRecord 0 9 (.returned 4) .sample,
    .markExclusionOpened, .credit 1 7, .claim 1 5, .transferShares 5 6 10, .credit 1 6, .claim 1 6]

private theorem twoCredits_switchOn : Along (bookStep .sample) SwitchOn (.init fun _ => 0) twoCredits := by
  refine ⟨fun h => h.elim, fun _ h => absurd rfl h, fun _ h => absurd rfl h, fun h => h.elim, fun h => h.elim,
    fun h => h.elim, fun h => h.elim, fun _ _ => rfl, fun h => h.elim, fun h => h.elim, trivial⟩

/-- The first holder gets `⌊13 * 60 / 100⌋` over its two claims, of which `4` came with the first. -/
theorem claims_exact_twoCredits :
    ∃ b', (run (bookStep .sample) (.init fun _ => 0) twoCredits).claim .sample 1 5 = .ok (3, b') ∧
      b'.ledger.claimed 1 5 = 7 := by
  obtain ⟨-, hclaim, -, -⟩ :=
    ledger_solvent_and_claims_exact .sample (fun _ => 0) twoCredits twoCredits_switchOn _ rfl
  obtain ⟨amount, b', h, -, hsum, hpaid, -⟩ := hclaim 1 5
  have hent : (run (bookStep .sample) (.init fun _ => 0) twoCredits).entitlement 1 5 = 7 := by decide
  have hbefore : (run (bookStep .sample) (.init fun _ => 0) twoCredits).ledger.claimed 1 5 = 4 := by decide
  have hamount : amount = 3 := by omega
  subst hamount
  exact ⟨b', h, hpaid.trans hent⟩

end RobotMoney
