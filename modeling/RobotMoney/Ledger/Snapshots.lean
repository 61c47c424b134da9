import RobotMoney.Evm.Machine
import RobotMoney.Ledger.ExclusionLedger

/-!
# Snapshots are exact

`balanceAt h id` is meant to be the share balance of `h` at the moment record `id` opened.  The ledger never stores
that moment: it stores a balance at the first change after it, and reads the live balance if there was none.  Here
`balanceAt` is shown to be constant from the opening on, over every run in which the vault keeps its promise to move
shares only with the switch on.

The argument is about one call: reporting a balance does not change what `balanceAt` reads (`Reported.balanceAt_eq`),
and once an account is covered by a checkpoint of the current snapshot, its live balance is no longer read
(`Covered.balanceAt_eq`).
-/

namespace RobotMoney

open Evm List ShareBook Ledger Except

/-- The balance at snapshot `id`: the first checkpoint written at or after it, or else the live balance. -/
def snapshotBalance (cps : List Checkpoint) (live id : Nat) : Nat :=
  match cps.find? (fun c => id ≤ c.id) with
  | some c => c.balance
  | none => live

def Ascending (cps : List Checkpoint) : Prop := cps.Pairwise (·.id < ·.id)

variable {l l' : Ledger} {shares : Balances} {h sender source target adapter : Address} {id value i : Nat}
  {cps : List Checkpoint} {d : Deployment} {b b' : ShareBook} {reply : Reply Nat} {block : Block} {c : BookCall}

theorem Ledger.balanceAt_eq (hasc : Ascending (l.checkpoints h)) (h0 : id ≠ 0) (hle : id ≤ l.exclusionCount) :
    l.balanceAt shares h id = snapshotBalance (l.checkpoints h) (shares h) id := by
  have hmono : (l.checkpoints h).Pairwise fun x y => decide (y.id < id) = true → decide (x.id < id) = true := by
    refine hasc.imp ?_
    intro x y hxy hy
    simp only [decide_eq_true_eq] at hy ⊢
    omega
  have hfind : (l.checkpoints h).find? (fun c => !decide (c.id < id)) =
      (l.checkpoints h).find? (fun c => id ≤ c.id) := by
    congr 1
    funext c
    by_cases hc : c.id < id
    · simp [hc]
    · simp [hc, Nat.le_of_not_lt hc]
  unfold balanceAt snapshotBalance
  rw [if_neg (by omega)]
  dsimp only
  rw [getElem?_lowerBound hmono, hfind]
  cases (l.checkpoints h).find? (fun c => id ≤ c.id) <;> rfl

private theorem snapshotBalance_append {live current id : Nat} (h : id ≤ current) :
    snapshotBalance (cps ++ [⟨current, live⟩]) live id = snapshotBalance cps live id := by
  unfold snapshotBalance
  rw [find?_append]
  cases cps.find? (fun c => id ≤ c.id) with
  | some c => rfl
  | none => simp [h]

private theorem snapshotBalance_of_covered (h : ∃ c ∈ cps, id ≤ c.id) (live live' : Nat) :
    snapshotBalance cps live id = snapshotBalance cps live' id := by
  unfold snapshotBalance
  cases hf : cps.find? (fun c => id ≤ c.id) with
  | some c => rfl
  | none =>
    obtain ⟨c, hc, hid⟩ := h
    simpa [hid] using find?_eq_none.1 hf c hc

theorem snapshotBalance_of_older (h : ∀ c ∈ cps, c.id < id) (live : Nat) : snapshotBalance cps live id = live := by
  unfold snapshotBalance
  rw [find?_eq_none.2]
  intro c hc
  have := h c hc
  simp only [decide_eq_true_eq]
  omega

/-- The checkpoints of the ledger are in order, none is newer than the current snapshot, and the zero account has
none. -/
structure Ledger.Ordered (l : Ledger) : Prop where
  ascending : ∀ h, Ascending (l.checkpoints h)
  bounded : ∀ h, ∀ c ∈ l.checkpoints h, c.id ≤ l.exclusionCount
  zero : l.checkpoints 0 = []

/-- What `checkpoint` may have done: some accounts got a checkpoint of their live balance under the current snapshot,
and nothing else changed. -/
structure Ledger.Reported (l l' : Ledger) (shares : Balances) : Prop where
  count : l'.exclusionCount = l.exclusionCount
  exclusions : l'.exclusions = l.exclusions
  claimed : l'.claimed = l.claimed
  held : l'.heldUsdc = l.heldUsdc
  checkpoints : ∀ h, l'.checkpoints h = l.checkpoints h ∨
    h ≠ 0 ∧ (∀ c ∈ l.checkpoints h, c.id < l.exclusionCount) ∧
      l'.checkpoints h = l.checkpoints h ++ [⟨l.exclusionCount, shares h⟩]

def Ledger.Covered (l : Ledger) (h : Address) : Prop := ∃ c ∈ l.checkpoints h, l.exclusionCount ≤ c.id

private theorem Ledger.Reported.refl (l : Ledger) (shares : Balances) : l.Reported l shares :=
  ⟨rfl, rfl, rfl, rfl, fun _ => .inl rfl⟩

private theorem Ledger.Reported.trans {l l' l'' : Ledger} (h₁ : l.Reported l' shares) (h₂ : l'.Reported l'' shares) :
    l.Reported l'' shares where
  count := h₂.count.trans h₁.count
  exclusions := h₂.exclusions.trans h₁.exclusions
  claimed := h₂.claimed.trans h₁.claimed
  held := h₂.held.trans h₁.held
  checkpoints := by
    intro h
    rcases h₁.checkpoints h with e₁ | ⟨hz, hlt, e₁⟩
    · rcases h₂.checkpoints h with e₂ | ⟨hz, hlt, e₂⟩
      · exact .inl (e₂.trans e₁)
      rw [e₁, h₁.count] at hlt
      rw [e₁, h₁.count] at e₂
      exact .inr ⟨hz, hlt, e₂⟩
    rcases h₂.checkpoints h with e₂ | ⟨-, hlt', -⟩
    · exact .inr ⟨hz, hlt, e₂.trans e₁⟩
    -- a second checkpoint of the same snapshot is never written
    have := hlt' ⟨l.exclusionCount, shares h⟩ (by rw [e₁]; simp)
    rw [h₁.count] at this
    exact absurd this (lt_irrefl _)

private theorem Ledger.Reported.ordered (hr : l.Reported l' shares) (ho : l.Ordered) : l'.Ordered where
  ascending := by
    intro h
    rcases hr.checkpoints h with e | ⟨-, hlt, e⟩
    · rw [e]; exact ho.ascending h
    rw [e]
    refine pairwise_append.2 ⟨ho.ascending h, pairwise_singleton .., ?_⟩
    intro c hc c' hc'
    rw [mem_singleton.1 hc']
    exact hlt c hc
  bounded := by
    intro h c hc
    rw [hr.count]
    rcases hr.checkpoints h with e | ⟨-, hlt, e⟩
    · rw [e] at hc; exact ho.bounded h c hc
    rw [e, mem_append, mem_singleton] at hc
    rcases hc with hc | rfl
    · exact le_of_lt (hlt c hc)
    · exact le_rfl
  zero := by
    rcases hr.checkpoints 0 with e | ⟨hz, -, -⟩
    · rw [e]; exact ho.zero
    · exact absurd rfl hz

private theorem Ledger.Reported.covered (hr : l.Reported l' shares) (hc : l.Covered h) : l'.Covered h := by
  obtain ⟨c, hc, hle⟩ := hc
  refine ⟨c, ?_, by rw [hr.count]; exact hle⟩
  rcases hr.checkpoints h with e | ⟨-, -, e⟩
  · rw [e]; exact hc
  · rw [e]; exact mem_append_left _ hc

theorem Ledger.Reported.balanceAt_eq (hr : l.Reported l' shares) (ho : l.Ordered) (h0 : id ≠ 0)
    (hle : id ≤ l.exclusionCount) : l'.balanceAt shares h id = l.balanceAt shares h id := by
  rw [Ledger.balanceAt_eq ((hr.ordered ho).ascending h) h0 (by rw [hr.count]; exact hle),
    Ledger.balanceAt_eq (ho.ascending h) h0 hle]
  rcases hr.checkpoints h with e | ⟨-, -, e⟩
  · rw [e]
  · rw [e, snapshotBalance_append hle]

theorem Ledger.Covered.balanceAt_eq (hc : l.Covered h) (ho : l.Ordered) (h0 : id ≠ 0) (hle : id ≤ l.exclusionCount)
    (shares shares' : Balances) : l.balanceAt shares h id = l.balanceAt shares' h id := by
  obtain ⟨c, hmem, hcle⟩ := hc
  rw [Ledger.balanceAt_eq (ho.ascending h) h0 hle, Ledger.balanceAt_eq (ho.ascending h) h0 hle]
  exact snapshotBalance_of_covered ⟨c, hmem, by omega⟩ _ _

private theorem le_getLast_of_ascending {last : Checkpoint} (hasc : Ascending cps) (hlast : cps.getLast? = some last) :
    ∀ c ∈ cps, c.id ≤ last.id := by
  obtain ⟨front, rfl⟩ := getLast?_eq_some_iff.1 hlast
  intro c hc
  rcases mem_append.1 hc with hc | hc
  · exact le_of_lt ((pairwise_append.1 hasc).2.2 c hc last (by simp))
  · rw [mem_singleton.1 hc]

private theorem Ledger.checkpointAccount_spec {a : Address} (ho : l.Ordered) (ha : a ≠ 0)
    (h : l.checkpointAccount shares a l.exclusionCount = .ok l') : l.Reported l' shares ∧ l'.Covered a := by
  unfold checkpointAccount at h
  dsimp only at h
  split at h
  · rename_i hany
    cases h
    cases hlast : (l.checkpoints a).getLast? with
    | none => simp [hlast] at hany
    | some last =>
      rw [hlast] at hany
      exact ⟨.refl l shares, last, mem_of_getLast? hlast, by simpa using hany⟩
  rename_i hany
  simp only [bind_eq_ok, castUint_eq_ok, ok.injEq] at h
  obtain ⟨-, ⟨-, rfl⟩, -, ⟨-, rfl⟩, rfl⟩ := h
  have hlt : ∀ c ∈ l.checkpoints a, c.id < l.exclusionCount := by
    intro c hc
    cases hlast : (l.checkpoints a).getLast? with
    | none => simp [getLast?_eq_none_iff.1 hlast] at hc
    | some last =>
      have h1 := le_getLast_of_ascending (ho.ascending a) hlast c hc
      rw [hlast] at hany
      simp only [Option.any_some, decide_eq_true_eq] at hany
      omega
  refine ⟨⟨rfl, rfl, rfl, rfl, ?_⟩, ⟨l.exclusionCount, shares a⟩, by simp, le_rfl⟩
  intro h
  by_cases hh : h = a
  · subst hh
    exact .inr ⟨ha, hlt, by simp⟩
  · exact .inl (by simp [hh])

private theorem Ledger.checkpoint_spec (ho : l.Ordered) (h : l.checkpoint d sender shares source target = .ok l') :
    l.Reported l' shares ∧ ∀ a, a = source ∨ a = target → a ≠ 0 → l'.Covered a := by
  simp only [checkpoint, bind_eq_ok] at h
  obtain ⟨-, -, m, hm, h⟩ := h
  have hsource : l.Reported m shares ∧ (source ≠ 0 → m.Covered source) := by
    split at hm
    · rename_i hs
      obtain ⟨hr, hc⟩ := checkpointAccount_spec ho hs hm
      exact ⟨hr, fun _ => hc⟩
    rename_i hs
    cases hm
    exact ⟨.refl l shares, fun h => absurd h hs⟩
  have htarget : m.Reported l' shares ∧ (target ≠ 0 → l'.Covered target) := by
    split at h
    · rename_i ht
      rw [← hsource.1.count] at h
      obtain ⟨hr, hc⟩ := checkpointAccount_spec (hsource.1.ordered ho) ht h
      exact ⟨hr, fun _ => hc⟩
    rename_i ht
    cases h
    exact ⟨.refl _ shares, fun h => absurd h ht⟩
  refine ⟨hsource.1.trans htarget.1, ?_⟩
  rintro a (rfl | rfl) ha
  · exact htarget.1.covered (hsource.2 ha)
  · exact htarget.2 ha

/-- What `ERC20._update` does: only the balances of the two accounts change, the zero account holds nothing before
and after, and the supply stays the sum of the balances. -/
structure ShareBook.Moved (b b' : ShareBook) (source target : Address) : Prop where
  ledger : b'.ledger = b.ledger
  snapshots : b'.snapshots = b.snapshots
  usdc : b'.usdc = b.usdc
  others : ∀ h, h = 0 ∨ h ≠ source ∧ h ≠ target → b'.shares h = b.shares h
  supply : ∑ h, b.shares h = b.totalSupply → ∑ h, b'.shares h = b'.totalSupply

private theorem debit_spec (h : b.debit source value = .ok b') :
    b'.ledger = b.ledger ∧ b'.snapshots = b.snapshots ∧ b'.usdc = b.usdc ∧
      (∀ a, a = 0 ∨ a ≠ source → b'.shares a = b.shares a) ∧
      (∑ a, b.shares a = b.totalSupply → ∑ a, b'.shares a + value = b'.totalSupply) := by
  unfold ShareBook.debit at h
  split at h
  · simp only [bind_eq_ok, add_eq_ok, ok.injEq] at h
    obtain ⟨-, ⟨-, rfl⟩, rfl⟩ := h
    refine ⟨rfl, rfl, rfl, fun _ _ => rfl, ?_⟩
    intro hsum
    simp only
    omega
  rename_i hs
  simp only [bind_eq_ok, revertIf_eq_ok, ok.injEq] at h
  obtain ⟨-, hle, rfl⟩ := h
  refine ⟨rfl, rfl, rfl, ?_, ?_⟩
  · rintro a (rfl | ha)
    · simp [Ne.symm hs]
    · simp [ha]
  · intro hsum
    have := sum_update_add b.shares source (b.shares source - value)
    simp only
    omega

theorem ShareBook.erc20Update_spec (h : b.erc20Update source target value = .ok b') : b.Moved b' source target := by
  simp only [erc20Update, bind_eq_ok] at h
  obtain ⟨m, hm, h⟩ := h
  obtain ⟨h1, h2, h3, h4, h5⟩ := debit_spec hm
  split at h
  · cases h
    refine ⟨h1, h2, h3, fun a ha => h4 a (ha.imp id And.left), ?_⟩
    intro hsum
    have := h5 hsum
    simp only
    omega
  rename_i ht
  cases h
  refine ⟨h1, h2, h3, ?_, ?_⟩
  · rintro a (rfl | ⟨ha, ha'⟩)
    · simp [Ne.symm ht, h4]
    · simp [ha', h4 a (.inr ha)]
  · intro hsum
    have h6 := h5 hsum
    have h7 := sum_update_add m.shares target (m.shares target + value)
    simp only
    omega

structure ShareBook.WellFormed (b : ShareBook) : Prop where
  ordered : b.ledger.Ordered
  zeroShares : b.shares 0 = 0
  supply : ∑ h, b.shares h = b.totalSupply
  unopened : ∀ id, id = 0 ∨ b.ledger.exclusionCount < id → b.ledger.exclusions id = .zero

theorem ShareBook.wellFormed_init (usdc : Balances) : (init usdc).WellFormed where
  ordered := ⟨fun _ => List.Pairwise.nil, fun _ _ h => absurd h (by simp [ShareBook.init, Ledger.init]), rfl⟩
  zeroShares := rfl
  supply := by simp [ShareBook.init]
  unopened := fun _ _ => rfl

theorem ShareBook.update_spec (hw : b.WellFormed) (h : b.update d source target value = .ok b') :
    ∃ l, b.ledger.Reported l b.shares ∧ { b with ledger := l }.Moved b' source target ∧
      (b.snapshots = true → ∀ a, a = source ∨ a = target → a ≠ 0 → l.Covered a) := by
  simp only [ShareBook.update, bind_eq_ok] at h
  obtain ⟨l, hl, h⟩ := h
  refine ⟨l, ?_⟩
  split at hl
  · obtain ⟨hr, hc⟩ := checkpoint_spec hw.ordered hl
    exact ⟨hr, erc20Update_spec h, fun _ => hc⟩
  rename_i hs
  cases hl
  exact ⟨.refl _ _, erc20Update_spec h, fun hs' => absurd hs' hs⟩

theorem ShareBook.update_wellFormed (hw : b.WellFormed) (h : b.update d source target value = .ok b') :
    b'.WellFormed := by
  obtain ⟨l, hr, hm, -⟩ := update_spec hw h
  exact {
    ordered := hm.ledger ▸ hr.ordered hw.ordered
    zeroShares := (hm.others 0 (.inl rfl)).trans hw.zeroShares
    supply := hm.supply hw.supply
    unopened := by
      intro id hid
      rw [hm.ledger] at hid ⊢
      rw [hr.count] at hid
      rw [hr.exclusions]
      exact hw.unopened id hid }

theorem ShareBook.update_balanceAt (hw : b.WellFormed) (h : b.update d source target value = .ok b')
    (hs : b.ledger.exclusionCount ≠ 0 → b.snapshots = true) (h0 : id ≠ 0) (hle : id ≤ b.ledger.exclusionCount)
    (a : Address) : b'.balanceAt a id = b.balanceAt a id := by
  obtain ⟨l, hr, hm, hc⟩ := update_spec hw h
  have hs' : b.snapshots = true := hs (by omega)
  have hreport : l.balanceAt b.shares a id = b.balanceAt a id := hr.balanceAt_eq hw.ordered h0 hle
  rw [← hreport]
  unfold balanceAt
  rw [hm.ledger]
  by_cases hmoved : (a = source ∨ a = target) ∧ a ≠ 0
  · exact (hc hs' a hmoved.1 hmoved.2).balanceAt_eq (hr.ordered hw.ordered) h0 (by rw [hr.count]; exact hle) _ _
  -- an account that does not move is read through its live balance, which stays
  have hsame : b'.shares a = b.shares a := hm.others a (by tauto)
  rw [balanceAt_eq ((hr.ordered hw.ordered).ascending a) h0 (by rw [hr.count]; exact hle),
    balanceAt_eq ((hr.ordered hw.ordered).ascending a) h0 (by rw [hr.count]; exact hle), hsame]

/-- The ledger calls that touch no snapshot: money is booked on records, the records and the checkpoints stay. -/
structure Ledger.Booked (l l' : Ledger) : Prop where
  count : l'.exclusionCount = l.exclusionCount
  checkpoints : l'.checkpoints = l.checkpoints
  supplies : ∀ id, (l'.exclusions id).snapshotSupply = (l.exclusions id).snapshotSupply
  unopened : ∀ id, l.exclusions id = .zero → id = 0 ∨ l.exclusionCount < id → l'.exclusions id = .zero

private theorem Ledger.Booked.refl (l : Ledger) : l.Booked l := ⟨rfl, rfl, fun _ => rfl, fun _ h _ => h⟩

private theorem Ledger.Booked.trans {l l' l'' : Ledger} (h₁ : l.Booked l') (h₂ : l'.Booked l'') : l.Booked l'' where
  count := h₂.count.trans h₁.count
  checkpoints := h₂.checkpoints.trans h₁.checkpoints
  supplies := fun id => (h₂.supplies id).trans (h₁.supplies id)
  unopened := fun id hz hid => h₂.unopened id (h₁.unopened id hz hid) (by rw [h₁.count]; exact hid)

private theorem booked_update {e : Exclusion} (hcount : l'.exclusionCount = l.exclusionCount)
    (hcps : l'.checkpoints = l.checkpoints) (he : l'.exclusions = Function.update l.exclusions id e)
    (hs : e.snapshotSupply = (l.exclusions id).snapshotSupply)
    (hopen : ¬ (l.exclusions id = .zero ∧ (id = 0 ∨ l.exclusionCount < id))) : l.Booked l' where
  count := hcount
  checkpoints := hcps
  supplies := by
    intro id'
    rw [he]
    by_cases h : id' = id
    · subst h; simpa using hs
    · simp [h]
  unopened := by
    intro id' hz hid
    rw [he]
    have h : id' ≠ id := by
      rintro rfl
      exact hopen ⟨hz, hid⟩
    simp [h, hz]

theorem Ledger.credit_booked {id amount : Nat} (h : l.credit d sender id amount = .ok l') : l.Booked l' := by
  simp only [Ledger.credit, bind_eq_ok, revertIf_eq_ok, add_eq_ok, ok.injEq] at h
  obtain ⟨-, -, -, hopen, -, ⟨-, rfl⟩, -, -, rfl⟩ := h
  unfold Ledger.NotOpen at hopen
  exact booked_update rfl rfl rfl rfl (by tauto)

theorem Ledger.finalize_booked (h : l.finalize d sender id = .ok l') : l.Booked l' := by
  simp only [finalize, bind_eq_ok, revertIf_eq_ok, ok.injEq] at h
  obtain ⟨-, -, -, hopen, rfl⟩ := h
  unfold Ledger.NotOpen at hopen
  exact booked_update rfl rfl rfl rfl (by tauto)

theorem Ledger.claim_booked {shares usdc usdc' : Balances} {id amount : Nat} {holder : Address}
    (h : l.claim d shares usdc id holder = .ok (amount, l', usdc')) : l.Booked l' := by
  simp only [Ledger.claim, bind_eq_ok] at h
  obtain ⟨a, ha, h⟩ := h
  split at h
  · cases h
    exact .refl l
  rename_i hne
  simp only [bind_eq_ok, ok.injEq, Prod.mk.injEq] at h
  obtain ⟨-, -, -, -, -, -, -, -, -, rfl, -⟩ := h
  refine booked_update rfl rfl rfl rfl ?_
  -- a record never opened owes nothing
  rintro ⟨hz, -⟩
  simp only [claimable, hz, Exclusion.zero, if_true, ok.injEq] at ha
  exact hne ha.symm

private theorem Ledger.claimAll_booked {shares usdc usdc' : Balances} {total : Nat} {holder : Address}
    (h : l.claimAll d shares usdc holder = .ok (total, l', usdc')) : l.Booked l' := by
  refine foldlM_invariant (P := fun x : Nat × Ledger × Balances => l.Booked x.2.1) ?_ (.refl l) h
  intro x id x' _ hx hstep
  simp only [claimNext, bind_eq_ok, ok.injEq] at hstep
  obtain ⟨⟨amount, m, usdc⟩, hclaim, -, -, -, -, rfl⟩ := hstep
  exact hx.trans (claim_booked hclaim)

/-- The share book calls that touch no snapshot. -/
structure ShareBook.Booked (b b' : ShareBook) : Prop where
  ledger : b.ledger.Booked b'.ledger
  shares : b'.shares = b.shares
  totalSupply : b'.totalSupply = b.totalSupply

open ShareBook

theorem ShareBook.Booked.wellFormed (hb : b.Booked b') (hw : b.WellFormed) : b'.WellFormed where
  ordered := by
    obtain ⟨h1, h2, h3⟩ := hw.ordered
    exact ⟨fun h => by rw [hb.ledger.checkpoints]; exact h1 h,
      fun h => by rw [hb.ledger.checkpoints, hb.ledger.count]; exact h2 h, by rw [hb.ledger.checkpoints]; exact h3⟩
  zeroShares := by rw [hb.shares]; exact hw.zeroShares
  supply := by rw [hb.shares, hb.totalSupply]; exact hw.supply
  unopened := by
    intro id hid
    rw [hb.ledger.count] at hid
    exact hb.ledger.unopened id (hw.unopened id hid) hid

theorem ShareBook.Booked.balanceAt (hb : b.Booked b') (a : Address) (id : Nat) :
    b'.balanceAt a id = b.balanceAt a id := by
  unfold ShareBook.balanceAt Ledger.balanceAt
  rw [hb.ledger.count, hb.ledger.checkpoints, hb.shares]

theorem ShareBook.openRecord_spec (h : b.openRecord d i adapter reply block = .ok (id, b')) :
    id = b.ledger.exclusionCount + 1 ∧ id < wordSize ∧ b'.ledger.exclusionCount = id ∧
      ∃ e, e.adapterIndex = i ∧ e.adapter = adapter ∧ e.finalized = false ∧ e.snapshotSupply = b.totalSupply ∧
        e.recoveredUsdc = 0 ∧ e.claimedUsdc = 0 ∧
        b' = { b with ledger := { b.ledger with
          exclusionCount := id, exclusions := Function.update b.ledger.exclusions id e } } := by
  simp only [openRecord, Ledger.openRecord, bind_eq_ok, add_eq_ok, ok.injEq, Prod.mk.injEq] at h
  obtain ⟨⟨id', l⟩, ⟨-, -, r, -, -, ⟨hlt, rfl⟩, ob, -, oa, -, rfl, rfl⟩, rfl, rfl⟩ := h
  exact ⟨rfl, hlt, rfl, _, rfl, rfl, rfl, rfl, rfl, rfl, rfl⟩

theorem ShareBook.openRecord_wellFormed (hw : b.WellFormed) (h : b.openRecord d i adapter reply block = .ok (id, b')) :
    b'.WellFormed := by
  obtain ⟨rfl, -, -, e, -, -, -, -, -, -, rfl⟩ := openRecord_spec h
  refine ⟨⟨hw.ordered.ascending, ?_, hw.ordered.zero⟩, hw.zeroShares, hw.supply, ?_⟩
  · intro h c hc
    exact Nat.le_succ_of_le (hw.ordered.bounded h c hc)
  · intro id hid
    dsimp only at hid ⊢
    rw [Function.update_of_ne (by omega)]
    exact hw.unopened id (by omega)

theorem ShareBook.balanceAt_next (hw : b.WellFormed) (exclusions : Nat → Exclusion) (a : Address) :
    { b with ledger := { b.ledger with exclusionCount := b.ledger.exclusionCount + 1, exclusions } }.balanceAt a
        (b.ledger.exclusionCount + 1) = b.shares a ∧
      ∀ id, id ≠ 0 → id ≤ b.ledger.exclusionCount →
        { b with
          ledger := { b.ledger with exclusionCount := b.ledger.exclusionCount + 1, exclusions } }.balanceAt a id =
          b.balanceAt a id := by
  unfold balanceAt
  constructor
  · rw [balanceAt_eq (by exact hw.ordered.ascending a) (by omega) (by exact le_rfl)]
    refine snapshotBalance_of_older ?_ _
    intro c hc
    exact Nat.lt_succ_of_le (hw.ordered.bounded a c hc)
  · intro id h0 hle
    rw [balanceAt_eq (by exact hw.ordered.ascending a) h0 (by exact Nat.le_succ_of_le hle),
      balanceAt_eq (hw.ordered.ascending a) h0 hle]

theorem ShareBook.openRecord_balanceAt (hw : b.WellFormed) (h : b.openRecord d i adapter reply block = .ok (id, b'))
    (a : Address) : b'.balanceAt a id = b.shares a ∧
      ∀ id', id' ≠ 0 → id' ≤ b.ledger.exclusionCount → b'.balanceAt a id' = b.balanceAt a id' := by
  obtain ⟨rfl, -, -, e, -, -, -, -, -, -, rfl⟩ := openRecord_spec h
  exact balanceAt_next hw _ a

/-- What a call of the share book can do. -/
theorem bookStep_cases (h : bookStep d b c = .ok b') :
    (c.MovesShares ∧ ∃ source target value, b.update d source target value = .ok b') ∨
    (∃ i adapter reply block id, c = .openRecord i adapter reply block ∧
      b.openRecord d i adapter reply block = .ok (id, b')) ∨
    (∃ source target, b.checkpoint d source target = .ok b') ∨ b.Booked b' := by
  cases c with
  | mint account value | burn account value =>
    simp only [bookStep, mint, burn, bind_eq_ok] at h
    obtain ⟨-, -, h⟩ := h
    exact .inl ⟨trivial, _, _, _, h⟩
  | transferShares source target value =>
    simp only [bookStep, transferShares, bind_eq_ok] at h
    obtain ⟨-, -, -, -, h⟩ := h
    exact .inl ⟨trivial, _, _, _, h⟩
  | openRecord i adapter reply block =>
    simp only [bookStep, bind_eq_ok, ok.injEq] at h
    obtain ⟨⟨id, x⟩, h, rfl⟩ := h
    exact .inr (.inl ⟨i, adapter, reply, block, id, rfl, h⟩)
  | markExclusionOpened | issueUsdc account value =>
    simp only [bookStep, markExclusionOpened, if_true, ok.injEq] at h
    subst h
    exact .inr (.inr (.inr ⟨.refl _, rfl, rfl⟩))
  | credit id amount =>
    simp only [bookStep, ShareBook.credit, bind_eq_ok, ok.injEq] at h
    obtain ⟨u, -, l, hl, rfl⟩ := h
    exact .inr (.inr (.inr ⟨Ledger.credit_booked hl, rfl, rfl⟩))
  | finalize id =>
    simp only [bookStep, ShareBook.finalize, bind_eq_ok, ok.injEq] at h
    obtain ⟨l, hl, rfl⟩ := h
    exact .inr (.inr (.inr ⟨Ledger.finalize_booked hl, rfl, rfl⟩))
  | checkpoint source target => exact .inr (.inr (.inl ⟨source, target, h⟩))
  | claim id holder =>
    simp only [bookStep, ShareBook.claim, bind_eq_ok, ok.injEq] at h
    obtain ⟨x, ⟨⟨amount, l, u⟩, hl, rfl⟩, rfl⟩ := h
    exact .inr (.inr (.inr ⟨Ledger.claim_booked hl, rfl, rfl⟩))
  | claimAll holder =>
    simp only [bookStep, ShareBook.claimAll, bind_eq_ok, ok.injEq] at h
    obtain ⟨x, ⟨⟨total, l, u⟩, hl, rfl⟩, rfl⟩ := h
    exact .inr (.inr (.inr ⟨Ledger.claimAll_booked hl, rfl, rfl⟩))
  | returnSurplus =>
    simp only [bookStep, ShareBook.returnSurplus, bind_eq_ok, ok.injEq] at h
    obtain ⟨x, ⟨⟨amount, u⟩, -, rfl⟩, rfl⟩ := h
    exact .inr (.inr (.inr ⟨.refl _, rfl, rfl⟩))
  | moveUsdc source target value =>
    simp only [bookStep, bind_eq_ok, ok.injEq] at h
    obtain ⟨-, -, u, -, rfl⟩ := h
    exact .inr (.inr (.inr ⟨.refl _, rfl, rfl⟩))

theorem ShareBook.checkpoint_spec (hw : b.WellFormed) (h : b.checkpoint d source target = .ok b') :
    ∃ l, b.ledger.Reported l b.shares ∧ b' = { b with ledger := l } := by
  simp only [checkpoint, bind_eq_ok, ok.injEq] at h
  obtain ⟨l, hl, rfl⟩ := h
  exact ⟨l, (checkpoint_spec hw.ordered hl).1, rfl⟩

theorem ShareBook.wellFormed_step (hw : b.WellFormed) (h : bookStep d b c = .ok b') : b'.WellFormed := by
  rcases bookStep_cases h with ⟨-, s, t, v, hu⟩ | ⟨i, a, r, blk, id, -, ho⟩ | ⟨s, t, hc⟩ | hb
  · exact update_wellFormed hw hu
  · exact openRecord_wellFormed hw ho
  · obtain ⟨l, hr, rfl⟩ := checkpoint_spec hw hc
    refine ⟨hr.ordered hw.ordered, hw.zeroShares, hw.supply, ?_⟩
    intro id hid
    dsimp only at hid ⊢
    rw [hr.count] at hid
    rw [hr.exclusions]
    exact hw.unopened id hid
  · exact hb.wellFormed hw

theorem ShareBook.balanceAt_step (hw : b.WellFormed) (hs : SwitchOn b c) (h : bookStep d b c = .ok b') (h0 : id ≠ 0)
    (hle : id ≤ b.ledger.exclusionCount) (a : Address) : b'.balanceAt a id = b.balanceAt a id := by
  rcases bookStep_cases h with ⟨hm, s, t, v, hu⟩ | ⟨i, x, r, blk, id', -, ho⟩ | ⟨s, t, hc⟩ | hb
  · exact update_balanceAt hw hu (hs hm) h0 hle a
  · exact (openRecord_balanceAt hw ho a).2 id h0 hle
  · obtain ⟨l, hr, rfl⟩ := checkpoint_spec hw hc
    exact hr.balanceAt_eq hw.ordered h0 hle
  · exact hb.balanceAt a id

private theorem ShareBook.records_step (hw : b.WellFormed) (h : bookStep d b c = .ok b') :
    (b'.ledger.exclusionCount = b.ledger.exclusionCount ∨
      b'.ledger.exclusionCount = b.ledger.exclusionCount + 1 ∧ ∃ i adapter reply block,
        c = .openRecord i adapter reply block ∧
          b.openRecord d i adapter reply block = .ok (b'.ledger.exclusionCount, b')) ∧
      ∀ id, id ≤ b.ledger.exclusionCount →
        (b'.ledger.exclusions id).snapshotSupply = (b.ledger.exclusions id).snapshotSupply := by
  rcases bookStep_cases h with ⟨-, s, t, v, hu⟩ | ⟨i, x, r, blk, id, rfl, ho⟩ | ⟨s, t, hc⟩ | hb
  · obtain ⟨l, hr, hm, -⟩ := update_spec hw hu
    rw [hm.ledger]
    exact ⟨.inl hr.count, fun id _ => by rw [hr.exclusions]⟩
  · have hspec := openRecord_spec ho
    obtain ⟨hid, -, hcount, e, -, -, -, -, -, -, hb'⟩ := hspec
    refine ⟨.inr ⟨by omega, i, x, r, blk, rfl, by rw [hcount]; exact ho⟩, ?_⟩
    intro id' hle
    have hne : id' ≠ id := by omega
    rw [hb']
    simp [hne]
  · obtain ⟨l, hr, rfl⟩ := checkpoint_spec hw hc
    exact ⟨.inl hr.count, fun id _ => by rw [hr.exclusions]⟩
  · exact ⟨.inl hb.ledger.count, fun id _ => hb.ledger.supplies id⟩

private theorem ShareBook.wellFormed_run (d : Deployment) (usdc : Balances) (cs : List BookCall) :
    (run (bookStep d) (.init usdc) cs).WellFormed :=
  run_invariant (fun _ _ _ hw h => wellFormed_step hw h) (wellFormed_init usdc) cs

theorem ShareBook.snapshots_run (hw : b.WellFormed) {cs : List BookCall} (hcs : Along (bookStep d) SwitchOn b cs)
    (h0 : id ≠ 0) (hle : id ≤ b.ledger.exclusionCount) :
    (∀ a, (run (bookStep d) b cs).balanceAt a id = b.balanceAt a id) ∧
      ((run (bookStep d) b cs).ledger.exclusions id).snapshotSupply = (b.ledger.exclusions id).snapshotSupply ∧
      id ≤ (run (bookStep d) b cs).ledger.exclusionCount := by
  have hinv : ∀ s c s', (s.WellFormed ∧ (∀ a, s.balanceAt a id = b.balanceAt a id) ∧
      (s.ledger.exclusions id).snapshotSupply = (b.ledger.exclusions id).snapshotSupply ∧
      id ≤ s.ledger.exclusionCount) → SwitchOn s c → bookStep d s c = .ok s' →
      (s'.WellFormed ∧ (∀ a, s'.balanceAt a id = b.balanceAt a id) ∧
        (s'.ledger.exclusions id).snapshotSupply = (b.ledger.exclusions id).snapshotSupply ∧
        id ≤ s'.ledger.exclusionCount) := by
    rintro s c s' ⟨hs, hbal, hsup, hid⟩ hon hstep
    obtain ⟨hcount, hsup'⟩ := records_step hs hstep
    refine ⟨wellFormed_step hs hstep, ?_, ?_, by omega⟩
    · intro a
      rw [balanceAt_step hs hon hstep h0 hid a]
      exact hbal a
    · rw [hsup' id hid]
      exact hsup
  exact (Along.invariant hinv ⟨hw, fun _ => rfl, rfl, hle⟩ hcs).2

/-- The call opens record `id`. -/
def Opens (d : Deployment) (b : ShareBook) (c : BookCall) (id : Nat) : Prop :=
  ∃ i adapter reply block b', c = .openRecord i adapter reply block ∧
    b.openRecord d i adapter reply block = .ok (id, b')

private theorem Opens.step (h : Opens d b c id) (hw : b.WellFormed) :
    id ≠ 0 ∧ (exec (bookStep d) b c).WellFormed ∧ (exec (bookStep d) b c).ledger.exclusionCount = id ∧
      (∀ a, (exec (bookStep d) b c).balanceAt a id = b.shares a) ∧
      ((exec (bookStep d) b c).ledger.exclusions id).snapshotSupply = b.totalSupply := by
  obtain ⟨i, adapter, reply, block, b', rfl, ho⟩ := h
  have hstep : bookStep d b (.openRecord i adapter reply block) = .ok b' := by simp [bookStep, ho]
  rw [exec_of_ok hstep]
  obtain ⟨hid, -, hcount, e, -, -, -, hsup, -, -, hb'⟩ := openRecord_spec ho
  refine ⟨by omega, openRecord_wellFormed hw ho, hcount, fun a => (openRecord_balanceAt hw ho a).1, ?_⟩
  rw [hb']
  simpa using hsup

private theorem exists_opening (d : Deployment) (usdc : Balances) (cs : List BookCall) (h0 : id ≠ 0)
    (hle : id ≤ (run (bookStep d) (.init usdc) cs).ledger.exclusionCount) :
    ∃ before c after, cs = before ++ c :: after ∧ Opens d (run (bookStep d) (.init usdc) before) c id := by
  induction cs using reverseRecOn with
  | nil =>
    simp only [run_nil, ShareBook.init, Ledger.init] at hle
    omega
  | append_singleton cs c ih =>
    rw [run_append, run_cons, run_nil] at hle
    have hw := wellFormed_run d usdc cs
    have hold : id ≤ (run (bookStep d) (.init usdc) cs).ledger.exclusionCount →
        ∃ before c' after, cs ++ [c] = before ++ c' :: after ∧
          Opens d (run (bookStep d) (.init usdc) before) c' id := by
      intro h
      obtain ⟨before, c', after, rfl, hop⟩ := ih h
      exact ⟨before, c', after ++ [c], by simp, hop⟩
    cases hstep : bookStep d (run (bookStep d) (.init usdc) cs) c with
    | error e =>
      rw [exec_of_error hstep] at hle
      exact hold hle
    | ok b' =>
      rw [exec_of_ok hstep] at hle
      rcases (records_step hw hstep).1 with hcount | ⟨hcount, i, adapter, reply, block, rfl, ho⟩
      · exact hold (by omega)
      rcases lt_or_ge id b'.ledger.exclusionCount with hlt | hge
      · exact hold (by omega)
      have hid : id = b'.ledger.exclusionCount := by omega
      subst hid
      exact ⟨cs, _, [], rfl, i, adapter, reply, block, b', rfl, ho⟩

/-- In every run that keeps the switch, `balanceAt h id` read at the end is the share balance of `h` when record `id`
was opened, every record was opened somewhere in the run, and the snapshot balances of all accounts add up to the
supply of the record. -/
theorem balanceAt_eq_balance_at_opening (d : Deployment) (usdc : Balances) (cs : List BookCall)
    (hcs : Along (bookStep d) SwitchOn (.init usdc) cs) (id : Nat) :
    (∀ before c after, cs = before ++ c :: after → Opens d (run (bookStep d) (.init usdc) before) c id →
      ∀ h, (run (bookStep d) (.init usdc) cs).balanceAt h id = (run (bookStep d) (.init usdc) before).shares h) ∧
    (id ≠ 0 → id ≤ (run (bookStep d) (.init usdc) cs).ledger.exclusionCount →
      (∃ before c after, cs = before ++ c :: after ∧ Opens d (run (bookStep d) (.init usdc) before) c id) ∧
      ∑ h, (run (bookStep d) (.init usdc) cs).balanceAt h id =
        ((run (bookStep d) (.init usdc) cs).ledger.exclusions id).snapshotSupply) := by
  have hopening : ∀ before c after, cs = before ++ c :: after →
      Opens d (run (bookStep d) (.init usdc) before) c id →
      (∀ h, (run (bookStep d) (.init usdc) cs).balanceAt h id = (run (bookStep d) (.init usdc) before).shares h) ∧
      ((run (bookStep d) (.init usdc) cs).ledger.exclusions id).snapshotSupply =
        (run (bookStep d) (.init usdc) before).totalSupply := by
    rintro before c after rfl hop
    have hw := wellFormed_run d usdc before
    obtain ⟨h0, hw', hcount, hbal, hsup⟩ := hop.step hw
    rw [along_append] at hcs
    obtain ⟨hbal', hsup', -⟩ := snapshots_run hw' hcs.2.2 h0 (le_of_eq hcount.symm)
    rw [run_append, run_cons]
    exact ⟨fun h => (hbal' h).trans (hbal h), hsup'.trans hsup⟩
  refine ⟨fun before c after hcs' hop => (hopening before c after hcs' hop).1, ?_⟩
  intro h0 hle
  obtain ⟨before, c, after, hcs', hop⟩ := exists_opening d usdc cs h0 hle
  obtain ⟨hbal, hsup⟩ := hopening before c after hcs' hop
  refine ⟨⟨before, c, after, hcs', hop⟩, ?_⟩
  calc ∑ h, (run (bookStep d) (.init usdc) cs).balanceAt h id
      = ∑ h, (run (bookStep d) (.init usdc) before).shares h := Finset.sum_congr rfl fun h _ => hbal h
    _ = (run (bookStep d) (.init usdc) before).totalSupply := (wellFormed_run d usdc before).supply
    _ = _ := hsup.symm

/-- Two records opened between two movements, then a transfer to oneself, to another account and back, and a burn. -/
def twoRecords : List BookCall :=
  [.mint 5 100, .openRecord 0 9 (.returned 4) .sample,
    .openRecord 1 10 .reverted .sample, .markExclusionOpened, .transferShares 5 5 100,
    .transferShares 5 6 30, .transferShares 6 5 1, .burn 5 71]

private theorem twoRecords_switchOn : Along (bookStep .sample) SwitchOn (.init fun _ => 0) twoRecords := by
  refine ⟨fun _ h => absurd rfl h, fun h => h.elim, fun h => h.elim, fun h => h.elim, fun _ _ => ?_, fun _ _ => ?_,
    fun _ _ => ?_, fun _ _ => ?_, trivial⟩
  all_goals rfl

theorem balanceAt_twoRecords :
    (run (bookStep .sample) (.init fun _ => 0) twoRecords).balanceAt 5 1 = 100 ∧
    (run (bookStep .sample) (.init fun _ => 0) twoRecords).balanceAt 6 2 = 0 ∧
    ∑ h, (run (bookStep .sample) (.init fun _ => 0) twoRecords).balanceAt h 2 = 100 := by
  have h1 := balanceAt_eq_balance_at_opening .sample (fun _ => 0) twoRecords twoRecords_switchOn 1
  have h2 := balanceAt_eq_balance_at_opening .sample (fun _ => 0) twoRecords twoRecords_switchOn 2
  refine ⟨?_, ?_, ?_⟩
  · exact h1.1 (twoRecords.take 1) _ _ rfl ⟨_, _, _, _, _, rfl, rfl⟩ 5
  · exact h2.1 (twoRecords.take 2) _ _ rfl ⟨_, _, _, _, _, rfl, rfl⟩ 6
  · exact (h2.2 (by decide) (by decide)).2

end RobotMoney
