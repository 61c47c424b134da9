import RobotMoney.Ledger.Snapshots
import RobotMoney.Vault.Legs

/-!
# What leaves the registry alone

Most of what the vault does moves money and calls adapters: the registry entries, the open records and the parameters
stay (`Steady`, `Moved`), whatever the callees do to the share book while they run.
-/

namespace RobotMoney

open Evm Except Prod

/-- The ledger has the same records, for the same entries, open or closed as before. -/
structure Ledger.SameRecords (l l' : Ledger) : Prop where
  count : l'.exclusionCount = l.exclusionCount
  record : ∀ id, (l'.exclusions id).finalized = (l.exclusions id).finalized ∧
    (l'.exclusions id).adapterIndex = (l.exclusions id).adapterIndex ∧
    (l'.exclusions id).adapter = (l.exclusions id).adapter

private theorem Ledger.SameRecords.refl (l : Ledger) : l.SameRecords l := ⟨rfl, fun _ => ⟨rfl, rfl, rfl⟩⟩

private theorem Ledger.SameRecords.trans {l l' l'' : Ledger} (h₁ : l.SameRecords l') (h₂ : l'.SameRecords l'') :
    l.SameRecords l'' where
  count := h₂.count.trans h₁.count
  record := fun id => ⟨(h₂.record id).1.trans (h₁.record id).1, (h₂.record id).2.1.trans (h₁.record id).2.1,
    (h₂.record id).2.2.trans (h₁.record id).2.2⟩

variable {l l' : Ledger} {id : Nat} {d : Deployment} {shares : Balances} {b b' : ShareBook}

private theorem sameRecords_update {e : Exclusion} (hcount : l'.exclusionCount = l.exclusionCount)
    (he : l'.exclusions = Function.update l.exclusions id e) (hf : e.finalized = (l.exclusions id).finalized)
    (hi : e.adapterIndex = (l.exclusions id).adapterIndex) (ha : e.adapter = (l.exclusions id).adapter) :
    l.SameRecords l' where
  count := hcount
  record := by
    intro id'
    rw [he]
    by_cases h : id' = id
    · subst h; simp [hf, hi, ha]
    · simp [h]

private theorem Ledger.claim_sameRecords {shares usdc usdc' : Balances} {id amount : Nat} {holder : Address}
    (h : l.claim d shares usdc id holder = .ok (amount, l', usdc')) : l.SameRecords l' := by
  simp only [Ledger.claim, bind_eq_ok] at h
  obtain ⟨a, -, h⟩ := h
  split at h
  · cases h
    exact .refl l
  simp only [bind_eq_ok, ok.injEq, Prod.mk.injEq] at h
  obtain ⟨-, -, -, -, -, -, -, -, -, rfl, -⟩ := h
  exact sameRecords_update rfl rfl rfl rfl rfl

private theorem Ledger.checkpointAccount_sameRecords {a : Address} {current : Nat}
    (h : l.checkpointAccount shares a current = .ok l') : l.SameRecords l' := by
  unfold Ledger.checkpointAccount at h
  dsimp only at h
  split at h
  · cases h
    exact .refl l
  simp only [bind_eq_ok, ok.injEq] at h
  obtain ⟨-, -, -, -, rfl⟩ := h
  exact ⟨rfl, fun _ => ⟨rfl, rfl, rfl⟩⟩

variable {sender source target : Address}

theorem Ledger.checkpoint_sameRecords (h : l.checkpoint d sender shares source target = .ok l') : l.SameRecords l' := by
  simp only [Ledger.checkpoint, bind_eq_ok] at h
  obtain ⟨-, -, m, hm, h⟩ := h
  have hsource : l.SameRecords m := by
    split at hm
    · exact Ledger.checkpointAccount_sameRecords hm
    cases hm
    exact .refl _
  refine hsource.trans ?_
  split at h
  · exact Ledger.checkpointAccount_sameRecords h
  cases h
  exact .refl _

/-- The records and the checkpoint switch of the book are as before, the book is still well-formed, and with the switch
on no snapshot balance changed. -/
structure ShareBook.SameRecords (b b' : ShareBook) : Prop where
  ledger : b.ledger.SameRecords b'.ledger
  snapshots : b'.snapshots = b.snapshots
  wellFormed : b.WellFormed → b'.WellFormed
  balanceAt : b.WellFormed → b.snapshots = true → ∀ id, id ≠ 0 → id ≤ b.ledger.exclusionCount →
    ∀ a, b'.balanceAt a id = b.balanceAt a id

theorem ShareBook.SameRecords.refl (b : ShareBook) : b.SameRecords b := ⟨.refl _, rfl, id, fun _ _ _ _ _ _ => rfl⟩

theorem ShareBook.SameRecords.trans {b b' b'' : ShareBook} (h₁ : b.SameRecords b') (h₂ : b'.SameRecords b'') :
    b.SameRecords b'' where
  ledger := h₁.ledger.trans h₂.ledger
  snapshots := h₂.snapshots.trans h₁.snapshots
  wellFormed := h₂.wellFormed ∘ h₁.wellFormed
  balanceAt := by
    intro hw hon id h0 hle a
    rw [h₂.balanceAt (h₁.wellFormed hw) (h₁.snapshots.trans hon) id h0 (by rw [h₁.ledger.count]; exact hle) a]
    exact h₁.balanceAt hw hon id h0 hle a

theorem ShareBook.SameRecords.of_usdc (b : ShareBook) (usdc : Balances) : b.SameRecords { b with usdc := usdc } :=
  ⟨.refl _, rfl, fun h => ⟨h.1, h.2, h.3, h.4⟩, fun _ _ _ _ _ _ => rfl⟩

private theorem ShareBook.SameRecords.of_bookStep {c : BookCall} (hl : b.ledger.SameRecords b'.ledger)
    (hs : b'.snapshots = b.snapshots) (h : bookStep d b c = .ok b') :
    b.SameRecords b' where
  ledger := hl
  snapshots := hs
  wellFormed := fun hw => wellFormed_step hw h
  balanceAt := fun hw hon _ h0 hle a => balanceAt_step hw (fun _ _ => hon) h h0 hle a

theorem ShareBook.update_sameRecords {value : Nat}
    (hu : b.update d source target value = .ok b') : b.SameRecords b' := by
  have h := hu
  simp only [ShareBook.update, bind_eq_ok] at h
  obtain ⟨l, hl, h⟩ := h
  have hmoved := erc20Update_spec h
  refine ⟨?_, hmoved.snapshots, fun hw => update_wellFormed hw hu,
    fun hw hon _ h0 hle a => update_balanceAt hw hu (fun _ => hon) h0 hle a⟩
  rw [hmoved.ledger]
  split at hl
  · exact Ledger.checkpoint_sameRecords hl
  cases hl
  exact .refl _

theorem outsideStep_book {c : OutsideCall} (h : outsideStep d b c = .ok b') : bookStep d b c.toBook = .ok b' := by
  cases c with
  | moveUsdc source target value =>
    simp only [outsideStep, bind_eq_ok] at h
    obtain ⟨-, -, h⟩ := h
    exact h
  | _ => exact h

private theorem outsideStep_sameRecords {c : OutsideCall} (h : outsideStep d b c = .ok b') : b.SameRecords b' := by
  have hstep := outsideStep_book h
  cases c with
  | transferShares source target value =>
    simp only [outsideStep, OutsideCall.toBook, bookStep, ShareBook.transferShares, bind_eq_ok] at h
    obtain ⟨-, -, -, -, h⟩ := h
    exact ShareBook.update_sameRecords h
  | claim id holder =>
    simp only [outsideStep, OutsideCall.toBook, bookStep, ShareBook.claim, bind_eq_ok, ok.injEq] at h
    obtain ⟨x, ⟨⟨amount, l, u⟩, hl, rfl⟩, rfl⟩ := h
    exact .of_bookStep (Ledger.claim_sameRecords hl) rfl hstep
  | claimAll holder =>
    simp only [outsideStep, OutsideCall.toBook, bookStep, ShareBook.claimAll, bind_eq_ok, ok.injEq] at h
    obtain ⟨x, ⟨⟨total, l, u⟩, hl, rfl⟩, rfl⟩ := h
    refine .of_bookStep ?_ rfl hstep
    refine foldlM_invariant (P := fun x : Nat × Ledger × Balances => b.ledger.SameRecords x.2.1) ?_ (.refl _) hl
    intro x id x' _ hx hround
    simp only [Ledger.claimNext, bind_eq_ok, ok.injEq] at hround
    obtain ⟨⟨amount, m, usdc⟩, hclaim, -, -, -, -, rfl⟩ := hround
    exact hx.trans (Ledger.claim_sameRecords hclaim)
  | returnSurplus =>
    simp only [outsideStep, OutsideCall.toBook, bookStep, ShareBook.returnSurplus, bind_eq_ok, ok.injEq] at h
    obtain ⟨x, ⟨y, -, rfl⟩, rfl⟩ := h
    exact .of_bookStep (.refl _) rfl hstep
  | issueUsdc account value =>
    simp only [outsideStep, OutsideCall.toBook, bookStep, ok.injEq] at h
    subst h
    exact .of_bookStep (.refl _) rfl hstep
  | moveUsdc source target value =>
    simp only [outsideStep, OutsideCall.toBook, bookStep, bind_eq_ok, ok.injEq] at h
    obtain ⟨-, -, -, -, u, -, rfl⟩ := h
    exact .of_bookStep (.refl _) rfl hstep

private theorem outsideRun_sameRecords (d : Deployment) (b : ShareBook) (cs : List OutsideCall) :
    b.SameRecords (run (outsideStep d) b cs) :=
  run_invariant (P := fun b' => b.SameRecords b') (fun _ _ _ hs h => hs.trans (outsideStep_sameRecords h))
    (.refl _) cs

theorem ShareBook.credit_sameRecords {id amount : Nat} (h : b.credit d id amount = .ok b') : b.SameRecords b' := by
  have hstep : bookStep d b (.credit id amount) = .ok b' := h
  simp only [ShareBook.credit, Ledger.credit, bind_eq_ok, ok.injEq] at h
  obtain ⟨usdc, -, l, ⟨-, -, -, -, recovered, -, held, -, rfl⟩, rfl⟩ := h
  exact .of_bookStep (sameRecords_update rfl rfl rfl rfl rfl) rfl hstep

namespace Vault

open ShareBook Except

variable {σ : Type} {d : Deployment} {env : Outside σ} {s s' : Vault σ}

/-- The same entries, the same open records, the same ledger records, the same checkpoint switch, and fee parameters
that stay within their bounds. -/
structure SameRegistry (s s' : Vault σ) : Prop where
  adapters : s'.adapters = s.adapters
  openOf : s'.openExclusionOf = s.openExclusionOf
  book : s.book.SameRecords s'.book
  fee : s.exitFeeBps ≤ maxExitFeeBps → s'.exitFeeBps ≤ maxExitFeeBps
  recipient : s.feeRecipient ≠ 0 → s'.feeRecipient ≠ 0

theorem SameRegistry.records (h : s.SameRegistry s') : s.book.ledger.SameRecords s'.book.ledger := h.book.ledger

private theorem SameRegistry.refl (s : Vault σ) : s.SameRegistry s := ⟨rfl, rfl, .refl _, id, id⟩

variable {s'' : Vault σ}

private theorem SameRegistry.trans (h₁ : s.SameRegistry s') (h₂ : s'.SameRegistry s'') : s.SameRegistry s'' :=
  ⟨h₂.adapters.trans h₁.adapters, h₂.openOf.trans h₁.openOf, h₁.book.trans h₂.book, h₂.fee ∘ h₁.fee,
    h₂.recipient ∘ h₁.recipient⟩

/-- Only money, the outside world and the trace moved. -/
structure Steady (s s' : Vault σ) : Prop extends SameRegistry s s' where
  allowed : s'.allowed = s.allowed
  codeHashAllowed : s'.codeHashAllowed = s.codeHashAllowed
  exitFeeBps : s'.exitFeeBps = s.exitFeeBps
  feeRecipient : s'.feeRecipient = s.feeRecipient

theorem Steady.refl (s : Vault σ) : s.Steady s := ⟨.refl s, rfl, rfl, rfl, rfl⟩

theorem Steady.trans (h₁ : s.Steady s') (h₂ : s'.Steady s'') : s.Steady s'' :=
  ⟨h₁.toSameRegistry.trans h₂.toSameRegistry, h₂.allowed.trans h₁.allowed,
    h₂.codeHashAllowed.trans h₁.codeHashAllowed, h₂.exitFeeBps.trans h₁.exitFeeBps,
    h₂.feeRecipient.trans h₁.feeRecipient⟩

/-- The caps, the shutdown flag and the throttle stay as well. -/
structure Moved (s s' : Vault σ) : Prop extends Steady s s' where
  tvlCap : s'.tvlCap = s.tvlCap
  perDepositCap : s'.perDepositCap = s.perDepositCap
  shutdown : s'.shutdown = s.shutdown
  maxRebalanceBpsPerCall : s'.maxRebalanceBpsPerCall = s.maxRebalanceBpsPerCall

theorem Moved.refl (s : Vault σ) : s.Moved s := ⟨.refl s, rfl, rfl, rfl, rfl⟩

theorem Moved.trans (h₁ : s.Moved s') (h₂ : s'.Moved s'') : s.Moved s'' :=
  ⟨h₁.toSteady.trans h₂.toSteady, h₂.tvlCap.trans h₁.tvlCap, h₂.perDepositCap.trans h₁.perDepositCap,
    h₂.shutdown.trans h₁.shutdown, h₂.maxRebalanceBpsPerCall.trans h₁.maxRebalanceBpsPerCall⟩

theorem Moved.of_book {book : ShareBook} (h : s.book.SameRecords book) (hidden : σ) (trace : List Event) :
    s.Moved { s with book := book, hidden := hidden, trace := trace } :=
  ⟨⟨⟨rfl, rfl, h, id, id⟩, rfl, rfl, rfl, rfl⟩, rfl, rfl, rfl, rfl⟩

theorem applyEffect_moved (s : Vault σ) (eff : Effect σ) : s.Moved (s.applyEffect d eff) :=
  .of_book (outsideRun_sameRecords d s.book eff.calls) eff.hidden s.trace

theorem contact_moved (s : Vault σ) (a : Address) : s.Moved (s.contact a) := .of_book (.refl _) s.hidden _

def SameButTrace (s s' : Vault σ) : Prop := ∃ trace, s' = { s with trace := trace }

variable (env) in
theorem probe_sameButTrace (s : Vault σ) (a : Address) : s.SameButTrace (s.probe env a) := by
  unfold Vault.probe
  split
  · exact ⟨_, rfl⟩
  · exact ⟨s.trace, rfl⟩

theorem probe_moved (s : Vault σ) (a : Address) : s.Moved (s.probe env a) := by
  obtain ⟨trace, h⟩ := probe_sameButTrace env s a
  rw [h]
  exact .of_book (.refl _) s.hidden trace

variable {a : Address} {x r i id m m' : Nat}

theorem callWithdraw_moved (h : s.callWithdraw d env a x = .ok (r, s')) : s.Moved s' := by
  simp only [callWithdraw, bind_eq_ok, ok.injEq, Prod.mk.injEq] at h
  obtain ⟨eff, -, -, rfl⟩ := h
  exact (contact_moved s a).trans (applyEffect_moved ..)

private theorem callDeploy_moved (h : s.callDeploy d env a x = .ok s') : s.Moved s' := by
  simp only [callDeploy, bind_eq_ok, ok.injEq] at h
  obtain ⟨eff, -, rfl⟩ := h
  exact (contact_moved s a).trans (applyEffect_moved ..)

theorem allocate_moved (h : s.allocate d env i x = .ok (r, s')) : s.Moved s' := by
  simp only [allocate, bind_eq_ok, ok.injEq, Prod.mk.injEq] at h
  obtain ⟨e, -, -, -, usdc, -, m, hm, -, -, -, -, -, rfl⟩ := h
  have hcall := callDeploy_moved hm
  refine Moved.trans ?_ hcall
  exact .of_book (.of_usdc s.book usdc) s.hidden s.trace

private theorem routeDeposit_moved {amount total : Nat} (h : s.routeDeposit d env amount total = .ok s') : s.Moved s' :=
  routeDeposit_rel Moved.refl Moved.trans (fun _ h => allocate_moved h) h

theorem pullProportional_moved {needed r : Nat} (h : s.pullProportional d env needed = .ok (r, s')) : s.Moved s' :=
  pullProportional_rel Moved.refl Moved.trans (fun _ _ _ _ h => callWithdraw_moved h) h

variable {caller receiver : Address}

private theorem depositAt_moved {assets shares nav : Nat}
    (h : s.depositAt d env caller receiver assets shares nav = .ok s') : s.Moved s' := by
  simp only [depositAt, bind_eq_ok] at h
  obtain ⟨-, -, -, -, -, -, total, -, -, -, -, -, usdc, -, book, hbook, h⟩ := h
  simp only [ShareBook.mint, bind_eq_ok] at hbook
  obtain ⟨-, -, hbook⟩ := hbook
  have hroute := routeDeposit_moved h
  refine Moved.trans ?_ hroute
  have hrecords := update_sameRecords hbook
  exact .of_book ((ShareBook.SameRecords.of_usdc s.book usdc).trans hrecords) s.hidden s.trace

variable {owner : Address}

theorem spendAllowance_moved {spender : Address} {value : Nat} (h : s.spendAllowance owner spender value = .ok s') :
    s.Moved s' := by
  unfold spendAllowance at h
  split at h
  · cases h; exact .refl _
  simp only [Vault.approve, bind_eq_ok, ok.injEq] at h
  obtain ⟨-, -, -, -, -, -, rfl⟩ := h
  exact ⟨⟨⟨rfl, rfl, .refl _, id, id⟩, rfl, rfl, rfl, rfl⟩, rfl, rfl, rfl, rfl⟩

private theorem withdrawAt_moved {assets shares : Nat}
    (h : s.withdrawAt d env caller receiver owner assets shares = .ok s') : s.Moved s' := by
  simp only [withdrawAt, bind_eq_ok] at h
  obtain ⟨t, ht, gross, -, fee, -, -, -, ⟨realized, u⟩, hu, -, -, book, hbook, h⟩ := h
  have h1 : s.Moved t := by
    split at ht
    · exact spendAllowance_moved ht
    · cases ht; exact .refl _
  have h2 : t.Moved u := pullProportional_moved hu
  simp only [ShareBook.burn, bind_eq_ok] at hbook
  obtain ⟨-, -, hbook⟩ := hbook
  simp only [Vault.payOut, bind_eq_ok, ok.injEq] at h
  obtain ⟨-, -, usdc, -, rfl⟩ := h
  have hrecords := update_sameRecords hbook
  refine (h1.trans h2).trans ?_
  exact .of_book (hrecords.trans (.of_usdc book usdc)) u.hidden u.trace

theorem credit_moved {id before : Nat} (h : s.credit d id before = .ok s') : s.Moved s' := by
  unfold Vault.credit at h
  split at h
  · cases h; exact .refl _
  simp only [bind_eq_ok] at h
  obtain ⟨recovered, -, h⟩ := h
  split at h
  · cases h; exact .refl _
  simp only [bind_eq_ok, ok.injEq] at h
  obtain ⟨book, hb, rfl⟩ := h
  exact .of_book (credit_sameRecords hb) s.hidden s.trace

theorem drain_inv {ok : Bool} (h : s.drain d env a id = .ok (ok, s')) :
    (s' = s.contact a ∧ (ok = true → env.totalAssets s.hidden a = .returned 0)) ∨
      (s' = (s.contact a).contact a ∧ ok = false) ∨
      ∃ n eff, env.totalAssets s.hidden a = .returned (n + 1) ∧ env.withdraw s.hidden a (n + 1) = .returned eff ∧
        (((s.contact a).contact a).applyEffect d eff).credit d id (s.idle d) = .ok s' := by
  simp only [Vault.drain, bind_eq_ok] at h
  obtain ⟨balance, hbalance, h⟩ := h
  rcases balance with _ | _ | n
  · cases h
    exact .inl ⟨rfl, fun hok => absurd hok (by simp)⟩
  · cases h
    exact .inl ⟨rfl, fun _ => Reply.caught_eq_some.1 hbalance⟩
  simp only [bind_eq_ok] at h
  obtain ⟨reply, hreply, h⟩ := h
  rcases reply with _ | eff
  · cases h
    exact .inr (.inl ⟨rfl, rfl⟩)
  simp only [bind_eq_ok, Except.ok.injEq, Prod.mk.injEq] at h
  obtain ⟨t, ht, -, rfl⟩ := h
  exact .inr (.inr ⟨n, eff, Reply.caught_eq_some.1 hbalance, Reply.caught_eq_some.1 hreply, ht⟩)

theorem drain_moved {ok : Bool} (h : s.drain d env a id = .ok (ok, s')) : s.Moved s' := by
  have hcontacts := (contact_moved s a).trans (contact_moved (s.contact a) a)
  rcases drain_inv h with ⟨rfl, -⟩ | ⟨rfl, -⟩ | ⟨n, eff, -, -, hcredit⟩
  · exact contact_moved s a
  · exact hcontacts
  · exact (hcontacts.trans (applyEffect_moved _ eff)).trans (credit_moved hcredit)

theorem emergencyPull_moved (h : s.emergencyPull d env i = .ok s') : s.Moved s' := by
  simp only [emergencyPull, bind_eq_ok, ok.injEq] at h
  obtain ⟨e, -, ⟨ok, t⟩, ht, rfl⟩ := h
  exact drain_moved ht

theorem emergencyPullActive_moved (h : emergencyPullActive d env s i = .ok s') : s.Moved s' := by
  simp only [emergencyPullActive, bind_eq_ok] at h
  obtain ⟨e, -, h⟩ := h
  split at h
  · cases h; exact .refl _
  · exact emergencyPull_moved h

variable {targets : List Nat}

theorem pullToTarget_moved (h : pullToTarget d env targets (s, m) i = .ok (s', m')) : s.Moved s' := by
  simp only [pullToTarget, bind_eq_ok] at h
  obtain ⟨e, -, h⟩ := h
  split at h
  · cases h; exact .refl _
  simp only [bind_eq_ok] at h
  obtain ⟨current, -, target, -, h⟩ := h
  split at h
  · simp only [bind_eq_ok, ok.injEq, Prod.mk.injEq] at h
    obtain ⟨⟨actual, t⟩, ht, -, -, u, hu, rfl, -⟩ := h
    exact ((contact_moved s e.adapter).trans (callWithdraw_moved ht)).trans (credit_moved hu)
  · cases h; exact contact_moved s e.adapter

theorem allocateToTarget_cases (h : allocateToTarget d env targets (s, m) i = .ok (s', m')) :
    s' = s ∨ ∃ x placed, s.allocate d env i x = .ok (placed, s') := by
  unfold allocateToTarget at h
  split at h
  · cases h; exact .inl rfl
  simp only [bind_eq_ok] at h
  obtain ⟨e, -, h⟩ := h
  split at h
  · cases h; exact .inl rfl
  simp only [bind_eq_ok] at h
  obtain ⟨current, -, target, -, h⟩ := h
  split at h
  · simp only [bind_eq_ok, ok.injEq, Prod.mk.injEq] at h
    obtain ⟨⟨placed, t⟩, ht, -, -, rfl, -⟩ := h
    exact .inr ⟨_, placed, ht⟩
  · cases h; exact .inl rfl

theorem allocateToTarget_moved (h : allocateToTarget d env targets (s, m) i = .ok (s', m')) : s.Moved s' := by
  obtain rfl | ⟨x, placed, ht⟩ := allocateToTarget_cases h
  · exact .refl _
  · exact allocate_moved ht

private theorem rebalance_moved {block : Block} {sender : Address} (h : s.rebalance d env block sender = .ok s') :
    s.Moved s' := by
  simp only [rebalance, bind_eq_ok] at h
  obtain ⟨-, -, -, -, -, -, -, -, -, -, -, -, nav, -, cap, -, t, ht, h⟩ := h
  have h1 := rebalancePull_rel Moved.refl Moved.trans (fun _ _ _ _ h => callWithdraw_moved h) ht
  have h2 : t.Moved s' := by
    unfold routeIdle at h
    split at h
    · cases h; exact .refl _
    simp only [bind_eq_ok] at h
    obtain ⟨nav', -, h⟩ := h
    exact routeDeposit_moved h
  have h0 : s.Moved { s with lastRebalanceAt := block.timestamp.val } :=
    ⟨⟨⟨rfl, rfl, .refl _, id, id⟩, rfl, rfl, rfl, rfl⟩, rfl, rfl, rfl, rfl⟩
  exact (h0.trans h1).trans h2

theorem foldlM_moved {f : Vault σ → Nat → Except Revert (Vault σ)} {l : List Nat}
    (hf : ∀ {s s' i}, f s i = .ok s' → s.Moved s') (h : l.foldlM f s = .ok s') : s.Moved s' := by
  refine foldlM_invariant (P := fun t => s.Moved t) ?_ (.refl s) h
  intro t i t' _ ht hstep
  exact ht.trans (hf hstep)

theorem foldlM_pair_moved {f : Vault σ × Nat → Nat → Except Revert (Vault σ × Nat)} {l : List Nat}
    (hf : ∀ {s s' m m' i}, f (s, m) i = .ok (s', m') → s.Moved s') (h : l.foldlM f (s, m) = .ok (s', m')) :
    s.Moved s' := by
  refine foldlM_invariant (P := fun x : Vault σ × Nat => s.Moved x.1) ?_ (.refl s) h
  rintro ⟨t, n⟩ i ⟨t', n'⟩ _ ht hstep
  exact ht.trans (hf hstep)

end Vault

/-- The calls that move shares and USDC and set no parameter. -/
def VaultCall.Moves {σ : Type} : VaultCall σ → Prop
  | .deposit .. | .mint .. | .withdraw .. | .redeem .. | .approve .. | .transferShares .. | .transferSharesFrom
      .. => True
  | .setAdapterMaxExposure .. | .rebalance | .outside .. => True
  | _ => False

open Vault Except in
theorem vaultCall_moved {σ : Type} {env : Outside σ} {s s' : Vault σ} {block : Block}
    {call : VaultCall σ} (h : vaultCall d env s sender block call = .ok s') (hmoves : call.Moves) : s.Moved s' := by
  cases call with
  | deposit assets receiver =>
    simp only [vaultCall, deposit, bind_eq_ok, ok.injEq] at h
    obtain ⟨-, ⟨-, -, nav, -, maxAssets, -, -, -, supply, -, nav', -, shares, -, t, ht, rfl⟩, rfl⟩ := h
    exact depositAt_moved ht
  | mint shares receiver =>
    simp only [vaultCall, mint, bind_eq_ok, ok.injEq] at h
    obtain ⟨-, ⟨-, -, maxShares, -, -, -, assets, -, nav, -, t, ht, rfl⟩, rfl⟩ := h
    exact depositAt_moved ht
  | withdraw assets receiver owner =>
    simp only [vaultCall, withdraw, bind_eq_ok, ok.injEq] at h
    obtain ⟨-, ⟨maxAssets, -, -, -, shares, -, t, ht, rfl⟩, rfl⟩ := h
    exact withdrawAt_moved ht
  | redeem shares receiver owner =>
    simp only [vaultCall, redeem, bind_eq_ok, ok.injEq] at h
    obtain ⟨-, ⟨-, -, assets, -, t, ht, rfl⟩, rfl⟩ := h
    exact withdrawAt_moved ht
  | approve spender value =>
    simp only [vaultCall, approve, bind_eq_ok, ok.injEq] at h
    obtain ⟨-, -, -, -, rfl⟩ := h
    exact ⟨⟨⟨rfl, rfl, .refl _, id, id⟩, rfl, rfl, rfl, rfl⟩, rfl, rfl, rfl, rfl⟩
  | transferShares target value =>
    simp only [vaultCall, transferShares, ShareBook.transferShares, bind_eq_ok, ok.injEq] at h
    obtain ⟨book, ⟨-, -, -, -, hbook⟩, rfl⟩ := h
    exact .of_book (ShareBook.update_sameRecords hbook) _ _
  | transferSharesFrom source target value =>
    simp only [vaultCall, transferSharesFrom, transferShares, ShareBook.transferShares, bind_eq_ok, ok.injEq] at h
    obtain ⟨t, ht, book, ⟨-, -, -, -, hbook⟩, rfl⟩ := h
    exact (spendAllowance_moved ht).trans (.of_book (ShareBook.update_sameRecords hbook) _ _)
  | setAdapterMaxExposure i cap =>
    simp only [vaultCall, setAdapterMaxExposure, bind_eq_ok, ok.injEq] at h
    obtain ⟨-, -, e, -, eff, -, rfl⟩ := h
    exact (contact_moved _ _).trans (applyEffect_moved _ _)
  | rebalance => exact rebalance_moved h
  | outside calls hidden =>
    simp only [vaultCall, ok.injEq] at h
    subst h
    exact applyEffect_moved _ _
  | _ => exact absurd hmoves id

end RobotMoney
