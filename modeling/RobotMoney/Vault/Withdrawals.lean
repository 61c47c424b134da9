import RobotMoney.Vault.Exits

/-!
# What a withdrawal pulls and pays

An exit is paid out of idle USDC and of what the counted adapters send on demand.

* Adapters that deliver are asked for no more than they hold, and send exactly what is needed
  (`pullFromAdapters_returns`, `pass1Pull_le`, `pass2Pull_le`).
* Whatever the adapters do, an exit that goes through moves `assets` to the receiver and the fee to its recipient, out
of USDC the vault really has by then (`withdrawAt_pays`).  What an adapter says it sent does not pay anyone.
-/

namespace RobotMoney

open Evm Finset

namespace Vault

variable {σ : Type} (d : Deployment) (env : Outside σ)

def pass1Pull (needed totalInAdapters : Nat) (lastCounted : Option Nat) (p : Pull σ) (i : Nat) :
    Except Revert (Address × Nat) :=
  if p.remaining = 0 then .ok (0, 0)
  else do
    let counted ← p.vault.isCounted d env i
    if counted then do
      let e ← p.vault.entry i
      let balance ← p.vault.reported env e.adapter
      let share ← proportion needed totalInAdapters balance p.remaining (lastCounted == some i)
      .ok (e.adapter, min (min share p.remaining) balance)
    else .ok (0, 0)

def pass2Pull (p : Pull σ) (i : Nat) : Except Revert (Address × Nat) :=
  if p.remaining = 0 then .ok (0, 0)
  else do
    let counted ← p.vault.isCounted d env i
    if counted then do
      let e ← p.vault.entry i
      let balance ← p.vault.reported env e.adapter
      .ok (e.adapter, min balance p.remaining)
    else .ok (0, 0)

variable {d env} {s s' v : Vault σ} {p p' : Pull σ} {i x : Nat} {a : Address}

variable (d env) in
private theorem pullLeg_zero (p : Pull σ) (a : Address) : pullLeg d env p a 0 = .ok p := if_pos rfl

private theorem pullLeg_if {counted : Except Revert Bool} {request : Except Revert (Address × Nat)} (p : Pull σ) :
    (do let c ← counted; if c then (do let (a, x) ← request; pullLeg d env p a x) else .ok p) =
      (do let (a, x) ← (do let c ← counted; if c then request else .ok (0, 0)); pullLeg d env p a x) := by
  cases counted with
  | error reason => rfl
  | ok counted =>
    cases counted with
    | false => exact (pullLeg_zero d env p 0).symm
    | true => rfl

theorem pullPass1_eq (needed total : Nat) (last : Option Nat) (p : Pull σ) (i : Nat) :
    pullPass1 d env needed total last p i =
      (do let (a, x) ← pass1Pull d env needed total last p i; pullLeg d env p a x) := by
  unfold pullPass1 pass1Pull
  split
  · exact (pullLeg_zero d env p 0).symm
  rw [← pullLeg_if]
  simp only [bind_assoc, ok_bind]

theorem pullPass2_eq (p : Pull σ) (i : Nat) :
    pullPass2 d env p i = (do let (a, x) ← pass2Pull d env p i; pullLeg d env p a x) := by
  unfold pullPass2 pass2Pull
  split
  · exact (pullLeg_zero d env p 0).symm
  rw [← pullLeg_if]
  simp only [bind_assoc, ok_bind]

theorem pass1Pull_le {needed total : Nat} {last : Option Nat} (h : pass1Pull d env needed total last p i = .ok (a, x))
    (hpos : 0 < x) : ∃ balance, p.vault.reported env a = .ok balance ∧ x ≤ balance := by
  unfold pass1Pull at h
  split at h
  · cases h
    exact absurd hpos (lt_irrefl 0)
  obtain ⟨counted, -, h⟩ := bind_eq_ok.1 h
  split at h
  · simp only [bind_eq_ok, Except.ok.injEq, Prod.mk.injEq] at h
    obtain ⟨e, -, balance, hbalance, share, -, rfl, rfl⟩ := h
    exact ⟨balance, hbalance, min_le_right _ _⟩
  cases h
  exact absurd hpos (lt_irrefl 0)

private theorem pass2Pull_le (h : pass2Pull d env p i = .ok (a, x)) (hpos : 0 < x) :
    ∃ balance, p.vault.reported env a = .ok balance ∧ x ≤ balance := by
  unfold pass2Pull at h
  split at h
  · cases h
    exact absurd hpos (lt_irrefl 0)
  obtain ⟨counted, -, h⟩ := bind_eq_ok.1 h
  split at h
  · simp only [bind_eq_ok, Except.ok.injEq, Prod.mk.injEq] at h
    obtain ⟨e, -, balance, hbalance, rfl, rfl⟩ := h
    exact ⟨balance, hbalance, min_le_left _ _⟩
  cases h
  exact absurd hpos (lt_irrefl 0)

/-- From the vault `v`, which holds what was delivered, `assets` go to the receiver and the rest of `gross` to the
recipient of the fees. -/
structure PaidOut (d : Deployment) (s v s' : Vault σ) (receiver : Address) (assets gross : Nat) : Prop where
  assets_le : assets ≤ gross
  /-- Idle USDC has only grown while the adapters were called. -/
  delivered : s.idle d ≤ v.idle d
  fee_held : gross - assets ≤ v.idle d
  assets_held : assets ≤ moveBalance v.book.usdc d.vault s.feeRecipient (gross - assets) d.vault
  usdc : s'.book.usdc =
    moveBalance (moveBalance v.book.usdc d.vault s.feeRecipient (gross - assets)) d.vault receiver assets

private theorem callWithdraw_idle {r : Nat} (h : s.callWithdraw d env a x = .ok (r, s')) :
    s.idle d ≤ s'.idle d ∧ s'.feeRecipient = s.feeRecipient := by
  simp only [callWithdraw, bind_eq_ok, Except.ok.injEq, Prod.mk.injEq] at h
  obtain ⟨eff, -, -, rfl⟩ := h
  exact ⟨(outsideRun_vault d s.book eff.calls).1, rfl⟩

private theorem pullProportional_idle {needed r : Nat} (h : s.pullProportional d env needed = .ok (r, s')) :
    s.idle d ≤ s'.idle d ∧ s'.feeRecipient = s.feeRecipient :=
  pullProportional_rel (R := fun s t => s.idle d ≤ t.idle d ∧ t.feeRecipient = s.feeRecipient)
    (fun _ => ⟨le_rfl, rfl⟩) (fun h₁ h₂ => ⟨h₁.1.trans h₂.1, h₂.2.trans h₁.2⟩)
    (fun _ _ _ _ h => callWithdraw_idle h) h

private theorem payOut_eq {receiver : Address} {assets fee : Nat} (h : s.payOut d receiver assets fee = .ok s') :
    fee ≤ s.idle d ∧ assets ≤ moveBalance s.book.usdc d.vault s.feeRecipient fee d.vault ∧
      s'.book.usdc = moveBalance (moveBalance s.book.usdc d.vault s.feeRecipient fee) d.vault receiver assets := by
  simp only [payOut, bind_eq_ok, Except.ok.injEq] at h
  obtain ⟨usdc, hfee, usdc', hassets, rfl⟩ := h
  have hmoved : fee ≤ s.idle d ∧ usdc = moveBalance s.book.usdc d.vault s.feeRecipient fee := by
    split at hfee
    · obtain ⟨-, hle, rfl⟩ := moveUsdc_eq_ok.1 hfee
      exact ⟨hle, rfl⟩
    obtain rfl : fee = 0 := by omega
    cases hfee
    exact ⟨Nat.zero_le _, (moveBalance_zero ..).symm⟩
  obtain ⟨hle, rfl⟩ := hmoved
  obtain ⟨-, hheld, rfl⟩ := moveUsdc_eq_ok.1 hassets
  exact ⟨hle, hheld, rfl⟩

private theorem withdrawAt_pays {caller receiver owner : Address} {assets shares : Nat}
    (h : s.withdrawAt d env caller receiver owner assets shares = .ok s') :
    ∃ allowance gross realized v, { s with allowance := allowance }.convertToAssets d env shares .floor = .ok gross ∧
      { s with allowance := allowance }.pullProportional d env gross = .ok (realized, v) ∧
      PaidOut d s v s' receiver assets gross := by
  simp only [withdrawAt, bind_eq_ok, sub_eq_ok, revertIf_eq_ok] at h
  obtain ⟨t, ht, gross, hgross, fee, ⟨hle, rfl⟩, -, -, ⟨realized, v⟩, hv, -, -, book, hbook, hpay⟩ := h
  obtain ⟨allowance, rfl⟩ : ∃ allowance, t = { s with allowance := allowance } := by
    split at ht
    · exact spendAllowance_eq ht
    cases ht
    exact ⟨s.allowance, rfl⟩
  obtain ⟨hidle, hrecipient⟩ := pullProportional_idle hv
  obtain ⟨-, husdc, -⟩ := ShareBook.burn_spec hbook
  obtain ⟨hfee, hassets, hafter⟩ := payOut_eq hpay
  unfold idle at hfee
  dsimp only at hfee hassets hafter hrecipient
  rw [husdc, hrecipient] at hassets hafter
  rw [husdc] at hfee
  exact ⟨allowance, gross, realized, v, hgross, hv, hle, hidle, hfee, hassets, hafter⟩

/-- The sums and products of a pull of `needed` fit into a word.  The last counted entry takes what remains, so its
balance is in no product. -/
structure PullFits (d : Deployment) (env : Outside σ) (s : Vault σ) (needed : Nat) : Prop where
  total : ∑ i ∈ range s.adapters.length, s.contribution d env i < wordSize
  products : ∀ i j, i < j → s.isCounted d env j = .ok true → needed * s.contribution d env i < wordSize

/-- Withdrawals are exact.  Adapters that deliver send exactly what is needed, and are never asked for more than they
report; an exit that goes through pays exactly what it should, whatever the adapters do; one that does not changes
nothing. -/
theorem withdrawals_exact {σ : Type} (d : Deployment) (env : Outside σ) :
    (∀ (s : Vault σ) (H : σ → ShareBook → Prop) (needed : Nat), s.Consistent →
      env.Delivers d (s.CountedAdapter d env) H → H s.hidden s.book → s.ProbesDecode d env → s.PullFits d env needed →
      needed ≤ ∑ i ∈ range s.adapters.length, s.contribution d env i →
      ∃ v, s.pullFromAdapters d env needed = .ok (needed, v) ∧ v.idle d = s.idle d + needed) ∧
    (∀ (needed total : Nat) (last : Option Nat) (p : Pull σ) (i x : Nat) (a : Address),
      pass1Pull d env needed total last p i = .ok (a, x) ∨ pass2Pull d env p i = .ok (a, x) → 0 < x →
      ∃ balance, p.vault.reported env a = .ok balance ∧ x ≤ balance) ∧
    (∀ (s s' : Vault σ) (caller receiver owner : Address) (assets shares : Nat),
      s.withdrawAt d env caller receiver owner assets shares = .ok s' →
      ∃ allowance gross realized v, { s with allowance := allowance }.convertToAssets d env shares .floor = .ok gross ∧
        { s with allowance := allowance }.pullProportional d env gross = .ok (realized, v) ∧
        PaidOut d s v s' receiver assets gross) ∧
    ∀ (s : Vault σ) (tx : Tx σ) (reason : Revert), vaultStep d env s tx = .error reason →
      exec (vaultStep d env) s tx = s := by
  refine ⟨?_, ?_, fun s s' _ _ _ _ _ h => withdrawAt_pays h, fun s tx reason h => exec_of_error h⟩
  · intro s H needed hc hd hw hprobes hfits henough
    obtain ⟨v, hv, hpulled⟩ := pullFromAdapters_returns hd hc (priced_of_delivers hd hw hprobes) hfits.total henough
      hfits.products hw
    exact ⟨v, hv, hpulled.idle⟩
  · rintro needed total last p i x a (h | h) hpos
    · exact pass1Pull_le h hpos
    · exact pass2Pull_le h hpos

end Vault

private theorem depositedInTwo_fits : ∃ s : Vault ((Address → Nat) × Bool), s.Reached .sample .dirtyWord ∧
      s.ProbesDecode .sample .dirtyWord ∧ s.ExitFits .sample .dirtyWord 5 ∧ s.adapters.length = 2 ∧
      5 * 10 ^ 20 ≤ s.book.shares 5 ∧ s.grossOf .sample .dirtyWord (5 * 10 ^ 20) = 500 ∧
      ∑ i ∈ range s.adapters.length, s.contribution .sample .dirtyWord i = 1000 ∧
      s.contribution .sample .dirtyWord 0 = 500 := by
  obtain ⟨s₀, hinit, hreached⟩ := Vault.sample_reached .dirtyWord (fun _ => 0, false) depositedInTwo
  cases hinit
  refine ⟨_, hreached, ?_, ⟨by decide, by decide, by decide, fun h => absurd h (by decide)⟩, rfl, by decide,
    by decide +kernel, by decide +kernel, by decide +kernel⟩
  exact probesDecode_of_clean rfl

/-- Both adapters hold 500: together they send 700, and an exit of 500 pays 499. -/
theorem withdrawals_exact_depositedInTwo :
    ∃ s s' : Vault ((Address → Nat) × Bool), s.Reached .sample .dirtyWord ∧
      (∃ v, s.pullFromAdapters .sample .dirtyWord 700 = .ok (700, v) ∧ v.idle .sample = s.idle .sample + 700) ∧
      s.withdrawAt .sample .dirtyWord 5 6 5 499 (5 * 10 ^ 20) = .ok s' ∧
      ∃ gross v, Vault.PaidOut .sample s v s' 6 499 gross := by
  obtain ⟨s, hreached, hprobes, hfits, hlength, hshares, hgross, hsum, hone⟩ := depositedInTwo_fits
  have hdelivers := Outside.dirtyWord_delivers (s.CountedAdapter .sample .dirtyWord)
  obtain ⟨s', hexit, -⟩ : ∃ s', s.withdrawAt .sample .dirtyWord 5 6 5 499 (5 * 10 ^ 20) = .ok s' ∧ _ :=
    Vault.withdrawAt_returns hreached.sound hdelivers trivial (by decide) hfits hprobes hshares (by omega) (by omega)
      (by omega)
  obtain ⟨-, gross, -, v, -, -, hpaid⟩ :=
    (Vault.withdrawals_exact .sample .dirtyWord).2.2.1 s s' 5 6 5 499 (5 * 10 ^ 20) hexit
  refine ⟨s, s', hreached, ?_, hexit, gross, v, hpaid⟩
  refine (Vault.withdrawals_exact .sample .dirtyWord).1 s (fun _ _ => True) 700 hreached.sound.toConsistent hdelivers
    trivial hprobes ⟨by rw [hsum]; decide, ?_⟩ (by rw [hsum]; decide)
  rintro i j hij hcounted
  obtain ⟨e, he, -⟩ := Vault.isCounted_eq_true.1 hcounted
  have hj : j < s.adapters.length := (List.getElem?_eq_some_iff.1 he).1
  obtain rfl : i = 0 := by omega
  rw [hone]
  decide

/-- Both adapters hold `2 ^ 200`. -/
def hugeBalances : List (Tx ((Address → Nat) × Bool)) :=
  depositedInTwo ++
    [⟨9, .sample, .outside [] (Function.update (Function.update (fun _ => 0) 30 (2 ^ 200)) 31 (2 ^ 200), false)⟩]

/-- Adapters that deliver, hold enough, and yet the pull reverts: a probe does not decode, or a product does not fit. -/
theorem pulls_revert_despite_balances :
    (∃ s : Vault ((Address → Nat) × Bool), s.Reached .sample .dirtyWord ∧
      Outside.dirtyWord.Delivers .sample (s.CountedAdapter .sample .dirtyWord) (fun _ _ => True) ∧
      400 ≤ ∑ i ∈ range s.adapters.length, s.contribution .sample .dirtyWord i ∧
      s.pullFromAdapters .sample .dirtyWord 400 = .error .abiDecode) ∧
    ∃ s : Vault ((Address → Nat) × Bool), s.Reached .sample .dirtyWord ∧
      Outside.dirtyWord.Delivers .sample (s.CountedAdapter .sample .dirtyWord) (fun _ _ => True) ∧
      2 ^ 200 ≤ ∑ i ∈ range s.adapters.length, s.contribution .sample .dirtyWord i ∧
      s.pullFromAdapters .sample .dirtyWord (2 ^ 200) = .error (.panic .arithmetic) := by
  obtain ⟨s₀, hinit⟩ : ∃ s₀ : Vault ((Address → Nat) × Bool),
      Vault.initialize .sample (Function.update (fun _ => 0) 5 1000) (fun _ => 0, false) = .ok s₀ := ⟨_, rfl⟩
  have hdirty : (run (vaultStep .sample .dirtyWord) s₀ dirtyAnswer).Reached .sample .dirtyWord :=
    ⟨_, _, _, s₀, hinit, dirtyAnswer, rfl⟩
  have hhuge : (run (vaultStep .sample .dirtyWord) s₀ hugeBalances).Reached .sample .dirtyWord :=
    ⟨_, _, _, s₀, hinit, hugeBalances, rfl⟩
  cases hinit
  exact ⟨⟨_, hdirty, Outside.dirtyWord_delivers _, by decide +kernel, rfl⟩,
    ⟨_, hhuge, Outside.dirtyWord_delivers _, by decide +kernel, rfl⟩⟩

end RobotMoney
