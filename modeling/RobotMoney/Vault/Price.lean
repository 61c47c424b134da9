import Mathlib.Tactic.Ring
import RobotMoney.Vault.Nav

/-!
# The share price never falls by user action

With adapters that do what they say, moving money between idle and the adapters keeps the net asset value
(`NavKept`), so a deposit adds exactly what was paid and an exit takes at most the gross value of the burnt shares.
The four entry points round in different directions, but each of them rounds against the user, and that is all the
price needs: shares minted are worth no more than what was paid (`price_mint`), and what leaves is worth no more than
the shares burnt (`price_burn`).
-/

namespace RobotMoney

open Evm Except Function Prod

/-- The price of a share, `(assets + 1) / (supply + virtualShares)`, is no lower on the right. -/
def PriceLe (assets supply assets' supply' : Nat) : Prop :=
  (assets + 1) * (supply' + virtualShares) ≤ (assets' + 1) * (supply + virtualShares)

private theorem PriceLe.refl (assets supply : Nat) : PriceLe assets supply assets supply := le_rfl

private theorem PriceLe.trans {a₁ s₁ a₂ s₂ a₃ s₃ : Nat} (h₁ : PriceLe a₁ s₁ a₂ s₂) (h₂ : PriceLe a₂ s₂ a₃ s₃) :
    PriceLe a₁ s₁ a₃ s₃ := by
  unfold PriceLe at *
  have hpos : 0 < s₂ + virtualShares := by unfold virtualShares; omega
  refine Nat.le_of_mul_le_mul_right ?_ hpos
  calc (a₁ + 1) * (s₃ + virtualShares) * (s₂ + virtualShares)
      = (a₁ + 1) * (s₂ + virtualShares) * (s₃ + virtualShares) := Nat.mul_right_comm ..
    _ ≤ (a₂ + 1) * (s₁ + virtualShares) * (s₃ + virtualShares) := Nat.mul_le_mul_right _ h₁
    _ = (a₂ + 1) * (s₃ + virtualShares) * (s₁ + virtualShares) := Nat.mul_right_comm ..
    _ ≤ (a₃ + 1) * (s₂ + virtualShares) * (s₁ + virtualShares) := Nat.mul_le_mul_right _ h₂
    _ = (a₃ + 1) * (s₁ + virtualShares) * (s₂ + virtualShares) := Nat.mul_right_comm ..

theorem price_mint {assets supply paid shares : Nat} (h : shares * (assets + 1) ≤ paid * (supply + virtualShares)) :
    PriceLe assets supply (assets + paid) (supply + shares) := by
  unfold PriceLe
  calc (assets + 1) * (supply + shares + virtualShares)
      = (assets + 1) * (supply + virtualShares) + shares * (assets + 1) := by ring
    _ ≤ (assets + 1) * (supply + virtualShares) + paid * (supply + virtualShares) := Nat.add_le_add_left h _
    _ = (assets + paid + 1) * (supply + virtualShares) := by ring

private theorem price_burn {assets assets' supply gross shares : Nat}
    (h : gross * (supply + virtualShares) ≤ shares * (assets + 1)) (hle : shares ≤ supply)
    (hout : assets ≤ assets' + gross) : PriceLe assets supply assets' (supply - shares) := by
  unfold PriceLe
  obtain ⟨rest, rfl⟩ : ∃ rest, supply = rest + shares := ⟨supply - shares, by omega⟩
  rw [Nat.add_sub_cancel]
  have hsum : (assets + 1) * (rest + shares + virtualShares) ≤
      (assets' + gross + 1) * (rest + shares + virtualShares) := Nat.mul_le_mul_right _ (by omega)
  have hleft : (assets + 1) * (rest + shares + virtualShares) =
      (assets + 1) * (rest + virtualShares) + shares * (assets + 1) := by ring
  have hright : (assets' + gross + 1) * (rest + shares + virtualShares) =
      (assets' + 1) * (rest + shares + virtualShares) + gross * (rest + shares + virtualShares) := by ring
  omega

variable {assets assets' value : Nat} {d : Deployment} {b b' : ShareBook}

private theorem price_gift (supply : Nat) (h : assets ≤ assets') :
    PriceLe assets supply assets' supply := Nat.mul_le_mul_right _ (by omega)

private theorem PriceLe.assets_le {assets supply assets' supply' : Nat} (h : PriceLe assets supply assets' supply')
    (hle : supply ≤ supply') : assets ≤ assets' := by
  unfold PriceLe at h
  have hpos : 0 < supply + virtualShares := by unfold virtualShares; omega
  have h' : (assets + 1) * (supply + virtualShares) ≤ (assets' + 1) * (supply + virtualShares) :=
    (Nat.mul_le_mul_left _ (by omega)).trans h
  have := Nat.le_of_mul_le_mul_right h' hpos
  omega

theorem ShareBook.mint_spec {account : Address} (h : b.mint d account value = .ok b') :
    b'.usdc = b.usdc ∧ b'.totalSupply = b.totalSupply + value ∧
      b'.shares = Function.update b.shares account (b.shares account + value) ∧ b.SameRecords b' := by
  simp only [ShareBook.mint, bind_eq_ok, revertIf_eq_ok] at h
  obtain ⟨-, hzero, h⟩ := h
  have hsame := update_sameRecords h
  simp only [ShareBook.update, erc20Update, ShareBook.debit, bind_eq_ok, if_true, add_eq_ok,
    ok.injEq, if_neg hzero] at h
  obtain ⟨l, -, -, ⟨-, ⟨-, rfl⟩, rfl⟩, rfl⟩ := h
  exact ⟨rfl, rfl, rfl, hsame⟩

theorem ShareBook.burn_spec {account : Address} (h : b.burn d account value = .ok b') :
    value ≤ b.shares account ∧ b'.usdc = b.usdc ∧ b'.totalSupply = b.totalSupply - value ∧
      b'.shares = Function.update b.shares account (b.shares account - value) ∧ b.SameRecords b' := by
  simp only [ShareBook.burn, bind_eq_ok, revertIf_eq_ok] at h
  obtain ⟨-, hzero, h⟩ := h
  have hsame := update_sameRecords h
  simp only [ShareBook.update, erc20Update, ShareBook.debit, bind_eq_ok, if_true, if_neg hzero,
    revertIf_eq_ok, ok.injEq] at h
  obtain ⟨l, -, -, ⟨-, hle, rfl⟩, rfl⟩ := h
  exact ⟨Nat.le_of_not_lt hle, rfl, rfl, rfl, hsame⟩

theorem ShareBook.WellFormed.shares_le (hw : b.WellFormed) (account : Address) : b.shares account ≤ b.totalSupply := by
  rw [← hw.supply]
  exact Finset.single_le_sum (fun _ _ => Nat.zero_le _) (Finset.mem_univ account)

namespace Vault

open ShareBook Except

variable {σ : Type} {d : Deployment} {env : Outside σ} {H : σ → ShareBook → Prop} {s s' t u : Vault σ}

def NavKept (d : Deployment) (env : Outside σ) (s s' : Vault σ) : Prop :=
  s.Consistent → s.Priced d env → s'.Consistent ∧ s'.Priced d env ∧ s'.netAssets d env = s.netAssets d env ∧
    s'.book.shares = s.book.shares ∧ s'.book.totalSupply = s.book.totalSupply

private theorem NavKept.refl (s : Vault σ) : NavKept d env s s := fun hc hp => ⟨hc, hp, rfl, rfl, rfl⟩

private theorem NavKept.trans (h₁ : NavKept d env s t) (h₂ : NavKept d env t u) : NavKept d env s u := by
  intro hc hp
  obtain ⟨hc₁, hp₁, hn₁, hs₁, ht₁⟩ := h₁ hc hp
  obtain ⟨hc₂, hp₂, hn₂, hs₂, ht₂⟩ := h₂ hc₁ hp₁
  exact ⟨hc₂, hp₂, hn₂.trans hn₁, hs₂.trans hs₁, ht₂.trans ht₁⟩

variable {e : AdapterInfo} {i x r shares assets : Nat} {caller receiver : Address}

private theorem NavKept.of_touched {i v v' : Nat} (h : Touched env e.adapter s s')
    (hcounted : s.isCounted d env i = .ok true) (he : s.adapters[i]? = some e)
    (hv : env.totalAssets s.hidden e.adapter = .returned v)
    (hv' : env.totalAssets s'.hidden e.adapter = .returned v') (hsum : s'.idle d + v' = s.idle d + v) :
    NavKept d env s s' := by
  intro hc hp
  have hact := (counted_entry he hcounted).1
  refine ⟨hc.of_same h.toSameRegistry, h.priced (fun _ _ => ⟨v', hv'⟩) hp, ?_, h.shares, h.supply⟩
  refine h.netAssets hc he (.inl hact) ?_
  rw [contribution_of_counted hcounted he, contribution_of_counted (by rw [h.isCounted]; exact hcounted)
    (by rw [h.adapters]; exact he), Outside.balanceOf_eq hv, Outside.balanceOf_eq hv']
  exact hsum

private theorem Priced.report (hp : s.Priced d env) (hcounted : s.isCounted d env i = .ok true)
    (he : s.adapters[i]? = some e) : ∃ v, env.totalAssets s.hidden e.adapter = .returned v := by
  obtain ⟨b, hb, hreport⟩ := hp i (List.getElem?_eq_some_iff.1 he).1
  rw [hcounted] at hb
  cases hb
  exact hreport rfl e he

private theorem not_eligible_vault (hy : env.ExactDeploy d) (s : Vault σ) : s.isEligible d env d.vault ≠ .ok true := by
  have hview := hy.no_vault s.hidden
  unfold isEligible Vault.answers
  intro h
  split at h
  · cases h
  split at h
  · cases h
  simp only [hview, true_or, if_true, bind_eq_ok] at h
  obtain ⟨b, -, h⟩ := h
  split at h <;> cases h

private theorem allocate_navKept (hy : env.ExactDeploy d) (hcounted : s.isCounted d env i = .ok true)
    (h : s.allocate d env i x = .ok (r, s')) : NavKept d env s s' := by
  intro hc hp
  simp only [allocate, bind_eq_ok, entry_eq_ok, moveUsdc_eq_ok, ok.injEq, Prod.mk.injEq] at h
  obtain ⟨e, he, -, -, usdc, ⟨-, hle, rfl⟩, m, hm, -, -, -, -, -, rfl⟩ := h
  obtain ⟨v, hv⟩ := hp.report hcounted he
  obtain ⟨-, -, hel⟩ := counted_entry he hcounted
  have hself : e.adapter ≠ d.vault := by
    intro heq
    rw [heq] at hel
    exact not_eligible_vault hy s hel
  simp only [callDeploy, bind_eq_ok, Reply.value_eq_ok, ok.injEq] at hm
  obtain ⟨eff, heff, rfl⟩ := hm
  have harrived : x ≤ { s.book with usdc := moveBalance s.book.usdc d.vault e.adapter x }.usdc e.adapter := by
    dsimp only
    rw [moveBalance_target (Ne.symm hself)]
    exact Nat.le_add_left x _
  obtain ⟨back, hback, hpays, hreport⟩ := hy.exact harrived heff hv
  -- the transfer, then the call
  have hmove : Touched env e.adapter s
      { s with book := { s.book with usdc := moveBalance s.book.usdc d.vault e.adapter x } } :=
    ⟨(Moved.of_book (.of_usdc s.book _) s.hidden s.trace).toSteady,
      ⟨fun _ => rfl, fun _ => rfl, fun _ => rfl⟩, fun _ _ => rfl, rfl, rfl⟩
  obtain ⟨htouched, hidle, -, -⟩ := applyEffect_touched
    (s := { s with book := { s.book with usdc := moveBalance s.book.usdc d.vault e.adapter x } }.contact e.adapter)
    hpays
  have htotal := (hmove.trans (contact_touched _ e.adapter e.adapter)).trans htouched
  refine NavKept.of_touched htotal hcounted he hv hreport ?_ hc hp
  rw [hidle]
  show moveBalance s.book.usdc d.vault e.adapter x d.vault + back + (v + (x - back)) = s.book.usdc d.vault + v
  rw [moveBalance_source (Ne.symm hself)]
  omega

private theorem callWithdraw_navKept (hx : env.ExactWithdraw d H) {i balance x r : Nat}
    (hcounted : s.isCounted d env i = .ok true) (he : s.adapters[i]? = some e)
    (hb : s.reported env e.adapter = .ok balance) (hle : x ≤ balance)
    (h : s.callWithdraw d env e.adapter x = .ok (r, s')) (hfunds : H s.hidden s.book) :
    NavKept d env s s' ∧ H s'.hidden s'.book := by
  simp only [reported, Reply.value_eq_ok] at hb
  obtain ⟨-, htouched, hidle, hreport, hkept⟩ := callWithdraw_exact hx hfunds hb hle h
  exact ⟨NavKept.of_touched htouched hcounted he hb hreport (by rw [hidle]; omega), hkept⟩

private theorem routeDeposit_navKept (hy : env.ExactDeploy d) {amount total : Nat}
    (h : s.routeDeposit d env amount total = .ok s') : NavKept d env s s' :=
  routeDeposit_rel NavKept.refl NavKept.trans (fun hc h => allocate_navKept hy hc h) h

private theorem pullProportional_navKept (hx : env.ExactWithdraw d H) {needed r : Nat}
    (h : s.pullProportional d env needed = .ok (r, s')) (hfunds : H s.hidden s.book) : NavKept d env s s' := by
  have hrel := pullProportional_rel
    (R := fun s t => H s.hidden s.book → NavKept d env s t ∧ H t.hidden t.book) (fun s hs => ⟨.refl s, hs⟩) ?_
    (fun hc he hb hle h => callWithdraw_navKept hx hc he hb hle h) h
  · exact (hrel hfunds).1
  · intro s t u h₁ h₂ hs
    obtain ⟨hst, ht⟩ := h₁ hs
    obtain ⟨htu, hu⟩ := h₂ ht
    exact ⟨hst.trans htu, hu⟩

variable (d env) in
theorem netAssets_book (s : Vault σ) (b : ShareBook) :
    { s with book := b }.netAssets d env + s.idle d = s.netAssets d env + b.usdc d.vault := by
  have hsum : ∑ i ∈ Finset.range s.adapters.length, { s with book := b }.contribution d env i =
      ∑ i ∈ Finset.range s.adapters.length, s.contribution d env i := rfl
  unfold netAssets
  dsimp only
  rw [hsum]
  unfold Vault.idle
  dsimp only
  omega

theorem convertToAssets_eq {r : Rounding} (h : s.convertToAssets d env shares r = .ok x) :
    s.Priced d env ∧ x = mulDivNat r shares (s.netAssets d env + 1) (s.book.totalSupply + virtualShares) := by
  simp only [convertToAssets, bind_eq_ok, add_eq_ok, mulDiv_eq_ok] at h
  obtain ⟨nav, hnav, -, ⟨-, rfl⟩, -, ⟨-, rfl⟩, -, -, rfl⟩ := h
  obtain ⟨hp, rfl⟩ := totalAssets_eq_ok hnav
  exact ⟨hp, rfl⟩

private theorem depositAt_spec (hy : env.ExactDeploy d) (hc : s.Consistent) (hp : s.Priced d env)
    (hcaller : caller ≠ d.vault) {assets shares nav : Nat}
    (h : s.depositAt d env caller receiver assets shares nav = .ok s') :
    s'.netAssets d env = s.netAssets d env + assets ∧ s'.book.totalSupply = s.book.totalSupply + shares ∧
      s'.book.shares = update s.book.shares receiver (s.book.shares receiver + shares) := by
  simp only [depositAt, bind_eq_ok, moveUsdc_eq_ok] at h
  obtain ⟨-, -, -, -, -, -, total, -, -, -, -, -, usdc, ⟨-, -, rfl⟩, book, hbook, h⟩ := h
  obtain ⟨husdc, hsupply, hshares, hrecords⟩ := mint_spec hbook
  have hc' : { s with book := book }.Consistent :=
    hc.of_same ⟨rfl, rfl, (ShareBook.SameRecords.of_usdc s.book _).trans hrecords, id, id⟩
  obtain ⟨-, -, hnav, hsh, hsu⟩ := routeDeposit_navKept hy h hc' hp
  have hidle := netAssets_book d env s book
  rw [husdc] at hidle
  dsimp only at hidle
  rw [moveBalance_target hcaller] at hidle
  refine ⟨?_, hsu.trans hsupply, hsh.trans hshares⟩
  unfold Vault.idle at hidle
  omega

theorem spendAllowance_eq {owner spender : Address} {value : Nat} (h : s.spendAllowance owner spender value = .ok t) :
    ∃ allowance, t = { s with allowance := allowance } := by
  unfold spendAllowance at h
  split at h
  · cases h; exact ⟨s.allowance, rfl⟩
  simp only [Vault.approve, bind_eq_ok, ok.injEq] at h
  obtain ⟨-, -, -, -, -, -, rfl⟩ := h
  exact ⟨_, rfl⟩

variable (env) in
private theorem payOut_spec {assets fee : Nat} (h : s.payOut d receiver assets fee = .ok s') :
    s'.netAssets d env ≤ s.netAssets d env ∧ s.netAssets d env ≤ s'.netAssets d env + (assets + fee) ∧
      (receiver ≠ d.vault → s'.netAssets d env + assets ≤ s.netAssets d env) ∧
      s'.book.shares = s.book.shares ∧ s'.book.totalSupply = s.book.totalSupply := by
  simp only [Vault.payOut, bind_eq_ok, moveUsdc_eq_ok, ok.injEq] at h
  obtain ⟨usdc, hfee, -, ⟨-, hle, rfl⟩, rfl⟩ := h
  have hnav := netAssets_book d env s
    { s.book with usdc := moveBalance usdc d.vault receiver assets }
  have hpaid := moveBalance_source_bounds receiver hle
  have hfees : s.book.usdc d.vault ≤ usdc d.vault + fee ∧ usdc d.vault ≤ s.book.usdc d.vault := by
    split at hfee
    · simp only [moveUsdc_eq_ok] at hfee
      obtain ⟨-, hlef, rfl⟩ := hfee
      have := moveBalance_source_bounds s.feeRecipient hlef
      omega
    cases hfee
    omega
  unfold Vault.idle at hnav
  dsimp only at hnav ⊢
  refine ⟨by omega, by omega, ?_, rfl, rfl⟩
  intro hreceiver
  have := hpaid.2.2 hreceiver
  omega

private theorem withdrawAt_spec (hx : env.ExactWithdraw d H) {p : Bool} (hs : s.Sound p) (hfunds : H s.hidden s.book)
    {caller receiver owner : Address} (h : s.withdrawAt d env caller receiver owner assets shares = .ok s') :
    shares ≤ s.book.shares owner ∧ s'.book.totalSupply = s.book.totalSupply - shares ∧
      s'.book.shares = update s.book.shares owner (s.book.shares owner - shares) ∧
      (receiver ≠ d.vault → s'.netAssets d env + assets ≤ s.netAssets d env) ∧
      ∃ gross, gross * (s.book.totalSupply + virtualShares) ≤ shares * (s.netAssets d env + 1) ∧
        s.netAssets d env ≤ s'.netAssets d env + gross := by
  simp only [withdrawAt, bind_eq_ok, sub_eq_ok] at h
  obtain ⟨t, ht, gross, hgross, fee, ⟨hle, rfl⟩, -, -, ⟨realized, v⟩, hv, -, -, book, hbook, h⟩ := h
  obtain ⟨allowance, rfl⟩ : ∃ allowance, t = { s with allowance := allowance } := by
    split at ht
    · exact spendAllowance_eq ht
    · cases ht; exact ⟨s.allowance, rfl⟩
  have hst : { s with allowance := allowance }.Sound p := hs.of_same ⟨rfl, rfl, .refl _, id, id⟩
  obtain ⟨hp, hgross⟩ := convertToAssets_eq hgross
  obtain ⟨-, -, hnav, hsh, hsu⟩ := pullProportional_navKept hx hv hfunds hst.toConsistent hp
  obtain ⟨hburn, husdc, hsupply, hshares, -⟩ := burn_spec hbook
  obtain ⟨-, hout, hnet, hsh', hsu'⟩ := payOut_spec env h
  have hnav' : { v with book := book }.netAssets d env = s.netAssets d env := by
    have hidle := netAssets_book d env v book
    have hsame : v.netAssets d env = s.netAssets d env := hnav
    have husdc' : book.usdc d.vault = v.idle d := by rw [husdc]; rfl
    omega
  rw [hnav'] at hout hnet
  dsimp only at hburn hsupply hshares hsh' hsu'
  rw [hsh] at hburn hshares
  rw [hsu] at hsupply
  refine ⟨hburn, hsu'.trans hsupply, hsh'.trans hshares, hnet, gross, ?_, ?_⟩
  · rw [hgross]
    exact mulDivNat_floor_mul_le ..
  · rw [Nat.add_sub_cancel' hle] at hout
    exact hout

private theorem deposit_spec (hy : env.ExactDeploy d) (hc : s.Consistent) (hcaller : caller ≠ d.vault)
    (h : s.deposit d env caller assets receiver = .ok (shares, s')) :
    s'.netAssets d env = s.netAssets d env + assets ∧ s'.book.totalSupply = s.book.totalSupply + shares ∧
      s'.book.shares = update s.book.shares receiver (s.book.shares receiver + shares) ∧
      shares * (s.netAssets d env + 1) ≤ assets * (s.book.totalSupply + virtualShares) := by
  simp only [Vault.deposit, bind_eq_ok, add_eq_ok, mulDiv_eq_ok, ok.injEq, Prod.mk.injEq] at h
  obtain ⟨-, -, nav, hnav, -, -, -, -, -, ⟨-, rfl⟩, -, ⟨-, rfl⟩, -, ⟨-, -, rfl⟩, t, ht, rfl, rfl⟩ := h
  obtain ⟨hp, rfl⟩ := totalAssets_eq_ok hnav
  obtain ⟨h1, h2, h3⟩ := depositAt_spec hy hc hp hcaller ht
  exact ⟨h1, h2, h3, mulDivNat_floor_mul_le ..⟩

private theorem mint_spec (hy : env.ExactDeploy d) (hc : s.Consistent) (hcaller : caller ≠ d.vault)
    (h : s.mint d env caller shares receiver = .ok (assets, s')) :
    s'.netAssets d env = s.netAssets d env + assets ∧ s'.book.totalSupply = s.book.totalSupply + shares ∧
      s'.book.shares = update s.book.shares receiver (s.book.shares receiver + shares) ∧
      shares * (s.netAssets d env + 1) ≤ assets * (s.book.totalSupply + virtualShares) := by
  simp only [Vault.mint, previewMint, bind_eq_ok, ok.injEq, Prod.mk.injEq] at h
  obtain ⟨-, -, -, -, -, -, assets, hassets, nav, -, t, ht, rfl, rfl⟩ := h
  obtain ⟨hp, hceil⟩ := convertToAssets_eq hassets
  obtain ⟨h1, h2, h3⟩ := depositAt_spec hy hc hp hcaller ht
  refine ⟨h1, h2, h3, ?_⟩
  rw [hceil]
  exact le_mulDivNat_ceil_mul _ _ (by unfold virtualShares; omega)

end Vault

theorem ShareBook.transferShares_spec {source target : Address} (h : b.transferShares d source target value = .ok b') :
    b'.usdc = b.usdc ∧ b'.totalSupply = b.totalSupply := by
  simp only [transferShares, bind_eq_ok, revertIf_eq_ok] at h
  obtain ⟨-, hs, -, ht, h⟩ := h
  simp only [ShareBook.update, erc20Update, ShareBook.debit, bind_eq_ok, if_neg hs, if_neg ht, ok.injEq] at h
  obtain ⟨l, -, -, ⟨-, -, rfl⟩, rfl⟩ := h
  exact ⟨rfl, rfl⟩

private theorem Ledger.claim_vault {l l' : Ledger} {shares usdc usdc' : Balances} {id amount : Nat} {holder : Address}
    (h : l.claim d shares usdc id holder = .ok (amount, l', usdc')) : usdc d.vault ≤ usdc' d.vault := by
  simp only [Ledger.claim, bind_eq_ok] at h
  obtain ⟨a, -, h⟩ := h
  split at h
  · cases h
    exact le_rfl
  simp only [bind_eq_ok, moveUsdc_eq_ok, ok.injEq, Prod.mk.injEq] at h
  obtain ⟨-, -, -, -, -, -, usdc'', ⟨-, -, rfl⟩, -, -, rfl⟩ := h
  exact le_moveBalance (Ne.symm d.ledger_ne_vault)

/-- Nobody outside takes USDC from the vault, or changes the supply. -/
theorem outsideStep_vault {c : OutsideCall} (h : outsideStep d b c = .ok b') :
    b.usdc d.vault ≤ b'.usdc d.vault ∧ b'.totalSupply = b.totalSupply := by
  cases c with
  | transferShares source target value =>
    obtain ⟨husdc, hsupply⟩ := ShareBook.transferShares_spec h
    exact ⟨by rw [husdc], hsupply⟩
  | claim id holder =>
    simp only [outsideStep, OutsideCall.toBook, bookStep, ShareBook.claim, bind_eq_ok, ok.injEq] at h
    obtain ⟨x, ⟨⟨amount, l, u⟩, hl, rfl⟩, rfl⟩ := h
    exact ⟨Ledger.claim_vault hl, rfl⟩
  | claimAll holder =>
    simp only [outsideStep, OutsideCall.toBook, bookStep, ShareBook.claimAll, bind_eq_ok, ok.injEq] at h
    obtain ⟨x, ⟨⟨total, l, u⟩, hl, rfl⟩, rfl⟩ := h
    refine ⟨?_, rfl⟩
    refine foldlM_invariant (P := fun x : Nat × Ledger × Balances => b.usdc d.vault ≤ x.2.2 d.vault) ?_
      le_rfl hl
    intro x id x' _ hx hround
    simp only [Ledger.claimNext, bind_eq_ok, ok.injEq] at hround
    obtain ⟨⟨amount, m, usdc⟩, hclaim, -, -, -, -, rfl⟩ := hround
    exact hx.trans (Ledger.claim_vault hclaim)
  | returnSurplus =>
    simp only [outsideStep, OutsideCall.toBook, bookStep, ShareBook.returnSurplus, bind_eq_ok, ok.injEq] at h
    obtain ⟨x, ⟨⟨amount, usdc⟩, hr, rfl⟩, rfl⟩ := h
    refine ⟨?_, rfl⟩
    unfold Ledger.returnSurplus at hr
    dsimp only at hr
    split at hr
    · cases hr
      exact le_rfl
    simp only [bind_eq_ok, moveUsdc_eq_ok, ok.injEq, mk.injEq] at hr
    obtain ⟨-, ⟨-, -, rfl⟩, -, rfl⟩ := hr
    exact le_moveBalance (Ne.symm d.ledger_ne_vault)
  | issueUsdc account value =>
    simp only [outsideStep, OutsideCall.toBook, bookStep, ok.injEq] at h
    subst h
    refine ⟨?_, rfl⟩
    dsimp only
    by_cases ha : d.vault = account
    · subst ha; simp
    · rw [update_of_ne ha]
  | moveUsdc source target value =>
    simp only [outsideStep, OutsideCall.toBook, bookStep, bind_eq_ok, revertIf_eq_ok, moveUsdc_eq_ok,
      ok.injEq] at h
    obtain ⟨-, hsource, -, -, u, ⟨-, -, rfl⟩, rfl⟩ := h
    exact ⟨le_moveBalance (Ne.symm hsource), rfl⟩

theorem outsideRun_vault (d : Deployment) (b : ShareBook) (cs : List OutsideCall) :
    b.usdc d.vault ≤ (run (outsideStep d) b cs).usdc d.vault ∧
      (run (outsideStep d) b cs).totalSupply = b.totalSupply := by
  refine run_invariant
    (P := fun b' : ShareBook => b.usdc d.vault ≤ b'.usdc d.vault ∧ b'.totalSupply = b.totalSupply) ?_
    ⟨le_rfl, rfl⟩ cs
  rintro b' c b'' ⟨h1, h2⟩ hstep
  obtain ⟨h3, h4⟩ := outsideStep_vault hstep
  exact ⟨h1.trans h3, h4.trans h2⟩

section Runs

variable {σ : Type} (d : Deployment) (env : Outside σ)

/-- A user's transaction: an ERC-4626 flow or a movement of shares, or the outside world moving shares and USDC around
and donating to the vault, while the adapters stand still.  The vault never sends a transaction itself. -/
def UserTx (s : Vault σ) (tx : Tx σ) : Prop :=
  tx.sender ≠ d.vault ∧
    match tx.call with
    | .deposit .. | .mint .. | .withdraw .. | .redeem .. | .approve .. | .transferShares .. | .transferSharesFrom .. =>
      True
    | .outside _ hidden => hidden = s.hidden
    | _ => False

def usdcFlow (s : Vault σ) (tx : Tx σ) : Nat × Nat :=
  match tx.call with
  | .deposit assets receiver =>
    match { s with trace := [] }.deposit d env tx.sender assets receiver with
    | .ok _ => (assets, 0)
    | .error _ => (0, 0)
  | .mint shares receiver =>
    match { s with trace := [] }.mint d env tx.sender shares receiver with
    | .ok (assets, _) => (assets, 0)
    | .error _ => (0, 0)
  | .withdraw assets receiver owner =>
    match { s with trace := [] }.withdraw d env tx.sender assets receiver owner with
    | .ok _ => (0, assets)
    | .error _ => (0, 0)
  | .redeem shares receiver owner =>
    match { s with trace := [] }.redeem d env tx.sender shares receiver owner with
    | .ok (assets, _) => (0, assets)
    | .error _ => (0, 0)
  | _ => (0, 0)

def usdcFlows : Vault σ → List (Tx σ) → Nat × Nat
  | _, [] => (0, 0)
  | s, tx :: txs =>
    let rest := usdcFlows (exec (vaultStep d env) s tx) txs
    ((usdcFlow d env s tx).1 + rest.1, (usdcFlow d env s tx).2 + rest.2)

def OwnTx (account : Address) (tx : Tx σ) : Prop :=
  tx.sender = account ∧
    match tx.call with
    | .deposit _ receiver | .mint _ receiver => receiver = account
    | .withdraw _ receiver owner | .redeem _ receiver owner => receiver = account ∧ owner = account
    | _ => False

variable {d env} {s s' : Vault σ}

variable {tx : Tx σ}

private theorem price_withdrawAt (hx : env.ExactWithdraw d H) {p : Bool} (hs : s.Sound p) (hfunds : H s.hidden s.book)
    {caller receiver owner : Address} {assets shares : Nat}
    (h : s.withdrawAt d env caller receiver owner assets shares = .ok s') :
    PriceLe (s.netAssets d env) s.book.totalSupply (s'.netAssets d env) s'.book.totalSupply := by
  obtain ⟨hle, hsupply, -, -, gross, hprice, hout⟩ := Vault.withdrawAt_spec hx hs hfunds h
  rw [hsupply]
  exact price_burn hprice (hle.trans (hs.wellFormed.shares_le owner)) hout

private theorem price_transferShares {source target : Address} {value : Nat} {book : ShareBook}
    (h : s.book.transferShares d source target value = .ok book) :
    PriceLe (s.netAssets d env) s.book.totalSupply ({ s with book := book }.netAssets d env) book.totalSupply := by
  obtain ⟨husdc, hsupply⟩ := ShareBook.transferShares_spec h
  have hnav := Vault.netAssets_book d env s book
  rw [husdc] at hnav
  rw [hsupply]
  exact price_gift _ (Nat.le_of_add_le_add_right hnav.ge)

/-- Step lemma: no user action lowers the share price. -/
theorem price_step (hx : env.ExactWithdraw d H) (hy : env.ExactDeploy d) (hs : s.Sound false) (huser : UserTx d s tx)
    (hfunds : H s.hidden s.book) (h : vaultStep d env s tx = .ok s') :
    PriceLe (s.netAssets d env) s.book.totalSupply (s'.netAssets d env) s'.book.totalSupply := by
  have hs₀ : { s with trace := [] }.Sound false := hs.of_same ⟨rfl, rfl, .refl _, id, id⟩
  obtain ⟨sender, block, call⟩ := tx
  obtain ⟨hsender, hcall⟩ := huser
  unfold vaultStep at h
  dsimp only at hsender hcall h
  cases call with
  | deposit assets receiver =>
    simp only [vaultCall, bind_eq_ok, ok.injEq] at h
    obtain ⟨⟨shares, t⟩, ht, rfl⟩ := h
    obtain ⟨hnav, hsupply, -, hprice⟩ := Vault.deposit_spec hy hs₀.toConsistent hsender ht
    dsimp only
    rw [hnav, hsupply]
    exact price_mint hprice
  | mint shares receiver =>
    simp only [vaultCall, bind_eq_ok, ok.injEq] at h
    obtain ⟨⟨assets, t⟩, ht, rfl⟩ := h
    obtain ⟨hnav, hsupply, -, hprice⟩ := Vault.mint_spec hy hs₀.toConsistent hsender ht
    dsimp only
    rw [hnav, hsupply]
    exact price_mint hprice
  | withdraw assets receiver owner =>
    simp only [vaultCall, Vault.withdraw, bind_eq_ok, ok.injEq] at h
    obtain ⟨x, ⟨-, -, -, -, shares, -, t, ht, rfl⟩, rfl⟩ := h
    have hprice := price_withdrawAt hx hs₀ hfunds ht
    exact hprice
  | redeem shares receiver owner =>
    simp only [vaultCall, Vault.redeem, bind_eq_ok, ok.injEq] at h
    obtain ⟨x, ⟨-, -, assets, -, t, ht, rfl⟩, rfl⟩ := h
    have hprice := price_withdrawAt hx hs₀ hfunds ht
    exact hprice
  | approve spender value =>
    simp only [vaultCall, Vault.approve, bind_eq_ok, ok.injEq] at h
    obtain ⟨-, -, -, -, rfl⟩ := h
    exact .refl _ _
  | transferShares target value =>
    simp only [vaultCall, Vault.transferShares, bind_eq_ok, ok.injEq] at h
    obtain ⟨book, hb, rfl⟩ := h
    exact price_transferShares hb
  | transferSharesFrom source target value =>
    simp only [vaultCall, Vault.transferSharesFrom, Vault.transferShares, bind_eq_ok, ok.injEq] at h
    obtain ⟨t, ht, book, hb, rfl⟩ := h
    obtain ⟨allowance, rfl⟩ := Vault.spendAllowance_eq ht
    exact price_transferShares hb
  | outside calls hidden =>
    simp only [vaultCall, ok.injEq] at h
    subst h hcall
    obtain ⟨husdc, hsupply⟩ := outsideRun_vault d s.book calls
    have hnav := Vault.netAssets_book d env { s with trace := [] } (run (outsideStep d) s.book calls)
    show PriceLe _ _ _ (run (outsideStep d) s.book calls).totalSupply
    rw [hsupply]
    refine price_gift _ ?_
    refine Nat.le_of_add_le_add_right (b := s.idle d) (le_trans ?_ hnav.ge)
    exact Nat.add_le_add_left husdc _
  | _ => exact absurd hcall id

private theorem price_run (hx : env.ExactWithdraw d H) (hy : env.ExactDeploy d) (hs : s.Sound false) {txs : List (Tx σ)}
    (huser : Along (vaultStep d env) (UserTx d) s txs)
    (hfunds : Along (vaultStep d env) (fun t _ => H t.hidden t.book) s txs) :
    PriceLe (s.netAssets d env) s.book.totalSupply ((run (vaultStep d env) s txs).netAssets d env)
      (run (vaultStep d env) s txs).book.totalSupply := by
  have hinv := (along_and.2 ⟨huser, hfunds⟩).invariant
    (P := fun t : Vault σ => t.Sound false ∧
      PriceLe (s.netAssets d env) s.book.totalSupply (t.netAssets d env) t.book.totalSupply) ?_ ⟨hs, .refl _ _⟩
  · exact hinv.2
  · rintro t tx t' ⟨hts, hprice⟩ ⟨htx, hfunds⟩ hstep
    exact ⟨sound_step hts hstep, hprice.trans (price_step hx hy hts htx hfunds hstep)⟩

/-- Step lemma: what an account pays in or takes out moves the net asset value by as much, but for fees, and the supply
by its own shares. -/
theorem own_step (hx : env.ExactWithdraw d H) (hy : env.ExactDeploy d) (hs : s.Sound false) {account : Address}
    (haccount : account ≠ d.vault) (hown : OwnTx account tx) (hfunds : H s.hidden s.book)
    (h : vaultStep d env s tx = .ok s') :
    s'.netAssets d env + (usdcFlow d env s tx).2 ≤ s.netAssets d env + (usdcFlow d env s tx).1 ∧
      s'.book.totalSupply + s.book.shares account = s.book.totalSupply + s'.book.shares account := by
  have hs₀ : { s with trace := [] }.Sound false := hs.of_same ⟨rfl, rfl, .refl _, id, id⟩
  have hle := hs.wellFormed.shares_le account
  obtain ⟨sender, block, call⟩ := tx
  obtain ⟨hsender, hcall⟩ := hown
  unfold vaultStep at h
  dsimp only at hsender hcall h
  subst hsender
  cases call with
  | deposit assets receiver =>
    simp only [vaultCall, bind_eq_ok, ok.injEq] at h
    obtain ⟨⟨shares, t⟩, ht, rfl⟩ := h
    dsimp only at hcall
    subst hcall
    obtain ⟨hnav, hsupply, hshares, -⟩ := Vault.deposit_spec hy hs₀.toConsistent haccount ht
    simp only [usdcFlow, ht]
    refine ⟨hnav.le, ?_⟩
    rw [hsupply, hshares, update_self]
    dsimp only
    omega
  | mint shares receiver =>
    simp only [vaultCall, bind_eq_ok, ok.injEq] at h
    obtain ⟨⟨assets, t⟩, ht, rfl⟩ := h
    dsimp only at hcall
    subst hcall
    obtain ⟨hnav, hsupply, hshares, -⟩ := Vault.mint_spec hy hs₀.toConsistent haccount ht
    simp only [usdcFlow, ht]
    refine ⟨hnav.le, ?_⟩
    rw [hsupply, hshares, update_self]
    dsimp only
    omega
  | withdraw assets receiver owner =>
    simp only [vaultCall, bind_eq_ok, ok.injEq] at h
    obtain ⟨⟨shares, t⟩, ht, rfl⟩ := h
    obtain ⟨rfl, rfl⟩ := hcall
    have hflow : usdcFlow d env s ⟨owner, block, .withdraw assets owner owner⟩ = (0, assets) := by
      simp only [usdcFlow, ht]
    simp only [Vault.withdraw, bind_eq_ok, ok.injEq, mk.injEq] at ht
    obtain ⟨-, -, -, -, shares', -, t', ht', rfl, rfl⟩ := ht
    obtain ⟨hburn, hsupply, hshares, hnet, -⟩ := Vault.withdrawAt_spec hx hs₀ hfunds ht'
    rw [hflow]
    refine ⟨hnet haccount, ?_⟩
    dsimp only at hburn ⊢
    rw [hsupply, hshares, update_self]
    dsimp only
    omega
  | redeem shares receiver owner =>
    simp only [vaultCall, bind_eq_ok, ok.injEq] at h
    obtain ⟨⟨assets, t⟩, ht, rfl⟩ := h
    obtain ⟨rfl, rfl⟩ := hcall
    have hflow : usdcFlow d env s ⟨owner, block, .redeem shares owner owner⟩ = (0, assets) := by
      simp only [usdcFlow, ht]
    simp only [Vault.redeem, bind_eq_ok, ok.injEq, mk.injEq] at ht
    obtain ⟨-, -, assets', -, t', ht', rfl, rfl⟩ := ht
    obtain ⟨hburn, hsupply, hshares, hnet, -⟩ := Vault.withdrawAt_spec hx hs₀ hfunds ht'
    rw [hflow]
    refine ⟨hnet haccount, ?_⟩
    dsimp only at hburn ⊢
    rw [hsupply, hshares, update_self]
    dsimp only
    omega
  | _ => exact absurd hcall id

theorem usdcFlow_of_error {e : Revert} (h : vaultStep d env s tx = .error e) : usdcFlow d env s tx = (0, 0) := by
  obtain ⟨sender, block, call⟩ := tx
  unfold vaultStep at h
  cases call with
  | deposit assets receiver | mint shares receiver | withdraw assets receiver owner | redeem shares receiver owner =>
    simp only [vaultCall] at h
    simp only [usdcFlow]
    split
    · rename_i heq
      rw [heq] at h
      cases h
    · rfl
  | _ => rfl

private theorem own_run (hx : env.ExactWithdraw d H) (hy : env.ExactDeploy d) (hs : s.Sound false) {account : Address}
    (haccount : account ≠ d.vault) {txs : List (Tx σ)} (hown : ∀ tx ∈ txs, OwnTx account tx)
    (hfunds : Along (vaultStep d env) (fun t _ => H t.hidden t.book) s txs) :
    (run (vaultStep d env) s txs).netAssets d env + (usdcFlows d env s txs).2 ≤
        s.netAssets d env + (usdcFlows d env s txs).1 ∧
      (run (vaultStep d env) s txs).book.totalSupply + s.book.shares account =
        s.book.totalSupply + (run (vaultStep d env) s txs).book.shares account := by
  induction txs generalizing s with
  | nil => exact ⟨le_rfl, rfl⟩
  | cons tx txs ih =>
    have hrest : ∀ tx ∈ txs, OwnTx account tx := fun tx htx => hown tx (by simp [htx])
    obtain ⟨hfunds, hlater⟩ := hfunds
    rw [run_cons]
    simp only [usdcFlows]
    cases hstep : vaultStep d env s tx with
    | error e =>
      rw [exec_of_error hstep] at hlater ⊢
      rw [usdcFlow_of_error hstep]
      obtain ⟨h1, h2⟩ := ih hs hrest hlater
      exact ⟨by omega, h2⟩
    | ok s' =>
      rw [exec_of_ok hstep] at hlater ⊢
      obtain ⟨h1, h2⟩ := own_step hx hy hs haccount (hown tx (by simp)) hfunds hstep
      obtain ⟨h3, h4⟩ := ih (sound_step hs hstep) hrest hlater
      exact ⟨by omega, by omega⟩

end Runs

/-- The share price never falls by user action.  From every state the system reaches, over every run of deposits, mints,
exits, share movements and donations with adapters that do what they say, and can pay when they are called: the price at
the end is no lower than at the start, and an account that starts without shares and only deposits and exits for itself
takes out no more than it paid in. -/
theorem share_price_never_falls {σ : Type} (d : Deployment) (env : Outside σ) (H : σ → ShareBook → Prop)
    (hx : env.ExactWithdraw d H) (hy : env.ExactDeploy d) (s : Vault σ) (hreach : s.Reached d env) (txs : List (Tx σ))
    (huser : Along (vaultStep d env) (UserTx d) s txs)
    (hfunds : Along (vaultStep d env) (fun t _ => H t.hidden t.book) s txs) :
    (∀ nav nav', s.totalAssets d env = .ok nav → (run (vaultStep d env) s txs).totalAssets d env = .ok nav' →
      (nav + 1) * ((run (vaultStep d env) s txs).book.totalSupply + 10 ^ 18) ≤
        (nav' + 1) * (s.book.totalSupply + 10 ^ 18)) ∧
    ∀ account, s.book.shares account = 0 → (∀ tx ∈ txs, OwnTx account tx) →
      (usdcFlows d env s txs).2 ≤ (usdcFlows d env s txs).1 := by
  have hprice := price_run hx hy hreach.sound huser hfunds
  constructor
  · intro nav nav' hnav hnav'
    rw [(Vault.totalAssets_eq_ok hnav).2, (Vault.totalAssets_eq_ok hnav').2]
    exact hprice
  · intro account hzero hown
    cases htxs : txs with
    | nil => exact le_rfl
    | cons tx rest =>
      rw [← htxs]
      have haccount : account ≠ d.vault := by
        rw [htxs] at huser hown
        rw [← (hown tx (by simp)).1]
        exact huser.1.1
      obtain ⟨hflows, hsupply⟩ := own_run hx hy hreach.sound haccount hown hfunds
      have hassets := hprice.assets_le (by omega)
      omega

def twoAdapters : List (Tx (Address → Nat)) :=
  [⟨21, .sample, .setAdapterCodeHashAllowed 7 true⟩, ⟨21, .sample, .setAdapterAllowed 30 true⟩,
    ⟨21, .sample, .setAdapterAllowed 31 true⟩, ⟨21, .sample, .addAdapter 30 5000⟩,
    ⟨21, .sample, .addAdapter 31 10000⟩]

def inAndOut : List (Tx (Address → Nat)) :=
  [⟨5, .sample, .deposit 1000 5⟩, ⟨5, .sample, .withdraw 300 5 5⟩, ⟨5, .sample, .redeem (600 * 10 ^ 18) 5 5⟩]

theorem share_price_inAndOut :
    ∃ s : Vault (Address → Nat), s.Reached .sample .sample ∧ usdcFlows .sample .sample s inAndOut = (1000, 899) ∧
      (usdcFlows .sample .sample s inAndOut).2 ≤ (usdcFlows .sample .sample s inAndOut).1 := by
  obtain ⟨s₀, hinit, hreached⟩ := Vault.sample_reached .sample (fun _ => 0) twoAdapters
  cases hinit
  refine ⟨_, hreached, rfl, ?_⟩
  refine (share_price_never_falls _ _ _ Outside.sample_exactWithdraw Outside.sample_exactDeploy _ hreached inAndOut
    ?_ ⟨trivial, trivial, trivial, trivial⟩).2 5 rfl ?_
  · exact ⟨⟨by decide, trivial⟩, ⟨by decide, trivial⟩, ⟨by decide, trivial⟩, trivial⟩
  · intro tx htx
    simp only [inAndOut, List.mem_cons, List.not_mem_nil, or_false] at htx
    rcases htx with rfl | rfl | rfl
    · exact ⟨rfl, rfl⟩
    · exact ⟨rfl, rfl, rfl⟩
    · exact ⟨rfl, rfl, rfl⟩

end RobotMoney
