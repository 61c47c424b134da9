import RobotMoney.Basket.InKind
import RobotMoney.Basket.Redeem

/-!
# Fairness of a redemption in kind

Every leg of `redeemInKind` pays the floor of the pro-rata amount, part of it to the fee recipient and the rest to the
receiver.  The transfers of a call are the payments of its legs one after the other (`payLegs_eq`), because a leg is
computed from the balance of its own token and the legs have different tokens: one entry a token, and never USDC.  What
stays of a token is what it had less what was paid away, and the floor leaves the remaining shares no less of it than
they had (`redeemInKind_fair`).
-/

namespace RobotMoney.Basket

open Evm

namespace BasketVault

open List

def withWallet (v : BasketVault) (w : Wallet) : BasketVault := { v with wallet := w }

def legAmount (v : BasketVault) (shares supply : Nat) (token : Address) : Nat :=
  mulDivNat .floor (v.balanceOf token) shares supply

def legFee (v : BasketVault) (shares supply : Nat) (token : Address) : Nat :=
  mulDivNat .floor (v.legAmount shares supply token) v.exitFeeBps maxBps

/-- The transfers of a leg: the fee, unless it is zero, and the rest; none at all for an amount of zero. -/
def legPayments (v : BasketVault) (receiver : Address) (shares supply : Nat) (token : Address) : List Payment :=
  if v.legAmount shares supply token = 0 then []
  else
    (if v.legFee shares supply token > 0 then [⟨token, v.feeRecipient, v.legFee shares supply token⟩] else []) ++
      [⟨token, receiver, v.legAmount shares supply token - v.legFee shares supply token⟩]

def outflow (v : BasketVault) (payments : List Payment) : Nat :=
  ((payments.filter fun p => p.target ≠ v.self).map (·.amount)).sum

variable {u u' v v' : BasketVault} {ps ps' : List Payment} {receiver token : Address} {shares supply : Nat}

theorem outflow_append (v : BasketVault) (l l' : List Payment) : v.outflow (l ++ l') = v.outflow l + v.outflow l' := by
  simp [outflow]

@[simp] theorem withWallet_withWallet (v : BasketVault) (w w' : Wallet) :
    (v.withWallet w).withWallet w' = v.withWallet w' := rfl

@[simp] theorem outflow_withWallet (v : BasketVault) (w : Wallet) (l : List Payment) :
    (v.withWallet w).outflow l = v.outflow l := rfl

@[simp] theorem outflow_nil (v : BasketVault) : v.outflow [] = 0 := rfl

private theorem outflow_singleton (v : BasketVault) (p : Payment) :
    v.outflow [p] = if p.target = v.self then 0 else p.amount := by
  by_cases h : p.target = v.self
  · simp [outflow, h]
  · simp [outflow, h]

private theorem outflow_singleton_le (v : BasketVault) (p : Payment) : v.outflow [p] ≤ p.amount := by
  rw [outflow_singleton]
  split <;> omega

private theorem token_of_mem_legPayments {p : Payment} (h : p ∈ v.legPayments receiver shares supply token) :
    p.token = token := by
  unfold legPayments at h
  split at h
  · cases h
  split at h
  · simp only [cons_append, nil_append, mem_cons, not_mem_nil, or_false] at h
    rcases h with rfl | rfl <;> rfl
  simp only [nil_append, mem_singleton] at h
  rw [h]

private theorem legFee_le (v : BasketVault) (shares supply : Nat) (token : Address) :
    v.legFee shares supply token ≤ v.legAmount shares supply token := by
  have hfee := v.fee_le
  unfold maxExitFeeBps at hfee
  have hscaled := mulDivNat_floor_mul_le (v.legAmount shares supply token) v.exitFeeBps maxBps
  unfold maxBps at hscaled
  have hbound : v.legAmount shares supply token * v.exitFeeBps ≤ v.legAmount shares supply token * 10000 :=
    Nat.mul_le_mul_left _ (by omega)
  exact Nat.le_of_mul_le_mul_right (hscaled.trans hbound) (by omega)

private theorem outflow_legPayments_le (v : BasketVault) (receiver : Address) (shares supply : Nat) (token : Address) :
    v.outflow (v.legPayments receiver shares supply token) ≤ v.legAmount shares supply token := by
  have hle := v.legFee_le shares supply token
  unfold legPayments
  split
  · exact Nat.zero_le _
  rw [outflow_append]
  have hfee : v.outflow (if v.legFee shares supply token > 0 then
      [⟨token, v.feeRecipient, v.legFee shares supply token⟩] else []) ≤ v.legFee shares supply token := by
    split
    · exact v.outflow_singleton_le _
    · exact Nat.zero_le _
  have hnet := v.outflow_singleton_le
    ⟨token, receiver, v.legAmount shares supply token - v.legFee shares supply token⟩
  dsimp only at hnet
  omega

private theorem legPayments_withWallet {w : Wallet} (h : (u.withWallet w).balanceOf token = u.balanceOf token) :
    (u.withWallet w).legPayments receiver shares supply token = u.legPayments receiver shares supply token := by
  unfold legPayments legFee legAmount
  rw [h]
  rfl

private theorem safeTransfer_spec {p : Payment} (h : u.safeTransfer p = .ok u') :
    (∃ w, u' = u.withWallet w) ∧ (∀ t, t ≠ p.token → u'.balanceOf t = u.balanceOf t) ∧
      u'.balanceOf p.token + u.outflow [p] = u.balanceOf p.token := by
  rw [outflow_singleton]
  unfold safeTransfer at h
  split at h
  · rename_i husdc
    unfold withUsdc at h
    split at h
    · rename_i usdc htransfer
      cases h
      obtain ⟨-, hidle, rfl⟩ := Token.transfer_eq_ok.1 htransfer
      refine ⟨⟨_, rfl⟩, fun t ht => ?_, ?_⟩
      · rw [husdc] at ht
        simp only [balanceOf, if_neg ht]
      · simp only [balanceOf, if_pos husdc, idle]
        split
        · rename_i htarget
          rw [htarget, moveBalance_self _ _ hidle, add_zero]
        rename_i htarget
        rw [moveBalance_source (Ne.symm htarget)]
        omega
    · cases h
  rename_i husdc
  simp only [bind_eq_ok, revertIf_eq_ok] at h
  obtain ⟨-, -, -, hheld, h⟩ := h
  split at h
  · rename_i htarget
    cases h
    rw [if_pos htarget]
    exact ⟨⟨_, rfl⟩, fun t _ => rfl, rfl⟩
  rename_i htarget
  cases h
  rw [if_neg htarget]
  refine ⟨⟨_, rfl⟩, fun t ht => ?_, ?_⟩
  · simp only [balanceOf, idle, Function.update_of_ne ht]
  · simp only [balanceOf, if_neg husdc, Function.update_self]
    omega

private theorem pays_spec {l : List Payment} (h : l.foldlM pay (u, ps) = .ok (u', ps')) :
    (∃ w, u' = u.withWallet w) ∧ ps' = ps ++ l ∧
      ∀ t, u'.balanceOf t + u.outflow (l.filter fun p => p.token = t) = u.balanceOf t := by
  induction l generalizing u ps with
  | nil =>
    cases h
    exact ⟨⟨_, rfl⟩, by simp, fun t => rfl⟩
  | cons p l ih =>
    rw [foldlM_cons] at h
    obtain ⟨⟨u₁, ps₁⟩, hpay, hrest⟩ := bind_eq_ok.1 h
    simp only [pay, bind_eq_ok, Except.ok.injEq, Prod.mk.injEq] at hpay
    obtain ⟨v₁, htransfer, rfl, rfl⟩ := hpay
    obtain ⟨⟨w, rfl⟩, hothers, hself⟩ := safeTransfer_spec htransfer
    obtain ⟨⟨w', rfl⟩, rfl, hlater⟩ := ih hrest
    refine ⟨⟨w', rfl⟩, by simp, fun t => ?_⟩
    simp only [withWallet_withWallet, outflow_withWallet] at hlater ⊢
    have hrest := hlater t
    by_cases ht : p.token = t
    · subst ht
      rw [filter_cons_of_pos (by simp), ← singleton_append, outflow_append, ← hself]
      omega
    rw [filter_cons_of_neg (by simpa using ht), ← hothers t (Ne.symm ht)]
    exact hlater t

private theorem payLeg_eq {s' : BasketVault × List Payment} (h : payLeg receiver shares supply (u, ps) token = .ok s') :
    (u.legPayments receiver shares supply token).foldlM pay (u, ps) = .ok s' := by
  simp only [payLeg, bind_eq_ok, mulDiv_eq_ok] at h
  obtain ⟨amount, ⟨-, -, rfl⟩, h⟩ := h
  unfold legPayments
  change (if u.legAmount shares supply token = 0 then _ else _) = _ at h
  split at h
  · rename_i hzero
    rw [if_pos hzero]
    exact h
  rename_i hsome
  rw [if_neg hsome]
  simp only [bind_eq_ok, mulDiv_eq_ok, sub_eq_ok] at h
  obtain ⟨fee, ⟨-, -, rfl⟩, s₁, hfee, net, ⟨-, rfl⟩, hpay⟩ := h
  change payLegFee (u, ps) token (u.legFee shares supply token) = _ at hfee
  change pay s₁ ⟨token, receiver, u.legAmount shares supply token - u.legFee shares supply token⟩ = _ at hpay
  rw [foldlM_append]
  have hfirst : (if u.legFee shares supply token > 0 then
      [⟨token, u.feeRecipient, u.legFee shares supply token⟩] else []).foldlM pay (u, ps) = .ok s₁ := by
    unfold payLegFee at hfee
    split at hfee
    · rename_i hpos
      rw [if_pos hpos, foldlM_cons, hfee]
      rfl
    rename_i hnone
    rw [if_neg hnone]
    exact hfee
  rw [hfirst, ok_bind, foldlM_cons, hpay]
  rfl

private theorem payLegs_eq {tokens : List Address} (htokens : tokens.Nodup) {s' : BasketVault × List Payment}
    (h : tokens.foldlM (payLeg receiver shares supply) (u, ps) = .ok s') :
    (tokens.flatMap (u.legPayments receiver shares supply)).foldlM pay (u, ps) = .ok s' := by
  induction tokens generalizing u ps with
  | nil => exact h
  | cons token rest ih =>
    obtain ⟨hnew, hrest⟩ := nodup_cons.1 htokens
    rw [foldlM_cons] at h
    obtain ⟨⟨u₁, ps₁⟩, hleg, hlater⟩ := bind_eq_ok.1 h
    have hpays := payLeg_eq hleg
    obtain ⟨⟨w, rfl⟩, -, hbalance⟩ := pays_spec hpays
    have hsame : ∀ t ∈ rest, (u.withWallet w).legPayments receiver shares supply t =
        u.legPayments receiver shares supply t := by
      intro t ht
      apply legPayments_withWallet
      have hnone : ((u.legPayments receiver shares supply token).filter fun p => p.token = t) = [] := by
        rw [filter_eq_nil_iff]
        intro p hp hpt
        rw [token_of_mem_legPayments hp] at hpt
        exact hnew (of_decide_eq_true hpt ▸ ht)
      have hkept := hbalance t
      rwa [hnone, outflow_nil, add_zero] at hkept
    rw [flatMap_cons, foldlM_append, hpays, ok_bind, ← ih hrest hlater, flatMap_congr hsame]

private theorem legs_nodup (v : BasketVault) : v.legs.Nodup := by
  refine nodup_cons.2 ⟨?_, v.tokens_nodup.sublist (filter_sublist.map _)⟩
  intro h
  obtain ⟨a, ha, htoken⟩ := mem_map.1 h
  exact v.tokens_ne_usdc a (mem_of_mem_filter ha) htoken

private theorem payInKind_spec {gas : Nat} (h : u.payInKind gas receiver shares supply = .ok (u', ps')) :
    ps' = u.legs.flatMap (u.legPayments receiver shares supply) ∧
      ∀ t, u'.balanceOf t + u.outflow (ps'.filter fun p => p.token = t) = u.balanceOf t := by
  obtain ⟨-, -, hlegs⟩ := bind_eq_ok.1 h
  obtain ⟨-, hpayments, hbalance⟩ := pays_spec (payLegs_eq u.legs_nodup hlegs)
  rw [nil_append] at hpayments
  exact ⟨hpayments, fun t => hpayments ▸ hbalance t⟩

private theorem inactive_not_mem_legs {a : AssetInfo} (ha : a ∈ v.assets) (hinactive : a.active = false) :
    a.token ∉ v.legs := by
  intro h
  rcases mem_cons.1 h with husdc | h
  · exact v.tokens_ne_usdc a ha husdc
  obtain ⟨b, hb, htoken⟩ := mem_map.1 h
  obtain ⟨hmem, hactive⟩ := mem_filter.1 hb
  obtain rfl : b = a := inj_on_of_nodup_map v.tokens_nodup hmem ha htoken
  rw [hinactive] at hactive
  cases hactive

private theorem filter_flatMap_of_nodup {f : Address → List Payment} (hf : ∀ t, ∀ p ∈ f t, p.token = t)
    {tokens : List Address} (h : tokens.Nodup) (t : Address) :
    ((tokens.flatMap f).filter fun p => p.token = t) = if t ∈ tokens then f t else [] := by
  induction tokens with
  | nil => rfl
  | cons s tokens ih =>
    obtain ⟨hs, hrest⟩ := nodup_cons.1 h
    rw [flatMap_cons, filter_append, ih hrest]
    by_cases ht : s = t
    · subst ht
      have hown : ((f s).filter fun p => p.token = s) = f s := by
        rw [filter_eq_self]
        intro p hp
        exact decide_eq_true (hf s p hp)
      rw [hown, if_neg hs, if_pos (mem_cons_self ..), append_nil]
    have hother : ((f s).filter fun p => p.token = t) = [] := by
      rw [filter_eq_nil_iff]
      intro p hp hpt
      exact ht ((hf s p hp).symm.trans (of_decide_eq_true hpt))
    have hmem : (t ∈ s :: tokens) = (t ∈ tokens) := by simp [Ne.symm ht]
    rw [hother, nil_append]
    simp only [hmem]

private theorem spendFor_eq_ok {caller owner : Address} (h : v.spendFor caller owner shares = .ok v') :
    ∃ allowance, v' = { v with allowance := allowance } := by
  unfold spendFor spendAllowance at h
  split at h
  · split at h
    · cases h
      exact ⟨_, rfl⟩
    simp only [bind_eq_ok, Except.ok.injEq] at h
    obtain ⟨-, -, rfl⟩ := h
    exact ⟨_, rfl⟩
  cases h
  exact ⟨_, rfl⟩

private theorem backing_kept {before after paid shares supply : Nat} (hpaid : after + paid = before)
    (hle : paid ≤ mulDivNat .floor before shares supply) : before * (supply - shares) ≤ after * supply := by
  have hfloor := mulDivNat_floor_mul_le before shares supply
  have hscaled : paid * supply ≤ before * shares := (Nat.mul_le_mul_right _ hle).trans hfloor
  have hsplit : before * supply = after * supply + paid * supply := by rw [← hpaid, add_mul]
  rw [Nat.mul_sub, hsplit]
  omega

/-- In kind is fair.  A redemption that returns pays each leg once, the fee and the rest adding up to the floor of its
pro-rata amount; every balance falls by what was paid away of it; a token without a leg, such as that of an inactive
asset, is neither paid nor moved; and of no token do the remaining shares have less behind them than before. -/
theorem redeemInKind_fair {gas : Nat} {caller owner : Address} {payments : List Payment}
    (h : v.redeemInKind gas caller shares receiver owner = .ok (v', payments)) :
    v'.totalSupply = v.totalSupply - shares ∧
    (∀ token ∈ v.legs, (payments.filter fun p => p.token = token) =
        v.legPayments receiver shares v.totalSupply token ∧
      v.legFee shares v.totalSupply token +
          (v.legAmount shares v.totalSupply token - v.legFee shares v.totalSupply token) =
        v.legAmount shares v.totalSupply token) ∧
    (∀ token, v'.balanceOf token + v.outflow (payments.filter fun p => p.token = token) = v.balanceOf token) ∧
    (∀ a ∈ v.assets, a.active = false →
      v'.balanceOf a.token = v.balanceOf a.token ∧ ∀ p ∈ payments, p.token ≠ a.token) ∧
    ∀ token, v.balanceOf token * (v.totalSupply - shares) ≤ v'.balanceOf token * v.totalSupply := by
  have hburns := burns_redeemInKind h
  simp only [redeemInKind, bind_eq_ok, revertIf_eq_ok] at h
  obtain ⟨v₁, hspend, -, howner, h⟩ := h
  split at h
  · rename_i hle
    -- the allowance and the shares are no part of a leg
    obtain ⟨allowance, rfl⟩ := spendFor_eq_ok hspend
    have hpayments : payments = v.legs.flatMap (v.legPayments receiver shares v.totalSupply) := (payInKind_spec h).1
    have hbalance : ∀ t, v'.balanceOf t + v.outflow (payments.filter fun p => p.token = t) = v.balanceOf t :=
      (payInKind_spec h).2
    have hown : ∀ t, (payments.filter fun p => p.token = t) =
        if t ∈ v.legs then v.legPayments receiver shares v.totalSupply t else [] := by
      intro t
      rw [hpayments]
      exact filter_flatMap_of_nodup (fun t p hp => token_of_mem_legPayments hp) v.legs_nodup t
    refine ⟨hburns.supply, fun t ht => ⟨?_, Nat.add_sub_cancel' (v.legFee_le shares v.totalSupply t)⟩, hbalance,
      fun a ha hinactive => ?_, fun t => ?_⟩
    · rw [hown t, if_pos ht]
    · have hleg := inactive_not_mem_legs ha hinactive
      have hnone := (hown a.token).trans (if_neg hleg)
      have hkept := hbalance a.token
      rw [hnone, outflow_nil, add_zero] at hkept
      refine ⟨hkept, fun p hp htoken => ?_⟩
      exact filter_eq_nil_iff.1 hnone p hp (decide_eq_true htoken)
    · refine backing_kept (hbalance t) ?_
      rw [hown t]
      split
      · exact v.outflow_legPayments_le receiver shares v.totalSupply t
      · exact Nat.zero_le _
  · cases h

end BasketVault

private theorem shelfFee_le : 100 ≤ maxExitFeeBps := le_rfl

def shelfAssets : List AssetInfo :=
  [⟨61, 62, 500, true, 0, .v3⟩, ⟨63, 64, 500, false, 0, .v3⟩, ⟨65, 66, 500, true, 0, .v3⟩]

private theorem shelfAssets_nodup : (shelfAssets.map (·.token)).Nodup := by decide

private theorem shelfAssets_ne_usdc : ∀ a ∈ shelfAssets, a.token ≠ freshBasket.usdcToken := by decide

def shelfBasket : BasketVault :=
  BasketVault.mintShares (BasketVault.mintShares
    { freshBasket with
      assets := shelfAssets
      exitFeeBps := 100
      wallet := ⟨⟨fun a => if a = 50 then 1000 else 0, fun _ _ => 0⟩,
        fun t => if t = 61 then 100000 else if t = 63 then 500 else 7⟩
      fee_le := shelfFee_le
      tokens_nodup := shelfAssets_nodup
      tokens_ne_usdc := shelfAssets_ne_usdc } 7 40) 8 60

/-- Account 7 redeems a third of a hundred shares to account 5: a fee on the legs that are large enough, none on the
others, and the removed token stays. -/
theorem redeemInKind_fair_shelf :
    ∃ v', shelfBasket.redeemInKind 1500000 7 33 5 7 =
        .ok (v', [⟨60, 9, 3⟩, ⟨60, 5, 327⟩, ⟨61, 9, 330⟩, ⟨61, 5, 32670⟩, ⟨65, 5, 2⟩]) ∧
      v'.balanceOf 63 = shelfBasket.balanceOf 63 ∧
      ∀ token, shelfBasket.balanceOf token * (shelfBasket.totalSupply - 33) ≤
        v'.balanceOf token * shelfBasket.totalSupply := by
  have hpaid : (shelfBasket.redeemInKind 1500000 7 33 5 7).map (·.2) =
      .ok [⟨60, 9, 3⟩, ⟨60, 5, 327⟩, ⟨61, 9, 330⟩, ⟨61, 5, 32670⟩, ⟨65, 5, 2⟩] := by decide +kernel
  cases hcall : shelfBasket.redeemInKind 1500000 7 33 5 7 with
  | error e =>
    rw [hcall] at hpaid
    cases hpaid
  | ok r =>
    obtain ⟨v', payments⟩ := r
    rw [hcall] at hpaid
    cases hpaid
    obtain ⟨-, -, -, hinactive, hbacking⟩ := BasketVault.redeemInKind_fair hcall
    have hremoved : (⟨63, 64, 500, false, 0, .v3⟩ : AssetInfo) ∈ shelfBasket.assets :=
      List.mem_cons_of_mem _ (List.mem_cons_self ..)
    exact ⟨v', rfl, (hinactive _ hremoved rfl).1, hbacking⟩

end RobotMoney.Basket
