import RobotMoney.Vault.DepositLimits

/-!
# What a rebalance moves

`rebalance` pulls no more than a slice of the net asset value out of the adapters, and then routes the whole idle
balance, not only what it pulled.

* With exact adapters the pull takes the smaller of the slice and the total excess over the targets
  (`rebalancePull_takes`).
* What it moves in both phases stays within the slice exactly when the vault was nearly out of idle USDC, or the
  adapters out of room (`rebalance_within_throttle_iff`).
-/

namespace RobotMoney

open Evm Finset Function Except

/-- Adapters that pay out what they are asked for, up to what they report, and change nothing else the vault reads, as
long as the outside state and the book meet `H`. -/
structure Outside.ExactPull {σ : Type} (d : Deployment) (env : Outside σ) (known : Address → Prop)
    (H : σ → ShareBook → Prop) : Prop where
  withdraws : ∀ h book a x n eff, H h book → known a → env.totalAssets h a = .returned n → x ≤ n →
    env.withdraw h a x = .returned eff → eff.returned = x ∧ env.totalAssets eff.hidden a = .returned (n - x) ∧
    (∀ b, known b → b ≠ a → env.totalAssets eff.hidden b = env.totalAssets h b) ∧
    (∀ b, known b → env.codehash eff.hidden b = env.codehash h b ∧ env.usdcView eff.hidden b = env.usdcView h b ∧
      env.vaultView eff.hidden b = env.vaultView h b ∧ env.maxExposure eff.hidden b = env.maxExposure h b) ∧
    (run (outsideStep d) book eff.calls).usdc d.vault = book.usdc d.vault + x ∧
    H eff.hidden (run (outsideStep d) book eff.calls)

namespace Vault

variable {σ : Type} {d : Deployment} {env : Outside σ} {H : σ → ShareBook → Prop} {s s' t u : Vault σ}

namespace Placed

variable {placed placed' : Nat → Nat}

section

variable (h : Placed d env s placed t)

include h

private theorem activeAdapter_iff (a : Address) : t.ActiveAdapter a ↔ s.ActiveAdapter a := by
  unfold ActiveAdapter
  rw [h.adapters]

theorem trans (h' : Placed d env t placed' u) : Placed d env s (fun i => placed i + placed' i) u where
  adapters := h'.adapters.trans h.adapters
  allowed := h'.allowed.trans h.allowed
  codeHashAllowed := h'.codeHashAllowed.trans h.codeHashAllowed
  openExclusionOf := h'.openExclusionOf.trans h.openExclusionOf
  views := by
    intro a ha
    obtain ⟨h₁, h₂, h₃, h₄⟩ := h.views a ha
    obtain ⟨g₁, g₂, g₃, g₄⟩ := h'.views a ((h.activeAdapter_iff a).2 ha)
    exact ⟨g₁.trans h₁, g₂.trans h₂, g₃.trans h₃, g₄.trans h₄⟩
  uncounted := by
    intro i hi
    have hi' : t.isCounted d env i ≠ .ok true := by
      rw [h.isCounted_eq]
      exact hi
    rw [h.uncounted i hi, h'.uncounted i hi']
  reports := by
    intro i e he hact n hn
    have he' : t.adapters[i]? = some e := by
      rw [h.adapters]
      exact he
    rw [← add_assoc]
    exact h'.reports i e he' hact _ (h.reports i e he hact n hn)
  idle := by
    have hidle := h.idle
    have hidle' := h'.idle
    rw [h.adapters] at hidle'
    rw [sum_add_distrib]
    omega

private theorem balanceAt_eq (hexact : env.Exact d s.ActiveAdapter) {i : Nat} {e : AdapterInfo}
    (he : s.adapters[i]? = some e) (hact : e.active = true) : t.balanceAt env i = s.balanceAt env i + placed i := by
  obtain ⟨n, hn⟩ := hexact.reports s.hidden e.adapter ⟨e, List.mem_of_getElem? he, hact, rfl⟩
  have he' : t.adapters[i]? = some e := by
    rw [h.adapters]
    exact he
  simp only [balanceAt, he, he', hn, h.reports i e he hact n hn]

private theorem ceilingAt_eq {i : Nat} {e : AdapterInfo} (he : s.adapters[i]? = some e)
    (hact : e.active = true) (total : Nat) : t.ceilingAt env total i = s.ceilingAt env total i := by
  obtain ⟨-, -, -, hcap⟩ := h.views e.adapter ⟨e, List.mem_of_getElem? he, hact, rfl⟩
  have he' : t.adapters[i]? = some e := by
    rw [h.adapters]
    exact he
  simp only [ceilingAt, he, he', hcap]

end

end Placed

/-- After `x` was withdrawn from entry `i`: placing it again would lead back. -/
theorem callWithdraw_takes (hpull : env.ExactPull d s.ActiveAdapter H) (hfunds : H s.hidden s.book)
    (hdistinct : s.ActiveDistinct) {i x n p : Nat} {e : AdapterInfo} (he : s.adapters[i]? = some e)
    (hc : s.isCounted d env i = .ok true)
    (hn : env.totalAssets s.hidden e.adapter = .returned n) (hx : x ≤ n)
    (hok : s.callWithdraw d env e.adapter x = .ok (p, t)) :
    p = x ∧ Placed d env t (update (fun _ => 0) i x) s ∧ H t.hidden t.book := by
  have hactive := activeAdapter_of_counted he hc
  have hact := (counted_entry he hc).1
  have hi : i < s.adapters.length := (List.getElem?_eq_some_iff.1 he).1
  simp only [callWithdraw, bind_eq_ok, Reply.value_eq_ok, ok.injEq, Prod.mk.injEq] at hok
  obtain ⟨eff, heff, rfl, rfl⟩ := hok
  obtain ⟨hreturned, hreport, hothers, hviews, hpaid, hkept⟩ :=
    hpull.withdraws s.hidden s.book e.adapter x n eff hfunds hactive hn hx heff
  have hpaid : ((s.contact e.adapter).applyEffect d eff).idle d = s.idle d + x := hpaid
  refine ⟨hreturned, ⟨rfl, rfl, rfl, rfl, ?_, ?_, ?_, ?_⟩, hkept⟩
  · intro a ha
    obtain ⟨h₁, h₂, h₃, h₄⟩ := hviews a ha
    exact ⟨h₁.symm, h₂.symm, h₃.symm, h₄.symm⟩
  · intro j hj
    by_cases hji : j = i
    · -- the entry that paid is still counted
      subst hji
      obtain ⟨f, hf, hact', hopen, heligible⟩ := isCounted_eq_true.1 hc
      obtain rfl : f = e := Option.some.inj (hf.symm.trans he)
      obtain ⟨hcode, husdc, hvault, -⟩ := hviews f.adapter hactive
      have hsame : ((s.contact f.adapter).applyEffect d eff).isEligible d env f.adapter =
          s.isEligible d env f.adapter := by
        simp only [isEligible, applyEffect, contact, hcode, husdc, hvault]
      have hcounted : ((s.contact f.adapter).applyEffect d eff).isCounted d env j = .ok true :=
        isCounted_eq_true.2 ⟨f, hf, hact', hopen, hsame.trans heligible⟩
      exact absurd hcounted hj
    · exact update_of_ne hji ..
  · intro j f hf hact' m hm
    have hf' : s.adapters[j]? = some f := hf
    by_cases hji : j = i
    · subst hji
      obtain rfl : f = e := Option.some.inj (hf'.symm.trans he)
      obtain rfl : n - x = m := Reply.returned.inj (hreport.symm.trans hm)
      rw [update_self, Nat.sub_add_cancel hx]
      exact hn
    have hne : f.adapter ≠ e.adapter := fun heq => hji (hdistinct j i f e hf' he hact' hact heq)
    rw [update_of_ne hji, add_zero]
    exact (hothers f.adapter ⟨f, List.mem_of_getElem? hf', hact', rfl⟩ hne).symm.trans hm
  · have hsum : ∑ j ∈ range s.adapters.length, update (fun _ => 0) i x j = x := by
      rw [sum_update_of_mem (mem_range.2 hi), sum_const_zero, add_zero]
    show s.idle d + ∑ j ∈ range s.adapters.length, update (fun _ => 0) i x j = _
    rw [hsum, hpaid]

/-- `totalAssets * maxRebalanceBpsPerCall / MAX_BPS`. -/
def throttle (s : Vault σ) (nav : Nat) : Nat := nav * s.maxRebalanceBpsPerCall / maxBps

/-- The equal-weight target of entry `i`. -/
def targetAt (s : Vault σ) (nav i : Nat) : Nat :=
  match equalWeightBalance nav (s.activeBelow i) s.activeCount with
  | .ok target => target
  | .error _ => 0

variable (d env) in
/-- What entry `i` holds above its target: nothing unless it is active and usable. -/
def excessAt (s : Vault σ) (nav i : Nat) : Nat :=
  match s.isCounted d env i with
  | .ok true => s.balanceAt env i - s.targetAt nav i
  | _ => 0

variable (d env) in
/-- The excess of the entries below `k`, up to `most`. -/
def pulledBelow (s : Vault σ) (nav most k : Nat) : Nat :=
  min most (∑ i ∈ range k, s.excessAt d env nav i)

variable (d env) in
/-- The part of entry `i` in what is pulled. -/
def pulledAt (s : Vault σ) (nav most i : Nat) : Nat :=
  s.pulledBelow d env nav most (i + 1) - s.pulledBelow d env nav most i

private theorem excessAt_of_counted {nav i : Nat} (h : s.isCounted d env i = .ok true) :
    s.excessAt d env nav i = s.balanceAt env i - s.targetAt nav i := by
  rw [excessAt, h]

theorem excessAt_of_not_counted {nav i : Nat} (h : s.isCounted d env i ≠ .ok true) : s.excessAt d env nav i = 0 := by
  unfold excessAt
  split
  · contradiction
  · rfl

private theorem pulledBelow_succ (nav most k : Nat) : s.pulledBelow d env nav most (k + 1) =
      s.pulledBelow d env nav most k + min (most - s.pulledBelow d env nav most k) (s.excessAt d env nav k) := by
  unfold pulledBelow
  rw [sum_range_succ]
  omega

private theorem pulledAt_eq (nav most i : Nat) :
    s.pulledAt d env nav most i = min (most - s.pulledBelow d env nav most i) (s.excessAt d env nav i) := by
  rw [pulledAt, pulledBelow_succ, Nat.add_sub_cancel_left]

private theorem sum_pulledAt (nav most k : Nat) :
    ∑ i ∈ range k, s.pulledAt d env nav most i = s.pulledBelow d env nav most k := by
  induction k with
  | zero => simp [pulledBelow]
  | succ k ih => rw [sum_range_succ, ih, pulledAt_eq, pulledBelow_succ]

/-- The pull before entry `k`: the entries below it have given their part. -/
structure Rebalancing (d : Deployment) (env : Outside σ) (H : σ → ShareBook → Prop) (s : Vault σ) (nav most k : Nat)
    (r : Rebalance σ) : Prop where
  vault : Placed d env r.vault (fun i => if i < k then s.pulledAt d env nav most i else 0) s
  moved : r.moved = s.pulledBelow d env nav most k
  rank : r.moved < most → r.rank = s.activeBelow k
  funds : H r.vault.hidden r.vault.book

private theorem Rebalancing.skip {nav most k rank : Nat} {r : Rebalance σ} (h : Rebalancing d env H s nav most k r)
    (hnone : s.pulledAt d env nav most k = 0) (hrank : r.moved < most → rank = s.activeBelow (k + 1)) :
    Rebalancing d env H s nav most (k + 1) { r with rank := rank } := by
  have hpulled : (fun i => if i < k + 1 then s.pulledAt d env nav most i else 0) =
      fun i => if i < k then s.pulledAt d env nav most i else 0 := by
    funext i
    by_cases hik : i = k
    · subst hik
      rw [if_pos (Nat.lt_succ_self i), if_neg (lt_irrefl i), hnone]
    have hiff : i < k + 1 ↔ i < k := by omega
    simp only [hiff]
  refine ⟨by rw [hpulled]; exact h.vault, ?_, hrank, h.funds⟩
  have hmoved := h.moved
  rw [pulledAt_eq] at hnone
  rw [pulledBelow_succ, hnone]
  exact hmoved

section Pull

variable {nav most : Nat} (hexact : env.Exact d s.ActiveAdapter) (hpull : env.ExactPull d s.ActiveAdapter H)
  (hdistinct : s.ActiveDistinct)

include hexact hpull hdistinct

private theorem Rebalancing.pull {k p : Nat} {r : Rebalance σ} (h : Rebalancing d env H s nav most k r)
    {e : AdapterInfo}
    (he : s.adapters[k]? = some e) (hc : s.isCounted d env k = .ok true)
    (hok : r.vault.callWithdraw d env e.adapter (s.pulledAt d env nav most k) = .ok (p, t)) :
    p = s.pulledAt d env nav most k ∧
      Placed d env t (fun i => if i < k + 1 then s.pulledAt d env nav most i else 0) s ∧ H t.hidden t.book := by
  have hact := (counted_entry he hc).1
  have hknown : r.vault.ActiveAdapter = s.ActiveAdapter := funext fun a => propext (h.vault.activeAdapter_iff a).symm
  have hev : r.vault.adapters[k]? = some e := by
    rw [← h.vault.adapters]
    exact he
  have hcv : r.vault.isCounted d env k = .ok true := by
    rw [← h.vault.isCounted_eq]
    exact hc
  have hdv : r.vault.ActiveDistinct := by
    unfold ActiveDistinct
    rw [← h.vault.adapters]
    exact hdistinct
  obtain ⟨n, hn⟩ := hexact.reports r.vault.hidden e.adapter ⟨e, List.mem_of_getElem? he, hact, rfl⟩
  have hbalance : s.balanceAt env k = n := by
    have hreport := h.vault.reports k e hev hact n hn
    simp only [lt_irrefl, if_false, add_zero] at hreport
    simp only [balanceAt, he, hreport]
  have hle : s.pulledAt d env nav most k ≤ n := by
    rw [pulledAt_eq, excessAt_of_counted hc]
    omega
  obtain ⟨hp, hplaced, hkept⟩ := callWithdraw_takes (hknown ▸ hpull) h.funds hdv hev hcv hn hle hok
  refine ⟨hp, ?_, hkept⟩
  have hsplit : (fun i => if i < k + 1 then s.pulledAt d env nav most i else 0) = fun i =>
      update (fun _ => 0) k (s.pulledAt d env nav most k) i +
        (if i < k then s.pulledAt d env nav most i else 0) := by
    funext i
    by_cases hik : i = k
    · subst hik
      simp
    have hiff : i < k + 1 ↔ i < k := by omega
    simp only [update_of_ne hik, hiff, zero_add]
  rw [hsplit]
  exact hplaced.trans h.vault

private theorem rebalanceEntry_takes {k : Nat} {r r' : Rebalance σ} (hk : k < s.adapters.length)
    (h : Rebalancing d env H s nav most k r) (hok : rebalanceEntry d env nav most s.activeCount r k = .ok r') :
    Rebalancing d env H s nav most (k + 1) r' := by
  obtain ⟨e, he⟩ : ∃ e, s.adapters[k]? = some e := ⟨_, List.getElem?_eq_getElem hk⟩
  have hev : r.vault.adapters[k]? = some e := by
    rw [← h.vault.adapters]
    exact he
  have hmoved := h.moved
  have hcount := activeBelow_succ he
  simp only [rebalanceEntry, entry_eq_ok.2 hev, ok_bind] at hok
  split at hok
  · rename_i hpass
    cases hok
    refine h.skip ?_ ?_
    · rcases hpass with hinactive | hfull
      · have hnot : s.isCounted d env k ≠ .ok true := fun hc => by
          rw [(counted_entry he hc).1] at hinactive
          cases hinactive
        rw [pulledAt_eq, excessAt_of_not_counted hnot, Nat.min_zero]
      rw [pulledAt_eq]
      omega
    · intro hlt
      rcases hpass with hinactive | hfull
      · rw [h.rank hlt, hcount, hinactive]
        rfl
      · omega
  rename_i hgo
  simp only [not_or, not_le, Bool.not_eq_false] at hgo
  obtain ⟨hact, hlt⟩ := hgo
  rw [hact, if_pos rfl] at hcount
  have hrank := h.rank hlt
  have hnext : r.rank + 1 = s.activeBelow (k + 1) := by rw [hrank, hcount]
  simp only [bind_eq_ok] at hok
  obtain ⟨target, htarget, usable, husable, hok⟩ := hok
  have htargetAt : s.targetAt nav k = target := by rw [targetAt, ← hrank, htarget]
  rw [← h.vault.isUsable_eq hev hact] at husable
  have hcounted := isCounted_of_usable he hact husable
  split at hok
  · rename_i htrue
    have hc : s.isCounted d env k = .ok true := htrue ▸ hcounted
    have hexcess : s.excessAt d env nav k = s.balanceAt env k - target := by
      rw [excessAt_of_counted hc, htargetAt]
    have hpart := @pulledAt_eq _ d env s nav most k
    rw [hexcess, ← hmoved] at hpart
    obtain ⟨n, hn⟩ := hexact.reports r.vault.hidden e.adapter ⟨e, List.mem_of_getElem? he, hact, rfl⟩
    have hbalance : s.balanceAt env k = n := by
      have hreport := h.vault.reports k e hev hact n hn
      simp only [lt_irrefl, if_false, add_zero] at hreport
      simp only [balanceAt, he, hreport]
    have hread : r.vault.reported env e.adapter = .ok n := by
      rw [reported, hn]
      rfl
    rw [hread, ok_bind] at hok
    split at hok
    · cases hok
      exact h.skip (by omega) fun _ => hnext
    simp only [bind_eq_ok] at hok
    obtain ⟨-, -, hok⟩ := hok
    rw [← hbalance, ← hpart] at hok
    split at hok
    · rename_i hnone
      cases hok
      exact h.skip hnone fun _ => hnext
    simp only [bind_eq_ok, Prod.exists, add_eq_ok, ok.injEq] at hok
    obtain ⟨p, u, hwithdraw, -, ⟨-, rfl⟩, rfl⟩ := hok
    obtain ⟨rfl, hplaced, hkept⟩ := h.pull hexact hpull hdistinct he hc hwithdraw
    refine ⟨hplaced, ?_, fun _ => hnext, hkept⟩
    rw [pulledBelow_succ, hexcess, ← hmoved, ← hpart]
  rename_i hfalse
  cases hok
  refine h.skip ?_ fun _ => hnext
  have hnot : s.isCounted d env k ≠ .ok true := fun hc => by
    rw [hcounted] at hc
    exact hfalse (ok.inj hc)
  rw [pulledAt_eq, excessAt_of_not_counted hnot, Nat.min_zero]

private theorem rebalancePull_takes (hfunds : H s.hidden s.book) (hok : s.rebalancePull d env nav most = .ok t) :
    ∃ pulled, Placed d env t pulled s ∧ ∀ i < s.adapters.length, pulled i = s.pulledAt d env nav most i := by
  simp only [rebalancePull, bind_eq_ok, ok.injEq] at hok
  obtain ⟨r, hloop, rfl⟩ := hok
  have hstart : Rebalancing d env H s nav most 0 ⟨s, 0, 0⟩ :=
    ⟨.refl d env s, by simp [pulledBelow], fun _ => by simp [activeBelow], hfunds⟩
  have hend : Rebalancing d env H s nav most s.adapters.length r :=
    foldlM_range_invariant (P := fun k r => Rebalancing d env H s nav most k r)
      (fun k r r' hk hr hround => rebalanceEntry_takes hexact hpull hdistinct hk hr hround) hstart hloop
  exact ⟨_, hend.vault, fun i hi => if_pos hi⟩

end Pull

theorem routeDeposit_places (hexact : env.Exact d s.ActiveAdapter) (hdistinct : s.ActiveDistinct) {amount total : Nat}
    (hok : s.routeDeposit d env amount total = .ok s') :
    s'.idle d + min amount (∑ i ∈ range s.adapters.length, s.headroom d env total i) = s.idle d := by
  obtain ⟨placed, r, hrouting, rfl, hfull⟩ := routeDeposit_routed hexact hdistinct hok
  have hsum := hrouting.remaining
  have hidle := hrouting.vault.idle
  have hle : ∑ i ∈ range s.adapters.length, placed i ≤
      ∑ i ∈ range s.adapters.length, s.headroom d env total i :=
    sum_le_sum fun i _ => hrouting.within i
  by_cases hzero : r.remaining = 0
  · omega
  have hge : ∑ i ∈ range s.adapters.length, s.headroom d env total i ≤
      ∑ i ∈ range s.adapters.length, placed i :=
    sum_le_sum fun i hi => hfull hzero i (mem_range.1 hi)
  omega

variable (d env) in
/-- What entry `i` may receive once its excess was pulled: nothing unless it is active and usable. -/
def roomAt (s : Vault σ) (nav most i : Nat) : Nat :=
  match s.isCounted d env i with
  | .ok true => s.ceilingAt env nav i - (s.balanceAt env i - s.pulledAt d env nav most i)
  | _ => 0

/-- The vault `t` between the two phases of a rebalance of `s` that ends in `s'`. -/
structure RebalancePhases (d : Deployment) (env : Outside σ) (block : Block) (s t s' : Vault σ) (nav : Nat) : Prop where
  total : s.totalAssets d env = .ok nav
  pull : { s with lastRebalanceAt := block.timestamp.val }.rebalancePull d env nav (s.throttle nav) = .ok t
  route : t.routeIdle d env = .ok s'

/-- The USDC that left the adapters in the first phase, and that left the vault in the second. -/
def movedBy (d : Deployment) (s t s' : Vault σ) : Nat := (t.idle d - s.idle d) + (t.idle d - s'.idle d)

variable (d env) in
/-- Twice the pull and the idle USDC, or the pull and the room for it, stay within the throttle. -/
def WithinThrottle (s : Vault σ) (nav : Nat) : Prop :=
  s.idle d + 2 * s.pulledBelow d env nav (s.throttle nav) s.adapters.length ≤ s.throttle nav ∨
    s.pulledBelow d env nav (s.throttle nav) s.adapters.length +
      ∑ i ∈ range s.adapters.length, s.roomAt d env nav (s.throttle nav) i ≤ s.throttle nav

private theorem rebalance_phases {block : Block} {sender : Address} (h : s.rebalance d env block sender = .ok s') :
    ∃ t nav, RebalancePhases d env block s t s' nav := by
  simp only [rebalance, bind_eq_ok, mul_eq_ok] at h
  obtain ⟨-, -, -, -, -, -, -, -, -, -, -, -, nav, hnav, cap, ⟨-, rfl⟩, t, hpull, hroute⟩ := h
  exact ⟨t, nav, hnav, hpull, hroute⟩

theorem Placed.headroom_eq {pulled : Nat → Nat} (h : Placed d env t pulled s) (hexact : env.Exact d t.ActiveAdapter)
    {nav most i : Nat} (hpulled : pulled i = s.pulledAt d env nav most i) :
    t.headroom d env nav i = s.roomAt d env nav most i := by
  have hcounted := h.isCounted_eq i
  unfold headroom roomAt
  rw [hcounted]
  cases hc : t.isCounted d env i with
  | error reason => rfl
  | ok b =>
    cases b with
    | false => rfl
    | true =>
      obtain ⟨e, he, hact, -⟩ := isCounted_eq_true.1 hc
      simp only [h.ceilingAt_eq he hact, h.balanceAt_eq hexact he hact, ← hpulled, Nat.add_sub_cancel]

private theorem RebalancePhases.moved {block : Block} {nav : Nat} (h : RebalancePhases d env block s t s' nav)
    (hexact : env.Exact d s.ActiveAdapter) (hpull : env.ExactPull d s.ActiveAdapter H) (hfunds : H s.hidden s.book)
    (hdistinct : s.ActiveDistinct) :
    t.idle d = s.idle d + s.pulledBelow d env nav (s.throttle nav) s.adapters.length ∧
      s'.idle d + min (t.idle d) (∑ i ∈ range s.adapters.length, s.roomAt d env nav (s.throttle nav) i) =
        t.idle d := by
  obtain ⟨pulled, hplaced, hpulled⟩ := rebalancePull_takes (s := { s with lastRebalanceAt := block.timestamp.val })
    hexact hpull hdistinct hfunds h.pull
  have hknown : t.ActiveAdapter = s.ActiveAdapter := funext fun a => propext (hplaced.activeAdapter_iff a).symm
  have hexact' : env.Exact d t.ActiveAdapter := hknown ▸ hexact
  have hadapters : s.adapters = t.adapters := hplaced.adapters
  have hdistinct' : t.ActiveDistinct := by
    unfold ActiveDistinct
    rw [← hadapters]
    exact hdistinct
  have hidle : s.idle d + ∑ i ∈ range t.adapters.length, pulled i = t.idle d := hplaced.idle
  have hsum : ∑ i ∈ range s.adapters.length, pulled i =
      s.pulledBelow d env nav (s.throttle nav) s.adapters.length := by
    rw [← sum_pulledAt]
    exact sum_congr rfl fun i hi => hpulled i (mem_range.1 hi)
  rw [← hadapters, hsum] at hidle
  refine ⟨hidle.symm, ?_⟩
  have hroute := h.route
  unfold routeIdle at hroute
  split at hroute
  · rename_i hzero
    cases hroute
    omega
  simp only [bind_eq_ok] at hroute
  obtain ⟨nav', hnav', hroute⟩ := hroute
  -- both phases work with one net asset value
  have hsame : nav' = nav := by
    rw [(totalAssets_eq_ok hnav').2, (totalAssets_eq_ok h.total).2]
    exact (hplaced.netAssets hexact').symm
  subst hsame
  have hroom : ∑ i ∈ range t.adapters.length, t.headroom d env nav' i =
      ∑ i ∈ range s.adapters.length, s.roomAt d env nav' (s.throttle nav') i := by
    rw [← hadapters]
    exact sum_congr rfl fun i hi => hplaced.headroom_eq hexact' (hpulled i (mem_range.1 hi))
  rw [← hroom]
  exact routeDeposit_places hexact' hdistinct' hroute

end Vault

/-- In every state the system reaches with exact adapters that can pay: what a rebalance that goes through moves, in
both phases, is within the throttle exactly under `WithinThrottle`. -/
theorem rebalance_within_throttle_iff {σ : Type} (d : Deployment) (env : Outside σ) (s : Vault σ)
    (hreach : s.Reached d env) (hexact : env.Exact d s.ActiveAdapter) (H : σ → ShareBook → Prop)
    (hpull : env.ExactPull d s.ActiveAdapter H) (hfunds : H s.hidden s.book) (sender : Address) (block : Block)
    (s' : Vault σ) (h : vaultStep d env s ⟨sender, block, .rebalance⟩ = .ok s') :
    ∃ t nav, Vault.RebalancePhases d env block { s with trace := [] } t s' nav ∧ s.idle d ≤ t.idle d ∧
      s'.idle d ≤ t.idle d ∧ (Vault.movedBy d s t s' ≤ s.throttle nav ↔ s.WithinThrottle d env nav) := by
  have hdistinct := hreach.sound.toConsistent.activeDistinct
  obtain ⟨t, nav, hphases⟩ := Vault.rebalance_phases h
  obtain ⟨hpulled, hplaced⟩ := hphases.moved hexact hpull hfunds hdistinct
  have hpulled : t.idle d = s.idle d + s.pulledBelow d env nav (s.throttle nav) s.adapters.length := hpulled
  have hplaced : s'.idle d +
      min (t.idle d) (∑ i ∈ range s.adapters.length, s.roomAt d env nav (s.throttle nav) i) = t.idle d := hplaced
  refine ⟨t, nav, hphases, by omega, by omega, ?_⟩
  unfold Vault.movedBy Vault.WithinThrottle
  omega

theorem Outside.sample_exactPull {known : Address → Prop} : Outside.sample.ExactPull .sample known fun _ _ => True where
  withdraws := by
    intro h book a x n eff _ _ hn hx heff
    cases hn
    simp only [Outside.sample, if_pos hx, Reply.returned.injEq] at heff
    subst heff
    refine ⟨rfl, by simp [Outside.sample], fun b _ hb => by simp [Outside.sample, hb],
      fun b _ => ⟨rfl, rfl, rfl, rfl⟩, ?_, trivial⟩
    show update book.usdc 1 (book.usdc 1 + x) 1 = book.usdc 1 + x
    rw [update_self]

private theorem exact_of_twoAdapters {s : Vault (Address → Nat)}
    (h : s.adapters = [⟨30, 5000, true⟩, ⟨31, 10000, true⟩]) : Outside.sample.Exact .sample s.ActiveAdapter := by
  refine Outside.sample_exact ?_
  rintro a ⟨e, he, -, rfl⟩
  rw [h] at he
  rcases List.mem_cons.1 he with rfl | he
  · exact ⟨by decide, by decide⟩
  cases List.mem_singleton.1 he
  exact ⟨by decide, by decide⟩

/-- Of 1000 USDC, 100 move from the one adapter to the other: 200 with both phases, of at most 250. -/
theorem rebalance_within_throttle_iff_between :
    ∃ (s t s' : Vault (Address → Nat)) (block : Block), s.Reached .sample .sample ∧
      Vault.RebalancePhases .sample .sample block { s with trace := [] } t s' 1000 ∧
      s.throttle 1000 = 250 ∧ Vault.movedBy .sample s t s' ≤ 250 := by
  obtain ⟨s₀, hinit, hreached⟩ := Vault.sample_reached .sample (fun _ => 0) (twoAdapters ++
    [⟨5, .sample, .deposit 1000 5⟩,
      ⟨5, .sample, .outside [] (update (update (fun _ => 0) 30 600) 31 400)⟩])
  cases hinit
  obtain ⟨t, nav, hphases, -, -, hmoved⟩ := rebalance_within_throttle_iff .sample .sample _ hreached
    (exact_of_twoAdapters rfl) _ Outside.sample_exactPull trivial 21 ⟨2, ⟨43200, by decide, by decide⟩⟩ _ rfl
  obtain rfl : 1000 = nav := ok.inj hphases.total
  exact ⟨_, t, _, _, hreached, hphases, rfl, (hmoved.2 (.inl (by decide +kernel))).trans (by decide +kernel)⟩

/-- With 1000 USDC that came in past `deposit`, a rebalance moves all of it, four times the throttle. -/
theorem rebalance_exceeds_throttle :
    ∃ (s t s' : Vault (Address → Nat)) (block : Block), s.Reached .sample .sample ∧
      Outside.sample.Exact .sample s.ActiveAdapter ∧
        Outside.sample.ExactPull .sample s.ActiveAdapter (fun _ _ => True) ∧
      vaultStep .sample .sample s ⟨21, block, .rebalance⟩ = .ok s' ∧
      Vault.RebalancePhases .sample .sample block { s with trace := [] } t s' 1000 ∧
      s.throttle 1000 = 250 ∧ Vault.movedBy .sample s t s' = 1000 := by
  obtain ⟨s₀, hinit, hreached⟩ := Vault.sample_reached .sample (fun _ => 0) (twoAdapters ++
    [⟨5, .sample, .outside [.moveUsdc 5 1 1000] fun _ => 0⟩])
  cases hinit
  exact ⟨_, _, _, ⟨2, ⟨43200, by decide, by decide⟩⟩, hreached, exact_of_twoAdapters rfl, Outside.sample_exactPull, rfl,
    ⟨rfl, rfl, rfl⟩, rfl, rfl⟩

end RobotMoney
