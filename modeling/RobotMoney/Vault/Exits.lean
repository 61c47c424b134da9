import RobotMoney.Vault.Price

/-!
# Exits are open

An exit reads the net asset value, pulls the gross amount out of the adapters, burns and pays.  With adapters that
deliver, only three things can stop it: a probe of `isEligible` that reverts, a word that overflows, and the guard
against a payout of zero.  The first is not meant to happen: `isEligible` is documented never to revert, but it decodes
a returned word as an address, and decoding reverts when the upper 96 bits of the word are not zero.  So one active
adapter that answers `USDC()` or `VAULT()` with such a word takes every exit of the vault with it.

`exits_open_iff_probes_decode` says that this is all: where the words on the path fit, exits are open exactly when
every probe decodes.
-/

namespace RobotMoney

open Evm Function

/-- In the outside states and books `H`, each of the contracts `A` reports a balance and pays any part of it on
demand. -/
structure Outside.Delivers {σ : Type} (d : Deployment) (env : Outside σ) (A : Address → Prop)
    (H : σ → ShareBook → Prop) : Prop where
  reports : ∀ {w book a}, H w book → A a → ∃ t, env.totalAssets w a = .returned t
  delivers : ∀ {w book a x t}, H w book → A a → env.totalAssets w a = .returned t → x ≤ t →
    ∃ eff, env.withdraw w a x = .returned eff ∧ eff.returned = x ∧ eff.Pays d env w book a x ∧
      env.totalAssets eff.hidden a = .returned (t - x) ∧ H eff.hidden (run (outsideStep d) book eff.calls)

def StaticReply.Clean (r : StaticReply) : Prop := r.ok = true → r.length = 32 → r.word < 2 ^ 160

namespace Vault

variable {σ : Type} (d : Deployment) (env : Outside σ)

/-- The probes of `isEligible` that are made for `a` decode. -/
def ProbesDecodeAt (s : Vault σ) (a : Address) : Prop :=
  s.allowed a = true → s.codeHashAllowed (env.codehash s.hidden a) = true →
    (env.usdcView s.hidden a).Clean ∧
      (answers (env.usdcView s.hidden a) d.usdc = .ok true → (env.vaultView s.hidden a).Clean)

def ProbesDecode (s : Vault σ) : Prop :=
  ∀ i e, s.adapters[i]? = some e → e.active = true → s.openExclusionOf i = 0 → s.ProbesDecodeAt d env e.adapter

def CountedAdapter (s : Vault σ) (a : Address) : Prop :=
  ∃ i e, s.isCounted d env i = .ok true ∧ s.adapters[i]? = some e ∧ e.adapter = a

def Blocked (s : Vault σ) : Prop :=
  ∃ i e, s.adapters[i]? = some e ∧ e.active = true ∧ s.isCounted d env i ≠ .ok true

/-- What `shares` are worth before the exit fee. -/
def grossOf (s : Vault σ) (shares : Nat) : Nat :=
  mulDivNat .floor shares (s.netAssets d env + 1) (s.book.totalSupply + virtualShares)

end Vault

/-- Reporting the balance of `account` to the ledger fits in the fields of a checkpoint. -/
def ShareBook.CheckpointFits (b : ShareBook) (account : Address) : Prop :=
  b.snapshots = true → ((b.ledger.checkpoints account).getLast?.any fun c => b.ledger.exclusionCount ≤ c.id) = false →
    b.ledger.exclusionCount < 2 ^ 48 ∧ b.shares account < 2 ^ 208

namespace Vault

open List Finset

variable {σ : Type} (d : Deployment) (env : Outside σ)

/-- The words on the way of an exit of `owner` fit. -/
structure ExitFits (s : Vault σ) (owner : Address) : Prop where
  nav : s.netAssets d env + 1 < wordSize
  supply : s.book.totalSupply + virtualShares < wordSize
  products : ∀ i < s.adapters.length,
    (s.grossOf d env (s.book.shares owner) - s.idle d) * s.contribution d env i < wordSize
  checkpoint : s.book.CheckpointFits owner

/-- The exit took the gross value out of the vault: `assets` for the receiver, the rest for the fee recipient.  The
balances `usdc` are those after the adapters have paid. -/
structure Exited (s s' : Vault σ) (receiver owner : Address) (assets gross shares : Nat) : Prop where
  covered : assets ≤ gross
  burnt : s'.book.shares = update s.book.shares owner (s.book.shares owner - shares)
  paid : ∃ usdc, usdc d.vault = max (s.idle d) gross ∧
    s'.book.usdc = moveBalance (moveBalance usdc d.vault s.feeRecipient (gross - assets)) d.vault receiver assets

/-- The owner can redeem any part of the balance, unless it is worth nothing while an entry is excluded, and can
withdraw what `maxWithdraw` says. -/
structure ExitsOpen (s : Vault σ) (owner receiver : Address) : Prop where
  redeem : ∀ shares, 0 < shares → shares ≤ s.book.shares owner → ¬ (s.grossOf d env shares = 0 ∧ s.Blocked d env) →
    ∃ assets s', s.previewRedeem d env shares = .ok assets ∧
      s.redeem d env owner shares receiver owner = .ok (assets, s') ∧
      s.Exited d s' receiver owner assets (s.grossOf d env shares) shares
  withdraw : ∃ assets shares, s.maxWithdraw d env owner = .ok assets ∧ s.previewWithdraw d env assets = .ok shares ∧
    shares ≤ s.book.shares owner ∧
    (0 < assets → ∃ s', s.withdraw d env owner assets receiver owner = .ok (shares, s') ∧
      s.Exited d s' receiver owner assets (s.grossOf d env shares) shares)

variable {d env} {s s' v : Vault σ}

theorem answers_returns {r : StaticReply} (expected : Address) : (∃ b, answers r expected = .ok b) ↔ r.Clean := by
  unfold Vault.answers StaticReply.Clean
  by_cases hshape : r.ok = false ∨ r.length ≠ 32
  · rw [if_pos hshape]
    refine ⟨fun _ hok hlength => ?_, fun _ => ⟨false, rfl⟩⟩
    rcases hshape with h | h
    · rw [h] at hok
      cases hok
    · exact absurd hlength h
  rw [if_neg hshape]
  simp only [not_or, Bool.not_eq_false, ne_eq, not_not] at hshape
  simp only [hshape.1, hshape.2, forall_const, bind_eq_ok, Except.ok.injEq]
  unfold decodeAddress
  by_cases hword : r.word < 2 ^ 160
  · exact ⟨fun _ => hword, fun _ => ⟨_, ⟨r.word, hword⟩, dif_pos hword, rfl⟩⟩
  refine ⟨?_, fun h => absurd h hword⟩
  rintro ⟨b, a, ha, -⟩
  rw [dif_neg hword] at ha
  cases ha

theorem isEligible_returns {a : Address} : (∃ b, s.isEligible d env a = .ok b) ↔ s.ProbesDecodeAt d env a := by
  unfold isEligible Vault.ProbesDecodeAt
  by_cases hallowed : s.allowed a = false
  · simp [hallowed]
  by_cases hcode : s.codeHashAllowed (env.codehash s.hidden a) = false
  · simp [hallowed, hcode]
  rw [if_neg hallowed, if_neg hcode]
  simp only [Bool.not_eq_false] at hallowed hcode
  simp only [hallowed, hcode, forall_const, bind_eq_ok]
  rw [← answers_returns d.usdc, ← answers_returns d.vault]
  constructor
  · rintro ⟨b, usdcOk, husdc, h⟩
    refine ⟨⟨usdcOk, husdc⟩, fun htrue => ?_⟩
    rw [husdc] at htrue
    cases htrue
    exact ⟨b, h⟩
  · rintro ⟨⟨usdcOk, husdc⟩, hvault⟩
    cases usdcOk with
    | false => exact ⟨false, false, husdc, rfl⟩
    | true =>
      obtain ⟨b, hb⟩ := hvault husdc
      exact ⟨b, true, husdc, hb⟩

private theorem isCounted_returns {i : Nat} {e : AdapterInfo} (he : s.adapters[i]? = some e) :
    (∃ b, s.isCounted d env i = .ok b) ↔
      (e.active = true → s.openExclusionOf i = 0 → s.ProbesDecodeAt d env e.adapter) := by
  rw [← isEligible_returns]
  unfold isCounted isUsable
  have hentry : s.entry i = .ok e := entry_eq_ok.2 he
  by_cases hact : e.active = true
  · by_cases hopen : s.openExclusionOf i = 0
    · simp [hentry, hact, hopen]
    · simp [hentry, hact, hopen]
  · simp [hentry, hact]

theorem priced_of_probes (hprobes : s.ProbesDecode d env)
    (hreports : ∀ a, s.CountedAdapter d env a → ∃ t, env.totalAssets s.hidden a = .returned t) : s.Priced d env := by
  intro i hi
  have he : s.adapters[i]? = some s.adapters[i] := getElem?_eq_getElem hi
  obtain ⟨b, hb⟩ := (isCounted_returns he).2 fun hact hopen => hprobes i _ he hact hopen
  refine ⟨b, hb, ?_⟩
  rintro rfl e he'
  exact hreports _ ⟨i, e, hb, he', rfl⟩

theorem Priced.probesDecode (hp : s.Priced d env) : s.ProbesDecode d env := by
  intro i e he hact hopen
  obtain ⟨b, hb, -⟩ := hp i (List.getElem?_eq_some_iff.1 he).1
  exact (isCounted_returns he).1 ⟨b, hb⟩ hact hopen

private theorem anyActiveBlocked_of_not_blocked (hblocked : ¬ s.Blocked d env) :
    s.anyActiveBlocked d env false = .ok false := by
  have hloop := foldlM_range_returns (f := s.blocks d env false) (n := s.adapters.length)
    (P := fun _ blocked => blocked = false) ?_ (s := false) rfl
  · obtain ⟨b, hb, rfl⟩ := hloop
    exact hb
  · rintro i blocked hi rfl
    have he : s.adapters[i]? = some s.adapters[i] := getElem?_eq_getElem hi
    refine ⟨false, ?_, rfl⟩
    have hentry : s.entry i = .ok s.adapters[i] := entry_eq_ok.2 he
    unfold Vault.blocks
    by_cases hact : s.adapters[i].active = true
    · have hcounted : s.isCounted d env i = .ok true := by
        by_contra hnot
        exact hblocked ⟨i, _, he, hact, hnot⟩
      have husable : s.isUsable d env i = .ok true := by
        simpa [isCounted, hentry, hact] using hcounted
      simp [hentry, husable]
    · simp [hentry, hact]

variable {gross : Nat}

private theorem grossToNet_returns (hfee : s.exitFeeBps ≤ maxExitFeeBps) (hfit : gross < wordSize) :
    s.grossToNet gross = .ok (gross - gross * s.exitFeeBps / maxBps) := by
  have hle : gross * s.exitFeeBps / maxBps ≤ gross := by
    refine Nat.div_le_of_le_mul ?_
    rw [mul_comm]
    exact Nat.mul_le_mul_right _ (by unfold maxBps; unfold maxExitFeeBps at hfee; omega)
  simp only [grossToNet, bind_eq_ok, mulDiv_eq_ok, sub_eq_ok]
  exact ⟨_, ⟨by decide, lt_of_le_of_lt hle hfit, rfl⟩, hle, rfl⟩

private theorem netToGross_returns (hfee : s.exitFeeBps ≤ maxExitFeeBps) {net : Nat} (hfit : gross < wordSize)
    (hnet : net * maxBps ≤ gross * (maxBps - s.exitFeeBps)) : ∃ g, s.netToGross net = .ok g ∧ net ≤ g ∧ g ≤ gross := by
  have hkept : 0 < maxBps - s.exitFeeBps := by unfold maxBps; unfold maxExitFeeBps at hfee; omega
  unfold netToGross
  by_cases hzero : s.exitFeeBps = 0
  · rw [if_pos hzero]
    rw [hzero, Nat.sub_zero] at hnet
    exact ⟨net, rfl, le_rfl, Nat.le_of_mul_le_mul_right hnet (by decide)⟩
  rw [if_neg hzero]
  have hle : mulDivNat .ceil net maxBps (maxBps - s.exitFeeBps) ≤ gross := mulDivNat_ceil_le hkept hnet
  have hge := le_mulDivNat_ceil_mul net maxBps hkept
  refine ⟨mulDivNat .ceil net maxBps (maxBps - s.exitFeeBps), ?_, ?_, hle⟩
  · simp only [bind_eq_ok, sub_eq_ok, mulDiv_eq_ok]
    exact ⟨_, ⟨by unfold maxBps; unfold maxExitFeeBps at hfee; omega, rfl⟩, by omega, by omega, rfl⟩
  · refine Nat.le_of_mul_le_mul_right (hge.trans ?_) (by decide : 0 < maxBps)
    exact Nat.mul_le_mul_left _ (Nat.sub_le _ _)

private theorem grossOf_mono {a b : Nat} (h : a ≤ b) : s.grossOf d env a ≤ s.grossOf d env b :=
  Nat.div_le_div_right (Nat.mul_le_mul_right _ h)

variable {shares : Nat}

variable (d env) in
private theorem grossOf_le (h : shares ≤ s.book.totalSupply) : s.grossOf d env shares ≤ s.netAssets d env := by
  refine Nat.lt_succ_iff.1 ((Nat.div_lt_iff_lt_mul (by unfold virtualShares; omega)).2 ?_)
  rw [mul_comm]
  exact Nat.mul_lt_mul_of_pos_left (by unfold virtualShares; omega) (by omega)

private theorem convertToAssets_returns (hp : s.Priced d env) (hnav : s.netAssets d env + 1 < wordSize)
    (hsupply : s.book.totalSupply + virtualShares < wordSize) (hle : shares ≤ s.book.totalSupply) :
    s.convertToAssets d env shares .floor = .ok (s.grossOf d env shares) := by
  have hgross := grossOf_le d env hle
  simp only [convertToAssets, bind_eq_ok, add_eq_ok, mulDiv_eq_ok]
  exact ⟨_, totalAssets_returns hp (by omega), _, ⟨hnav, rfl⟩, _, ⟨hsupply, rfl⟩, by unfold virtualShares; omega,
    lt_of_le_of_lt hgross (by omega), rfl⟩

private theorem convertToShares_returns (hp : s.Priced d env) (hnav : s.netAssets d env + 1 < wordSize)
    (hsupply : s.book.totalSupply + virtualShares < wordSize) (hle : shares ≤ s.book.totalSupply)
    (hgross : gross ≤ s.grossOf d env shares) :
    ∃ cost, s.convertToShares d env gross .ceil = .ok cost ∧ cost ≤ shares ∧ gross ≤ s.grossOf d env cost := by
  have hpos : 0 < s.book.totalSupply + virtualShares := by unfold virtualShares; omega
  have hcost : mulDivNat .ceil gross (s.book.totalSupply + virtualShares) (s.netAssets d env + 1) ≤ shares := by
    refine mulDivNat_ceil_le (by omega) ?_
    calc gross * (s.book.totalSupply + virtualShares)
        ≤ s.grossOf d env shares * (s.book.totalSupply + virtualShares) := Nat.mul_le_mul_right _ hgross
      _ ≤ shares * (s.netAssets d env + 1) := mulDivNat_floor_mul_le ..
  refine ⟨_, ?_, hcost, ?_⟩
  · simp only [convertToShares, bind_eq_ok, add_eq_ok, mulDiv_eq_ok]
    exact ⟨_, ⟨hsupply, rfl⟩, _, totalAssets_returns hp (by omega), _, ⟨hnav, rfl⟩, by omega, by omega, rfl⟩
  · exact (Nat.le_div_iff_mul_le hpos).2 (le_mulDivNat_ceil_mul _ _ (by omega))

section Pull

variable {H : σ → ShareBook → Prop} {amount : Nat}

/-- The vault after `amount` has been pulled out of adapters that deliver. -/
structure Pulled (d : Deployment) (env : Outside σ) (H : σ → ShareBook → Prop) (s v : Vault σ) (amount : Nat) :
    Prop where
  storage : ∃ usdc hidden trace, v = { s with book := { s.book with usdc := usdc }, hidden := hidden, trace := trace }
  views : env.SameViews s.hidden v.hidden
  world : H v.hidden v.book
  idle : v.idle d = s.idle d + amount
  nav : v.netAssets d env = s.netAssets d env

private theorem Pulled.refl (hw : H s.hidden s.book) : Pulled d env H s s 0 :=
  ⟨⟨s.book.usdc, s.hidden, s.trace, rfl⟩, ⟨fun _ => rfl, fun _ => rfl, fun _ => rfl⟩, hw, rfl, rfl⟩

private theorem Pulled.steady (h : Pulled d env H s v amount) : s.Steady v := by
  obtain ⟨usdc, hidden, trace, rfl⟩ := h.storage
  exact (Moved.of_book (.of_usdc s.book usdc) hidden trace).toSteady

theorem Pulled.isCounted (h : Pulled d env H s v amount) (i : Nat) : v.isCounted d env i = s.isCounted d env i := by
  have hsteady := h.steady
  exact isCounted_congr hsteady.adapters (by rw [hsteady.openOf])
    (isEligible_of_views hsteady.allowed hsteady.codeHashAllowed h.views)

private theorem Pulled.sum_contribution (h : Pulled d env H s v amount) :
    amount + ∑ i ∈ range s.adapters.length, v.contribution d env i =
      ∑ i ∈ range s.adapters.length, s.contribution d env i := by
  have hnav := h.nav
  have hidle := h.idle
  unfold netAssets at hnav
  rw [h.steady.adapters] at hnav
  omega

variable (hd : env.Delivers d (s.CountedAdapter d env) H) (hc : s.Consistent)

include hd

variable {i : Nat} {e : AdapterInfo}

private theorem Pulled.report (h : Pulled d env H s v amount)
    (hcounted : s.isCounted d env i = .ok true) (he : s.adapters[i]? = some e) :
    env.totalAssets v.hidden e.adapter = .returned (v.contribution d env i) := by
  obtain ⟨t, ht⟩ := hd.reports h.world ⟨i, e, hcounted, he, rfl⟩
  rw [contribution_of_counted (by rw [h.isCounted]; exact hcounted) (by rw [h.steady.adapters]; exact he),
    Outside.balanceOf_eq ht]
  exact ht

include hc

variable {x : Nat}

private theorem Pulled.leg (h : Pulled d env H s v amount)
    (hcounted : s.isCounted d env i = .ok true) (he : s.adapters[i]? = some e) (hx : x ≤ v.contribution d env i) :
    ∃ v', v.callWithdraw d env e.adapter x = .ok (x, v') ∧ Pulled d env H s v' (amount + x) ∧
      v'.contribution d env i = v.contribution d env i - x ∧
      ∀ j, j ≠ i → v'.contribution d env j = v.contribution d env j := by
  have hreport := h.report hd hcounted he
  obtain ⟨eff, heff, hret, hpays, hafter, hworld⟩ := hd.delivers h.world ⟨i, e, hcounted, he, rfl⟩ hreport hx
  have hsteady := h.steady
  have hcv : v.Consistent := hc.of_same hsteady.toSameRegistry
  have hev : v.adapters[i]? = some e := by rw [hsteady.adapters]; exact he
  have hcounted' : v.isCounted d env i = .ok true := by rw [h.isCounted]; exact hcounted
  have hact := (counted_entry he hcounted).1
  obtain ⟨htouched, hidle, -, -⟩ := applyEffect_touched (s := v.contact e.adapter) hpays
  have htouched := (contact_touched v e.adapter e.adapter).trans htouched
  have hidle' : ((v.contact e.adapter).applyEffect d eff).idle d = v.idle d + x := hidle
  have hcontribution : ((v.contact e.adapter).applyEffect d eff).contribution d env i = v.contribution d env i - x := by
    rw [contribution_of_counted (by rw [htouched.isCounted]; exact hcounted') (by rw [htouched.adapters]; exact hev)]
    exact Outside.balanceOf_eq hafter
  refine ⟨(v.contact e.adapter).applyEffect d eff, ?_, ?_, hcontribution, fun j hji =>
    htouched.contribution_of_ne hcv hev (.inl hact) hji⟩
  · simp [callWithdraw, heff, Reply.value, hret]
  · refine ⟨?_, ?_, hworld, by rw [hidle', h.idle]; omega, ?_⟩
    · obtain ⟨usdc, hidden, trace, rfl⟩ := h.storage
      obtain ⟨usdc', hrun, -⟩ := hpays.book
      refine ⟨usdc', eff.hidden, trace ++ [.contacted e.adapter s.book.snapshots], ?_⟩
      unfold applyEffect Vault.contact
      dsimp only
      rw [hrun]
    · exact ⟨fun b => (htouched.views.codehash b).trans (h.views.codehash b),
        fun b => (htouched.views.usdcView b).trans (h.views.usdcView b),
        fun b => (htouched.views.vaultView b).trans (h.views.vaultView b)⟩
    · rw [← h.nav]
      refine htouched.netAssets hcv hev (.inl hact) ?_
      rw [hidle', hcontribution]
      omega

/-- What the loops of a pull keep: what has been pulled and what is still needed add up. -/
structure PullState (d : Deployment) (env : Outside σ) (H : σ → ShareBook → Prop) (s : Vault σ) (needed : Nat)
    (p : Pull σ) :
    Prop where
  pulled : Pulled d env H s p.vault p.pulled
  total : p.pulled + p.remaining = needed

variable {needed : Nat}

private theorem pullLeg_returns {p : Pull σ} (h : PullState d env H s needed p) (hfit : needed < wordSize)
    (hcounted : s.isCounted d env i = .ok true) (he : s.adapters[i]? = some e)
    (hx : x ≤ p.vault.contribution d env i) (hle : x ≤ p.remaining) :
    ∃ q, pullLeg d env p e.adapter x = .ok q ∧ PullState d env H s needed q ∧ q.remaining = p.remaining - x ∧
      q.vault.contribution d env i = p.vault.contribution d env i - x ∧
      ∀ j, j ≠ i → q.vault.contribution d env j = p.vault.contribution d env j := by
  have htotal := h.total
  unfold Vault.pullLeg
  by_cases hzero : x = 0
  · rw [if_pos hzero]
    exact ⟨p, rfl, h, by omega, by omega, fun _ _ => rfl⟩
  obtain ⟨v, hv, hpulled, hself, hothers⟩ := h.pulled.leg hd hc hcounted he hx
  have hadd : (add p.pulled x : Except Revert Nat) = .ok (p.pulled + x) := add_eq_ok.2 ⟨by omega, rfl⟩
  rw [if_neg hzero, hv, ok_bind]
  dsimp only
  rw [hadd, ok_bind]
  exact ⟨_, rfl, ⟨hpulled, by dsimp only; omega⟩, rfl, hself, hothers⟩

/-- Pass 1 never gets stuck.  Entries that are still to come have kept their balances. -/
theorem pullPass1_returns (total : Nat) (last : Option Nat) (hfit : needed < wordSize)
    (hproducts : ∀ i, s.isCounted d env i = .ok true → last ≠ some i → needed * s.contribution d env i < wordSize)
    (hprobes : s.ProbesDecode d env) (hw : H s.hidden s.book) :
    ∃ p, s.indices.foldlM (pullPass1 d env needed total last) ⟨s, needed, 0⟩ = .ok p ∧
      PullState d env H s needed p := by
  have hloop := foldlM_range_returns (f := pullPass1 d env needed total last) (n := s.adapters.length)
    (P := fun k p => PullState d env H s needed p ∧ ∀ j, k ≤ j → p.vault.contribution d env j = s.contribution d env j)
    ?_ (s := ⟨s, needed, 0⟩) ⟨⟨.refl hw, zero_add _⟩, fun _ _ => rfl⟩
  · obtain ⟨p, hp, hstate, -⟩ := hloop
    exact ⟨p, hp, hstate⟩
  · rintro k p hk ⟨hstate, hcoming⟩
    have hlater : ∀ j, k + 1 ≤ j → p.vault.contribution d env j = s.contribution d env j :=
      fun j hj => hcoming j (by omega)
    have he : s.adapters[k]? = some s.adapters[k] := getElem?_eq_getElem hk
    unfold pullPass1
    by_cases hdone : p.remaining = 0
    · exact ⟨p, if_pos hdone, hstate, hlater⟩
    rw [if_neg hdone, hstate.pulled.isCounted]
    obtain ⟨b, hb⟩ := (isCounted_returns he).2 fun hact hopen => hprobes k _ he hact hopen
    rw [hb, ok_bind]
    cases b with
    | false => exact ⟨p, rfl, hstate, hlater⟩
    | true =>
      have hentry : p.vault.entry k = .ok s.adapters[k] :=
        entry_eq_ok.2 (by rw [hstate.pulled.steady.adapters]; exact he)
      have hreport := hstate.pulled.report hd hb he
      have hshare : ∃ share, proportion needed total (p.vault.contribution d env k) p.remaining (last == some k) =
          .ok share := by
        unfold proportion
        split
        · exact ⟨_, rfl⟩
        rename_i hlast
        have hmul : (mul needed (p.vault.contribution d env k) : Except Revert Nat) = .ok _ :=
          mul_eq_ok.2 ⟨by rw [hcoming k (le_refl k)]; exact hproducts k hb (by simpa using hlast), rfl⟩
        rw [hmul, ok_bind]
        exact ⟨_, rfl⟩
      obtain ⟨share, hshare⟩ := hshare
      obtain ⟨q, hq, hq', -, -, hothers⟩ := pullLeg_returns hd hc hstate hfit hb he
        (x := min (min share p.remaining) (p.vault.contribution d env k)) (min_le_right _ _)
        ((min_le_left _ _).trans (min_le_right _ _))
      refine ⟨q, ?_, hq', fun j hj => by rw [hothers j (by omega)]; exact hlater j hj⟩
      simp only [if_true, hentry, ok_bind, reported, hreport, Reply.value, hshare]
      exact hq

private theorem pullPass2_returns {p : Pull σ} (h : PullState d env H s needed p) (hfit : needed < wordSize)
    (hprobes : s.ProbesDecode d env) :
    ∃ q, s.indices.foldlM (pullPass2 d env) p = .ok q ∧ PullState d env H s needed q ∧
      (q.remaining = 0 ∨ ∀ j < s.adapters.length, q.vault.contribution d env j = 0) := by
  refine foldlM_range_returns (f := pullPass2 d env) (n := s.adapters.length)
    (P := fun k q => PullState d env H s needed q ∧ (q.remaining = 0 ∨ ∀ j < k, q.vault.contribution d env j = 0))
    ?_ ⟨h, .inr fun j hj => absurd hj (by omega)⟩
  rintro k p hk ⟨hstate, hswept⟩
  have he : s.adapters[k]? = some s.adapters[k] := getElem?_eq_getElem hk
  unfold pullPass2
  by_cases hdone : p.remaining = 0
  · exact ⟨p, if_pos hdone, hstate, .inl hdone⟩
  have hswept := hswept.resolve_left hdone
  rw [if_neg hdone, hstate.pulled.isCounted]
  obtain ⟨b, hb⟩ := (isCounted_returns he).2 fun hact hopen => hprobes k _ he hact hopen
  rw [hb, ok_bind]
  have hextend : ∀ q : Pull σ, (∀ j, j ≠ k → q.vault.contribution d env j = p.vault.contribution d env j) →
      q.vault.contribution d env k = 0 → ∀ j < k + 1, q.vault.contribution d env j = 0 := by
    intro q hothers hself j hj
    rcases Nat.lt_succ_iff_lt_or_eq.1 hj with hlt | rfl
    · rw [hothers j (by omega)]
      exact hswept j hlt
    · exact hself
  cases b with
  | false =>
    refine ⟨p, rfl, hstate, .inr (hextend p (fun _ _ => rfl) ?_)⟩
    exact contribution_of_not_counted (by rw [hstate.pulled.isCounted, hb]; simp)
  | true =>
    have hentry : p.vault.entry k = .ok s.adapters[k] :=
      entry_eq_ok.2 (by rw [hstate.pulled.steady.adapters]; exact he)
    have hreport := hstate.pulled.report hd hb he
    obtain ⟨q, hq, hq', hremaining, hself, hothers⟩ := pullLeg_returns hd hc hstate hfit hb he
      (x := min (p.vault.contribution d env k) p.remaining) (min_le_left _ _) (min_le_right _ _)
    refine ⟨q, ?_, hq', ?_⟩
    · simp only [if_true, hentry, ok_bind, reported, hreport, Reply.value]
      exact hq
    · by_cases hcovered : p.remaining ≤ p.vault.contribution d env k
      · exact .inl (by omega)
      · exact .inr (hextend q hothers (by omega))

omit hd hc in
private theorem sumCounted_returns (hp : s.Priced d env)
    (hfit : ∑ i ∈ range s.adapters.length, s.contribution d env i < wordSize) :
    ∃ last, s.indices.foldlM (s.sumCounted d env) (0, none) =
      .ok (∑ i ∈ range s.adapters.length, s.contribution d env i, last) ∧
      ∀ i < s.adapters.length, s.isCounted d env i = .ok true →
        ∃ l, last = some l ∧ i ≤ l ∧ s.isCounted d env l = .ok true := by
  have hloop := foldlM_range_returns (f := s.sumCounted d env) (n := s.adapters.length)
    (P := fun k x => x.1 = ∑ i ∈ range k, s.contribution d env i ∧
      ∀ i < k, s.isCounted d env i = .ok true → ∃ l, x.2 = some l ∧ i ≤ l ∧ s.isCounted d env l = .ok true)
    ?_ (s := (0, none)) ⟨by simp, fun i hi => absurd hi (Nat.not_lt_zero i)⟩
  · obtain ⟨⟨total, last⟩, hx, rfl, hlast⟩ := hloop
    exact ⟨last, hx, hlast⟩
  · rintro k ⟨sum, last⟩ hk ⟨rfl, hlast⟩
    have he : s.adapters[k]? = some s.adapters[k] := getElem?_eq_getElem hk
    have hentry : s.entry k = .ok s.adapters[k] := entry_eq_ok.2 he
    obtain ⟨b, hb, hreport⟩ := hp k hk
    rw [Finset.sum_range_succ]
    unfold sumCounted
    rw [hb, ok_bind]
    cases b with
    | false =>
      rw [contribution_of_not_counted (by rw [hb]; simp)]
      refine ⟨_, rfl, rfl, fun i hi hcounted => ?_⟩
      rcases Nat.lt_succ_iff_lt_or_eq.1 hi with hlt | rfl
      · exact hlast i hlt hcounted
      rw [hb] at hcounted
      cases hcounted
    | true =>
      obtain ⟨t, ht⟩ := hreport rfl _ he
      have hcontribution : s.contribution d env k = t := by
        rw [contribution_of_counted hb he, Outside.balanceOf_eq ht]
      have hle : ∑ i ∈ range (k + 1), s.contribution d env i ≤
          ∑ i ∈ range s.adapters.length, s.contribution d env i :=
        sum_le_sum_of_subset (range_subset_range.2 hk)
      rw [Finset.sum_range_succ, hcontribution] at hle
      rw [hcontribution]
      refine ⟨((∑ i ∈ range k, s.contribution d env i) + t, some k), ?_, rfl,
        fun i hi _ => ⟨k, rfl, Nat.lt_succ_iff.1 hi, hb⟩⟩
      simp only [if_true, hentry, ok_bind, reported, ht, Reply.value, bind_eq_ok, add_eq_ok]
      exact ⟨_, ⟨by omega, rfl⟩, rfl⟩

theorem pullFromAdapters_returns (hp : s.Priced d env)
    (hfit : ∑ i ∈ range s.adapters.length, s.contribution d env i < wordSize)
    (henough : needed ≤ ∑ i ∈ range s.adapters.length, s.contribution d env i)
    (hproducts : ∀ i j, i < j → s.isCounted d env j = .ok true → needed * s.contribution d env i < wordSize)
    (hw : H s.hidden s.book) : ∃ v, s.pullFromAdapters d env needed = .ok (needed, v) ∧ Pulled d env H s v needed := by
  obtain ⟨last, hsum, hlast⟩ := sumCounted_returns hp hfit
  have hothers : ∀ i, s.isCounted d env i = .ok true → last ≠ some i → needed * s.contribution d env i < wordSize := by
    intro i hcounted hne
    obtain ⟨e, he, -⟩ := isCounted_eq_true.1 hcounted
    obtain ⟨l, rfl, hle, hl⟩ := hlast i (List.getElem?_eq_some_iff.1 he).1 hcounted
    exact hproducts i l (lt_of_le_of_ne hle fun heq => hne (by rw [heq])) hl
  obtain ⟨p, hpass1, hstate⟩ := pullPass1_returns hd hc
    (∑ i ∈ range s.adapters.length, s.contribution d env i) last (by omega) hothers hp.probesDecode hw
  obtain ⟨q, hpass2, hstate', hswept⟩ := pullPass2_returns hd hc hstate (by omega) hp.probesDecode
  have hdone : q.remaining = 0 := by
    rcases hswept with hdone | hempty
    · exact hdone
    -- nothing is left in the adapters, so everything was pulled, and that is enough
    have hsum' := hstate'.pulled.sum_contribution
    rw [sum_eq_zero (f := q.vault.contribution d env) fun j hj => hempty j (mem_range.1 hj)] at hsum'
    have htotal := hstate'.total
    omega
  have hpulled : q.pulled = needed := by
    have htotal := hstate'.total
    omega
  refine ⟨q.vault, ?_, hpulled ▸ hstate'.pulled⟩
  simp only [pullFromAdapters, bind_eq_ok, revertIf_eq_ok, Except.ok.injEq, Prod.mk.injEq]
  exact ⟨_, hsum, (), by omega, p, hpass1, q, hpass2, (), by omega, hpulled, rfl⟩

private theorem pullProportional_returns (hp : s.Priced d env) (hfit : s.netAssets d env < wordSize)
    (hle : needed ≤ s.netAssets d env) (hproducts : ∀ i < s.adapters.length,
    (needed - s.idle d) * s.contribution d env i < wordSize)
    (hw : H s.hidden s.book) :
    ∃ v, s.pullProportional d env needed = .ok (needed, v) ∧ Pulled d env H s v (needed - s.idle d) := by
  unfold pullProportional
  by_cases hzero : needed = 0
  · rw [if_pos hzero, hzero, Nat.zero_sub]
    exact ⟨s, rfl, .refl hw⟩
  rw [if_neg hzero]
  by_cases hidle : needed ≤ s.idle d
  · rw [if_pos hidle, Nat.sub_eq_zero_of_le hidle]
    exact ⟨s, rfl, .refl hw⟩
  rw [if_neg hidle]
  have hparts : s.netAssets d env = s.idle d + ∑ i ∈ range s.adapters.length, s.contribution d env i := rfl
  have hall : ∀ i j, i < j → s.isCounted d env j = .ok true →
      (needed - s.idle d) * s.contribution d env i < wordSize := by
    intro i j hij hcounted
    obtain ⟨e, he, -⟩ := isCounted_eq_true.1 hcounted
    exact hproducts i (hij.trans (List.getElem?_eq_some_iff.1 he).1)
  obtain ⟨v, hv, hpulled⟩ := pullFromAdapters_returns hd hc hp (by omega) (by omega) hall hw
  refine ⟨v, ?_, hpulled⟩
  rw [hv, ok_bind]
  have hadd : (add (s.idle d) (needed - s.idle d) : Except Revert Nat) = .ok needed :=
    add_eq_ok.2 ⟨by omega, by omega⟩
  dsimp only
  rw [hadd, ok_bind, Nat.min_self]

end Pull

end Vault

/-- A checkpoint of the one account that a mint or a burn moves shares of. -/
theorem ShareBook.checkpoint_returns {d : Deployment} {b : ShareBook} {source target account : Address}
    (hone : source = account ∧ target = 0 ∨ source = 0 ∧ target = account) (hzero : account ≠ 0)
    (hfit : b.CheckpointFits account) :
    ∃ l, (if b.snapshots then b.ledger.checkpoint d d.vault b.shares source target else .ok b.ledger) = .ok l := by
  by_cases hs : b.snapshots = true
  · rw [if_pos hs]
    have haccount : ∃ l, b.ledger.checkpointAccount b.shares account b.ledger.exclusionCount = .ok l := by
      unfold Ledger.checkpointAccount
      by_cases hlast : ((b.ledger.checkpoints account).getLast?.any fun c => b.ledger.exclusionCount ≤ c.id) = true
      · exact ⟨_, by rw [if_pos hlast]⟩
      obtain ⟨hcount, hbalance⟩ := hfit hs (by simpa using hlast)
      rw [if_neg hlast, castUint_eq_ok.2 ⟨hcount, rfl⟩, castUint_eq_ok.2 ⟨hbalance, rfl⟩]
      exact ⟨_, rfl⟩
    obtain ⟨l, hl⟩ := haccount
    refine ⟨l, ?_⟩
    rcases hone with ⟨rfl, rfl⟩ | ⟨rfl, rfl⟩
    · simp [Ledger.checkpoint, onlyVault, hzero, hl, revertIf_of_not]
    · simp [Ledger.checkpoint, onlyVault, hzero, hl, revertIf_of_not]
  · exact ⟨_, if_neg hs⟩

private theorem ShareBook.burn_returns {d : Deployment} {b : ShareBook} {account : Address} {value : Nat}
    (hzero : account ≠ 0) (hle : value ≤ b.shares account) (hfit : b.CheckpointFits account) :
    ∃ b', b.burn d account value = .ok b' := by
  obtain ⟨l, hl⟩ := checkpoint_returns (d := d) (.inl ⟨rfl, rfl⟩) hzero hfit
  simp only [ShareBook.burn, ShareBook.update, ShareBook.erc20Update, ShareBook.debit, if_neg hzero, if_true, hl,
    revertIf_of_not _ hzero, ok_bind, revertIf_of_not _ (Nat.not_lt.2 hle)]
  exact ⟨_, rfl⟩

namespace Vault

variable {σ : Type} {d : Deployment} {env : Outside σ} {s s' v : Vault σ}

private theorem payOut_returns {receiver : Address} (assets fee : Nat) (hreceiver : receiver ≠ 0)
    (hrecipient : s.feeRecipient ≠ 0) (hle : assets + fee ≤ s.idle d) :
    ∃ s', s.payOut d receiver assets fee = .ok s' ∧ s'.book.shares = s.book.shares ∧
      s'.book.usdc = moveBalance (moveBalance s.book.usdc d.vault s.feeRecipient fee) d.vault receiver assets := by
  have hcovered : fee ≤ s.book.usdc d.vault := by unfold Vault.idle at hle; omega
  have hfee : (if 0 < fee then moveUsdc s.book.usdc d.vault s.feeRecipient fee else .ok s.book.usdc) =
      .ok (moveBalance s.book.usdc d.vault s.feeRecipient fee) := by
    by_cases hpos : 0 < fee
    · rw [if_pos hpos]
      exact moveUsdc_eq_ok.2 ⟨hrecipient, hcovered, rfl⟩
    · rw [if_neg hpos, Nat.eq_zero_of_not_pos hpos, moveBalance_zero]
  have hleft := (moveBalance_source_bounds s.feeRecipient hcovered).1
  have hassets : moveUsdc (moveBalance s.book.usdc d.vault s.feeRecipient fee) d.vault receiver assets = .ok _ :=
    moveUsdc_eq_ok.2 ⟨hreceiver, by unfold Vault.idle at hle; omega, rfl⟩
  unfold Vault.payOut
  rw [hfee, ok_bind, hassets, ok_bind]
  exact ⟨_, rfl, rfl, rfl⟩

section Exits

variable {H : σ → ShareBook → Prop} (hs : s.Sound false) (hd : env.Delivers d (s.CountedAdapter d env) H)
    (hw : H s.hidden s.book)
  {owner receiver : Address} (hreceiver : receiver ≠ 0) (hfit : s.ExitFits d env owner) (hprobes : s.ProbesDecode d env)

include hd hw hprobes

theorem priced_of_delivers : s.Priced d env := priced_of_probes hprobes fun _ ha => hd.reports hw ha

include hs hreceiver hfit

theorem withdrawAt_returns {assets shares : Nat} (hle : shares ≤ s.book.shares owner) (hpos : 0 < s.book.shares owner)
    (hassets : assets ≤ s.grossOf d env shares) (hguard : ¬ (s.grossOf d env shares = 0 ∧ s.Blocked d env)) :
    ∃ s', s.withdrawAt d env owner receiver owner assets shares = .ok s' ∧
      s.Exited d s' receiver owner assets (s.grossOf d env shares) shares := by
  have hp := priced_of_delivers hd hw hprobes
  have hsupply : shares ≤ s.book.totalSupply := hle.trans (hs.wellFormed.shares_le owner)
  have howner : owner ≠ 0 := by
    rintro rfl
    rw [hs.wellFormed.zeroShares] at hpos
    exact absurd hpos (lt_irrefl 0)
  have hgross := convertToAssets_returns hp hfit.nav hfit.supply hsupply
  have hgrossLe := grossOf_le d env hsupply
  have hguard' : s.zeroPayoutGuard d env (s.grossOf d env shares) shares = .ok () := by
    unfold zeroPayoutGuard
    by_cases hzero : s.grossOf d env shares = 0 ∧ shares ≠ 0
    · rw [if_pos hzero, anyActiveBlocked_of_not_blocked fun hblocked => hguard ⟨hzero.1, hblocked⟩]
      rfl
    · exact if_neg hzero
  have hnav := hfit.nav
  obtain ⟨v, hv, hpulled⟩ := pullProportional_returns hd hs.toConsistent hp (by omega) hgrossLe
    (fun i hi => lt_of_le_of_lt (Nat.mul_le_mul_right _ (Nat.sub_le_sub_right (grossOf_mono hle) _))
      (hfit.products i hi)) hw
  obtain ⟨usdc, hidden, trace, rfl⟩ := hpulled.storage
  have hcheckpoint : { s.book with usdc := usdc }.CheckpointFits owner := fun hon hlast => hfit.checkpoint hon hlast
  obtain ⟨book, hbook⟩ := ShareBook.burn_returns (d := d) (b := { s.book with usdc := usdc }) howner hle
    hcheckpoint
  obtain ⟨-, husdc, -, hshares, -⟩ := ShareBook.burn_spec hbook
  have hidle : usdc d.vault = max (s.idle d) (s.grossOf d env shares) := by
    have := hpulled.idle
    unfold Vault.idle at this ⊢
    dsimp only at this
    omega
  obtain ⟨s', hpay, hsh, hus⟩ := payOut_returns
    (s := { s with book := book, hidden := hidden, trace := trace }) (d := d) assets (s.grossOf d env shares - assets)
    hreceiver hs.recipient (by
      show _ ≤ book.usdc d.vault
      rw [husdc]
      dsimp only
      omega)
  refine ⟨s', ?_, hassets, hsh.trans hshares, usdc, hidle, by rw [hus]; dsimp only; rw [husdc]⟩
  simp only [withdrawAt, bind_eq_ok, sub_eq_ok, revertIf_eq_ok]
  exact ⟨s, if_neg (not_not.2 rfl), _, hgross, _, ⟨hassets, rfl⟩, (), hguard', (_, _), hv, (), lt_irrefl _, book,
    hbook, hpay⟩

private theorem redeem_returns {shares : Nat} (hpos : 0 < shares) (hle : shares ≤ s.book.shares owner)
    (hguard : ¬ (s.grossOf d env shares = 0 ∧ s.Blocked d env)) :
    ∃ assets s', s.previewRedeem d env shares = .ok assets ∧
      s.redeem d env owner shares receiver owner = .ok (assets, s') ∧
      s.Exited d s' receiver owner assets (s.grossOf d env shares) shares := by
  have hp := priced_of_delivers hd hw hprobes
  have hsupply : shares ≤ s.book.totalSupply := hle.trans (hs.wellFormed.shares_le owner)
  have hgrossLe := grossOf_le d env hsupply
  have hnav := hfit.nav
  have hpreview : s.previewRedeem d env shares =
      .ok (s.grossOf d env shares - s.grossOf d env shares * s.exitFeeBps / maxBps) := by
    unfold previewRedeem
    rw [convertToAssets_returns hp hfit.nav hfit.supply hsupply, ok_bind]
    exact grossToNet_returns hs.fee (by omega)
  obtain ⟨s', hexit, hexited⟩ := withdrawAt_returns hs hd hw hreceiver hfit hprobes hle (by omega)
    (Nat.sub_le _ (s.grossOf d env shares * s.exitFeeBps / maxBps)) hguard
  refine ⟨_, s', hpreview, ?_, hexited⟩
  simp only [Vault.redeem, bind_eq_ok, revertIf_eq_ok, Except.ok.injEq, Prod.mk.injEq]
  exact ⟨(), Nat.not_lt.2 hle, _, hpreview, s', hexit, rfl, rfl⟩

omit hreceiver in
private theorem maxWithdraw_returns : ∃ assets, s.maxWithdraw d env owner = .ok assets ∧
      assets * maxBps ≤ s.grossOf d env (s.book.shares owner) * (maxBps - s.exitFeeBps) := by
  have hp := priced_of_delivers hd hw hprobes
  have hsupply := hs.wellFormed.shares_le owner
  have hgrossLe := grossOf_le d env hsupply
  have hnav := hfit.nav
  have hfee := hs.fee
  have hle : mulDivNat .floor (s.grossOf d env (s.book.shares owner)) (maxBps - s.exitFeeBps) maxBps ≤
      s.grossOf d env (s.book.shares owner) := by
    refine Nat.div_le_of_le_mul ?_
    rw [mul_comm maxBps]
    exact Nat.mul_le_mul_left _ (Nat.sub_le _ _)
  refine ⟨_, ?_, mulDivNat_floor_mul_le ..⟩
  simp only [maxWithdraw, bind_eq_ok, sub_eq_ok, mulDiv_eq_ok]
  exact ⟨_, convertToAssets_returns hp hfit.nav hfit.supply hsupply, _,
    ⟨by unfold maxExitFeeBps at hfee; unfold maxBps; omega, rfl⟩, by decide, by omega, rfl⟩

private theorem withdraw_returns :
    ∃ assets shares, s.maxWithdraw d env owner = .ok assets ∧ s.previewWithdraw d env assets = .ok shares ∧
      shares ≤ s.book.shares owner ∧
      (0 < assets → ∃ s', s.withdraw d env owner assets receiver owner = .ok (shares, s') ∧
        s.Exited d s' receiver owner assets (s.grossOf d env shares) shares) := by
  have hp := priced_of_delivers hd hw hprobes
  have hsupply := hs.wellFormed.shares_le owner
  have hgrossLe := grossOf_le d env hsupply
  have hnav := hfit.nav
  -- inverting the fee of what was rounded down stays within the gross value, and rounding the shares up within
  -- the balance
  obtain ⟨assets, hmax, hbound⟩ := maxWithdraw_returns hs hd hw hfit hprobes
  obtain ⟨gross, hgross, hassets, hgross'⟩ := netToGross_returns hs.fee (by omega) hbound
  obtain ⟨shares, hshares, hcost, hworth⟩ := convertToShares_returns hp hfit.nav hfit.supply hsupply hgross'
  have hpreview : s.previewWithdraw d env assets = .ok shares := by
    unfold previewWithdraw
    rw [hgross, ok_bind]
    exact hshares
  refine ⟨assets, shares, hmax, hpreview, hcost, fun hpos => ?_⟩
  have hbalance : 0 < s.book.shares owner := by
    rcases Nat.eq_zero_or_pos (s.book.shares owner) with hzero | hpos'
    · have hfree : shares = 0 := by omega
      have hworthless : s.grossOf d env 0 = 0 := by simp [Vault.grossOf, mulDivNat]
      rw [hfree, hworthless] at hworth
      omega
    · exact hpos'
  obtain ⟨s', hexit, hexited⟩ := withdrawAt_returns hs hd hw hreceiver hfit hprobes hcost hbalance
    (hassets.trans hworth) (fun hzero => by omega)
  refine ⟨s', ?_, hexited⟩
  simp only [withdraw, bind_eq_ok, revertIf_eq_ok, Except.ok.injEq, Prod.mk.injEq]
  exact ⟨_, hmax, (), lt_irrefl _, shares, hpreview, s', hexit, rfl, rfl⟩

end Exits

theorem probesDecode_of_convertToAssets {shares gross : Nat} {r : Rounding}
    (h : s.convertToAssets d env shares r = .ok gross) : s.ProbesDecode d env :=
  (convertToAssets_eq h).1.probesDecode

end Vault

/-- In every state the system reaches, where the counted adapters deliver and the words on the way fit, exits are open
exactly when the probes of the active entries decode. -/
theorem exits_open_iff_probes_decode {σ : Type} (d : Deployment) (env : Outside σ) (s : Vault σ)
    (hreach : s.Reached d env) (H : σ → ShareBook → Prop) (hd : env.Delivers d (s.CountedAdapter d env) H)
    (hw : H s.hidden s.book)
    (owner receiver : Address) (hreceiver : receiver ≠ 0) (hfit : s.ExitFits d env owner) :
    s.ExitsOpen d env owner receiver ↔ s.ProbesDecode d env := by
  constructor
  · intro hopen
    obtain ⟨assets, shares, hmax, -⟩ := hopen.withdraw
    simp only [Vault.maxWithdraw, bind_eq_ok] at hmax
    obtain ⟨gross, hgross, -⟩ := hmax
    exact Vault.probesDecode_of_convertToAssets hgross
  · intro hprobes
    exact ⟨fun shares hpos hle hguard => Vault.redeem_returns hreach.sound hd hw hreceiver hfit hprobes hpos hle hguard,
      Vault.withdraw_returns hreach.sound hd hw hreceiver hfit hprobes⟩

/-- Adapters as in `Outside.sample`; once the flag is set, adapter 30 answers `USDC()` with the right address under a
set upper bit. -/
def Outside.dirtyWord : Outside ((Address → Nat) × Bool) where
  codehash := fun _ _ => 7
  usdcView := fun w a => if w.2 ∧ a = 30 then ⟨true, 32, 2 ^ 160 + 3⟩ else ⟨true, 32, 3⟩
  vaultView := fun _ a => if a = 1 then ⟨false, 0, 0⟩ else ⟨true, 32, 1⟩
  maxExposure := fun _ _ => ⟨false, 0, 0⟩
  venueWithdrawable := fun _ _ => ⟨false, 0, 0⟩
  totalAssets := fun w a => .returned (w.1 a)
  withdraw := fun w a x =>
    if x ≤ w.1 a then .returned ⟨x, [.issueUsdc 1 x], (update w.1 a (w.1 a - x), w.2)⟩ else .reverted
  deploy := fun w a x => .returned ⟨0, [], (update w.1 a (w.1 a + x), w.2)⟩
  setMaxExposure := fun _ _ _ => .reverted

theorem Outside.dirtyWord_delivers (A : Address → Prop) : Outside.dirtyWord.Delivers .sample A fun _ _ => True where
  reports := fun {w _ a} _ _ => ⟨w.1 a, rfl⟩
  delivers := by
    rintro w book a x t - - ht hle
    cases ht
    refine ⟨_, if_pos hle, rfl, ⟨⟨fun _ => rfl, fun _ => rfl, fun _ => rfl⟩, ?_, _, rfl, ?_, ?_⟩, ?_, trivial⟩
    · intro b hb
      simp [Outside.dirtyWord, hb]
    · simp [Deployment.sample]
    · simp [Deployment.sample]
    · simp [Outside.dirtyWord]

def depositedInTwo : List (Tx ((Address → Nat) × Bool)) :=
  [⟨21, .sample, .setAdapterCodeHashAllowed 7 true⟩, ⟨21, .sample, .setAdapterAllowed 30 true⟩,
    ⟨21, .sample, .setAdapterAllowed 31 true⟩, ⟨21, .sample, .addAdapter 30 5000⟩,
    ⟨21, .sample, .addAdapter 31 10000⟩, ⟨5, .sample, .deposit 1000 5⟩]

theorem probesDecode_of_clean {s : Vault ((Address → Nat) × Bool)} (hclean : s.hidden.2 = false) :
    s.ProbesDecode .sample .dirtyWord := by
  intro i e _ _ _ _ _
  simp only [Outside.dirtyWord, hclean]
  exact ⟨fun _ _ => by simp, fun _ _ _ => by split <;> simp⟩

theorem exits_open_depositedInTwo :
    ∃ s : Vault ((Address → Nat) × Bool), s.Reached .sample .dirtyWord ∧ s.book.shares 5 = 1000 * 10 ^ 18 ∧
      s.ExitsOpen .sample .dirtyWord 5 6 := by
  obtain ⟨s₀, hinit, hreached⟩ := Vault.sample_reached .dirtyWord (fun _ => 0, false) depositedInTwo
  cases hinit
  refine ⟨_, hreached, rfl, (exits_open_iff_probes_decode _ _ _ hreached (fun _ _ => True)
    (Outside.dirtyWord_delivers _) trivial 5 6 (by decide) ⟨?_, ?_, ?_, ?_⟩).2 ?_⟩
  · decide
  · decide
  · decide
  · exact fun h => absurd h (by decide)
  · exact probesDecode_of_clean rfl

/-- Both adapters hold a half of the deposit when the first starts to answer with a dirty word. -/
def dirtyAnswer : List (Tx ((Address → Nat) × Bool)) :=
  depositedInTwo ++ [⟨9, .sample, .outside [] (update (update (fun _ => 0) 30 500) 31 500, true)⟩]

/-- The other adapter is counted and delivers, the shares are worth something, and yet they cannot be redeemed. -/
theorem exits_frozen_dirtyAnswer :
    ∃ s : Vault ((Address → Nat) × Bool), s.Reached .sample .dirtyWord ∧
      Outside.dirtyWord.Delivers .sample (s.CountedAdapter .sample .dirtyWord) (fun _ _ => True) ∧
      s.ExitFits .sample .dirtyWord 5 ∧ 10 ^ 19 ≤ s.book.shares 5 ∧ s.grossOf .sample .dirtyWord (10 ^ 19) ≠ 0 ∧
      s.redeem .sample .dirtyWord 5 (10 ^ 19) 6 5 = .error .abiDecode ∧
      s.maxWithdraw .sample .dirtyWord 5 = .error .abiDecode ∧ ¬ s.ExitsOpen .sample .dirtyWord 5 6 := by
  obtain ⟨s₀, hinit, hreached⟩ := Vault.sample_reached .dirtyWord (fun _ => 0, false) dirtyAnswer
  cases hinit
  refine ⟨_, hreached, Outside.dirtyWord_delivers _, ⟨by decide, by decide, by decide, fun h => absurd h (by decide)⟩,
    by decide, by decide, rfl, rfl, ?_⟩
  intro hopen
  obtain ⟨assets, shares, hmax, -⟩ := hopen.withdraw
  cases hmax

end RobotMoney
