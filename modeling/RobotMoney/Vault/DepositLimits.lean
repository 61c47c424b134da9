import RobotMoney.Vault.Probes
import RobotMoney.Vault.Routing
import RobotMoney.Vault.Settings

/-!
# The limits of a deposit

`maxDeposit`, the check inside `deposit` and the two caps in `_depositAt` each compute what may still come in.

* With exact adapters a deposit within `maxDeposit` goes through and no other one does (`deposit_returns_iff`).
* It mints what `previewDeposit` says and raises the net asset value by itself, which stays within the cap
  (`deposit_effect`).
* While deposits are closed the supply of shares does not grow, however exact the adapters are (`closed_supply`).
-/

namespace RobotMoney

open Evm Except

theorem ShareBook.mint_returns {d : Deployment} {b : ShareBook} {account : Address} {value : Nat} (hzero : account ≠ 0)
    (hsupply : b.totalSupply + value < wordSize) (hfit : b.CheckpointFits account) :
    ∃ b', b.mint d account value = .ok b' := by
  obtain ⟨l, hl⟩ := checkpoint_returns (d := d) (.inr ⟨rfl, rfl⟩) hzero hfit
  have hadd : (add b.totalSupply value : Except Revert Nat) = .ok (b.totalSupply + value) := add_eq_ok.2 ⟨hsupply, rfl⟩
  simp only [ShareBook.mint, ShareBook.update, ShareBook.erc20Update, ShareBook.debit, if_neg hzero, if_true, hl, hadd,
    revertIf_of_not _ hzero, ok_bind]
  exact ⟨_, rfl⟩

namespace Vault

variable {σ : Type} (d : Deployment) (env : Outside σ)

def previewDeposit (s : Vault σ) (assets : Nat) : Except Revert Nat := s.convertToShares d env assets .floor

/-- The words on the way of a deposit of `assets` fit. -/
structure DepositFits (s : Vault σ) (receiver : Address) (assets : Nat) : Prop where
  total : (s.netAssets d env + assets) * maxBps < wordSize
  supply : s.book.totalSupply + virtualShares < wordSize
  shares : s.book.totalSupply +
    mulDivNat .floor assets (s.book.totalSupply + virtualShares) (s.netAssets d env + 1) < wordSize
  checkpoint : s.book.CheckpointFits receiver

/-- Deposits are paused, the vault is shut down or retired, nothing is active, or an active entry has an open record or
an adapter that is not eligible. -/
def Closed (s : Vault σ) : Prop :=
  s.depositsPaused = true ∨ s.shutdown = true ∨ s.retired = true ∨ s.activeCount = 0 ∨
    ∃ i e, s.adapters[i]? = some e ∧ e.active = true ∧
      (s.openExclusionOf i ≠ 0 ∨ s.isEligible d env e.adapter ≠ .ok true)

variable {d env} {s s' t : Vault σ}

private theorem Closed.not_open (h : s.Closed d env) : s.depositsClosed d env ≠ .ok false := by
  intro hopen
  obtain ⟨hpaused, hshut, hretired, hcount, hopen⟩ := depositsClosed_eq_false_iff.1 hopen
  rcases h with h | h | h | h | ⟨i, e, he, hact, h⟩
  · rw [hpaused] at h
    cases h
  · rw [hshut] at h
    cases h
  · rw [hretired] at h
    cases h
  · exact hcount h
  have husable := (hopen i e he hact).1
  unfold isUsable at husable
  split at husable
  · cases husable
  rename_i hnone
  rw [entry_eq_ok.2 he, ok_bind] at husable
  exact h.elim hnone fun hnot => hnot husable

private theorem priced_of_open (hexact : env.Exact d s.ActiveAdapter) (h : s.depositsClosed d env = .ok false) :
    s.Priced d env := by
  refine priced_of_probes (probesDecode_of_open h) ?_
  rintro a ⟨i, e, hc, he, rfl⟩
  exact hexact.reports s.hidden e.adapter (activeAdapter_of_counted he hc)

variable {nav m assets shares : Nat} {caller receiver : Address}

theorem maxDepositAt_eq (h : s.totalAssets d env = .ok nav) : s.maxDepositAt d env nav = s.maxDeposit d env := by
  unfold maxDeposit maxDepositAt
  cases s.depositsClosed d env with
  | error reason => rfl
  | ok closed =>
    simp only [ok_bind]
    cases closed with
    | true => rfl
    | false =>
      by_cases hcaps : s.capsUnbounded = true
      · simp [hcaps]
      · simp [hcaps, h]

theorem maxDeposit_room (hm : s.maxDeposit d env = .ok m) (hnav : s.totalAssets d env = .ok nav) (hpos : 0 < assets)
    (hle : assets ≤ m) (hfit : nav + assets < wordSize) :
    s.depositsClosed d env = .ok false ∧ assets ≤ s.perDepositCap ∧ nav + assets ≤ s.tvlCap := by
  have hopen := open_of_maxDeposit_pos hm (by omega)
  refine ⟨hopen, ?_⟩
  rw [← maxDepositAt_eq hnav, maxDepositAt, hopen, ok_bind] at hm
  by_cases hcaps : s.capsUnbounded = true
  · simp only [capsUnbounded, Bool.and_eq_true, beq_iff_eq] at hcaps
    have hmax : maxUint + 1 = wordSize := by decide
    omega
  simp only [Bool.false_eq_true, if_false, if_neg hcaps] at hm
  split at hm
  · cases hm
    omega
  cases hm
  omega

namespace Placed

variable {placed : Nat → Nat}

theorem isCounted_eq (h : Placed d env s placed t) (i : Nat) : t.isCounted d env i = s.isCounted d env i := by
  unfold isCounted
  rw [h.entry_eq]
  cases he : s.entry i with
  | error reason => rfl
  | ok e =>
    simp only [ok_bind]
    by_cases hact : e.active = true
    · rw [if_pos hact, if_pos hact, h.isUsable_eq (entry_eq_ok.1 he) hact]
    · rw [if_neg hact, if_neg hact]

theorem netAssets (h : Placed d env s placed t) (hexact : env.Exact d s.ActiveAdapter) :
    t.netAssets d env = s.netAssets d env := by
  have hparts : ∀ i ∈ Finset.range s.adapters.length,
      t.contribution d env i = s.contribution d env i + placed i := by
    intro i hi
    by_cases hc : s.isCounted d env i = .ok true
    · obtain ⟨e, he, hact, -⟩ := isCounted_eq_true.1 hc
      obtain ⟨n, hn⟩ := hexact.reports s.hidden e.adapter ⟨e, List.mem_of_getElem? he, hact, rfl⟩
      rw [contribution_of_counted ((h.isCounted_eq i).trans hc) (by rw [h.adapters]; exact he),
        contribution_of_counted hc he, Outside.balanceOf_eq hn, Outside.balanceOf_eq (h.reports i e he hact n hn)]
    rw [contribution_of_not_counted (by rw [h.isCounted_eq]; exact hc), contribution_of_not_counted hc,
      h.uncounted i hc]
  have hidle := h.idle
  unfold Vault.netAssets
  rw [h.adapters, Finset.sum_congr rfl hparts, Finset.sum_add_distrib]
  omega

private theorem totalAssets (h : Placed d env s placed t) (hexact : env.Exact d s.ActiveAdapter) (hp : s.Priced d env)
    (hfit : s.netAssets d env < wordSize) : t.totalAssets d env = .ok (s.netAssets d env) := by
  have hpriced : t.Priced d env := by
    intro i hi
    obtain ⟨b, hb, hreport⟩ := hp i (h.adapters ▸ hi)
    refine ⟨b, (h.isCounted_eq i).trans hb, ?_⟩
    rintro rfl e he
    rw [h.adapters] at he
    obtain ⟨n, hn⟩ := hreport rfl e he
    exact ⟨n + placed i, h.reports i e he (counted_entry he hb).1 n hn⟩
  have hnav := h.netAssets hexact
  rw [totalAssets_returns hpriced (by rw [hnav]; exact hfit), hnav]

end Placed

/-- What a deposit of `assets` for `shares` has done. -/
structure Deposited (d : Deployment) (env : Outside σ) (s s' : Vault σ) (caller receiver : Address)
    (assets shares : Nat) : Prop where
  preview : s.previewDeposit d env assets = .ok shares
  /-- The receiver had the shares before the assets were routed. -/
  minted : ∃ book nav, { s.book with usdc := moveBalance s.book.usdc caller d.vault assets }.mint d receiver shares =
    .ok book ∧ book.shares receiver = s.book.shares receiver + shares ∧
    { s with book := book }.routeDeposit d env assets nav = .ok s'
  supply : s'.book.totalSupply = s.book.totalSupply + shares
  nav : ∃ nav, s.totalAssets d env = .ok nav ∧ s'.totalAssets d env = .ok (nav + assets) ∧ nav + assets ≤ s.tvlCap

private theorem routeDeposit_supply {amount total : Nat} (h : s.routeDeposit d env amount total = .ok s') :
    s'.book.totalSupply = s.book.totalSupply := by
  refine routeDeposit_rel (R := fun s t => t.book.totalSupply = s.book.totalSupply) (fun _ => rfl)
    (fun h₁ h₂ => h₂.trans h₁) (fun _ h => ?_) h
  simp only [allocate, callDeploy, bind_eq_ok, ok.injEq, Prod.mk.injEq] at h
  obtain ⟨e, -, -, -, usdc, -, m, ⟨eff, -, rfl⟩, -, -, -, -, -, rfl⟩ := h
  exact (outsideRun_vault d _ eff.calls).2

private theorem depositAt_supply (h : s.depositAt d env caller receiver assets shares nav = .ok s') :
    s'.book.totalSupply = s.book.totalSupply + shares := by
  simp only [depositAt, bind_eq_ok] at h
  obtain ⟨-, -, -, -, -, -, total, -, -, -, -, -, usdc, -, book, hbook, h⟩ := h
  exact (routeDeposit_supply h).trans (ShareBook.mint_spec hbook).2.1

private theorem netAssets_arrived {book : ShareBook} (hcaller : caller ≠ d.vault)
    (husdc : book.usdc = moveBalance s.book.usdc caller d.vault assets) :
    { s with book := book }.netAssets d env = s.netAssets d env + assets := by
  have hidle := netAssets_book d env s book
  rw [husdc, moveBalance_target hcaller] at hidle
  unfold idle at hidle
  omega

private theorem deposit_effect (hexact : env.Exact d s.ActiveAdapter) (hdistinct : s.ActiveDistinct)
    (hcaller : caller ≠ d.vault) (h : s.deposit d env caller assets receiver = .ok (shares, s')) :
    Deposited d env s s' caller receiver assets shares := by
  simp only [deposit, bind_eq_ok, ok.injEq, Prod.mk.injEq] at h
  obtain ⟨-, -, nav, hnav, m, -, -, -, supply, hsupply, nav', hnav', shares', hshares, t, ht, rfl, rfl⟩ := h
  have hsupplied := depositAt_supply ht
  simp only [depositAt, bind_eq_ok, revertIf_eq_ok, moveUsdc_eq_ok, add_eq_ok, not_lt] at ht
  obtain ⟨-, -, -, -, -, -, total, ⟨hfit, rfl⟩, -, hcap, -, -, usdc, ⟨-, -, rfl⟩, book, hbook, hroute⟩ := ht
  obtain ⟨husdc, -, hshares', -⟩ := ShareBook.mint_spec hbook
  obtain ⟨hp, rfl⟩ := totalAssets_eq_ok hnav
  have harrived : { s with book := book }.netAssets d env = s.netAssets d env + assets :=
    netAssets_arrived hcaller husdc
  obtain ⟨placed, r, hrouting, rfl, -⟩ := routeDeposit_routed (s := { s with book := book }) hexact hdistinct hroute
  refine ⟨?_, ⟨book, _, hbook, ?_, hroute⟩, hsupplied, _, hnav, ?_, hcap⟩
  · simp only [previewDeposit, convertToShares, bind_eq_ok]
    exact ⟨supply, hsupply, _, hnav, nav', hnav', hshares⟩
  · rw [hshares', Function.update_self]
  · rw [← harrived]
    exact hrouting.vault.totalAssets hexact hp (by rw [harrived]; exact hfit)

private theorem deposit_returns (hexact : env.Exact d s.ActiveAdapter) (hdistinct : s.ActiveDistinct)
    (hbounded : s.settings.Bounded) (hreceiver : receiver ≠ 0) (hcaller : caller ≠ d.vault) (hpos : 0 < assets)
    (hfunds : assets ≤ s.book.usdc caller) (hfits : s.DepositFits d env receiver assets)
    (hm : s.maxDeposit d env = .ok m) (hle : assets ≤ m) : ∃ r, s.deposit d env caller assets receiver = .ok r := by
  have hp := priced_of_open hexact (open_of_maxDeposit_pos hm (by omega))
  have htotal := hfits.total
  have hfit : s.netAssets d env + assets < wordSize := (Nat.le_mul_of_pos_right _ (by decide)).trans_lt htotal
  have hnav := totalAssets_returns hp (by omega)
  obtain ⟨hopen, hper, htvl⟩ := maxDeposit_room hm hnav hpos hle hfit
  obtain ⟨hpaused, hshut, hretired, hcount, -⟩ := depositsClosed_eq_false_iff.1 hopen
  have hshares := hfits.shares
  obtain ⟨book, hbook⟩ := ShareBook.mint_returns (d := d)
    (b := { s.book with usdc := moveBalance s.book.usdc caller d.vault assets }) hreceiver hshares hfits.checkpoint
  have husdc : book.usdc = moveBalance s.book.usdc caller d.vault assets := (ShareBook.mint_spec hbook).1
  have harrived : { s with book := book }.netAssets d env = s.netAssets d env + assets :=
    netAssets_arrived hcaller husdc
  have hrouting : RoutingFits d env { s with book := book } assets (s.netAssets d env + assets) := by
    refine ⟨?_, htotal, fun e he => (hbounded.slices e he).2, hbounded.active, ?_⟩
    · rw [← harrived]
      exact totalAssets_returns hp (by rw [harrived]; exact hfit)
    · show assets ≤ book.usdc d.vault
      rw [husdc, moveBalance_target hcaller]
      exact Nat.le_add_left _ _
  obtain ⟨s', hroute⟩ := routeDeposit_returns (s := { s with book := book }) hexact hdistinct hrouting
  have hdeposit : s.depositAt d env caller receiver assets
      (mulDivNat .floor assets (s.book.totalSupply + virtualShares) (s.netAssets d env + 1)) (s.netAssets d env) =
        .ok s' := by
    simp only [depositAt, bind_eq_ok, revertIf_eq_ok, add_eq_ok, moveUsdc_eq_ok, not_lt]
    exact ⟨(), by simp [hshut], (), by simp [hretired], (), hper, _, ⟨hfit, rfl⟩, (), htvl, (), hcount, _,
      ⟨d.vault_ne_zero, hfunds, rfl⟩, book, hbook, hroute⟩
  refine ⟨(mulDivNat .floor assets (s.book.totalSupply + virtualShares) (s.netAssets d env + 1), s'), ?_⟩
  simp only [deposit, bind_eq_ok, revertIf_eq_ok, add_eq_ok, mulDiv_eq_ok, ok.injEq, Prod.mk.injEq, not_lt]
  exact ⟨(), by simp [hpaused], _, hnav, m, (maxDepositAt_eq hnav).trans hm, (), hle, _, ⟨hfits.supply, rfl⟩, _,
    ⟨by omega, rfl⟩, _, ⟨by omega, by omega, rfl⟩, s', hdeposit, rfl, rfl⟩

private theorem le_maxDeposit {r : Nat × Vault σ} (h : s.deposit d env caller assets receiver = .ok r) :
    ∃ m, s.maxDeposit d env = .ok m ∧ assets ≤ m := by
  simp only [deposit, bind_eq_ok, revertIf_eq_ok, not_lt] at h
  obtain ⟨-, -, nav, hnav, m, hm, -, hle, -⟩ := h
  exact ⟨m, (maxDepositAt_eq hnav).symm.trans hm, hle⟩

theorem receiver_ne_zero {r : Nat × Vault σ} (h : s.deposit d env caller assets receiver = .ok r) : receiver ≠ 0 := by
  simp only [deposit, depositAt, ShareBook.mint, bind_eq_ok, revertIf_eq_ok] at h
  obtain ⟨-, -, nav, -, m, -, -, -, supply, -, nav', -, shares, -, t, ⟨-, -, -, -, -, -, total, -, -, -, -, -, usdc, -,
    book, ⟨-, hzero, -⟩, -⟩, -⟩ := h
  exact hzero

private theorem previewMint_maxMint {m x y : Nat} (hm : s.maxDeposit d env = .ok m) (hx : s.maxMint d env = .ok x)
    (hy : s.previewMint d env x = .ok y) : y ≤ m := by
  simp only [maxMint, hm, ok_bind] at hx
  simp only [previewMint, convertToAssets, bind_eq_ok, add_eq_ok, mulDiv_eq_ok] at hy
  obtain ⟨nav, hnav, -, ⟨-, rfl⟩, -, ⟨-, rfl⟩, hsupply, hfit, rfl⟩ := hy
  split at hx
  · rename_i hmax
    have hmax' : maxUint + 1 = wordSize := by decide
    omega
  simp only [convertToShares, bind_eq_ok, add_eq_ok, mulDiv_eq_ok] at hx
  obtain ⟨-, ⟨-, rfl⟩, nav', hnav', -, ⟨-, rfl⟩, -, -, rfl⟩ := hx
  obtain rfl : nav = nav' := ok.inj (hnav.symm.trans hnav')
  exact mulDivNat_ceil_le (Nat.pos_of_ne_zero hsupply) (mulDivNat_floor_mul_le ..)

private theorem maxDeposit_closed (hclosed : s.Closed d env) (h : s.maxDeposit d env = .ok m) : m = 0 := by
  by_contra hpos
  exact hclosed.not_open (open_of_maxDeposit_pos h hpos)

theorem deposit_closed (hclosed : s.Closed d env) (h : s.deposit d env caller assets receiver = .ok (shares, s')) :
    s'.book.totalSupply = s.book.totalSupply := by
  obtain ⟨m, hm, hle⟩ := le_maxDeposit h
  have hzero := maxDeposit_closed hclosed hm
  obtain rfl : assets = 0 := by omega
  simp only [deposit, bind_eq_ok, mulDiv_eq_ok, ok.injEq, Prod.mk.injEq] at h
  obtain ⟨-, -, nav, -, -, -, -, -, supply, -, nav', -, -, ⟨-, -, rfl⟩, t, ht, -, rfl⟩ := h
  rw [depositAt_supply ht]
  simp [mulDivNat]

private theorem mint_closed (hclosed : s.Closed d env) (h : s.mint d env caller shares receiver = .ok (assets, s')) :
    s'.book.totalSupply = s.book.totalSupply := by
  simp only [mint, maxMint, bind_eq_ok, revertIf_eq_ok, not_lt, ok.injEq, Prod.mk.injEq] at h
  obtain ⟨-, -, x, ⟨m, hm, hx⟩, -, hle, cost, -, nav, -, t, ht, -, rfl⟩ := h
  obtain rfl := maxDeposit_closed hclosed hm
  rw [if_neg (by decide)] at hx
  simp only [convertToShares, bind_eq_ok, mulDiv_eq_ok] at hx
  obtain ⟨supply, -, nav', -, nav'', -, -, -, rfl⟩ := hx
  have hzero : mulDivNat .floor 0 supply nav'' = 0 := by simp [mulDivNat]
  rw [depositAt_supply ht]
  omega

end Vault

/-- In every state the system reaches with exact adapters: a funded deposit whose words fit goes through exactly when it
is within `maxDeposit`, provided its receiver is not the zero address; it mints what `previewDeposit` says and raises
the net asset value by itself, within the cap; the preview of `maxMint` is within `maxDeposit`; and while deposits are
closed no deposit and no mint raises the supply. -/
theorem deposit_limits_exact {σ : Type} (d : Deployment) (env : Outside σ) (s : Vault σ) (hreach : s.Reached d env)
    (hexact : env.Exact d s.ActiveAdapter) :
    (∀ (caller receiver : Address) (assets : Nat), receiver ≠ 0 → caller ≠ d.vault → 0 < assets →
      assets ≤ s.book.usdc caller → s.DepositFits d env receiver assets →
      ((∃ r, s.deposit d env caller assets receiver = .ok r) ↔ ∃ m, s.maxDeposit d env = .ok m ∧ assets ≤ m)) ∧
    (∀ (caller receiver : Address) (assets shares : Nat) (s' : Vault σ), caller ≠ d.vault →
      s.deposit d env caller assets receiver = .ok (shares, s') →
      Vault.Deposited d env s s' caller receiver assets shares) ∧
    (∀ m x y, s.maxDeposit d env = .ok m → s.maxMint d env = .ok x → s.previewMint d env x = .ok y → y ≤ m) ∧
    (s.Closed d env → ∀ (caller receiver : Address) (amount : Nat) (r : Nat × Vault σ),
      s.deposit d env caller amount receiver = .ok r ∨ s.mint d env caller amount receiver = .ok r →
      r.2.book.totalSupply = s.book.totalSupply) := by
  have hdistinct := hreach.sound.toConsistent.activeDistinct
  refine ⟨?_, ?_, fun m x y => Vault.previewMint_maxMint, ?_⟩
  · intro caller receiver assets hreceiver hcaller hpos hfunds hfits
    constructor
    · rintro ⟨_, h⟩
      exact Vault.le_maxDeposit h
    · rintro ⟨m, hm, hle⟩
      exact Vault.deposit_returns hexact hdistinct hreach.settings_bounded hreceiver hcaller hpos hfunds hfits hm hle
  · intro caller receiver assets shares s' hcaller h
    exact Vault.deposit_effect hexact hdistinct hcaller h
  · rintro hclosed caller receiver amount ⟨x, s'⟩ (h | h)
    · exact Vault.deposit_closed hclosed h
    · exact Vault.mint_closed hclosed h

private theorem twoAdapters_open :
    ∃ s : Vault (Address → Nat), s.Reached .sample .sample ∧ Outside.sample.Exact .sample s.ActiveAdapter ∧
      (∃ m, s.maxDeposit .sample .sample = .ok m ∧ 400 ≤ m) ∧ s.book.usdc 5 = 1000 ∧
      ∀ receiver, s.DepositFits .sample .sample receiver 400 := by
  obtain ⟨s₀, hinit, hreached⟩ := Vault.sample_reached .sample (fun _ => 0) twoAdapters
  cases hinit
  refine ⟨_, hreached, Outside.sample_exact ?_, ⟨10 ^ 12, rfl, by decide⟩, rfl,
    fun receiver => ⟨by decide, by decide, by decide, fun h => absurd h (by decide)⟩⟩
  rintro a ⟨e, he, -, rfl⟩
  have hentries : e ∈ ([⟨30, 5000, true⟩, ⟨31, 10000, true⟩] : List AdapterInfo) := he
  rcases List.mem_cons.1 hentries with rfl | he
  · exact ⟨by decide, by decide⟩
  cases List.mem_singleton.1 he
  exact ⟨by decide, by decide⟩

/-- A deposit of 400 for account 6. -/
theorem deposit_limits_exact_twoAdapters :
    ∃ (s s' : Vault (Address → Nat)) (shares : Nat), s.Reached .sample .sample ∧
      s.deposit .sample .sample 5 400 6 = .ok (shares, s') ∧
      Vault.Deposited .sample .sample s s' 5 6 400 shares := by
  obtain ⟨s, hreached, hexact, hroom, hfunds, hfits⟩ := twoAdapters_open
  obtain ⟨haccepted, heffect, -⟩ := deposit_limits_exact .sample .sample s hreached hexact
  obtain ⟨⟨shares, s'⟩, h⟩ := (haccepted 5 6 400 (by decide) (by decide) (by decide) (by omega) (hfits 6)).2 hroom
  exact ⟨s, s', shares, hreached, h, heffect 5 6 400 shares s' (by decide) h⟩

/-- The limit does not depend on the receiver, but no shares are minted to the zero address. -/
theorem deposit_for_nobody_refused :
    ∃ s : Vault (Address → Nat), s.Reached .sample .sample ∧ Outside.sample.Exact .sample s.ActiveAdapter ∧
      400 ≤ s.book.usdc 5 ∧ s.DepositFits .sample .sample 0 400 ∧
      (∃ m, s.maxDeposit .sample .sample = .ok m ∧ 400 ≤ m) ∧
      ¬ ∃ r, s.deposit .sample .sample 5 400 0 = .ok r := by
  obtain ⟨s, hreached, hexact, hroom, hfunds, hfits⟩ := twoAdapters_open
  refine ⟨s, hreached, hexact, by omega, hfits 0, hroom, ?_⟩
  rintro ⟨_, h⟩
  exact Vault.receiver_ne_zero h rfl

end RobotMoney
