import Mathlib.Tactic.Linarith
import RobotMoney.Basket.Vault

/-!
# Rounding on the way into a basket

A deposit mints on the value its swaps brought in, the previews promise the value the slippage bound leaves, and a mint
is charged so that this value covers its shares.  All four conversions round against the caller, and the deposit itself
refuses to bring in less than the slippage bound leaves: so a deposit mints what its preview promised, a mint mints
what was asked for, the largest mint costs no more than the largest deposit, and no entry lowers the value behind a
share.  Nothing is assumed of the swap venues.
-/

namespace RobotMoney.Basket

open Evm

namespace BasketVault

variable {v v' : BasketVault} {m : Market} {venue : SwapVenue}

private theorem slippage_pos (v : BasketVault) : 0 < maxBps - v.maxSlippageBps := by
  have h := v.slippage_le
  unfold maxSlippageCeiling at h
  unfold maxBps
  omega

private theorem totalAssets_mintShares (v : BasketVault) (m : Market) (receiver : Address) (amount : Nat) :
    (v.mintShares receiver amount).totalAssets m = v.totalAssets m := rfl

private theorem withUsdc_eq_ok {r : Except TokenError Token} (h : v.withUsdc r = .ok v') :
    ∃ t, r = .ok t ∧ v' = { v with wallet := { v.wallet with usdc := t } } := by
  unfold withUsdc at h
  split at h
  · rename_i t
    cases h
    exact ⟨t, rfl, rfl⟩
  · cases h

variable {usdcAmount : Nat}

theorem routeDeposit_eq_ok (h : v.routeDeposit m venue usdcAmount = .ok v') : ∃ w, v' = { v with wallet := w } := by
  unfold routeDeposit at h
  dsimp only at h
  split at h
  · cases h
    exact ⟨v.wallet, rfl⟩
  simp only [bind_eq_ok] at h
  obtain ⟨⟨first, w⟩, -, h⟩ := h
  cases h
  exact ⟨w, rfl⟩

variable {caller receiver : Address} {minted : Nat}

private theorem internalDeposit_eq_ok (h : v.internalDeposit m venue caller receiver usdcAmount = .ok (v', minted)) :
    ∃ ta delta, v.totalAssets m = .ok ta ∧ v'.totalAssets m = .ok (ta + delta) ∧
      mulDivNat .floor usdcAmount (maxBps - v.maxSlippageBps) maxBps ≤ delta ∧
      minted = mulDivNat .floor delta (v.totalSupply + virtualShares) (ta + 1) ∧
      v'.totalSupply = v.totalSupply + minted ∧ v'.shares receiver = v.shares receiver + minted := by
  simp only [internalDeposit, bind_eq_ok, revertIf_eq_ok, add_eq_ok, sub_eq_ok, mulDiv_eq_ok] at h
  obtain ⟨-, -, -, -, ta, hta, -, -, -, -, v₁, hpull, v₂, hroute, floor, ⟨-, -, rfl⟩, ta', hta', delta, ⟨hle, rfl⟩, -,
    hfloor, supply, ⟨-, rfl⟩, backing, ⟨-, rfl⟩, shares, ⟨-, -, rfl⟩, -, -, -, -, h⟩ := h
  obtain ⟨t, -, rfl⟩ := withUsdc_eq_ok hpull
  obtain ⟨w, rfl⟩ := routeDeposit_eq_ok hroute
  simp only [Except.ok.injEq, Prod.mk.injEq] at h
  obtain ⟨rfl, rfl⟩ := h
  refine ⟨ta, ta' - ta, hta, ?_, by omega, rfl, rfl, ?_⟩
  · rw [totalAssets_mintShares, hta', Nat.add_sub_cancel' hle]
  · simp [mintShares]

variable {gross haircut whole : Nat}

private theorem charge_covers (hh : 0 < haircut) (hw : 0 < whole) :
    gross ≤ mulDivNat .floor (mulDivNat .ceil gross whole haircut) haircut whole := by
  apply le_mulDivNat_floor hw
  exact le_mulDivNat_ceil_mul gross whole hh

private theorem charge_within {deposit : Nat} (hh : 0 < haircut)
    (h : gross ≤ mulDivNat .floor deposit haircut whole) : mulDivNat .ceil gross whole haircut ≤ deposit := by
  apply mulDivNat_ceil_le hh
  calc gross * whole ≤ mulDivNat .floor deposit haircut whole * whole := Nat.mul_le_mul_right _ h
    _ ≤ deposit * haircut := mulDivNat_floor_mul_le ..

private theorem price_kept {ta delta supply : Nat} (h : minted = mulDivNat .floor delta supply (ta + 1)) :
    (ta + 1) * (supply + minted) ≤ (ta + delta + 1) * supply := by
  have hback : minted * (ta + 1) ≤ delta * supply := by
    rw [h]
    exact mulDivNat_floor_mul_le ..
  nlinarith

variable {assets shares : Nat}

private theorem previewDeposit_eq_ok (h : v.previewDeposit m assets = .ok shares) : ∃ ta, v.totalAssets m = .ok ta ∧
      shares = mulDivNat .floor (mulDivNat .floor assets (maxBps - v.maxSlippageBps) maxBps)
        (v.totalSupply + virtualShares) (ta + 1) := by
  simp only [previewDeposit, previewDepositFloor, convertToShares, bind_eq_ok, add_eq_ok, mulDiv_eq_ok] at h
  obtain ⟨-, -, effective, ⟨-, -, rfl⟩, supply, ⟨-, rfl⟩, ta, hta, backing, ⟨-, rfl⟩, -, -, rfl⟩ := h
  exact ⟨ta, hta, rfl⟩

private theorem previewMint_eq_ok (h : v.previewMint m shares = .ok assets) : ∃ ta, v.totalAssets m = .ok ta ∧
      assets = mulDivNat .ceil (mulDivNat .ceil shares (ta + 1) (v.totalSupply + virtualShares)) maxBps
        (maxBps - v.maxSlippageBps) ∧ assets < wordSize := by
  simp only [previewMint, convertToAssets, bind_eq_ok, add_eq_ok, mulDiv_eq_ok] at h
  obtain ⟨gross, ⟨ta, hta, backing, ⟨-, rfl⟩, supply, ⟨-, rfl⟩, -, -, rfl⟩, -, hlt, rfl⟩ := h
  exact ⟨ta, hta, rfl, hlt⟩

variable {limit : Nat}

private theorem maxDeposit_lt (h : v.maxDeposit m = .ok limit) : limit < wordSize := by
  have hpos : 0 < wordSize := by decide
  obtain ⟨htvl, hper⟩ := v.caps_lt
  unfold maxDeposit at h
  split at h
  · cases h
    exact hpos
  split at h
  · cases h
    exact hpos
  split at h
  · cases h
    unfold maxUint
    omega
  simp only [bind_eq_ok] at h
  obtain ⟨current, -, h⟩ := h
  split at h
  · cases h
    exact hpos
  cases h
  split <;> omega

private theorem previewMint_maxMint (hlimit : v.maxDeposit m = .ok limit) (hcap : limit ≠ maxUint)
    (h : v.maxMint m = .ok shares) : ∃ assets, v.previewMint m shares = .ok assets ∧ assets ≤ limit := by
  simp only [maxMint, hlimit, ok_bind, if_neg hcap] at h
  simp only [previewDepositFloor, convertToShares, bind_eq_ok, add_eq_ok, mulDiv_eq_ok] at h
  obtain ⟨effective, ⟨-, heff, rfl⟩, supply, ⟨hsupply, rfl⟩, ta, hta, backing, ⟨hbacking, rfl⟩, -, -, rfl⟩ := h
  have hlt := maxDeposit_lt hlimit
  have hhaircut := v.slippage_pos
  have hvirtual : 0 < virtualShares := by decide
  -- the shares of the floor are worth no more than the floor, also rounded up
  have hgross : mulDivNat .ceil
      (mulDivNat .floor (mulDivNat .floor limit (maxBps - v.maxSlippageBps) maxBps) (v.totalSupply + virtualShares)
        (ta + 1)) (ta + 1) (v.totalSupply + virtualShares) ≤
      mulDivNat .floor limit (maxBps - v.maxSlippageBps) maxBps := by
    apply mulDivNat_ceil_le (by omega)
    exact mulDivNat_floor_mul_le ..
  have hassets := charge_within hhaircut hgross
  refine ⟨_, ?_, hassets⟩
  simp only [previewMint, convertToAssets, bind_eq_ok, add_eq_ok, mulDiv_eq_ok]
  exact ⟨_, ⟨ta, hta, _, ⟨hbacking, rfl⟩, _, ⟨hsupply, rfl⟩, by omega, by omega, rfl⟩, by omega, by omega, rfl⟩

/-- The value behind a share, counting the virtual ones, is no lower in `v'` than in `v`. -/
def ValuePerShareKept (m : Market) (v v' : BasketVault) : Prop :=
  ∃ ta ta', v.totalAssets m = .ok ta ∧ v'.totalAssets m = .ok ta' ∧
    (ta + 1) * (v'.totalSupply + virtualShares) ≤ (ta' + 1) * (v.totalSupply + virtualShares)

private theorem valuePerShareKept_of_deposit
    (h : v.internalDeposit m venue caller receiver usdcAmount = .ok (v', minted)) : ValuePerShareKept m v v' := by
  obtain ⟨ta, delta, hta, hta', -, hminted, hsupply, -⟩ := internalDeposit_eq_ok h
  refine ⟨ta, ta + delta, hta, hta', ?_⟩
  have hkept := price_kept hminted
  rw [hsupply]
  have hsplit : v.totalSupply + minted + virtualShares = v.totalSupply + virtualShares + minted := by omega
  rw [hsplit]
  exact hkept

/-- Entry rounding.  In every state of a basket, at any prices and with any swap venue:

* a successful deposit mints what its preview promised or more;
* a successful mint mints the shares asked for or more;
* the largest mint is charged no more than the largest deposit, and below the cap of an uncapped vault its charge can be
  computed;
* neither lowers the value behind a share. -/
theorem entry_rounding (v : BasketVault) (m : Market) (venue : SwapVenue) :
    (∀ caller receiver assets v' minted, v.deposit m venue caller receiver assets = .ok (v', minted) →
      (∃ promised, v.previewDeposit m assets = .ok promised ∧ promised ≤ minted) ∧
      v'.shares receiver = v.shares receiver + minted ∧ ValuePerShareKept m v v') ∧
    (∀ caller receiver shares v' minted, v.mint m venue caller receiver shares = .ok (v', minted) →
      shares ≤ minted ∧ v'.shares receiver = v.shares receiver + minted ∧ ValuePerShareKept m v v') ∧
    ∀ shares, v.maxMint m = .ok shares → ∃ limit, v.maxDeposit m = .ok limit ∧
      (∀ assets, v.previewMint m shares = .ok assets → assets ≤ limit) ∧
      (limit ≠ maxUint → ∃ assets, v.previewMint m shares = .ok assets) := by
  refine ⟨?_, ?_, ?_⟩
  · intro caller receiver assets v' minted h
    simp only [deposit, bind_eq_ok] at h
    obtain ⟨-, -, -, -, -, -, promised, hpreview, h⟩ := h
    obtain ⟨ta, delta, hta, -, hdelta, hminted, -, hshares⟩ := internalDeposit_eq_ok h
    obtain ⟨ta', hta', hpromised⟩ := previewDeposit_eq_ok hpreview
    rw [hta] at hta'
    cases hta'
    refine ⟨⟨promised, hpreview, ?_⟩, hshares, valuePerShareKept_of_deposit h⟩
    rw [hpromised, hminted]
    exact mulDivNat_floor_mono hdelta ..
  · intro caller receiver shares v' minted h
    simp only [mint, bind_eq_ok] at h
    obtain ⟨-, -, -, -, -, -, -, -, assets, hpreview, h⟩ := h
    obtain ⟨ta, delta, hta, -, hdelta, hminted, -, hshares⟩ := internalDeposit_eq_ok h
    obtain ⟨ta', hta', hassets, -⟩ := previewMint_eq_ok hpreview
    rw [hta] at hta'
    cases hta'
    refine ⟨?_, hshares, valuePerShareKept_of_deposit h⟩
    have hvirtual : 0 < virtualShares := by decide
    have hcovers : mulDivNat .ceil shares (ta + 1) (v.totalSupply + virtualShares) ≤ delta := by
      rw [hassets] at hdelta
      exact (charge_covers v.slippage_pos (by decide)).trans hdelta
    rw [hminted]
    apply le_mulDivNat_floor (by omega)
    calc shares * (ta + 1)
        ≤ mulDivNat .ceil shares (ta + 1) (v.totalSupply + virtualShares) * (v.totalSupply + virtualShares) :=
          le_mulDivNat_ceil_mul _ _ (by omega)
      _ ≤ delta * (v.totalSupply + virtualShares) := Nat.mul_le_mul_right _ hcovers
  · intro shares h
    have hmint := h
    simp only [maxMint, bind_eq_ok] at h
    obtain ⟨limit, hlimit, -⟩ := h
    refine ⟨limit, hlimit, ?_, ?_⟩
    · intro assets hassets
      by_cases hcap : limit = maxUint
      · obtain ⟨-, -, -, hlt⟩ := previewMint_eq_ok hassets
        unfold maxUint at hcap
        omega
      · obtain ⟨assets', hassets', hle⟩ := previewMint_maxMint hlimit hcap hmint
        rw [hassets] at hassets'
        cases hassets'
        exact hle
    · intro hcap
      obtain ⟨assets, hassets, -⟩ := previewMint_maxMint hlimit hcap hmint
      exact ⟨assets, hassets⟩

end BasketVault

end RobotMoney.Basket
