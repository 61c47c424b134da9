import RobotMoney.Basket.Vault

/-!
# Redemption in kind

`redeemInKind` burns shares for the pro-rata amount of the idle USDC and of each active token, at no price and without a
swap.  The legs run in the linked library `BasketAssetConfigGuard`.  Here they are followed with the transfers they
make; of the tokens other than USDC only what the vault holds is kept.
-/

namespace RobotMoney.Basket

open Evm

/-- A transfer out of the vault. -/
structure Payment where
  token : Address
  target : Address
  amount : Nat
  deriving DecidableEq, Repr

namespace BasketVault

/-- `balanceOf(address(this))`. -/
def balanceOf (v : BasketVault) (token : Address) : Nat :=
  if token = v.usdcToken then v.idle else v.wallet.held token

def safeTransfer (v : BasketVault) (p : Payment) : Except BasketError BasketVault :=
  if p.token = v.usdcToken then v.withUsdc (v.wallet.usdc.transfer v.self p.target p.amount)
  else do
    revertIf (p.target = 0) (.token .invalidReceiver)
    revertIf (v.wallet.held p.token < p.amount) (.token .insufficientBalance)
    if p.target = v.self then .ok v
    else
      .ok { v with
        wallet := { v.wallet with
          held := Function.update v.wallet.held p.token (v.wallet.held p.token - p.amount) } }

def pay (s : BasketVault × List Payment) (p : Payment) : Except BasketError (BasketVault × List Payment) := do
  let v ← s.1.safeTransfer p
  .ok (v, s.2 ++ [p])

def payLegFee (s : BasketVault × List Payment) (token : Address) (fee : Nat) :
    Except BasketError (BasketVault × List Payment) :=
  if fee > 0 then pay s ⟨token, s.1.feeRecipient, fee⟩ else .ok s

def payLeg (receiver : Address) (shares supplyBefore : Nat) (s : BasketVault × List Payment) (token : Address) :
    Except BasketError (BasketVault × List Payment) := do
  let amount ← mulDiv .floor (s.1.balanceOf token) shares supplyBefore
  if amount = 0 then .ok s
  else do
    let fee ← mulDiv .floor amount s.1.exitFeeBps maxBps
    let s₁ ← payLegFee s token fee
    let net ← sub amount fee
    pay s₁ ⟨token, receiver, net⟩

def legs (v : BasketVault) : List Address := v.usdcToken :: (v.assets.filter (·.active)).map (·.token)

/-- `payInKind`, with the transfers it makes. -/
def payInKind (v : BasketVault) (gas : Nat) (receiver : Address) (shares supplyBefore : Nat) :
    Except BasketError (BasketVault × List Payment) := do
  revertIf (gas < v.redeemGasFloor) (.insufficientGas gas v.redeemGasFloor)
  v.legs.foldlM (payLeg receiver shares supplyBefore) (v, [])

def redeemInKind (v : BasketVault) (gas : Nat) (caller : Address) (shares : Nat) (receiver owner : Address) :
    Except BasketError (BasketVault × List Payment) := do
  let v₁ ← v.spendFor caller owner shares
  revertIf (owner = 0) .invalidSender
  if h : shares ≤ v₁.shares owner then (v₁.burnShares owner shares h).payInKind gas receiver shares v.totalSupply
  else .error .insufficientShares

def SameShares (v v' : BasketVault) : Prop := v'.shares = v.shares ∧ v'.totalSupply = v.totalSupply

private theorem SameShares.refl (v : BasketVault) : SameShares v v := ⟨rfl, rfl⟩

private theorem SameShares.trans {u v w : BasketVault} (h : SameShares u v) (h' : SameShares v w) : SameShares u w :=
  ⟨h'.1.trans h.1, h'.2.trans h.2⟩

variable {v v' : BasketVault}

private theorem sameShares_withUsdc {r : Except TokenError Token} (h : v.withUsdc r = .ok v') : SameShares v v' := by
  unfold withUsdc at h
  split at h
  · cases h
    exact ⟨rfl, rfl⟩
  · cases h

private theorem sameShares_safeTransfer {p : Payment} (h : v.safeTransfer p = .ok v') : SameShares v v' := by
  unfold safeTransfer at h
  split at h
  · exact sameShares_withUsdc h
  simp only [bind_eq_ok] at h
  obtain ⟨-, -, -, -, h⟩ := h
  split at h <;> cases h <;> exact ⟨rfl, rfl⟩

variable {s s' : BasketVault × List Payment} {shares supplyBefore : Nat} {receiver caller owner : Address}
  {m : Market} {venue : SwapVenue}

private theorem sameShares_pay {p : Payment} (h : pay s p = .ok s') : SameShares s.1 s'.1 := by
  simp only [pay, bind_eq_ok, Except.ok.injEq] at h
  obtain ⟨v, hv, rfl⟩ := h
  exact sameShares_safeTransfer hv

theorem sameShares_payLeg {receiver token : Address} (h : payLeg receiver shares supplyBefore s token = .ok s') :
    SameShares s.1 s'.1 := by
  simp only [payLeg, bind_eq_ok] at h
  obtain ⟨amount, -, h⟩ := h
  split at h
  · cases h
    exact .refl _
  simp only [bind_eq_ok] at h
  obtain ⟨fee, -, s₁, hfee, net, -, h⟩ := h
  have hfirst : SameShares s.1 s₁.1 := by
    unfold payLegFee at hfee
    split at hfee
    · exact sameShares_pay hfee
    cases hfee
    exact .refl _
  exact hfirst.trans (sameShares_pay h)

private theorem sameShares_payLegs {tokens : List Address}
    (h : tokens.foldlM (payLeg receiver shares supplyBefore) s = .ok s') : SameShares s.1 s'.1 := by
  induction tokens generalizing s with
  | nil =>
    cases h
    exact .refl _
  | cons token tokens ih =>
    obtain ⟨s₁, hleg, hrest⟩ := bind_eq_ok.1 h
    exact (sameShares_payLeg hleg).trans (ih hrest)

private theorem sameShares_payInKind {gas shares supplyBefore : Nat} {payments : List Payment}
    (h : v.payInKind gas receiver shares supplyBefore = .ok (v', payments)) : SameShares v v' := by
  simp only [payInKind, bind_eq_ok] at h
  obtain ⟨-, -, h⟩ := h
  exact sameShares_payLegs h

private theorem sameShares_spendFor (h : v.spendFor caller owner shares = .ok v') : SameShares v v' := by
  unfold spendFor spendAllowance at h
  split at h
  · split at h
    · cases h
      exact .refl _
    simp only [bind_eq_ok, Except.ok.injEq] at h
    obtain ⟨-, -, rfl⟩ := h
    exact ⟨rfl, rfl⟩
  cases h
  exact .refl _

private theorem sameShares_routeDeposit {usdcAmount : Nat} (h : v.routeDeposit m venue usdcAmount = .ok v') :
    SameShares v v' := by
  unfold routeDeposit at h
  dsimp only at h
  split at h
  · cases h
    exact .refl _
  simp only [bind_eq_ok] at h
  obtain ⟨⟨first, w⟩, -, h⟩ := h
  cases h
  exact ⟨rfl, rfl⟩

private theorem sameShares_payFee {fee : Nat} (h : v.payFee fee = .ok v') : SameShares v v' := by
  unfold payFee at h
  split at h
  · exact sameShares_withUsdc h
  cases h
  exact .refl _

/-- `amount` shares are minted to `receiver`. -/
structure Mints (v v' : BasketVault) (receiver : Address) (amount : Nat) : Prop where
  receiver_ne : receiver ≠ 0
  supply_lt : v.totalSupply + amount < wordSize
  supply : v'.totalSupply = v.totalSupply + amount
  shares : v'.shares = Function.update v.shares receiver (v.shares receiver + amount)

/-- `amount` shares of `owner` are burned. -/
structure Burns (v v' : BasketVault) (owner : Address) (amount : Nat) : Prop where
  owner_ne : owner ≠ 0
  le : amount ≤ v.shares owner
  supply : v'.totalSupply = v.totalSupply - amount
  shares : v'.shares = Function.update v.shares owner (v.shares owner - amount)

theorem mints_internalDeposit {usdcAmount minted : Nat}
    (h : v.internalDeposit m venue caller receiver usdcAmount = .ok (v', minted)) : Mints v v' receiver minted := by
  simp only [internalDeposit, bind_eq_ok, revertIf_eq_ok, add_eq_ok] at h
  obtain ⟨-, -, -, -, ta, -, -, -, -, -, v₁, hpull, v₂, hroute, -, -, -, -, delta, -, -, -, -, -, -, -, shares, -, -,
    hreceiver, -, ⟨hlt, -⟩, h⟩ := h
  simp only [Except.ok.injEq, Prod.mk.injEq] at h
  obtain ⟨rfl, rfl⟩ := h
  obtain ⟨hshares, hsupply⟩ := (sameShares_withUsdc hpull).trans (sameShares_routeDeposit hroute)
  constructor
  · exact hreceiver
  · exact hlt
  · simp [mintShares, hsupply]
  · simp [mintShares, hshares]

theorem burns_of_spendFor {v₁ v₂ : BasketVault} {amount : Nat} (hspend : v.spendFor caller owner amount = .ok v₁)
    (howner : owner ≠ 0) (hle : amount ≤ v₁.shares owner) (hpaid : SameShares (v₁.burnShares owner amount hle) v₂) :
    Burns v v₂ owner amount := by
  obtain ⟨hshares, hsupply⟩ := sameShares_spendFor hspend
  obtain ⟨hpaidShares, hpaidSupply⟩ := hpaid
  constructor
  · exact howner
  · rwa [← hshares]
  · rw [hpaidSupply, ← hsupply]
    rfl
  · rw [hpaidShares, ← hshares]
    rfl

theorem burns_internalWithdraw {shares net : Nat}
    (h : v.internalWithdraw m venue caller receiver owner shares = .ok (v', net)) : Burns v v' owner shares := by
  simp only [internalWithdraw, bind_eq_ok, revertIf_eq_ok] at h
  obtain ⟨v₁, hspend, -, howner, h⟩ := h
  split at h
  · rename_i hle
    simp only [bind_eq_ok, Except.ok.injEq, Prod.mk.injEq] at h
    obtain ⟨⟨out, w⟩, -, fee, -, net', -, v₃, hfee, v₄, hpay, rfl, -⟩ := h
    apply burns_of_spendFor hspend howner hle
    exact SameShares.trans (⟨rfl, rfl⟩ : SameShares _ { v₁.burnShares owner shares hle with wallet := w })
      ((sameShares_payFee hfee).trans (sameShares_withUsdc hpay))
  · cases h

theorem burns_redeemInKind {gas shares : Nat} {payments : List Payment}
    (h : v.redeemInKind gas caller shares receiver owner = .ok (v', payments)) : Burns v v' owner shares := by
  simp only [redeemInKind, bind_eq_ok, revertIf_eq_ok] at h
  obtain ⟨v₁, hspend, -, howner, h⟩ := h
  split at h
  · rename_i hle
    exact burns_of_spendFor hspend howner hle (sameShares_payInKind h)
  · cases h

end BasketVault

end RobotMoney.Basket
