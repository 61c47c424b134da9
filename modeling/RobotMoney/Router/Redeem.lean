import RobotMoney.Basket.Vault
import RobotMoney.Evm.Shares
import RobotMoney.Router.PortfolioRouter

/-!
# Redeeming through the router

`redeemFor` redeems shares of a holder from the vaults the caller names.  Two allowances of the holder are involved.
The guard of `_redeemLeg` reads the one to the caller and leaves it as it is; the vault spends the one to the router,
which is the account that calls `vault.redeem`.  So the allowance to the caller bounds a single leg, and what is
redeemed over a whole run is bounded by what the holder has granted the router.

Around the calls of `redeemFor` stand the share tokens of all vaults, with the approvals, transfers and redemptions of
everybody else, also while a vault is at work inside a leg.  A log keeps the approvals and the legs.
-/

namespace RobotMoney

open Evm Except Prod

/-- An account other than the router, which makes no approval and spends no allowance but in `redeemFor`. -/
def Account (router : Address) := { a : Address // a ≠ router }

inductive ShareEvent where
  | approved (vault owner spender : Address) (value : Nat)
  /-- A leg of `redeemFor`, with the allowance of its caller when it was checked. -/
  | redeemed (vault holder caller : Address) (shares allowed : Nat)
  deriving DecidableEq, Repr

/-- The share token of every vault, and what has happened. -/
structure ShareBooks where
  shares : Address → Token
  log : List ShareEvent

/-- The calls of a vault's shares, with who makes them. -/
inductive ShareCall (router : Address) where
  | approve (owner : Account router) (vault spender : Address) (value : Fin wordSize)
  | transfer (sender vault target : Address) (value : Nat)
  | transferFrom (spender : Account router) (vault source target : Address) (value : Nat)
  | redeem (caller : Account router) (vault owner : Address) (shares : Nat)

namespace ShareBooks

def setShares (b : ShareBooks) (vault : Address) (t : Token) : ShareBooks :=
  { b with shares := Function.update b.shares vault t }

def record (b : ShareBooks) (e : ShareEvent) : ShareBooks := { b with log := e :: b.log }

def onShares (b : ShareBooks) (vault : Address) (op : Token → Except ShareTokenError Token) :
    Except ShareTokenError ShareBooks := do
  let t ← op (b.shares vault)
  .ok (b.setShares vault t)

end ShareBooks

def shareStep (router : Address) (b : ShareBooks) : ShareCall router → Except ShareTokenError ShareBooks
  | .approve owner vault spender value => do
    let b ← b.onShares vault (·.approveShares owner.val spender value.val)
    .ok (b.record (.approved vault owner.val spender value.val))
  | .transfer sender vault target value => b.onShares vault (·.moveShares sender target value)
  | .transferFrom spender vault source target value => do
    let b ← b.onShares vault (·.spendAllowance source spender.val value)
    b.onShares vault (·.moveShares source target value)
  | .redeem caller vault owner shares => do
    let b ← b.onShares vault (·.spendFor caller.val owner shares)
    b.onShares vault (·.burn owner shares)

inductive RedeemError where
  | deadlineExpired
  | zeroAddress
  | noWeightsSet
  | redeemVaultsLengthMismatch
  | insufficientGas (available required : Nat)
  | redeemVaultNotRegistered (vault : Address)
  | unauthorizedRedeemer (shareHolder caller : Address)
  | slippageExceeded
  | exceededMaxRedeem
  | callFailed (vault : Address)
  | shares (e : ShareTokenError)
  deriving DecidableEq, Repr

def orShares {α : Type} : Except ShareTokenError α → Except RedeemError α
  | .ok a => .ok a
  | .error e => .error (.shares e)

/-- What a vault does in `redeem` besides moving the allowance and the shares: the calls of share tokens made by others
before and after it burns, and the USDC it pays. -/
structure VaultAnswer (router : Address) where
  early : List (ShareCall router)
  late : List (ShareCall router)
  assets : Nat

structure RedeemLeg where
  vault : Address
  shares : Nat
  minAssets : Nat
  deriving DecidableEq, Repr

/-- What a call of `redeemFor` finds: the block, the registry, and how each leg's vault answers, if it does not
revert. -/
structure RedeemWorld (router : Address) where
  timestamp : Nat
  gas : Nat
  registered : Address → Bool
  answer : Nat → Option (VaultAnswer router)

/-- The arguments of `redeemFor`. -/
structure RedeemRequest where
  shareHolder : Address
  assetRecipient : Address
  vaults : List Address
  sharesPerLeg : List Nat
  minAssetsPerLeg : List Nat
  deadline : Nat

def RedeemRequest.legs (q : RedeemRequest) : List RedeemLeg :=
  List.zipWith3 RedeemLeg.mk q.vaults q.sharesPerLeg q.minAssetsPerLeg

/-- `REDEEM_GAS_PER_LEG` for every leg that is not zero. -/
def RedeemRequest.gasFloor (q : RedeemRequest) : Nat := (q.sharesPerLeg.countP (· ≠ 0)) * 1700000

namespace ShareBooks

variable {router : Address}

/-- `vault.redeem`, called by the router: the allowance is spent, the shares are burned. -/
def vaultRedeem (b : ShareBooks) (vault owner : Address) (shares : Nat) :
    Option (VaultAnswer router) → Except RedeemError (ShareBooks × Nat)
  | none => .error (.callFailed vault)
  | some a => do
    revertIf (shares > (b.shares vault).balance owner) .exceededMaxRedeem
    let b ← orShares (b.onShares vault (·.spendFor router owner shares))
    let b ← orShares ((run (shareStep router) b a.early).onShares vault (·.burn owner shares))
    .ok (run (shareStep router) b a.late, a.assets)

def redeemLeg (b : ShareBooks) (registered : Address → Bool) (answer : Option (VaultAnswer router))
    (sender shareHolder : Address) (leg : RedeemLeg) : Except RedeemError (ShareBooks × Nat) := do
  revertIf (registered leg.vault = false) (.redeemVaultNotRegistered leg.vault)
  let allowed := (b.shares leg.vault).allowance shareHolder sender
  revertIf (sender ≠ shareHolder ∧ allowed < leg.shares) (.unauthorizedRedeemer shareHolder sender)
  let (b, assetsOut) ← b.vaultRedeem leg.vault shareHolder leg.shares answer
  revertIf (assetsOut < leg.minAssets) .slippageExceeded
  .ok (b.record (.redeemed leg.vault shareHolder sender leg.shares allowed), assetsOut)

/-- The loop of `redeemFor`: a leg of zero shares is skipped. -/
def redeemLegs (w : RedeemWorld router) (sender shareHolder : Address) :
    (i : Nat) → ShareBooks → List RedeemLeg → Except RedeemError (ShareBooks × List Nat)
  | _, b, [] => .ok (b, [])
  | i, b, leg :: rest =>
    if leg.shares = 0 then do
      let (b, assetsPerLeg) ← redeemLegs w sender shareHolder (i + 1) b rest
      .ok (b, 0 :: assetsPerLeg)
    else do
      let (b, assetsOut) ← b.redeemLeg w.registered (w.answer i) sender shareHolder leg
      let (b, assetsPerLeg) ← redeemLegs w sender shareHolder (i + 1) b rest
      .ok (b, assetsOut :: assetsPerLeg)

def redeemFor (b : ShareBooks) (w : RedeemWorld router) (sender : Account router) (q : RedeemRequest) :
    Except RedeemError (ShareBooks × List Nat) := do
  revertIf (w.timestamp > q.deadline) .deadlineExpired
  revertIf (q.shareHolder = 0) .zeroAddress
  revertIf (q.assetRecipient = 0) .zeroAddress
  revertIf (q.vaults.length = 0) .noWeightsSet
  revertIf (q.sharesPerLeg.length ≠ q.vaults.length) .redeemVaultsLengthMismatch
  revertIf (q.minAssetsPerLeg.length ≠ q.vaults.length) .redeemVaultsLengthMismatch
  revertIf (w.gas < q.gasFloor) (.insufficientGas w.gas q.gasFloor)
  redeemLegs w sender.val q.shareHolder 0 b q.legs

end ShareBooks

inductive RedeemCall (router : Address) where
  | share (c : ShareCall router)
  | redeemFor (w : RedeemWorld router) (sender : Account router) (q : RedeemRequest)

def redeemStep (router : Address) (b : ShareBooks) : RedeemCall router → Except RedeemError ShareBooks
  | .share c => orShares (shareStep router b c)
  | .redeemFor w sender q => do
    let (b, _) ← b.redeemFor w sender q
    .ok b

/-- Share tokens on which nobody has approved anything yet; balances are what they are, in words. -/
structure ShareBooks.Fresh (b : ShareBooks) : Prop where
  allowance : ∀ vault owner spender, (b.shares vault).allowance owner spender = 0
  supply : ∀ vault, (b.shares vault).supply < wordSize
  log : b.log = []

namespace ShareEvent

/-- What the event grants `spender` of `owner`'s shares. -/
def granted (vault owner spender : Address) : ShareEvent → Nat
  | .approved v o s value => if v = vault ∧ o = owner ∧ s = spender then value else 0
  | .redeemed .. => 0

/-- What the event redeems of `holder`'s shares on behalf of `caller`. -/
def redeemedBy (vault holder caller : Address) : ShareEvent → Nat
  | .redeemed v h c shares _ => if v = vault ∧ h = holder ∧ c = caller then shares else 0
  | .approved .. => 0

/-- What the event redeems of `holder`'s shares, whoever called. -/
def redeemedFrom (vault holder : Address) : ShareEvent → Nat
  | .redeemed v h _ shares _ => if v = vault ∧ h = holder then shares else 0
  | .approved .. => 0

def Authorized : ShareEvent → Prop
  | .redeemed _ h c shares allowed => c ≠ h → shares ≤ allowed
  | .approved .. => True

@[simp] theorem granted_approved_self (vault owner spender : Address) (value : Nat) :
    (approved vault owner spender value).granted vault owner spender = value :=
  if_pos ⟨rfl, rfl, rfl⟩

@[simp] theorem granted_redeemed (vault owner spender v h c : Address) (shares allowed : Nat) :
    (redeemed v h c shares allowed).granted vault owner spender = 0 := rfl

@[simp] theorem redeemedFrom_approved (vault holder v o s : Address) (value : Nat) :
    (approved v o s value).redeemedFrom vault holder = 0 := rfl

private theorem redeemedFrom_redeemed_self (v h c : Address) (shares allowed : Nat) :
    (redeemed v h c shares allowed).redeemedFrom v h = shares :=
  if_pos ⟨rfl, rfl⟩

private theorem redeemedFrom_redeemed_of_ne {vault holder v h c : Address} {shares allowed : Nat}
    (hne : ¬ (v = vault ∧ h = holder)) : (redeemed v h c shares allowed).redeemedFrom vault holder = 0 :=
  if_neg hne

private theorem redeemedBy_le_redeemedFrom (vault holder caller : Address) (e : ShareEvent) :
    e.redeemedBy vault holder caller ≤ e.redeemedFrom vault holder := by
  cases e with
  | approved v o s value => exact le_rfl
  | redeemed v h c shares allowed =>
    simp only [redeemedBy, redeemedFrom]
    by_cases hc : v = vault ∧ h = holder ∧ c = caller
    · rw [if_pos hc, if_pos ⟨hc.1, hc.2.1⟩]
    rw [if_neg hc]
    exact Nat.zero_le _

end ShareEvent

namespace ShareBooks

open List Function Token ShareEvent Except

variable {router vault holder : Address} {b b' : ShareBooks} {spent burned : Nat}

def total (b : ShareBooks) (f : ShareEvent → Nat) : Nat := (b.log.map f).sum

@[simp] theorem total_record (b : ShareBooks) (e : ShareEvent) (f : ShareEvent → Nat) :
    (b.record e).total f = f e + b.total f := rfl

@[simp] theorem total_setShares (b : ShareBooks) (v : Address) (t : Token) (f : ShareEvent → Nat) :
    (b.setShares v t).total f = b.total f := rfl

private theorem onShares_eq_ok {v : Address} {op : Token → Except ShareTokenError Token} :
    b.onShares v op = .ok b' ↔ ∃ t, op (b.shares v) = .ok t ∧ b.setShares v t = b' := by
  simp [onShares, bind_eq_ok]

theorem setShares_shares_of_ne {v w : Address} (h : w ≠ v) (t : Token) : (b.setShares v t).shares w = b.shares w :=
  update_of_ne h ..

private theorem record_shares (b : ShareBooks) (e : ShareEvent) : (b.record e).shares = b.shares := rfl

private theorem setShares_self (b : ShareBooks) (v : Address) : b.setShares v (b.shares v) = b := by
  simp [setShares]

@[simp] theorem setShares_shares_self (v : Address) (t : Token) : (b.setShares v t).shares v = t :=
  update_self ..

/-- The books of one vault and one holder.  Inside a leg, `spent` of the allowance to the router and `burned` of the
supply are gone without being logged yet. -/
structure Bounded (router vault holder : Address) (spent burned : Nat) (b : ShareBooks) : Prop where
  /-- Unless an unlimited allowance was granted, grants cover what is left of the allowance and what was redeemed. -/
  allowance : .approved vault holder router unlimited ∉ b.log →
    (b.shares vault).allowance holder router < unlimited ∧
      (b.shares vault).allowance holder router + b.total (·.redeemedFrom vault holder) + spent ≤
        b.total (·.granted vault holder router)
  supply : (b.shares vault).supply + b.total (·.redeemedFrom vault holder) + burned < wordSize
  /-- The router has approved nobody. -/
  router : ∀ spender, (b.shares vault).allowance router spender = 0
  authorized : ∀ e ∈ b.log, e.Authorized

private theorem Fresh.bounded (h : b.Fresh) : b.Bounded router vault holder 0 0 where
  allowance _ := by
    have hpos : 0 < unlimited := by
      unfold unlimited wordSize
      omega
    simp [h.allowance, total, h.log, hpos]
  supply := by simpa [total, h.log] using h.supply vault
  router spender := h.allowance ..
  authorized e he := by
    rw [h.log] at he
    cases he

private theorem Bounded.setShares {v : Address} {t : Token} (h : b.Bounded router vault holder spent burned)
    (ht : vault = v → t.allowance holder router = (b.shares v).allowance holder router ∧
      t.supply ≤ (b.shares v).supply ∧ ∀ spender, t.allowance router spender ≤ (b.shares v).allowance router spender) :
    (b.setShares v t).Bounded router vault holder spent burned := by
  rcases eq_or_ne vault v with rfl | hne
  · obtain ⟨ha, hs, hr⟩ := ht rfl
    constructor
    · intro hlog
      rw [setShares_shares_self, ha]
      exact h.allowance hlog
    · rw [setShares_shares_self, total_setShares]
      have := h.supply
      omega
    · intro spender
      rw [setShares_shares_self]
      have := hr spender
      rw [h.router] at this
      omega
    · exact h.authorized
  constructor
  · intro hlog
    rw [setShares_shares_of_ne hne]
    exact h.allowance hlog
  · rw [setShares_shares_of_ne hne]
    exact h.supply
  · intro spender
    rw [setShares_shares_of_ne hne]
    exact h.router spender
  · exact h.authorized

theorem Bounded.record_approved {v o s : Address} {value : Nat} (h : b.Bounded router vault holder spent burned) :
    (b.record (.approved v o s value)).Bounded router vault holder spent burned where
  allowance hlog := by
    obtain ⟨hlim, hle⟩ := h.allowance fun hmem => hlog (mem_cons_of_mem _ hmem)
    refine ⟨hlim, ?_⟩
    simp only [total_record, redeemedFrom_approved, zero_add]
    exact hle.trans (Nat.le_add_left ..)
  supply := by
    simp only [total_record, redeemedFrom_approved, zero_add]
    exact h.supply
  router := h.router
  authorized e he := by
    rcases mem_cons.1 he with rfl | he
    · trivial
    · exact h.authorized e he

private theorem Bounded.spend {v owner spender : Address} {value : Nat} (hspender : spender ≠ router)
    (h : b.Bounded router vault holder spent burned)
    (hx : b.onShares v (·.spendAllowance owner spender value) = .ok b') :
    b'.Bounded router vault holder spent burned := by
  obtain ⟨t, ht, rfl⟩ := onShares_eq_ok.1 hx
  refine h.setShares fun _ => ⟨?_, (supply_spendAllowance ht).le, fun _ => spendAllowance_le ht⟩
  exact spendAllowance_of_ne ht fun hc => hspender hc.2.symm

section

variable (h : b.Bounded router vault holder spent burned)

include h

private theorem Bounded.burn {v owner : Address} {value : Nat}
    (hx : b.onShares v (·.burn owner value) = .ok b') : b'.Bounded router vault holder spent burned := by
  obtain ⟨t, ht, rfl⟩ := onShares_eq_ok.1 hx
  have hsupply := supply_burn ht
  have hallow := burn_allowance ht
  refine h.setShares fun _ => ⟨?_, ?_, fun spender => ?_⟩
  · rw [hallow]
  · omega
  · rw [hallow]

private theorem Bounded.move {v source target : Address} {value : Nat}
    (hx : b.onShares v (·.moveShares source target value) = .ok b') : b'.Bounded router vault holder spent burned := by
  obtain ⟨t, ht, rfl⟩ := onShares_eq_ok.1 hx
  have hallow := moveShares_allowance ht
  refine h.setShares fun _ => ⟨?_, (supply_moveShares ht).le, fun spender => ?_⟩
  · rw [hallow]
  · rw [hallow]

theorem Bounded.approve {owner : Account router} {v spender : Address} {value : Fin wordSize} :
    ((b.setShares v ((b.shares v).approve owner.val spender value.val)).record
      (.approved v owner.val spender value.val)).Bounded router vault holder spent burned := by
  have hrouter : ∀ s, ((b.shares v).approve owner.val spender value.val).allowance router s =
      (b.shares v).allowance router s := by
    intro s
    rw [approve_allowance_of_ne owner.property.symm]
  by_cases hgrant : vault = v ∧ owner.val = holder ∧ spender = router
  · obtain ⟨rfl, rfl, rfl⟩ := hgrant
    refine ⟨fun hlog => ?_, ?_, fun s => ?_, h.record_approved.authorized⟩
    · obtain ⟨-, hle⟩ := h.allowance fun hmem => hlog (mem_cons_of_mem _ hmem)
      have hval : value.val ≠ unlimited := by
        intro hval
        exact hlog (hval ▸ mem_cons_self ..)
      have hlt := value.isLt
      rw [record_shares, setShares_shares_self, approve_allowance_self, update_self]
      simp only [total_record, total_setShares, redeemedFrom_approved, granted_approved_self]
      unfold unlimited at hval ⊢
      omega
    · rw [record_shares, setShares_shares_self]
      simp only [total_record, total_setShares, redeemedFrom_approved, zero_add]
      exact h.supply
    · rw [record_shares, setShares_shares_self, hrouter]
      exact h.router s
  apply Bounded.record_approved
  apply h.setShares
  intro hv
  refine ⟨?_, le_rfl, fun s => (hrouter s).le⟩
  rcases eq_or_ne holder owner.val with rfl | ho
  · rw [approve_allowance_self, update_of_ne fun hs => hgrant ⟨hv, rfl, hs.symm⟩]
  · rw [approve_allowance_of_ne ho]

private theorem Bounded.shareStep {c : ShareCall router}
    (hx : RobotMoney.shareStep router b c = .ok b') : b'.Bounded router vault holder spent burned := by
  cases c with
  | approve owner v spender value =>
    simp only [RobotMoney.shareStep, bind_eq_ok, onShares_eq_ok, approveShares_eq_ok, ok.injEq] at hx
    obtain ⟨_, ⟨t, ⟨-, -, rfl⟩, rfl⟩, rfl⟩ := hx
    exact h.approve
  | transfer sender v target value => exact h.move hx
  | transferFrom spender v source target value =>
    simp only [RobotMoney.shareStep, bind_eq_ok] at hx
    obtain ⟨b₁, hspend, hmove⟩ := hx
    exact (h.spend spender.property hspend).move hmove
  | redeem caller v owner shares =>
    simp only [RobotMoney.shareStep, bind_eq_ok] at hx
    obtain ⟨b₁, hspend, hburn⟩ := hx
    refine Bounded.burn ?_ hburn
    obtain ⟨t, ht, rfl⟩ := onShares_eq_ok.1 hspend
    rcases spendFor_ok ht with rfl | ht
    · rwa [setShares_self]
    · exact h.spend caller.property (onShares_eq_ok.2 ⟨t, ht, rfl⟩)

private theorem Bounded.shareRun (cs : List (ShareCall router)) :
    (run (RobotMoney.shareStep router) b cs).Bounded router vault holder spent burned :=
  run_invariant (fun _ _ _ hb hx => hb.shareStep hx) h cs

end

variable {v h c : Address} {shares allowed : Nat}

private theorem Bounded.spendByRouter (hb : b.Bounded router vault holder 0 0) (hne : h ≠ router)
    (hx : b.onShares v (·.spendFor router h shares) = .ok b') (c : Address) (allowed : Nat) :
    b'.Bounded router vault holder ((redeemed v h c shares allowed).redeemedFrom vault holder) 0 := by
  obtain ⟨t, ht, rfl⟩ := onShares_eq_ok.1 hx
  rw [spendFor_of_ne hne.symm] at ht
  by_cases hleg : v = vault ∧ h = holder
  · obtain ⟨rfl, rfl⟩ := hleg
    refine ⟨fun hlog => ?_, ?_, fun s => ?_, hb.authorized⟩
    · obtain ⟨hlim, hle⟩ := hb.allowance hlog
      have hspent := spendAllowance_self hlim ht
      rw [setShares_shares_self, total_setShares, total_setShares, redeemedFrom_redeemed_self]
      omega
    · rw [setShares_shares_self, supply_spendAllowance ht]
      exact hb.supply
    · have := spendAllowance_le (o := router) (s := s) ht
      rw [hb.router] at this
      rw [setShares_shares_self]
      omega
  rw [redeemedFrom_redeemed_of_ne hleg]
  apply hb.setShares
  rintro rfl
  refine ⟨?_, (supply_spendAllowance ht).le, fun _ => spendAllowance_le ht⟩
  exact spendAllowance_of_ne ht fun hc => hleg ⟨rfl, hc.1.symm⟩

private theorem Bounded.burnByVault
    (hb : b.Bounded router vault holder ((redeemed v h c shares allowed).redeemedFrom vault holder) 0)
    (hx : b.onShares v (·.burn h shares) = .ok b') :
    b'.Bounded router vault holder ((redeemed v h c shares allowed).redeemedFrom vault holder)
      ((redeemed v h c shares allowed).redeemedFrom vault holder) := by
  have hb' := hb.burn hx
  refine ⟨hb'.allowance, ?_, hb'.router, hb'.authorized⟩
  by_cases hleg : v = vault ∧ h = holder
  · obtain ⟨rfl, rfl⟩ := hleg
    obtain ⟨t, ht, rfl⟩ := onShares_eq_ok.1 hx
    have hsupply := supply_burn ht
    have hbound := hb.supply
    rw [setShares_shares_self, total_setShares, redeemedFrom_redeemed_self]
    omega
  rw [redeemedFrom_redeemed_of_ne hleg]
  exact hb'.supply

private theorem Bounded.record_redeemed
    (hb : b.Bounded router vault holder ((redeemed v h c shares allowed).redeemedFrom vault holder)
      ((redeemed v h c shares allowed).redeemedFrom vault holder))
    (hauth : (redeemed v h c shares allowed).Authorized) :
    (b.record (.redeemed v h c shares allowed)).Bounded router vault holder 0 0 where
  allowance hlog := by
    obtain ⟨hlim, hle⟩ := hb.allowance fun hmem => hlog (mem_cons_of_mem _ hmem)
    refine ⟨hlim, ?_⟩
    rw [record_shares, total_record, total_record, granted_redeemed]
    omega
  supply := by
    have := hb.supply
    rw [record_shares, total_record]
    omega
  router := hb.router
  authorized e he := by
    rcases mem_cons.1 he with rfl | he
    · exact hauth
    · exact hb.authorized e he

def Sound (router : Address) (b : ShareBooks) : Prop := ∀ vault holder, b.Bounded router vault holder 0 0

private theorem orShares_eq_ok {α : Type} {x : Except ShareTokenError α} {a : α} : orShares x = .ok a ↔ x = .ok a := by
  cases x <;> simp [orShares]

private theorem Sound.redeemLeg {registered : Address → Bool} {answer : Option (VaultAnswer router)}
    {sender shareHolder : Address} {leg : RedeemLeg} {assetsOut : Nat} (hb : b.Sound router) (hsender : sender ≠ router)
    (hshares : leg.shares ≠ 0)
    (hx : b.redeemLeg registered answer sender shareHolder leg = .ok (b', assetsOut)) : b'.Sound router := by
  simp only [ShareBooks.redeemLeg, bind_eq_ok, revertIf_eq_ok, ok.injEq, Prod.mk.injEq] at hx
  obtain ⟨u, -, u', hguard, ⟨b₁, out⟩, hvault, u'', -, rfl, rfl⟩ := hx
  have hauth : sender ≠ shareHolder → leg.shares ≤ (b.shares leg.vault).allowance shareHolder sender := by
    intro hne
    by_contra hlt
    exact hguard ⟨hne, by omega⟩
  -- the router has approved nobody, so a leg on its own shares has not passed the guard
  have hholder : shareHolder ≠ router := by
    rintro rfl
    have := hauth hsender
    rw [(hb leg.vault shareHolder).router] at this
    omega
  intro vault holder
  cases answer with
  | none => cases hvault
  | some a =>
    simp only [ShareBooks.vaultRedeem, bind_eq_ok, orShares_eq_ok, ok.injEq, Prod.mk.injEq] at hvault
    obtain ⟨u, -, b₂, hspend, b₃, hburn, rfl, rfl⟩ := hvault
    have hspent := (hb vault holder).spendByRouter hholder hspend sender
      ((b.shares leg.vault).allowance shareHolder sender)
    have hburned := (hspent.shareRun a.early).burnByVault hburn
    exact (hburned.shareRun a.late).record_redeemed hauth

private theorem Sound.redeemLegs {w : RedeemWorld router} {sender shareHolder : Address} {legs : List RedeemLeg}
    (hsender : sender ≠ router) {i : Nat} {assetsPerLeg : List Nat} (hb : b.Sound router)
    (hx : ShareBooks.redeemLegs w sender shareHolder i b legs = .ok (b', assetsPerLeg)) : b'.Sound router := by
  induction legs generalizing i b assetsPerLeg with
  | nil =>
    simp only [ShareBooks.redeemLegs, ok.injEq, Prod.mk.injEq] at hx
    obtain ⟨rfl, -⟩ := hx
    exact hb
  | cons leg rest ih =>
    unfold ShareBooks.redeemLegs at hx
    split at hx
    case isTrue hzero =>
      simp only [bind_eq_ok, ok.injEq, Prod.mk.injEq] at hx
      obtain ⟨⟨b₁, outs⟩, hrest, rfl, -⟩ := hx
      exact ih hb hrest
    case isFalse hpos =>
      simp only [bind_eq_ok, ok.injEq, Prod.mk.injEq] at hx
      obtain ⟨⟨b₁, out⟩, hleg, ⟨b₂, outs⟩, hrest, rfl, -⟩ := hx
      exact ih (hb.redeemLeg hsender hpos hleg) hrest

private theorem redeemFor_legs {w : RedeemWorld router} {sender : Account router} {q : RedeemRequest}
    {r : ShareBooks × List Nat} (hx : b.redeemFor w sender q = .ok r) :
    ShareBooks.redeemLegs w sender.val q.shareHolder 0 b q.legs = .ok r := by
  simp only [redeemFor, bind_eq_ok, revertIf_eq_ok] at hx
  obtain ⟨u₁, -, u₂, -, u₃, -, u₄, -, u₅, -, u₆, -, u₇, -, hlegs⟩ := hx
  exact hlegs

private theorem Sound.step {call : RedeemCall router} (hb : b.Sound router) (hx : redeemStep router b call = .ok b') :
    b'.Sound router := by
  cases call with
  | share c =>
    intro vault holder
    exact (hb vault holder).shareStep (orShares_eq_ok.1 hx)
  | redeemFor w sender q =>
    simp only [redeemStep, bind_eq_ok, ok.injEq] at hx
    obtain ⟨⟨b₁, outs⟩, hredeem, rfl⟩ := hx
    exact hb.redeemLegs sender.property (redeemFor_legs hredeem)

private theorem Fresh.sound (h : b.Fresh) : b.Sound router := fun _ _ => h.bounded

private theorem Sound.redeemedFrom_le_granted (hb : b.Sound router) (vault holder : Address) :
    b.total (·.redeemedFrom vault holder) ≤ b.total (·.granted vault holder router) := by
  by_cases hlog : .approved vault holder router unlimited ∈ b.log
  · have hgrant : unlimited ≤ b.total (·.granted vault holder router) := by
      have := single_le_sum (l := b.log.map (·.granted vault holder router)) (fun _ _ => Nat.zero_le _) _
        (mem_map_of_mem hlog)
      rwa [granted_approved_self] at this
    have hsupply := (hb vault holder).supply
    unfold unlimited at hgrant
    omega
  have := ((hb vault holder).allowance hlog).2
  omega

private theorem total_redeemedBy_le (b : ShareBooks) (vault holder caller : Address) :
    b.total (·.redeemedBy vault holder caller) ≤ b.total (·.redeemedFrom vault holder) :=
  sum_le_sum fun e _ => e.redeemedBy_le_redeemedFrom vault holder caller

/-- In every reachable state, each leg that was redeemed on behalf of another account was within that account's
allowance at the time, and what was redeemed of a holder's shares, by one caller and by all together, is within the sum
of what the holder has granted the router. -/
theorem delegated_redemption_within_grants {b₀ : ShareBooks} (h₀ : b₀.Fresh) (h : Reachable (redeemStep router) b₀ b)
    (vault holder caller : Address) :
    (∀ shares allowed, .redeemed vault holder caller shares allowed ∈ b.log → caller ≠ holder → shares ≤ allowed) ∧
      b.total (·.redeemedBy vault holder caller) ≤ b.total (·.redeemedFrom vault holder) ∧
      b.total (·.redeemedFrom vault holder) ≤ b.total (·.granted vault holder router) := by
  have hb : b.Sound router := h.invariant h₀.sound fun _ _ _ hb hx => hb.step hx
  refine ⟨fun shares allowed hmem => (hb vault holder).authorized _ hmem, ?_, hb.redeemedFrom_le_granted vault holder⟩
  exact b.total_redeemedBy_le vault holder caller

def sample : ShareBooks where
  shares _ := ⟨fun a => if a = 5 then 200 else 0, fun _ _ => 0⟩
  log := []

private theorem sample_fresh : sample.Fresh where
  allowance _ _ _ := rfl
  supply _ := by
    simp only [sample, Token.supply, Finset.sum_ite_eq', Finset.mem_univ, if_true]
    decide
  log := rfl

/-- Account 6 redeems 100 shares of account 5 from the vault at 4, which pays as many USDC. -/
def sampleRedeem : RedeemCall 7 :=
  .redeemFor ⟨0, 1700000, fun _ => true, fun _ => some ⟨[], [], 100⟩⟩ ⟨6, by decide⟩ ⟨5, 6, [4], [100], [100], 0⟩

/-- Account 5 approves 100 shares for account 6 and 200 for the router, and account 6 redeems twice. -/
def sampleRedemptions : List (RedeemCall 7) :=
  [.share (.approve ⟨5, by decide⟩ 4 6 ⟨100, by decide⟩), .share (.approve ⟨5, by decide⟩ 4 7 ⟨200, by decide⟩),
    sampleRedeem, sampleRedeem]

theorem delegated_redemption_within_grants_twice :
    let b := run (redeemStep 7) sample sampleRedemptions
    b.total (·.redeemedFrom 4 5) = 200 ∧ b.total (·.redeemedFrom 4 5) ≤ b.total (·.granted 4 5 7) := by
  intro b
  refine ⟨by decide +kernel, ?_⟩
  exact (delegated_redemption_within_grants sample_fresh ⟨sampleRedemptions, rfl⟩ 4 5 6).2.2

/-- The allowance to the caller is checked by each leg and never spent. -/
theorem redeemed_twice_the_grant :
    sample.Fresh ∧
      let b := run (redeemStep 7) sample sampleRedemptions
      b.total (·.granted 4 5 6) = 100 ∧ b.total (·.redeemedBy 4 5 6) = 200 :=
  ⟨sample_fresh, by decide +kernel⟩

end ShareBooks

/-! ### What `vaultRedeem` says about a vault is what the basket vaults do with allowance and shares -/

namespace Basket.BasketVault

variable {v v' : BasketVault} {m : Market} {venue : SwapVenue}

def shareToken (v : BasketVault) : Token := ⟨v.shares, v.allowance⟩

private theorem spendFor_shareToken {caller owner : Address} {shares : Nat} (hcaller : caller ≠ 0) (howner : owner ≠ 0)
    (hword : v.allowance owner caller < wordSize) (h : v.spendFor caller owner shares = .ok v') :
    v.shareToken.spendFor caller owner shares = .ok v'.shareToken := by
  unfold spendFor at h
  split at h
  case isFalse heq =>
    rw [← ok.inj h]
    exact if_neg heq
  case isTrue hne =>
    rw [Token.spendFor_of_ne hne]
    unfold spendAllowance at h
    unfold Token.spendAllowance
    split at h
    case isTrue hmax =>
      have hun : ¬ v.shareToken.allowance owner caller < unlimited := by
        rw [show v.shareToken.allowance owner caller = unlimited from hmax]
        omega
      rw [if_neg hun, ok.inj h]
    case isFalse hmax =>
      have hlim : v.shareToken.allowance owner caller < unlimited := by
        have hmax : v.allowance owner caller ≠ wordSize - 1 := hmax
        show v.allowance owner caller < wordSize - 1
        omega
      simp only [bind_eq_ok, revertIf_eq_ok, ok.injEq] at h
      obtain ⟨u, hle, rfl⟩ := h
      rw [if_pos hlim]
      simp only [bind_eq_ok, revertIf_eq_ok, Token.approveShares_eq_ok]
      exact ⟨(), hle, howner, hcaller, rfl⟩

private theorem withUsdc_shareToken {r : Except TokenError Token} (h : v.withUsdc r = .ok v') :
    v'.shareToken = v.shareToken := by
  unfold withUsdc at h
  split at h
  · rw [← ok.inj h]
    rfl
  · cases h

private theorem payFee_shareToken {fee : Nat} (h : v.payFee fee = .ok v') : v'.shareToken = v.shareToken := by
  unfold payFee at h
  split at h
  · exact withUsdc_shareToken h
  · rw [ok.inj h]

theorem redeem_shareToken {gas shares paid : Nat} {caller receiver owner : Address} (hcaller : caller ≠ 0)
    (hword : v.allowance owner caller < wordSize)
    (h : v.redeem m venue gas caller shares receiver owner = .ok (v', paid)) : shares ≤ v.shareToken.balance owner ∧
      ∃ t, v.shareToken.spendFor caller owner shares = .ok t ∧ t.burn owner shares = .ok v'.shareToken := by
  simp only [redeem, internalWithdraw, bind_eq_ok, revertIf_eq_ok] at h
  obtain ⟨-, -, -, -, -, hbalance, promised, -, v₁, hspend, u, howner, h⟩ := h
  refine ⟨by simpa [shareToken] using hbalance, v₁.shareToken, spendFor_shareToken hcaller howner hword hspend, ?_⟩
  split at h
  case isFalse hshort => cases h
  case isTrue hshares =>
    simp only [bind_eq_ok, ok.injEq, Prod.mk.injEq] at h
    obtain ⟨⟨out, w⟩, -, fee, -, net, -, v₃, hfee, v₄, hpay, rfl, -⟩ := h
    rw [withUsdc_shareToken hpay, payFee_shareToken hfee, Token.burn_eq_ok]
    exact ⟨howner, hshares, rfl⟩

end Basket.BasketVault

end RobotMoney
