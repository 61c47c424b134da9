import RobotMoney.Evm.Checked

/-!
# The fee policy of the payment client

`fees/mod.rs` turns an answer of `eth_feeHistory` into an EIP-1559 bid under two caps, and `config.rs` resolves the cap
on the total fee: the flag, then the configuration, then a table by chain.  The tip is the median of the rewards, raised
to a floor of 1 gwei, and a bid of twice the next base fee plus the tip is made only when it stays below the cap.

The floor and the table do not know of each other.  On the chain 8453 the cap of the table is the floor itself, so no
history with a base fee gets a bid there.
-/

namespace RobotMoney.Client

open Evm List

/-- A `u128`. -/
abbrev U128 := Fin (2 ^ 128)

/-- `u128::MAX`. -/
def u128Max : U128 := ⟨2 ^ 128 - 1, by decide⟩

/-- The fields of `FeeHistory` the policy reads. -/
structure FeeHistory where
  baseFeePerGas : List U128
  reward : Option (List (List U128))
  deriving DecidableEq

structure FeeBid where
  maxFeePerGas : U128
  maxPriorityFeePerGas : U128
  deriving DecidableEq, Repr

inductive FeeError where
  | feeCapExceeded
  | rpcDecode (message : String)
  deriving DecidableEq, Repr

def oneGwei : U128 := 1000000000

def priorityFeeFloorWei : U128 := oneGwei

def saturatingMul (a b : U128) : U128 :=
  ⟨min (a.val * b.val) (2 ^ 128 - 1), lt_of_le_of_lt (min_le_right _ _) (by decide)⟩

def saturatingAdd (a b : U128) : U128 :=
  ⟨min (a.val + b.val) (2 ^ 128 - 1), lt_of_le_of_lt (min_le_right _ _) (by decide)⟩

def baseFeeForNextBlock (fh : FeeHistory) : Except FeeError U128 :=
  match fh.baseFeePerGas.getLast? with
  | some base => .ok base
  | none => .error (.rpcDecode "eth_feeHistory: empty base_fee_per_gas")

/-- `sort_unstable`. -/
def sortTips (tips : List U128) : List U128 := tips.mergeSort fun a b => decide (a ≤ b)

def priorityFeeFromHistory (fh : FeeHistory) : U128 :=
  match fh.reward with
  | none => priorityFeeFloorWei
  | some rewards =>
    let tips := rewards.filterMap head?
    if tips = [] then priorityFeeFloorWei
    else max ((sortTips tips).getD (tips.length / 2) 0) priorityFeeFloorWei

def computeFees (fh : FeeHistory) (maxFeeCapWei priorityCapWei : U128) : Except FeeError FeeBid := do
  let baseFeeNext ← baseFeeForNextBlock fh
  let priorityFee := priorityFeeFromHistory fh
  revertIf (priorityFee > priorityCapWei) .feeCapExceeded
  let target := saturatingAdd (saturatingMul baseFeeNext 2) priorityFee
  revertIf (target > maxFeeCapWei) .feeCapExceeded
  .ok ⟨target, priorityFee⟩

def defaultMaxFeePerGasCapWei (chainId : Fin (2 ^ 64)) : Option (Fin (2 ^ 64)) :=
  if chainId = 1 then some 100000000000
  else if chainId = 8453 then some 1000000000
  else none

def unknownChainFeeCapFallbackWei : Fin (2 ^ 64) := 100000000000

/-- The fields of the configuration the fee policy reads. -/
structure FeeConfig where
  chainId : Fin (2 ^ 64)
  maxFeePerGasCap : Option (Fin (2 ^ 64))
  maxPriorityFeePerGasCap : Option (Fin (2 ^ 64))
  deriving DecidableEq

def FeeConfig.effectiveMaxFeePerGasCap (cfg : FeeConfig) (cliOverride : Option (Fin (2 ^ 64))) : Fin (2 ^ 64) :=
  match cliOverride, cfg.maxFeePerGasCap, defaultMaxFeePerGasCapWei cfg.chainId with
  | some v, _, _ => v
  | none, some v, _ => v
  | none, none, some v => v
  | none, none, none => unknownChainFeeCapFallbackWei

/-- A `u64` as a `u128`. -/
def asU128 (n : Fin (2 ^ 64)) : U128 := Fin.castLE (by decide) n

def defaultCap (chainId : Fin (2 ^ 64)) : U128 :=
  asU128 (FeeConfig.effectiveMaxFeePerGasCap ⟨chainId, none, none⟩ none)

def FeeHistory.medianTip (fh : FeeHistory) : Option U128 :=
  let tips := (fh.reward.getD []).filterMap head?
  (sortTips tips)[tips.length / 2]?

def FeeHistory.flooredTip (fh : FeeHistory) : U128 := max (fh.medianTip.getD 0) priorityFeeFloorWei

private theorem priorityFeeFromHistory_eq (fh : FeeHistory) : priorityFeeFromHistory fh = fh.flooredTip := by
  have hnil : sortTips [] = [] := mergeSort_nil
  unfold priorityFeeFromHistory FeeHistory.flooredTip FeeHistory.medianTip
  cases fh.reward with
  | none => simp [hnil]
  | some rewards =>
    simp only [Option.getD_some]
    split
    · rename_i hempty
      simp [hempty, hnil]
    · rw [getD_eq_getElem?_getD]

private theorem sortTips_perm {tips tips' : List U128} (h : tips.Perm tips') : sortTips tips = sortTips tips' := by
  have hsorted : ∀ l : List U128, (sortTips l).Pairwise (· ≤ ·) := by
    intro l
    have : (l.mergeSort fun a b => decide (a ≤ b)).Pairwise fun a b => decide (a ≤ b) = true := pairwise_mergeSort
      (fun a b c hab hbc => by simp only [decide_eq_true_eq] at *; exact le_trans hab hbc)
      (fun a b => by simpa using le_total a b) l
    simpa [sortTips] using this
  have hperm : (sortTips tips).Perm (sortTips tips') :=
    (mergeSort_perm tips _).trans (h.trans (mergeSort_perm tips' _).symm)
  exact hperm.eq_of_pairwise (fun a b _ _ hab hba => le_antisymm hab hba) (hsorted tips) (hsorted tips')

def FeeHistory.SameRows (fh fh' : FeeHistory) : Prop :=
  fh.baseFeePerGas = fh'.baseFeePerGas ∧
    ((fh.reward = none ∧ fh'.reward = none) ∨
      ∃ rows rows', fh.reward = some rows ∧ fh'.reward = some rows' ∧ rows.Perm rows')

theorem FeeHistory.SameRows.medianTip {fh fh' : FeeHistory} (h : fh.SameRows fh') : fh.medianTip = fh'.medianTip := by
  obtain ⟨-, ⟨hnone, hnone'⟩ | ⟨rows, rows', hrows, hrows', hperm⟩⟩ := h
  · simp only [FeeHistory.medianTip, hnone, hnone']
  have htips := hperm.filterMap head?
  simp only [FeeHistory.medianTip, hrows, hrows', Option.getD_some]
  rw [sortTips_perm htips, htips.length_eq]

private theorem computeFees_sameRows {fh fh' : FeeHistory} (h : fh.SameRows fh') (maxFeeCapWei priorityCapWei : U128) :
    computeFees fh maxFeeCapWei priorityCapWei = computeFees fh' maxFeeCapWei priorityCapWei := by
  have hbase : baseFeeForNextBlock fh = baseFeeForNextBlock fh' := by simp only [baseFeeForNextBlock, h.1]
  have htip : priorityFeeFromHistory fh = priorityFeeFromHistory fh' := by
    simp only [priorityFeeFromHistory_eq, FeeHistory.flooredTip, h.medianTip]
  unfold computeFees
  rw [hbase, htip]

def wantedFee (base tip : U128) : Nat := 2 * base.val + tip.val

private theorem saturated_val (base tip : U128) :
    (saturatingAdd (saturatingMul base 2) tip).val = min (wantedFee base tip) (2 ^ 128 - 1) := by
  have htip := tip.isLt
  have htwo : (2 : U128).val = 2 := by decide
  simp only [saturatingAdd, saturatingMul, wantedFee, htwo]
  omega

private theorem computeFees_eq_ok {fh : FeeHistory} {base : U128} (hbase : fh.baseFeePerGas.getLast? = some base)
    {maxFeeCapWei priorityCapWei : U128} {bid : FeeBid} : computeFees fh maxFeeCapWei priorityCapWei = .ok bid ↔
      fh.flooredTip ≤ priorityCapWei ∧ min (wantedFee base fh.flooredTip) (2 ^ 128 - 1) ≤ maxFeeCapWei.val ∧
        bid = ⟨saturatingAdd (saturatingMul base 2) fh.flooredTip, fh.flooredTip⟩ := by
  have hnext : baseFeeForNextBlock fh = .ok base := by rw [baseFeeForNextBlock, hbase]
  simp only [computeFees, hnext, ok_bind, bind_eq_ok, revertIf_eq_ok, priorityFeeFromHistory_eq, not_lt, gt_iff_lt,
    exists_const, Except.ok.injEq, Fin.le_def, saturated_val, eq_comm (b := bid)]

section Policy

variable (fh : FeeHistory) (maxFeeCapWei priorityCapWei : U128) (chainId : Fin (2 ^ 64))

def BidsWithinPolicy : Prop :=
  ∀ bid, computeFees fh maxFeeCapWei priorityCapWei = .ok bid →
    ∃ base, fh.baseFeePerGas.getLast? = some base ∧
      base.val + bid.maxPriorityFeePerGas.val ≤ bid.maxFeePerGas.val ∧ bid.maxFeePerGas ≤ maxFeeCapWei ∧
      bid.maxPriorityFeePerGas ≤ priorityCapWei ∧ bid.maxPriorityFeePerGas ≤ bid.maxFeePerGas

/-- Twice the next base fee and the median tip fit into the default cap of the chain, and the median into the priority
cap. -/
def Affordable : Prop :=
  ∃ base, fh.baseFeePerGas.getLast? = some base ∧ wantedFee base (fh.medianTip.getD 0) ≤ (defaultCap chainId).val ∧
    fh.medianTip.getD 0 ≤ priorityCapWei

def AcceptsAffordable : Prop :=
  Affordable fh priorityCapWei chainId → ∃ bid, computeFees fh (defaultCap chainId) priorityCapWei = .ok bid

/-- With the largest cap of all, a tip that is let through still fits into 128 bits together with the base fee. -/
def NoSaturation : Prop :=
  maxFeeCapWei = u128Max → fh.flooredTip ≤ priorityCapWei →
    ∀ base, fh.baseFeePerGas.getLast? = some base → base.val + fh.flooredTip.val < 2 ^ 128

/-- Where the floor raises the tip of an affordable history, it leaves it affordable. -/
def FloorFits : Prop :=
  Affordable fh priorityCapWei chainId → fh.medianTip.getD 0 < priorityFeeFloorWei →
    priorityFeeFloorWei ≤ priorityCapWei ∧
      ∀ base, fh.baseFeePerGas.getLast? = some base → wantedFee base priorityFeeFloorWei ≤ (defaultCap chainId).val

end Policy

section

variable {fh : FeeHistory} {maxFeeCapWei priorityCapWei : U128} {chainId : Fin (2 ^ 64)}

private theorem bidsWithinPolicy_iff : BidsWithinPolicy fh maxFeeCapWei priorityCapWei ↔
    NoSaturation fh maxFeeCapWei priorityCapWei := by
  constructor
  · intro h hcap htip base hbase
    have hbid : min (wantedFee base fh.flooredTip) (2 ^ 128 - 1) ≤ maxFeeCapWei.val := by
      rw [hcap]
      exact min_le_right _ _
    obtain ⟨base', hbase', hcover, -⟩ := h _ ((computeFees_eq_ok hbase).2 ⟨htip, hbid, rfl⟩)
    rw [hbase] at hbase'
    cases hbase'
    have hlt := (saturatingAdd (saturatingMul base 2) fh.flooredTip).isLt
    exact lt_of_le_of_lt hcover hlt
  · intro h bid hok
    cases hbase : fh.baseFeePerGas.getLast? with
    | none => simp [computeFees, baseFeeForNextBlock, hbase] at hok
    | some base =>
      obtain ⟨htip, hmax, rfl⟩ := (computeFees_eq_ok hbase).1 hok
      have hval := saturated_val base fh.flooredTip
      have hcover : base.val + fh.flooredTip.val ≤ min (wantedFee base fh.flooredTip) (2 ^ 128 - 1) := by
        -- the saturation bites only under the largest cap, where the two fit by assumption
        by_cases hcap : maxFeeCapWei = u128Max
        · have := h hcap htip base hbase
          unfold wantedFee
          omega
        have hlt : maxFeeCapWei.val < 2 ^ 128 - 1 := by
          have hne : maxFeeCapWei.val ≠ 2 ^ 128 - 1 := fun hval => hcap (Fin.ext hval)
          have := maxFeeCapWei.isLt
          omega
        unfold wantedFee at hmax ⊢
        omega
      refine ⟨base, rfl, ?_, ?_, htip, ?_⟩
      · rw [hval]
        exact hcover
      · rw [Fin.le_def, hval]
        exact hmax
      · rw [Fin.le_def, hval]
        exact (Nat.le_add_left _ _).trans hcover

private theorem defaultCap_lt (chainId : Fin (2 ^ 64)) : (defaultCap chainId).val < 2 ^ 64 :=
  (FeeConfig.effectiveMaxFeePerGasCap ⟨chainId, none, none⟩ none).isLt

theorem acceptsAffordable_iff : AcceptsAffordable fh priorityCapWei chainId ↔ FloorFits fh priorityCapWei chainId := by
  have hcap := defaultCap_lt chainId
  constructor
  · intro h hafford hfloor
    obtain ⟨bid, hok⟩ := h hafford
    obtain ⟨base, hbase, -, -⟩ := hafford
    have htip : fh.flooredTip = priorityFeeFloorWei := max_eq_right hfloor.le
    obtain ⟨hprio, hmax, -⟩ := (computeFees_eq_ok hbase).1 hok
    rw [htip] at hprio hmax
    refine ⟨hprio, fun base' hbase' => ?_⟩
    rw [hbase] at hbase'
    cases hbase'
    omega
  · rintro h ⟨base, hbase, hfee, hprio⟩
    by_cases hfloor : fh.medianTip.getD 0 < priorityFeeFloorWei
    · obtain ⟨hprio', hfee'⟩ := h ⟨base, hbase, hfee, hprio⟩ hfloor
      have htip : fh.flooredTip = priorityFeeFloorWei := max_eq_right hfloor.le
      exact ⟨_, (computeFees_eq_ok hbase).2 ⟨htip ▸ hprio', (min_le_left _ _).trans (htip ▸ hfee' base hbase), rfl⟩⟩
    have htip : fh.flooredTip = fh.medianTip.getD 0 := max_eq_left (not_lt.1 hfloor)
    exact ⟨_, (computeFees_eq_ok hbase).2 ⟨htip ▸ hprio, (min_le_left _ _).trans (htip ▸ hfee), rfl⟩⟩

end

/-- Bids are within policy, do not depend on the order of the rows, and none is refused that the median makes affordable
under the default cap of the chain, exactly when the largest cap does not let a saturated bid through and the floor fits
wherever it raises the tip. -/
theorem fee_policy_iff (fh : FeeHistory) (maxFeeCapWei priorityCapWei : U128) (chainId : Fin (2 ^ 64)) :
    (BidsWithinPolicy fh maxFeeCapWei priorityCapWei ∧
        (∀ fh', fh.SameRows fh' →
          computeFees fh maxFeeCapWei priorityCapWei = computeFees fh' maxFeeCapWei priorityCapWei) ∧
        AcceptsAffordable fh priorityCapWei chainId) ↔
      NoSaturation fh maxFeeCapWei priorityCapWei ∧ FloorFits fh priorityCapWei chainId := by
  rw [bidsWithinPolicy_iff, acceptsAffordable_iff]
  constructor
  · rintro ⟨hsat, -, hfloor⟩
    exact ⟨hsat, hfloor⟩
  · rintro ⟨hsat, hfloor⟩
    exact ⟨hsat, fun fh' h => computeFees_sameRows h maxFeeCapWei priorityCapWei, hfloor⟩

/-- A quiet block on the chain 8453: a base fee of 0.001 gwei and tips of 0.0001 gwei are affordable under the default
cap of 1 gwei, and refused. -/
theorem fee_policy_refuses_quiet_block :
    let fh : FeeHistory := ⟨[1000000, 1000000], some [[100000]]⟩
    fh.baseFeePerGas ≠ [] ∧ Affordable fh u128Max 8453 ∧
      computeFees fh (defaultCap 8453) u128Max = .error .feeCapExceeded ∧ ¬ AcceptsAffordable fh u128Max 8453 := by
  intro fh
  have hmedian : fh.medianTip = some 100000 := by decide +kernel
  have hafford : Affordable fh u128Max 8453 := by
    refine ⟨1000000, rfl, ?_, ?_⟩
    · rw [hmedian]
      decide +kernel
    · rw [hmedian]
      decide +kernel
  have hrefused : computeFees fh (defaultCap 8453) u128Max = .error .feeCapExceeded := by decide +kernel
  refine ⟨by decide, hafford, hrefused, ?_⟩
  intro h
  obtain ⟨bid, hok⟩ := h hafford
  rw [hrefused] at hok
  cases hok

end RobotMoney.Client
