import RobotMoney.Basket.AssetRegistry

/-!
# After an unwind

`emergencyUnwind` sells every active asset except dust, and `removeAsset` takes an asset off the list unless the vault
holds more than dust of it.  Both compute the sale floor of the balance from the same price, so that what the unwind
leaves behind the removal accepts: every leg is either sold, and empty, or kept with a floor of zero (`Cleared`).
-/

namespace RobotMoney.Basket

open Evm

/-- A venue whose sales take the whole amount handed to them and touch no other token. -/
structure ConsumesAll (venue : SwapVenue) : Prop where
  takes : ∀ w c w' out, c.sell = true → venue w c = some (w', out) →
    w'.held c.asset.token + c.amountIn = w.held c.asset.token
  others : ∀ w c w' out, c.sell = true → venue w c = some (w', out) →
    ∀ token, token ≠ c.asset.token → w'.held token = w.held token

namespace BasketVault

open List Except

variable {v v' : BasketVault} {m : Market} {venue : SwapVenue} {minUsdcOut : Address → Nat}

/-- The vault holds nothing of the asset, or dust: a balance with a sale floor of zero. -/
def Cleared (v : BasketVault) (m : Market) (held : Address → Nat) (a : AssetInfo) : Prop :=
  held a.token = 0 ∨ v.slippageFloor m a (held a.token) = .ok 0

theorem emergencyFloor_eq_none {a : AssetInfo} {bal : Nat} (h : v.emergencyFloor m minUsdcOut a bal = .ok none) :
    v.slippageFloor m a bal = .ok 0 := by
  unfold emergencyFloor at h
  cases hprice : v.twapUsdcValue m a bal with
  | ok value =>
    simp only [hprice, bind_eq_ok, mapError_eq_ok, ok.injEq] at h
    obtain ⟨floor, hfloor, h⟩ := h
    split at h
    · rename_i hzero
      simp only [slippageFloor, hprice, ok_bind, hfloor, hzero]
    · cases h
  | error e =>
    simp only [hprice, bind_eq_ok, ok.injEq] at h
    obtain ⟨-, -, h⟩ := h
    cases h

private theorem unwindLeg_clears (hvenue : ConsumesAll venue) {w w' : Wallet} {a : AssetInfo}
    (h : v.unwindLeg m venue minUsdcOut w a = .ok w') :
    (a.active = true → v.Cleared m w'.held a) ∧ ∀ token, token ≠ a.token → w'.held token = w.held token := by
  unfold unwindLeg at h
  split at h
  · rename_i hinactive
    cases h
    exact ⟨fun hact => absurd hact (by simp [hinactive]), fun _ _ => rfl⟩
  split at h
  · rename_i hnone
    cases h
    exact ⟨fun _ => .inl hnone, fun _ _ => rfl⟩
  simp only [bind_eq_ok] at h
  obtain ⟨floor, hfloor, h⟩ := h
  split at h
  · cases h
    exact ⟨fun _ => .inr (emergencyFloor_eq_none hfloor), fun _ _ => rfl⟩
  simp only [bind_eq_ok, mapError_eq_ok, orRevert_eq_ok, Prod.exists, ok.injEq] at h
  obtain ⟨wallet, out, hswap, rfl⟩ := h
  have htakes := hvenue.takes _ _ _ _ rfl hswap
  dsimp only at htakes
  exact ⟨fun _ => .inl (by omega), hvenue.others _ _ _ _ rfl hswap⟩

private theorem unwindAll_clears (hvenue : ConsumesAll venue) {assets : List AssetInfo} {w w' : Wallet}
    (hn : (assets.map (·.token)).Nodup) (h : assets.foldlM (v.unwindLeg m venue minUsdcOut) w = .ok w') :
    (∀ a ∈ assets, a.active = true → v.Cleared m w'.held a) ∧
      ∀ token, (∀ a ∈ assets, token ≠ a.token) → w'.held token = w.held token := by
  induction assets generalizing w with
  | nil =>
    cases h
    exact ⟨fun a ha => absurd ha not_mem_nil, fun _ _ => rfl⟩
  | cons a rest ih =>
    rw [map_cons, nodup_cons] at hn
    simp only [foldlM_cons, bind_eq_ok] at h
    obtain ⟨w₁, hround, hrest⟩ := h
    obtain ⟨hcleared, hothers⟩ := unwindLeg_clears hvenue hround
    obtain ⟨hall, hkept⟩ := ih hn.2 hrest
    have hsame : w'.held a.token = w₁.held a.token :=
      hkept a.token fun b hb heq => hn.1 (mem_map.2 ⟨b, hb, heq.symm⟩)
    refine ⟨?_, ?_⟩
    · intro b hb hact
      rcases mem_cons.1 hb with rfl | hb
      · have hb := hcleared hact
        unfold Cleared at hb ⊢
        rw [hsame]
        exact hb
      · exact hall b hb hact
    · intro token htoken
      rw [hkept token fun b hb => htoken b (mem_cons_of_mem _ hb), hothers token (htoken a mem_cons_self)]

def Removable (v : BasketVault) (m : Market) : Prop :=
  ∀ a ∈ v.assets, a.active = true → v.Cleared m v.wallet.held a

private theorem emergencyUnwind_removable (hvenue : ConsumesAll venue) {isResponder : Bool}
    (h : v.emergencyUnwind isResponder m venue minUsdcOut = .ok v') : v'.Removable m := by
  simp only [emergencyUnwind, bind_eq_ok, ok.injEq] at h
  obtain ⟨-, -, wallet, hloop, rfl⟩ := h
  exact (unwindAll_clears hvenue v.tokens_nodup hloop).1

private theorem Removable.removeAsset (h : v.Removable m) {index : Nat} {a : AssetInfo} (ha : v.assets[index]? = some a)
    (hact : a.active = true) : ∃ v', v.removeAssetAs true m index = .ok v' ∧
      v'.assets = deactivateEntry v.assets index ∧ v'.Removable m := by
  have hmem : a ∈ v.assets := mem_of_getElem? ha
  obtain ⟨v', hv'⟩ : ∃ v', v.removeAsset m index = .ok v' := by
    unfold BasketVault.removeAsset
    simp only [ha, hact, Bool.true_eq_false, if_false]
    rcases h a hmem hact with hnone | hdust
    · rw [if_neg (by omega)]
      exact ⟨_, rfl⟩
    by_cases hpos : v.wallet.held a.token > 0
    · rw [if_pos hpos]
      simp only [hdust, ok_bind, revertIf_of_not _ (Nat.lt_irrefl 0)]
      exact ⟨_, rfl⟩
    rw [if_neg hpos]
    exact ⟨_, rfl⟩
  refine ⟨v', ?_, ?_⟩
  · rw [removeAssetAs, revertIf_of_not _ (by simp), ok_bind, hv']
    rfl
  · obtain ⟨hn, hu, rfl⟩ := removeAsset_eq_ok hv'
    exact ⟨rfl, fun b hb hb' => h b (active_of_deactivateEntry hb hb') hb'⟩

private theorem Removable.removeAll (h : v.Removable m) {indices : List Nat} (hn : indices.Nodup)
    (hactive : ∀ i ∈ indices, ∃ a, v.assets[i]? = some a ∧ a.active = true) :
    ∃ v', indices.foldlM (fun v i => v.removeAssetAs true m i) v = .ok v' := by
  induction indices generalizing v with
  | nil => exact ⟨v, rfl⟩
  | cons i rest ih =>
    obtain ⟨hi, hrest⟩ := nodup_cons.1 hn
    obtain ⟨a, ha, hact⟩ := hactive i mem_cons_self
    obtain ⟨v₁, hv₁, hassets, hremovable⟩ := h.removeAsset ha hact
    obtain ⟨v', hv'⟩ := ih hremovable hrest fun j hj => by
      obtain ⟨b, hb, hb'⟩ := hactive j (mem_cons_of_mem _ hj)
      refine ⟨b, ?_, hb'⟩
      have hij : i ≠ j := fun heq => hi (heq ▸ hj)
      rw [hassets, deactivateEntry, getElem?_modify, hb]
      simp only [if_neg hij, Option.map_eq_map, Option.map_some]
    refine ⟨v', ?_⟩
    rw [foldlM_cons, hv₁]
    exact hv'

end BasketVault

/-- After an unwind that went through, with swaps that took all they were given, the admin can remove the active assets,
all of them and in any order, at the same oracle reads. -/
theorem unwind_clears_removal (v v' : BasketVault) (isResponder : Bool) (m : Market) (venue : SwapVenue)
    (minUsdcOut : Address → Nat) (hvenue : ConsumesAll venue)
    (h : v.emergencyUnwind isResponder m venue minUsdcOut = .ok v') (indices : List Nat) (hn : indices.Nodup)
    (hactive : ∀ i ∈ indices, ∃ a, v'.assets[i]? = some a ∧ a.active = true) :
    ∃ w, indices.foldlM (fun v i => v.removeAssetAs true m i) v' = .ok w :=
  (BasketVault.emergencyUnwind_removable hvenue h).removeAll hn hactive

private theorem exactVenue_consumesAll (self : Address) : ConsumesAll (exactVenue self) :=
  ⟨(exactVenue_honours self).takes, (exactVenue_honours self).others⟩

private theorem dustyAssets_nodup :
    (([⟨61, 62, 500, true, 0, .v3⟩, ⟨63, 64, 500, true, 0, .v3⟩] : List AssetInfo).map (·.token)).Nodup := by decide

theorem dustyAssets_ne_usdc : ∀ a ∈ ([⟨61, 62, 500, true, 0, .v3⟩, ⟨63, 64, 500, true, 0, .v3⟩] : List AssetInfo),
      a.token ≠ freshBasket.usdcToken := by
  decide

/-- A vault with a thousand units of one token and one unit of another, for which no sale could pay anything. -/
def dustyBasket : BasketVault :=
  { freshBasket with
    assets := [⟨61, 62, 500, true, 0, .v3⟩, ⟨63, 64, 500, true, 0, .v3⟩]
    wallet := ⟨freshBasket.wallet.usdc, fun token => if token = 61 then 1000 else 1⟩
    tokens_nodup := dustyAssets_nodup
    tokens_ne_usdc := dustyAssets_ne_usdc }

/-- The unwind sells the first token and leaves the unit of the second, and both can be removed. -/
theorem unwind_clears_removal_dusty :
    ∃ v' w, dustyBasket.emergencyUnwind true parMarket (exactVenue 50) (fun _ => 0) = .ok v' ∧
      v'.wallet.held 61 = 0 ∧ v'.wallet.held 63 = 1 ∧
      ([1, 0] : List Nat).foldlM (fun v i => v.removeAssetAs true parMarket i) v' = .ok w := by
  have hheld : (dustyBasket.emergencyUnwind true parMarket (exactVenue 50) fun _ => 0).map
      (fun v => (v.wallet.held 61, v.wallet.held 63, v.assets)) =
        .ok (0, 1, [⟨61, 62, 500, true, 0, .v3⟩, ⟨63, 64, 500, true, 0, .v3⟩]) := by decide +kernel
  cases hcall : dustyBasket.emergencyUnwind true parMarket (exactVenue 50) fun _ => 0 with
  | error e =>
    rw [hcall] at hheld
    cases hheld
  | ok v' =>
    rw [hcall] at hheld
    simp only [Except.map, Except.ok.injEq, Prod.mk.injEq] at hheld
    obtain ⟨h61, h63, hassets⟩ := hheld
    obtain ⟨w, hw⟩ := unwind_clears_removal dustyBasket v' true parMarket (exactVenue 50) (fun _ => 0)
      (exactVenue_consumesAll 50) hcall [1, 0] (by decide) (by
        rw [hassets]
        intro i hi
        rcases List.mem_cons.1 hi with rfl | hi
        · exact ⟨_, rfl, rfl⟩
        · cases List.mem_singleton.1 hi
          exact ⟨_, rfl, rfl⟩)
    exact ⟨v', w, rfl, h61, h63, hw⟩

end RobotMoney.Basket
