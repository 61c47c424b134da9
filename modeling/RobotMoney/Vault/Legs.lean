import RobotMoney.Vault.Calls

/-!
# What the routing loops are made of

Routing a deposit, pulling for an exit and rebalancing are loops whose only effect on the vault are single legs: an
allocation to a counted adapter, or a withdrawal from one of at most its balance.  So a reflexive and transitive
relation that holds across every leg holds across the loop.  The rules here do the unfolding of the loops once; what a
leg preserves is stated where it is needed.
-/

namespace RobotMoney

open Evm

namespace Vault

open Except

variable {σ : Type} {d : Deployment} {env : Outside σ} {s s' : Vault σ}

variable {i : Nat} {e : AdapterInfo}

theorem entry_eq_ok : s.entry i = .ok e ↔ s.adapters[i]? = some e := by
  simp [Vault.entry]

theorem requireActive_eq_ok : s.requireActive i = .ok e ↔ s.adapters[i]? = some e ∧ e.active = true := by
  unfold requireActive
  cases h : s.adapters[i]? with
  | none => simp
  | some f =>
    by_cases hf : f.active = true
    · simp only [hf, if_true, ok.injEq, Option.some.injEq]
      constructor
      · rintro rfl; exact ⟨rfl, hf⟩
      · exact And.left
    simp only [hf, if_false, Option.some.injEq, reduceCtorEq, false_iff]
    rintro ⟨rfl, h⟩
    exact hf h

theorem isCounted_eq_true :
    s.isCounted d env i = .ok true ↔ ∃ e, s.adapters[i]? = some e ∧ e.active = true ∧ s.openExclusionOf i = 0 ∧
      s.isEligible d env e.adapter = .ok true := by
  constructor
  · intro h
    simp only [isCounted, bind_eq_ok, entry_eq_ok] at h
    obtain ⟨e, he, h⟩ := h
    by_cases hact : e.active = true
    · rw [if_pos hact] at h
      by_cases hopen : s.openExclusionOf i = 0
      · simp only [isUsable, hopen, ne_eq, not_true_eq_false, if_false, bind_eq_ok, entry_eq_ok] at h
        obtain ⟨e', he', h⟩ := h
        rw [he] at he'
        cases he'
        exact ⟨e, he, hact, hopen, h⟩
      · simp [isUsable, hopen] at h
    rw [if_neg hact] at h
    cases h
  · rintro ⟨e, he, hact, hopen, hel⟩
    simp [isCounted, isUsable, Vault.entry, he, hact, hopen, hel]

theorem counted_entry (he : s.adapters[i]? = some e) (h : s.isCounted d env i = .ok true) :
    e.active = true ∧ s.openExclusionOf i = 0 ∧ s.isEligible d env e.adapter = .ok true := by
  obtain ⟨f, hf, hcounted⟩ := isCounted_eq_true.1 h
  rw [he] at hf
  cases hf
  exact hcounted

theorem not_counted_of_open (hopen : s.openExclusionOf i ≠ 0) : s.isCounted d env i ≠ .ok true := by
  intro hc
  obtain ⟨-, -, -, h0, -⟩ := isCounted_eq_true.1 hc
  exact hopen h0

theorem isCounted_of_usable {b : Bool} (he : s.adapters[i]? = some e)
    (hact : e.active = true) (h : s.isUsable d env i = .ok b) : s.isCounted d env i = .ok b := by
  simp [isCounted, Vault.entry, he, hact, h]

private theorem answers_of_requireView {a : Address} {r : StaticReply} {expected : Address}
    {mismatch : Address → Revert} (h : requireView a r expected mismatch = .ok ()) : answers r expected = .ok true := by
  simp only [requireView, bind_eq_ok, revertIf_eq_ok, ne_eq, not_not] at h
  obtain ⟨-, hshape, reported, hreported, rfl⟩ := h
  unfold Vault.answers
  rw [if_neg hshape, hreported]
  simp

theorem isEligible_of_requireEligible {a : Address} (h : s.requireEligible d env a = .ok ()) :
    s.isEligible d env a = .ok true := by
  simp only [requireEligible, bind_eq_ok, revertIf_eq_ok] at h
  obtain ⟨-, hallowed, -, hcode, ⟨⟩, husdc, hvault⟩ := h
  unfold isEligible
  rw [if_neg hallowed, if_neg hcode, answers_of_requireView husdc, answers_of_requireView hvault]
  rfl

section Rules

variable {R : Vault σ → Vault σ → Prop}

section Route

variable (hrefl : ∀ s, R s s) (htrans : ∀ {s t u}, R s t → R t u → R s u)
  (hleg : ∀ {s i x r s'}, s.isCounted d env i = .ok true → s.allocate d env i x = .ok (r, s') → R s s')

include hrefl hleg

variable {r r' : Route σ}

private theorem pass1Leg_rel {i x : Nat} (hc : r.vault.isCounted d env i = .ok true)
    (h : pass1Leg d env r i x = .ok r') : R r.vault r'.vault := by
  simp only [pass1Leg, bind_eq_ok] at h
  obtain ⟨cap, -, e, -, current, -, h⟩ := h
  split at h
  · simp only [bind_eq_ok, ok.injEq] at h
    obtain ⟨-, -, -, -, rfl⟩ := h
    exact hrefl _
  simp only [bind_eq_ok] at h
  obtain ⟨⟨placed, v⟩, hv, remaining, -, h⟩ := h
  have hR : R r.vault v := hleg hc hv
  split at h
  · cases h
    exact hR
  simp only [bind_eq_ok, ok.injEq] at h
  obtain ⟨-, -, -, -, rfl⟩ := h
  exact hR

private theorem routePass1_rel {active i : Nat} (h : routePass1 d env active r i = .ok r') : R r.vault r'.vault := by
  unfold routePass1 at h
  split at h
  · cases h; exact hrefl _
  simp only [bind_eq_ok, entry_eq_ok] at h
  obtain ⟨e, he, h⟩ := h
  split at h
  · cases h; exact hrefl _
  rename_i hact
  simp only [bind_eq_ok] at h
  obtain ⟨share, -, usable, hu, h⟩ := h
  split at h
  · rename_i husable
    have hc : r.vault.isCounted d env i = .ok true :=
      isCounted_of_usable he (by simpa using hact) (husable ▸ hu)
    have hR := pass1Leg_rel hrefl hleg (r := { r with rank := r.rank + 1 }) hc h
    exact hR
  · cases h; exact hrefl _

private theorem routePass2_rel {useCache : Bool} {i : Nat}
    (h : routePass2 d env useCache r i = .ok r') : R r.vault r'.vault := by
  unfold routePass2 at h
  split at h
  · cases h; exact hrefl _
  simp only [bind_eq_ok, entry_eq_ok] at h
  obtain ⟨e, he, h⟩ := h
  split at h
  · cases h; exact hrefl _
  rename_i hskip
  simp only [bind_eq_ok] at h
  obtain ⟨usable, hu, h⟩ := h
  split at h
  · rename_i husable
    have hact : e.active = true := by
      cases hact : e.active
      · exact absurd (.inl hact) hskip
      · rfl
    simp only [bind_eq_ok] at h
    obtain ⟨current, -, cap, -, h⟩ := h
    split at h
    · cases h; exact hrefl _
    simp only [bind_eq_ok, ok.injEq] at h
    obtain ⟨⟨placed, v⟩, hv, -, -, rfl⟩ := h
    exact hleg (isCounted_of_usable he hact (husable ▸ hu)) hv
  · cases h; exact hrefl _

include htrans

theorem routeDeposit_rel {amount total : Nat} (h : s.routeDeposit d env amount total = .ok s') : R s s' := by
  unfold routeDeposit at h
  split at h
  · cases h; exact hrefl _
  simp only [bind_eq_ok] at h
  obtain ⟨r, hr, h⟩ := h
  have h1 : R s r.vault := by
    refine foldlM_invariant (P := fun r : Route σ => R s r.vault) ?_ (hrefl s) hr
    intro r i r' _ hr hstep
    exact htrans hr (routePass1_rel hrefl hleg hstep)
  split at h
  · simp only [bind_eq_ok, ok.injEq] at h
    obtain ⟨r', hr', rfl⟩ := h
    refine foldlM_invariant (P := fun r : Route σ => R s r.vault) ?_ h1 hr'
    intro r i r' _ hr hstep
    exact htrans hr (routePass2_rel hrefl hleg hstep)
  cases h
  exact h1

end Route

section Pull

variable (hrefl : ∀ s, R s s) (htrans : ∀ {s t u}, R s t → R t u → R s u)
  (hleg : ∀ {s i e balance x r s'}, s.isCounted d env i = .ok true → s.adapters[i]? = some e →
    s.reported env e.adapter = .ok balance → x ≤ balance → s.callWithdraw d env e.adapter x = .ok (r, s') → R s s')

include hrefl hleg

variable {p p' : Pull σ} {i : Nat}

private theorem pullLeg_rel {balance x : Nat} {e : AdapterInfo}
    (hc : p.vault.isCounted d env i = .ok true) (he : p.vault.adapters[i]? = some e)
    (hb : p.vault.reported env e.adapter = .ok balance) (hx : x ≤ balance)
    (h : pullLeg d env p e.adapter x = .ok p') : R p.vault p'.vault := by
  unfold Vault.pullLeg at h
  split at h
  · cases h; exact hrefl _
  simp only [bind_eq_ok, ok.injEq] at h
  obtain ⟨⟨actual, v⟩, hv, -, -, rfl⟩ := h
  exact hleg hc he hb hx hv

variable {needed total : Nat}

private theorem pullPass1_rel {last : Option Nat}
    (h : pullPass1 d env needed total last p i = .ok p') : R p.vault p'.vault := by
  unfold pullPass1 at h
  split at h
  · cases h; exact hrefl _
  simp only [bind_eq_ok] at h
  obtain ⟨counted, hc, h⟩ := h
  split at h
  · rename_i hcounted
    simp only [bind_eq_ok, entry_eq_ok] at h
    obtain ⟨e, he, balance, hb, share, -, h⟩ := h
    exact pullLeg_rel hrefl hleg (hcounted ▸ hc) he hb (Nat.min_le_right _ _) h
  · cases h; exact hrefl _

private theorem pullPass2_rel (h : pullPass2 d env p i = .ok p') : R p.vault p'.vault := by
  unfold pullPass2 at h
  split at h
  · cases h; exact hrefl _
  simp only [bind_eq_ok] at h
  obtain ⟨counted, hc, h⟩ := h
  split at h
  · rename_i hcounted
    simp only [bind_eq_ok, entry_eq_ok] at h
    obtain ⟨e, he, balance, hb, h⟩ := h
    exact pullLeg_rel hrefl hleg (hcounted ▸ hc) he hb (Nat.min_le_left _ _) h
  · cases h; exact hrefl _

variable {maxMove : Nat}

private theorem rebalanceEntry_rel {active : Nat} {r r' : Rebalance σ}
    (h : rebalanceEntry d env total maxMove active r i = .ok r') : R r.vault r'.vault := by
  simp only [rebalanceEntry, bind_eq_ok, entry_eq_ok] at h
  obtain ⟨e, he, h⟩ := h
  split at h
  · cases h; exact hrefl _
  rename_i hskip
  have hact : e.active = true := by
    cases hact : e.active
    · exact absurd (.inl hact) hskip
    · rfl
  simp only [bind_eq_ok] at h
  obtain ⟨target, -, usable, hu, h⟩ := h
  split at h
  · rename_i husable
    simp only [bind_eq_ok] at h
    obtain ⟨current, hcur, h⟩ := h
    split at h
    · cases h; exact hrefl _
    simp only [bind_eq_ok] at h
    obtain ⟨-, -, h⟩ := h
    split at h
    · cases h; exact hrefl _
    simp only [bind_eq_ok, ok.injEq] at h
    obtain ⟨⟨actual, v⟩, hv, -, -, rfl⟩ := h
    exact hleg (isCounted_of_usable he hact (husable ▸ hu)) he hcur (by omega) hv
  · cases h; exact hrefl _

include htrans

variable {r : Nat}

private theorem pullFromAdapters_rel (h : s.pullFromAdapters d env needed = .ok (r, s')) : R s s' := by
  simp only [pullFromAdapters, bind_eq_ok, ok.injEq, Prod.mk.injEq] at h
  obtain ⟨⟨total, last⟩, -, -, -, p, hp, q, hq, -, -, -, rfl⟩ := h
  have h1 : R s p.vault := by
    refine foldlM_invariant (P := fun p : Pull σ => R s p.vault) ?_ (hrefl s) hp
    intro p i p' _ hp hstep
    exact htrans hp (pullPass1_rel hrefl hleg hstep)
  refine foldlM_invariant (P := fun p : Pull σ => R s p.vault) ?_ h1 hq
  intro p i p' _ hp hstep
  exact htrans hp (pullPass2_rel hrefl hleg hstep)

theorem pullProportional_rel (h : s.pullProportional d env needed = .ok (r, s')) : R s s' := by
  unfold pullProportional at h
  split at h
  · cases h; exact hrefl _
  split at h
  · cases h; exact hrefl _
  simp only [bind_eq_ok, ok.injEq, Prod.mk.injEq] at h
  obtain ⟨⟨pulled, t⟩, ht, -, -, -, rfl⟩ := h
  exact pullFromAdapters_rel hrefl htrans hleg ht

theorem rebalancePull_rel (h : s.rebalancePull d env total maxMove = .ok s') : R s s' := by
  simp only [rebalancePull, bind_eq_ok, ok.injEq] at h
  obtain ⟨r, hr, rfl⟩ := h
  refine foldlM_invariant (P := fun r : Rebalance σ => R s r.vault) ?_ (hrefl s) hr
  intro r i r' _ hr hstep
  exact htrans hr (rebalanceEntry_rel hrefl hleg hstep)

end Pull

end Rules

end Vault

end RobotMoney
