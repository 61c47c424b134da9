import RobotMoney.Vault.Registry

/-!
# Where a deposit goes

`routeDeposit` places a deposit in two passes: up to the equal weight of each adapter, and then up to its ceiling.  With
adapters that keep what they are sent and report it, what is placed and what stays idle add up to the amount, no
adapter is filled past its ceiling, and something stays idle only when every usable adapter is full.

The invariant of both passes is the function `placed` that says what each entry has received so far: every balance is
what it was plus that.
-/

namespace RobotMoney

open Evm Finset Function Except

/-- Adapters that keep what they are sent, once they hold it, report it, and change nothing else the vault reads:
`known` are the adapters this is about. -/
structure Outside.Exact {σ : Type} (d : Deployment) (env : Outside σ) (known : Address → Prop) : Prop where
  ne_zero : ∀ a, known a → a ≠ 0
  ne_vault : ∀ a, known a → a ≠ d.vault
  reports : ∀ h a, known a → ∃ n, env.totalAssets h a = .returned n
  deploys : ∀ h a x n, known a → env.totalAssets h a = .returned n → ∃ eff, env.deploy h a x = .returned eff ∧
    env.totalAssets eff.hidden a = .returned (n + x) ∧
    (∀ b, known b → b ≠ a → env.totalAssets eff.hidden b = env.totalAssets h b) ∧
    (∀ b, known b → env.codehash eff.hidden b = env.codehash h b ∧ env.usdcView eff.hidden b = env.usdcView h b ∧
      env.vaultView eff.hidden b = env.vaultView h b ∧ env.maxExposure eff.hidden b = env.maxExposure h b) ∧
    ∀ book : ShareBook, x ≤ book.usdc a → (run (outsideStep d) book eff.calls).usdc d.vault = book.usdc d.vault

namespace Vault

variable {σ : Type} {d : Deployment} {env : Outside σ} {s t : Vault σ}

/-- The balance the adapter of entry `i` reports. -/
def balanceAt (env : Outside σ) (s : Vault σ) (i : Nat) : Nat :=
  match s.adapters[i]? with
  | none => 0
  | some e =>
    match env.totalAssets s.hidden e.adapter with
    | .returned n => n
    | _ => 0

/-- The ceiling of entry `i`: its slice of the net asset value, or the adapter's own cap when that is lower. -/
def ceilingAt (env : Outside σ) (s : Vault σ) (totalAfter i : Nat) : Nat :=
  match s.adapters[i]? with
  | none => 0
  | some e =>
    let slice := totalAfter * e.capBps / maxBps
    let r := env.maxExposure s.hidden e.adapter
    if r.ok = true ∧ r.length = 32 ∧ r.word ≠ 0 ∧ r.word < slice then r.word else slice

/-- What entry `i` may still receive: nothing unless it is active and usable. -/
def headroom (d : Deployment) (env : Outside σ) (s : Vault σ) (totalAfter i : Nat) : Nat :=
  match s.isCounted d env i with
  | .ok true => s.ceilingAt env totalAfter i - s.balanceAt env i
  | _ => 0

variable {i : Nat}

private theorem headroom_of_counted {totalAfter : Nat} (h : s.isCounted d env i = .ok true) :
    s.headroom d env totalAfter i = s.ceilingAt env totalAfter i - s.balanceAt env i := by
  rw [headroom, h]

private theorem ceiling_eq_ok {totalAfter c : Nat} (h : s.ceiling env totalAfter i = .ok c) :
    c = s.ceilingAt env totalAfter i := by
  simp only [ceiling, bind_eq_ok, entry_eq_ok, mul_eq_ok] at h
  obtain ⟨e, he, -, ⟨-, rfl⟩, h⟩ := h
  simp only [ceilingAt, he]
  split at h <;> rename_i hcap
  · cases h
    rw [if_pos hcap]
  cases h
  rw [if_neg hcap]

def ActiveAdapter (s : Vault σ) (a : Address) : Prop := ∃ e ∈ s.adapters, e.active = true ∧ e.adapter = a

def ActiveDistinct (s : Vault σ) : Prop :=
  ∀ (i j : Nat) (e f : AdapterInfo), s.adapters[i]? = some e → s.adapters[j]? = some f → e.active = true →
    f.active = true → e.adapter = f.adapter → i = j

theorem Consistent.activeDistinct (h : s.Consistent) : s.ActiveDistinct := by
  intro i j e f he hf hact hact' heq
  by_contra hij
  exact h.live_distinct i j e f hij he hf (.inl hact) (.inl hact') heq

theorem activeAdapter_of_counted {e : AdapterInfo} (he : s.adapters[i]? = some e)
    (hc : s.isCounted d env i = .ok true) : s.ActiveAdapter e.adapter :=
  ⟨e, List.mem_of_getElem? he, (counted_entry he hc).1, rfl⟩

theorem requireView_of_answers {a : Address} {r : StaticReply} {expected : Address} {mismatch : Address → Revert}
    (h : answers r expected = .ok true) : requireView a r expected mismatch = .ok () := by
  unfold answers at h
  split at h
  · cases h
  rename_i hshape
  simp only [bind_eq_ok, ok.injEq, decide_eq_true_eq] at h
  obtain ⟨reported, hreported, rfl⟩ := h
  simp only [requireView, revertIf_of_not _ hshape, ok_bind, hreported]
  exact revertIf_of_not _ (not_not.2 rfl)

theorem requireEligible_of_isEligible {a : Address} (h : s.isEligible d env a = .ok true) :
    s.requireEligible d env a = .ok () := by
  unfold isEligible at h
  split at h
  · cases h
  rename_i hallowed
  split at h
  · cases h
  rename_i hcode
  simp only [bind_eq_ok] at h
  obtain ⟨usdcOk, husdc, h⟩ := h
  split at h
  · rename_i hok
    rw [requireEligible, revertIf_of_not _ hallowed, ok_bind, revertIf_of_not _ hcode, ok_bind,
      requireView_of_answers (hok ▸ husdc), ok_bind, requireView_of_answers h]
  · cases h

/-- The vault `t` after `placed` went from the vault `s` to the entries of its registry. -/
structure Placed (d : Deployment) (env : Outside σ) (s : Vault σ) (placed : Nat → Nat) (t : Vault σ) : Prop where
  adapters : t.adapters = s.adapters
  allowed : t.allowed = s.allowed
  codeHashAllowed : t.codeHashAllowed = s.codeHashAllowed
  openExclusionOf : t.openExclusionOf = s.openExclusionOf
  views : ∀ a, s.ActiveAdapter a → env.codehash t.hidden a = env.codehash s.hidden a ∧
    env.usdcView t.hidden a = env.usdcView s.hidden a ∧ env.vaultView t.hidden a = env.vaultView s.hidden a ∧
    env.maxExposure t.hidden a = env.maxExposure s.hidden a
  uncounted : ∀ i, s.isCounted d env i ≠ .ok true → placed i = 0
  reports : ∀ i e, s.adapters[i]? = some e → e.active = true → ∀ n, env.totalAssets s.hidden e.adapter = .returned n →
    env.totalAssets t.hidden e.adapter = .returned (n + placed i)
  idle : t.idle d + ∑ i ∈ range s.adapters.length, placed i = s.idle d

namespace Placed

open List Function Finset

theorem refl (d : Deployment) (env : Outside σ) (s : Vault σ) : Placed d env s (fun _ => 0) s where
  adapters := rfl
  allowed := rfl
  codeHashAllowed := rfl
  openExclusionOf := rfl
  views := fun _ _ => ⟨rfl, rfl, rfl, rfl⟩
  uncounted := fun _ _ => rfl
  reports := fun _ _ _ _ _ hn => hn
  idle := by simp

variable {placed : Nat → Nat}

theorem entry_eq (h : Placed d env s placed t) (i : Nat) : t.entry i = s.entry i := by
  rw [entry, entry, h.adapters]

private theorem isEligible_eq (h : Placed d env s placed t) {a : Address} (ha : s.ActiveAdapter a) :
    t.isEligible d env a = s.isEligible d env a := by
  obtain ⟨hcode, husdc, hvault, -⟩ := h.views a ha
  simp only [isEligible, h.allowed, h.codeHashAllowed, hcode, husdc, hvault]

variable {i : Nat} {e : AdapterInfo}

theorem isUsable_eq (h : Placed d env s placed t) (he : s.adapters[i]? = some e)
    (hact : e.active = true) : t.isUsable d env i = s.isUsable d env i := by
  have hentry : s.entry i = .ok e := entry_eq_ok.2 he
  simp only [isUsable, h.openExclusionOf, h.entry_eq, hentry, ok_bind,
    h.isEligible_eq ⟨e, mem_of_getElem? he, hact, rfl⟩]

private theorem ceiling_eq (h : Placed d env s placed t) (he : s.adapters[i]? = some e)
    (hact : e.active = true) (totalAfter : Nat) : t.ceiling env totalAfter i = s.ceiling env totalAfter i := by
  obtain ⟨-, -, -, hcap⟩ := h.views e.adapter ⟨e, mem_of_getElem? he, hact, rfl⟩
  have hentry : s.entry i = .ok e := entry_eq_ok.2 he
  simp only [ceiling, h.entry_eq, hentry, ok_bind, hcap]

private theorem reported_eq (h : Placed d env s placed t) (hexact : env.Exact d s.ActiveAdapter)
    (he : s.adapters[i]? = some e) (hact : e.active = true) :
    t.reported env e.adapter = .ok (s.balanceAt env i + placed i) := by
  obtain ⟨n, hn⟩ := hexact.reports s.hidden e.adapter ⟨e, mem_of_getElem? he, hact, rfl⟩
  have hbalance : s.balanceAt env i = n := by simp only [balanceAt, he, hn]
  rw [hbalance, reported, Reply.value_eq_ok]
  exact h.reports i e he hact n hn

variable {x : Nat}

/-- The vault after `x` more went to entry `i`. -/
theorem place (h : Placed d env s placed t) (hdistinct : s.ActiveDistinct)
    (he : s.adapters[i]? = some e) (hc : s.isCounted d env i = .ok true) (hexact : env.Exact d s.ActiveAdapter)
    (hidle : x ≤ t.idle d) {eff : Effect σ} (heff : env.deploy t.hidden e.adapter x = .returned eff) :
    Placed d env s (update placed i (placed i + x))
      (({ t with book := { t.book with usdc := moveBalance t.book.usdc d.vault e.adapter x } }.contact
        e.adapter).applyEffect d eff) ∧
      ((({ t with book := { t.book with usdc := moveBalance t.book.usdc d.vault e.adapter x } }.contact
        e.adapter).applyEffect d eff).idle d) + x = t.idle d := by
  have hactive := activeAdapter_of_counted he hc
  have hact := (counted_entry he hc).1
  obtain ⟨n, hn⟩ := hexact.reports t.hidden e.adapter hactive
  obtain ⟨eff', heff', hreport, hothers, hviews, hcalls⟩ := hexact.deploys t.hidden e.adapter x n hactive hn
  obtain rfl : eff = eff' := by
    rw [heff] at heff'
    exact Reply.returned.inj heff'
  have hne := (hexact.ne_vault e.adapter hactive).symm
  have harrived : x ≤ { t.book with usdc := moveBalance t.book.usdc d.vault e.adapter x }.usdc e.adapter := by
    dsimp only
    rw [moveBalance_target hne]
    exact Nat.le_add_left x _
  have hpaid : (({ t with book := { t.book with usdc := moveBalance t.book.usdc d.vault e.adapter x } }.contact
      e.adapter).applyEffect d eff).idle d = t.idle d - x :=
    (hcalls _ harrived).trans (moveBalance_source hne)
  have hi : i < s.adapters.length := (List.getElem?_eq_some_iff.1 he).1
  refine ⟨⟨h.adapters, h.allowed, h.codeHashAllowed, h.openExclusionOf, ?_, ?_, ?_, ?_⟩, by omega⟩
  · intro a ha
    obtain ⟨h₁, h₂, h₃, h₄⟩ := hviews a ha
    obtain ⟨g₁, g₂, g₃, g₄⟩ := h.views a ha
    exact ⟨h₁.trans g₁, h₂.trans g₂, h₃.trans g₃, h₄.trans g₄⟩
  · intro j hj
    have hji : j ≠ i := by
      rintro rfl
      exact hj hc
    rw [update_of_ne hji]
    exact h.uncounted j hj
  · intro j f hf hact' m hm
    by_cases hji : j = i
    · subst hji
      rw [he] at hf
      cases hf
      have hnow := h.reports j e he hact m hm
      rw [hn] at hnow
      cases hnow
      rw [update_self, ← add_assoc]
      exact hreport
    have hne : f.adapter ≠ e.adapter := fun heq => hji (hdistinct j i f e hf he hact' hact heq)
    rw [update_of_ne hji]
    exact (hothers f.adapter ⟨f, mem_of_getElem? hf, hact', rfl⟩ hne).trans (h.reports j f hf hact' m hm)
  · have hmoved := sum_add_of_eq_off (s := range s.adapters.length) (f := placed)
      (g := update placed i (placed i + x)) (Finset.mem_range.2 hi) fun j _ hj => update_of_ne hj ..
    rw [update_self] at hmoved
    have htotal := h.idle
    omega

theorem of_allocate (h : Placed d env s placed t) (hdistinct : s.ActiveDistinct) (hexact : env.Exact d s.ActiveAdapter)
    {p : Nat} (he : s.adapters[i]? = some e) (hc : s.isCounted d env i = .ok true) {t' : Vault σ}
    (hok : t.allocate d env i x = .ok (p, t')) : p = x ∧ Placed d env s (update placed i (placed i + x)) t' := by
  simp only [allocate, h.entry_eq, entry_eq_ok.2 he, ok_bind, callDeploy, bind_eq_ok, moveUsdc_eq_ok, Reply.value_eq_ok,
    add_eq_ok, sub_eq_ok, ok.injEq, Prod.mk.injEq] at hok
  obtain ⟨-, -, -, ⟨-, hidle, rfl⟩, -, ⟨eff, heff, rfl⟩, -, ⟨-, rfl⟩, -, ⟨-, rfl⟩, rfl, rfl⟩ := hok
  obtain ⟨hplaced, hpaid⟩ := h.place hdistinct he hc hexact hidle heff
  refine ⟨?_, hplaced⟩
  rw [hpaid]
  omega

private theorem allocate_returns (h : Placed d env s placed t) (hdistinct : s.ActiveDistinct)
    (hexact : env.Exact d s.ActiveAdapter) (he : s.adapters[i]? = some e)
    (hc : s.isCounted d env i = .ok true) (hidle : x ≤ t.idle d) (hword : t.idle d < wordSize) :
    ∃ p t', t.allocate d env i x = .ok (p, t') := by
  have hactive := activeAdapter_of_counted he hc
  obtain ⟨n, hn⟩ := hexact.reports t.hidden e.adapter hactive
  obtain ⟨eff, heff, -⟩ := hexact.deploys t.hidden e.adapter x n hactive hn
  obtain ⟨-, hpaid⟩ := h.place hdistinct he hc hexact hidle heff
  have heligible : t.requireEligible d env e.adapter = .ok () := by
    refine requireEligible_of_isEligible ?_
    rw [h.isEligible_eq hactive]
    exact (counted_entry he hc).2.2
  simp only [allocate, h.entry_eq, entry_eq_ok.2 he, ok_bind, heligible, callDeploy, bind_eq_ok, moveUsdc_eq_ok,
    Reply.value_eq_ok, add_eq_ok, sub_eq_ok, ok.injEq, Prod.mk.injEq]
  refine ⟨_, _, _, ⟨hexact.ne_zero _ hactive, hidle, rfl⟩, _, ⟨eff, heff, rfl⟩, _, ⟨?_, rfl⟩, _, ⟨?_, rfl⟩, rfl, rfl⟩
  · rw [hpaid]
    exact hword
  · rw [hpaid]

end Placed

/-- The state of routing `amount` from the vault `s`: what has been placed and what remains make up the amount, and no
entry has received more than its headroom. -/
structure Routing (d : Deployment) (env : Outside σ) (s : Vault σ) (amount totalAfter : Nat) (placed : Nat → Nat)
    (r : Route σ) : Prop where
  vault : Placed d env s placed r.vault
  total : r.totalAfter = totalAfter
  refused : r.refused = 0
  remaining : r.remaining + ∑ i ∈ range s.adapters.length, placed i = amount
  within : ∀ i, placed i ≤ s.headroom d env totalAfter i

section Passes

variable {amount totalAfter : Nat} {placed : Nat → Nat} {r r' : Route σ} (hexact : env.Exact d s.ActiveAdapter)
  (hdistinct : s.ActiveDistinct)

include hexact hdistinct

variable {e : AdapterInfo}

private theorem Routing.allocate (h : Routing d env s amount totalAfter placed r) {i x p : Nat}
    (he : s.adapters[i]? = some e) (hc : s.isCounted d env i = .ok true) (hx : x ≤ r.remaining)
    (hroom : placed i + x ≤ s.headroom d env totalAfter i) {t : Vault σ}
    (hok : r.vault.allocate d env i x = .ok (p, t)) (hvault : r'.vault = t) (htotal : r'.totalAfter = totalAfter)
    (hrefused : r'.refused = 0) (hremaining : r'.remaining + p = r.remaining) :
    Routing d env s amount totalAfter (update placed i (placed i + x)) r' := by
  obtain ⟨rfl, hplaced⟩ := h.vault.of_allocate hdistinct hexact he hc hok
  have hi : i < s.adapters.length := (List.getElem?_eq_some_iff.1 he).1
  have hmoved := sum_add_of_eq_off (s := range s.adapters.length) (f := placed)
    (g := update placed i (placed i + p)) (mem_range.2 hi) fun j _ hj => update_of_ne hj ..
  rw [update_self] at hmoved
  have hsum := h.remaining
  refine ⟨hvault ▸ hplaced, htotal, hrefused, by omega, fun j => ?_⟩
  by_cases hji : j = i
  · subst hji
    rw [update_self]
    exact hroom
  rw [update_of_ne hji]
  exact h.within j

/-- Pass 1, before entry `k`: the entries to come have received nothing, the headroom left over so far is known, and so
are the balances that were read and left alone. -/
structure Pass1 (d : Deployment) (env : Outside σ) (s : Vault σ) (amount totalAfter k : Nat) (placed : Nat → Nat)
    (r : Route σ) : Prop extends Routing d env s amount totalAfter placed r where
  later : ∀ i, k ≤ i → placed i = 0
  room : r.remaining ≠ 0 → r.capHeadroom = ∑ i ∈ range k, (s.headroom d env totalAfter i - placed i)
  cached : ∀ i, r.cachedBalance i ≠ 0 → placed i = 0 ∧ r.cachedBalance i = s.balanceAt env i + 1

private theorem pass1Leg_pass1 {k share : Nat} (h : Pass1 d env s amount totalAfter k placed r)
    (hpos : r.remaining ≠ 0) (he : s.adapters[k]? = some e) (hc : s.isCounted d env k = .ok true)
    (hok : pass1Leg d env r k share = .ok r') : ∃ placed', Pass1 d env s amount totalAfter (k + 1) placed' r' := by
  have hact := (counted_entry he hc).1
  have hzero : placed k = 0 := h.later k (le_refl k)
  have hhead : s.headroom d env totalAfter k = _ := headroom_of_counted hc
  simp only [pass1Leg, h.vault.ceiling_eq he hact, h.vault.entry_eq, entry_eq_ok.2 he, ok_bind,
    h.vault.reported_eq hexact he hact, h.total, hzero, add_zero, bind_eq_ok] at hok
  obtain ⟨cap, hcap, hok⟩ := hok
  obtain rfl := ceiling_eq_ok hcap
  split at hok
  · -- nothing to place: the read is kept, and so is the headroom
    simp only [bind_eq_ok, add_eq_ok, ok.injEq] at hok
    obtain ⟨-, ⟨-, rfl⟩, -, ⟨-, rfl⟩, rfl⟩ := hok
    refine ⟨placed, ⟨⟨h.vault, rfl, h.refused, h.remaining, h.within⟩, fun i hi => h.later i (by omega), ?_, ?_⟩⟩
    · intro hne
      rw [sum_range_succ, ← h.room hne, hhead, hzero, Nat.sub_zero]
    · intro i hi
      by_cases hik : i = k
      · subst hik
        exact ⟨hzero, update_self ..⟩
      simp only [update_of_ne hik] at hi ⊢
      exact h.cached i hi
  rename_i hbelow
  simp only [bind_eq_ok, Prod.exists] at hok
  obtain ⟨p, t, halloc, remaining, hsub, hok⟩ := hok
  rw [sub_eq_ok] at hsub
  obtain ⟨hple, rfl⟩ := hsub
  have hx : min (min share (s.ceilingAt env totalAfter k) - s.balanceAt env k) r.remaining ≤ r.remaining :=
    min_le_right _ _
  have hroom : placed k + min (min share (s.ceilingAt env totalAfter k) - s.balanceAt env k) r.remaining ≤
      s.headroom d env totalAfter k := by
    rw [hhead, hzero]
    omega
  obtain ⟨rfl, -⟩ := h.vault.of_allocate hdistinct hexact he hc halloc
  simp only [lt_irrefl, if_false, bind_eq_ok, add_eq_ok, ok.injEq] at hok
  obtain ⟨-, ⟨-, rfl⟩, -, ⟨-, rfl⟩, rfl⟩ := hok
  refine ⟨_, ⟨h.toRouting.allocate hexact hdistinct he hc hx hroom halloc rfl rfl h.refused
    (Nat.sub_add_cancel hple), fun i hi => ?_, ?_, ?_⟩⟩
  · rw [update_of_ne (by omega)]
    exact h.later i (by omega)
  · intro _
    have hbefore : ∀ x, ∑ i ∈ range k, (s.headroom d env totalAfter i - update placed k x i) =
        ∑ i ∈ range k, (s.headroom d env totalAfter i - placed i) := fun x =>
      sum_congr rfl fun i hi => by rw [update_of_ne (mem_range.1 hi).ne]
    rw [sum_range_succ, hbefore, update_self, h.room hpos, hhead, hzero]
    dsimp only
    omega
  · intro i hi
    by_cases hik : i = k
    · subst hik
      simp at hi
    simp only [update_of_ne hik] at hi ⊢
    exact h.cached i hi

theorem routePass1_pass1 {k active : Nat} (hk : k < s.adapters.length) (h : Pass1 d env s amount totalAfter k placed r)
    (hok : routePass1 d env active r k = .ok r') : ∃ placed', Pass1 d env s amount totalAfter (k + 1) placed' r' := by
  obtain ⟨e, he⟩ : ∃ e, s.adapters[k]? = some e := ⟨_, List.getElem?_eq_getElem hk⟩
  -- an entry that is passed over has no headroom
  have hskip : s.isCounted d env k ≠ .ok true → ∀ rank, Pass1 d env s amount totalAfter (k + 1) placed
      { r with rank := rank } := by
    intro hnot rank
    have hnone : s.headroom d env totalAfter k = 0 := by
      unfold headroom
      split
      · contradiction
      · rfl
    refine ⟨⟨h.vault, h.total, h.refused, h.remaining, h.within⟩, fun i hi => h.later i (by omega), ?_, h.cached⟩
    intro hne
    rw [sum_range_succ, ← h.room hne, hnone, Nat.zero_sub, add_zero]
  unfold routePass1 at hok
  split at hok
  · rename_i hdone
    cases hok
    exact ⟨placed, ⟨h.toRouting, fun i hi => h.later i (by omega), fun hne => absurd hdone hne, h.cached⟩⟩
  rename_i hpos
  simp only [h.vault.entry_eq, entry_eq_ok.2 he, ok_bind] at hok
  split at hok
  · rename_i hact
    cases hok
    exact ⟨placed, hskip (fun hc => by rw [(counted_entry he hc).1] at hact; cases hact) r.rank⟩
  rename_i hact
  have hact : e.active = true := by simpa using hact
  simp only [bind_eq_ok] at hok
  obtain ⟨share, -, usable, husable, hok⟩ := hok
  rw [h.vault.isUsable_eq he hact] at husable
  have hcounted := isCounted_of_usable he hact husable
  split at hok
  · rename_i htrue
    have h' : Pass1 d env s amount totalAfter k placed { r with rank := r.rank + 1 } :=
      ⟨⟨h.vault, h.total, h.refused, h.remaining, h.within⟩, h.later, h.room, h.cached⟩
    exact pass1Leg_pass1 hexact hdistinct h' hpos he (htrue ▸ hcounted) hok
  rename_i hfalse
  cases hok
  refine ⟨placed, hskip ?_ (r.rank + 1)⟩
  intro hc
  rw [hcounted] at hc
  exact hfalse (ok.inj hc)

/-- Pass 2, before entry `k`: while something remains the entries before it are full, and with the reads of pass 1 in
use the entries to come have received nothing. -/
structure Pass2 (d : Deployment) (env : Outside σ) (s : Vault σ) (amount totalAfter : Nat) (useCache : Bool) (k : Nat)
    (placed : Nat → Nat) (r : Route σ) : Prop extends Routing d env s amount totalAfter placed r where
  full : r.remaining ≠ 0 → ∀ i < k, s.headroom d env totalAfter i ≤ placed i
  cached : useCache = true → ∀ i, k ≤ i → placed i = 0 ∧
    (r.cachedBalance i ≠ 0 → r.cachedBalance i = s.balanceAt env i + 1)

omit hdistinct in
private theorem Pass2.balance {useCache : Bool} {k : Nat}
    (h : Pass2 d env s amount totalAfter useCache k placed r) (he : s.adapters[k]? = some e) (hact : e.active = true)
    {current : Nat} (hok : pass2Balance env r e.adapter (if useCache then r.cachedBalance k else 0) = .ok current) :
    current = s.balanceAt env k + placed k := by
  have hfresh : r.vault.reported env e.adapter = .ok current → current = s.balanceAt env k + placed k := by
    intro hread
    rw [h.vault.reported_eq hexact he hact] at hread
    exact (ok.inj hread).symm
  cases useCache with
  | false => exact hfresh hok
  | true =>
    obtain ⟨hzero, hread⟩ := h.cached rfl k (le_refl k)
    simp only [if_true, pass2Balance] at hok
    split at hok
    · exact hfresh hok
    rename_i hcached
    have hval := hread hcached
    cases hok
    omega

private theorem routePass2_pass2 {useCache : Bool} {k : Nat} (hk : k < s.adapters.length)
    (h : Pass2 d env s amount totalAfter useCache k placed r) (hok : routePass2 d env useCache r k = .ok r') :
    ∃ placed', Pass2 d env s amount totalAfter useCache (k + 1) placed' r' := by
  obtain ⟨e, he⟩ : ∃ e, s.adapters[k]? = some e := ⟨_, List.getElem?_eq_getElem hk⟩
  -- an entry that is passed over was full
  have hskip : (r.remaining ≠ 0 → s.headroom d env totalAfter k ≤ placed k) →
      Pass2 d env s amount totalAfter useCache (k + 1) placed r := by
    intro hfull
    refine ⟨h.toRouting, fun hne i hi => ?_, fun huse i hi => h.cached huse i (by omega)⟩
    by_cases hik : i = k
    · subst hik
      exact hfull hne
    · exact h.full hne i (by omega)
  have hnot : s.isCounted d env k ≠ .ok true → s.headroom d env totalAfter k ≤ placed k := by
    intro hnot
    unfold headroom
    split
    · contradiction
    · exact Nat.zero_le _
  unfold routePass2 at hok
  split at hok
  · rename_i hdone
    cases hok
    exact ⟨placed, hskip fun hne => absurd hdone hne⟩
  simp only [h.vault.entry_eq, entry_eq_ok.2 he, ok_bind, h.refused, Nat.zero_testBit, Bool.false_eq_true,
    or_false] at hok
  split at hok
  · rename_i hact
    cases hok
    exact ⟨placed, hskip fun _ => hnot fun hc => by rw [(counted_entry he hc).1] at hact; cases hact⟩
  rename_i hact
  have hact : e.active = true := by simpa using hact
  simp only [bind_eq_ok] at hok
  obtain ⟨usable, husable, hok⟩ := hok
  rw [h.vault.isUsable_eq he hact] at husable
  have hcounted := isCounted_of_usable he hact husable
  split at hok
  · rename_i htrue
    have hc : s.isCounted d env k = .ok true := htrue ▸ hcounted
    have hhead : s.headroom d env totalAfter k = _ := headroom_of_counted hc
    simp only [bind_eq_ok, h.vault.ceiling_eq he hact, h.total] at hok
    obtain ⟨current, hcurrent, cap, hcap, hok⟩ := hok
    obtain rfl := h.balance hexact he hact hcurrent
    obtain rfl := ceiling_eq_ok hcap
    split at hok
    · rename_i hfull
      cases hok
      exact ⟨placed, hskip fun _ => by omega⟩
    simp only [bind_eq_ok, Prod.exists, sub_eq_ok, ok.injEq] at hok
    obtain ⟨p, t, halloc, -, ⟨hple, rfl⟩, rfl⟩ := hok
    obtain ⟨rfl, -⟩ := h.vault.of_allocate hdistinct hexact he hc halloc
    refine ⟨_, ⟨h.toRouting.allocate hexact hdistinct he hc (min_le_right _ _) ?_ halloc rfl rfl rfl
      (Nat.sub_add_cancel hple), fun hne i hi => ?_, fun huse i hi => ?_⟩⟩
    · omega
    · dsimp only at hne
      by_cases hik : i = k
      · subst hik
        rw [update_self]
        omega
      rw [update_of_ne hik]
      exact h.full (by omega) i (by omega)
    · rw [update_of_ne (by omega)]
      exact h.cached huse i (by omega)
  rename_i hfalse
  cases hok
  refine ⟨placed, hskip fun _ => hnot fun hc => ?_⟩
  rw [hcounted] at hc
  exact hfalse (ok.inj hc)

omit hexact hdistinct in
theorem pass1_start : Pass1 d env s amount totalAfter 0 (fun _ => 0) ⟨s, totalAfter, amount, 0, 0, 0, fun _ => 0⟩ :=
  ⟨⟨.refl d env s, rfl, rfl, by simp, fun _ => Nat.zero_le _⟩, fun _ _ => rfl, fun _ => by simp,
    fun _ hne => absurd rfl hne⟩

omit hexact hdistinct in
private theorem pass2_start (h : Pass1 d env s amount totalAfter s.adapters.length placed r) :
    Pass2 d env s amount totalAfter (r.remaining == amount && r.refused == 0) 0 placed r := by
  refine ⟨h.toRouting, fun _ i hi => absurd hi (Nat.not_lt_zero i), fun huse i _ => ⟨?_, fun hne => (h.cached i hne).2⟩⟩
  have hnone : ∑ i ∈ range s.adapters.length, placed i = 0 := by
    have hsum := h.remaining
    simp only [Bool.and_eq_true, beq_iff_eq] at huse
    omega
  by_cases hi : i < s.adapters.length
  · exact sum_eq_zero_iff.1 hnone i (mem_range.2 hi)
  · exact h.later i (by omega)

theorem routeDeposit_routed {s' : Vault σ} (hok : s.routeDeposit d env amount totalAfter = .ok s') :
    ∃ placed r, Routing d env s amount totalAfter placed r ∧ r.vault = s' ∧
      (r.remaining ≠ 0 → ∀ i < s.adapters.length, s.headroom d env totalAfter i ≤ placed i) := by
  have hstart : Pass1 d env s amount totalAfter 0 (fun _ => 0) ⟨s, totalAfter, amount, 0, 0, 0, fun _ => 0⟩ :=
    pass1_start
  unfold routeDeposit at hok
  split at hok
  · rename_i hzero
    cases hok
    exact ⟨_, _, hstart.toRouting, rfl, fun hne => absurd hzero hne⟩
  simp only [bind_eq_ok] at hok
  obtain ⟨r, hpass1, hok⟩ := hok
  obtain ⟨placed, h1⟩ : ∃ placed, Pass1 d env s amount totalAfter s.adapters.length placed r :=
    foldlM_range_invariant (P := fun k r => ∃ placed, Pass1 d env s amount totalAfter k placed r)
      (fun k r r' hk hr hround => by
        obtain ⟨placed, hr⟩ := hr
        exact routePass1_pass1 hexact hdistinct hk hr hround)
      ⟨_, hstart⟩ hpass1
  split at hok
  · simp only [bind_eq_ok, ok.injEq] at hok
    obtain ⟨r', hpass2, rfl⟩ := hok
    obtain ⟨placed', h2'⟩ : ∃ placed', Pass2 d env s amount totalAfter (r.remaining == amount && r.refused == 0)
        s.adapters.length placed' r' :=
      foldlM_range_invariant
        (P := fun k r' => ∃ placed,
          Pass2 d env s amount totalAfter (r.remaining == amount && r.refused == 0) k placed r')
        (fun k r₁ r₂ hk hr hround => by
          obtain ⟨placed, hr⟩ := hr
          exact routePass2_pass2 hexact hdistinct hk hr hround)
        ⟨_, pass2_start h1⟩ hpass2
    exact ⟨placed', r', h2'.toRouting, rfl, h2'.full⟩
  rename_i hstop
  cases hok
  refine ⟨placed, r, h1.toRouting, rfl, fun hne i hi => ?_⟩
  have hroom : ∑ i ∈ range s.adapters.length, (s.headroom d env totalAfter i - placed i) = 0 := by
    rw [← h1.room hne]
    omega
  have := sum_eq_zero_iff.1 hroom i (mem_range.2 hi)
  omega

end Passes

/-- The net asset value is known and its products with basis points fit into a machine word, the caps and the number of
active entries are those the registry allows, and the vault holds the amount. -/
structure RoutingFits (d : Deployment) (env : Outside σ) (s : Vault σ) (amount totalAfter : Nat) : Prop where
  nav : s.totalAssets d env = .ok totalAfter
  word : totalAfter * maxBps < wordSize
  caps : ∀ e ∈ s.adapters, e.capBps ≤ maxBps
  count : s.activeCount ≤ maxAdapters
  funds : amount ≤ s.idle d

private theorem totalAssets_parts {totalAfter : Nat} (hexact : env.Exact d s.ActiveAdapter)
    (h : s.totalAssets d env = .ok totalAfter) :
    s.idle d ≤ totalAfter ∧ ∀ i < s.adapters.length, ∃ b, s.isCounted d env i = .ok b ∧
      (b = true → s.balanceAt env i ≤ totalAfter) := by
  refine foldlM_range_invariant
    (P := fun k sum => s.idle d ≤ sum ∧ ∀ i < k, ∃ b, s.isCounted d env i = .ok b ∧
      (b = true → s.balanceAt env i ≤ sum))
    ?_ ⟨le_rfl, fun i hi => absurd hi (Nat.not_lt_zero i)⟩ h
  rintro k sum sum' hk ⟨hidle, hparts⟩ hround
  simp only [addCounted, bind_eq_ok] at hround
  obtain ⟨counted, hcounted, hround⟩ := hround
  have hgrow : sum ≤ sum' ∧ (counted = true → s.balanceAt env k ≤ sum') := by
    split at hround
    · rename_i htrue
      simp only [bind_eq_ok, entry_eq_ok, add_eq_ok] at hround
      obtain ⟨e, he, balance, hbalance, -, rfl⟩ := hround
      rw [(Placed.refl d env s).reported_eq hexact he (counted_entry he (htrue ▸ hcounted)).1] at hbalance
      cases hbalance
      exact ⟨Nat.le_add_right _ _, fun _ => Nat.le_add_left _ _⟩
    rename_i hfalse
    cases hround
    exact ⟨le_rfl, fun htrue => absurd htrue hfalse⟩
  refine ⟨hidle.trans hgrow.1, fun i hi => ?_⟩
  by_cases hik : i = k
  · subst hik
    exact ⟨counted, hcounted, hgrow.2⟩
  obtain ⟨b, hb, hle⟩ := hparts i (by omega)
  exact ⟨b, hb, fun htrue => (hle htrue).trans hgrow.1⟩

private theorem ceilingAt_le (hcaps : ∀ e ∈ s.adapters, e.capBps ≤ maxBps) (totalAfter i : Nat) :
    s.ceilingAt env totalAfter i ≤ totalAfter := by
  unfold ceilingAt
  cases he : s.adapters[i]? with
  | none => exact Nat.zero_le _
  | some e =>
    have hslice : totalAfter * e.capBps / maxBps ≤ totalAfter :=
      Nat.div_le_of_le_mul (by
        rw [mul_comm maxBps]
        exact Nat.mul_le_mul_left _ (hcaps e (List.mem_of_getElem? he)))
    dsimp only
    split
    · omega
    · exact hslice

/-- The number of active entries below `k`. -/
def activeBelow (s : Vault σ) (k : Nat) : Nat := (s.adapters.take k).countP (·.active)

variable {k : Nat}

theorem activeBelow_succ {e : AdapterInfo} (he : s.adapters[k]? = some e) :
    s.activeBelow (k + 1) = s.activeBelow k + (if e.active then 1 else 0) := by
  rw [activeBelow, activeBelow, List.take_add_one, he, List.countP_append]
  simp [List.countP_cons]

private theorem activeBelow_le (s : Vault σ) (k : Nat) : s.activeBelow k ≤ s.activeCount :=
  (List.take_sublist k s.adapters).countP_le

theorem sum_headroom_le {totalAfter : Nat} (hcaps : ∀ e ∈ s.adapters, e.capBps ≤ maxBps) (hk : k ≤ s.adapters.length) :
    ∑ i ∈ range k, s.headroom d env totalAfter i ≤ s.activeBelow k * totalAfter := by
  induction k with
  | zero => simp
  | succ k ih =>
    obtain ⟨e, he⟩ : ∃ e, s.adapters[k]? = some e := ⟨_, List.getElem?_eq_getElem hk⟩
    have hone : s.headroom d env totalAfter k ≤ (if e.active then 1 else 0) * totalAfter := by
      unfold headroom
      split
      · rename_i hc
        rw [(counted_entry he hc).1, if_pos rfl, one_mul]
        exact (Nat.sub_le _ _).trans (ceilingAt_le hcaps totalAfter k)
      · exact Nat.zero_le _
    rw [sum_range_succ, activeBelow_succ he, add_mul]
    exact Nat.add_le_add (ih (by omega)) hone

/-- The slice of the `rank`-th of `active` entries, in basis points. -/
def weightBps (active rank : Nat) : Nat := maxBps / active + (if rank < maxBps % active then 1 else 0)

/-- The basis points of the ranks below `rank`. -/
def cumBps (active rank : Nat) : Nat := maxBps / active * rank + min rank (maxBps % active)

section Slices

variable {total rank active share : Nat}

theorem cumBps_succ : cumBps active (rank + 1) = cumBps active rank + weightBps active rank := by
  unfold cumBps weightBps
  rw [Nat.mul_succ]
  split <;> omega

theorem cumBps_active (hactive : active ≠ 0) : cumBps active active = maxBps := by
  have hextra := Nat.mod_lt maxBps (Nat.pos_of_ne_zero hactive)
  rw [cumBps, min_eq_right hextra.le, Nat.div_add_mod']

theorem mul_cumBps_le (hrank : rank < active) : total * cumBps active (rank + 1) ≤ total * maxBps := by
  have hle : cumBps active (rank + 1) ≤ cumBps active active :=
    Nat.add_le_add (Nat.mul_le_mul_left _ hrank) (min_le_min_right _ hrank)
  exact Nat.mul_le_mul_left _ (hle.trans_eq (cumBps_active (by omega)))

theorem equalWeightBalance_eq_ok (hactive : active ≠ 0) : equalWeightBalance total rank active = .ok share ↔
    total * cumBps active (rank + 1) < wordSize ∧
      total * cumBps active rank / maxBps + share = total * cumBps active (rank + 1) / maxBps := by
  have hbefore : maxBps / active * rank + (if rank < maxBps % active then rank else maxBps % active) =
      cumBps active rank := by
    unfold cumBps
    split <;> omega
  have hle : total * cumBps active rank ≤ total * cumBps active (rank + 1) :=
    Nat.mul_le_mul_left _ (cumBps_succ ▸ Nat.le_add_right _ _)
  unfold equalWeightBalance
  simp only [if_neg hactive, bind_eq_ok, mul_eq_ok, sub_eq_ok, hbefore]
  rw [add_assoc, ← weightBps, ← cumBps_succ]
  constructor
  · rintro ⟨-, ⟨hword, rfl⟩, -, ⟨-, rfl⟩, hdiv, rfl⟩
    exact ⟨hword, Nat.add_sub_cancel' hdiv⟩
  · rintro ⟨hword, hshare⟩
    exact ⟨_, ⟨hword, rfl⟩, _, ⟨hle.trans_lt hword, rfl⟩, by omega, by omega⟩

theorem equalWeightBalance_returns (hrank : rank < active) (hword : total * maxBps < wordSize) :
    ∃ share, equalWeightBalance total rank active = .ok share := by
  have hle : total * cumBps active rank ≤ total * cumBps active (rank + 1) :=
    Nat.mul_le_mul_left _ (cumBps_succ ▸ Nat.le_add_right _ _)
  exact ⟨_, (equalWeightBalance_eq_ok (by omega)).2
    ⟨(mul_cumBps_le hrank).trans_lt hword, Nat.add_sub_cancel' (Nat.div_le_div_right hle)⟩⟩

end Slices

section Returns

variable {amount totalAfter : Nat} {placed : Nat → Nat} {r : Route σ} (hexact : env.Exact d s.ActiveAdapter)
  (hdistinct : s.ActiveDistinct) (hfits : RoutingFits d env s amount totalAfter)

include hfits

private theorem RoutingFits.lt_wordSize : totalAfter < wordSize :=
  lt_of_le_of_lt (Nat.le_mul_of_pos_right _ (by decide)) hfits.word

variable {i : Nat} {e : AdapterInfo}

private theorem RoutingFits.ceiling_returns (he : s.adapters[i]? = some e) :
    s.ceiling env totalAfter i = .ok (s.ceilingAt env totalAfter i) := by
  have hcap := hfits.caps e (List.mem_of_getElem? he)
  have hmul : mul totalAfter e.capBps = (.ok (totalAfter * e.capBps) : Except Revert Nat) :=
    mul_eq_ok.2 ⟨lt_of_le_of_lt (Nat.mul_le_mul_left _ hcap) hfits.word, rfl⟩
  simp only [ceiling, entry_eq_ok.2 he, ok_bind, hmul, ceilingAt, he]
  split <;> rfl

include hexact

private theorem RoutingFits.usable (he : s.adapters[i]? = some e) (hact : e.active = true) :
    ∃ b, s.isUsable d env i = .ok b ∧ s.isCounted d env i = .ok b ∧ (b = true → s.balanceAt env i ≤ totalAfter) := by
  obtain ⟨b, hb, hle⟩ := (totalAssets_parts hexact hfits.nav).2 i (getElem?_eq_some_iff.1 he).1
  have husable : s.isUsable d env i = .ok b := by
    simpa [isCounted, entry_eq_ok.2 he, hact] using hb
  exact ⟨b, husable, hb, hle⟩

include hdistinct

private theorem Routing.allocate_returns (h : Routing d env s amount totalAfter placed r) {x : Nat}
    (he : s.adapters[i]? = some e) (hc : s.isCounted d env i = .ok true) (hx : x ≤ r.remaining) :
    ∃ t, r.vault.allocate d env i x = .ok (x, t) := by
  have hidle := h.vault.idle
  have hsum := h.remaining
  have hfunds := hfits.funds
  have hnav := (totalAssets_parts hexact hfits.nav).1
  have hword := hfits.lt_wordSize
  obtain ⟨p, t, hok⟩ := h.vault.allocate_returns hdistinct hexact he hc (x := x) (by omega) (by omega)
  obtain ⟨rfl, -⟩ := h.vault.of_allocate hdistinct hexact he hc hok
  exact ⟨t, hok⟩

variable {k : Nat}

private theorem pass1Leg_returns {share : Nat} (h : Pass1 d env s amount totalAfter k placed r)
    (hpos : r.remaining ≠ 0) (he : s.adapters[k]? = some e) (hc : s.isCounted d env k = .ok true) :
    ∃ r', pass1Leg d env r k share = .ok r' := by
  have hk : k < s.adapters.length := (getElem?_eq_some_iff.1 he).1
  have hact := (counted_entry he hc).1
  have hzero : placed k = 0 := h.later k (le_refl k)
  have hhead : s.headroom d env totalAfter k = _ := headroom_of_counted hc
  have hceil : s.ceilingAt env totalAfter k ≤ totalAfter := ceilingAt_le hfits.caps totalAfter k
  have hbalance : s.balanceAt env k ≤ totalAfter := by
    obtain ⟨b, -, hb, hle⟩ := hfits.usable hexact he hact
    rw [hc] at hb
    cases hb
    exact hle rfl
  -- the headroom added up so far leaves room for that of this entry
  have hroom : r.capHeadroom + (s.ceilingAt env totalAfter k - s.balanceAt env k) ≤ totalAfter * maxBps := by
    calc r.capHeadroom + (s.ceilingAt env totalAfter k - s.balanceAt env k)
        ≤ (∑ i ∈ range k, s.headroom d env totalAfter i) + s.headroom d env totalAfter k := by
          rw [h.room hpos, hhead]
          exact Nat.add_le_add_right (sum_le_sum fun i _ => Nat.sub_le _ _) _
      _ = ∑ i ∈ range (k + 1), s.headroom d env totalAfter i := (sum_range_succ ..).symm
      _ ≤ s.activeBelow (k + 1) * totalAfter := sum_headroom_le hfits.caps hk
      _ ≤ maxBps * totalAfter :=
          Nat.mul_le_mul_right _ ((s.activeBelow_le _).trans (hfits.count.trans (by decide)))
      _ = totalAfter * maxBps := mul_comm _ _
  have hword := hfits.word
  have hlarge : totalAfter + 1 < wordSize := by
    have htwo : totalAfter * 2 ≤ totalAfter * maxBps := Nat.mul_le_mul_left _ (by decide)
    have hone : 1 + 1 < wordSize := by decide
    omega
  simp only [pass1Leg, h.vault.ceiling_eq he hact, h.total, hfits.ceiling_returns he, ok_bind, h.vault.entry_eq,
    entry_eq_ok.2 he, h.vault.reported_eq hexact he hact, hzero, add_zero]
  split
  · simp only [bind_eq_ok, add_eq_ok]
    exact ⟨_, _, ⟨by omega, rfl⟩, _, ⟨by omega, rfl⟩, rfl⟩
  rename_i hbelow
  obtain ⟨t, halloc⟩ := Routing.allocate_returns hexact hdistinct hfits h.toRouting he hc
    (x := min (min share (s.ceilingAt env totalAfter k) - s.balanceAt env k) r.remaining) (min_le_right _ _)
  simp only [halloc, ok_bind, lt_irrefl, if_false, bind_eq_ok, sub_eq_ok, add_eq_ok]
  exact ⟨_, _, ⟨min_le_right _ _, rfl⟩, _, ⟨by omega, rfl⟩, _, ⟨by omega, rfl⟩, rfl⟩

/-- The rank of pass 1 before entry `k`, while something remains: the active entries passed. -/
def Ranked (s : Vault σ) (k : Nat) (r : Route σ) : Prop := r.remaining ≠ 0 → r.rank = s.activeBelow k

omit hfits hdistinct hexact in
private theorem pass1Leg_keeps {share : Nat} {r' : Route σ} (hok : pass1Leg d env r k share = .ok r') :
    r'.rank = r.rank ∧ r'.remaining ≤ r.remaining := by
  simp only [pass1Leg, bind_eq_ok] at hok
  obtain ⟨cap, -, e, -, current, -, hok⟩ := hok
  split at hok
  · simp only [bind_eq_ok, ok.injEq] at hok
    obtain ⟨-, -, -, -, rfl⟩ := hok
    exact ⟨rfl, le_rfl⟩
  simp only [bind_eq_ok, Prod.exists, sub_eq_ok] at hok
  obtain ⟨p, t, -, -, ⟨-, rfl⟩, hok⟩ := hok
  split at hok
  · cases hok
    exact ⟨rfl, Nat.sub_le _ _⟩
  simp only [bind_eq_ok, ok.injEq] at hok
  obtain ⟨-, -, -, -, rfl⟩ := hok
  exact ⟨rfl, Nat.sub_le _ _⟩

private theorem routePass1_returns (hk : k < s.adapters.length) (h : Pass1 d env s amount totalAfter k placed r)
    (hrank : s.Ranked k r) : ∃ r', routePass1 d env s.activeCount r k = .ok r' ∧ s.Ranked (k + 1) r' := by
  obtain ⟨e, he⟩ : ∃ e, s.adapters[k]? = some e := ⟨_, List.getElem?_eq_getElem hk⟩
  unfold routePass1
  split
  · rename_i hdone
    exact ⟨r, rfl, fun hne => absurd hdone hne⟩
  rename_i hpos
  have hcount := activeBelow_succ he
  have hle := s.activeBelow_le (k + 1)
  simp only [h.vault.entry_eq, entry_eq_ok.2 he, ok_bind]
  split
  · rename_i hact
    refine ⟨r, rfl, fun hne => ?_⟩
    rw [hrank hne, hcount, hact]
    rfl
  rename_i hact
  have hact : e.active = true := by simpa using hact
  rw [hact, if_pos rfl] at hcount
  obtain ⟨share, hshare⟩ : ∃ share, equalWeightBalance totalAfter r.rank s.activeCount = .ok share :=
    equalWeightBalance_returns (by rw [hrank hpos]; omega) hfits.word
  obtain ⟨b, husable, hcounted, -⟩ := hfits.usable hexact he hact
  rw [← h.total] at hshare
  simp only [hshare, ok_bind, h.vault.isUsable_eq he hact, husable]
  cases b with
  | false =>
    refine ⟨{ r with rank := r.rank + 1 }, rfl, fun hne => ?_⟩
    rw [hcount, ← hrank hne]
  | true =>
    have h' : Pass1 d env s amount totalAfter k placed { r with rank := r.rank + 1 } :=
      ⟨⟨h.vault, h.total, h.refused, h.remaining, h.within⟩, h.later, h.room, h.cached⟩
    obtain ⟨r', hr'⟩ : ∃ r', pass1Leg d env { r with rank := r.rank + 1 } k share = .ok r' :=
      pass1Leg_returns hexact hdistinct hfits h' hpos he hcounted
    have hkeeps := pass1Leg_keeps hr'
    refine ⟨r', hr', fun _ => ?_⟩
    rw [hkeeps.1, hcount, ← hrank hpos]

private theorem routePass2_returns {useCache : Bool} (hk : k < s.adapters.length)
    (h : Pass2 d env s amount totalAfter useCache k placed r) : ∃ r', routePass2 d env useCache r k = .ok r' := by
  obtain ⟨e, he⟩ : ∃ e, s.adapters[k]? = some e := ⟨_, List.getElem?_eq_getElem hk⟩
  unfold routePass2
  split
  · exact ⟨_, rfl⟩
  simp only [h.vault.entry_eq, entry_eq_ok.2 he, ok_bind, h.refused, Nat.zero_testBit, Bool.false_eq_true, or_false]
  split
  · exact ⟨_, rfl⟩
  rename_i hact
  have hact : e.active = true := by simpa using hact
  obtain ⟨b, husable, hcounted, -⟩ := hfits.usable hexact he hact
  simp only [h.vault.isUsable_eq he hact, husable, ok_bind]
  cases b with
  | false => exact ⟨_, rfl⟩
  | true =>
    obtain ⟨current, hcurrent⟩ : ∃ current,
        pass2Balance env r e.adapter (if useCache then r.cachedBalance k else 0) = .ok current := by
      generalize (if useCache then r.cachedBalance k else 0) = cached
      unfold pass2Balance
      split
      · exact ⟨_, h.vault.reported_eq hexact he hact⟩
      · exact ⟨_, rfl⟩
    simp only [if_true, hcurrent, ok_bind, h.vault.ceiling_eq he hact, h.total, hfits.ceiling_returns he]
    split
    · exact ⟨_, rfl⟩
    obtain ⟨t, halloc⟩ := Routing.allocate_returns hexact hdistinct hfits h.toRouting he hcounted
      (x := min (s.ceilingAt env totalAfter k - current) r.remaining) (min_le_right _ _)
    simp only [halloc, ok_bind, bind_eq_ok, sub_eq_ok]
    exact ⟨_, _, ⟨min_le_right _ _, rfl⟩, rfl⟩

theorem routeDeposit_returns : ∃ s', s.routeDeposit d env amount totalAfter = .ok s' := by
  unfold routeDeposit
  split
  · exact ⟨_, rfl⟩
  have hstart : Pass1 d env s amount totalAfter 0 (fun _ => 0) ⟨s, totalAfter, amount, 0, 0, 0, fun _ => 0⟩ :=
    pass1_start
  obtain ⟨r, hpass1, ⟨placed, h1⟩, -⟩ := foldlM_range_returns (f := routePass1 d env s.activeCount)
    (n := s.adapters.length) (P := fun k r => (∃ placed, Pass1 d env s amount totalAfter k placed r) ∧ s.Ranked k r)
    (fun k r hk hr => by
      obtain ⟨⟨placed, h⟩, hrank⟩ := hr
      obtain ⟨r', hr', hrank'⟩ := routePass1_returns hexact hdistinct hfits hk h hrank
      exact ⟨r', hr', routePass1_pass1 hexact hdistinct hk h hr', hrank'⟩)
    ⟨⟨_, hstart⟩, fun _ => rfl⟩
  simp only [indices, hpass1, ok_bind]
  split
  · obtain ⟨r', hpass2, -⟩ := foldlM_range_returns
      (f := routePass2 d env (r.remaining == amount && r.refused == 0)) (n := s.adapters.length)
      (P := fun k r' => ∃ placed, Pass2 d env s amount totalAfter (r.remaining == amount && r.refused == 0) k placed r')
      (fun k r₁ hk hr => by
        obtain ⟨placed, h⟩ := hr
        obtain ⟨r₂, hr₂⟩ := routePass2_returns hexact hdistinct hfits hk h
        exact ⟨r₂, hr₂, routePass2_pass2 hexact hdistinct hk h hr₂⟩)
      ⟨placed, pass2_start h1⟩
    exact ⟨r'.vault, by rw [hpass2, ok_bind]⟩
  · exact ⟨_, rfl⟩

end Returns

end Vault

/-- Routing a deposit to exact adapters.  It returns when the net asset value fits.  Whenever it returns, what was
placed and what remains make up the amount, no adapter is filled past the larger of its balance and its ceiling, and
what remains is what exceeds the headroom of the usable adapters: none of them has any left then. -/
theorem deposit_routing_maximal {σ : Type} (d : Deployment) (env : Outside σ) (s : Vault σ) (amount totalAfter : Nat)
    (hexact : env.Exact d s.ActiveAdapter) (hdistinct : s.ActiveDistinct) :
    (Vault.RoutingFits d env s amount totalAfter → ∃ s', s.routeDeposit d env amount totalAfter = .ok s') ∧
      ∀ s', s.routeDeposit d env amount totalAfter = .ok s' → ∃ (placed : Nat → Nat) (remainder : Nat),
        (∀ i e, s.adapters[i]? = some e → e.active = true →
          s.reported env e.adapter = .ok (s.balanceAt env i) ∧
            s'.reported env e.adapter = .ok (s.balanceAt env i + placed i)) ∧
        (∀ i, s.isCounted d env i ≠ .ok true → placed i = 0) ∧
        (∑ i ∈ range s.adapters.length, placed i) + remainder = amount ∧
        s'.idle d + amount = s.idle d + remainder ∧
        (∀ i, s.balanceAt env i + placed i ≤ max (s.balanceAt env i) (s.ceilingAt env totalAfter i)) ∧
        remainder = amount - ∑ i ∈ range s.adapters.length, s.headroom d env totalAfter i ∧
        (remainder ≠ 0 → ∀ i, s.isCounted d env i = .ok true →
          s.ceilingAt env totalAfter i ≤ s.balanceAt env i + placed i) := by
  refine ⟨fun hfits => Vault.routeDeposit_returns hexact hdistinct hfits, ?_⟩
  intro s' hok
  obtain ⟨placed, r, hrouting, rfl, hfull⟩ := Vault.routeDeposit_routed hexact hdistinct hok
  have hsum := hrouting.remaining
  have hidle := hrouting.vault.idle
  have hle : ∑ i ∈ range s.adapters.length, placed i ≤
      ∑ i ∈ range s.adapters.length, s.headroom d env totalAfter i :=
    sum_le_sum fun i _ => hrouting.within i
  refine ⟨placed, r.remaining, ?_, hrouting.vault.uncounted, by omega, by omega, ?_, ?_, ?_⟩
  · intro i e he hact
    exact ⟨(Vault.Placed.refl d env s).reported_eq hexact he hact, hrouting.vault.reported_eq hexact he hact⟩
  · intro i
    have hwithin := hrouting.within i
    by_cases hc : s.isCounted d env i = .ok true
    · rw [Vault.headroom_of_counted hc] at hwithin
      omega
    · rw [hrouting.vault.uncounted i hc]
      omega
  · by_cases hzero : r.remaining = 0
    · omega
    · have hge : ∑ i ∈ range s.adapters.length, s.headroom d env totalAfter i ≤
          ∑ i ∈ range s.adapters.length, placed i :=
        sum_le_sum fun i hi => hfull hzero i (mem_range.1 hi)
      omega
  · intro hne i hc
    obtain ⟨e, he, -⟩ := Vault.isCounted_eq_true.1 hc
    have hroom := hfull hne i (getElem?_eq_some_iff.1 he).1
    rw [Vault.headroom_of_counted hc] at hroom
    omega

theorem Outside.sample_exact {known : Address → Prop} (hknown : ∀ a, known a → a ≠ 0 ∧ a ≠ 1) :
    Outside.sample.Exact .sample known where
  ne_zero a ha := (hknown a ha).1
  ne_vault a ha := (hknown a ha).2
  reports := fun h a _ => ⟨h a, rfl⟩
  deploys := by
    intro h a x n _ hn
    cases hn
    refine ⟨⟨0, [], update h a (h a + x)⟩, rfl, ?_, fun b _ hb => ?_, fun b _ => ⟨rfl, rfl, rfl, rfl⟩,
      fun book _ => rfl⟩
    · simp [Outside.sample]
    · simp [Outside.sample, hb]

/-- A vault with two adapters, capped at a half and at a fifth, and the given idle USDC. -/
def Vault.routingSample (idle : Nat) : Vault (Address → Nat) where
  adapters := [⟨30, 5000, true⟩, ⟨31, 2000, true⟩]
  allowed := fun _ => true
  codeHashAllowed := fun _ => true
  openExclusionOf := fun _ => 0
  book := .init (update (fun _ => 0) 1 idle)
  allowance := fun _ _ => 0
  tvlCap := 0
  perDepositCap := 0
  exitFeeBps := 0
  feeRecipient := 20
  shutdown := false
  retired := false
  registry := 0
  depositsPaused := false
  maxRebalanceBpsPerCall := 0
  minRebalanceInterval := 0
  lastRebalanceAt := 0
  hasRole := fun _ _ => false
  hidden := fun _ => 0
  trace := []

namespace Vault

private theorem routingSample_activeAdapter {idle : Nat} {a : Address} (h : (routingSample idle).ActiveAdapter a) :
    a = 30 ∨ a = 31 := by
  obtain ⟨e, he, -, rfl⟩ := h
  simp only [routingSample, List.mem_cons, List.not_mem_nil, or_false] at he
  rcases he with rfl | rfl
  · exact .inl rfl
  · exact .inr rfl

private theorem routingSample_exact (idle : Nat) : Outside.sample.Exact .sample (routingSample idle).ActiveAdapter := by
  refine Outside.sample_exact fun a ha => ?_
  rcases routingSample_activeAdapter ha with rfl | rfl <;> exact ⟨by decide, by decide⟩

private theorem routingSample_activeDistinct (idle : Nat) : (routingSample idle).ActiveDistinct := by
  intro i j e f he hf _ _ heq
  have hcases : ∀ {k : Nat} {g : AdapterInfo}, (routingSample idle).adapters[k]? = some g →
      (k = 0 ∧ g.adapter = 30) ∨ (k = 1 ∧ g.adapter = 31) := by
    intro k g hg
    simp only [routingSample] at hg
    rcases k with _ | _ | k
    · cases hg
      exact .inl ⟨rfl, rfl⟩
    · cases hg
      exact .inr ⟨rfl, rfl⟩
    · simp at hg
  rcases hcases he with ⟨rfl, ha⟩ | ⟨rfl, ha⟩ <;> rcases hcases hf with ⟨rfl, hb⟩ | ⟨rfl, hb⟩
  · rfl
  · rw [ha, hb] at heq
    exact absurd heq (by decide)
  · rw [ha, hb] at heq
    exact absurd heq (by decide)
  · rfl

end Vault

/-- Of 1000 units one adapter takes a half and the other a fifth; 300 stay idle. -/
theorem deposit_routing_maximal_sample :
    ∃ (s' : Vault (Address → Nat)) (placed : Nat → Nat),
    (Vault.routingSample 1000).routeDeposit .sample .sample 1000 1000 = .ok s' ∧
      s'.hidden 30 = placed 0 ∧ s'.hidden 31 = placed 1 ∧ s'.idle .sample = 300 ∧
      (∑ i ∈ range 2, placed i) + 300 = 1000 := by
  have hfits : Vault.RoutingFits .sample .sample (Vault.routingSample 1000) 1000 1000 :=
    ⟨rfl, by decide +kernel, by decide +kernel, by decide +kernel, by decide +kernel⟩
  have hmain := deposit_routing_maximal .sample .sample (Vault.routingSample 1000) 1000 1000
    (Vault.routingSample_exact 1000) (Vault.routingSample_activeDistinct 1000)
  obtain ⟨s', hs'⟩ := hmain.1 hfits
  obtain ⟨placed, remainder, hreports, -, hsum, hidle, -, hremainder, -⟩ := hmain.2 s' hs'
  have h300 : remainder = 300 := hremainder.trans (by decide +kernel)
  subst h300
  have h30 := (hreports 0 ⟨30, 5000, true⟩ rfl rfl).2
  have h31 := (hreports 1 ⟨31, 2000, true⟩ rfl rfl).2
  simp only [Vault.reported, Outside.sample, Reply.value, ok.injEq, Vault.balanceAt,
    Vault.routingSample] at h30 h31
  refine ⟨s', placed, hs', by simpa using h30, by simpa using h31, ?_, hsum⟩
  have hbefore : (Vault.routingSample 1000).idle .sample = 1000 := rfl
  omega

/-- With a net asset value whose product with basis points leaves a machine word, routing reverts. -/
theorem deposit_routing_overflows :
    (Vault.routingSample (wordSize - 1)).routeDeposit .sample .sample (wordSize - 1) (wordSize - 1) =
      .error (.panic .arithmetic) := rfl

end RobotMoney
