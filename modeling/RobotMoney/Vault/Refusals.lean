import RobotMoney.Vault.Routing
import RobotMoney.Vault.Settings

/-!
# Adapters that refuse a deposit

An adapter whose venue is full hands its USDC back.  Pass 1 of the routing remembers it by a bit of one machine word, at
the position of the entry in the registry, and pass 2 skips the entries whose bit is set.  The registry only grows, and
`1 << i` is zero from position 256 on.

* Below 256 a refusal is remembered (`HandsBackInPass1.marked`).
* From 256 on it is not, and pass 2 asks again whenever another entry leaves it headroom to look for.  Which registries
  that can happen to is a matter of the positions and the caps of their active entries (`refusals_remembered_iff`).
-/

namespace RobotMoney

open Evm List Except Function

namespace Vault

variable {σ : Type} (d : Deployment) (env : Outside σ)

/-- The amount a round of pass 1 asks its adapter to take, 0 when it asks for nothing. -/
def pass1Request (active : Nat) (r : Route σ) (i : Nat) : Except Revert Nat :=
  if r.remaining = 0 then .ok 0
  else do
    let e ← r.vault.entry i
    if e.active = false then .ok 0
    else do
      let shareBalance ← equalWeightBalance r.totalAfter r.rank active
      let usable ← r.vault.isUsable d env i
      if usable then do
        let capBalance ← r.vault.ceiling env r.totalAfter i
        let currentBalance ← r.vault.reported env e.adapter
        .ok (min (min shareBalance capBalance - currentBalance) r.remaining)
      else .ok 0

def pass2Request (useCache : Bool) (r : Route σ) (i : Nat) : Except Revert Nat :=
  if r.remaining = 0 then .ok 0
  else do
    let e ← r.vault.entry i
    if e.active = false ∨ r.refused.testBit i = true then .ok 0
    else do
      let usable ← r.vault.isUsable d env i
      if usable then do
        let currentBalance ← pass2Balance env r e.adapter (if useCache then r.cachedBalance i else 0)
        let capBalance ← r.vault.ceiling env r.totalAfter i
        .ok (min (capBalance - currentBalance) r.remaining)
      else .ok 0

/-- The route a deposit of `amount` starts from. -/
def startRoute (s : Vault σ) (amount totalAfter : Nat) : Route σ where
  vault := s
  totalAfter := totalAfter
  remaining := amount
  capHeadroom := 0
  refused := 0
  rank := 0
  cachedBalance := fun _ => 0

/-- In pass 1 entry `i` is asked to take more than it keeps. -/
def HandsBackInPass1 (s : Vault σ) (amount totalAfter i : Nat) : Prop :=
  ∃ r r' request, (range i).foldlM (routePass1 d env s.activeCount) (s.startRoute amount totalAfter) = .ok r ∧
    i < s.adapters.length ∧ pass1Request d env s.activeCount r i = .ok request ∧
    routePass1 d env s.activeCount r i = .ok r' ∧ r.remaining < r'.remaining + request

/-- In pass 1 entry `i` is asked to take USDC, and that reverts. -/
def RevertsInPass1 (s : Vault σ) (amount totalAfter i : Nat) : Prop :=
  ∃ r request reason, (range i).foldlM (routePass1 d env s.activeCount) (s.startRoute amount totalAfter) = .ok r ∧
    i < s.adapters.length ∧ pass1Request d env s.activeCount r i = .ok request ∧ 0 < request ∧
    routePass1 d env s.activeCount r i = .error reason

/-- Pass 2 is made, and in it entry `i` is asked to take USDC. -/
def AskedInPass2 (s : Vault σ) (amount totalAfter i : Nat) : Prop :=
  ∃ r r' request, s.indices.foldlM (routePass1 d env s.activeCount) (s.startRoute amount totalAfter) = .ok r ∧
    0 < r.remaining ∧ 0 < r.capHeadroom ∧ i < s.adapters.length ∧
    (range i).foldlM (routePass2 d env (r.remaining == amount && r.refused == 0)) r = .ok r' ∧
    pass2Request d env (r.remaining == amount && r.refused == 0) r' i = .ok request ∧ 0 < request

/-- A round of pass 1 that asks for `request`. -/
inductive Pass1Round (active : Nat) (r : Route σ) (i : Nat) : Nat → Route σ → Prop where
  | done (hdone : r.remaining = 0) : Pass1Round active r i 0 r
  | inactive (e : AdapterInfo) (he : r.vault.adapters[i]? = some e) (hinactive : e.active = false) :
    Pass1Round active r i 0 r
  | unusable (e : AdapterInfo) (he : r.vault.adapters[i]? = some e) (hact : e.active = true) :
    Pass1Round active r i 0 { r with rank := r.rank + 1 }
  | full (e : AdapterInfo) (he : r.vault.adapters[i]? = some e) (hact : e.active = true) (share cap current : Nat)
    (hshare : equalWeightBalance r.totalAfter r.rank active = .ok share)
    (hcap : r.vault.ceiling env r.totalAfter i = .ok cap) (hfull : min share cap ≤ current) :
    Pass1Round active r i 0
      { r with
        rank := r.rank + 1
        capHeadroom := r.capHeadroom + (cap - current)
        cachedBalance := update r.cachedBalance i (current + 1) }
  | kept (e : AdapterInfo) (he : r.vault.adapters[i]? = some e) (hact : e.active = true) (share cap current x : Nat)
    (hshare : equalWeightBalance r.totalAfter r.rank active = .ok share)
    (hcap : r.vault.ceiling env r.totalAfter i = .ok cap) (hx : x = min (min share cap - current) r.remaining)
    (hroom : current < min share cap) (vault : Vault σ) (hallocate : r.vault.allocate d env i x = .ok (x, vault)) :
    Pass1Round active r i x
      { r with
        vault
        rank := r.rank + 1
        remaining := r.remaining - x
        capHeadroom := r.capHeadroom + (cap - (current + x))
        cachedBalance := update r.cachedBalance i 0 }
  | refused (e : AdapterInfo) (he : r.vault.adapters[i]? = some e) (hact : e.active = true) (x placed : Nat)
    (hplaced : placed < x) (hx : x ≤ r.remaining) (vault : Vault σ)
    (hallocate : r.vault.allocate d env i x = .ok (placed, vault)) :
    Pass1Round active r i x
      { r with
        vault
        rank := r.rank + 1
        remaining := r.remaining - placed
        refused := r.refused ||| (2 ^ i % wordSize)
        cachedBalance := update r.cachedBalance i 0 }

variable {d env} {s s' : Vault σ} {r r' : Route σ} {active i request : Nat}

private theorem allocate_frame {x placed : Nat} (h : s.allocate d env i x = .ok (placed, s')) :
    placed ≤ x ∧ s'.adapters = s.adapters := by
  simp only [allocate, callDeploy, bind_eq_ok, ok.injEq, Prod.mk.injEq] at h
  obtain ⟨e, -, -, -, usdc, -, -, ⟨eff, -, rfl⟩, -, -, handedBack, -, rfl, rfl⟩ := h
  exact ⟨Nat.sub_le _ _, rfl⟩

/-- A round that returns is one of these, and asks for what `pass1Request` says. -/
theorem routePass1_round (h : routePass1 d env active r i = .ok r') :
    ∃ request, pass1Request d env active r i = .ok request ∧ Pass1Round d env active r i request r' := by
  unfold routePass1 at h
  unfold pass1Request
  split at h
  · rename_i hdone
    cases h
    rw [if_pos hdone]
    exact ⟨0, rfl, .done hdone⟩
  rename_i hpos
  rw [if_neg hpos]
  simp only [bind_eq_ok, entry_eq_ok] at h
  obtain ⟨e, he, h⟩ := h
  simp only [entry_eq_ok.2 he, ok_bind]
  split at h
  · rename_i hinactive
    cases h
    rw [if_pos hinactive]
    exact ⟨0, rfl, .inactive e he hinactive⟩
  rename_i hact
  rw [if_neg hact]
  have hact : e.active = true := by simpa using hact
  simp only [bind_eq_ok] at h
  obtain ⟨share, hshare, usable, husable, h⟩ := h
  simp only [hshare, husable, ok_bind]
  split at h
  · rename_i htrue
    rw [if_pos htrue]
    simp only [pass1Leg, bind_eq_ok, entry_eq_ok.2 he, ok_bind] at h
    obtain ⟨cap, hcap, current, hcurrent, h⟩ := h
    simp only [hcap, hcurrent, ok_bind]
    split at h
    · rename_i hfull
      simp only [bind_eq_ok, add_eq_ok, ok.injEq] at h
      obtain ⟨-, ⟨-, rfl⟩, -, ⟨-, rfl⟩, rfl⟩ := h
      refine ⟨_, rfl, ?_⟩
      have hnone : min (min share cap - current) r.remaining = 0 := by omega
      rw [hnone]
      exact .full e he hact share cap current hshare hcap hfull
    rename_i hroom
    simp only [bind_eq_ok, Prod.exists, sub_eq_ok] at h
    obtain ⟨placed, vault, hallocate, remaining, ⟨-, rfl⟩, h⟩ := h
    refine ⟨_, rfl, ?_⟩
    have hle := (allocate_frame hallocate).1
    split at h
    · rename_i hpart
      cases h
      exact .refused e he hact _ placed hpart (min_le_right _ _) vault hallocate
    rename_i hall
    obtain rfl : placed = min (min share cap - current) r.remaining := by omega
    simp only [bind_eq_ok, add_eq_ok, ok.injEq] at h
    obtain ⟨-, ⟨-, rfl⟩, -, ⟨-, rfl⟩, rfl⟩ := h
    exact .kept e he hact share cap current _ hshare hcap rfl (by omega) vault hallocate
  rename_i hfalse
  cases h
  rw [if_neg hfalse]
  exact ⟨0, rfl, .unusable e he hact⟩

/-- A round of pass 2 that returns asks for what `pass2Request` says, and for nothing else. -/
theorem routePass2_round {useCache : Bool} (h : routePass2 d env useCache r i = .ok r') :
    ∃ request, pass2Request d env useCache r i = .ok request ∧ ((request = 0 ∧ r' = r) ∨
      0 < request ∧ ∃ placed vault, r.vault.allocate d env i request = .ok (placed, vault) ∧
        r' = { r with vault, remaining := r.remaining - placed }) := by
  unfold routePass2 at h
  unfold pass2Request
  split at h
  · rename_i hdone
    cases h
    rw [if_pos hdone]
    exact ⟨0, rfl, .inl ⟨rfl, rfl⟩⟩
  rename_i hpos
  rw [if_neg hpos]
  simp only [bind_eq_ok, entry_eq_ok] at h
  obtain ⟨e, he, h⟩ := h
  simp only [entry_eq_ok.2 he, ok_bind]
  split at h
  · rename_i hskip
    cases h
    rw [if_pos hskip]
    exact ⟨0, rfl, .inl ⟨rfl, rfl⟩⟩
  rename_i hask
  rw [if_neg hask]
  simp only [bind_eq_ok] at h
  obtain ⟨usable, husable, h⟩ := h
  simp only [husable, ok_bind]
  split at h
  · rename_i htrue
    rw [if_pos htrue]
    simp only [bind_eq_ok] at h
    obtain ⟨current, hcurrent, cap, hcap, h⟩ := h
    simp only [hcurrent, hcap, ok_bind]
    split at h
    · cases h
      exact ⟨_, rfl, .inl ⟨by omega, rfl⟩⟩
    simp only [bind_eq_ok, Prod.exists, sub_eq_ok, ok.injEq] at h
    obtain ⟨placed, vault, hallocate, -, ⟨-, rfl⟩, rfl⟩ := h
    exact ⟨_, rfl, .inr ⟨by omega, placed, vault, hallocate, rfl⟩⟩
  rename_i hfalse
  cases h
  rw [if_neg hfalse]
  exact ⟨0, rfl, .inl ⟨rfl, rfl⟩⟩

namespace Pass1Round

section

variable (h : Pass1Round d env active r i request r')

include h

theorem frame : r'.vault.adapters = r.vault.adapters ∧ r'.totalAfter = r.totalAfter := by
  cases h with
  | done hdone => exact ⟨rfl, rfl⟩
  | inactive e he hinactive => exact ⟨rfl, rfl⟩
  | unusable e he hact => exact ⟨rfl, rfl⟩
  | full e he hact share cap current hshare hcap hfull => exact ⟨rfl, rfl⟩
  | kept e he hact share cap current x hshare hcap hx hroom vault hallocate => exact ⟨(allocate_frame hallocate).2, rfl⟩
  | refused e he hact x placed hplaced hx vault hallocate => exact ⟨(allocate_frame hallocate).2, rfl⟩

theorem testBit_mono {k : Nat} (hk : r.refused.testBit k = true) : r'.refused.testBit k = true := by
  cases h with
  | done hdone => exact hk
  | inactive e he hinactive => exact hk
  | unusable e he hact => exact hk
  | full e he hact share cap current hshare hcap hfull => exact hk
  | kept e he hact share cap current x hshare hcap hx hroom vault hallocate => exact hk
  | refused e he hact x placed hplaced hx vault hallocate => simp [Nat.testBit_or, hk]

private theorem of_handedBack (hback : r.remaining < r'.remaining + request) :
    r.remaining ≠ 0 ∧ r'.refused = r.refused ||| (2 ^ i % wordSize) ∧ r'.capHeadroom = r.capHeadroom ∧
      r'.rank = r.rank + 1 ∧ ∃ e, r.vault.adapters[i]? = some e ∧ e.active = true := by
  cases h with
  | done hdone => omega
  | inactive e he hinactive => omega
  | unusable e he hact => simp at hback
  | full e he hact share cap current hshare hcap hfull => simp at hback
  | kept e he hact share cap current x hshare hcap hx hroom vault hallocate =>
    dsimp only at hback
    omega
  | refused e he hact x placed hplaced hx vault hallocate =>
    exact ⟨by omega, rfl, rfl, rfl, e, he, hact⟩

end

end Pass1Round

private theorem refusalBit_eq_zero (hi : 256 ≤ i) : 2 ^ i % wordSize = 0 :=
  Nat.mod_eq_zero_of_dvd (Nat.pow_dvd_pow 2 hi)

private theorem testBit_refusalBit (hi : i < 256) : (2 ^ i % wordSize).testBit i = true := by
  have hlt : 2 ^ i < wordSize := Nat.pow_lt_pow_right (by omega) hi
  rw [Nat.mod_eq_of_lt hlt]
  exact Nat.testBit_two_pow_self

variable {totalAfter : Nat}

private theorem HandsBackInPass1.marked {amount : Nat} (hi : i < 256) (h : s.HandsBackInPass1 d env amount totalAfter i)
    (hpass : s.indices.foldlM (routePass1 d env s.activeCount) (s.startRoute amount totalAfter) = .ok r) :
    r.refused.testBit i = true := by
  obtain ⟨r₀, r₁, request, hbefore, hlt, hrequest, hround, hback⟩ := h
  obtain ⟨request', hrequest', hcase⟩ := routePass1_round hround
  rw [hrequest] at hrequest'
  obtain rfl := ok.inj hrequest'
  have hmark : r₁.refused.testBit i = true := by
    obtain ⟨-, hrefused, -⟩ := hcase.of_handedBack hback
    rw [hrefused, Nat.testBit_or, testBit_refusalBit hi, Bool.or_true]
  have hafter : (range (i + 1)).foldlM (routePass1 d env s.activeCount) (s.startRoute amount totalAfter) =
      .ok r₁ := by
    rw [range_succ, foldlM_append, hbefore, ok_bind, foldlM_cons, hround]
    rfl
  refine foldlM_range_invariant_from (P := fun _ r => r.refused.testBit i = true) hlt ?_ hafter hmark hpass
  intro k r r' _ _ hr hround
  obtain ⟨_, _, hnext⟩ := routePass1_round hround
  exact hnext.testBit_mono hr

private theorem not_askedInPass2_of_marked {amount : Nat}
    (h : ∀ r, s.indices.foldlM (routePass1 d env s.activeCount) (s.startRoute amount totalAfter) = .ok r →
      r.refused.testBit i = true) : ¬ s.AskedInPass2 d env amount totalAfter i := by
  rintro ⟨r, r', request, hpass, -, -, -, hrun, hrequest, hpos⟩
  have hmark : r'.refused.testBit i = true := by
    refine foldlM_invariant (P := fun r => r.refused.testBit i = true) ?_ (h r hpass) hrun
    intro r k r' _ hr hround
    obtain ⟨request, -, ⟨-, rfl⟩ | ⟨-, placed, vault, -, rfl⟩⟩ := routePass2_round hround
    · exact hr
    · exact hr
  have hnone : request = 0 := by
    unfold pass2Request at hrequest
    split at hrequest
    · exact (ok.inj hrequest).symm
    obtain ⟨e, -, hrequest⟩ := bind_eq_ok.1 hrequest
    rw [if_pos (.inr hmark)] at hrequest
    exact (ok.inj hrequest).symm
  omega

variable {rank share : Nat}

theorem slice_le_equalWeightBalance {total : Nat} (hactive : active ≠ 0)
    (h : equalWeightBalance total rank active = .ok share) : total * weightBps active rank / maxBps ≤ share := by
  have hslice := ((equalWeightBalance_eq_ok hactive).1 h).2
  have hsplit : total * cumBps active rank / maxBps + total * weightBps active rank / maxBps ≤
      (total * cumBps active rank + total * weightBps active rank) / maxBps := Nat.div_add_div_le_add_div
  rw [← mul_add, ← cumBps_succ] at hsplit
  omega

variable {cap : Nat}

private theorem ceiling_le_slice {e : AdapterInfo} (he : s.adapters[i]? = some e)
    (h : s.ceiling env totalAfter i = .ok cap) : cap ≤ totalAfter * e.capBps / maxBps := by
  simp only [ceiling, entry_eq_ok.2 he, ok_bind, bind_eq_ok, mul_eq_ok] at h
  obtain ⟨-, ⟨-, rfl⟩, h⟩ := h
  split at h
  · rename_i hcap
    cases h
    exact hcap.2.2.2.le
  cases h
  exact le_rfl

private theorem ceiling_le_share {e : AdapterInfo} (he : s.adapters[i]? = some e)
    (hactive : active ≠ 0) (hle : e.capBps ≤ weightBps active rank)
    (hshare : equalWeightBalance totalAfter rank active = .ok share) (hcap : s.ceiling env totalAfter i = .ok cap) :
    cap ≤ share :=
  calc cap ≤ totalAfter * e.capBps / maxBps := ceiling_le_slice he hcap
    _ ≤ totalAfter * weightBps active rank / maxBps := Nat.div_le_div_right (Nat.mul_le_mul_left _ hle)
    _ ≤ share := slice_le_equalWeightBalance hactive hshare

/-- Pass 1 before entry `k`, without any headroom so far while something remains to be placed. -/
structure NoHeadroom (s : Vault σ) (k : Nat) (r : Route σ) : Prop where
  adapters : r.vault.adapters = s.adapters
  rank : r.remaining ≠ 0 → r.rank = s.activeBelow k
  none : r.remaining ≠ 0 → r.capHeadroom = 0

theorem activeCount_ne_zero {e : AdapterInfo} (he : s.adapters[i]? = some e) (hact : e.active = true) :
    s.activeCount ≠ 0 :=
  (countP_pos_iff.2 ⟨e, mem_of_getElem? he, hact⟩).ne'

/-- An entry whose cap is no higher than its slice adds none. -/
theorem NoHeadroom.round (h : s.NoHeadroom i r) (hround : Pass1Round d env s.activeCount r i request r')
    (hcaps : ∀ e, s.adapters[i]? = some e → e.active = true → e.capBps ≤ weightBps s.activeCount (s.activeBelow i)) :
    s.NoHeadroom (i + 1) r' := by
  have hadapters : r'.vault.adapters = s.adapters := hround.frame.1.trans h.adapters
  cases hround with
  | done hdone => exact ⟨hadapters, fun hpos => absurd hdone hpos, fun hpos => absurd hdone hpos⟩
  | inactive e he hinactive =>
    refine ⟨hadapters, fun hpos => ?_, h.none⟩
    rw [activeBelow_succ (h.adapters ▸ he), hinactive, h.rank hpos]
    rfl
  | unusable e he hact =>
    refine ⟨hadapters, fun hpos => ?_, h.none⟩
    rw [activeBelow_succ (h.adapters ▸ he), hact, ← h.rank hpos]
    rfl
  | full e he hact share cap current hshare hcap hfull =>
    refine ⟨hadapters, fun hpos => ?_, fun hpos => ?_⟩
    · rw [activeBelow_succ (h.adapters ▸ he), hact, ← h.rank hpos]
      rfl
    · have he' : s.adapters[i]? = some e := h.adapters ▸ he
      have hle : cap ≤ share := ceiling_le_share he (activeCount_ne_zero he' hact)
        (h.rank hpos ▸ hcaps e he' hact) hshare hcap
      have hnone := h.none hpos
      dsimp only
      omega
  | kept e he hact share cap current x hshare hcap hx hroom vault hallocate =>
    refine ⟨hadapters, fun hpos => ?_, fun hpos => ?_⟩
    all_goals dsimp only at hpos
    · rw [activeBelow_succ (h.adapters ▸ he), hact, ← h.rank (by omega)]
      rfl
    · have he' : s.adapters[i]? = some e := h.adapters ▸ he
      have hle : cap ≤ share := ceiling_le_share he (activeCount_ne_zero he' hact)
        (h.rank (by omega) ▸ hcaps e he' hact) hshare hcap
      have hnone := h.none (by omega)
      -- something remains, so the entry was filled to its cap
      dsimp only
      omega
  | refused e he hact x placed hplaced hx vault hallocate =>
    refine ⟨hadapters, fun hpos => ?_, fun hpos => h.none ?_⟩
    all_goals dsimp only at hpos
    · rw [activeBelow_succ (h.adapters ▸ he), hact, ← h.rank (by omega)]
      rfl
    · omega

private theorem NoHeadroom.handedBack (h : s.NoHeadroom i r) (hround : Pass1Round d env s.activeCount r i request r')
    (hback : r.remaining < r'.remaining + request) : s.NoHeadroom (i + 1) r' := by
  obtain ⟨hpos, -, hheadroom, hrank, e, he, hact⟩ := hround.of_handedBack hback
  refine ⟨hround.frame.1.trans h.adapters, fun _ => ?_, fun _ => ?_⟩
  · rw [hrank, activeBelow_succ (h.adapters ▸ he), hact, h.rank hpos]
    rfl
  · rw [hheadroom, h.none hpos]

/-- An active entry `e` from position 256 on, and beside it another active one `f` with a cap above its slice. -/
structure Overlooks (adapters : List AdapterInfo) (i j : Nat) (e f : AdapterInfo) : Prop where
  beyond : 256 ≤ i
  ne : i ≠ j
  entry : adapters[i]? = some e
  other : adapters[j]? = some f
  active : e.active = true
  otherActive : f.active = true
  room : weightBps (adapters.countP (·.active)) ((adapters.take j).countP (·.active)) < f.capBps

def Forgettable (adapters : List AdapterInfo) : Prop := ∃ i j e f, Overlooks adapters i j e f

def RefusalsRemembered (d : Deployment) (env : Outside σ) (s : Vault σ) (amount totalAfter : Nat) : Prop :=
  ∀ i, s.HandsBackInPass1 d env amount totalAfter i ∨ s.RevertsInPass1 d env amount totalAfter i →
    ¬ s.AskedInPass2 d env amount totalAfter i

private theorem RevertsInPass1.not_askedInPass2 {amount : Nat} (h : s.RevertsInPass1 d env amount totalAfter i) :
    ¬ s.AskedInPass2 d env amount totalAfter i := by
  obtain ⟨r, request, reason, hbefore, hlt, -, -, hround⟩ := h
  rintro ⟨_, _, _, hpass, _⟩
  obtain ⟨_, hround'⟩ := foldlM_range_round hlt hbefore hpass
  rw [hround] at hround'
  cases hround'

private theorem no_pass2_of_refusal {amount : Nat} (hforget : ¬ Forgettable s.adapters) (hi : 256 ≤ i)
    (h : s.HandsBackInPass1 d env amount totalAfter i)
    (hpass : s.indices.foldlM (routePass1 d env s.activeCount) (s.startRoute amount totalAfter) = .ok r) :
    r.remaining ≠ 0 → r.capHeadroom = 0 := by
  obtain ⟨r₀, r₁, request, hbefore, hlt, hrequest, hround, hback⟩ := h
  obtain ⟨request', hrequest', hcase⟩ := routePass1_round hround
  rw [hrequest] at hrequest'
  obtain rfl := ok.inj hrequest'
  have hafter : (range (i + 1)).foldlM (routePass1 d env s.activeCount) (s.startRoute amount totalAfter) =
      .ok r₁ := by
    rw [range_succ, foldlM_append, hbefore, ok_bind, foldlM_cons, hround]
    rfl
  obtain ⟨-, -, -, -, e, he, hact⟩ := hcase.of_handedBack hback
  -- the registry does not change on the way to entry `i`
  have hadapters : r₀.vault.adapters = s.adapters := by
    refine foldlM_invariant (P := fun r => r.vault.adapters = s.adapters) ?_ rfl hbefore
    intro r k r' _ hr hstep
    obtain ⟨_, _, hnext⟩ := routePass1_round hstep
    exact hnext.frame.1.trans hr
  have hcaps : ∀ j, j ≠ i → ∀ f, s.adapters[j]? = some f → f.active = true →
      f.capBps ≤ weightBps s.activeCount (s.activeBelow j) := by
    intro j hj f hf hf'
    by_contra hlow
    exact hforget ⟨i, j, e, f, hi, hj.symm, hadapters ▸ he, hf, hact, hf', Nat.lt_of_not_le hlow⟩
  have hstart : s.NoHeadroom i r₀ := by
    refine foldlM_range_invariant (P := fun k r => s.NoHeadroom k r) ?_ ⟨rfl, fun _ =>
      by simp [startRoute, activeBelow], fun _ => rfl⟩ hbefore
    intro k r r' hk hr hstep
    obtain ⟨_, _, hnext⟩ := routePass1_round hstep
    exact hr.round hnext (hcaps k (by omega))
  have hend : s.NoHeadroom s.adapters.length r := by
    refine foldlM_range_invariant_from (P := fun k r => s.NoHeadroom k r) hlt ?_ hafter (hstart.handedBack hcase hback)
      hpass
    intro k r r' hk _ hr hstep
    obtain ⟨_, _, hnext⟩ := routePass1_round hstep
    exact hr.round hnext (hcaps k (by omega))
  exact hend.none

private theorem refusalsRemembered_of_not_forgettable {amount : Nat} (hforget : ¬ Forgettable s.adapters) :
    RefusalsRemembered d env s amount totalAfter := by
  rintro i (href | href)
  swap
  · exact href.not_askedInPass2
  by_cases hi : i < 256
  · exact not_askedInPass2_of_marked fun r hpass => href.marked hi hpass
  rintro ⟨r, r', request, hpass, hremaining, hheadroom, -⟩
  have := no_pass2_of_refusal hforget (by omega) href hpass
  omega

end Vault

def Outside.refusing (d : Deployment) (balance : Address → Nat) : Outside Unit where
  codehash := fun _ _ => 0
  usdcView := fun _ _ => ⟨true, 32, d.usdc⟩
  vaultView := fun _ _ => ⟨true, 32, d.vault⟩
  maxExposure := fun _ _ => ⟨false, 0, 0⟩
  venueWithdrawable := fun _ _ => ⟨false, 0, 0⟩
  totalAssets := fun _ a => .returned (balance a)
  withdraw := fun _ _ _ => .reverted
  deploy := fun _ a x => .returned ⟨0, [.moveUsdc a d.vault x], ()⟩
  setMaxExposure := fun _ _ _ => .reverted

def Vault.stocked (d : Deployment) (adapters : List AdapterInfo) (allowed : Address → Bool) (amount : Nat)
    (trace : List Event) : Vault Unit where
  adapters := adapters
  allowed := allowed
  codeHashAllowed := fun _ => true
  openExclusionOf := fun _ => 0
  book := .init (update (fun _ => 0) d.vault amount)
  allowance := fun _ _ => 0
  tvlCap := maxUint
  perDepositCap := maxUint
  exitFeeBps := 0
  feeRecipient := 0
  shutdown := false
  retired := false
  registry := 0
  depositsPaused := false
  maxRebalanceBpsPerCall := 0
  minRebalanceInterval := 0
  lastRebalanceAt := 0
  hasRole := fun _ _ => false
  hidden := ()
  trace := trace

namespace Vault

open List Function Finset

section Stocked

variable {d : Deployment} {adapters : List AdapterInfo} {allowed : Address → Bool} {amount : Nat} {trace : List Event}
  {balance : Address → Nat}

private theorem answers_self (a : Address) : answers ⟨true, 32, a⟩ a = .ok true := by
  simp [answers, decodeAddress]

private theorem stocked_isEligible (a : Address) :
    (stocked d adapters allowed amount trace).isEligible d (.refusing d balance) a = .ok (allowed a) := by
  unfold isEligible
  cases h : allowed a
  · simp [stocked, h]
  · simp [stocked, h, Outside.refusing, answers_self]

variable {k : Nat} {g : AdapterInfo}

private theorem stocked_isUsable (hg : adapters[k]? = some g) :
    (stocked d adapters allowed amount trace).isUsable d (.refusing d balance) k = .ok (allowed g.adapter) := by
  have hentry : (stocked d adapters allowed amount trace).entry k = .ok g := entry_eq_ok.2 hg
  have hopen : ¬(stocked d adapters allowed amount trace).openExclusionOf k ≠ 0 := fun h => h rfl
  unfold isUsable
  rw [if_neg hopen, hentry, ok_bind, stocked_isEligible]

theorem stocked_ceiling {totalAfter : Nat} (hg : adapters[k]? = some g) (hword : totalAfter * g.capBps < wordSize) :
    (stocked d adapters allowed amount trace).ceiling (.refusing d balance) totalAfter k =
      .ok (totalAfter * g.capBps / maxBps) := by
  have hentry : (stocked d adapters allowed amount trace).entry k = .ok g := entry_eq_ok.2 hg
  simp [ceiling, hentry, mul, hword, Outside.refusing]

theorem stocked_idle (trace : List Event) : (stocked d adapters allowed amount trace).book.usdc d.vault = amount := by
  simp [stocked, ShareBook.init]

variable {x : Nat}

private theorem moveBalance_back {b : Balances} {source target : Address} (h : source ≠ target)
    (hx : x ≤ b source) : moveBalance (moveBalance b source target x) target source x = b := by
  funext a
  by_cases hs : a = source
  · subst hs
    rw [moveBalance_target h.symm, moveBalance_source h]
    omega
  by_cases ht : a = target
  · subst ht
    rw [moveBalance_source h.symm, moveBalance_target h]
    omega
  · rw [moveBalance_of_ne ht hs, moveBalance_of_ne hs ht]

/-- An allocation that is refused leaves its entry in the trace and nothing else. -/
theorem stocked_allocate (hg : adapters[k]? = some g) (hallowed : allowed g.adapter = true)
    (h0 : g.adapter ≠ 0) (hvault : g.adapter ≠ d.vault) (hledger : g.adapter ≠ d.ledger) (hx : x ≤ amount)
    (hword : amount + x < wordSize) :
    ∃ trace', (stocked d adapters allowed amount trace).allocate d (.refusing d balance) k x =
      .ok (0, stocked d adapters allowed amount trace') := by
  let s := stocked d adapters allowed amount trace
  have heligible : s.requireEligible d (.refusing d balance) g.adapter = .ok () :=
    requireEligible_of_isEligible ((stocked_isEligible g.adapter).trans (congrArg _ hallowed))
  have hentry : s.entry k = .ok g := entry_eq_ok.2 hg
  have hidle : ∀ trace, (stocked d adapters allowed amount trace).book.usdc d.vault = amount := stocked_idle
  have hpay : moveUsdc s.book.usdc d.vault g.adapter x = .ok (moveBalance s.book.usdc d.vault g.adapter x) :=
    moveUsdc_eq_ok.2 ⟨h0, by rw [hidle]; exact hx, rfl⟩
  -- the adapter's transfer undoes that of the vault
  have hback : outsideStep d { s.book with usdc := moveBalance s.book.usdc d.vault g.adapter x }
      (.moveUsdc g.adapter d.vault x) = .ok s.book := by
    have hreturn : moveUsdc (moveBalance s.book.usdc d.vault g.adapter x) g.adapter d.vault x = .ok s.book.usdc := by
      refine moveUsdc_eq_ok.2 ⟨d.vault_ne_zero, ?_, (moveBalance_back hvault.symm (by rw [hidle]; exact hx)).symm⟩
      rw [moveBalance_target hvault.symm]
      exact Nat.le_add_left _ _
    simp only [outsideStep, bookStep, OutsideCall.toBook, revertIf_of_not _ hvault, revertIf_of_not _ hledger, ok_bind,
      hreturn]
  refine ⟨trace ++ [.contacted g.adapter s.book.snapshots], ?_⟩
  have hafter : ({ s with book := { s.book with usdc := moveBalance s.book.usdc d.vault g.adapter x } }.contact
        g.adapter).applyEffect d ⟨0, [.moveUsdc g.adapter d.vault x], ()⟩ =
      stocked d adapters allowed amount (trace ++ [.contacted g.adapter s.book.snapshots]) := by
    simp only [applyEffect, contact, run_cons, run_nil, exec_of_ok hback]
    rfl
  have hdeploy : (Outside.refusing d balance).deploy () g.adapter x =
    .returned ⟨0, [.moveUsdc g.adapter d.vault x], ()⟩ := rfl
  unfold allocate
  rw [hentry, ok_bind, heligible, ok_bind, hpay, ok_bind]
  unfold callDeploy
  rw [show ({ s with book := { s.book with usdc := moveBalance s.book.usdc d.vault g.adapter x } } :
      Vault Unit).hidden = () from rfl, hdeploy]
  simp only [Reply.value, ok_bind]
  rw [hafter]
  unfold idle
  rw [hidle, hidle, add, if_pos hword, ok_bind, sub, if_pos (Nat.le_add_right _ _), ok_bind, Nat.add_sub_cancel_left,
    Nat.sub_self]

end Stocked

/-- What `addAdapter` and `setAdapterCap` check of the entries. -/
structure RegistryFits (adapters : List AdapterInfo) : Prop where
  caps : ∀ e ∈ adapters, 0 < e.capBps ∧ e.capBps ≤ maxBps
  ne_zero : ∀ e ∈ adapters, e.adapter ≠ 0
  distinct : ∀ (i j : Nat) (e f : AdapterInfo), adapters[i]? = some e → adapters[j]? = some f → e.active = true →
    f.active = true → e.adapter = f.adapter → i = j
  count : adapters.countP (·.active) ≤ maxAdapters

variable {rank : Nat}

theorem weightBps_pos {active : Nat} (hpos : 0 < active) (hle : active ≤ maxAdapters) : 0 < weightBps active rank :=
  Nat.add_pos_left (Nat.div_pos (hle.trans (by decide)) hpos) _

private theorem equalWeightBalance_maxBps {active : Nat} (hrank : rank < active) :
    equalWeightBalance maxBps rank active = .ok (weightBps active rank) := by
  have hpos : 0 < maxBps := by decide
  refine (equalWeightBalance_eq_ok (by omega)).2 ⟨(mul_cumBps_le hrank).trans_lt (by decide), ?_⟩
  rw [Nat.mul_div_cancel_left _ hpos, Nat.mul_div_cancel_left _ hpos, cumBps_succ]

section Forgotten

variable {d : Deployment} {adapters : List AdapterInfo} {i j : Nat} {e f : AdapterInfo}

/-- The slice of `f`, which is also the balance it reports. -/
def fullBalance (adapters : List AdapterInfo) (j : Nat) : Nat :=
  weightBps (adapters.countP (·.active)) ((adapters.take j).countP (·.active))

/-- Only `e`, which is empty, and `f`, which holds its slice, are eligible; a deposit has brought the rest of
`maxBps`. -/
def forgetful (d : Deployment) (adapters : List AdapterInfo) (j : Nat) (e f : AdapterInfo) (trace : List Event) :
    Vault Unit :=
  stocked d adapters (fun a => a = e.adapter ∨ a = f.adapter) (maxBps - fullBalance adapters j) trace

def fullOutside (d : Deployment) (adapters : List AdapterInfo) (j : Nat) (f : AdapterInfo) : Outside Unit :=
  .refusing d (update (fun _ => 0) f.adapter (fullBalance adapters j))

/-- Pass 1 before entry `k`. -/
def forgetfulRoute (d : Deployment) (adapters : List AdapterInfo) (j : Nat) (e f : AdapterInfo) (trace : List Event)
    (k : Nat) : Route Unit where
  vault := forgetful d adapters j e f trace
  totalAfter := maxBps
  remaining := maxBps - fullBalance adapters j
  capHeadroom := if j < k then f.capBps - fullBalance adapters j else 0
  refused := 0
  rank := (adapters.take k).countP (·.active)
  cachedBalance := update (fun _ => 0) j (if j < k then fullBalance adapters j + 1 else 0)

variable (h : Overlooks adapters i j e f) (hfits : RegistryFits adapters)

include h hfits

private theorem Overlooks.full : 0 < fullBalance adapters j ∧ fullBalance adapters j < maxBps := by
  have hpos : 0 < adapters.countP (·.active) := countP_pos_iff.2 ⟨f, mem_of_getElem? h.other, h.otherActive⟩
  exact ⟨weightBps_pos hpos hfits.count, h.room.trans_le (hfits.caps f (mem_of_getElem? h.other)).2⟩

private theorem Overlooks.adapter_ne : e.adapter ≠ f.adapter := fun heq =>
  h.ne (hfits.distinct i j e f h.entry h.other h.active h.otherActive heq)

variable {k : Nat} {g : AdapterInfo}

private theorem Overlooks.isUsable_other {trace : List Event} (hg : adapters[k]? = some g)
    (hact : g.active = true) (hi : k ≠ i) (hj : k ≠ j) :
    (forgetful d adapters j e f trace).isUsable d (fullOutside d adapters j f) k = .ok false := by
  refine (stocked_isUsable hg).trans (congrArg _ (decide_eq_false ?_))
  rintro (heq | heq)
  · exact hi (hfits.distinct k i g e hg h.entry hact h.active heq)
  · exact hj (hfits.distinct k j g f hg h.other hact h.otherActive heq)

omit h in
private theorem RegistryFits.ceiling {trace : List Event} (hg : adapters[k]? = some g) :
    (forgetful d adapters j e f trace).ceiling (fullOutside d adapters j f) maxBps k = .ok g.capBps := by
  have hcap := (hfits.caps g (mem_of_getElem? hg)).2
  have hword : maxBps * g.capBps < wordSize := (Nat.mul_le_mul_left _ hcap).trans_lt (by decide)
  refine (stocked_ceiling hg hword).trans ?_
  rw [Nat.mul_div_cancel_left _ (by decide)]

private theorem Overlooks.reported_entry (trace : List Event) :
    (forgetful d adapters j e f trace).reported (fullOutside d adapters j f) e.adapter = .ok 0 := by
  show ok (update (fun _ => 0) f.adapter (fullBalance adapters j) e.adapter) = _
  rw [update_of_ne (h.adapter_ne hfits)]

omit h hfits in
private theorem forgetful_reported_other {trace : List Event} :
    (forgetful d adapters j e f trace).reported (fullOutside d adapters j f) f.adapter =
      .ok (fullBalance adapters j) := by
  show ok (update (fun _ => 0) f.adapter (fullBalance adapters j) f.adapter) = _
  rw [update_self]

omit h hfits in
private theorem countP_take_succ (hg : adapters[k]? = some g) :
    (adapters.take (k + 1)).countP (·.active) = (adapters.take k).countP (·.active) + (if g.active then 1 else 0) := by
  rw [take_add_one, hg, countP_append]
  simp [countP_cons]

omit h hfits in
private theorem countP_take_lt (hg : adapters[k]? = some g) (hact : g.active = true) :
    (adapters.take k).countP (·.active) < adapters.countP (·.active) := by
  have := (take_sublist (k + 1) adapters).countP_le (p := (·.active))
  rw [countP_take_succ hg, if_pos hact] at this
  exact this

private theorem Overlooks.pass1_other {trace : List Event} :
    routePass1 d (fullOutside d adapters j f) (adapters.countP (·.active))
      (forgetfulRoute d adapters j e f trace j) j = .ok (forgetfulRoute d adapters j e f trace (j + 1)) := by
  obtain ⟨hfull, hrest⟩ := h.full hfits
  have hremaining : ¬(forgetfulRoute d adapters j e f trace j).remaining = 0 := Nat.sub_ne_zero_of_lt hrest
  have hentry : (forgetfulRoute d adapters j e f trace j).vault.entry j = .ok f := entry_eq_ok.2 h.other
  have hleg : (forgetful d adapters j e f trace).entry j = .ok f := hentry
  have hshare : equalWeightBalance maxBps ((adapters.take j).countP (·.active)) (adapters.countP (·.active)) =
      .ok (fullBalance adapters j) := equalWeightBalance_maxBps (countP_take_lt h.other h.otherActive)
  have husable : (forgetful d adapters j e f trace).isUsable d (fullOutside d adapters j f) j = .ok true :=
    (stocked_isUsable h.other).trans (congrArg _ (decide_eq_true (.inr rfl)))
  have hcap := (hfits.caps f (mem_of_getElem? h.other)).2
  have hword : f.capBps + maxBps < wordSize := (Nat.add_le_add_right hcap _).trans_lt (by decide)
  unfold routePass1
  rw [if_neg hremaining, hentry, ok_bind]
  simp only [forgetfulRoute]
  rw [if_neg (by simp [h.otherActive]), hshare, ok_bind, husable, ok_bind,
    if_pos rfl]
  simp only [pass1Leg]
  rw [hfits.ceiling h.other, ok_bind, hleg, ok_bind, forgetful_reported_other, ok_bind, if_pos (min_le_left _ _)]
  simp only [add, update_idem, if_neg (lt_irrefl j), if_pos (Nat.lt_succ_self j), zero_add,
    countP_take_succ h.other, h.otherActive, if_true]
  rw [if_pos (by omega), ok_bind, if_pos (by omega), ok_bind]

private theorem Overlooks.pass1_rest {trace : List Event} (hk : k < adapters.length) (hi : k ≠ i) (hj : k ≠ j) :
    routePass1 d (fullOutside d adapters j f) (adapters.countP (·.active))
      (forgetfulRoute d adapters j e f trace k) k = .ok (forgetfulRoute d adapters j e f trace (k + 1)) := by
  obtain ⟨g, hg⟩ : ∃ g, adapters[k]? = some g := ⟨_, getElem?_eq_getElem hk⟩
  obtain ⟨hfull, hrest⟩ := h.full hfits
  have hremaining : ¬(forgetfulRoute d adapters j e f trace k).remaining = 0 := Nat.sub_ne_zero_of_lt hrest
  have hentry : (forgetfulRoute d adapters j e f trace k).vault.entry k = .ok g := entry_eq_ok.2 hg
  have hlt : j < k + 1 ↔ j < k := by omega
  unfold routePass1
  rw [if_neg hremaining, hentry, ok_bind]
  simp only [forgetfulRoute]
  by_cases hact : g.active = true
  · rw [if_neg (by simp [hact]), equalWeightBalance_maxBps (countP_take_lt hg hact), ok_bind,
      h.isUsable_other hfits hg hact hi hj, ok_bind]
    simp [hlt, countP_take_succ hg, hact]
  rw [if_pos (by simpa using hact)]
  simp [hlt, countP_take_succ hg, hact]

variable (hvault : e.adapter ≠ d.vault ∧ f.adapter ≠ d.vault) (hledger : e.adapter ≠ d.ledger ∧ f.adapter ≠ d.ledger)

include hvault hledger

omit h in
private theorem RegistryFits.allocate (trace : List Event) {x : Nat} (hg : adapters[k]? = some g)
    (heq : g.adapter = e.adapter ∨ g.adapter = f.adapter) (hx : x ≤ maxBps - fullBalance adapters j) :
    ∃ trace', (forgetful d adapters j e f trace).allocate d (fullOutside d adapters j f) k x =
      .ok (0, forgetful d adapters j e f trace') := by
  have hword : maxBps - fullBalance adapters j + x < wordSize := by
    have : maxBps + maxBps < wordSize := by decide
    omega
  have hapart : g.adapter ≠ d.vault ∧ g.adapter ≠ d.ledger := by
    rcases heq with heq | heq
    · exact ⟨heq ▸ hvault.1, heq ▸ hledger.1⟩
    · exact ⟨heq ▸ hvault.2, heq ▸ hledger.2⟩
  exact stocked_allocate hg (decide_eq_true heq) (hfits.ne_zero g (mem_of_getElem? hg)) hapart.1 hapart.2 hx hword

private theorem Overlooks.pass1_entry (trace : List Event) : ∃ request trace', 0 < request ∧
      pass1Request d (fullOutside d adapters j f) (adapters.countP (·.active))
        (forgetfulRoute d adapters j e f trace i) i = .ok request ∧
      routePass1 d (fullOutside d adapters j f) (adapters.countP (·.active))
        (forgetfulRoute d adapters j e f trace i) i = .ok (forgetfulRoute d adapters j e f trace' (i + 1)) := by
  obtain ⟨hfull, hrest⟩ := h.full hfits
  have hremaining : ¬(forgetfulRoute d adapters j e f trace i).remaining = 0 := Nat.sub_ne_zero_of_lt hrest
  have hentry : (forgetfulRoute d adapters j e f trace i).vault.entry i = .ok e := entry_eq_ok.2 h.entry
  have hleg : (forgetful d adapters j e f trace).entry i = .ok e := hentry
  have hshare := equalWeightBalance_maxBps (countP_take_lt h.entry h.active)
  have husable : (forgetful d adapters j e f trace).isUsable d (fullOutside d adapters j f) i = .ok true :=
    (stocked_isUsable h.entry).trans (congrArg _ (decide_eq_true (.inl rfl)))
  have hslice : 0 < weightBps (adapters.countP (·.active)) ((adapters.take i).countP (·.active)) :=
    weightBps_pos (countP_pos_iff.2 ⟨e, mem_of_getElem? h.entry, h.active⟩) hfits.count
  have hcap := (hfits.caps e (mem_of_getElem? h.entry)).1
  generalize hw : weightBps (adapters.countP (·.active)) ((adapters.take i).countP (·.active)) = w at hshare hslice
  have hpos : 0 < min (min w e.capBps - 0) (maxBps - fullBalance adapters j) := by omega
  obtain ⟨trace', hallocate⟩ := hfits.allocate hvault hledger trace h.entry (.inl rfl)
    (min_le_right (min w e.capBps - 0) (maxBps - fullBalance adapters j))
  refine ⟨_, trace', hpos, ?_, ?_⟩
  · unfold pass1Request
    rw [if_neg hremaining, hentry, ok_bind]
    simp only [forgetfulRoute]
    rw [if_neg (by simp [h.active]), hshare, ok_bind, husable, ok_bind, if_pos rfl,
      hfits.ceiling h.entry, ok_bind, h.reported_entry hfits trace, ok_bind]
  · have hcached : update (update (fun _ => 0) j (if j < i then fullBalance adapters j + 1 else 0)) i 0 =
        update (fun _ => 0) j (if j < i then fullBalance adapters j + 1 else 0) := by
      rw [update_eq_self_iff, update_of_ne h.ne]
    have hlt : j < i + 1 ↔ j < i := by
      have := h.ne
      omega
    unfold routePass1
    rw [if_neg hremaining, hentry, ok_bind]
    simp only [forgetfulRoute]
    rw [if_neg (by simp [h.active]), hshare, ok_bind, husable, ok_bind, if_pos rfl]
    simp only [pass1Leg]
    rw [hfits.ceiling h.entry, ok_bind, hleg, ok_bind, h.reported_entry hfits trace, ok_bind, if_neg (by omega),
      hallocate, ok_bind]
    simp only [sub, zero_le, if_true, ok_bind, if_pos hpos, refusalBit_eq_zero h.beyond, hcached, hlt,
      countP_take_succ h.entry, h.active]
    rfl

omit h in
private theorem RegistryFits.pass2_asked (trace : List Event) {current : Nat}
    (hg : adapters[k]? = some g) (hact : g.active = true) (heq : g.adapter = e.adapter ∨ g.adapter = f.adapter)
    (hrest : fullBalance adapters j < maxBps)
    (hbalance : pass2Balance (fullOutside d adapters j f) (forgetfulRoute d adapters j e f trace adapters.length)
      g.adapter ((forgetfulRoute d adapters j e f trace adapters.length).cachedBalance k) = .ok current)
    (hroom : current < g.capBps) : ∃ request trace', 0 < request ∧
      pass2Request d (fullOutside d adapters j f) true (forgetfulRoute d adapters j e f trace adapters.length) k =
        .ok request ∧
      routePass2 d (fullOutside d adapters j f) true (forgetfulRoute d adapters j e f trace adapters.length) k =
        .ok (forgetfulRoute d adapters j e f trace' adapters.length) := by
  have hremaining : ¬(forgetfulRoute d adapters j e f trace adapters.length).remaining = 0 :=
    Nat.sub_ne_zero_of_lt hrest
  have hentry : (forgetfulRoute d adapters j e f trace adapters.length).vault.entry k = .ok g := entry_eq_ok.2 hg
  have husable : (forgetful d adapters j e f trace).isUsable d (fullOutside d adapters j f) k = .ok true :=
    (stocked_isUsable hg).trans (congrArg _ (decide_eq_true heq))
  have hasked : ¬(g.active = false ∨ (forgetfulRoute d adapters j e f trace adapters.length).refused.testBit k =
      true) := by
    simp [hact, forgetfulRoute]
  have hpos : 0 < min (g.capBps - current) (maxBps - fullBalance adapters j) := by omega
  obtain ⟨trace', hallocate⟩ := hfits.allocate hvault hledger trace hg heq
    (min_le_right (g.capBps - current) (maxBps - fullBalance adapters j))
  refine ⟨_, trace', hpos, ?_, ?_⟩
  · unfold pass2Request
    rw [if_neg hremaining, hentry, ok_bind, if_neg hasked, if_pos rfl, hbalance]
    simp only [forgetfulRoute]
    rw [husable, ok_bind, if_pos rfl, ok_bind, hfits.ceiling hg, ok_bind]
  · unfold routePass2
    rw [if_neg hremaining, hentry, ok_bind, if_neg hasked, if_pos rfl, hbalance]
    simp only [forgetfulRoute]
    rw [husable, ok_bind, if_pos rfl, ok_bind, hfits.ceiling hg, ok_bind, if_neg (by omega), hallocate, ok_bind]
    simp only [sub, zero_le, if_true, ok_bind, Nat.sub_zero]

private theorem Overlooks.pass2_entry (trace : List Event) : ∃ request trace', 0 < request ∧
      pass2Request d (fullOutside d adapters j f) true (forgetfulRoute d adapters j e f trace adapters.length) i =
        .ok request ∧
      routePass2 d (fullOutside d adapters j f) true (forgetfulRoute d adapters j e f trace adapters.length) i =
        .ok (forgetfulRoute d adapters j e f trace' adapters.length) := by
  refine hfits.pass2_asked hvault hledger trace h.entry h.active (.inl rfl) (h.full hfits).2 ?_
    (hfits.caps e (mem_of_getElem? h.entry)).1
  have huncached : (forgetfulRoute d adapters j e f trace adapters.length).cachedBalance i = 0 := by
    simp [forgetfulRoute, h.ne]
  rw [huncached]
  exact h.reported_entry (d := d) hfits trace

private theorem Overlooks.pass2_other (trace : List Event) :
    ∃ trace', routePass2 d (fullOutside d adapters j f) true (forgetfulRoute d adapters j e f trace adapters.length) j =
      .ok (forgetfulRoute d adapters j e f trace' adapters.length) := by
  have hj : j < adapters.length := (List.getElem?_eq_some_iff.1 h.other).1
  obtain ⟨-, trace', -, -, hround⟩ := hfits.pass2_asked hvault hledger trace h.other h.otherActive (.inr rfl)
    (h.full hfits).2 (by simp [pass2Balance, forgetfulRoute, hj]; rfl) h.room
  exact ⟨trace', hround⟩

omit hvault hledger in
private theorem Overlooks.pass2_rest {trace : List Event} (hk : k < adapters.length) (hi : k ≠ i) (hj : k ≠ j) :
    routePass2 d (fullOutside d adapters j f) true (forgetfulRoute d adapters j e f trace adapters.length) k =
      .ok (forgetfulRoute d adapters j e f trace adapters.length) := by
  obtain ⟨g, hg⟩ : ∃ g, adapters[k]? = some g := ⟨_, getElem?_eq_getElem hk⟩
  have hremaining : ¬(forgetfulRoute d adapters j e f trace adapters.length).remaining = 0 :=
    Nat.sub_ne_zero_of_lt (h.full hfits).2
  have hentry : (forgetfulRoute d adapters j e f trace adapters.length).vault.entry k = .ok g := entry_eq_ok.2 hg
  have hunusable : g.active = true → (forgetfulRoute d adapters j e f trace adapters.length).vault.isUsable d
      (fullOutside d adapters j f) k = .ok false := fun hact => h.isUsable_other hfits hg hact hi hj
  unfold routePass2
  rw [if_neg hremaining, hentry, ok_bind]
  split
  · rfl
  rename_i hasked
  rw [hunusable (by simpa using not_or.1 hasked |>.1), ok_bind]
  rfl

variable {n : Nat}

private theorem Overlooks.pass1_run (hn : n ≤ adapters.length) :
    ∃ trace, (List.range n).foldlM (routePass1 d (fullOutside d adapters j f) (adapters.countP (·.active)))
      ((forgetful d adapters j e f []).startRoute (maxBps - fullBalance adapters j) maxBps) =
        .ok (forgetfulRoute d adapters j e f trace n) := by
  have hstart : (forgetful d adapters j e f []).startRoute (maxBps - fullBalance adapters j) maxBps =
      forgetfulRoute d adapters j e f [] 0 := by
    simp [startRoute, forgetfulRoute]
  have hloop := foldlM_range_returns
    (f := routePass1 d (fullOutside d adapters j f) (adapters.countP (·.active)))
    (P := fun k r => ∃ trace, r = forgetfulRoute d adapters j e f trace k) (n := n) ?_ ⟨[], hstart⟩
  · obtain ⟨r, hr, trace, rfl⟩ := hloop
    exact ⟨trace, hr⟩
  · rintro k _ hk ⟨trace, rfl⟩
    by_cases hi : k = i
    · subst hi
      obtain ⟨-, trace', -, -, hround⟩ := h.pass1_entry hfits hvault hledger trace
      exact ⟨_, hround, trace', rfl⟩
    by_cases hj : k = j
    · subst hj
      exact ⟨_, h.pass1_other hfits, trace, rfl⟩
    · exact ⟨_, h.pass1_rest hfits (by omega) hi hj, trace, rfl⟩

private theorem Overlooks.pass2_run (trace : List Event) (hn : n ≤ adapters.length) :
    ∃ trace', (List.range n).foldlM (routePass2 d (fullOutside d adapters j f) true)
      (forgetfulRoute d adapters j e f trace adapters.length) =
        .ok (forgetfulRoute d adapters j e f trace' adapters.length) := by
  have hloop := foldlM_range_returns (f := routePass2 d (fullOutside d adapters j f) true)
    (P := fun _ r => ∃ trace, r = forgetfulRoute d adapters j e f trace adapters.length) (n := n) ?_ ⟨trace, rfl⟩
  · obtain ⟨r, hr, trace', rfl⟩ := hloop
    exact ⟨trace', hr⟩
  · rintro k _ hk ⟨trace, rfl⟩
    by_cases hi : k = i
    · subst hi
      obtain ⟨-, trace', -, -, hround⟩ := h.pass2_entry hfits hvault hledger trace
      exact ⟨_, hround, trace', rfl⟩
    by_cases hj : k = j
    · subst hj
      obtain ⟨trace', hround⟩ := h.pass2_other hfits hvault hledger trace
      exact ⟨_, hround, trace', rfl⟩
    · exact ⟨_, h.pass2_rest hfits (by omega) hi hj, trace, rfl⟩

omit hvault hledger in
private theorem Overlooks.totalAssets :
    (forgetful d adapters j e f []).totalAssets d (fullOutside d adapters j f) = .ok maxBps := by
  obtain ⟨hfull, hrest⟩ := h.full hfits
  have hj : j < adapters.length := (List.getElem?_eq_some_iff.1 h.other).1
  have hword : maxBps < wordSize := by decide
  have hloop := foldlM_range_returns
    (f := (forgetful d adapters j e f []).addCounted d (fullOutside d adapters j f))
    (P := fun k sum => sum = maxBps - fullBalance adapters j + (if j < k then fullBalance adapters j else 0))
    (n := adapters.length) (s := (forgetful d adapters j e f []).idle d) ?_ ?_
  · obtain ⟨nav, hnav, rfl⟩ := hloop
    rw [if_pos hj, Nat.sub_add_cancel hrest.le] at hnav
    exact hnav
  · rintro k _ hk rfl
    have hlt : k ≠ j → (j < k + 1 ↔ j < k) := by omega
    by_cases hi : k = i
    · subst hi
      have hcounted : (forgetful d adapters j e f []).isCounted d (fullOutside d adapters j f) k = .ok true :=
        isCounted_of_usable h.entry h.active ((stocked_isUsable h.entry).trans (congrArg _ (decide_eq_true (.inl rfl))))
      refine ⟨_, ?_, rfl⟩
      unfold addCounted
      rw [hcounted, ok_bind, if_pos rfl, entry_eq_ok.2 h.entry, ok_bind, h.reported_entry hfits, ok_bind]
      simp only [hlt h.ne, add, add_zero]
      exact if_pos (by split <;> omega)
    by_cases hj : k = j
    · subst hj
      have hcounted : (forgetful d adapters k e f []).isCounted d (fullOutside d adapters k f) k = .ok true :=
        isCounted_of_usable h.other h.otherActive
          ((stocked_isUsable h.other).trans (congrArg _ (decide_eq_true (.inr rfl))))
      refine ⟨_, ?_, rfl⟩
      unfold addCounted
      rw [hcounted, ok_bind, if_pos rfl, entry_eq_ok.2 h.other, ok_bind, forgetful_reported_other, ok_bind]
      simp only [add, if_neg (lt_irrefl k), if_pos (Nat.lt_succ_self k), add_zero]
      exact if_pos (by omega)
    obtain ⟨g, hg⟩ : ∃ g, adapters[k]? = some g := ⟨_, getElem?_eq_getElem hk⟩
    have hcounted : (forgetful d adapters j e f []).isCounted d (fullOutside d adapters j f) k = .ok false := by
      by_cases hact : g.active = true
      · exact isCounted_of_usable hg hact (h.isUsable_other hfits hg hact hi hj)
      unfold isCounted
      rw [entry_eq_ok.2 hg, ok_bind, if_neg hact]
    refine ⟨_, ?_, rfl⟩
    unfold addCounted
    rw [hcounted, ok_bind]
    simp [hlt hj]
  · simp [idle, forgetful, stocked_idle]

private theorem Overlooks.forgotten : (∃ s', (forgetful d adapters j e f []).routeDeposit d (fullOutside d adapters j f)
      (maxBps - fullBalance adapters j) maxBps = .ok s') ∧
    (forgetful d adapters j e f []).HandsBackInPass1 d (fullOutside d adapters j f)
    (maxBps - fullBalance adapters j) maxBps i ∧
    (forgetful d adapters j e f []).AskedInPass2 d (fullOutside d adapters j f)
    (maxBps - fullBalance adapters j) maxBps i := by
  obtain ⟨hfull, hrest⟩ := h.full hfits
  have hi : i < adapters.length := (List.getElem?_eq_some_iff.1 h.entry).1
  have hj : j < adapters.length := (List.getElem?_eq_some_iff.1 h.other).1
  have hremaining : 0 < maxBps - fullBalance adapters j := Nat.sub_pos_of_lt hrest
  obtain ⟨before, hbefore⟩ := h.pass1_run hfits hvault hledger hi.le
  obtain ⟨request, after, hrequest, hasked, hround⟩ := h.pass1_entry hfits hvault hledger before
  obtain ⟨trace, hpass⟩ := h.pass1_run hfits hvault hledger (le_refl adapters.length)
  have hcached : ((forgetfulRoute d adapters j e f trace adapters.length).remaining ==
    maxBps - fullBalance adapters j &&
      (forgetfulRoute d adapters j e f trace adapters.length).refused == 0) = true := by
    simp [forgetfulRoute]
  have hsecond : 0 < (forgetfulRoute d adapters j e f trace adapters.length).remaining ∧
      0 < (forgetfulRoute d adapters j e f trace adapters.length).capHeadroom := by
    refine ⟨hremaining, ?_⟩
    simp only [forgetfulRoute, if_pos hj]
    exact Nat.sub_pos_of_lt h.room
  refine ⟨?_, ⟨_, _, request, hbefore, hi, hasked, hround, Nat.lt_add_of_pos_right hrequest⟩, ?_⟩
  · obtain ⟨trace', hlast⟩ := h.pass2_run hfits hvault hledger trace (le_refl adapters.length)
    refine ⟨forgetful d adapters j e f trace', ?_⟩
    have hstart : (forgetful d adapters j e f []).indices.foldlM
        (routePass1 d (fullOutside d adapters j f) (forgetful d adapters j e f []).activeCount)
        ((forgetful d adapters j e f []).startRoute (maxBps - fullBalance adapters j) maxBps) =
          .ok (forgetfulRoute d adapters j e f trace adapters.length) := hpass
    unfold startRoute at hstart
    unfold routeDeposit
    rw [if_neg hremaining.ne', hstart, ok_bind, if_pos hsecond, hcached]
    exact (bind_eq_ok.2 ⟨_, hlast, rfl⟩)
  · obtain ⟨trace', hmiddle⟩ := h.pass2_run hfits hvault hledger trace hi.le
    obtain ⟨request', -, hpos, hagain, -⟩ := h.pass2_entry hfits hvault hledger trace'
    refine ⟨_, forgetfulRoute d adapters j e f trace' adapters.length, request', hpass, hsecond.1, hsecond.2,
      hi, ?_, ?_, hpos⟩
    · rw [hcached]
      exact hmiddle
    · rw [hcached]
      exact hagain

end Forgotten

private theorem exists_deployment (a b : Address) :
    ∃ d : Deployment, (a ≠ d.vault ∧ b ≠ d.vault) ∧ a ≠ d.ledger ∧ b ≠ d.ledger := by
  have hfresh : ∀ s : Finset Address, s.card < 5 → ∃ x, x ∉ s := by
    intro s hs
    obtain ⟨x, -, hx⟩ := Finset.exists_mem_notMem_of_card_lt_card (s := s) (t := {0, 1, 2, 3, 4}) hs
    exact ⟨x, hx⟩
  obtain ⟨vault, hvault⟩ := hfresh {0, a, b} (Finset.card_le_three.trans_lt (by decide))
  obtain ⟨ledger, hledger⟩ := hfresh {0, a, b, vault} (Finset.card_le_four.trans_lt (by decide))
  simp only [Finset.mem_insert, Finset.mem_singleton, not_or] at hvault hledger
  exact ⟨⟨vault, ledger, 0, hvault.1, hledger.1, hledger.2.2.2⟩, ⟨Ne.symm hvault.2.1, Ne.symm hvault.2.2⟩,
    Ne.symm hledger.2.1, Ne.symm hledger.2.2.1⟩

/-- Which registries forget a refusal: those with an active entry from position 256 on, beside another active one whose
cap is above its slice.  Calls are as the vault makes them, with its net asset value and no more than its idle USDC. -/
theorem refusals_remembered_iff (adapters : List AdapterInfo) (hfits : RegistryFits adapters) :
    (∀ (σ : Type) (d : Deployment) (env : Outside σ) (s : Vault σ) (amount totalAfter : Nat), s.adapters = adapters →
      s.totalAssets d env = .ok totalAfter → amount ≤ s.idle d → RefusalsRemembered d env s amount totalAfter) ↔
      ¬ Forgettable adapters := by
  constructor
  · rintro h ⟨i, j, e, f, hover⟩
    obtain ⟨d, hvault, hledger⟩ := exists_deployment e.adapter f.adapter
    obtain ⟨-, hback, hasked⟩ := hover.forgotten hfits hvault hledger
    have hidle : maxBps - fullBalance adapters j ≤ (forgetful d adapters j e f []).idle d := (stocked_idle []).ge
    exact h Unit d (fullOutside d adapters j f) (forgetful d adapters j e f []) _ maxBps rfl
      (hover.totalAssets hfits) hidle
      i (.inl hback) hasked
  · rintro hforget σ d env s amount totalAfter rfl - -
    exact refusalsRemembered_of_not_forgettable hforget

/-- Two adapters behind `n` removed entries. -/
def pairAfter (n : Nat) : List AdapterInfo :=
  replicate n ⟨9, 5000, false⟩ ++ [⟨7, 10000, true⟩, ⟨8, 10000, true⟩]

private theorem pairAfter_get (n k : Nat) :
    (pairAfter n)[n + k]? = ([⟨7, 10000, true⟩, ⟨8, 10000, true⟩] : List AdapterInfo)[k]? := by
  rw [pairAfter, getElem?_append_right (by simp), length_replicate, Nat.add_sub_cancel_left]

variable {n : Nat}

theorem pairAfter_active {i : Nat} {e : AdapterInfo} (he : (pairAfter n)[i]? = some e) (hact : e.active = true) :
    i = n ∧ e.adapter = 7 ∨ i = n + 1 ∧ e.adapter = 8 := by
  by_cases hi : i < n
  · rw [pairAfter, getElem?_append_left (by simpa using hi), getElem?_replicate, if_pos hi] at he
    obtain rfl := Option.some.inj he
    cases hact
  obtain ⟨k, rfl⟩ : ∃ k, i = n + k := ⟨i - n, by omega⟩
  rw [pairAfter_get] at he
  rcases k with _ | _ | k
  · exact .inl ⟨rfl, by rw [← Option.some.inj he]⟩
  · exact .inr ⟨rfl, by rw [← Option.some.inj he]⟩
  · simp at he

private theorem mem_pairAfter {e : AdapterInfo} (h : e ∈ pairAfter n) :
    e = ⟨9, 5000, false⟩ ∨ e = ⟨7, 10000, true⟩ ∨ e = ⟨8, 10000, true⟩ := by
  rcases mem_append.1 h with h | h
  · exact .inl (eq_of_mem_replicate h)
  · simpa using Or.inr h

private theorem pairAfter_count (n k : Nat) : ((pairAfter n).take (n + k)).countP (·.active) =
    (([⟨7, 10000, true⟩, ⟨8, 10000, true⟩] : List AdapterInfo).take k).countP (·.active) := by
  have htake : (pairAfter n).take (n + k) = replicate n ⟨9, 5000, false⟩ ++
      ([⟨7, 10000, true⟩, ⟨8, 10000, true⟩] : List AdapterInfo).take k := by
    rw [pairAfter, take_append, length_replicate, Nat.add_sub_cancel_left,
      take_of_length_le (by simp)]
  rw [htake, countP_append, countP_replicate]
  simp

private theorem pairAfter_count_all (n : Nat) : (pairAfter n).countP (·.active) = 2 := by
  have h := pairAfter_count n 2
  rw [take_of_length_le (by simp [pairAfter])] at h
  exact h

private theorem pairAfter_fits (n : Nat) : RegistryFits (pairAfter n) where
  caps := by
    intro e he
    rcases mem_pairAfter he with rfl | rfl | rfl <;> decide
  ne_zero := by
    intro e he
    rcases mem_pairAfter he with rfl | rfl | rfl <;> decide
  distinct := by
    intro i j e f he hf hact hact' heq
    rcases pairAfter_active he hact with ⟨rfl, hadapter⟩ | ⟨rfl, hadapter⟩ <;>
      rcases pairAfter_active hf hact' with ⟨rfl, hadapter'⟩ | ⟨rfl, hadapter'⟩ <;> simp_all
  count := by
    rw [pairAfter_count_all]
    decide

private theorem pairAfter_fullBalance (n : Nat) : fullBalance (pairAfter n) (n + 1) = 5000 := by
  rw [fullBalance, pairAfter_count_all, pairAfter_count]
  decide

theorem pairAfter_overlooks (hn : 256 ≤ n) : Overlooks (pairAfter n) n (n + 1) ⟨7, 10000, true⟩ ⟨8, 10000, true⟩ where
  beyond := hn
  ne := (Nat.lt_succ_self n).ne
  entry := pairAfter_get n 0
  other := pairAfter_get n 1
  active := rfl
  otherActive := rfl
  room := (pairAfter_fullBalance n).trans_lt (by decide)

theorem refusals_remembered_iff_long :
    ¬∀ (σ : Type) (d : Deployment) (env : Outside σ) (s : Vault σ) (amount totalAfter : Nat),
      s.adapters = pairAfter 256 →
      s.totalAssets d env = .ok totalAfter → amount ≤ s.idle d → RefusalsRemembered d env s amount totalAfter := by
  rw [refusals_remembered_iff (pairAfter 256) (pairAfter_fits 256), not_not]
  exact ⟨256, 257, _, _, pairAfter_overlooks (le_refl 256)⟩

private theorem pairAfter_forgotten (hn : 256 ≤ n) :
    (∃ s', (forgetful .sample (pairAfter n) (n + 1) ⟨7, 10000, true⟩ ⟨8, 10000, true⟩ []).routeDeposit .sample
      (fullOutside .sample (pairAfter n) (n + 1) ⟨8, 10000, true⟩) 5000 10000 = .ok s') ∧
    (forgetful .sample (pairAfter n) (n + 1) ⟨7, 10000, true⟩ ⟨8, 10000, true⟩ []).HandsBackInPass1 .sample
      (fullOutside .sample (pairAfter n) (n + 1) ⟨8, 10000, true⟩) 5000 10000 n ∧
    (forgetful .sample (pairAfter n) (n + 1) ⟨7, 10000, true⟩ ⟨8, 10000, true⟩ []).AskedInPass2 .sample
      (fullOutside .sample (pairAfter n) (n + 1) ⟨8, 10000, true⟩) 5000 10000 n := by
  have hrest : maxBps - fullBalance (pairAfter n) (n + 1) = 5000 := by
    rw [pairAfter_fullBalance]
    rfl
  have h := (pairAfter_overlooks hn).forgotten (d := .sample) (pairAfter_fits n) (by decide) (by decide)
  rw [hrest] at h
  exact h

/-- The adapter at position 256 hands back what it is sent in pass 1, and pass 2 asks it again. -/
theorem refusal_forgotten_at_256 :
    (∃ s', (forgetful .sample (pairAfter 256) 257 ⟨7, 10000, true⟩ ⟨8, 10000, true⟩ []).routeDeposit .sample
      (fullOutside .sample (pairAfter 256) 257 ⟨8, 10000, true⟩) 5000 10000 = .ok s') ∧
    (forgetful .sample (pairAfter 256) 257 ⟨7, 10000, true⟩ ⟨8, 10000, true⟩ []).HandsBackInPass1 .sample
      (fullOutside .sample (pairAfter 256) 257 ⟨8, 10000, true⟩) 5000 10000 256 ∧
    (forgetful .sample (pairAfter 256) 257 ⟨7, 10000, true⟩ ⟨8, 10000, true⟩ []).AskedInPass2 .sample
      (fullOutside .sample (pairAfter 256) 257 ⟨8, 10000, true⟩) 5000 10000 256 :=
  pairAfter_forgotten (le_refl 256)

end Vault

end RobotMoney
