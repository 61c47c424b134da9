import RobotMoney.Vault.Registry

/-!
# Net asset value

`totalAssets` as a sum: idle USDC and, for every counted entry, the balance its adapter reports.  A call of one adapter
that does what it says moves one summand against the idle balance, and the other summands stay because no two live
entries share an adapter (`netAssets_of_touched`).

What "does what it says" means is a hypothesis on the outside world (`ExactWithdraw`, `ExactDeploy`): an adapter that
is asked for no more than it reports pays exactly that, and reports that much less; one that is given USDC reports
exactly what it kept of it; neither touches another adapter, the share token or the ledger.  Payments are made on the
book as it stands: a predicate `H` on the outside state and the book says that what the adapters owe is there.
-/

namespace RobotMoney

open Evm

section Exact

variable {σ : Type} (d : Deployment) (env : Outside σ)

/-- What adapter `a` is worth: the balance it reports, nothing when it reports none. -/
def Outside.balanceOf (w : σ) (a : Address) : Nat :=
  match env.totalAssets w a with
  | .returned t => t
  | _ => 0

theorem Outside.balanceOf_eq {env : Outside σ} {w : σ} {a : Address} {t : Nat}
    (h : env.totalAssets w a = .returned t) : env.balanceOf w a = t := by
  unfold Outside.balanceOf
  rw [h]

/-- The eligibility probes find the same answers. -/
structure Outside.SameViews (w w' : σ) : Prop where
  codehash : ∀ a, env.codehash w' a = env.codehash w a
  usdcView : ∀ a, env.usdcView w' a = env.usdcView w a
  vaultView : ∀ a, env.vaultView w' a = env.vaultView w a

/-- A call of `a` whose only effects are that the vault received `paid` USDC and that `a` may report another balance. -/
structure Effect.Pays (w : σ) (book : ShareBook) (a : Address) (paid : Nat) (eff : Effect σ) : Prop where
  views : env.SameViews w eff.hidden
  others : ∀ b, b ≠ a → env.totalAssets eff.hidden b = env.totalAssets w b
  book : ∃ usdc, run (outsideStep d) book eff.calls = { book with usdc := usdc } ∧
    usdc d.vault = book.usdc d.vault + paid ∧ usdc d.ledger = book.usdc d.ledger

/-- Adapters whose `withdraw(x)` with `x ≤ totalAssets()` delivers exactly `x` and reduces `totalAssets()` by `x`, as
long as the outside state and the book meet `H`.  USDC that others get does not harm `H`. -/
structure Outside.ExactWithdraw (H : σ → ShareBook → Prop) : Prop where
  keeps : ∀ {w book book'}, H w book → (∀ b, b ≠ d.vault → book.usdc b ≤ book'.usdc b) → H w book'
  pays : ∀ {w book a x eff}, H w book → env.withdraw w a x = .returned eff →
    H eff.hidden (run (outsideStep d) book eff.calls) ∧ ∃ paid, eff.Pays d env w book a paid
  exact : ∀ {w book a x t eff}, H w book → env.withdraw w a x = .returned eff → env.totalAssets w a = .returned t →
    x ≤ t → eff.returned = x ∧ eff.Pays d env w book a x ∧ env.totalAssets eff.hidden a = .returned (t - x)

/-- Adapters whose `deploy(x)`, once they hold `x`, keeps what it does not hand back, and reports exactly that much
more.  The vault itself, which has no `VAULT()` view, is not an adapter. -/
structure Outside.ExactDeploy : Prop where
  exact : ∀ {w book a x t eff}, x ≤ book.usdc a → env.deploy w a x = .returned eff →
    env.totalAssets w a = .returned t →
    ∃ back, back ≤ x ∧ eff.Pays d env w book a back ∧ env.totalAssets eff.hidden a = .returned (t + (x - back))
  no_vault : ∀ w, (env.vaultView w d.vault).ok = false

end Exact

theorem Outside.sample_exactWithdraw : Outside.sample.ExactWithdraw .sample fun _ _ => True := by
  have hpays : ∀ {w : Address → Nat} {book : ShareBook} {a : Address} {x : Nat} {eff : Effect (Address → Nat)},
      Outside.sample.withdraw w a x = .returned eff →
      eff.returned = x ∧ eff.Pays .sample .sample w book a x ∧ eff.hidden a = w a - x := by
    intro w book a x eff h
    simp only [Outside.sample] at h
    split at h
    · cases h
      refine ⟨rfl, ⟨⟨fun _ => rfl, fun _ => rfl, fun _ => rfl⟩, ?_, ?_⟩, by simp⟩
      · intro b hb
        simp [Outside.sample, hb]
      · exact ⟨_, rfl, by simp [Deployment.sample], by simp [Deployment.sample]⟩
    · cases h
  refine ⟨fun _ _ => trivial, fun _ h => ⟨trivial, _, (hpays h).2.1⟩, ?_⟩
  intro w book a x t eff _ h ht _
  obtain ⟨h1, h2, h3⟩ := hpays h
  refine ⟨h1, h2, ?_⟩
  simp only [Outside.sample, Reply.returned.injEq] at ht ⊢
  rw [h3, ht]

theorem Outside.sample_exactDeploy : Outside.sample.ExactDeploy .sample where
  exact := by
    intro w book a x t eff _ h ht
    simp only [Outside.sample, Reply.returned.injEq] at h ht
    subst h ht
    refine ⟨0, Nat.zero_le x, ⟨⟨fun _ => rfl, fun _ => rfl, fun _ => rfl⟩, ?_, book.usdc, rfl, rfl, rfl⟩, ?_⟩
    · intro b hb
      simp [Outside.sample, hb]
    · simp [Outside.sample]
  no_vault := fun _ => rfl

namespace Vault

open Finset

variable {σ : Type} (d : Deployment) (env : Outside σ)

/-- The summand of entry `i` in the net asset value. -/
def contribution (s : Vault σ) (i : Nat) : Nat :=
  match s.isCounted d env i, s.adapters[i]? with
  | .ok true, some e => env.balanceOf s.hidden e.adapter
  | _, _ => 0

def netAssets (s : Vault σ) : Nat :=
  s.idle d + ∑ i ∈ Finset.range s.adapters.length, s.contribution d env i

/-- Entry `i` can be priced: its eligibility is decided, and if it counts, it reports a balance. -/
def PricedAt (s : Vault σ) (i : Nat) : Prop :=
  ∃ b, s.isCounted d env i = .ok b ∧
    (b = true → ∀ e, s.adapters[i]? = some e → ∃ t, env.totalAssets s.hidden e.adapter = .returned t)

def Priced (s : Vault σ) : Prop := ∀ i < s.adapters.length, s.PricedAt d env i

variable {d env} {s s' : Vault σ}

variable {i : Nat} {e : AdapterInfo} {a : Address}

theorem contribution_of_counted (hc : s.isCounted d env i = .ok true) (he : s.adapters[i]? = some e) :
    s.contribution d env i = env.balanceOf s.hidden e.adapter := by
  unfold contribution
  rw [hc, he]

theorem contribution_of_not_counted (hc : s.isCounted d env i ≠ .ok true) : s.contribution d env i = 0 := by
  unfold contribution
  split
  · exact absurd ‹_› hc
  · rfl

private theorem addCounted_eq_ok {i sum sum' : Nat} (h : s.addCounted d env sum i = .ok sum') :
    s.PricedAt d env i ∧ sum' = sum + s.contribution d env i := by
  simp only [addCounted, bind_eq_ok] at h
  obtain ⟨b, hb, h⟩ := h
  split at h
  · rename_i hcounted
    subst hcounted
    simp only [bind_eq_ok, entry_eq_ok, add_eq_ok] at h
    obtain ⟨e, he, t, ht, -, rfl⟩ := h
    simp only [reported, Reply.value_eq_ok] at ht
    refine ⟨⟨true, hb, ?_⟩, ?_⟩
    · intro _ e' he'
      rw [he] at he'
      cases he'
      exact ⟨t, ht⟩
    · rw [contribution_of_counted hb he, Outside.balanceOf_eq ht]
  rename_i hcounted
  cases h
  refine ⟨⟨b, hb, fun h => absurd h hcounted⟩, ?_⟩
  rw [contribution_of_not_counted]
  · rfl
  · rw [hb]
    simpa using hcounted

theorem totalAssets_eq_ok {nav : Nat} (h : s.totalAssets d env = .ok nav) :
    s.Priced d env ∧ nav = s.netAssets d env := by
  have hinv := foldlM_range_invariant (f := s.addCounted d env) (n := s.adapters.length)
    (P := fun k sum => (∀ i < k, s.PricedAt d env i) ∧
      sum = s.idle d + ∑ i ∈ range k, s.contribution d env i) ?_ ⟨fun i hi => absurd hi (by omega), by simp⟩ h
  · exact hinv
  · rintro k sum sum' hk ⟨hpriced, hsum⟩ hround
    obtain ⟨hk', rfl⟩ := addCounted_eq_ok hround
    refine ⟨?_, by rw [sum_range_succ, hsum]; omega⟩
    intro i hi
    rcases Nat.lt_succ_iff_lt_or_eq.1 hi with hlt | rfl
    · exact hpriced i hlt
    · exact hk'

private theorem addCounted_returns {i sum : Nat} (hp : s.PricedAt d env i) (hi : i < s.adapters.length)
    (hsum : sum + s.contribution d env i < wordSize) :
    s.addCounted d env sum i = .ok (sum + s.contribution d env i) := by
  obtain ⟨b, hb, hreport⟩ := hp
  unfold addCounted
  rw [hb]
  cases b with
  | false =>
    rw [contribution_of_not_counted (by rw [hb]; simp)]
    rfl
  | true =>
    have he : s.adapters[i]? = some s.adapters[i] := List.getElem?_eq_getElem hi
    obtain ⟨t, ht⟩ := hreport rfl _ he
    have hc : s.contribution d env i = t := by
      rw [contribution_of_counted hb he, Outside.balanceOf_eq ht]
    rw [hc] at hsum ⊢
    simp [Vault.entry, he, reported, ht, Reply.value, add, hsum]

theorem totalAssets_returns (hp : s.Priced d env) (hfit : s.netAssets d env < wordSize) :
    s.totalAssets d env = .ok (s.netAssets d env) := by
  have hloop := foldlM_range_returns (f := s.addCounted d env) (n := s.adapters.length)
    (P := fun k sum => sum = s.idle d + ∑ i ∈ range k, s.contribution d env i) ?_ (s := s.idle d) (by simp)
  · obtain ⟨nav, hnav, rfl⟩ := hloop
    exact hnav
  · rintro k sum hk rfl
    have hle : ∑ i ∈ range (k + 1), s.contribution d env i ≤
        ∑ i ∈ range s.adapters.length, s.contribution d env i := by
      refine sum_le_sum_of_subset ?_
      intro i hi
      simp only [mem_range] at hi ⊢
      omega
    rw [sum_range_succ] at hle
    refine ⟨_, addCounted_returns (hp k hk) hk ?_, by rw [sum_range_succ]; omega⟩
    unfold netAssets at hfit
    omega

theorem netAssets_congr (hidle : s'.idle d = s.idle d) (hlength : s'.adapters.length = s.adapters.length)
    (h : ∀ i < s.adapters.length, s'.contribution d env i = s.contribution d env i) :
    s'.netAssets d env = s.netAssets d env := by
  unfold netAssets
  rw [hidle, hlength]
  congr 1
  exact sum_congr rfl fun i hi => h i (mem_range.1 hi)

/-- Only adapter `a` may report another balance; USDC may have moved, shares did not. -/
structure Touched (env : Outside σ) (a : Address) (s s' : Vault σ) : Prop extends Steady s s' where
  views : env.SameViews s.hidden s'.hidden
  others : ∀ b, b ≠ a → env.totalAssets s'.hidden b = env.totalAssets s.hidden b
  shares : s'.book.shares = s.book.shares
  supply : s'.book.totalSupply = s.book.totalSupply

theorem Touched.trans {s'' : Vault σ} (h₁ : Touched env a s s') (h₂ : Touched env a s' s'') :
    Touched env a s s'' where
  toSteady := h₁.toSteady.trans h₂.toSteady
  views := ⟨fun b => (h₂.views.codehash b).trans (h₁.views.codehash b),
    fun b => (h₂.views.usdcView b).trans (h₁.views.usdcView b),
    fun b => (h₂.views.vaultView b).trans (h₁.views.vaultView b)⟩
  others := fun b hb => (h₂.others b hb).trans (h₁.others b hb)
  shares := h₂.shares.trans h₁.shares
  supply := h₂.supply.trans h₁.supply

theorem isEligible_of_views (hallowed : s'.allowed = s.allowed) (hcode : s'.codeHashAllowed = s.codeHashAllowed)
    (hv : env.SameViews s.hidden s'.hidden) (a : Address) : s'.isEligible d env a = s.isEligible d env a := by
  unfold isEligible
  rw [hallowed, hcode, hv.codehash, hv.usdcView, hv.vaultView]

theorem Touched.isEligible (h : Touched env a s s') (b : Address) : s'.isEligible d env b = s.isEligible d env b :=
  isEligible_of_views h.allowed h.codeHashAllowed h.views b

theorem isCounted_congr (hadapters : s'.adapters = s.adapters) (hopen : s'.openExclusionOf i = s.openExclusionOf i)
    (hel : ∀ a, s'.isEligible d env a = s.isEligible d env a) : s'.isCounted d env i = s.isCounted d env i := by
  unfold isCounted isUsable Vault.entry
  rw [hadapters, hopen]
  simp only [hel]

theorem Touched.isCounted (h : Touched env a s s') (i : Nat) : s'.isCounted d env i = s.isCounted d env i :=
  isCounted_congr h.adapters (by rw [h.openOf]) h.isEligible

private theorem Touched.contribution (h : Touched env a s s') (he : s.adapters[i]? = some e) (hne : e.adapter ≠ a) :
    s'.contribution d env i = s.contribution d env i := by
  have hbalance : env.balanceOf s'.hidden e.adapter = env.balanceOf s.hidden e.adapter := by
    unfold Outside.balanceOf
    rw [h.others e.adapter hne]
  unfold Vault.contribution
  rw [h.isCounted, h.adapters, he]
  split
  · rename_i heq
    cases heq
    exact hbalance
  · rfl

theorem Touched.contribution_of_ne {i j : Nat} (h : Touched env e.adapter s s') (hc : s.Consistent)
    (he : s.adapters[i]? = some e) (hl : s.Live i e) (hji : j ≠ i) :
    s'.contribution d env j = s.contribution d env j := by
  cases hf : s.adapters[j]? with
  | none =>
    unfold Vault.contribution
    rw [h.isCounted, h.adapters, hf]
    simp
  | some f =>
    by_cases hfa : f.adapter = e.adapter
    · -- a second entry of the same adapter is not live, so it counts neither before nor after
      have hnot : s.isCounted d env j ≠ .ok true := by
        intro hcounted
        have hact := (counted_entry hf hcounted).1
        exact hc.free he hl j f hji hf (.inl hact) hfa
      rw [contribution_of_not_counted hnot, contribution_of_not_counted (by rw [h.isCounted]; exact hnot)]
    · exact h.contribution hf hfa

theorem Touched.netAssets (h : Touched env e.adapter s s') (hc : s.Consistent) (he : s.adapters[i]? = some e)
    (hl : s.Live i e) (hsum : s'.idle d + s'.contribution d env i = s.idle d + s.contribution d env i) :
    s'.netAssets d env = s.netAssets d env := by
  have hi : i < s.adapters.length := (List.getElem?_eq_some_iff.1 he).1
  have hrest := sum_add_of_eq_off (s := range s.adapters.length) (f := s.contribution d env)
    (g := s'.contribution d env) (mem_range.2 hi) fun j _ hji => h.contribution_of_ne hc he hl hji
  unfold Vault.netAssets
  rw [h.adapters]
  omega

theorem Touched.priced (h : Touched env a s s')
    (hreport : ∀ t, env.totalAssets s.hidden a = .returned t → ∃ t', env.totalAssets s'.hidden a = .returned t')
    (hp : s.Priced d env) : s'.Priced d env := by
  intro i hi
  rw [h.adapters] at hi
  obtain ⟨b, hb, hr⟩ := hp i hi
  refine ⟨b, by rw [h.isCounted]; exact hb, ?_⟩
  intro hbt e he
  rw [h.adapters] at he
  obtain ⟨t, ht⟩ := hr hbt e he
  by_cases hea : e.adapter = a
  · rw [hea] at ht ⊢
    exact hreport t ht
  · exact ⟨t, by rw [h.others e.adapter hea]; exact ht⟩

theorem contact_touched (s : Vault σ) (a b : Address) : Touched env b s (s.contact a) :=
  ⟨(contact_moved s a).toSteady, ⟨fun _ => rfl, fun _ => rfl, fun _ => rfl⟩, fun _ _ => rfl, rfl, rfl⟩

theorem applyEffect_touched {paid : Nat} {eff : Effect σ} (h : eff.Pays d env s.hidden s.book a paid) :
    Touched env a s (s.applyEffect d eff) ∧ (s.applyEffect d eff).idle d = s.idle d + paid ∧
      (s.applyEffect d eff).book.ledger = s.book.ledger ∧
      (s.applyEffect d eff).book.usdc d.ledger = s.book.usdc d.ledger := by
  obtain ⟨usdc, hrun, hvault, hledger⟩ := h.book
  have hbook : (s.applyEffect d eff).book = { s.book with usdc := usdc } := hrun
  refine ⟨⟨(applyEffect_moved s eff).toSteady, h.views, h.others, by rw [hbook], by rw [hbook]⟩, ?_, by rw [hbook], ?_⟩
  · unfold Vault.idle
    rw [hbook]
    exact hvault
  · rw [hbook]
    exact hledger

theorem callWithdraw_exact {H : σ → ShareBook → Prop} (hx : env.ExactWithdraw d H) (hs : H s.hidden s.book)
    {x r t : Nat} (ht : env.totalAssets s.hidden a = .returned t) (hle : x ≤ t)
    (h : s.callWithdraw d env a x = .ok (r, s')) :
    r = x ∧ Touched env a s s' ∧ s'.idle d = s.idle d + x ∧ env.totalAssets s'.hidden a = .returned (t - x) ∧
      H s'.hidden s'.book := by
  simp only [callWithdraw, bind_eq_ok, Reply.value_eq_ok, Except.ok.injEq, Prod.mk.injEq] at h
  obtain ⟨eff, heff, rfl, rfl⟩ := h
  obtain ⟨hr, hpays, hreport⟩ := hx.exact hs heff ht hle
  obtain ⟨htouched, hidle, -, -⟩ := applyEffect_touched (s := s.contact a) hpays
  exact ⟨hr, (contact_touched s a a).trans htouched, hidle, hreport, (hx.pays hs heff).1⟩

end Vault

end RobotMoney
