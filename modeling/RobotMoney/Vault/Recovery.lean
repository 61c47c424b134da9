import RobotMoney.Vault.Nav

/-!
# Recovered money does not inflate the price

The levers that take USDC out of adapters change the money and the counting predicate at once: records open, adapters
are drained into idle or into records, records close and entries count again.  With adapters that do what they say, the
net asset value is the same after each of these moves, and what left an adapter under a record is in that record.

`Tracks s t` compares a state `t` inside a lever with the state `s` it started in; there is one lemma for each of the
three moves (`Tracks.recover`, `Tracks.close`, `Tracks.open`), and the levers are put together from these.
-/

namespace RobotMoney

open Evm

namespace Vault

open List Function Except

variable {σ : Type} {d : Deployment} {env : Outside σ} {H : σ → ShareBook → Prop} {s s' t u : Vault σ}

/-- What the adapters owe is still there in `s'` when it was there in `s`. -/
def FundsKept (d : Deployment) (env : Outside σ) (s s' : Vault σ) : Prop :=
  ∀ {H : σ → ShareBook → Prop}, env.ExactWithdraw d H → H s.hidden s.book → H s'.hidden s'.book

/-- The USDC credited to record `id` so far. -/
def recovered (s : Vault σ) (id : Nat) : Nat := (s.book.ledger.exclusions id).recoveredUsdc

/-- Adapter `a` paid `x` USDC: into record `id`, or into idle when `id` is zero. -/
structure Recovers (d : Deployment) (env : Outside σ) (a : Address) (id x : Nat) (s s' : Vault σ) : Prop
    extends Touched env a s s' where
  report : ∀ v, env.totalAssets s.hidden a = .returned v → x ≤ v ∧ env.totalAssets s'.hidden a = .returned (v - x)
  idle : s'.idle d = s.idle d + if id = 0 then x else 0
  credited : ∀ id', s'.recovered id' = s.recovered id' + if id' = id ∧ id ≠ 0 then x else 0
  custody : s'.book.usdc d.ledger + s.book.ledger.heldUsdc = s.book.usdc d.ledger + s'.book.ledger.heldUsdc
  funds : FundsKept d env s s'

variable {id x k i : Nat} {a : Address} {e : AdapterInfo} {block : Block} {opened : Bool}

private theorem Recovers.empty {a b : Address} (h : Recovers d env a id x s u)
    (hb : env.totalAssets s.hidden b = .returned 0) : env.totalAssets u.hidden b = .returned 0 := by
  by_cases hba : b = a
  · subst hba
    simpa using (h.report 0 hb).2
  rw [h.others b hba]
  exact hb

/-- Crediting what arrived since `before`. -/
theorem credit_recovers (ht : Touched env a s t) (hidle : t.idle d = s.idle d + x)
    (hledger : t.book.ledger = s.book.ledger) (husdc : t.book.usdc d.ledger = s.book.usdc d.ledger)
    (hreport : ∀ v, env.totalAssets s.hidden a = .returned v → x ≤ v ∧ env.totalAssets t.hidden a = .returned (v - x))
    (hfunds : FundsKept d env s t) (h : t.credit d id (s.idle d) = .ok u) : Recovers d env a id x s u := by
  have hcredit := h
  unfold Vault.credit at h
  split at h
  · rename_i hid
    cases h
    refine ⟨ht, hreport, by simp [hid, hidle], ?_, by rw [hledger, husdc], hfunds⟩
    intro id'
    simp [hid, recovered, hledger]
  rename_i hid
  simp only [bind_eq_ok, sub_eq_ok] at h
  obtain ⟨arrived, ⟨-, rfl⟩, h⟩ := h
  have harrived : t.idle d - s.idle d = x := by omega
  rw [harrived] at h
  split at h
  · rename_i hx
    cases h
    refine ⟨ht, hreport, by simp [hidle, hx], ?_, by rw [hledger, husdc], hfunds⟩
    intro id'
    simp [hx, recovered, hledger]
  simp only [ShareBook.credit, Ledger.credit, bind_eq_ok, moveUsdc_eq_ok, add_eq_ok, ok.injEq] at h
  obtain ⟨book, ⟨usdc, ⟨-, hle, rfl⟩, l, ⟨-, -, -, -, rec, ⟨-, rfl⟩, held, ⟨-, rfl⟩, rfl⟩, rfl⟩, rfl⟩ := h
  refine ⟨⟨ht.toSteady.trans (credit_moved hcredit).toSteady, ht.views, ht.others, ht.shares, ht.supply⟩, hreport, ?_,
    ?_, ?_, fun hexact hs => hexact.keeps (hfunds hexact hs) ?_⟩
  · unfold Vault.idle at hidle ⊢
    dsimp only
    rw [moveBalance_source (Ne.symm d.ledger_ne_vault), hidle]
    simp [hid]
  · intro id'
    unfold recovered
    dsimp only
    rw [hledger]
    by_cases hid' : id' = id
    · subst hid'
      simp [hid]
    · simp [hid']
  · dsimp only
    rw [moveBalance_target (Ne.symm d.ledger_ne_vault), husdc, hledger]
    omega
  · intro b hb
    exact le_moveBalance hb

private theorem drain_cases (hx : env.ExactWithdraw d H) (hfunds : H s.hidden s.book) {ok : Bool}
    (h : s.drain d env a id = .ok (ok, s')) :
    s.SameButTrace s' ∧ (ok = true → env.totalAssets s.hidden a = .returned 0) ∨
      ∃ v, env.totalAssets s.hidden a = .returned v ∧ Recovers d env a id v s s' := by
  rcases drain_inv h with ⟨rfl, hempty⟩ | ⟨rfl, rfl⟩ | ⟨n, eff, hreturned, heff, hcredit⟩
  · exact .inl ⟨⟨_, rfl⟩, hempty⟩
  · exact .inl ⟨⟨_, rfl⟩, fun hok => absurd hok (by simp)⟩
  obtain ⟨-, hpays, hreport⟩ := hx.exact hfunds heff hreturned le_rfl
  have hcontacts : Touched env a s ((s.contact a).contact a) :=
    (contact_touched s a a).trans (contact_touched (s.contact a) a a)
  obtain ⟨htouched, hidle, hledger, husdc⟩ := applyEffect_touched (s := (s.contact a).contact a) hpays
  refine .inr ⟨n + 1, hreturned, credit_recovers (hcontacts.trans htouched) hidle hledger husdc ?_
    (fun hx hs => (hx.pays hs heff).1) hcredit⟩
  intro v hv
  rw [hreturned] at hv
  cases hv
  exact ⟨le_rfl, hreport⟩

private theorem withdraw_credit_recovers (hx : env.ExactWithdraw d H) (hfunds : H s.hidden s.book) {id x r : Nat}
    (hle : ∀ v, env.totalAssets s.hidden a = .returned v → x ≤ v) (hw : s.callWithdraw d env a x = .ok (r, t))
    (hc : t.credit d id (s.idle d) = .ok u) : ∃ y, Recovers d env a id y s u := by
  simp only [callWithdraw, bind_eq_ok, Reply.value_eq_ok, ok.injEq, Prod.mk.injEq] at hw
  obtain ⟨eff, heff, -, rfl⟩ := hw
  have hkept : FundsKept d env s ((s.contact a).applyEffect d eff) := fun hx hs => (hx.pays hs heff).1
  by_cases hreturned : ∃ v, env.totalAssets s.hidden a = .returned v
  · obtain ⟨v, hv⟩ := hreturned
    obtain ⟨-, hpays, hreport⟩ := hx.exact hfunds heff hv (hle v hv)
    obtain ⟨htouched, hidle, hledger, husdc⟩ := applyEffect_touched (s := s.contact a) hpays
    refine ⟨x, credit_recovers ((contact_touched s a a).trans htouched) hidle hledger husdc ?_ hkept hc⟩
    intro v' hv'
    rw [hv] at hv'
    cases hv'
    exact ⟨hle v hv, hreport⟩
  -- an adapter that reports nothing may pay anything
  obtain ⟨-, paid, hpays⟩ := hx.pays hfunds heff
  obtain ⟨htouched, hidle, hledger, husdc⟩ := applyEffect_touched (s := s.contact a) hpays
  refine ⟨paid, credit_recovers ((contact_touched s a a).trans htouched) hidle hledger husdc ?_ hkept hc⟩
  intro v hv
  exact absurd ⟨v, hv⟩ hreturned

/-- How a state `t` inside a lever compares with the state `s` it started in. -/
structure Tracks (d : Deployment) (env : Outside σ) (s t : Vault σ) : Prop where
  adapters : t.adapters = s.adapters
  eligible : ∀ a, t.isEligible d env a = s.isEligible d env a
  count : s.book.ledger.exclusionCount ≤ t.book.ledger.exclusionCount
  /-- Records that are open now were open at the start, at the same entry, or are new. -/
  opens : ∀ i, t.openExclusionOf i ≠ 0 →
    t.openExclusionOf i = s.openExclusionOf i ∨ s.book.ledger.exclusionCount < t.openExclusionOf i
  nav : t.netAssets d env = s.netAssets d env
  priced : s.Priced d env → t.Priced d env
  /-- An entry that lost its record has an empty adapter. -/
  closed : ∀ i e, s.adapters[i]? = some e → s.openExclusionOf i ≠ 0 → t.openExclusionOf i ≠ s.openExclusionOf i →
    env.totalAssets t.hidden e.adapter = .returned 0
  /-- What left an adapter under a record is in that record. -/
  credit : ∀ i e id v, s.adapters[i]? = some e → id ≠ 0 → s.openExclusionOf i = id ∨ t.openExclusionOf i = id →
    env.totalAssets s.hidden e.adapter = .returned v →
    ∃ v', env.totalAssets t.hidden e.adapter = .returned v' ∧ t.recovered id + v' = s.recovered id + v
  custody : t.book.usdc d.ledger + s.book.ledger.heldUsdc = s.book.usdc d.ledger + t.book.ledger.heldUsdc
  funds : FundsKept d env s t

private theorem Tracks.refl (s : Vault σ) : Tracks d env s s where
  adapters := rfl
  eligible := fun _ => rfl
  count := le_rfl
  opens := fun _ _ => .inl rfl
  nav := rfl
  priced := id
  closed := fun _ _ _ _ h => absurd rfl h
  credit := fun _ _ _ v _ _ _ hv => ⟨v, hv, rfl⟩
  custody := rfl
  funds := fun _ => id

private theorem Tracks.of_trace (ht : Tracks d env s t) (h : t.SameButTrace u) : Tracks d env s u := by
  obtain ⟨trace, rfl⟩ := h
  obtain ⟨h1, h2, h3, h4, h5, h6, h7, h8, h9, h10⟩ := ht
  exact ⟨h1, h2, h3, h4, h5, h6, h7, h8, h9, h10⟩

private theorem Tracks.of_paused {b : Bool} (ht : Tracks d env { s with depositsPaused := b } t) :
    Tracks d env s t := by
  obtain ⟨h1, h2, h3, h4, h5, h6, h7, h8, h9, h10⟩ := ht
  exact ⟨h1, h2, h3, h4, h5, h6, h7, h8, h9, h10⟩

theorem Tracks.mark (ht : Tracks d env s t) (opened : Bool) : Tracks d env s (t.markExclusionOpened opened) := by
  cases opened with
  | false => exact ht
  | true =>
    obtain ⟨h1, h2, h3, h4, h5, h6, h7, h8, h9, h10⟩ := ht
    exact ⟨h1, h2, h3, h4, h5, h6, h7, h8, h9, fun hx hs => hx.keeps (h10 hx hs) fun _ _ => le_rfl⟩

/-- First move: the adapter of a live entry pays, into the record of the entry or, when it has none, into idle.  Without
a record the entry must count, or its balance would enter the net asset value. -/
theorem Tracks.recover (hs : s.Consistent) (ht : Tracks d env s t) (htc : t.Consistent)
    (he : t.adapters[k]? = some e) (hl : t.Live k e)
    (hcounted : t.openExclusionOf k = 0 → t.isCounted d env k = .ok true ∧
      ∃ v, env.totalAssets t.hidden e.adapter = .returned v)
    (h : Recovers d env e.adapter (t.openExclusionOf k) x t u) : Tracks d env s u where
  adapters := h.adapters.trans ht.adapters
  eligible := fun a => (h.isEligible a).trans (ht.eligible a)
  count := by rw [h.records.count]; exact ht.count
  opens := by rw [h.openOf]; exact ht.opens
  nav := by
    refine (h.netAssets htc he hl ?_).trans ht.nav
    have hidle := h.idle
    by_cases hk : t.openExclusionOf k = 0
    · obtain ⟨hc, v, hv⟩ := hcounted hk
      obtain ⟨hle, hv'⟩ := h.report v hv
      rw [contribution_of_counted hc he, contribution_of_counted (by rw [h.isCounted]; exact hc)
        (by rw [h.adapters]; exact he), Outside.balanceOf_eq hv, Outside.balanceOf_eq hv', hidle, if_pos hk]
      omega
    have hnot : t.isCounted d env k ≠ .ok true := not_counted_of_open hk
    rw [contribution_of_not_counted hnot, contribution_of_not_counted (by rw [h.isCounted]; exact hnot), hidle,
      if_neg hk]
  priced := by
    intro hp
    exact h.toTouched.priced (fun v hv => ⟨_, (h.report v hv).2⟩) (ht.priced hp)
  closed := by
    intro i f hf hopen hclosed
    rw [h.openOf] at hclosed
    exact h.empty (ht.closed i f hf hopen hclosed)
  credit := by
    intro i f id v hf hid hrecord hv
    rw [h.openOf] at hrecord
    obtain ⟨v', hv', hsum⟩ := ht.credit i f id v hf hid hrecord hv
    have hcredited := h.credited id
    by_cases hrecord' : t.openExclusionOf i = id
    · by_cases hik : i = k
      · -- the record of the entry that paid
        subst hik
        rw [ht.adapters, hf] at he
        cases he
        obtain ⟨hle, hx⟩ := h.report v' hv'
        refine ⟨v' - x, hx, ?_⟩
        rw [hcredited, if_pos ⟨hrecord'.symm, by rw [hrecord']; exact hid⟩]
        omega
      -- another live entry, so another adapter and another record
      have hf' : t.adapters[i]? = some f := by rw [ht.adapters]; exact hf
      have hne : f.adapter ≠ e.adapter := htc.free he hl i f hik hf' (.inr (by rw [hrecord']; exact hid))
      refine ⟨v', by rw [h.others f.adapter hne]; exact hv', ?_⟩
      rw [hcredited, if_neg]
      · exact hsum
      · rintro ⟨hid', -⟩
        exact hik (htc.open_injective (by rw [hrecord']; exact hid) (hrecord'.trans hid'))
    -- a record closed before this move: its adapter is empty and pays nothing
    have hopen : s.openExclusionOf i = id := hrecord.resolve_right hrecord'
    have hempty := ht.closed i f hf (by rw [hopen]; exact hid) (by rw [hopen]; exact hrecord')
    rw [hv'] at hempty
    cases hempty
    have hid' : id ≠ t.openExclusionOf k := by
      intro heq
      have hle : id ≤ s.book.ledger.exclusionCount := by
        obtain ⟨-, -, hle, -⟩ := hs.open_record i (by rw [hopen]; exact hid)
        rw [hopen] at hle
        exact hle
      rcases ht.opens k (by rw [← heq]; exact hid) with hsame | hnew
      · have hik := hs.open_injective (by rw [hopen]; exact hid) (hopen.trans (heq.trans hsame))
        subst hik
        exact hrecord' heq.symm
      · omega
    exact ⟨0, h.empty hv', by rw [hcredited, if_neg (fun h => hid' h.1)]; exact hsum⟩
  custody := by
    have h1 := ht.custody
    have h2 := h.custody
    omega
  funds := fun hx hs => h.funds hx (ht.funds hx hs)

private theorem contribution_of_ne (hadapters : u.adapters = t.adapters)
    (hopen : ∀ j, j ≠ k → u.openExclusionOf j = t.openExclusionOf j)
    (hel : ∀ a, u.isEligible d env a = t.isEligible d env a) (hext : u.hidden = t.hidden) (hik : i ≠ k) :
    u.contribution d env i = t.contribution d env i := by
  unfold contribution
  rw [isCounted_congr hadapters (hopen i hik) hel, hadapters, hext]

/-- Second move: the record of entry `k` closes, with its adapter empty. -/
theorem Tracks.close (ht : Tracks d env s t) (he : t.adapters[k]? = some e)
    (hel : e.active = true → t.isEligible d env e.adapter = .ok true)
    (hempty : env.totalAssets t.hidden e.adapter = .returned 0) (h : t.finalize d k = .ok u) : Tracks d env s u := by
  rcases finalize_cases h with ⟨-, rfl⟩ | ⟨hk, -, hu⟩
  · exact ht
  have hadapters : u.adapters = t.adapters := by rw [hu]
  have hext : u.hidden = t.hidden := by rw [hu]
  have hopen : u.openExclusionOf = update t.openExclusionOf k 0 := by rw [hu]
  have hopen' : ∀ j, j ≠ k → u.openExclusionOf j = t.openExclusionOf j := by
    intro j hj
    rw [hopen, update_of_ne hj]
  have hel' : ∀ a, u.isEligible d env a = t.isEligible d env a := by rw [hu]; exact fun _ => rfl
  have hrecovered : ∀ id, u.recovered id = t.recovered id := by
    intro id
    rw [hu]
    unfold recovered
    dsimp only
    by_cases hid : id = t.openExclusionOf k
    · subst hid; simp
    · simp [hid]
  -- the entry counts again if it is active, with nothing in it
  have hcounted : u.isCounted d env k = .ok e.active := by
    cases hact : e.active with
    | true =>
      refine isCounted_eq_true.2 ⟨e, by rw [hadapters]; exact he, hact, by rw [hopen]; simp, ?_⟩
      rw [hel']
      exact hel hact
    | false => simp [isCounted, Vault.entry, hadapters, he, hact]
  refine ⟨hadapters.trans ht.adapters, fun a => (hel' a).trans (ht.eligible a), by rw [hu]; exact ht.count, ?_, ?_, ?_,
    ?_, ?_, by rw [hu]; exact ht.custody, fun hx hs => by rw [hu]; exact hx.keeps (ht.funds hx hs) fun _ _ => le_rfl⟩
  · intro i hi
    have hik : i ≠ k := by
      rintro rfl
      rw [hopen] at hi
      simp at hi
    rw [hopen' i hik] at hi ⊢
    exact ht.opens i hi
  · refine (netAssets_congr (by rw [hu]; rfl) (by rw [hadapters]) ?_).trans ht.nav
    intro i _
    by_cases hik : i = k
    · subst hik
      rw [contribution_of_not_counted (not_counted_of_open hk)]
      unfold contribution
      rw [hcounted, hadapters, he, hext]
      cases e.active with
      | true => exact Outside.balanceOf_eq hempty
      | false => rfl
    · exact contribution_of_ne hadapters hopen' hel' hext hik
  · intro hp i hi
    rw [hadapters] at hi
    by_cases hik : i = k
    · subst hik
      refine ⟨e.active, hcounted, ?_⟩
      intro _ f hf
      rw [hadapters, he] at hf
      cases hf
      exact ⟨0, by rw [hext]; exact hempty⟩
    obtain ⟨b, hb, hreport⟩ := ht.priced hp i hi
    refine ⟨b, by rw [isCounted_congr hadapters (hopen' i hik) hel']; exact hb, ?_⟩
    rw [hadapters, hext]
    exact hreport
  · intro i f hf hopenS hclosed
    rw [hext]
    by_cases hik : i = k
    · subst hik
      rw [ht.adapters, hf] at he
      cases he
      exact hempty
    rw [hopen' i hik] at hclosed
    exact ht.closed i f hf hopenS hclosed
  · intro i f id v hf hid hrecord hv
    rw [hext, hrecovered]
    refine ht.credit i f id v hf hid (hrecord.imp_right ?_) hv
    intro hi
    have hik : i ≠ k := by
      rintro rfl
      rw [hopen] at hi
      simp at hi
      exact hid hi.symm
    rw [← hopen' i hik]
    exact hi

/-- Third move: a record opens for an entry that does not count. -/
theorem Tracks.open (hs : s.Sound false) (ht : Tracks d env s t) (htc : t.Consistent) {k supply : Nat}
    (he : t.adapters[k]? = some e) (hel : t.isEligible d env e.adapter = .ok false) (hnone : s.openExclusionOf k = 0)
    (hsame : env.totalAssets t.hidden e.adapter = env.totalAssets s.hidden e.adapter)
    (h : t.openExclusion d env block k e.adapter supply = .ok u) : Tracks d env s u := by
  obtain ⟨x, -, -, -, -, hzero, -, hu⟩ := openExclusion_spec h
  have hcount := ht.count
  have hadapters : u.adapters = t.adapters := by rw [hu]
  have hext : u.hidden = t.hidden := by rw [hu]
  have hopen : u.openExclusionOf = update t.openExclusionOf k (t.book.ledger.exclusionCount + 1) := by rw [hu]
  have hopen' : ∀ j, j ≠ k → u.openExclusionOf j = t.openExclusionOf j := by
    intro j hj
    rw [hopen, update_of_ne hj]
  have hel' : ∀ a, u.isEligible d env a = t.isEligible d env a := by rw [hu]; exact fun _ => rfl
  have hrecovered : ∀ id, u.recovered id =
      if id = t.book.ledger.exclusionCount + 1 then 0 else t.recovered id := by
    intro id
    rw [hu]
    unfold recovered
    dsimp only
    by_cases hid : id = t.book.ledger.exclusionCount + 1
    · subst hid; simp [hzero]
    · simp [hid]
  have hafter : u.isCounted d env k = .ok false := by
    simp [isCounted, isUsable, Vault.entry, hadapters, he, hopen]
  have hbefore : t.isCounted d env k ≠ .ok true := by
    intro hc
    obtain ⟨-, -, htrue⟩ := counted_entry he hc
    rw [hel] at htrue
    cases htrue
  refine ⟨hadapters.trans ht.adapters, fun a => (hel' a).trans (ht.eligible a), ?_, ?_, ?_, ?_, ?_, ?_,
    by rw [hu]; exact ht.custody, fun hx hs => by rw [hu]; exact hx.keeps (ht.funds hx hs) fun _ _ => le_rfl⟩
  · rw [hu]
    dsimp only
    omega
  · intro i hi
    by_cases hik : i = k
    · subst hik
      right
      rw [hopen, update_self]
      omega
    rw [hopen' i hik] at hi ⊢
    exact ht.opens i hi
  · refine (netAssets_congr (by rw [hu]; rfl) (by rw [hadapters]) ?_).trans ht.nav
    intro i _
    by_cases hik : i = k
    · subst hik
      rw [contribution_of_not_counted hbefore, contribution_of_not_counted (by rw [hafter]; simp)]
    · exact contribution_of_ne hadapters hopen' hel' hext hik
  · intro hp i hi
    rw [hadapters] at hi
    by_cases hik : i = k
    · subst hik
      exact ⟨false, hafter, fun h => absurd h (by simp)⟩
    obtain ⟨b, hb, hreport⟩ := ht.priced hp i hi
    refine ⟨b, by rw [isCounted_congr hadapters (hopen' i hik) hel']; exact hb, ?_⟩
    rw [hadapters, hext]
    exact hreport
  · intro i f hf hopenS hclosed
    have hik : i ≠ k := by
      rintro rfl
      exact hopenS hnone
    rw [hext]
    rw [hopen' i hik] at hclosed
    exact ht.closed i f hf hopenS hclosed
  · intro i f id v hf hid hrecord hv
    rw [hext, hrecovered]
    by_cases hik : i = k
    · -- the new record: nothing recovered yet, and the adapter is untouched so far
      subst hik
      rw [ht.adapters, hf] at he
      cases he
      have hnew : id = t.book.ledger.exclusionCount + 1 := by
        rcases hrecord with hS | hU
        · rw [hnone] at hS
          exact absurd hS.symm hid
        rw [hopen, update_self] at hU
        exact hU.symm
      have hfresh : s.recovered id = 0 := by
        unfold recovered
        rw [hs.wellFormed.unopened id (.inr (by omega))]
        rfl
      exact ⟨v, by rw [hsame]; exact hv, by rw [if_pos hnew, hfresh]⟩
    rw [hopen' i hik] at hrecord
    have hold : id ≤ t.book.ledger.exclusionCount := by
      rcases hrecord with hS | hT
      · obtain ⟨-, -, hle, -⟩ := hs.open_record i (by rw [hS]; exact hid)
        omega
      obtain ⟨-, -, hle, -⟩ := htc.open_record i (by rw [hT]; exact hid)
      omega
    rw [if_neg (by omega)]
    exact ht.credit i f id v hf hid hrecord hv

/-- The entry can be drained without its balance entering the net asset value: shares exist, so that an ineligible
entry gets a record first, or it has a record, or it is eligible. -/
def Drainable (d : Deployment) (env : Outside σ) (s : Vault σ) (i : Nat) : Prop :=
  s.book.totalSupply ≠ 0 ∨ s.openExclusionOf i ≠ 0 ∨
    ∃ e, s.adapters[i]? = some e ∧ s.isEligible d env e.adapter = .ok true

def SyncedAt (d : Deployment) (env : Outside σ) (s : Vault σ) (i : Nat) : Prop :=
  ∀ e, s.adapters[i]? = some e → e.active = true → s.openExclusionOf i = 0 → s.isEligible d env e.adapter = .ok true

private theorem Tracks.restore (hx : env.ExactWithdraw d H) (hfunds : H s.hidden s.book) (hs : s.Consistent)
    (ht : Tracks d env s t) (htc : t.Consistent) (he : t.adapters[k]? = some e) (hopen : t.openExclusionOf k ≠ 0)
    (hel : e.active = true → t.isEligible d env e.adapter = .ok true) (h : t.restore d env k = .ok u) :
    Tracks d env s u ∧ u.openExclusionOf = Function.update t.openExclusionOf k 0 ∧
      ∀ b, b ≠ e.adapter → env.totalAssets u.hidden b = env.totalAssets t.hidden b := by
  simp only [Vault.restore, bind_eq_ok, entry_eq_ok, revertIf_eq_ok] at h
  obtain ⟨e', he', ⟨ok, m⟩, hm, -, hok, h⟩ := h
  rw [he] at he'
  cases he'
  have hsteady := drain_moved hm
  have hfin := finalize_spec h
  have hext : u.hidden = m.hidden := by
    rcases finalize_cases h with ⟨-, rfl⟩ | ⟨-, -, rfl⟩ <;> rfl
  refine ⟨?_, by rw [hfin.2.1, hsteady.openOf], ?_⟩
  · rcases drain_cases hx (ht.funds hx hfunds) hm with ⟨⟨trace, rfl⟩, hempty⟩ | ⟨v, hv, hrec⟩
    · exact (ht.of_trace ⟨trace, rfl⟩).close (by exact he) hel (hempty (by simpa using hok)) h
    have htm := ht.recover hs htc he (.inr hopen) (fun h0 => absurd h0 hopen) hrec
    refine htm.close (by rw [hsteady.adapters]; exact he) ?_ ?_ h
    · rw [hrec.isEligible]
      exact hel
    · simpa using (hrec.report v hv).2
  · intro b hb
    rw [hext]
    rcases drain_cases hx (ht.funds hx hfunds) hm with ⟨⟨trace, rfl⟩, -⟩ | ⟨v, -, hrec⟩
    · rfl
    · exact hrec.others b hb

/-- What one round of the sync loop knows: the entries ahead are as they were, the active ones without a record also in
what they report, and those behind are synced. -/
private structure Syncing (d : Deployment) (env : Outside σ) (s : Vault σ) (supply k : Nat) (t : Vault σ) : Prop where
  tracks : Tracks d env s t
  ahead : ∀ i, k ≤ i → t.openExclusionOf i = s.openExclusionOf i
  untouched : ∀ i e, s.adapters[i]? = some e → e.active = true → s.openExclusionOf i = 0 →
    env.totalAssets t.hidden e.adapter = env.totalAssets s.hidden e.adapter
  synced : ∀ i < k, supply ≠ 0 ∨ s.openExclusionOf i ≠ 0 → t.SyncedAt d env i

section

variable (hx : env.ExactWithdraw d H) (hfunds : H s.hidden s.book)

include hx hfunds

private theorem Syncing.syncEntry (hs : s.Sound false) {supply k : Nat}
    {restoring opened opened' : Bool} (hy : Syncing d env s supply k t) (hts : t.Sound opened)
    (h : syncEntry d env block supply restoring (t, opened) k = .ok (u, opened')) :
    Syncing d env s supply (k + 1) u := by
  obtain ⟨ht, hahead, huntouched, hsynced⟩ := hy
  simp only [Vault.syncEntry, bind_eq_ok, entry_eq_ok] at h
  obtain ⟨e, he, h⟩ := h
  have heS : s.adapters[k]? = some e := by rw [← ht.adapters]; exact he
  -- a round that leaves everything but the trace
  have hskip : t.SameButTrace u → (t.openExclusionOf k = 0 → e.active = true → supply ≠ 0 ∨ s.openExclusionOf k ≠ 0 →
      t.isEligible d env e.adapter = .ok true) → Syncing d env s supply (k + 1) u := by
    rintro ⟨trace, rfl⟩ hel
    refine ⟨ht.of_trace ⟨trace, rfl⟩, fun i hi => hahead i (by omega), huntouched, ?_⟩
    intro i hi hcond f hf hact hnone
    rcases Nat.lt_succ_iff_lt_or_eq.1 hi with hlt | rfl
    · exact hsynced i hlt hcond f hf hact hnone
    have hfe : e = f := Option.some.inj (he.symm.trans hf)
    subst hfe
    exact hel hnone hact hcond
  split at h
  · rename_i hact
    cases h
    exact hskip ⟨_, rfl⟩ (fun _ hact' => absurd hact' (by simp [hact]))
  rename_i hact
  have hact' : e.active = true := by simpa using hact
  obtain ⟨trace, hp⟩ := probe_sameButTrace env t e.adapter
  rw [hp] at h
  simp only [bind_eq_ok] at h
  obtain ⟨eligible, hel, h⟩ := h
  have hel' : t.isEligible d env e.adapter = .ok eligible := hel
  have htp : Tracks d env s { t with trace := trace } := ht.of_trace ⟨trace, rfl⟩
  have hpc : { t with trace := trace }.Consistent := ⟨hts.open_record, hts.record_open, hts.live_distinct⟩
  split at h
  · rename_i hnone
    have hnoneS : s.openExclusionOf k = 0 := by rw [← hahead k (le_refl k)]; exact hnone
    split at h
    · rename_i hcond
      cases h
      refine hskip ⟨trace, rfl⟩ ?_
      intro _ _ hsupply
      rcases hcond with rfl | hz
      · exact hel'
      · exact absurd hz (hsupply.resolve_right (fun hne => hne hnoneS))
    rename_i hcond
    simp only [bind_eq_ok, ok.injEq, Prod.mk.injEq] at h
    obtain ⟨m, hm, rfl, -⟩ := h
    have hfalse : eligible = false := by
      cases eligible
      · rfl
      · exact absurd (.inl rfl) hcond
    subst hfalse
    have htu := htp.open hs hpc he hel hnoneS (huntouched k e heS hact' hnoneS) hm
    obtain ⟨x, -, -, -, -, -, -, rfl⟩ := openExclusion_spec hm
    refine ⟨htu, ?_, huntouched, ?_⟩
    · intro i hi
      dsimp only
      rw [update_of_ne (by omega)]
      exact hahead i (by omega)
    · intro i hi hc f hf hfact hfnone
      dsimp only at hfnone
      rcases Nat.lt_succ_iff_lt_or_eq.1 hi with hlt | rfl
      · rw [update_of_ne (by omega)] at hfnone
        exact hsynced i hlt hc f hf hfact hfnone
      rw [update_self] at hfnone
      omega
  rename_i hopen
  split at h
  · rename_i hcond
    simp only [bind_eq_ok, ok.injEq, Prod.mk.injEq] at h
    obtain ⟨m, hm, rfl, -⟩ := h
    obtain ⟨htu, hopenU, hothers⟩ := htp.restore hx hfunds hs.toConsistent hpc he hopen
      (fun _ => by rw [← hcond.1]; exact hel) hm
    refine ⟨htu, ?_, ?_, ?_⟩
    · intro i hi
      rw [hopenU, update_of_ne (by omega)]
      exact hahead i (by omega)
    · intro i f hf hfact hfnone
      have hik : i ≠ k := by
        rintro rfl
        exact hopen (by rw [← hahead i (le_refl i)] at hfnone; exact hfnone)
      have hne : f.adapter ≠ e.adapter :=
        hpc.free he (.inr hopen) i f hik (by rw [htp.adapters]; exact hf) (.inl hfact)
      rw [hothers f.adapter hne]
      exact huntouched i f hf hfact hfnone
    · intro i hi hc f hf hfact hfnone
      rw [htu.adapters] at hf
      rw [htu.eligible]
      rcases Nat.lt_succ_iff_lt_or_eq.1 hi with hlt | rfl
      · rw [hopenU, update_of_ne (by omega)] at hfnone
        rw [← ht.eligible]
        exact hsynced i hlt hc f (by rw [ht.adapters]; exact hf) hfact hfnone
      rw [heS] at hf
      cases hf
      rw [← ht.eligible, hel', hcond.1]
  cases h
  exact hskip ⟨trace, rfl⟩ (fun h0 => absurd h0 hopen)

private theorem syncLoop_tracks (hs : s.Sound false) {restoring opened : Bool}
    (h : s.syncLoop d env block s.book.totalSupply restoring = .ok (t, opened)) :
    Tracks d env s t ∧ ∀ i, s.Drainable d env i → t.SyncedAt d env i := by
  have hinv := foldlM_range_invariant (f := syncEntry d env block s.book.totalSupply restoring)
    (n := s.adapters.length)
    (P := fun k x => x.1.Sound x.2 ∧ Syncing d env s s.book.totalSupply k x.1) ?_
    ⟨hs, .refl s, fun _ _ => rfl, fun _ _ _ _ _ => rfl, fun i hi => absurd hi (by omega)⟩ h
  · obtain ⟨-, ht, -, -, hsynced⟩ := hinv
    refine ⟨ht, ?_⟩
    intro i hd e he hact hnone
    have hi : i < s.adapters.length := by
      rw [ht.adapters] at he
      exact (List.getElem?_eq_some_iff.1 he).1
    by_cases hcond : s.book.totalSupply ≠ 0 ∨ s.openExclusionOf i ≠ 0
    · exact hsynced i hi hcond e he hact hnone
    rcases hd with hsupply | hopen | ⟨f, hf, hel⟩
    · exact absurd (.inl hsupply) hcond
    · exact absurd (.inr hopen) hcond
    rw [ht.adapters, hf] at he
    cases he
    rw [ht.eligible]
    exact hel
  · rintro k ⟨t, b⟩ ⟨u, b'⟩ - ⟨hts, hy⟩ hround
    exact ⟨hts.syncEntry hround, hy.syncEntry hx hfunds hs hts hround⟩

private theorem Tracks.emergencyPull (hs : s.Consistent) (ht : Tracks d env s t)
    (htc : t.Consistent) (he : t.adapters[k]? = some e) (hact : e.active = true) (hsync : t.SyncedAt d env k)
    (h : t.emergencyPull d env k = .ok u) : Tracks d env s u := by
  simp only [Vault.emergencyPull, bind_eq_ok, entry_eq_ok, ok.injEq] at h
  obtain ⟨e', he', ⟨ok, m⟩, hm, rfl⟩ := h
  rw [he] at he'
  cases he'
  rcases drain_cases hx (ht.funds hx hfunds) hm with ⟨htrace, -⟩ | ⟨v, hv, hrec⟩
  · exact ht.of_trace htrace
  refine ht.recover hs htc he (.inl hact) ?_ hrec
  intro hnone
  exact ⟨isCounted_eq_true.2 ⟨e, he, hact, hnone, hsync e he hact hnone⟩, v, hv⟩

private theorem Tracks.pullToTarget (hs : s.Consistent) (ht : Tracks d env s t)
    (htc : t.Consistent) {targets : List Nat} {k m m' : Nat}
    (hsync : t.SyncedAt d env k) (h : pullToTarget d env targets (t, m) k = .ok (u, m')) : Tracks d env s u := by
  simp only [Vault.pullToTarget, bind_eq_ok, entry_eq_ok] at h
  obtain ⟨e, he, h⟩ := h
  split at h
  · cases h; exact ht
  rename_i hact
  have hact' : e.active = true := by simpa using hact
  simp only [bind_eq_ok, reported, Reply.value_eq_ok] at h
  obtain ⟨current, hcurrent, target, -, h⟩ := h
  have hcontact : Tracks d env s (t.contact e.adapter) := ht.of_trace ⟨_, rfl⟩
  split at h
  · simp only [bind_eq_ok, ok.injEq, Prod.mk.injEq] at h
    obtain ⟨⟨actual, v⟩, hv, -, -, w, hw, rfl, -⟩ := h
    have hopen : v.openExclusionOf k = t.openExclusionOf k := by rw [(callWithdraw_moved hv).openOf]; rfl
    dsimp only at hw
    rw [hopen] at hw
    have hle : ∀ b, env.totalAssets (t.contact e.adapter).hidden e.adapter = .returned b → current - target ≤ b := by
      intro b hb
      rw [hcurrent] at hb
      cases hb
      omega
    obtain ⟨y, hrec⟩ := withdraw_credit_recovers hx (hcontact.funds hx hfunds) hle hv hw
    refine hcontact.recover hs ⟨htc.open_record, htc.record_open, htc.live_distinct⟩ he (.inl hact') ?_ hrec
    intro hnone
    exact ⟨isCounted_eq_true.2 ⟨e, he, hact', hnone, hsync e he hact' hnone⟩, current, hcurrent⟩
  · cases h; exact hcontact

private theorem Tracks.recoverRemoved (hs : s.Consistent) {i amount : Nat}
    (h : s.recoverRemoved d env i amount = .ok u) : Tracks d env s u := by
  unfold Vault.recoverRemoved at h
  split at h
  · cases h
  rename_i e he
  simp only [bind_eq_ok, revertIf_eq_ok] at h
  obtain ⟨-, hinactive, -, hopen, balance, hbalance, t, ht, h⟩ := h
  have hcontact : Tracks d env s (s.contact e.adapter) := (Tracks.refl s).of_trace ⟨_, rfl⟩
  have hct : Tracks d env s t := by
    unfold recoverTranche at ht
    split at ht
    · cases ht; exact hcontact
    simp only [bind_eq_ok] at ht
    obtain ⟨⟨r, v⟩, hv, ht⟩ := ht
    have hle : ∀ b, env.totalAssets (s.contact e.adapter).hidden e.adapter = .returned b →
        min amount (balance.getD amount) ≤ b := by
      intro b hb
      rw [hb] at hbalance
      cases hbalance
      exact min_le_right _ _
    obtain ⟨y, hrec⟩ := withdraw_credit_recovers hx (hcontact.funds hx hfunds) hle hv ht
    exact hcontact.recover hs ⟨hs.open_record, hs.record_open, hs.live_distinct⟩ he (.inr hopen)
      (fun h0 => absurd h0 hopen) hrec
  simp only [closeWhenEmpty, bind_eq_ok] at h
  obtain ⟨left, hleft, h⟩ := h
  have hct' : Tracks d env s (t.contact e.adapter) := hct.of_trace ⟨_, rfl⟩
  split at h
  · rename_i hzero
    rw [hzero] at hleft
    refine hct'.close (e := e) ?_ (fun hact => absurd hact hinactive) (Reply.caught_eq_some.1 hleft) h
    rw [hct'.adapters]
    exact he
  · cases h; exact hct'

end

/-- What a lever leaves to the holders: the net asset value is as before and still has a value, and for every record
that was open at the start or is open at the end, what left its adapter is in the record. -/
structure Conserves (d : Deployment) (env : Outside σ) (s s' : Vault σ) : Prop where
  nav : s'.netAssets d env = s.netAssets d env
  priced : s.Priced d env → s'.Priced d env
  credit : ∀ i e id v, s.adapters[i]? = some e → id ≠ 0 → s.openExclusionOf i = id ∨ s'.openExclusionOf i = id →
    env.totalAssets s.hidden e.adapter = .returned v →
    ∃ v', env.totalAssets s'.hidden e.adapter = .returned v' ∧ s'.recovered id + v' = s.recovered id + v
  custody : s'.book.usdc d.ledger + s.book.ledger.heldUsdc = s.book.usdc d.ledger + s'.book.ledger.heldUsdc

private theorem Tracks.conserves (ht : Tracks d env s t) : Conserves d env s t :=
  ⟨ht.nav, ht.priced, ht.credit, ht.custody⟩

private theorem push_empty (htc : t.Consistent) (hempty : env.totalAssets t.hidden e.adapter = .returned 0)
    (hact : e.active = true) (hel : t.isEligible d env e.adapter = .ok true) :
    { t with adapters := t.adapters ++ [e] }.netAssets d env = t.netAssets d env ∧
      (t.Priced d env → { t with adapters := t.adapters ++ [e] }.Priced d env) := by
  have hentry : ∀ j < t.adapters.length, (t.adapters ++ [e])[j]? = t.adapters[j]? :=
    fun j hj => getElem?_append_left hj
  have hold : ∀ j < t.adapters.length,
      { t with adapters := t.adapters ++ [e] }.isCounted d env j = t.isCounted d env j := by
    intro j hj
    unfold isCounted isUsable Vault.entry
    dsimp only
    rw [hentry j hj]
    rfl
  have hnew : { t with adapters := t.adapters ++ [e] }.isCounted d env t.adapters.length = .ok true := by
    refine isCounted_eq_true.2 ⟨e, by simp, hact, ?_, hel⟩
    by_contra hne
    obtain ⟨f, hf, -⟩ := htc.open_record t.adapters.length hne
    simp at hf
  constructor
  · unfold netAssets
    simp only [length_append, length_singleton, Finset.sum_range_succ]
    rw [contribution_of_counted (e := e) hnew (by simp), Outside.balanceOf_eq hempty, add_zero]
    refine congrArg₂ (· + ·) rfl (Finset.sum_congr rfl ?_)
    intro j hj
    have hj' : j < t.adapters.length := Finset.mem_range.1 hj
    unfold contribution
    rw [hold j hj']
    dsimp only
    rw [hentry j hj']
  · intro hp j hj
    simp only [length_append, length_singleton] at hj
    rcases Nat.lt_succ_iff_lt_or_eq.1 hj with hlt | rfl
    · obtain ⟨b, hb, hreport⟩ := hp j hlt
      refine ⟨b, by rw [hold j hlt]; exact hb, ?_⟩
      intro hbt f hf
      dsimp only at hf
      rw [hentry j hlt] at hf
      exact hreport hbt f hf
    refine ⟨true, hnew, ?_⟩
    intro _ f hf
    simp at hf
    subst hf
    exact ⟨0, hempty⟩

private theorem addAdapter_conserves (hx : env.ExactWithdraw d H) (hfunds : H s.hidden s.book) (hs : s.Sound false)
    {capBps : Nat}
    (hrecord : ∃ i e, s.adapters[i]? = some e ∧ e.adapter = a ∧ s.openExclusionOf i ≠ 0)
    (h : s.addAdapter d env a capBps = .ok u) : Conserves d env s u := by
  simp only [addAdapter, bind_eq_ok, revertIf_eq_ok, ok.injEq] at h
  obtain ⟨-, -, -, -, -, hinactive, -, -, ⟨⟩, hel, t, hloop, rfl⟩ := h
  have hsettled := settle_loop hs hloop
  have ht : Tracks d env s t := by
    have hinv := foldlM_invariant (P := fun t => t.Sound false ∧ Tracks d env s t) ?_ ⟨hs, .refl s⟩ hloop
    · exact hinv.2
    · rintro t k t' - ⟨hts, ht⟩ hround
      simp only [Vault.settle, bind_eq_ok, entry_eq_ok] at hround
      obtain ⟨f, hf, hround⟩ := hround
      split at hround
      · rename_i hfa
        have hnot : f.active ≠ true := by
          intro hact
          refine hinactive ?_
          rw [any_eq_true]
          rw [ht.adapters] at hf
          exact ⟨f, mem_of_getElem? hf, by simp [hact, hfa.1]⟩
        exact ⟨hts.restore hround, (ht.restore hx hfunds hs.toConsistent hts.toConsistent hf hfa.2
          (fun hact => absurd hact hnot) hround).1⟩
      cases hround
      exact ⟨hts, ht⟩
  obtain ⟨i, e, he, rfl, hopen⟩ := hrecord
  have hempty : env.totalAssets t.hidden e.adapter = .returned 0 :=
    ht.closed i e he hopen (by rw [hsettled.2.2.2 i e he rfl]; exact Ne.symm hopen)
  have hel' : t.isEligible d env e.adapter = .ok true := by
    rw [ht.eligible]
    exact isEligible_of_requireEligible hel
  have hpush := push_empty (e := ⟨e.adapter, capBps, true⟩) hsettled.1.toConsistent hempty rfl hel'
  exact ⟨hpush.1.trans ht.nav, fun hp => hpush.2 (ht.priced hp), ht.credit, ht.custody⟩

/-- The levers that take USDC out of adapters or let entries count again. -/
inductive Recovery where
  | emergencyWithdraw
  | emergencyWithdrawAdapter (index : Nat)
  | adminRebalancePull (targets : List Nat)
  | recoverRemoved (index amount : Nat)
  | syncExclusions (restoring : Bool)
  | addAdapter (adapter : Address) (capBps : Nat)

/-- The lever, for `adminRebalance` its pull phase only. -/
def recover (d : Deployment) (env : Outside σ) (s : Vault σ) (block : Block) : Recovery → Except Revert (Vault σ)
  | .emergencyWithdraw => s.emergencyWithdraw d env block
  | .emergencyWithdrawAdapter i => s.emergencyWithdrawAdapter d env block i
  | .adminRebalancePull targets => do
    let (s, opened) ← s.adminRebalancePull d env block s.book.totalSupply targets
    .ok (s.markExclusionOpened opened)
  | .recoverRemoved i amount => s.recoverRemoved d env i amount
  | .syncExclusions restoring => s.syncExclusions d env block restoring
  | .addAdapter a capBps => s.addAdapter d env a capBps

/-- What the levers drain is drainable, and what `addAdapter` adds has an open record. -/
def Recovery.Covered (d : Deployment) (env : Outside σ) (s : Vault σ) : Recovery → Prop
  | .emergencyWithdraw | .adminRebalancePull _ =>
    ∀ i e, s.adapters[i]? = some e → e.active = true → s.Drainable d env i
  | .emergencyWithdrawAdapter i => s.Drainable d env i
  | .addAdapter a _ => ∃ i e, s.adapters[i]? = some e ∧ e.adapter = a ∧ s.openExclusionOf i ≠ 0
  | .recoverRemoved .. | .syncExclusions _ => True

private theorem Tracks.syncedAt (ht : Tracks d env s t) (hu : Tracks d env s u)
    (hopen : u.openExclusionOf = t.openExclusionOf) (h : t.SyncedAt d env i) : u.SyncedAt d env i := by
  intro e he hact hnone
  rw [hu.eligible, ← ht.eligible]
  exact h e (by rw [ht.adapters, ← hu.adapters]; exact he) hact (by rw [← hopen]; exact hnone)

section

variable (hx : env.ExactWithdraw d H) (hfunds : H s.hidden s.book)

include hx hfunds

private theorem emergencyWithdraw_tracks (hs : s.Sound false)
    (hd : ∀ i e, s.adapters[i]? = some e → e.active = true → s.Drainable d env i)
    (h : s.emergencyWithdraw d env block = .ok u) : Tracks d env s u := by
  simp only [emergencyWithdraw, emergencyWithdrawAll, bind_eq_ok, ok.injEq] at h
  obtain ⟨x, ⟨⟨t, opened⟩, ht, v, hv, rfl⟩, rfl⟩ := h
  have hs' : { s with depositsPaused := true }.Sound false := hs.of_same ⟨rfl, rfl, .refl _, id, id⟩
  obtain ⟨htr, hsynced⟩ := syncLoop_tracks (s := { s with depositsPaused := true }) hx hfunds hs' ht
  have hinv := foldlM_invariant (f := emergencyPullActive d env)
    (P := fun v => v.Sound opened ∧ Tracks d env s v ∧ v.openExclusionOf = t.openExclusionOf) ?_
    ⟨hs'.syncLoop ht, htr.of_paused, rfl⟩ hv
  · exact hinv.2.1.mark opened
  · rintro v k w - ⟨hvs, hvt, hopen⟩ hround
    have hsteady := emergencyPullActive_moved hround
    refine ⟨hvs.of_moved hsteady, ?_, hsteady.openOf.trans hopen⟩
    simp only [emergencyPullActive, bind_eq_ok, entry_eq_ok] at hround
    obtain ⟨e, he, hround⟩ := hround
    split at hround
    · cases hround; exact hvt
    rename_i hact
    have hact' : e.active = true := by simpa using hact
    have hdk := hd k e (by rw [← hvt.adapters]; exact he) hact'
    exact hvt.emergencyPull hx hfunds hs.toConsistent hvs.toConsistent he hact'
      (htr.of_paused.syncedAt hvt hopen (hsynced k hdk)) hround

private theorem emergencyWithdrawAdapter_tracks (hs : s.Sound false) (hd : s.Drainable d env i)
    (h : s.emergencyWithdrawAdapter d env block i = .ok u) : Tracks d env s u := by
  simp only [emergencyWithdrawAdapter, emergencyWithdrawOne, bind_eq_ok, requireActive_eq_ok, ok.injEq] at h
  obtain ⟨x, ⟨e, ⟨he, hact⟩, ⟨t, opened⟩, ht, v, hv, rfl⟩, rfl⟩ := h
  have hs' : { s with depositsPaused := true }.Sound false := hs.of_same ⟨rfl, rfl, .refl _, id, id⟩
  obtain ⟨htr, hsynced⟩ := syncLoop_tracks (s := { s with depositsPaused := true }) hx hfunds hs' ht
  have he' : t.adapters[i]? = some e := by rw [htr.adapters]; exact he
  exact (htr.of_paused.emergencyPull hx hfunds hs.toConsistent (hs'.syncLoop ht).toConsistent he' hact (hsynced i hd)
    hv).mark opened

private theorem adminRebalancePull_tracks (hs : s.Sound false) {targets : List Nat}
    (hd : ∀ i e, s.adapters[i]? = some e → e.active = true → s.Drainable d env i)
    (h : s.adminRebalancePull d env block s.book.totalSupply targets = .ok (u, opened)) : Tracks d env s u := by
  simp only [adminRebalancePull, bind_eq_ok, ok.injEq, Prod.mk.injEq] at h
  obtain ⟨-, -, ⟨t, opened'⟩, ht, ⟨v, moved⟩, hv, rfl, -⟩ := h
  obtain ⟨htr, hsynced⟩ := syncLoop_tracks hx hfunds hs ht
  have hinv := foldlM_invariant (f := pullToTarget d env targets)
    (P := fun x => x.1.Sound opened' ∧ Tracks d env s x.1 ∧ x.1.openExclusionOf = t.openExclusionOf) ?_
    ⟨hs.syncLoop ht, htr, rfl⟩ hv
  · exact hinv.2.1
  · rintro ⟨v, m⟩ k ⟨w, m'⟩ - ⟨hvs, hvt, hopen⟩ hround
    have hsteady := pullToTarget_moved hround
    refine ⟨hvs.of_moved hsteady, ?_, hsteady.openOf.trans hopen⟩
    refine hvt.pullToTarget hx hfunds hs.toConsistent hvs.toConsistent ?_ hround
    -- an inactive entry is synced for free
    intro e he hact hnone
    have hdk := hd k e (by rw [← hvt.adapters]; exact he) hact
    exact htr.syncedAt hvt hopen (hsynced k hdk) e he hact hnone

private theorem recover_conserves (hs : s.Sound false) {lever : Recovery}
    (hcovered : lever.Covered d env s) (h : s.recover d env block lever = .ok s') : Conserves d env s s' := by
  cases lever with
  | emergencyWithdraw => exact (emergencyWithdraw_tracks hx hfunds hs hcovered h).conserves
  | emergencyWithdrawAdapter i => exact (emergencyWithdrawAdapter_tracks hx hfunds hs hcovered h).conserves
  | adminRebalancePull targets =>
    simp only [Vault.recover, bind_eq_ok, ok.injEq] at h
    obtain ⟨⟨t, opened⟩, ht, rfl⟩ := h
    exact ((adminRebalancePull_tracks hx hfunds hs hcovered ht).mark opened).conserves
  | recoverRemoved i amount => exact (Tracks.recoverRemoved hx hfunds hs.toConsistent h).conserves
  | syncExclusions restoring =>
    simp only [Vault.recover, syncExclusions, bind_eq_ok, ok.injEq] at h
    obtain ⟨⟨t, opened⟩, ht, rfl⟩ := h
    exact ((syncLoop_tracks hx hfunds hs ht).1.mark opened).conserves
  | addAdapter a capBps => exact addAdapter_conserves hx hfunds hs hcovered h

end

end Vault

/-- Recovery does not inflate the share price.  In every state the system reaches, with adapters that can pay and pay
exactly what they are asked for, a lever leaves `totalAssets` no greater than before; and for every entry whose record
was open before the call or is open after it, the record was credited with exactly what left the adapter, and the ledger
holds that USDC. -/
theorem recovery_keeps_price_and_credits_records {σ : Type} (d : Deployment) (env : Outside σ)
    (H : σ → ShareBook → Prop) (hx : env.ExactWithdraw d H) (s s' : Vault σ) (hreach : s.Reached d env)
    (hfunds : H s.hidden s.book) (block : Block) (lever : Vault.Recovery) (hcovered : lever.Covered d env s)
    (h : s.recover d env block lever = .ok s') :
    (∀ nav nav', s.totalAssets d env = .ok nav → s'.totalAssets d env = .ok nav' → nav' ≤ nav) ∧
    (∀ nav, s.totalAssets d env = .ok nav → nav < wordSize → ∃ nav', s'.totalAssets d env = .ok nav') ∧
    (∀ i e id v, s.adapters[i]? = some e → id ≠ 0 → s.openExclusionOf i = id ∨ s'.openExclusionOf i = id →
      env.totalAssets s.hidden e.adapter = .returned v →
      ∃ v', env.totalAssets s'.hidden e.adapter = .returned v' ∧ s'.recovered id + v' = s.recovered id + v) ∧
    s'.book.usdc d.ledger + s.book.ledger.heldUsdc = s.book.usdc d.ledger + s'.book.ledger.heldUsdc := by
  have hc := Vault.recover_conserves hx hfunds hreach.sound hcovered h
  refine ⟨?_, ?_, hc.credit, hc.custody⟩
  · intro nav nav' hnav hnav'
    rw [(Vault.totalAssets_eq_ok hnav).2, (Vault.totalAssets_eq_ok hnav').2, hc.nav]
  · intro nav hnav hfit
    obtain ⟨hpriced, hval⟩ := Vault.totalAssets_eq_ok hnav
    exact ⟨_, Vault.totalAssets_returns (hc.priced hpriced) (by rw [hc.nav, ← hval]; exact hfit)⟩

def excludedAdapter : List (Tx (Address → Nat)) :=
  [⟨21, .sample, .setAdapterCodeHashAllowed 7 true⟩, ⟨21, .sample, .setAdapterAllowed 30 true⟩,
    ⟨21, .sample, .setAdapterAllowed 31 true⟩, ⟨21, .sample, .addAdapter 30 5000⟩,
    ⟨21, .sample, .addAdapter 31 10000⟩, ⟨5, .sample, .deposit 1000 5⟩, ⟨21, .sample, .setAdapterAllowed 30 false⟩]

theorem recovery_credits_excluded :
    ∃ s s' : Vault (Address → Nat), s.Reached .sample .sample ∧
      s.recover .sample .sample .sample .emergencyWithdraw = .ok s' ∧ s.openExclusionOf 0 = 1 ∧ s.recovered 1 = 0 ∧
      ∃ v', Outside.sample.totalAssets s'.hidden 30 = .returned v' ∧ s'.recovered 1 + v' = 0 + 500 := by
  obtain ⟨s₀, hinit, hreached⟩ := Vault.sample_reached .sample (fun _ => 0) excludedAdapter
  cases hinit
  refine ⟨_, _, hreached, rfl, rfl, rfl, ?_⟩
  refine (recovery_keeps_price_and_credits_records _ _ _ Outside.sample_exactWithdraw _ _ hreached trivial .sample
    .emergencyWithdraw ?_ rfl).2.2.1 0 ⟨30, 5000, true⟩ 1 500 rfl (by decide) (.inl rfl) rfl
  intro i e _ _
  exact .inl (by decide)

/-- An adapter is added to a vault without shares, holds USDC, and loses its allowance. -/
def unsharedAdapter : List (Tx (Address → Nat)) :=
  [⟨21, .sample, .setAdapterCodeHashAllowed 7 true⟩, ⟨21, .sample, .setAdapterAllowed 30 true⟩,
    ⟨21, .sample, .addAdapter 30 5000⟩, ⟨5, .sample, .outside [] (Function.update (fun _ => 0) 30 10)⟩,
    ⟨21, .sample, .setAdapterAllowed 30 false⟩]

/-- While no shares exist, no record opens for an ineligible adapter, and draining it raises the net asset value. -/
theorem recovery_raises_unshared_nav :
    ∃ s s' : Vault (Address → Nat), s.Reached .sample .sample ∧ Outside.sample.ExactWithdraw .sample (fun _ _ => True) ∧
      s.recover .sample .sample .sample .emergencyWithdraw = .ok s' ∧
      s.totalAssets .sample .sample = .ok 0 ∧ s'.totalAssets .sample .sample = .ok 10 := by
  obtain ⟨s₀, hinit⟩ : ∃ s₀ : Vault (Address → Nat),
      Vault.initialize .sample (fun _ => 0) (fun _ => 0) = .ok s₀ := ⟨_, rfl⟩
  have hreached : (run (vaultStep .sample .sample) s₀ unsharedAdapter).Reached .sample .sample :=
    ⟨_, _, _, s₀, hinit, unsharedAdapter, rfl⟩
  cases hinit
  exact ⟨_, _, hreached, Outside.sample_exactWithdraw, rfl, rfl, rfl⟩

end RobotMoney
