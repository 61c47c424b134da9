import RobotMoney.Vault.Registry

/-!
# What governance sets

The registry entries, the two deposit caps, the shutdown flag and the throttle of a rebalance are the settings of the
vault.  Moving money leaves them alone, whatever the adapters do while they are called.

* A call that returns has passed the checks of `VaultCall.Admits` and edits the settings as `VaultCall.edit` says
  (`settings_step`).
* Between calls every slice is between 1 and 10000 bps, at most 20 entries are active, and the throttle is at most 5000
  bps (`Vault.Reached.settings_bounded`).
* `perDepositCap ≤ tvlCap` unless the latter is 0, and a vault that is shut down has a cap of 0 for as long as no admin
  sets a new one by `setTvlCap` in the meantime (`caps_ordered_and_zero_while_shut_iff`).
-/

namespace RobotMoney

open Evm Except List

structure Settings where
  adapters : List AdapterInfo
  tvlCap : Nat
  perDepositCap : Nat
  shutdown : Bool
  maxRebalanceBpsPerCall : Nat
  deriving DecidableEq, Repr

def Settings.activeCount (p : Settings) : Nat := p.adapters.countP (·.active)

/-- Entry `i` becomes inactive. -/
def Settings.deactivate (p : Settings) (i : Nat) : Settings :=
  { p with adapters := p.adapters.modify i fun e => { e with active := false } }

variable {σ : Type}

def Vault.settings (s : Vault σ) : Settings where
  adapters := s.adapters
  tvlCap := s.tvlCap
  perDepositCap := s.perDepositCap
  shutdown := s.shutdown
  maxRebalanceBpsPerCall := s.maxRebalanceBpsPerCall

open Vault

def VaultCall.edit : VaultCall σ → Settings → Settings
  | .addAdapter a capBps, p => { p with adapters := p.adapters ++ [⟨a, capBps, true⟩] }
  | .removeAdapter i, p => p.deactivate i
  | .forceRemoveAdapter i, p => p.deactivate i
  | .setAdapterCap i capBps, p => { p with adapters := p.adapters.modify i fun e => { e with capBps := capBps } }
  | .shutdownVault, p => { p with shutdown := true, tvlCap := 0 }
  | .restoreVault newTvlCap, p => { p with shutdown := false, tvlCap := newTvlCap }
  | .setTvlCap newCap, p => { p with tvlCap := newCap }
  | .setPerDepositCap newCap, p => { p with perDepositCap := newCap }
  | .setMaxRebalanceBpsPerCall newBps, p => { p with maxRebalanceBpsPerCall := newBps }
  | _, p => p

def VaultCall.Admits : VaultCall σ → Settings → Prop
  | .addAdapter _ capBps, p => 0 < capBps ∧ capBps ≤ maxBps ∧ p.activeCount < maxAdapters
  | .setAdapterCap _ capBps, _ => 0 < capBps ∧ capBps ≤ maxBps
  | .restoreVault newTvlCap, p => p.shutdown = true ∧ 0 < newTvlCap ∧ p.perDepositCap ≤ newTvlCap
  | .setTvlCap newCap, p => 0 < newCap → p.perDepositCap ≤ newCap
  | .setPerDepositCap newCap, p => 0 < p.tvlCap → newCap ≤ p.tvlCap
  | .setMaxRebalanceBpsPerCall newBps, _ => 0 < newBps ∧ newBps ≤ 5000
  | _, _ => True

namespace Vault

open Except

variable {d : Deployment} {env : Outside σ} {s s' : Vault σ}

variable {a : Address} {block : Block} {i supply : Nat} {restoring opened : Bool} {targets : List Nat}

private theorem Moved.settings (h : s.Moved s') : s'.settings = s.settings := by
  rw [Vault.settings, h.adapters, h.tvlCap, h.perDepositCap, h.shutdown, h.maxRebalanceBpsPerCall]
  rfl

private theorem finalize_settings (h : s.finalize d i = .ok s') : s'.settings = s.settings := by
  rcases finalize_cases h with ⟨-, rfl⟩ | ⟨-, -, rfl⟩ <;> rfl

theorem openExclusion_settings (h : s.openExclusion d env block i a supply = .ok s') : s'.settings = s.settings := by
  obtain ⟨x, -, -, -, -, -, -, rfl⟩ := openExclusion_spec h
  rfl

private theorem restore_settings (h : s.restore d env i = .ok s') : s'.settings = s.settings := by
  obtain ⟨t, ht, h⟩ := restore_spec h
  exact (finalize_settings h).trans ht.settings

private theorem syncEntry_settings {opened opened' : Bool}
    (h : syncEntry d env block supply restoring (s, opened) i = .ok (s', opened')) : s'.settings = s.settings := by
  simp only [syncEntry, bind_eq_ok] at h
  obtain ⟨e, -, h⟩ := h
  have hprobe := (@probe_moved _ env s e.adapter).settings
  split at h
  · cases h; rfl
  simp only [bind_eq_ok] at h
  obtain ⟨eligible, -, h⟩ := h
  split at h
  · split at h
    · cases h; exact hprobe
    simp only [bind_eq_ok, ok.injEq, Prod.mk.injEq] at h
    obtain ⟨t, ht, rfl, -⟩ := h
    exact (openExclusion_settings ht).trans hprobe
  split at h
  · simp only [bind_eq_ok, ok.injEq, Prod.mk.injEq] at h
    obtain ⟨t, ht, rfl, -⟩ := h
    exact (restore_settings ht).trans hprobe
  · cases h; exact hprobe

private theorem syncLoop_settings (h : s.syncLoop d env block supply restoring = .ok (s', opened)) :
    s'.settings = s.settings := by
  refine foldlM_invariant (P := fun x : Vault σ × Bool => x.1.settings = s.settings) ?_ rfl h
  rintro ⟨t, b⟩ i ⟨t', b'⟩ _ ht hstep
  exact (syncEntry_settings hstep).trans ht

theorem syncExclusions_settings (h : s.syncExclusions d env block restoring = .ok s') : s'.settings = s.settings := by
  simp only [syncExclusions, bind_eq_ok, ok.injEq] at h
  obtain ⟨⟨t, opened⟩, ht, rfl⟩ := h
  have hsynced := syncLoop_settings ht
  exact hsynced

private theorem settle_settings (h : settle d env a s i = .ok s') : s'.settings = s.settings := by
  simp only [settle, bind_eq_ok] at h
  obtain ⟨e, -, h⟩ := h
  split at h
  · exact restore_settings h
  · cases h; rfl

private theorem forceRemoveAdapter_settings (h : s.forceRemoveAdapter d env block supply i = .ok (s', opened)) :
    s'.settings = s.settings.deactivate i := by
  simp only [forceRemoveAdapter, forceRemoved, bind_eq_ok] at h
  obtain ⟨e, -, balance, -, h⟩ := h
  split at h
  · simp only [bind_eq_ok, ok.injEq, Prod.mk.injEq] at h
    obtain ⟨t, ht, rfl, -⟩ := h
    exact finalize_settings ht
  split at h
  · simp only [bind_eq_ok, ok.injEq, Prod.mk.injEq] at h
    obtain ⟨t, ht, rfl, -⟩ := h
    exact openExclusion_settings ht
  · cases h; rfl

private theorem recoverRemoved_settings {i amount : Nat} (h : s.recoverRemoved d env i amount = .ok s') :
    s'.settings = s.settings := by
  unfold recoverRemoved at h
  split at h
  · cases h
  simp only [closeWhenEmpty, bind_eq_ok] at h
  obtain ⟨-, -, -, -, balance, -, t, ht, left, -, h⟩ := h
  have htranche := (recoverTranche_moved ht).settings
  split at h
  · exact (finalize_settings h).trans htranche
  cases h
  exact htranche

theorem adminRebalance_settings (h : s.adminRebalance d env block targets = .ok s') : s'.settings = s.settings := by
  simp only [adminRebalance, adminRebalancePull, adminRebalanceAllocate, bind_eq_ok, ok.injEq] at h
  obtain ⟨⟨t, opened⟩, ⟨-, -, ⟨u, b⟩, hu, ⟨v, m⟩, hv, rfl, rfl⟩, w, ⟨⟨x, n⟩, hx, rfl⟩, rfl⟩ := h
  have hpulled := (foldlM_pair_moved pullToTarget_moved hv).settings
  have hplaced := (foldlM_pair_moved allocateToTarget_moved hx).settings
  exact (hplaced.trans hpulled).trans (syncLoop_settings hu)

private theorem addAdapter_settings {capBps : Nat} (h : s.addAdapter d env a capBps = .ok s') :
    0 < capBps ∧ capBps ≤ maxBps ∧ s.activeCount < maxAdapters ∧
      s'.settings = { s.settings with adapters := s.settings.adapters ++ [⟨a, capBps, true⟩] } := by
  simp only [addAdapter, bind_eq_ok, revertIf_eq_ok, not_or, not_lt, not_le, ok.injEq] at h
  obtain ⟨-, -, -, ⟨hpos, hle⟩, -, -, -, hcount, -, -, t, ht, rfl⟩ := h
  refine ⟨Nat.pos_of_ne_zero hpos, hle, hcount, ?_⟩
  have hsettled : t.settings = s.settings := by
    refine foldlM_invariant (P := fun t : Vault σ => t.settings = s.settings) ?_ rfl ht
    intro t i t' _ ht hstep
    exact (settle_settings hstep).trans ht
  rw [← hsettled]
  rfl

end Vault

variable {d : Deployment} {env : Outside σ} {s : Vault σ}

/-- Step lemma: a call that returns has passed its checks and edits the settings. -/
theorem settings_step {s s' : Vault σ} {tx : Tx σ} (h : vaultStep d env s tx = .ok s') :
    tx.call.Admits s.settings ∧ s'.settings = tx.call.edit s.settings := by
  obtain ⟨sender, block, call⟩ := tx
  unfold vaultStep at h
  have hstart : ({ s with trace := [] } : Vault σ).settings = s.settings := rfl
  have hcount : ({ s with trace := [] } : Vault σ).activeCount = s.settings.activeCount := rfl
  generalize ({ s with trace := [] } : Vault σ) = t at h hstart hcount
  dsimp only at h ⊢
  rw [← hstart] at hcount ⊢
  cases call with
  | deposit assets receiver | mint shares receiver | withdraw assets receiver owner | redeem shares receiver owner
  | approve spender value | transferShares target value | transferSharesFrom source target value
  | setAdapterMaxExposure i cap | rebalance | outside calls hidden =>
    exact ⟨trivial, (vaultCall_moved h trivial).settings⟩
  | addAdapter a capBps =>
    simp only [vaultCall, bind_eq_ok] at h
    obtain ⟨-, -, h⟩ := h
    obtain ⟨hpos, hle, hroom, hedit⟩ := addAdapter_settings h
    exact ⟨⟨hpos, hle, hcount ▸ hroom⟩, hedit⟩
  | removeAdapter i =>
    simp only [vaultCall, removeAdapter, bind_eq_ok] at h
    obtain ⟨-, -, e, -, balance, -, -, -, h⟩ := h
    have hfinal := finalize_settings h
    exact ⟨trivial, hfinal⟩
  | setAdapterCap i capBps =>
    simp only [vaultCall, setAdapterCap, bind_eq_ok, revertIf_eq_ok, not_or, not_lt, ok.injEq] at h
    obtain ⟨-, -, e, -, -, ⟨hpos, hle⟩, rfl⟩ := h
    exact ⟨⟨Nat.pos_of_ne_zero hpos, hle⟩, rfl⟩
  | setAdapterAllowed a value | setAdapterCodeHashAllowed codeHash value =>
    simp only [vaultCall, setAdapterAllowed, setAdapterCodeHashAllowed, bind_eq_ok] at h
    obtain ⟨-, -, -, -, h⟩ := h
    have hsynced := syncExclusions_settings h
    exact ⟨trivial, hsynced⟩
  | syncExclusions => exact ⟨trivial, syncExclusions_settings h⟩
  | adminRebalance targets =>
    simp only [vaultCall, bind_eq_ok] at h
    obtain ⟨-, -, h⟩ := h
    exact ⟨trivial, adminRebalance_settings h⟩
  | emergencyWithdraw =>
    simp only [vaultCall, emergencyWithdraw, emergencyWithdrawAll, bind_eq_ok, ok.injEq] at h
    obtain ⟨-, -, -, ⟨⟨u, opened⟩, hu, v, hv, rfl⟩, rfl⟩ := h
    have hsynced := syncLoop_settings hu
    have hdrained : v.settings = u.settings := by
      refine foldlM_invariant (P := fun v : Vault σ => v.settings = u.settings) ?_ rfl hv
      intro v i v' _ hv hstep
      exact (emergencyPullActive_moved hstep).settings.trans hv
    exact ⟨trivial, hdrained.trans hsynced⟩
  | emergencyWithdrawAdapter i =>
    simp only [vaultCall, emergencyWithdrawAdapter, emergencyWithdrawOne, bind_eq_ok, ok.injEq] at h
    obtain ⟨-, -, -, ⟨e, -, ⟨u, opened⟩, hu, v, hv, rfl⟩, rfl⟩ := h
    have hsynced := syncLoop_settings hu
    exact ⟨trivial, (emergencyPull_moved hv).settings.trans hsynced⟩
  | emergencyExcludeAdapter i =>
    simp only [vaultCall, emergencyExcludeAdapter, emergencyExclude, bind_eq_ok, ok.injEq] at h
    obtain ⟨-, -, ⟨u, opened⟩, ⟨e, -, hu⟩, rfl⟩ := h
    have hsynced := syncLoop_settings hu
    exact ⟨trivial, hsynced⟩
  | forceRemoveAdapter i =>
    simp only [vaultCall, forceRemove, bind_eq_ok, ok.injEq] at h
    obtain ⟨-, -, ⟨u, opened⟩, hu, rfl⟩ := h
    have hremoved := forceRemoveAdapter_settings hu
    exact ⟨trivial, hremoved⟩
  | recoverRemovedAdapter i amount =>
    simp only [vaultCall, bind_eq_ok] at h
    obtain ⟨-, -, h⟩ := h
    exact ⟨trivial, recoverRemoved_settings h⟩
  | renounceRole role =>
    simp only [vaultCall, ok.injEq] at h
    subst h
    exact ⟨trivial, rfl⟩
  | pauseDeposits | unpauseDeposits | shutdownVault | setRole role account held =>
    simp only [vaultCall, bind_eq_ok, ok.injEq] at h
    obtain ⟨-, -, rfl⟩ := h
    exact ⟨trivial, rfl⟩
  | setRetired value =>
    simp only [vaultCall, setRetired, bind_eq_ok, ok.injEq] at h
    obtain ⟨-, -, rfl⟩ := h
    exact ⟨trivial, rfl⟩
  | setRegistry newRegistry =>
    simp only [vaultCall, setRegistry, bind_eq_ok, ok.injEq] at h
    obtain ⟨-, -, -, -, -, -, rfl⟩ := h
    exact ⟨trivial, rfl⟩
  | setMinRebalanceInterval newInterval | setExitFeeBps newBps | setFeeRecipient newRecipient =>
    simp only [vaultCall, setMinRebalanceInterval, setExitFeeBps, setFeeRecipient, bind_eq_ok,
      ok.injEq] at h
    obtain ⟨-, -, -, -, rfl⟩ := h
    exact ⟨trivial, rfl⟩
  | restoreVault newTvlCap =>
    simp only [vaultCall, restoreVault, bind_eq_ok, revertIf_eq_ok, Bool.not_eq_false, not_lt,
      ok.injEq] at h
    obtain ⟨-, -, -, hshut, -, hpos, -, hle, rfl⟩ := h
    exact ⟨⟨hshut, Nat.pos_of_ne_zero hpos, hle⟩, rfl⟩
  | setMaxRebalanceBpsPerCall newBps =>
    simp only [vaultCall, setMaxRebalanceBpsPerCall, bind_eq_ok, revertIf_eq_ok, not_or, not_lt,
      ok.injEq] at h
    obtain ⟨-, -, -, ⟨hpos, hle⟩, rfl⟩ := h
    exact ⟨⟨Nat.pos_of_ne_zero hpos, hle⟩, rfl⟩
  | setTvlCap newCap | setPerDepositCap newCap =>
    simp only [vaultCall, setTvlCap, setPerDepositCap, bind_eq_ok, revertIf_eq_ok, not_and, not_lt,
      ok.injEq] at h
    obtain ⟨-, -, -, hle, rfl⟩ := h
    exact ⟨hle, rfl⟩

/-- The bounds the checks keep. -/
structure Settings.Bounded (p : Settings) : Prop where
  slices : ∀ e ∈ p.adapters, 0 < e.capBps ∧ e.capBps ≤ maxBps
  active : p.activeCount ≤ maxAdapters
  throttle : 0 < p.maxRebalanceBpsPerCall ∧ p.maxRebalanceBpsPerCall ≤ 5000
  /-- The cap of a deposit is within the cap of the vault, unless that is 0. -/
  ordered : p.tvlCap = 0 ∨ p.perDepositCap ≤ p.tvlCap

private theorem mem_modify_cases {l : List AdapterInfo} {i : Nat} {f : AdapterInfo → AdapterInfo} {e : AdapterInfo}
    (h : e ∈ l.modify i f) : e ∈ l ∨ ∃ e' ∈ l, e = f e' := by
  obtain ⟨j, hj⟩ := mem_iff_getElem?.1 h
  rw [getElem?_modify, Option.map_eq_map, Option.map_eq_some_iff] at hj
  obtain ⟨e', he', rfl⟩ := hj
  have hmem := mem_of_getElem? he'
  split
  · exact .inr ⟨e', hmem, rfl⟩
  · exact .inl hmem

private theorem countP_modify_le {l : List AdapterInfo} {i : Nat} {f : AdapterInfo → AdapterInfo}
    (hf : ∀ e, (f e).active = true → e.active = true) : (l.modify i f).countP (·.active) ≤ l.countP (·.active) := by
  induction l generalizing i with
  | nil => simp
  | cons e l ih =>
    cases i with
    | zero =>
      simp only [modify_zero_cons, countP_cons]
      by_cases hact : (f e).active = true
      · simp [hact, hf e hact]
      · simp [hact]
    | succ i =>
      have hle := ih (i := i)
      simp only [modify_succ_cons, countP_cons]
      omega

private theorem Settings.Bounded.deactivate {p : Settings} (h : p.Bounded) (i : Nat) : (p.deactivate i).Bounded where
  slices e he := by
    rcases mem_modify_cases he with he | ⟨e', he', rfl⟩
    · exact h.slices e he
    · exact h.slices e' he'
  active := (countP_modify_le fun _ hact => absurd hact (by simp)).trans h.active
  throttle := h.throttle
  ordered := h.ordered

private theorem Settings.Bounded.edit {p : Settings} (h : p.Bounded) {call : VaultCall σ} (hadmits : call.Admits p) :
    (call.edit p).Bounded := by
  cases call with
  | addAdapter a capBps =>
    obtain ⟨hpos, hle, hroom⟩ := hadmits
    refine ⟨?_, ?_, h.throttle, h.ordered⟩
    · intro e he
      rcases mem_append.1 he with he | he
      · exact h.slices e he
      cases mem_singleton.1 he
      exact ⟨hpos, hle⟩
    · simp only [VaultCall.edit, Settings.activeCount, countP_append] at hroom ⊢
      simp only [countP_singleton, if_true]
      omega
  | removeAdapter i => exact h.deactivate i
  | forceRemoveAdapter i => exact h.deactivate i
  | setAdapterCap i capBps =>
    have hactive : (p.adapters.modify i fun e => { e with capBps := capBps }).countP (·.active) ≤ p.activeCount :=
      countP_modify_le fun _ hact => hact
    refine ⟨?_, hactive.trans h.active, h.throttle, h.ordered⟩
    intro e he
    rcases mem_modify_cases he with he | ⟨e', he', rfl⟩
    · exact h.slices e he
    · exact hadmits
  | shutdownVault => exact ⟨h.slices, h.active, h.throttle, .inl rfl⟩
  | restoreVault newTvlCap => exact ⟨h.slices, h.active, h.throttle, .inr hadmits.2.2⟩
  | setTvlCap newCap =>
    refine ⟨h.slices, h.active, h.throttle, ?_⟩
    rcases Nat.eq_zero_or_pos newCap with hzero | hpos
    · exact .inl hzero
    · exact .inr (hadmits hpos)
  | setPerDepositCap newCap =>
    refine ⟨h.slices, h.active, h.throttle, ?_⟩
    rcases Nat.eq_zero_or_pos p.tvlCap with hzero | hpos
    · exact .inl hzero
    · exact .inr (hadmits hpos)
  | setMaxRebalanceBpsPerCall newBps => exact ⟨h.slices, h.active, hadmits, h.ordered⟩
  | _ => exact h

theorem initialize_bounded {p : InitArgs} {usdc : Balances} {hidden : σ} (h : Vault.initialize p usdc hidden = .ok s) :
    s.settings.Bounded := by
  simp only [bind_eq_ok, Vault.initialize, revertIf_eq_ok, not_and, not_lt, ok.injEq] at h
  obtain ⟨-, -, -, -, -, hcaps, rfl⟩ := h
  refine ⟨fun e he => absurd he not_mem_nil, Nat.zero_le _, (by decide : 0 < 2500 ∧ 2500 ≤ 5000), ?_⟩
  rcases Nat.eq_zero_or_pos p.tvlCap with hzero | hpos
  · exact .inl hzero
  · exact .inr (hcaps hpos)

theorem bounded_step {s s' : Vault σ} {tx : Tx σ} (hs : s.settings.Bounded) (h : vaultStep d env s tx = .ok s') :
    s'.settings.Bounded := by
  obtain ⟨hadmits, hedit⟩ := settings_step h
  rw [hedit]
  exact hs.edit hadmits

theorem Vault.Reached.settings_bounded (h : s.Reached d env) : s.settings.Bounded := by
  obtain ⟨p, usdc, hidden, s₀, hinit, hreach⟩ := h
  exact hreach.invariant (initialize_bounded hinit) fun _ _ _ hs hstep => bounded_step hs hstep

/-- The entries of `p` are where they were, under the same adapters, and none is active again. -/
def Settings.Continues (p q : Settings) : Prop :=
  ∀ (i : Nat) (e : AdapterInfo), p.adapters[i]? = some e →
    ∃ e', q.adapters[i]? = some e' ∧ e'.adapter = e.adapter ∧ (e'.active = true → e.active = true)

private theorem Settings.continues_modify (p : Settings) {f : AdapterInfo → AdapterInfo} (k : Nat)
    (hf : ∀ e, (f e).adapter = e.adapter ∧ ((f e).active = true → e.active = true)) :
    p.Continues { p with adapters := p.adapters.modify k f } := by
  intro i e he
  rw [getElem?_modify, he]
  refine ⟨_, rfl, ?_⟩
  split
  · exact hf e
  · exact ⟨rfl, id⟩

private theorem Settings.continues_edit (p : Settings) (call : VaultCall σ) : p.Continues (call.edit p) := by
  cases call with
  | addAdapter a capBps =>
    intro i e he
    exact ⟨e, (List.getElem?_append_left (List.getElem?_eq_some_iff.1 he).1).trans he, rfl, id⟩
  | removeAdapter i | forceRemoveAdapter i => exact p.continues_modify i fun e => ⟨rfl, fun hact => by cases hact⟩
  | setAdapterCap i capBps => exact p.continues_modify i fun e => ⟨rfl, id⟩
  | _ =>
    intro i e he
    exact ⟨e, he, rfl, id⟩

/-- Whatever transactions follow, an entry of the registry stays where it was, under its adapter, and a removed one is
not active again: the exclusion records name entries by index.  The settings stay within their bounds. -/
theorem registry_append_only (d : Deployment) (env : Outside σ) {s : Vault σ} (h : s.Reached d env)
    (txs : List (Tx σ)) :
    let s' := run (vaultStep d env) s txs
    s'.settings.Bounded ∧ s.settings.Continues s'.settings := by
  refine run_invariant (P := fun s' : Vault σ => s'.settings.Bounded ∧ s.settings.Continues s'.settings) ?_
    ⟨h.settings_bounded, fun i e he => ⟨e, he, rfl, id⟩⟩ txs
  rintro t tx t' ⟨hbounded, ht⟩ hstep
  refine ⟨bounded_step hbounded hstep, fun i e he => ?_⟩
  obtain ⟨e₁, he₁, hsame₁, hact₁⟩ := ht i e he
  obtain ⟨e₂, he₂, hsame₂, hact₂⟩ := t.settings.continues_edit tx.call i e₁ he₁
  rw [← (settings_step hstep).2] at he₂
  exact ⟨e₂, he₂, hsame₂.trans hsame₁, fun hact => hact₁ (hact₂ hact)⟩

/-- The entry of adapter 30, before and after its removal. -/
theorem registry_append_only_of_removed :
    ∃ s : Vault (Address → Nat), s.adapters = [⟨30, 5000, true⟩] ∧
      s.settings.Continues (run (vaultStep .sample .sample) s [⟨21, .sample, .removeAdapter 0⟩]).settings := by
  obtain ⟨s₀, hinit, hreached⟩ := sample_reached .sample (fun _ => 0)
    [⟨21, .sample, .setAdapterCodeHashAllowed 7 true⟩, ⟨21, .sample, .setAdapterAllowed 30 true⟩,
      ⟨21, .sample, .addAdapter 30 5000⟩]
  cases hinit
  exact ⟨_, rfl, (registry_append_only .sample .sample hreached [⟨21, .sample, .removeAdapter 0⟩]).2⟩

namespace Vault

def CapsOrdered (s : Vault σ) : Prop := s.tvlCap = 0 ∨ s.perDepositCap ≤ s.tvlCap

def ZeroWhileShut (s : Vault σ) : Prop := s.shutdown = true → s.tvlCap = 0

/-- The transaction does not give a vault that is shut down a new cap by `setTvlCap`. -/
def KeepsShutCap (s : Vault σ) (tx : Tx σ) : Prop :=
  ∀ newCap, tx.call = .setTvlCap newCap → s.shutdown = true → s.hasRole .admin tx.sender = true →
    s.perDepositCap ≤ newCap → newCap = 0

variable {d : Deployment} {env : Outside σ} {s s' : Vault σ} {tx : Tx σ}

private theorem edit_zeroWhileShut {p : Settings} (hp : p.shutdown = true → p.tvlCap = 0) (call : VaultCall σ)
    (hcall : ∀ newCap, call = .setTvlCap newCap → p.shutdown = true → newCap = 0) :
    (call.edit p).shutdown = true → (call.edit p).tvlCap = 0 := by
  cases call with
  | shutdownVault => exact fun _ => rfl
  | restoreVault newTvlCap => exact fun hshut => absurd hshut (by simp [VaultCall.edit])
  | setTvlCap newCap => exact hcall newCap rfl
  | _ => exact hp

private theorem setTvlCap_exec {newCap : Nat} (hcall : tx.call = .setTvlCap newCap)
    (hadmin : s.hasRole .admin tx.sender = true) (hle : s.perDepositCap ≤ newCap) :
    vaultStep d env s tx = .ok { s with tvlCap := newCap, trace := [] } := by
  have hcheck : ¬(0 < newCap ∧ newCap < s.perDepositCap) := by omega
  simp [vaultStep, hcall, vaultCall, onlyRole, setTvlCap, revertIf_of_not, hadmin, hcheck]

private theorem zeroWhileShut_exec_iff (hs : s.ZeroWhileShut) :
    (exec (vaultStep d env) s tx).ZeroWhileShut ↔ s.KeepsShutCap tx := by
  constructor
  · intro h newCap hcall hshut hadmin hle
    rw [exec_of_ok (setTvlCap_exec hcall hadmin hle)] at h
    exact h hshut
  · intro h
    cases hstep : vaultStep d env s tx with
    | error e =>
      rw [exec_of_error hstep]
      exact hs
    | ok s' =>
      rw [exec_of_ok hstep]
      obtain ⟨hadmits, hedit⟩ := settings_step hstep
      have hzero := edit_zeroWhileShut (p := s.settings) hs tx.call ?_
      · rw [← hedit] at hzero
        exact hzero
      · intro newCap hcall hshut
        have hadmin : s.hasRole .admin tx.sender = true := by
          simp only [vaultStep, hcall, vaultCall, onlyRole, bind_eq_ok, revertIf_eq_ok, Bool.not_eq_false] at hstep
          exact hstep.choose_spec.1
        rw [hcall] at hadmits
        rcases Nat.eq_zero_or_pos newCap with hzero | hpos
        · exact hzero
        · exact h newCap hcall hshut hadmin (hadmits hpos)

end Vault

/-- In every run the cap of a deposit stays within a nonzero cap of the vault.  A vault that is shut down keeps a cap of
0 along the run exactly when no transaction of it sets a new one by `setTvlCap` in the meantime. -/
theorem caps_ordered_and_zero_while_shut_iff (d : Deployment) (env : Outside σ) {p : InitArgs} {usdc : Balances}
    {hidden : σ} {s₀ : Vault σ} (h : Vault.initialize p usdc hidden = .ok s₀) (txs : List (Tx σ)) :
    (∀ cs, cs <+: txs → (run (vaultStep d env) s₀ cs).CapsOrdered) ∧
      ((∀ cs, cs <+: txs → (run (vaultStep d env) s₀ cs).CapsOrdered ∧ (run (vaultStep d env) s₀ cs).ZeroWhileShut) ↔
        Along (vaultStep d env) Vault.KeepsShutCap s₀ txs) := by
  have hordered : ∀ cs, (run (vaultStep d env) s₀ cs).CapsOrdered := by
    intro cs
    have hreached : (run (vaultStep d env) s₀ cs).Reached d env := ⟨p, usdc, hidden, s₀, h, cs, rfl⟩
    exact hreached.settings_bounded.ordered
  have hstart : s₀.ZeroWhileShut := by
    simp only [bind_eq_ok, Vault.initialize, ok.injEq] at h
    obtain ⟨-, -, -, -, -, -, rfl⟩ := h
    intro hshut
    cases hshut
  refine ⟨fun cs _ => hordered cs, ?_⟩
  rw [← forall_prefix_iff_along (fun s tx hs => zeroWhileShut_exec_iff hs) hstart]
  exact ⟨fun hall cs hcs => (hall cs hcs).2, fun hall cs hcs => ⟨hordered cs, hall cs hcs⟩⟩

/-- The vault is shut down, restored under a larger cap, and given a larger cap of a deposit. -/
def shutAndRestored : List (Tx (Address → Nat)) :=
  [⟨22, .sample, .shutdownVault⟩, ⟨21, .sample, .restoreVault (2 * 10 ^ 12)⟩,
    ⟨21, .sample, .setPerDepositCap (2 * 10 ^ 12)⟩]

theorem caps_ordered_and_zero_while_shut_of_restored :
    ∃ s₀ : Vault (Address → Nat), Vault.initialize .sample (fun _ => 0) (fun _ => 0) = .ok s₀ ∧
      (run (vaultStep .sample .sample) s₀ shutAndRestored).perDepositCap = 2 * 10 ^ 12 ∧
      ∀ cs, cs <+: shutAndRestored → (run (vaultStep .sample .sample) s₀ cs).CapsOrdered ∧
        (run (vaultStep .sample .sample) s₀ cs).ZeroWhileShut := by
  obtain ⟨s₀, hinit⟩ : ∃ s₀ : Vault (Address → Nat),
      Vault.initialize .sample (fun _ => 0) (fun _ => 0) = .ok s₀ := ⟨_, rfl⟩
  refine ⟨s₀, hinit, ?_, (caps_ordered_and_zero_while_shut_iff .sample .sample hinit shutAndRestored).2.2 ?_⟩
  · cases hinit
    rfl
  · refine ⟨?_, ?_, ?_, trivial⟩
    all_goals
      intro newCap hcall
      cases hcall

def reopenedByCap : List (Tx (Address → Nat)) :=
  [⟨22, .sample, .shutdownVault⟩, ⟨21, .sample, .setTvlCap (10 ^ 12)⟩]

theorem cap_set_while_shut :
    ∃ s₀ : Vault (Address → Nat), Vault.initialize .sample (fun _ => 0) (fun _ => 0) = .ok s₀ ∧
      ¬ (run (vaultStep .sample .sample) s₀ reopenedByCap).ZeroWhileShut := by
  refine ⟨_, rfl, ?_⟩
  intro hzero
  have hcap : 10 ^ 12 = 0 := hzero rfl
  omega

end RobotMoney
