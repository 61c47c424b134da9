import RobotMoney.Vault.Registry

/-!
# The checkpoint switch and the calls a lever makes

Share transfers are reported to the ledger only while the checkpoint switch is on.  A lever that opens a record turns
the switch on at its very end, but it may call adapters between the two, and a callee may move shares.  The trace of a
call holds both kinds of events, so the question is decided on the trace: `SeesSwitch` says that every adapter called
after a record opened was called with the switch on.

With the switch off there is no record yet, so nothing is restored and the outside world stands still until the first
drain; the trace of the sync is then determined by which active entries are eligible.
-/

namespace RobotMoney

open Evm Function Prod

/-- Every adapter called after a record opened was called with the switch on; the flag says that one opened before. -/
def SeesSwitch : Bool → List Event → Prop
  | _, [] => True
  | _, .opened _ _ :: es => SeesSwitch true es
  | opened, .contacted _ switch :: es => (opened = true → switch = true) ∧ SeesSwitch opened es

def hasOpened : List Event → Bool
  | [] => false
  | .opened _ _ :: _ => true
  | .contacted _ _ :: es => hasOpened es

def OnlyCalls (switch : Bool) (es : List Event) : Prop := ∀ ev ∈ es, ∃ a, ev = .contacted a switch

private theorem hasOpened_append (es fs : List Event) : hasOpened (es ++ fs) = (hasOpened es || hasOpened fs) := by
  induction es with
  | nil => rfl
  | cons ev es ih =>
    cases ev with
    | opened id shares => rfl
    | contacted a switch => exact ih

private theorem seesSwitch_append {opened : Bool} {es fs : List Event} :
    SeesSwitch opened (es ++ fs) ↔ SeesSwitch opened es ∧ SeesSwitch (opened || hasOpened es) fs := by
  induction es generalizing opened with
  | nil => simp [SeesSwitch, hasOpened]
  | cons ev es ih =>
    cases ev with
    | opened id shares => simp [SeesSwitch, hasOpened, ih]
    | contacted a switch => simp [SeesSwitch, hasOpened, ih, and_assoc]

variable {switch : Bool} {es : List Event}

private theorem OnlyCalls.append {es fs : List Event} (h₁ : OnlyCalls switch es) (h₂ : OnlyCalls switch fs) :
    OnlyCalls switch (es ++ fs) := by
  intro ev hev
  rcases List.mem_append.1 hev with h | h
  · exact h₁ ev h
  · exact h₂ ev h

private theorem OnlyCalls.hasOpened (h : OnlyCalls switch es) : hasOpened es = false := by
  induction es with
  | nil => rfl
  | cons ev es ih =>
    obtain ⟨a, rfl⟩ := h ev (by simp)
    exact ih fun ev hev => h ev (by simp [hev])

private theorem OnlyCalls.seesSwitch {switch opened : Bool} (h : OnlyCalls switch es) :
    SeesSwitch opened es ↔ (opened = true → es ≠ [] → switch = true) := by
  induction es with
  | nil => simp [SeesSwitch]
  | cons ev es ih =>
    obtain ⟨a, rfl⟩ := h ev (by simp)
    have ih' := ih fun ev hev => h ev (by simp [hev])
    simp only [SeesSwitch, ih']
    constructor
    · intro hs ho _
      exact hs.1 ho
    · intro hs
      exact ⟨fun ho => hs ho (by simp), fun ho _ => hs ho (by simp)⟩

private theorem hasOpened_of_mem {id : Nat} {shares : Balances} (h : .opened id shares ∈ es) : hasOpened es = true := by
  induction es with
  | nil => cases h
  | cons ev es ih =>
    cases ev with
    | opened id' shares' => rfl
    | contacted a switch =>
      simp only [List.mem_cons, reduceCtorEq, false_or] at h
      exact ih h

private theorem seesSwitch_of_on (opened : Bool) (h : ∀ a switch, .contacted a switch ∈ es → switch = true) :
    SeesSwitch opened es := by
  induction es generalizing opened with
  | nil => trivial
  | cons ev es ih =>
    have ih' := fun o => ih o fun a switch hmem => h a switch (by simp [hmem])
    cases ev with
    | opened id shares => exact ih' true
    | contacted a switch => exact ⟨fun _ => h a switch (by simp), ih' opened⟩

namespace Vault

open List Function Except

variable {σ : Type} {d : Deployment} {env : Outside σ} {s s' t u : Vault σ}

/-- From `s` to `s'` the calls `es` were made and no record opened.  Snapshot balances can only have changed in a call
made with the switch off. -/
structure Logged (s s' : Vault σ) (es : List Event) : Prop where
  trace : s'.trace = s.trace ++ es
  calls : OnlyCalls s.book.snapshots es
  snapshots : s'.book.snapshots = s.book.snapshots
  count : s'.book.ledger.exclusionCount = s.book.ledger.exclusionCount
  wellFormed : s.book.WellFormed → s'.book.WellFormed
  balanceAt : s.book.WellFormed → s.book.snapshots = true ∨ es = [] → ∀ id, id ≠ 0 →
    id ≤ s.book.ledger.exclusionCount → ∀ a, s'.book.balanceAt a id = s.book.balanceAt a id

private theorem Logged.refl (s : Vault σ) : s.Logged s [] :=
  ⟨by simp, by simp [OnlyCalls], rfl, rfl, id, fun _ _ _ _ _ _ => rfl⟩

variable {es fs : List Event} {a : Address} {i supply k : Nat} {targets : List Nat} {block : Block}
  {restoring opened : Bool} {A E : Nat → Prop}

private theorem Logged.trans (h₁ : s.Logged t es) (h₂ : t.Logged u fs) : s.Logged u (es ++ fs) where
  trace := by rw [h₂.trace, h₁.trace, append_assoc]
  calls := by
    have h := h₂.calls
    rw [h₁.snapshots] at h
    exact h₁.calls.append h
  snapshots := h₂.snapshots.trans h₁.snapshots
  count := h₂.count.trans h₁.count
  wellFormed := h₂.wellFormed ∘ h₁.wellFormed
  balanceAt := by
    intro hw hcond id h0 hle a
    have hcond₁ : s.book.snapshots = true ∨ es = [] := hcond.imp_right fun h => (append_eq_nil_iff.1 h).1
    have hcond₂ : t.book.snapshots = true ∨ fs = [] :=
      hcond.imp h₁.snapshots.trans fun h => (append_eq_nil_iff.1 h).2
    rw [h₂.balanceAt (h₁.wellFormed hw) hcond₂ id h0 (by rw [h₁.count]; exact hle) a]
    exact h₁.balanceAt hw hcond₁ id h0 hle a

private theorem Logged.of_contact (h : (s.contact a).Steady t) (htrace : t.trace = (s.contact a).trace) :
    s.Logged t [.contacted a s.book.snapshots] where
  trace := htrace
  calls := by simp [OnlyCalls]
  snapshots := h.book.snapshots
  count := h.records.count
  wellFormed := h.book.wellFormed
  balanceAt := fun hw hcond => h.book.balanceAt hw (hcond.resolve_right (by simp))

private theorem contact_logged (s : Vault σ) (a : Address) : s.Logged (s.contact a) [.contacted a s.book.snapshots] :=
  .of_contact (.refl _) rfl

variable (d env) in
private theorem probe_logged (s : Vault σ) (a : Address) :
    ∃ es, s.Logged (s.probe env a) es ∧ (s.isEligible d env a = .ok true → es ≠ []) := by
  unfold Vault.probe
  split
  · exact ⟨_, contact_logged s a, by simp⟩
  rename_i hskip
  refine ⟨[], .refl s, ?_⟩
  intro hel
  unfold isEligible at hel
  split at hel
  · cases hel
  split at hel
  · cases hel
  rename_i h1 h2
  exact absurd (by simp_all) hskip

private theorem credit_trace {id before : Nat} (h : s.credit d id before = .ok s') : s'.trace = s.trace := by
  unfold Vault.credit at h
  split at h
  · cases h; rfl
  simp only [bind_eq_ok] at h
  obtain ⟨recovered, -, h⟩ := h
  split at h
  · cases h; rfl
  simp only [bind_eq_ok, ok.injEq] at h
  obtain ⟨book, -, rfl⟩ := h
  rfl

private theorem finalize_logged (h : s.finalize d i = .ok s') : s.Logged s' [] := by
  have hw : s.book.WellFormed → s'.book.WellFormed := fun hw => finalize_wellFormed hw h
  rcases finalize_cases h with ⟨-, rfl⟩ | ⟨-, -, rfl⟩
  · exact .refl _
  · exact ⟨by simp, by simp [OnlyCalls], rfl, rfl, hw, fun _ _ _ _ _ _ => rfl⟩

private theorem drain_logged {id : Nat} {ok : Bool} (h : s.drain d env a id = .ok (ok, s')) :
    ∃ es, s.Logged s' es ∧ es ≠ [] := by
  rcases drain_inv h with ⟨rfl, -⟩ | ⟨rfl, -⟩ | ⟨n, eff, -, -, hcredit⟩
  · exact ⟨_, contact_logged s a, by simp⟩
  · exact ⟨_, (contact_logged s a).trans (contact_logged (s.contact a) a), by simp⟩
  have hsteady := (applyEffect_moved ((s.contact a).contact a) eff).trans (credit_moved hcredit)
  exact ⟨_, (contact_logged s a).trans (.of_contact hsteady.toSteady ((credit_trace hcredit).trans rfl)), by simp⟩

private theorem restore_logged (h : s.restore d env i = .ok s') : ∃ es, s.Logged s' es ∧ es ≠ [] := by
  simp only [Vault.restore, bind_eq_ok] at h
  obtain ⟨e, -, ⟨ok, t⟩, ht, -, -, h⟩ := h
  obtain ⟨es, hes, hne⟩ := drain_logged ht
  exact ⟨es ++ [], hes.trans (finalize_logged h), by simpa using hne⟩

private theorem emergencyPull_logged (h : s.emergencyPull d env i = .ok s') : ∃ es, s.Logged s' es ∧ es ≠ [] := by
  simp only [emergencyPull, bind_eq_ok, ok.injEq] at h
  obtain ⟨e, -, ⟨ok, t⟩, ht, rfl⟩ := h
  exact drain_logged ht

private theorem allocate_logged {i x r : Nat} (h : s.allocate d env i x = .ok (r, s')) : ∃ es, s.Logged s' es := by
  have hsteady := allocate_moved h
  simp only [allocate, bind_eq_ok, ok.injEq, Prod.mk.injEq] at h
  obtain ⟨e, -, -, -, usdc, -, m, hm, -, -, -, -, -, rfl⟩ := h
  simp only [callDeploy, bind_eq_ok, ok.injEq] at hm
  obtain ⟨eff, -, rfl⟩ := hm
  exact ⟨[.contacted e.adapter s.book.snapshots], rfl, by simp [OnlyCalls], hsteady.book.snapshots,
    hsteady.records.count, hsteady.book.wellFormed,
    fun hw hcond => hsteady.book.balanceAt hw (hcond.resolve_right (by simp))⟩

private theorem emergencyPullActive_logged (h : emergencyPullActive d env s i = .ok s') :
    ∃ es, s.Logged s' es ∧ ∀ e, s.adapters[i]? = some e → e.active = true → es ≠ [] := by
  simp only [emergencyPullActive, bind_eq_ok, entry_eq_ok] at h
  obtain ⟨e, he, h⟩ := h
  split at h
  · rename_i hact
    cases h
    refine ⟨[], .refl _, ?_⟩
    intro f hf hfact
    rw [he] at hf
    cases hf
    rw [hact] at hfact
    cases hfact
  obtain ⟨es, hes, hne⟩ := emergencyPull_logged h
  exact ⟨es, hes, fun _ _ _ => hne⟩

private theorem pullToTarget_logged {i m m' : Nat} (h : pullToTarget d env targets (s, m) i = .ok (s', m')) :
    ∃ es, s.Logged s' es ∧ ∀ e, s.adapters[i]? = some e → e.active = true → es ≠ [] := by
  simp only [pullToTarget, bind_eq_ok, entry_eq_ok] at h
  obtain ⟨e, he, h⟩ := h
  split at h
  · rename_i hact
    cases h
    refine ⟨[], .refl _, ?_⟩
    intro f hf hfact
    rw [he] at hf
    cases hf
    rw [hact] at hfact
    cases hfact
  simp only [bind_eq_ok] at h
  obtain ⟨current, -, target, -, h⟩ := h
  split at h
  · simp only [bind_eq_ok, ok.injEq, Prod.mk.injEq] at h
    obtain ⟨⟨actual, v⟩, hv, -, -, w, hw, rfl, -⟩ := h
    simp only [callWithdraw, bind_eq_ok, ok.injEq, Prod.mk.injEq] at hv
    obtain ⟨eff, -, -, rfl⟩ := hv
    have hsteady := (applyEffect_moved ((s.contact e.adapter).contact e.adapter) eff).trans (credit_moved hw)
    exact ⟨_, (contact_logged s e.adapter).trans (.of_contact hsteady.toSteady ((credit_trace hw).trans rfl)), by simp⟩
  cases h
  exact ⟨_, contact_logged s e.adapter, by simp⟩

private theorem allocateToTarget_logged {i m m' : Nat} (h : allocateToTarget d env targets (s, m) i = .ok (s', m')) :
    ∃ es, s.Logged s' es := by
  obtain rfl | ⟨x, placed, ht⟩ := allocateToTarget_cases h
  · exact ⟨[], .refl _⟩
  · exact allocate_logged ht

/-- Entry `i` is active. -/
def ActiveAt (s : Vault σ) (i : Nat) : Prop := ∃ e, s.adapters[i]? = some e ∧ e.active = true

/-- Entry `i` has an eligible adapter. -/
def EligibleAt (d : Deployment) (env : Outside σ) (s : Vault σ) (i : Nat) : Prop :=
  ∃ e, s.adapters[i]? = some e ∧ s.isEligible d env e.adapter = .ok true

private theorem loop_logged {β : Type} (v : β → Vault σ) {f : β → Nat → Except Revert β} {x y : β} {n : Nat}
    (hn : n = (v x).adapters.length)
    (hround : ∀ x i y, f x i = .ok y → (v y).adapters = (v x).adapters ∧ ∃ es, (v x).Logged (v y) es ∧
      ∀ e, (v x).adapters[i]? = some e → e.active = true → es ≠ []) (h : (range n).foldlM f x = .ok y) :
    ∃ es, (v x).Logged (v y) es ∧ ((∃ i, (v x).ActiveAt i) → es ≠ []) := by
  have hinv := foldlM_range_invariant
    (P := fun k z => (v z).adapters = (v x).adapters ∧ ∃ es, (v x).Logged (v z) es ∧
      ∀ i < k, (v x).ActiveAt i → es ≠ []) ?_ ⟨rfl, [], .refl _, fun i hi => absurd hi (by omega)⟩ h
  · obtain ⟨-, es, hes, hne⟩ := hinv
    refine ⟨es, hes, ?_⟩
    rintro ⟨i, e, he, hact⟩
    exact hne i (by rw [hn]; exact (List.getElem?_eq_some_iff.1 he).1) ⟨e, he, hact⟩
  · rintro k z z' - ⟨hadapters, es, hes, hne⟩ hz
    obtain ⟨hadapters', fs, hfs, hne'⟩ := hround z k z' hz
    refine ⟨hadapters'.trans hadapters, es ++ fs, hes.trans hfs, ?_⟩
    rintro i hi ⟨e, he, hact⟩ hnil
    obtain ⟨hesnil, hfsnil⟩ := append_eq_nil_iff.1 hnil
    rcases Nat.lt_succ_iff_lt_or_eq.1 hi with hlt | rfl
    · exact hne i hlt ⟨e, he, hact⟩ hesnil
    · exact hne' e (by rw [hadapters]; exact he) hact hfsnil

/-- One round of the sync: nothing for an inactive entry; else calls, and perhaps a record opens after them. -/
theorem syncEntry_cases {restoring opened opened' : Bool}
    (h : syncEntry d env block supply restoring (t, opened) k = .ok (u, opened')) : ∃ e, t.adapters[k]? = some e ∧
      (e.active = false ∧ u = t ∧ opened' = opened ∨
      e.active = true ∧ ∃ eligible, t.isEligible d env e.adapter = .ok eligible ∧
        ((∃ es, t.Logged u es ∧ (eligible = true → es ≠ []) ∧ opened' = opened ∧
            (t.openExclusionOf k = 0 → (eligible = true ∨ supply = 0) ∧ t.SameButTrace u)) ∨
          (eligible = false ∧ supply ≠ 0 ∧ opened' = true ∧ t.openExclusionOf k = 0 ∧
            ∃ m es, t.Logged m es ∧ t.SameButTrace m ∧ m.openExclusion d env block k e.adapter supply = .ok u))) := by
  simp only [syncEntry, bind_eq_ok, entry_eq_ok] at h
  obtain ⟨e, he, h⟩ := h
  refine ⟨e, he, ?_⟩
  split at h
  · rename_i hact
    cases h
    exact .inl ⟨hact, rfl, rfl⟩
  rename_i hact
  refine .inr ⟨by simpa using hact, ?_⟩
  obtain ⟨es, hes, hne⟩ := probe_logged d env t e.adapter
  obtain ⟨trace, hp⟩ := probe_sameButTrace env t e.adapter
  rw [hp] at h hes
  simp only [bind_eq_ok] at h
  obtain ⟨eligible, hel, h⟩ := h
  have hel' : t.isEligible d env e.adapter = .ok eligible := hel
  have hne' : eligible = true → es ≠ [] := fun htrue => hne (htrue ▸ hel')
  refine ⟨eligible, hel', ?_⟩
  split at h
  · rename_i hnone
    split at h
    · rename_i hcond
      cases h
      exact .inl ⟨es, hes, hne', rfl, fun _ => ⟨hcond, trace, rfl⟩⟩
    rename_i hcond
    simp only [bind_eq_ok, ok.injEq, Prod.mk.injEq] at h
    obtain ⟨m, hm, rfl, rfl⟩ := h
    rw [not_or] at hcond
    exact .inr ⟨by simpa using hcond.1, hcond.2, rfl, hnone, _, es, hes, ⟨trace, rfl⟩, hm⟩
  rename_i hopen
  split at h
  · simp only [bind_eq_ok, ok.injEq, Prod.mk.injEq] at h
    obtain ⟨m, hm, rfl, rfl⟩ := h
    obtain ⟨fs, hfs, hfne⟩ := restore_logged hm
    refine .inl ⟨es ++ fs, hes.trans hfs, ?_, rfl, fun h0 => absurd h0 hopen⟩
    intro _ hnil
    exact hfne (append_eq_nil_iff.1 hnil).2
  cases h
  exact .inl ⟨es, hes, hne', rfl, fun h0 => absurd h0 hopen⟩

/-- Every record opened in the current call exists, and its snapshot has the balances it opened over. -/
def ExactSince (s : Vault σ) : Prop :=
  ∀ id shares, .opened id shares ∈ s.trace → id ≠ 0 ∧ id ≤ s.book.ledger.exclusionCount ∧
    ∀ a, s.book.balanceAt a id = shares a

private theorem ExactSince.logged (he : s.ExactSince) (hw : s.book.WellFormed) (h : s.Logged t es)
    (hsees : SeesSwitch false t.trace) : t.ExactSince := by
  intro id shares hmem
  rw [h.trace] at hmem hsees
  have hmem' : .opened id shares ∈ s.trace := by
    rcases mem_append.1 hmem with hm | hm
    · exact hm
    obtain ⟨a, ha⟩ := h.calls _ hm
    cases ha
  have hcalls := (seesSwitch_append.1 hsees).2
  rw [hasOpened_of_mem hmem', Bool.or_true, h.calls.seesSwitch] at hcalls
  have hcond : s.book.snapshots = true ∨ es = [] := by
    by_cases hnil : es = []
    · exact .inr hnil
    · exact .inl (hcalls rfl hnil)
  obtain ⟨h0, hle, hexact⟩ := he id shares hmem'
  refine ⟨h0, by rw [h.count]; exact hle, ?_⟩
  intro a
  rw [h.balanceAt hw hcond id h0 hle a]
  exact hexact a

private theorem ExactSince.open (he : s.ExactSince) (hw : s.book.WellFormed)
    (h : s.openExclusion d env block i a supply = .ok t) : t.ExactSince := by
  obtain ⟨x, -, -, -, -, -, -, rfl⟩ := openExclusion_spec h
  intro id shares hmem
  dsimp only at hmem ⊢
  have hnext := ShareBook.balanceAt_next hw
    (update s.book.ledger.exclusions (s.book.ledger.exclusionCount + 1) x)
  simp only [mem_append, mem_singleton, reduceCtorEq, or_false] at hmem
  rcases hmem with hold | hnew
  · obtain ⟨h0, hle, hexact⟩ := he id shares hold
    exact ⟨h0, Nat.le_succ_of_le hle, fun b => ((hnext b).2 id h0 hle).trans (hexact b)⟩
  cases hnew
  exact ⟨Nat.succ_ne_zero _, Nat.le_refl _, fun b => (hnext b).1⟩

private theorem ExactSince.mark (he : s.ExactSince) (opened : Bool) : (s.markExclusionOpened opened).ExactSince := by
  cases opened <;> exact he

theorem wellFormed_mark (hw : s.book.WellFormed) (opened : Bool) : (s.markExclusionOpened opened).book.WellFormed := by
  cases opened with
  | false => exact hw
  | true => exact ⟨hw.ordered, hw.zeroShares, hw.supply, hw.unopened⟩

@[simp] theorem markExclusionOpened_trace (s : Vault σ) (opened : Bool) :
    (s.markExclusionOpened opened).trace = s.trace := by
  cases opened <;> rfl

private theorem openExclusion_trace (h : s.openExclusion d env block i a supply = .ok t) :
    ∃ id, t.trace = s.trace ++ [.contacted a s.book.snapshots] ++ [.opened id s.book.shares] := by
  obtain ⟨x, -, -, -, -, -, -, rfl⟩ := openExclusion_spec h
  exact ⟨_, rfl⟩

private theorem syncLoop_exact (hw : s.book.WellFormed) (htrace : s.trace = [])
    (h : s.syncLoop d env block supply restoring = .ok (t, opened)) :
    t.book.WellFormed ∧ (SeesSwitch false t.trace → t.ExactSince) := by
  refine foldlM_invariant
    (P := fun x : Vault σ × Bool => x.1.book.WellFormed ∧ (SeesSwitch false x.1.trace → x.1.ExactSince)) ?_
    ⟨hw, fun _ id shares hmem => by rw [htrace] at hmem; cases hmem⟩ h
  rintro ⟨t, b⟩ k ⟨u, b'⟩ - ⟨hw, hexact⟩ hround
  obtain ⟨e, -, hcases⟩ := syncEntry_cases hround
  rcases hcases with ⟨-, rfl, -⟩ | ⟨-, eligible, -, ⟨es, hes, -⟩ | ⟨-, -, -, -, m, es, hes, -, hm⟩⟩
  · exact ⟨hw, hexact⟩
  · refine ⟨hes.wellFormed hw, ?_⟩
    intro hsees
    have hpast : SeesSwitch false t.trace := by
      rw [show u.trace = t.trace ++ es from hes.trace] at hsees
      exact (seesSwitch_append.1 hsees).1
    exact (hexact hpast).logged hw hes hsees
  refine ⟨openExclusion_wellFormed (hes.wellFormed hw) hm, ?_⟩
  intro hsees
  obtain ⟨id, htr⟩ := openExclusion_trace hm
  have hm' : SeesSwitch false m.trace := by
    rw [show u.trace = _ from htr] at hsees
    exact (seesSwitch_append.1 (seesSwitch_append.1 hsees).1).1
  have hpast : SeesSwitch false t.trace := by
    rw [hes.trace] at hm'
    exact (seesSwitch_append.1 hm').1
  exact ((hexact hpast).logged hw hes hm').open (hes.wellFormed hw) hm

def AllOn (s : Vault σ) : Prop :=
  s.book.snapshots = true ∧ ∀ a switch, .contacted a switch ∈ s.trace → switch = true

private theorem AllOn.logged (ho : s.AllOn) (h : s.Logged t es) : t.AllOn := by
  refine ⟨h.snapshots.trans ho.1, ?_⟩
  intro a switch hmem
  rw [h.trace] at hmem
  rcases mem_append.1 hmem with hm | hm
  · exact ho.2 a switch hm
  obtain ⟨b, hb⟩ := h.calls _ hm
  cases hb
  exact ho.1

private theorem AllOn.mark (ho : s.AllOn) (opened : Bool) : (s.markExclusionOpened opened).AllOn := by
  cases opened with
  | false => exact ho
  | true => exact ⟨rfl, ho.2⟩

private theorem AllOn.open (ho : s.AllOn) (h : s.openExclusion d env block i a supply = .ok t) : t.AllOn := by
  obtain ⟨x, -, -, -, -, -, -, rfl⟩ := openExclusion_spec h
  refine ⟨ho.1, ?_⟩
  intro b switch hmem
  simp only [mem_append, mem_singleton, reduceCtorEq, or_false, Event.contacted.injEq] at hmem
  rcases hmem with hm | ⟨-, rfl⟩
  · exact ho.2 b switch hm
  · exact ho.1

theorem syncLoop_allOn (hon : s.AllOn) (h : s.syncLoop d env block supply restoring = .ok (t, opened)) : t.AllOn := by
  refine foldlM_invariant (P := fun x : Vault σ × Bool => x.1.AllOn) ?_ hon h
  rintro ⟨t, b⟩ k ⟨u, b'⟩ - ho hround
  obtain ⟨e, -, hcases⟩ := syncEntry_cases hround
  rcases hcases with ⟨-, rfl, -⟩ | ⟨-, eligible, -, ⟨es, hes, -⟩ | ⟨-, -, -, -, m, es, hes, -, hm⟩⟩
  · exact ho
  · exact AllOn.logged ho hes
  · exact (AllOn.logged ho hes).open hm

def AllEligible (d : Deployment) (env : Outside σ) (s : Vault σ) : Prop := ∀ i, s.ActiveAt i → s.EligibleAt d env i

def LeadingEligible (d : Deployment) (env : Outside σ) (s : Vault σ) : Prop :=
  ∀ i j, i < j → s.ActiveAt i → s.ActiveAt j → s.EligibleAt d env i

private theorem leading_succ (hk : A k) : (∀ i j, i < j → j < k + 1 → A i → A j → E i) ↔
      (∀ i j, i < j → j < k → A i → A j → E i) ∧ ∀ i < k, A i → E i := by
  constructor
  · intro h
    exact ⟨fun i j hij hj => h i j hij (by omega), fun i hi hA => h i k hi (by omega) hA hk⟩
  · rintro ⟨h1, h2⟩ i j hij hj hi hA
    rcases Nat.lt_succ_iff_lt_or_eq.1 hj with hlt | rfl
    · exact h1 i j hij hlt hi hA
    · exact h2 i hij hi

private theorem leading_skip (hk : ¬ A k) :
    (∀ i j, i < j → j < k + 1 → A i → A j → E i) ↔ ∀ i j, i < j → j < k → A i → A j → E i := by
  constructor
  · intro h i j hij hj
    exact h i j hij (by omega)
  · intro h i j hij hj hi hA
    rcases Nat.lt_succ_iff_lt_or_eq.1 hj with hlt | rfl
    · exact h i j hij hlt hi hA
    · exact absurd hA hk

private theorem exists_succ {B : Nat → Prop} : (∃ i < k + 1, B i) ↔ (∃ i < k, B i) ∨ B k := by
  constructor
  · rintro ⟨i, hi, hB⟩
    rcases Nat.lt_succ_iff_lt_or_eq.1 hi with hlt | rfl
    · exact .inl ⟨i, hlt, hB⟩
    · exact .inr hB
  · rintro (⟨i, hi, hB⟩ | hB)
    · exact ⟨i, by omega, hB⟩
    · exact ⟨k, by omega, hB⟩

private theorem exists_not : (∃ i < k, A i ∧ ¬ E i) ↔ ¬ ∀ i < k, A i → E i := by
  simp only [not_forall, exists_prop]

/-- What the sync has done after `k` rounds that began with the switch off and without a record: the trace is decided
by which of the first `k` entries are active and eligible. -/
private structure SyncedOff (d : Deployment) (env : Outside σ) (s : Vault σ) (supply k : Nat) (x : Vault σ × Bool) :
    Prop where
  adapters : x.1.adapters = s.adapters
  eligible : ∀ a, x.1.isEligible d env a = s.isEligible d env a
  off : x.1.book.snapshots = false
  ahead : ∀ i, k ≤ i → x.1.openExclusionOf i = 0
  flag : x.2 = hasOpened x.1.trace
  opened : hasOpened x.1.trace = true ↔ supply ≠ 0 ∧ ∃ i < k, s.ActiveAt i ∧ ¬ s.EligibleAt d env i
  sees : SeesSwitch false x.1.trace ↔
    supply = 0 ∨ ∀ i j, i < j → j < k → s.ActiveAt i → s.ActiveAt j → s.EligibleAt d env i

private theorem seesSwitch_calls_off {es cs : List Event} (h : OnlyCalls false cs) :
    SeesSwitch false (es ++ cs) ↔ SeesSwitch false es ∧ (hasOpened es = true → cs = []) := by
  rw [seesSwitch_append, Bool.false_or, h.seesSwitch]
  simp only [Bool.false_eq_true, imp_false, ne_eq, not_not]

private theorem SyncedOff.syncEntry {x y : Vault σ × Bool} (hx : SyncedOff d env s supply k x)
    (h : syncEntry d env block supply restoring x k = .ok y) : SyncedOff d env s supply (k + 1) y := by
  obtain ⟨t, b⟩ := x
  obtain ⟨u, b'⟩ := y
  obtain ⟨hadapters, heligible, hoff, hahead, hflag, hopened, hsees⟩ := hx
  dsimp only at hadapters heligible hoff hahead hflag hopened hsees
  obtain ⟨e, he, hcases⟩ := syncEntry_cases h
  have heS : s.adapters[k]? = some e := hadapters ▸ he
  have hentry : ∀ f, s.adapters[k]? = some f → f = e := by
    intro f hf
    rw [heS] at hf
    cases hf
    rfl
  rcases hcases with ⟨hact, rfl, rfl⟩ | ⟨hact, el, hel, hrest⟩
  · -- an inactive entry is skipped
    have hk : ¬ s.ActiveAt k := by
      rintro ⟨f, hf, hfact⟩
      rw [hentry f hf, hact] at hfact
      cases hfact
    refine ⟨hadapters, heligible, hoff, fun i hi => hahead i (by omega), hflag, ?_, ?_⟩
    · rw [hopened, exists_succ]
      simp [hk]
    · rw [hsees, leading_skip hk]
  have hA : s.ActiveAt k := ⟨e, heS, hact⟩
  have hE : s.EligibleAt d env k ↔ el = true := by
    rw [heligible] at hel
    constructor
    · rintro ⟨f, hf, hfel⟩
      rw [hentry f hf, hel] at hfel
      cases hfel
      rfl
    · rintro rfl
      exact ⟨e, heS, hel⟩
  rcases hrest with ⟨es, hes, hne, rfl, hskip⟩ | ⟨rfl, hsupply, rfl, hnone, m, es, hes, ⟨trace, rfl⟩, hm⟩
  · -- calls only: the entry is eligible, or there are no shares
    obtain ⟨hcond, trace, rfl⟩ := hskip (hahead k (Nat.le_refl k))
    have htr : trace = t.trace ++ es := hes.trace
    have hcalls : OnlyCalls false es := hoff ▸ hes.calls
    refine ⟨hadapters, heligible, hoff, fun i hi => hahead i (by omega), ?_, ?_, ?_⟩
    · dsimp only
      rw [hflag, htr, hasOpened_append, hcalls.hasOpened, Bool.or_false]
    · dsimp only
      rw [htr, hasOpened_append, hcalls.hasOpened, Bool.or_false, hopened, exists_succ]
      rcases hcond with htrue | hz
      · simp [hE.2 htrue]
      · simp [hz]
    · dsimp only
      rw [htr, seesSwitch_calls_off hcalls, hsees, leading_succ hA]
      rcases hcond with htrue | hz
      · have hnil := hne htrue
        by_cases hz : supply = 0
        · simp [hz, hnil, hopened]
        · simp only [hz, hnil, imp_false, hopened, exists_not, false_or, ne_eq, not_false_eq_true, true_and, not_not]
      · simp [hz, hopened]
  -- the entry is not eligible: a call, then a record
  obtain ⟨id, htr⟩ := openExclusion_trace hm
  obtain ⟨x, -, -, -, -, -, -, hu⟩ := openExclusion_spec hm
  have hmtr : trace = t.trace ++ es := hes.trace
  have hcalls : OnlyCalls false (es ++ [.contacted e.adapter t.book.snapshots]) := by
    rw [hoff]
    exact OnlyCalls.append (hoff ▸ hes.calls) (by simp [OnlyCalls])
  have htr' : u.trace = t.trace ++ (es ++ [.contacted e.adapter t.book.snapshots]) ++
      [.opened id t.book.shares] := by
    rw [htr]
    dsimp only
    rw [hmtr]
    simp only [append_assoc]
  have hmem : .opened id t.book.shares ∈ u.trace := by rw [htr']; simp
  have hlast : hasOpened u.trace = true := hasOpened_of_mem hmem
  refine ⟨by rw [hu]; exact hadapters, by rw [hu]; exact heligible, by rw [hu]; exact hoff, ?_, hlast.symm, ?_, ?_⟩
  · intro i hi
    rw [hu]
    dsimp only
    rw [update_of_ne (by omega)]
    exact hahead i (by omega)
  · simp only [hlast, true_iff]
    exact ⟨hsupply, k, by omega, hA, by rw [hE]; simp⟩
  · dsimp only
    rw [htr', seesSwitch_append, seesSwitch_calls_off hcalls, hsees, leading_succ hA]
    simp only [SeesSwitch, and_true, hopened, exists_not, append_eq_nil_iff, reduceCtorEq, and_false,
      imp_false, hsupply, ne_eq, not_false_eq_true, true_and, not_not, false_or]

private theorem syncLoop_off (hs : s.Sound false) (htrace : s.trace = []) (hoff : s.book.snapshots = false)
    (h : s.syncLoop d env block supply restoring = .ok (t, opened)) :
    t.book.snapshots = false ∧ opened = hasOpened t.trace ∧
      (hasOpened t.trace = true ↔ supply ≠ 0 ∧ ¬ s.AllEligible d env) ∧
      (SeesSwitch false t.trace ↔ supply = 0 ∨ s.LeadingEligible d env) := by
  -- without the switch there are no records, so no entry has one
  have hnone : ∀ i, s.openExclusionOf i = 0 := by
    intro i
    by_contra hi
    obtain ⟨-, -, hle, -⟩ := hs.open_record i hi
    have hcount : s.book.ledger.exclusionCount ≠ 0 := by omega
    rw [hs.switch rfl hcount] at hoff
    cases hoff
  have hinv := foldlM_range_invariant (f := syncEntry d env block supply restoring) (n := s.adapters.length)
    (P := fun k x => SyncedOff d env s supply k x) (fun k x y _ hx hround => hx.syncEntry hround)
    ⟨rfl, fun _ => rfl, hoff, fun i _ => hnone i, by rw [htrace]; rfl, by rw [htrace]; simp [hasOpened],
      by rw [htrace]; simp [SeesSwitch]⟩ h
  have hbound : ∀ {i}, s.ActiveAt i → i < s.adapters.length := by
    rintro i ⟨e, he, -⟩
    exact (List.getElem?_eq_some_iff.1 he).1
  refine ⟨hinv.off, hinv.flag, hinv.opened.trans ?_, hinv.sees.trans ?_⟩
  · refine and_congr_right fun _ => ?_
    simp only [AllEligible, not_forall, exists_prop]
    constructor
    · rintro ⟨i, -, hA, hE⟩
      exact ⟨i, hA, hE⟩
    · rintro ⟨i, hA, hE⟩
      exact ⟨i, hbound hA, hA, hE⟩
  · refine or_congr_right ?_
    constructor
    · intro hl i j hij hi hj
      exact hl i j hij (hbound hj) hi hj
    · intro hl i j hij _ hi hj
      exact hl i j hij hi hj

/-- The switch was on at every call after a record opened, and the new records have exact snapshots. -/
def SwitchBeforeCalls (s : Vault σ) : Prop :=
  SeesSwitch false s.trace ∧ ∀ id shares, .opened id shares ∈ s.trace → ∀ a, s.book.balanceAt a id = shares a

private theorem sync_then_calls (hs : s.Sound false) (htrace : s.trace = [])
    (hsync : s.syncLoop d env block s.book.totalSupply restoring = .ok (t, opened)) (htail : t.Logged u es)
    (hlast : (u.markExclusionOpened opened).Logged s' fs) :
    s'.SwitchBeforeCalls ↔ s.book.snapshots = true ∨ s.book.totalSupply = 0 ∨
      s.LeadingEligible d env ∧ (es ≠ [] → s.AllEligible d env) := by
  have htr : s'.trace = t.trace ++ es ++ fs := by
    rw [hlast.trace, markExclusionOpened_trace, htail.trace]
  have hiff : s'.SwitchBeforeCalls ↔ SeesSwitch false s'.trace := by
    refine ⟨And.left, fun hsees => ⟨hsees, ?_⟩⟩
    obtain ⟨hw, hexact⟩ := syncLoop_exact hs.wellFormed htrace hsync
    have hparts := hsees
    rw [htr] at hparts
    have hu : SeesSwitch false u.trace := by
      rw [htail.trace]
      exact (seesSwitch_append.1 hparts).1
    have ht := (seesSwitch_append.1 (seesSwitch_append.1 hparts).1).1
    have hu' := (((hexact ht).logged hw htail hu).mark opened).logged
      (wellFormed_mark (htail.wellFormed hw) opened) hlast hsees
    exact fun id shares hmem => (hu' id shares hmem).2.2
  rw [hiff]
  cases hon : s.book.snapshots with
  | true =>
    have hall : s.AllOn := ⟨hon, fun a switch hmem => by rw [htrace] at hmem; cases hmem⟩
    have hall' := (((syncLoop_allOn hall hsync).logged htail).mark opened).logged hlast
    simp only [true_or, iff_true]
    exact seesSwitch_of_on _ hall'.2
  | false =>
    obtain ⟨hoff, hflag, hopened, hsees⟩ := syncLoop_off hs htrace hon hsync
    have hcalls : OnlyCalls false es := hoff ▸ htail.calls
    -- after the switch, calls are fine: if a record opened, the switch is on
    have hfs : SeesSwitch (hasOpened (t.trace ++ es)) fs := by
      rw [hlast.calls.seesSwitch, hasOpened_append, hcalls.hasOpened, Bool.or_false, ← hflag]
      rintro rfl _
      rfl
    rw [htr, seesSwitch_append, Bool.false_or, seesSwitch_calls_off hcalls, hsees, hopened]
    simp only [hfs, and_true, Bool.false_eq_true, false_or]
    by_cases hz : s.book.totalSupply = 0
    · simp [hz]
    · simp only [hz, false_or, ne_eq, not_false_eq_true, true_and, not_imp_comm]

private theorem sync_then_drain (hs : s.Sound false) (htrace : s.trace = [])
    (hsync : s.syncLoop d env block s.book.totalSupply restoring = .ok (t, opened)) (htail : t.Logged u es)
    (hne : (∃ i, s.ActiveAt i) → es ≠ []) (hlast : (u.markExclusionOpened opened).Logged s' fs) :
    s'.SwitchBeforeCalls ↔ s.book.snapshots = true ∨ s.book.totalSupply = 0 ∨ s.AllEligible d env := by
  rw [sync_then_calls hs htrace hsync htail hlast]
  refine or_congr_right (or_congr_right ?_)
  constructor
  · rintro ⟨-, hall⟩ i hi
    exact hall (hne ⟨i, hi⟩) i hi
  · intro hall
    exact ⟨fun i j _ hi _ => hall i hi, fun _ => hall⟩

private theorem activeAt_congr (h : t.adapters = s.adapters) (i : Nat) : t.ActiveAt i ↔ s.ActiveAt i := by
  unfold ActiveAt
  rw [h]

private theorem syncLoop_adapters (h : s.syncLoop d env block supply restoring = .ok (t, opened)) :
    t.adapters = s.adapters := by
  refine foldlM_invariant (P := fun x : Vault σ × Bool => x.1.adapters = s.adapters) ?_ rfl h
  rintro ⟨v, b⟩ k ⟨w, b'⟩ - hv hround
  simp only [syncEntry, bind_eq_ok] at hround
  obtain ⟨e, -, hround⟩ := hround
  have hprobe : (v.probe env e.adapter).adapters = s.adapters := (probe_moved v e.adapter).adapters.trans hv
  split at hround
  · cases hround; exact hv
  simp only [bind_eq_ok] at hround
  obtain ⟨eligible, -, hround⟩ := hround
  split at hround
  · split at hround
    · cases hround; exact hprobe
    simp only [bind_eq_ok, ok.injEq, Prod.mk.injEq] at hround
    obtain ⟨m, hm, rfl, -⟩ := hround
    obtain ⟨x, -, -, -, -, -, -, rfl⟩ := openExclusion_spec hm
    exact hprobe
  split at hround
  · simp only [bind_eq_ok, ok.injEq, Prod.mk.injEq] at hround
    obtain ⟨m, hm, rfl, -⟩ := hround
    obtain ⟨m', hsteady, hfin⟩ := restore_spec hm
    exact (finalize_spec hfin).1.trans (hsteady.adapters.trans hprobe)
  · cases hround; exact hprobe

section

variable (hs : s.Sound false)

include hs

section

variable (htrace : s.trace = [])

include htrace

theorem syncExclusions_switch (h : s.syncExclusions d env block restoring = .ok s') :
    s'.SwitchBeforeCalls ↔ s.book.snapshots = true ∨ s.book.totalSupply = 0 ∨ s.LeadingEligible d env := by
  simp only [syncExclusions, bind_eq_ok, ok.injEq] at h
  obtain ⟨⟨t, opened⟩, ht, rfl⟩ := h
  rw [sync_then_calls hs htrace ht (.refl t) (.refl _)]
  simp

theorem emergencyWithdraw_switch (h : s.emergencyWithdraw d env block = .ok s') :
    s'.SwitchBeforeCalls ↔ s.book.snapshots = true ∨ s.book.totalSupply = 0 ∨ s.AllEligible d env := by
  simp only [emergencyWithdraw, emergencyWithdrawAll, bind_eq_ok, ok.injEq] at h
  obtain ⟨x, ⟨⟨t, opened⟩, ht, u, hu, rfl⟩, rfl⟩ := h
  have hs' : { s with depositsPaused := true }.Sound false := hs.of_same ⟨rfl, rfl, .refl _, id, id⟩
  obtain ⟨es, hes, hne⟩ := loop_logged (v := id) rfl
    (fun _ _ _ h => ⟨(emergencyPullActive_moved h).adapters, emergencyPullActive_logged h⟩) hu
  have hne' : (∃ i, { s with depositsPaused := true }.ActiveAt i) → es ≠ [] := by
    rintro ⟨i, hi⟩
    exact hne ⟨i, (activeAt_congr (syncLoop_adapters ht) i).2 hi⟩
  have hdrain := sync_then_drain hs' htrace ht hes hne' (.refl _)
  exact hdrain

theorem emergencyWithdrawAdapter_switch (h : s.emergencyWithdrawAdapter d env block i = .ok s') :
    s'.SwitchBeforeCalls ↔ s.book.snapshots = true ∨ s.book.totalSupply = 0 ∨ s.AllEligible d env := by
  simp only [emergencyWithdrawAdapter, emergencyWithdrawOne, bind_eq_ok, ok.injEq] at h
  obtain ⟨x, ⟨-, -, ⟨t, opened⟩, ht, u, hu, rfl⟩, rfl⟩ := h
  have hs' : { s with depositsPaused := true }.Sound false := hs.of_same ⟨rfl, rfl, .refl _, id, id⟩
  obtain ⟨es, hes, hne⟩ := emergencyPull_logged hu
  have hdrain := sync_then_drain hs' htrace ht hes (fun _ => hne) (.refl _)
  exact hdrain

theorem emergencyExcludeAdapter_switch (h : s.emergencyExcludeAdapter d env block i = .ok s') :
    s'.SwitchBeforeCalls ↔ s.book.snapshots = true ∨ s.book.totalSupply = 0 ∨
      ∀ e, s.adapters[i]? = some e → { s with allowed := update s.allowed e.adapter false }.LeadingEligible d env := by
  simp only [emergencyExcludeAdapter, emergencyExclude, bind_eq_ok, requireActive_eq_ok, ok.injEq] at h
  obtain ⟨⟨t, opened⟩, ⟨e, ⟨he, -⟩, ht⟩, rfl⟩ := h
  have hs' : { s with allowed := update s.allowed e.adapter false }.Sound false :=
    hs.of_same ⟨rfl, rfl, .refl _, id, id⟩
  have hsync := sync_then_calls hs' htrace ht (.refl t) (.refl _)
  simp only [ne_eq, not_true_eq_false, false_imp_iff, and_true] at hsync
  simp only [he, Option.some.injEq, forall_eq']
  exact hsync

theorem adminRebalance_switch (h : s.adminRebalance d env block targets = .ok s') :
    s'.SwitchBeforeCalls ↔ s.book.snapshots = true ∨ s.book.totalSupply = 0 ∨ s.AllEligible d env := by
  simp only [adminRebalance, adminRebalancePull, adminRebalanceAllocate, bind_eq_ok, ok.injEq] at h
  obtain ⟨x, ⟨-, -, ⟨t, opened⟩, ht, ⟨u, moved⟩, hu, rfl⟩, v, ⟨⟨w, left⟩, hw, rfl⟩, rfl⟩ := h
  obtain ⟨es, hes, hne⟩ := loop_logged (v := fst) (x := (t, 0)) rfl
    (fun _ _ _ h => ⟨(pullToTarget_moved h).adapters, pullToTarget_logged h⟩) hu
  obtain ⟨fs, hfs⟩ : ∃ fs, (u.markExclusionOpened opened).Logged w fs := by
    refine foldlM_invariant
      (P := fun y : Vault σ × Nat => ∃ fs, (u.markExclusionOpened opened).Logged y.1 fs) ?_ ⟨[], .refl _⟩ hw
    rintro ⟨y, m⟩ k ⟨y', m'⟩ - ⟨fs, hfs⟩ hround
    obtain ⟨gs, hgs⟩ := allocateToTarget_logged hround
    exact ⟨fs ++ gs, hfs.trans hgs⟩
  have hlast : (u.markExclusionOpened opened).Logged { w with lastRebalanceAt := block.timestamp.val } fs :=
    ⟨hfs.trace, hfs.calls, hfs.snapshots, hfs.count, hfs.wellFormed, hfs.balanceAt⟩
  refine sync_then_drain hs htrace ht hes ?_ hlast
  rintro ⟨i, hi⟩
  exact hne ⟨i, (activeAt_congr (syncLoop_adapters ht) i).2 hi⟩

theorem forceRemove_switch (h : s.forceRemove d env block i = .ok s') : s'.SwitchBeforeCalls := by
  simp only [forceRemove, forceRemoveAdapter, bind_eq_ok, ok.injEq] at h
  obtain ⟨⟨t, opened⟩, ⟨e, -, balance, -, h⟩, rfl⟩ := h
  -- the state after the question
  obtain ⟨m, hm⟩ : ∃ m : Vault σ, m = ({ s with depositsPaused := true }.deactivate i).contact e.adapter := ⟨_, rfl⟩
  rw [← hm] at h
  have hmtrace : m.trace = [.contacted e.adapter s.book.snapshots] := by
    rw [hm]
    show s.trace ++ _ = _
    rw [htrace]
    rfl
  have hmw : m.book.WellFormed := by rw [hm]; exact hs.wellFormed
  have hmexact : m.ExactSince := by
    intro id shares hmem
    rw [hmtrace] at hmem
    simp at hmem
  unfold forceRemoved at h
  split at h
  · simp only [bind_eq_ok, ok.injEq, Prod.mk.injEq] at h
    obtain ⟨u, hu, rfl, -⟩ := h
    have hlog := finalize_logged hu
    have htr : u.trace = [.contacted e.adapter s.book.snapshots] := by rw [hlog.trace, hmtrace]; rfl
    refine ⟨by rw [markExclusionOpened_trace, htr]; simp [SeesSwitch], ?_⟩
    intro id shares hmem
    rw [markExclusionOpened_trace, htr] at hmem
    simp at hmem
  split at h
  · simp only [bind_eq_ok, ok.injEq, Prod.mk.injEq] at h
    obtain ⟨u, hu, rfl, -⟩ := h
    obtain ⟨id, htr⟩ := openExclusion_trace hu
    refine ⟨by rw [markExclusionOpened_trace, htr, hmtrace]; simp [SeesSwitch], ?_⟩
    intro id shares hmem
    exact ((hmexact.open hmw hu).mark opened id shares hmem).2.2
  cases h
  refine ⟨by rw [markExclusionOpened_trace, hmtrace]; simp [SeesSwitch], ?_⟩
  intro id shares hmem
  exact (hmexact.mark _ id shares hmem).2.2

end

end

end Vault

def VaultCall.OpensRecords {σ : Type} : VaultCall σ → Prop
  | .emergencyWithdraw | .emergencyWithdrawAdapter _ | .emergencyExcludeAdapter _ | .adminRebalance _
  | .syncExclusions | .setAdapterAllowed .. | .setAdapterCodeHashAllowed .. | .forceRemoveAdapter _ => True
  | _ => False

open Vault in
/-- When the lever calls no adapter between opening a record and turning the switch on. -/
def VaultCall.SwitchSafe {σ : Type} (d : Deployment) (env : Outside σ) (s : Vault σ) : VaultCall σ → Prop
  | .emergencyWithdraw | .emergencyWithdrawAdapter _ | .adminRebalance _ =>
    s.book.snapshots = true ∨ s.book.totalSupply = 0 ∨ s.AllEligible d env
  | .syncExclusions => s.book.snapshots = true ∨ s.book.totalSupply = 0 ∨ s.LeadingEligible d env
  | .setAdapterAllowed a value => s.book.snapshots = true ∨ s.book.totalSupply = 0 ∨
    { s with allowed := update s.allowed a value }.LeadingEligible d env
  | .setAdapterCodeHashAllowed codeHash value => s.book.snapshots = true ∨ s.book.totalSupply = 0 ∨
    { s with codeHashAllowed := update s.codeHashAllowed codeHash value }.LeadingEligible d env
  | .emergencyExcludeAdapter i => s.book.snapshots = true ∨ s.book.totalSupply = 0 ∨
    ∀ e, s.adapters[i]? = some e →
      { s with allowed := update s.allowed e.adapter false }.LeadingEligible d env
  | _ => True

open Vault in
private theorem vaultCall_switch {σ : Type} {d : Deployment} {env : Outside σ} {s s' : Vault σ} (hs : s.Sound false)
    (htrace : s.trace = []) {sender : Address} {block : Block} {call : VaultCall σ} (hlever : call.OpensRecords)
    (h : vaultCall d env s sender block call = .ok s') : s'.SwitchBeforeCalls ↔ call.SwitchSafe d env s := by
  cases call with
  | emergencyWithdraw =>
    simp only [vaultCall, bind_eq_ok] at h
    obtain ⟨-, -, h⟩ := h
    exact emergencyWithdraw_switch hs htrace h
  | emergencyWithdrawAdapter i =>
    simp only [vaultCall, bind_eq_ok] at h
    obtain ⟨-, -, h⟩ := h
    exact emergencyWithdrawAdapter_switch hs htrace h
  | emergencyExcludeAdapter i =>
    simp only [vaultCall, bind_eq_ok] at h
    obtain ⟨-, -, h⟩ := h
    exact emergencyExcludeAdapter_switch hs htrace h
  | adminRebalance targets =>
    simp only [vaultCall, bind_eq_ok] at h
    obtain ⟨-, -, h⟩ := h
    exact adminRebalance_switch hs htrace h
  | syncExclusions => exact syncExclusions_switch hs htrace h
  | setAdapterAllowed a value =>
    simp only [vaultCall, setAdapterAllowed, bind_eq_ok] at h
    obtain ⟨-, -, -, -, h⟩ := h
    have hs' : { s with allowed := update s.allowed a value }.Sound false :=
      hs.of_same ⟨rfl, rfl, .refl _, id, id⟩
    exact syncExclusions_switch hs' htrace h
  | setAdapterCodeHashAllowed codeHash value =>
    simp only [vaultCall, setAdapterCodeHashAllowed, bind_eq_ok] at h
    obtain ⟨-, -, -, -, h⟩ := h
    have hs' : { s with codeHashAllowed := update s.codeHashAllowed codeHash value }.Sound false :=
      hs.of_same ⟨rfl, rfl, .refl _, id, id⟩
    exact syncExclusions_switch hs' htrace h
  | forceRemoveAdapter i =>
    simp only [vaultCall, bind_eq_ok] at h
    obtain ⟨-, -, h⟩ := h
    exact iff_of_true (forceRemove_switch hs htrace h) trivial
  | _ => exact absurd hlever id

/-- In every execution of a lever that can open a record, from every state the system reaches: the switch is on at
every call of an adapter after a record opened, and the new records have exact snapshots, if and only if the switch
was on before, or there are no shares, or the adapters that would open a record too early are all eligible. -/
theorem switch_before_calls_iff {σ : Type} (d : Deployment) (env : Outside σ) (s s' : Vault σ)
    (hreach : s.Reached d env) (tx : Tx σ) (hlever : tx.call.OpensRecords) (h : vaultStep d env s tx = .ok s') :
    s'.SwitchBeforeCalls ↔ tx.call.SwitchSafe d env s := by
  have hs : { s with trace := [] }.Sound false := hreach.sound.of_same ⟨rfl, rfl, .refl _, id, id⟩
  have hcond : tx.call.SwitchSafe d env { s with trace := [] } ↔ tx.call.SwitchSafe d env s := by
    cases tx.call <;> rfl
  rw [← hcond]
  exact vaultCall_switch hs rfl hlever h

def sharedDeposit : List (Tx (Address → Nat)) :=
  [⟨21, .sample, .setAdapterCodeHashAllowed 7 true⟩, ⟨21, .sample, .setAdapterAllowed 30 true⟩,
    ⟨21, .sample, .setAdapterAllowed 31 true⟩, ⟨21, .sample, .addAdapter 30 5000⟩,
    ⟨21, .sample, .addAdapter 31 10000⟩, ⟨5, .sample, .deposit 1000 5⟩]

/-- Excluding the last of the adapters is safe although it opens the first record. -/
theorem switch_before_calls_last :
    ∃ s s' : Vault (Address → Nat), s.Reached .sample .sample ∧ s.book.snapshots = false ∧
      vaultStep .sample .sample s ⟨21, .sample, .setAdapterAllowed 31 false⟩ = .ok s' ∧ s'.openExclusionOf 1 = 1 ∧
      s'.SwitchBeforeCalls := by
  obtain ⟨s₀, hinit, hreached⟩ := Vault.sample_reached .sample (fun _ => 0) sharedDeposit
  cases hinit
  refine ⟨_, _, hreached, rfl, rfl, rfl, ?_⟩
  refine (switch_before_calls_iff _ _ _ _ hreached ⟨21, .sample, .setAdapterAllowed 31 false⟩ trivial rfl).2
    (.inr (.inr ?_))
  rintro i j hij - ⟨e, he, -⟩
  have hj : j < 2 := (getElem?_eq_some_iff.1 he).1
  obtain rfl : i = 0 := by omega
  exact ⟨_, rfl, rfl⟩

/-- Adapters whose code may be replaced, and whose `withdraw` moves a share of account 5 while it runs. -/
def Outside.hooked : Outside ((Address → Nat) × Bool) where
  codehash := fun w _ => if w.2 then 8 else 7
  usdcView := fun _ _ => ⟨true, 32, 3⟩
  vaultView := fun _ a => if a = 1 then ⟨false, 0, 0⟩ else ⟨true, 32, 1⟩
  maxExposure := fun _ _ => ⟨false, 0, 0⟩
  venueWithdrawable := fun _ _ => ⟨false, 0, 0⟩
  totalAssets := fun w a => .returned (w.1 a)
  withdraw := fun w a x =>
    if x ≤ w.1 a then
      .returned ⟨x, [.issueUsdc 1 x, .transferShares 5 6 1], (update w.1 a (w.1 a - x), w.2)⟩
    else .reverted
  deploy := fun w a x => .returned ⟨0, [], (update w.1 a (w.1 a + x), w.2)⟩
  setMaxExposure := fun _ _ _ => .reverted

def replacedCode : List (Tx ((Address → Nat) × Bool)) :=
  [⟨21, .sample, .setAdapterCodeHashAllowed 7 true⟩, ⟨21, .sample, .setAdapterAllowed 30 true⟩,
    ⟨21, .sample, .addAdapter 30 10000⟩, ⟨5, .sample, .deposit 1000 5⟩,
    ⟨9, .sample, .outside [] (update (fun _ => 0) 30 1000, true)⟩]

/-- `emergencyWithdraw` opens the record, then calls the adapter with the switch still off; the share it moves is not
checkpointed, and the snapshot of the record is one share short of the balance it opened over. -/
theorem switch_after_drain :
    ∃ s s' : Vault ((Address → Nat) × Bool), s.Reached .sample .hooked ∧
      vaultStep .sample .hooked s ⟨22, .sample, .emergencyWithdraw⟩ = .ok s' ∧ ¬ SeesSwitch false s'.trace ∧
      ∃ shares, .opened 1 shares ∈ s'.trace ∧ s'.book.balanceAt 5 1 + 1 = shares 5 := by
  obtain ⟨s₀, hinit, hreached⟩ := Vault.sample_reached .hooked (fun _ => 0, false) replacedCode
  cases hinit
  refine ⟨_, _, hreached, rfl, ?_, ?_⟩
  · intro hsees
    exact absurd (hsees.2.1 rfl) (by decide)
  · exact ⟨_, .tail _ (.head _), rfl⟩

end RobotMoney
