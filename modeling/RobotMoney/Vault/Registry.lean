import RobotMoney.Vault.Steady

/-!
# The registry and the ledger agree

The relation between registry entries and exclusion records is kept in two contracts: the vault maps an index to its
open record, the ledger maps a record to the index and the adapter it is for.  `Consistent` is that relation.  An
entry is *live* while it is active or has an open record; that live entries have different adapters is the one
property behind the rest, since it keeps a balance from being counted twice or owed to two records.

What changes the relation are four moves: opening a record, closing one, editing an entry and adding one.  `Sound` adds
what else holds between calls, and between the calls of a lever up to the checkpoint switch.
-/

namespace RobotMoney

open Evm Except

namespace Vault

open List Function Except

variable {σ : Type} {d : Deployment} {env : Outside σ} {s s' : Vault σ}

def Live (s : Vault σ) (i : Nat) (e : AdapterInfo) : Prop := e.active = true ∨ s.openExclusionOf i ≠ 0

/-- The two halves of the exclusion registry agree. -/
structure Consistent (s : Vault σ) : Prop where
  /-- An open record is for the index and the adapter of the entry that points to it. -/
  open_record : ∀ i, s.openExclusionOf i ≠ 0 → ∃ e, s.adapters[i]? = some e ∧
    s.openExclusionOf i ≤ s.book.ledger.exclusionCount ∧
    (s.book.ledger.exclusions (s.openExclusionOf i)).finalized = false ∧
    (s.book.ledger.exclusions (s.openExclusionOf i)).adapterIndex = i ∧
    (s.book.ledger.exclusions (s.openExclusionOf i)).adapter = e.adapter
  /-- Every record that still accepts recovery is open at some entry. -/
  record_open : ∀ id, id ≠ 0 → id ≤ s.book.ledger.exclusionCount →
    (s.book.ledger.exclusions id).finalized = false → ∃ i, s.openExclusionOf i = id
  live_distinct : ∀ (i j : Nat) (e f : AdapterInfo), i ≠ j → s.adapters[i]? = some e → s.adapters[j]? = some f →
    s.Live i e → s.Live j f → e.adapter ≠ f.adapter

theorem Consistent.of_same (hc : s.Consistent) (h : s.SameRegistry s') : s'.Consistent where
  open_record := by
    intro i hi
    rw [h.openOf] at hi ⊢
    obtain ⟨e, he, h1, h2, h3, h4⟩ := hc.open_record i hi
    obtain ⟨r1, r2, r3⟩ := h.records.record (s.openExclusionOf i)
    exact ⟨e, by rw [h.adapters]; exact he, by rw [h.records.count]; exact h1, r1.trans h2, r2.trans h3,
      r3.trans h4⟩
  record_open := by
    intro id h0 hle hfin
    rw [h.records.count] at hle
    rw [(h.records.record id).1] at hfin
    rw [h.openOf]
    exact hc.record_open id h0 hle hfin
  live_distinct := by
    intro i j e f hij he hf hle hlf
    rw [h.adapters] at he hf
    unfold Live at hle hlf
    rw [h.openOf] at hle hlf
    exact hc.live_distinct i j e f hij he hf hle hlf

theorem Consistent.open_injective (hc : s.Consistent) {i j : Nat} (hi : s.openExclusionOf i ≠ 0)
    (h : s.openExclusionOf i = s.openExclusionOf j) : i = j := by
  obtain ⟨-, -, -, -, hidx, -⟩ := hc.open_record i hi
  obtain ⟨-, -, -, -, hidx', -⟩ := hc.open_record j (h ▸ hi)
  rw [← hidx, ← hidx', h]

variable {i supply : Nat} {block : Block} {a : Address} {e : AdapterInfo} {restoring opened : Bool}

theorem finalize_cases (h : s.finalize d i = .ok s') :
    s.openExclusionOf i = 0 ∧ s' = s ∨
      s.openExclusionOf i ≠ 0 ∧ ¬ s.book.ledger.NotOpen (s.openExclusionOf i) ∧
        s' = { s with
          book := { s.book with ledger := { s.book.ledger with
            exclusions := update s.book.ledger.exclusions (s.openExclusionOf i)
              { s.book.ledger.exclusions (s.openExclusionOf i) with finalized := true } } }
          openExclusionOf := update s.openExclusionOf i 0 } := by
  unfold finalize at h
  split at h
  · rename_i hz
    cases h
    exact .inl ⟨hz, rfl⟩
  rename_i hne
  simp only [ShareBook.finalize, Ledger.finalize, bind_eq_ok, revertIf_eq_ok, ok.injEq] at h
  obtain ⟨-, ⟨-, ⟨-, -, -, hopen, rfl⟩, rfl⟩, rfl⟩ := h
  exact .inr ⟨hne, hopen, rfl⟩

theorem finalize_spec (h : s.finalize d i = .ok s') :
    s'.adapters = s.adapters ∧ s'.openExclusionOf = update s.openExclusionOf i 0 ∧
      s'.book.ledger.exclusionCount = s.book.ledger.exclusionCount ∧
      ∀ id, (s'.book.ledger.exclusions id).adapterIndex = (s.book.ledger.exclusions id).adapterIndex ∧
        (s'.book.ledger.exclusions id).adapter = (s.book.ledger.exclusions id).adapter ∧
        ((s'.book.ledger.exclusions id).finalized = false ↔
          (s.book.ledger.exclusions id).finalized = false ∧ (s.openExclusionOf i ≠ 0 → id ≠ s.openExclusionOf i)) := by
  rcases finalize_cases h with ⟨hz, rfl⟩ | ⟨hne, -, rfl⟩
  · exact ⟨rfl, by rw [← hz, update_eq_self], rfl, fun id => ⟨rfl, rfl, by simp [hz]⟩⟩
  refine ⟨rfl, rfl, rfl, ?_⟩
  intro id
  by_cases hid : id = s.openExclusionOf i
  · subst hid; simp [hne]
  · simp [hid]

private theorem Consistent.finalize (hc : s.Consistent) (h : s.finalize d i = .ok s') : s'.Consistent := by
  obtain ⟨hadapters, hopen, hcount, hrec⟩ := finalize_spec h
  refine ⟨?_, ?_, ?_⟩
  · intro j hj
    rw [hopen] at hj ⊢
    have hji : j ≠ i := by
      rintro rfl
      simp at hj
    rw [update_of_ne hji] at hj ⊢
    obtain ⟨e, he, h1, h2, h3, h4⟩ := hc.open_record j hj
    obtain ⟨r1, r2, r3⟩ := hrec (s.openExclusionOf j)
    refine ⟨e, by rw [hadapters]; exact he, by rw [hcount]; exact h1, r3.2 ⟨h2, ?_⟩, r1.trans h3, r2.trans h4⟩
    intro _ heq
    exact hji (hc.open_injective hj heq)
  · intro id h0 hle hfin
    rw [hcount] at hle
    obtain ⟨hfin', hne⟩ := (hrec id).2.2.1 hfin
    obtain ⟨j, hj⟩ := hc.record_open id h0 hle hfin'
    refine ⟨j, ?_⟩
    have hji : j ≠ i := by
      rintro rfl
      exact hne (by rw [hj]; exact h0) hj.symm
    rw [hopen, update_of_ne hji]
    exact hj
  · intro j k e f hjk he hf hle hlf
    rw [hadapters] at he hf
    have hlive : ∀ {j e}, s'.Live j e → s.Live j e := by
      intro j e hl
      unfold Live at hl ⊢
      rw [hopen] at hl
      refine hl.imp id ?_
      intro hne
      by_cases hji : j = i
      · subst hji; simp at hne
      · rwa [update_of_ne hji] at hne
    exact hc.live_distinct j k e f hjk he hf (hlive hle) (hlive hlf)

theorem openExclusion_spec (h : s.openExclusion d env block i a supply = .ok s') :
    ∃ x : Exclusion, x.adapterIndex = i ∧ x.adapter = a ∧ x.finalized = false ∧ x.snapshotSupply = supply ∧
      x.recoveredUsdc = 0 ∧ x.claimedUsdc = 0 ∧
      s' = { s with
        book := { s.book with ledger := { s.book.ledger with
          exclusionCount := s.book.ledger.exclusionCount + 1
          exclusions := update s.book.ledger.exclusions (s.book.ledger.exclusionCount + 1) x } }
        openExclusionOf := update s.openExclusionOf i (s.book.ledger.exclusionCount + 1)
        trace := s.trace ++ [.contacted a s.book.snapshots] ++
          [.opened (s.book.ledger.exclusionCount + 1) s.book.shares] } := by
  simp only [openExclusion, Ledger.openRecord, bind_eq_ok, add_eq_ok, ok.injEq] at h
  obtain ⟨⟨id, l⟩, ⟨-, -, r, -, -, ⟨-, rfl⟩, ob, -, oa, -, rfl, rfl⟩, rfl⟩ := h
  exact ⟨_, rfl, rfl, rfl, rfl, rfl, rfl, rfl⟩

/-- Opening a record for entry `i` that has none, when no other live entry has its adapter. -/
theorem Consistent.openExclusion (hc : s.Consistent) (he : s.adapters[i]? = some e) (hnone : s.openExclusionOf i = 0)
    (hfree : ∀ (j : Nat) (f : AdapterInfo), j ≠ i → s.adapters[j]? = some f → s.Live j f → f.adapter ≠ e.adapter)
    (h : s.openExclusion d env block i e.adapter supply = .ok s') : s'.Consistent := by
  obtain ⟨x, hx1, hx2, hx3, -, -, -, hs'⟩ := openExclusion_spec h
  have hadapters : s'.adapters = s.adapters := by rw [hs']
  have hopen : s'.openExclusionOf = update s.openExclusionOf i (s.book.ledger.exclusionCount + 1) := by
    rw [hs']
  have hcount : s'.book.ledger.exclusionCount = s.book.ledger.exclusionCount + 1 := by rw [hs']
  have hrec : s'.book.ledger.exclusions =
      update s.book.ledger.exclusions (s.book.ledger.exclusionCount + 1) x := by rw [hs']
  refine ⟨?_, ?_, ?_⟩
  · intro j hj
    rw [hopen] at hj ⊢
    rw [hadapters, hcount, hrec]
    by_cases hji : j = i
    · subst hji
      exact ⟨e, he, by simp [hx1, hx2, hx3]⟩
    rw [update_of_ne hji] at hj ⊢
    obtain ⟨f, hf, h1, h2⟩ := hc.open_record j hj
    refine ⟨f, hf, by omega, ?_⟩
    rw [update_of_ne (by omega)]
    exact h2
  · intro id h0 hle hfin
    rw [hcount] at hle
    rw [hrec] at hfin
    rw [hopen]
    by_cases hnew : id = s.book.ledger.exclusionCount + 1
    · exact ⟨i, by simp [hnew]⟩
    rw [update_of_ne hnew] at hfin
    obtain ⟨j, hj⟩ := hc.record_open id h0 (by omega) hfin
    have hji : j ≠ i := by
      rintro rfl
      omega
    exact ⟨j, by rw [update_of_ne hji]; exact hj⟩
  · intro j k f g hjk hf hg hlf hlg
    rw [hadapters] at hf hg
    -- entry `i` may have become live; the others are as live as before
    have hlive : ∀ {j : Nat} {f : AdapterInfo}, j ≠ i → s'.Live j f → s.Live j f := by
      intro j f hji hl
      unfold Live at hl ⊢
      rwa [hopen, update_of_ne hji] at hl
    by_cases hji : j = i
    · subst hji
      rw [he] at hf
      cases hf
      exact Ne.symm (hfree k g (Ne.symm hjk) hg (hlive (Ne.symm hjk) hlg))
    by_cases hki : k = i
    · subst hki
      rw [he] at hg
      cases hg
      exact hfree j f hjk hf (hlive hjk hlf)
    · exact hc.live_distinct j k f g hjk hf hg (hlive hji hlf) (hlive hki hlg)

theorem Consistent.free (hc : s.Consistent) (he : s.adapters[i]? = some e) (hl : s.Live i e) (j : Nat)
    (f : AdapterInfo) (hji : j ≠ i) (hf : s.adapters[j]? = some f) (hlf : s.Live j f) : f.adapter ≠ e.adapter :=
  hc.live_distinct j i f e hji hf he hlf hl

private theorem Consistent.modify (hc : s.Consistent) (i : Nat) {f : AdapterInfo → AdapterInfo}
    (hf : ∀ e, (f e).adapter = e.adapter ∧ ((f e).active = true → e.active = true)) :
    { s with adapters := s.adapters.modify i f }.Consistent := by
  have hentry : ∀ {j : Nat} {e' : AdapterInfo}, (s.adapters.modify i f)[j]? = some e' →
      ∃ e, s.adapters[j]? = some e ∧ e.adapter = e'.adapter ∧ (e'.active = true → e.active = true) := by
    intro j e' h
    rw [getElem?_modify, Option.map_eq_map, Option.map_eq_some_iff] at h
    obtain ⟨e, he, rfl⟩ := h
    refine ⟨e, he, ?_⟩
    split
    · exact ⟨(hf e).1.symm, (hf e).2⟩
    · exact ⟨rfl, id⟩
  refine ⟨?_, hc.record_open, ?_⟩
  · intro j hj
    obtain ⟨e, he, h1, h2, h3, h4⟩ := hc.open_record j hj
    refine ⟨if i = j then f e else e, by simp [getElem?_modify, he], h1, h2, h3, ?_⟩
    rw [h4]
    split
    · exact (hf e).1.symm
    · rfl
  · intro j k e' g' hjk he' hg' hle hlg
    obtain ⟨e, he, ha, hact⟩ := hentry he'
    obtain ⟨g, hg, hb, hact'⟩ := hentry hg'
    rw [← ha, ← hb]
    exact hc.live_distinct j k e g hjk he hg (hle.imp hact id) (hlg.imp hact' id)

private theorem Consistent.push (hc : s.Consistent)
    (hfree : ∀ (j : Nat) (f : AdapterInfo), s.adapters[j]? = some f → s.Live j f → f.adapter ≠ e.adapter) :
    { s with adapters := s.adapters ++ [e] }.Consistent := by
  have hentry : ∀ {j : Nat} {f : AdapterInfo}, (s.adapters ++ [e])[j]? = some f →
      s.adapters[j]? = some f ∨ j = s.adapters.length ∧ f = e := by
    intro j f h
    rcases Nat.lt_trichotomy j s.adapters.length with hlt | heq | hgt
    · rw [getElem?_append_left hlt] at h
      exact .inl h
    · subst heq
      simp at h
      exact .inr ⟨rfl, h.symm⟩
    rw [getElem?_eq_none (by simp; omega)] at h
    cases h
  refine ⟨?_, hc.record_open, ?_⟩
  · intro j hj
    obtain ⟨f, hf, h1⟩ := hc.open_record j hj
    refine ⟨f, ?_, h1⟩
    rw [List.getElem?_append_left (List.getElem?_eq_some_iff.1 hf).1]
    exact hf
  · intro j k f g hjk hf hg hlf hlg
    rcases hentry hf with hf' | ⟨rfl, rfl⟩
    · rcases hentry hg with hg' | ⟨rfl, rfl⟩
      · exact hc.live_distinct j k f g hjk hf' hg' hlf hlg
      · exact hfree j f hf' hlf
    rcases hentry hg with hg' | ⟨rfl, rfl⟩
    · exact Ne.symm (hfree k g hg' hlg)
    · exact absurd rfl hjk

/-- What holds of the vault between its calls, and inside a lever.  `pending` says that a record may have opened since
the checkpoint switch was last set. -/
structure Sound (s : Vault σ) (pending : Bool) : Prop extends Consistent s where
  wellFormed : s.book.WellFormed
  fee : s.exitFeeBps ≤ maxExitFeeBps
  recipient : s.feeRecipient ≠ 0
  switch : pending = false → s.book.ledger.exclusionCount ≠ 0 → s.book.snapshots = true

variable {p : Bool}

theorem Sound.of_same (hs : s.Sound p) (h : s.SameRegistry s') : s'.Sound p where
  toConsistent := hs.toConsistent.of_same h
  wellFormed := h.book.wellFormed hs.wellFormed
  fee := h.fee hs.fee
  recipient := h.recipient hs.recipient
  switch := by
    rw [h.records.count, h.book.snapshots]
    exact hs.switch

theorem Sound.of_moved (hs : s.Sound p) (h : s.Moved s') : s'.Sound p := hs.of_same h.toSameRegistry

theorem finalize_wellFormed (hw : s.book.WellFormed) (h : s.finalize d i = .ok s') : s'.book.WellFormed := by
  rcases finalize_cases h with ⟨-, rfl⟩ | ⟨-, hopen, rfl⟩
  · exact hw
  refine ⟨⟨hw.ordered.ascending, hw.ordered.bounded, hw.ordered.zero⟩, hw.zeroShares, hw.supply, ?_⟩
  intro id hid
  unfold Ledger.NotOpen at hopen
  dsimp only at hid ⊢
  rw [update_of_ne (by omega)]
  exact hw.unopened id hid

theorem openExclusion_wellFormed (hw : s.book.WellFormed) (h : s.openExclusion d env block i a supply = .ok s') :
    s'.book.WellFormed := by
  obtain ⟨x, -, -, -, -, -, -, rfl⟩ := openExclusion_spec h
  refine ⟨⟨hw.ordered.ascending, ?_, hw.ordered.zero⟩, hw.zeroShares, hw.supply, ?_⟩
  · intro a c hc
    exact Nat.le_succ_of_le (hw.ordered.bounded a c hc)
  · intro id hid
    dsimp only at hid ⊢
    rw [update_of_ne (by omega)]
    exact hw.unopened id (by omega)

section

variable (hs : s.Sound p)

include hs

private theorem Sound.finalize (h : s.finalize d i = .ok s') : s'.Sound p := by
  have hc := hs.toConsistent.finalize h
  have hw := finalize_wellFormed hs.wellFormed h
  rcases finalize_cases h with ⟨-, rfl⟩ | ⟨-, -, rfl⟩
  · exact hs
  · exact ⟨hc, hw, hs.fee, hs.recipient, hs.switch⟩

private theorem Sound.openExclusion (he : s.adapters[i]? = some e) (hnone : s.openExclusionOf i = 0)
    (hfree : ∀ (j : Nat) (f : AdapterInfo), j ≠ i → s.adapters[j]? = some f → s.Live j f → f.adapter ≠ e.adapter)
    (h : s.openExclusion d env block i e.adapter supply = .ok s') : s'.Sound true := by
  have hc := hs.toConsistent.openExclusion he hnone hfree h
  have hw := openExclusion_wellFormed hs.wellFormed h
  obtain ⟨x, -, -, -, -, -, -, rfl⟩ := openExclusion_spec h
  exact ⟨hc, hw, hs.fee, hs.recipient, fun h => absurd h (by simp)⟩

private theorem Sound.modify (i : Nat) {f : AdapterInfo → AdapterInfo}
    (hf : ∀ e, (f e).adapter = e.adapter ∧ ((f e).active = true → e.active = true)) :
    { s with adapters := s.adapters.modify i f }.Sound p :=
  ⟨hs.toConsistent.modify i hf, hs.wellFormed, hs.fee, hs.recipient, hs.switch⟩

private theorem Sound.push
    (hfree : ∀ (j : Nat) (f : AdapterInfo), s.adapters[j]? = some f → s.Live j f → f.adapter ≠ e.adapter) :
    { s with adapters := s.adapters ++ [e] }.Sound p :=
  ⟨hs.toConsistent.push hfree, hs.wellFormed, hs.fee, hs.recipient, hs.switch⟩

private theorem Sound.mark : (s.markExclusionOpened p).Sound false := by
  cases p with
  | false => exact hs
  | true =>
    refine ⟨⟨hs.open_record, hs.record_open, hs.live_distinct⟩, ?_, hs.fee, hs.recipient, fun _ _ => rfl⟩
    exact ⟨hs.wellFormed.ordered, hs.wellFormed.zeroShares, hs.wellFormed.supply, hs.wellFormed.unopened⟩

end

theorem restore_spec (h : s.restore d env i = .ok s') : ∃ t, s.Moved t ∧ t.finalize d i = .ok s' := by
  simp only [Vault.restore, bind_eq_ok] at h
  obtain ⟨e, -, ⟨ok, t⟩, ht, -, -, h⟩ := h
  exact ⟨t, drain_moved ht, h⟩

theorem Sound.restore (hs : s.Sound p) (h : s.restore d env i = .ok s') : s'.Sound p := by
  obtain ⟨t, hsame, hfin⟩ := restore_spec h
  exact (hs.of_moved hsame).finalize hfin

theorem Sound.syncEntry {opened opened' : Bool} (hs : s.Sound opened)
    (h : syncEntry d env block supply restoring (s, opened) i = .ok (s', opened')) : s'.Sound opened' := by
  simp only [Vault.syncEntry, bind_eq_ok, entry_eq_ok] at h
  obtain ⟨e, he, h⟩ := h
  split at h
  · cases h; exact hs
  rename_i hact
  have hprobe : (s.probe env e.adapter).Sound opened := hs.of_moved (probe_moved s e.adapter)
  have he' : (s.probe env e.adapter).adapters[i]? = some e := by
    rw [(probe_moved s e.adapter).adapters]
    exact he
  simp only [bind_eq_ok] at h
  obtain ⟨eligible, -, h⟩ := h
  split at h
  · rename_i hnone
    split at h
    · cases h; exact hprobe
    simp only [bind_eq_ok, ok.injEq, Prod.mk.injEq] at h
    obtain ⟨t, ht, rfl, rfl⟩ := h
    exact hprobe.openExclusion he' hnone (hprobe.free he' (.inl (by simpa using hact))) ht
  split at h
  · simp only [bind_eq_ok, ok.injEq, Prod.mk.injEq] at h
    obtain ⟨t, ht, rfl, rfl⟩ := h
    exact hprobe.restore ht
  · cases h; exact hprobe

theorem Sound.syncLoop (hs : s.Sound false) (h : s.syncLoop d env block supply restoring = .ok (s', opened)) :
    s'.Sound opened := by
  refine foldlM_invariant (P := fun x : Vault σ × Bool => x.1.Sound x.2) ?_ hs h
  rintro ⟨t, b⟩ i ⟨t', b'⟩ _ ht hstep
  exact ht.syncEntry hstep

/-- The loop of `addAdapter` closes every record of the address. -/
theorem settle_loop (hs : s.Sound p) (h : s.indices.foldlM (settle d env a) s = .ok s') :
    s'.Sound p ∧ s'.adapters = s.adapters ∧ (∀ i, s'.openExclusionOf i ≠ 0 → s.openExclusionOf i ≠ 0) ∧
      ∀ i e, s.adapters[i]? = some e → e.adapter = a → s'.openExclusionOf i = 0 := by
  have hinv := foldlM_range_invariant (f := settle d env a) (n := s.adapters.length)
    (P := fun k t => t.Sound p ∧ t.adapters = s.adapters ∧
      (∀ i, t.openExclusionOf i ≠ 0 → s.openExclusionOf i ≠ 0) ∧
      ∀ i e, i < k → s.adapters[i]? = some e → e.adapter = a → t.openExclusionOf i = 0) ?_
    ⟨hs, rfl, fun _ h => h, fun i e hi => absurd hi (Nat.not_lt_zero i)⟩ h
  · refine ⟨hinv.1, hinv.2.1, hinv.2.2.1, ?_⟩
    intro i e he
    exact hinv.2.2.2 i e (List.getElem?_eq_some_iff.1 he).1 he
  · rintro k t t' hk ⟨ht, hadapters, hsub, hdone⟩ hstep
    simp only [Vault.settle, bind_eq_ok, entry_eq_ok] at hstep
    obtain ⟨f, hf, hstep⟩ := hstep
    split at hstep
    · obtain ⟨u, hsame, hfin⟩ := restore_spec hstep
      obtain ⟨hfa, hfo, -⟩ := finalize_spec hfin
      have hopen : t'.openExclusionOf = update t.openExclusionOf k 0 := by rw [hfo, hsame.openOf]
      refine ⟨ht.restore hstep, by rw [hfa, hsame.adapters, hadapters], ?_, ?_⟩
      · intro i hi
        rw [hopen] at hi
        by_cases hik : i = k
        · subst hik; simp at hi
        rw [update_of_ne hik] at hi
        exact hsub i hi
      · intro i e hi he hea
        rw [hopen]
        by_cases hik : i = k
        · subst hik; simp
        rw [update_of_ne hik]
        exact hdone i e (by omega) he hea
    rename_i hskip
    cases hstep
    refine ⟨ht, hadapters, hsub, ?_⟩
    intro i e hi he hea
    by_cases hik : i = k
    · subst hik
      rw [hadapters, he] at hf
      cases hf
      by_contra hne
      exact hskip ⟨hea, hne⟩
    · exact hdone i e (by omega) he hea

theorem Sound.addAdapter (hs : s.Sound p) {capBps : Nat} (h : s.addAdapter d env a capBps = .ok s') : s'.Sound p := by
  simp only [Vault.addAdapter, bind_eq_ok, revertIf_eq_ok, ok.injEq] at h
  obtain ⟨-, -, -, -, -, hinactive, -, -, -, -, t, ht, rfl⟩ := h
  obtain ⟨htc, hadapters, -, hclosed⟩ := settle_loop hs ht
  refine htc.push ?_
  intro j f hf hl hfa
  rw [hadapters] at hf
  rcases hl with hact | hopen
  · refine hinactive ?_
    rw [any_eq_true]
    exact ⟨f, mem_of_getElem? hf, by simp [hact, hfa]⟩
  · exact hopen (hclosed j f hf hfa)

private theorem Sound.deactivate (hs : s.Sound p) (i : Nat) : (s.deactivate i).Sound p :=
  hs.modify i fun _ => ⟨rfl, fun h => absurd h (by simp)⟩

private theorem Sound.removeAdapter (hs : s.Sound p) (h : s.removeAdapter d env i = .ok s') : s'.Sound p := by
  simp only [Vault.removeAdapter, bind_eq_ok] at h
  obtain ⟨e, -, balance, -, -, -, h⟩ := h
  exact (hs.deactivate i).finalize h

theorem Sound.setAdapterCap (hs : s.Sound p) {i cap : Nat} (h : s.setAdapterCap i cap = .ok s') : s'.Sound p := by
  simp only [Vault.setAdapterCap, bind_eq_ok, ok.injEq] at h
  obtain ⟨-, -, -, -, rfl⟩ := h
  exact hs.modify i fun _ => ⟨rfl, id⟩

private theorem Sound.forceRemoveAdapter (hs : s.Sound false)
    (h : s.forceRemoveAdapter d env block supply i = .ok (s', opened)) : s'.Sound opened := by
  simp only [Vault.forceRemoveAdapter, bind_eq_ok, requireActive_eq_ok] at h
  obtain ⟨e, ⟨he, hact⟩, balance, -, h⟩ := h
  have hd := (hs.deactivate i).of_moved (contact_moved (s.deactivate i) e.adapter)
  unfold Vault.forceRemoved at h
  split at h
  · simp only [bind_eq_ok, ok.injEq, Prod.mk.injEq] at h
    obtain ⟨t, ht, rfl, rfl⟩ := h
    exact hd.finalize ht
  split at h
  · rename_i hopen
    simp only [bind_eq_ok, ok.injEq, Prod.mk.injEq] at h
    obtain ⟨t, ht, rfl, rfl⟩ := h
    refine hd.openExclusion (e := { e with active := false }) ?_ hopen.1 ?_ ht
    · simp [Vault.contact, Vault.deactivate, he]
    · -- the other live entries were live before, when entry `i` was active
      intro j f hji hf hl
      simp only [Vault.contact, Vault.deactivate, getElem?_modify, Ne.symm hji, if_false,
        Option.map_eq_map, Option.map_id'] at hf
      exact hs.free he (.inl hact) j f hji hf hl
  · cases h; exact hd

theorem recoverTranche_moved {id amount : Nat} (h : s.recoverTranche d env a id amount = .ok s') : s.Moved s' := by
  unfold recoverTranche at h
  split at h
  · cases h; exact .refl _
  simp only [bind_eq_ok] at h
  obtain ⟨⟨r, u⟩, hu, h⟩ := h
  exact (callWithdraw_moved hu).trans (credit_moved h)

private theorem Sound.recoverRemoved (hs : s.Sound p) {i amount : Nat}
    (h : s.recoverRemoved d env i amount = .ok s') : s'.Sound p := by
  unfold Vault.recoverRemoved at h
  split at h
  · cases h
  rename_i e he
  simp only [bind_eq_ok] at h
  obtain ⟨-, -, -, -, balance, -, t, ht, h⟩ := h
  have hst : t.Sound p := (hs.of_moved (contact_moved s e.adapter)).of_moved (recoverTranche_moved ht)
  have hst' := hst.of_moved (contact_moved t e.adapter)
  simp only [closeWhenEmpty, bind_eq_ok] at h
  obtain ⟨left, -, h⟩ := h
  split at h
  · exact hst'.finalize h
  · cases h; exact hst'

section

variable (hs : s.Sound false)

include hs

theorem Sound.syncExclusions (h : s.syncExclusions d env block restoring = .ok s') : s'.Sound false := by
  simp only [Vault.syncExclusions, bind_eq_ok, ok.injEq] at h
  obtain ⟨⟨t, opened⟩, ht, rfl⟩ := h
  exact (hs.syncLoop ht).mark

theorem Sound.emergencyWithdraw (h : s.emergencyWithdraw d env block = .ok s') : s'.Sound false := by
  simp only [Vault.emergencyWithdraw, Vault.emergencyWithdrawAll, bind_eq_ok, ok.injEq] at h
  obtain ⟨x, ⟨⟨t, opened⟩, ht, u, hu, rfl⟩, rfl⟩ := h
  have hst := Sound.syncLoop (by exact hs.of_same ⟨rfl, rfl, .refl _, id, id⟩) ht
  exact (hst.of_moved (foldlM_moved emergencyPullActive_moved hu)).mark

theorem Sound.emergencyWithdrawAdapter (h : s.emergencyWithdrawAdapter d env block i = .ok s') : s'.Sound false := by
  simp only [Vault.emergencyWithdrawAdapter, Vault.emergencyWithdrawOne, bind_eq_ok, ok.injEq] at h
  obtain ⟨x, ⟨-, -, ⟨t, opened⟩, ht, u, hu, rfl⟩, rfl⟩ := h
  have hst := Sound.syncLoop (by exact hs.of_same ⟨rfl, rfl, .refl _, id, id⟩) ht
  exact (hst.of_moved (emergencyPull_moved hu)).mark

theorem Sound.emergencyExcludeAdapter (h : s.emergencyExcludeAdapter d env block i = .ok s') : s'.Sound false := by
  simp only [Vault.emergencyExcludeAdapter, Vault.emergencyExclude, bind_eq_ok, ok.injEq] at h
  obtain ⟨⟨t, opened⟩, ⟨e, -, ht⟩, rfl⟩ := h
  have hst := Sound.syncLoop (by exact hs.of_same ⟨rfl, rfl, .refl _, id, id⟩) ht
  exact hst.mark

private theorem Sound.forceRemove (h : s.forceRemove d env block i = .ok s') : s'.Sound false := by
  simp only [Vault.forceRemove, bind_eq_ok, ok.injEq] at h
  obtain ⟨⟨t, opened⟩, ht, rfl⟩ := h
  have hst := Sound.forceRemoveAdapter (by exact hs.of_same ⟨rfl, rfl, .refl _, id, id⟩) ht
  exact hst.mark

private theorem Sound.adminRebalance {targets : List Nat}
    (h : s.adminRebalance d env block targets = .ok s') : s'.Sound false := by
  simp only [Vault.adminRebalance, Vault.adminRebalancePull, Vault.adminRebalanceAllocate, bind_eq_ok, ok.injEq] at h
  obtain ⟨x, ⟨-, -, ⟨t, opened⟩, ht, ⟨u, moved⟩, hu, rfl⟩, v, ⟨⟨w, left⟩, hw, rfl⟩, rfl⟩ := h
  have hsu := (hs.syncLoop ht).of_moved (foldlM_pair_moved pullToTarget_moved hu)
  have hsw := hsu.mark.of_moved (foldlM_pair_moved allocateToTarget_moved hw)
  exact hsw.of_same ⟨rfl, rfl, .refl _, id, id⟩

end

end Vault

variable {σ : Type}

private theorem initialize_sound {p : InitArgs} {usdc : Balances} {hidden : σ} {s : Vault σ}
    (h : Vault.initialize p usdc hidden = .ok s) : s.Sound false := by
  simp only [bind_eq_ok, Vault.initialize, revertIf_eq_ok, not_or, ok.injEq] at h
  obtain ⟨-, ⟨hrec, -⟩, -, hfee, -, -, rfl⟩ := h
  refine ⟨⟨fun i hi => absurd rfl hi, ?_, ?_⟩, ShareBook.wellFormed_init usdc, Nat.le_of_not_lt hfee, hrec,
    fun _ h => absurd rfl h⟩
  · intro id h0 hle
    exact absurd (Nat.le_zero.1 hle) h0
  · intro i j e f _ he
    simp at he

open Vault in
/-- Step lemma: every transaction keeps what holds between calls. -/
theorem sound_step {d : Deployment} {env : Outside σ} {s s' : Vault σ} {tx : Tx σ} (hs : s.Sound false)
    (h : vaultStep d env s tx = .ok s') : s'.Sound false := by
  have hc : { s with trace := [] }.Sound false := hs.of_same ⟨rfl, rfl, .refl _, id, id⟩
  unfold vaultStep at h
  generalize { s with trace := [] } = s₀ at h hc
  obtain ⟨sender, block, call⟩ := tx
  -- the setters that write no registry field
  have hset : ∀ {t : Vault σ}, s₀.SameRegistry t → t.Sound false := fun h => hc.of_same h
  cases call with
  | deposit assets receiver | mint shares receiver | withdraw assets receiver owner | redeem shares receiver owner
  | approve spender value | transferShares target value | transferSharesFrom source target value
  | setAdapterMaxExposure i cap | rebalance | outside calls hidden =>
    exact hc.of_moved (vaultCall_moved h trivial)
  | addAdapter a capBps =>
    simp only [vaultCall, bind_eq_ok] at h
    obtain ⟨-, -, h⟩ := h
    exact hc.addAdapter h
  | removeAdapter i =>
    simp only [vaultCall, bind_eq_ok] at h
    obtain ⟨-, -, h⟩ := h
    exact hc.removeAdapter h
  | setAdapterCap i newCapBps =>
    simp only [vaultCall, bind_eq_ok] at h
    obtain ⟨-, -, h⟩ := h
    exact hc.setAdapterCap h
  | setAdapterAllowed a value | setAdapterCodeHashAllowed codeHash value =>
    simp only [vaultCall, setAdapterAllowed, setAdapterCodeHashAllowed, bind_eq_ok] at h
    obtain ⟨-, -, -, -, h⟩ := h
    exact Sound.syncExclusions (by exact hc.of_same ⟨rfl, rfl, .refl _, id, id⟩) h
  | syncExclusions => exact hc.syncExclusions h
  | adminRebalance targets =>
    simp only [vaultCall, bind_eq_ok] at h
    obtain ⟨-, -, h⟩ := h
    exact hc.adminRebalance h
  | emergencyWithdraw =>
    simp only [vaultCall, bind_eq_ok] at h
    obtain ⟨-, -, h⟩ := h
    exact hc.emergencyWithdraw h
  | emergencyWithdrawAdapter i =>
    simp only [vaultCall, bind_eq_ok] at h
    obtain ⟨-, -, h⟩ := h
    exact hc.emergencyWithdrawAdapter h
  | emergencyExcludeAdapter i =>
    simp only [vaultCall, bind_eq_ok] at h
    obtain ⟨-, -, h⟩ := h
    exact hc.emergencyExcludeAdapter h
  | forceRemoveAdapter i =>
    simp only [vaultCall, bind_eq_ok] at h
    obtain ⟨-, -, h⟩ := h
    exact hc.forceRemove h
  | recoverRemovedAdapter i amount =>
    simp only [vaultCall, bind_eq_ok] at h
    obtain ⟨-, -, h⟩ := h
    exact hc.recoverRemoved h
  | renounceRole role =>
    simp only [vaultCall, ok.injEq] at h
    subst h
    exact hset ⟨rfl, rfl, .refl _, id, id⟩
  | setRetired value =>
    simp only [vaultCall, setRetired, bind_eq_ok, ok.injEq] at h
    obtain ⟨-, -, rfl⟩ := h
    exact hset ⟨rfl, rfl, .refl _, id, id⟩
  | pauseDeposits | unpauseDeposits | shutdownVault | setRole role account held =>
    simp only [vaultCall, bind_eq_ok, ok.injEq] at h
    obtain ⟨-, -, rfl⟩ := h
    exact hset ⟨rfl, rfl, .refl _, id, id⟩
  | restoreVault newTvlCap =>
    simp only [vaultCall, restoreVault, bind_eq_ok, ok.injEq] at h
    obtain ⟨-, -, -, -, -, -, -, -, rfl⟩ := h
    exact hset ⟨rfl, rfl, .refl _, id, id⟩
  | setRegistry newRegistry =>
    simp only [vaultCall, setRegistry, bind_eq_ok, ok.injEq] at h
    obtain ⟨-, -, -, -, -, -, rfl⟩ := h
    exact hset ⟨rfl, rfl, .refl _, id, id⟩
  | setMaxRebalanceBpsPerCall newBps | setMinRebalanceInterval newInterval | setTvlCap newCap
  | setPerDepositCap newCap =>
    simp only [vaultCall, setMaxRebalanceBpsPerCall, setMinRebalanceInterval, setTvlCap,
      setPerDepositCap, bind_eq_ok, ok.injEq] at h
    obtain ⟨-, -, -, -, rfl⟩ := h
    exact hset ⟨rfl, rfl, .refl _, id, id⟩
  | setExitFeeBps newBps =>
    simp only [vaultCall, setExitFeeBps, bind_eq_ok, revertIf_eq_ok, ok.injEq] at h
    obtain ⟨-, -, -, hfee, rfl⟩ := h
    exact hset ⟨rfl, rfl, .refl _, fun _ => Nat.le_of_not_lt hfee, id⟩
  | setFeeRecipient newRecipient =>
    simp only [vaultCall, setFeeRecipient, bind_eq_ok, revertIf_eq_ok, ok.injEq] at h
    obtain ⟨-, -, -, hrec, rfl⟩ := h
    exact hset ⟨rfl, rfl, .refl _, id, fun _ => hrec⟩

theorem Vault.Reached.sound {d : Deployment} {env : Outside σ} {s : Vault σ} (h : s.Reached d env) : s.Sound false := by
  obtain ⟨p, usdc, hidden, s₀, hinit, hreach⟩ := h
  exact hreach.invariant (P := fun s => s.Sound false) (initialize_sound hinit)
    fun _ _ _ hs hstep => sound_step hs hstep

/-- In every state the system reaches: an open record belongs to the registry entry that points to it, no two entries
point to one record, every unfinalized record is pointed to by exactly one entry, at most one open record exists per
adapter, active entries have different adapters, and an active entry shares its adapter with no other entry that has an
open record. -/
theorem exclusion_registry_agrees {σ : Type} (d : Deployment) (env : Outside σ) (s : Vault σ)
    (h : s.Reached d env) :
    (∀ i, s.openExclusionOf i ≠ 0 → ∃ e, s.adapters[i]? = some e ∧
      s.openExclusionOf i ≤ s.book.ledger.exclusionCount ∧
      (s.book.ledger.exclusions (s.openExclusionOf i)).finalized = false ∧
      (s.book.ledger.exclusions (s.openExclusionOf i)).adapterIndex = i ∧
      (s.book.ledger.exclusions (s.openExclusionOf i)).adapter = e.adapter) ∧
    (∀ i j, i ≠ j → s.openExclusionOf i ≠ 0 → s.openExclusionOf i ≠ s.openExclusionOf j) ∧
    (∀ id, id ≠ 0 → id ≤ s.book.ledger.exclusionCount → (s.book.ledger.exclusions id).finalized = false →
      ∃! i, s.openExclusionOf i = id) ∧
    (∀ (i j : Nat) (e f : AdapterInfo), i ≠ j → s.adapters[i]? = some e → s.adapters[j]? = some f →
      (s.openExclusionOf i ≠ 0 → s.openExclusionOf j ≠ 0 → e.adapter ≠ f.adapter) ∧
      (e.active = true → f.active = true → e.adapter ≠ f.adapter) ∧
      (e.active = true → s.openExclusionOf j ≠ 0 → e.adapter ≠ f.adapter)) := by
  have hc : s.Consistent := h.sound.toConsistent
  refine ⟨hc.open_record, ?_, ?_, ?_⟩
  · intro i j hij hi heq
    exact hij (hc.open_injective hi heq)
  · intro id h0 hle hfin
    obtain ⟨i, hi⟩ := hc.record_open id h0 hle hfin
    refine ⟨i, hi, ?_⟩
    intro j hj
    exact hc.open_injective (by rw [hj]; exact h0) (hj.trans hi.symm)
  · intro i j e f hij he hf
    exact ⟨fun hi hj => hc.live_distinct i j e f hij he hf (.inr hi) (.inr hj),
      fun hi hj => hc.live_distinct i j e f hij he hf (.inl hi) (.inl hj),
      fun hi hj => hc.live_distinct i j e f hij he hf (.inl hi) (.inr hj)⟩

/-- Two adapters are added and funded by a deposit, one is force-removed with its balance, recovered in part and added
again. -/
def readdedAdapter : List (Tx (Address → Nat)) :=
  [⟨21, .sample, .setAdapterCodeHashAllowed 7 true⟩, ⟨21, .sample, .setAdapterAllowed 30 true⟩,
    ⟨21, .sample, .setAdapterAllowed 31 true⟩, ⟨21, .sample, .addAdapter 30 5000⟩,
    ⟨21, .sample, .addAdapter 31 10000⟩, ⟨5, .sample, .deposit 1000 5⟩, ⟨22, .sample, .forceRemoveAdapter 0⟩,
    ⟨22, .sample, .recoverRemovedAdapter 0 100⟩, ⟨22, .sample, .forceRemoveAdapter 1⟩,
    ⟨21, .sample, .addAdapter 30 5000⟩]

theorem exclusion_registry_agrees_readded :
    ∃ s : Vault (Address → Nat), s.Reached .sample .sample ∧ s.adapters.map (·.adapter) = [30, 31, 30] ∧
      (∃! i, s.openExclusionOf i = 2) ∧ s.openExclusionOf 0 = 0 := by
  obtain ⟨s₀, hinit, hreached⟩ := Vault.sample_reached .sample (fun _ => 0) readdedAdapter
  cases hinit
  refine ⟨_, hreached, rfl, ?_, rfl⟩
  exact (exclusion_registry_agrees _ _ _ hreached).2.2.1 2 (by decide) (by decide) rfl

end RobotMoney
