import RobotMoney.Vault.Exits

/-!
# What a malformed answer stops

`isEligible` is meant to give a verdict on any address, whatever answers there.  A failed call, an answer of another
length and an address that is not the expected one all count as a no.

* The verdict is missing in one case: a 32-byte answer with a bit above the 160 of an address (`isEligible_returns`),
  and then the call reverts (`isEligible_error`).
* Deposits are open only if every active entry is usable and its venue is not shut (`anyActiveBlocked_eq_false_iff`).
* So one such answer of an active entry stops `totalAssets`, `withdraw`, `redeem` and all deposits
  (`probes_return_iff_decode`).
-/

namespace RobotMoney

open Evm Vault

namespace Vault

variable {σ : Type} {d : Deployment} {env : Outside σ} {s : Vault σ}

private theorem answers_error {r : StaticReply} {expected : Address} {e : Revert} (h : answers r expected = .error e) :
    e = .abiDecode := by
  unfold answers at h
  split at h
  · cases h
  simp only [bind_eq_error] at h
  rcases h with h | ⟨a, -, h⟩
  · unfold decodeAddress at h
    split at h
    · cases h
    cases h
    rfl
  · cases h

private theorem isEligible_error {a : Address} {e : Revert} (h : s.isEligible d env a = .error e) : e = .abiDecode := by
  unfold isEligible at h
  split at h
  · cases h
  split at h
  · cases h
  simp only [bind_eq_error] at h
  rcases h with h | ⟨usdcOk, -, h⟩
  · exact answers_error h
  split at h
  · exact answers_error h
  · cases h

private theorem isEligible_reverts_iff {a : Address} :
    s.isEligible d env a = .error .abiDecode ↔ ¬ s.ProbesDecodeAt d env a := by
  rw [← isEligible_returns]
  cases h : s.isEligible d env a with
  | ok b => simp
  | error e => simp [isEligible_error h]

/-- The venue of `a` says that nothing can be withdrawn from it. -/
def VenueShut (env : Outside σ) (s : Vault σ) (a : Address) : Prop :=
  (env.venueWithdrawable s.hidden a).ok = true ∧ (env.venueWithdrawable s.hidden a).length = 32 ∧
    (env.venueWithdrawable s.hidden a).word = 0

/-- Entry `i` does not keep deposits closed: if it is active, it is usable and its venue is not shut. -/
def OpenAt (d : Deployment) (env : Outside σ) (venues : Bool) (s : Vault σ) (i : Nat) : Prop :=
  ∀ e, s.adapters[i]? = some e → e.active = true →
    s.isUsable d env i = .ok true ∧ (venues = true → ¬ VenueShut env s e.adapter)

private theorem blocks_eq_false_iff {venues : Bool} {i : Nat} (hi : i < s.adapters.length) :
    s.blocks d env venues false i = .ok false ↔ OpenAt d env venues s i := by
  have he : s.adapters[i]? = some s.adapters[i] := List.getElem?_eq_getElem hi
  have hentry : s.entry i = .ok s.adapters[i] := entry_eq_ok.2 he
  unfold blocks OpenAt
  simp only [he, Option.some.injEq, forall_eq', hentry, ok_bind, Bool.false_eq_true, if_false]
  by_cases hact : s.adapters[i].active = true
  · simp only [hact, Bool.true_eq_false, if_false, forall_const, bind_eq_ok]
    constructor
    · rintro ⟨usable, husable, h⟩
      cases usable with
      | false => simp at h
      | true =>
        refine ⟨husable, ?_⟩
        rintro rfl ⟨hok, hlength, hword⟩
        simp [hok, hlength, hword] at h
    · rintro ⟨husable, hopen⟩
      refine ⟨true, husable, ?_⟩
      cases venues with
      | false => simp
      | true =>
        have hshut := hopen rfl
        simp only [VenueShut, not_and] at hshut
        simp only [Bool.true_eq_false, if_false, Bool.true_and, Except.ok.injEq, Bool.and_eq_false_iff,
          beq_eq_false_iff_ne]
        by_cases hok : (env.venueWithdrawable s.hidden s.adapters[i].adapter).ok = true
        · by_cases hlength : (env.venueWithdrawable s.hidden s.adapters[i].adapter).length = 32
          · exact .inr (hshut hok hlength)
          · exact .inl (.inr hlength)
        · exact .inl (.inl (by simpa using hok))
  · simp [hact]

private theorem anyActiveBlocked_eq_false_iff {venues : Bool} :
    s.anyActiveBlocked d env venues = .ok false ↔ ∀ i, OpenAt d env venues s i := by
  constructor
  · intro h
    have hinv := foldlM_range_invariant (f := s.blocks d env venues) (n := s.adapters.length)
      (P := fun k blocked => blocked = false → ∀ i < k, OpenAt d env venues s i) ?_ (fun _ i hi =>
        absurd hi (by omega)) h
    · intro i e he
      exact hinv rfl i (List.getElem?_eq_some_iff.1 he).1 e he
    · rintro k blocked blocked' hk hbefore hround rfl i hi
      cases blocked with
      | true => cases hround
      | false =>
        rcases Nat.lt_succ_iff_lt_or_eq.1 hi with hlt | rfl
        · exact hbefore rfl i hlt
        · exact (blocks_eq_false_iff hk).1 hround
  · intro h
    obtain ⟨b, hb, rfl⟩ := foldlM_range_returns (f := s.blocks d env venues) (n := s.adapters.length)
      (P := fun _ blocked => blocked = false) (s := false)
      (by
        rintro k blocked hk rfl
        exact ⟨false, (blocks_eq_false_iff hk).2 (h k), rfl⟩) rfl
    exact hb

theorem depositsClosed_eq_false_iff :
    s.depositsClosed d env = .ok false ↔ s.depositsPaused = false ∧ s.shutdown = false ∧ s.retired = false ∧
      s.activeCount ≠ 0 ∧ ∀ i, OpenAt d env true s i := by
  unfold depositsClosed
  split
  · rename_i hflags
    simp only [Except.ok.injEq, Bool.true_eq_false, false_iff]
    rintro ⟨hpaused, hshut, hretired, hcount, -⟩
    simp [hpaused, hshut, hretired, hcount] at hflags
  rename_i hflags
  simp only [Bool.or_eq_true, beq_iff_eq, not_or, Bool.not_eq_true] at hflags
  rw [anyActiveBlocked_eq_false_iff]
  exact ⟨fun h => ⟨hflags.1.1.1, hflags.1.1.2, hflags.1.2, hflags.2, h⟩, fun h => h.2.2.2.2⟩

theorem probesDecode_of_open (h : s.depositsClosed d env = .ok false) : s.ProbesDecode d env := by
  intro i e he hact hnone
  obtain ⟨-, -, -, -, hopen⟩ := depositsClosed_eq_false_iff.1 h
  have husable := (hopen i e he hact).1
  rw [isUsable, if_neg (not_not.2 hnone), entry_eq_ok.2 he, ok_bind] at husable
  exact isEligible_returns.1 ⟨true, husable⟩

theorem open_of_maxDeposit_pos {m : Nat} (h : s.maxDeposit d env = .ok m) (hpos : m ≠ 0) :
    s.depositsClosed d env = .ok false := by
  simp only [maxDeposit, bind_eq_ok] at h
  obtain ⟨closed, hclosed, h⟩ := h
  cases closed with
  | true =>
    cases h
    exact absurd rfl hpos
  | false => exact hclosed

end Vault

/-- For every address and every answer it may give: `isEligible` gives a verdict exactly when the answers it looks at
decode, and reverts otherwise.  Where the counted adapters report and the sum fits, `totalAssets` returns exactly when
the probes of the active entries without a record decode; when they do not, `maxDeposit` is 0 or reverts as well, and
every `withdraw` and `redeem` reverts. -/
theorem probes_return_iff_decode {σ : Type} (d : Deployment) (env : Outside σ) (s : Vault σ) :
    (∀ a, ((∃ b, s.isEligible d env a = .ok b) ↔ s.ProbesDecodeAt d env a) ∧
      (s.isEligible d env a = .error .abiDecode ↔ ¬ s.ProbesDecodeAt d env a)) ∧
    ((∀ a, s.CountedAdapter d env a → ∃ t, env.totalAssets s.hidden a = .returned t) → s.netAssets d env < wordSize →
      ((∃ nav, s.totalAssets d env = .ok nav) ↔ s.ProbesDecode d env)) ∧
    (¬ s.ProbesDecode d env → (∀ m, s.maxDeposit d env = .ok m → m = 0) ∧
      ∀ caller amount receiver owner, (∀ r, s.withdraw d env caller amount receiver owner ≠ .ok r) ∧
        ∀ r, s.redeem d env caller amount receiver owner ≠ .ok r) := by
  refine ⟨fun a => ⟨isEligible_returns, isEligible_reverts_iff⟩, ?_, ?_⟩
  · intro hreports hfit
    constructor
    · rintro ⟨nav, hnav⟩
      exact (totalAssets_eq_ok hnav).1.probesDecode
    · intro hprobes
      exact ⟨_, totalAssets_returns (priced_of_probes hprobes hreports) hfit⟩
  · intro hnot
    refine ⟨?_, fun caller amount receiver owner => ⟨?_, ?_⟩⟩
    · intro m hm
      by_contra hpos
      exact hnot (probesDecode_of_open (open_of_maxDeposit_pos hm hpos))
    · intro r hr
      simp only [withdraw, maxWithdraw, bind_eq_ok] at hr
      obtain ⟨maxAssets, ⟨gross, hgross, -⟩, -⟩ := hr
      exact hnot (probesDecode_of_convertToAssets hgross)
    · intro r hr
      simp only [redeem, previewRedeem, bind_eq_ok] at hr
      obtain ⟨-, -, assets, ⟨gross, hgross, -⟩, -⟩ := hr
      exact hnot (probesDecode_of_convertToAssets hgross)

/-- While both adapters answer with addresses, `totalAssets` returns. -/
theorem probes_return_depositedInTwo :
    ∃ s : Vault ((Address → Nat) × Bool), s.Reached .sample .dirtyWord ∧ s.adapters.map (·.adapter) = [30, 31] ∧
      (∃ b, s.isEligible .sample .dirtyWord 30 = .ok b) ∧ ∃ nav, s.totalAssets .sample .dirtyWord = .ok nav := by
  obtain ⟨s₀, hinit, hreached⟩ := sample_reached .dirtyWord (fun _ => 0, false) depositedInTwo
  cases hinit
  obtain ⟨hverdict, htotal, -⟩ := probes_return_iff_decode .sample .dirtyWord
    (run (vaultStep .sample .dirtyWord) _ depositedInTwo)
  refine ⟨_, hreached, rfl, (hverdict 30).1.2 ?_, (htotal (fun a _ => ⟨_, rfl⟩) (by decide)).2 ?_⟩
  · exact fun _ _ => ⟨fun _ _ => by decide, fun _ _ _ => by decide⟩
  · exact probesDecode_of_clean rfl

/-- Adapter 30 answers `USDC()` with the right address under a set upper bit: there is no verdict on it, and the value
of the vault cannot be read. -/
theorem probe_reverts_dirtyAnswer :
    ∃ s : Vault ((Address → Nat) × Bool), s.Reached .sample .dirtyWord ∧
      Outside.dirtyWord.usdcView s.hidden 30 = ⟨true, 32, 2 ^ 160 + 3⟩ ∧
      s.isEligible .sample .dirtyWord 30 = .error .abiDecode ∧
          s.totalAssets .sample .dirtyWord = .error .abiDecode := by
  obtain ⟨s₀, hinit, hreached⟩ := sample_reached .dirtyWord (fun _ => 0, false) dirtyAnswer
  cases hinit
  exact ⟨_, hreached, rfl, rfl, rfl⟩

end RobotMoney
