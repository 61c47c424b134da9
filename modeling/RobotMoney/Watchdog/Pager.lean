import RobotMoney.Evm.Token

/-!
# Pages and their records (`alert.rs`, `receipt_liveness.rs`, `pager_state.rs`)

Each page has a key, a text whose fields are separated by colons, and the table `watchdog_pager_state` holds under the
key what the receiver is believed to know.  The records of a volume breach are removed by the start of their key; since
a number in decimal has no colon, the start names one block (`start_of_isPrefix`).
-/

namespace RobotMoney.Watchdog

open Evm List

abbrev Text := List Char

theorem append_delimiter_inj {c : Char} {xs ys r s : Text} (hx : c ∉ xs) (hy : c ∉ ys)
    (h : xs ++ c :: r = ys ++ c :: s) :
    xs = ys ∧ r = s := by
  induction xs generalizing ys with
  | nil =>
    cases ys with
    | nil => simpa using h
    | cons y ys =>
      obtain ⟨rfl, -⟩ : c = y ∧ _ := by simpa using h
      simp at hy
  | cons x xs ih =>
    cases ys with
    | nil =>
      obtain ⟨rfl, -⟩ : x = c ∧ _ := by simpa using h
      simp at hx
    | cons y ys =>
      obtain ⟨rfl, htail⟩ : x = y ∧ xs ++ c :: r = ys ++ c :: s := by simpa using h
      obtain ⟨rfl, rfl⟩ := ih (fun hmem => hx (mem_cons_of_mem _ hmem)) (fun hmem => hy (mem_cons_of_mem _ hmem)) htail
      exact ⟨rfl, rfl⟩

def decimal (n : Nat) : Text := Nat.toDigits 10 n

def decimalInt (n : Int) : Text := if n < 0 then '-' :: decimal n.natAbs else decimal n.natAbs

theorem colon_notMem_decimal (n : Nat) : ':' ∉ decimal n := by
  intro hmem
  have hdigit := Nat.isDigit_of_mem_toDigits (by decide) (by decide) hmem
  revert hdigit
  decide

theorem decimal_injective : Function.Injective decimal := by
  intro m n h
  have hval := congrArg (fun cs => Nat.ofDigitChars 10 cs 0) h
  simpa only [decimal, Nat.ofDigitChars_toDigits (b := 10) (by decide) (by decide)] using hval

inductive ThresholdKind where
  | perBlockMint
  | perHourMint
  | perBlockBurn
  | perHourBurn
  deriving DecidableEq, Repr

def ThresholdKind.label : ThresholdKind → Text
  | .perBlockMint => "per_block_mint".toList
  | .perHourMint => "per_hour_mint".toList
  | .perBlockBurn => "per_block_burn".toList
  | .perHourBurn => "per_hour_burn".toList

structure BreachEvent where
  kind : ThresholdKind
  thresholdUsdc : Nat
  volumeUsdc : Nat
  chainId : Int
  blockNumber : Nat
  vault : Option Text
  deriving DecidableEq, Repr

def volumeBreachStart (chainId : Int) : Text := "volume_breach:".toList ++ decimalInt chainId ++ [':']

/-- `volume_breach_block_prefix`. -/
def volumeBreachBlockStart (chainId : Int) (blockNumber : Nat) : Text :=
  volumeBreachStart chainId ++ decimal blockNumber ++ [':']

def volumeBreachDedupKey (event : BreachEvent) : Text :=
  volumeBreachBlockStart event.chainId event.blockNumber ++ event.kind.label ++ ':' :: event.vault.getD "global".toList

def volumeBreachPauseKey (chainId : Int) (blockNumber : Nat) : Text :=
  volumeBreachBlockStart chainId blockNumber ++ "pause".toList

/-- The other pages of the watchdog, each with a key of its own. -/
inductive OtherPage where
  | missingReceipt
  | noBaseline
  | weightSetterPath
  | indexerBehind
  | proxyChange (contract : Text) (blockNumber logIndex : Nat)
  deriving DecidableEq, Repr

/-- `missing_receipt_dedup_key`, `no_baseline_dedup_key`, `weight_setter_path_dedup_key`, `indexer_behind_dedup_key` and
`ProxyChange::dedup_key`. -/
def OtherPage.dedupKey (chainId : Int) : OtherPage → Text
  | .missingReceipt => "consensus_receipt_missing:".toList ++ decimalInt chainId
  | .noBaseline => "consensus_receipt_monitor_no_baseline:".toList ++ decimalInt chainId
  | .weightSetterPath => "weight_setter_path_drift:".toList ++ decimalInt chainId
  | .indexerBehind => "indexer_behind:".toList ++ decimalInt chainId
  | .proxyChange contract blockNumber logIndex =>
    "proxy_change:".toList ++ decimalInt chainId ++ ':' ::
    (contract ++ ':' :: (decimal blockNumber ++ ':' :: decimal logIndex))

section Keys

variable {chainId : Int} {b b' : Nat} {rest : Text}

theorem volumeBreachStart_isPrefix (chainId : Int) (b : Nat) :
    volumeBreachStart chainId <+: volumeBreachBlockStart chainId b :=
  ⟨decimal b ++ [':'], by simp [volumeBreachBlockStart]⟩

theorem start_of_isPrefix (h : volumeBreachBlockStart chainId b <+: volumeBreachBlockStart chainId b' ++ rest) :
    b = b' := by
  obtain ⟨tail, htail⟩ := h
  rw [volumeBreachBlockStart, volumeBreachBlockStart] at htail
  generalize volumeBreachStart chainId = start at htail
  simp only [append_assoc, cons_append, nil_append, append_cancel_left_eq] at htail
  obtain ⟨hdigits, -⟩ := append_delimiter_inj (colon_notMem_decimal b) (colon_notMem_decimal b') htail
  exact decimal_injective hdigits

private theorem colon_notMem_label (kind : ThresholdKind) : ':' ∉ kind.label := by
  cases kind <;> decide

private theorem label_injective : Function.Injective ThresholdKind.label := by
  intro k k' h
  cases k <;> cases k' <;> first | rfl | exact absurd h (by decide)

theorem volumeBreachDedupKey_inj {e e' : BreachEvent} (hchain : e.chainId = e'.chainId)
    (h : volumeBreachDedupKey e = volumeBreachDedupKey e') : e.blockNumber = e'.blockNumber ∧ e.kind = e'.kind ∧
      e.vault.getD "global".toList = e'.vault.getD "global".toList := by
  have hblock : e.blockNumber = e'.blockNumber := by
    have hstart : volumeBreachBlockStart e.chainId e.blockNumber <+:
        volumeBreachBlockStart e.chainId e'.blockNumber ++ (e'.kind.label ++ ':' :: e'.vault.getD "global".toList) := by
      refine ⟨e.kind.label ++ ':' :: e.vault.getD "global".toList, ?_⟩
      simpa only [volumeBreachDedupKey, hchain, append_assoc] using h
    exact start_of_isPrefix hstart
  rw [volumeBreachDedupKey, volumeBreachDedupKey, hchain, hblock, append_assoc, append_assoc,
    append_cancel_left_eq] at h
  obtain ⟨hkind, hvault⟩ := append_delimiter_inj (colon_notMem_label _) (colon_notMem_label _) h
  exact ⟨hblock, label_injective hkind, hvault⟩

theorem volumeBreachDedupKey_ne_pauseKey (e : BreachEvent) (b : Nat) :
    volumeBreachDedupKey e ≠ volumeBreachPauseKey e.chainId b := by
  intro h
  have hblock : b = e.blockNumber := by
    have hstart : volumeBreachBlockStart e.chainId b <+:
        volumeBreachBlockStart e.chainId e.blockNumber ++ (e.kind.label ++ ':' :: e.vault.getD "global".toList) := by
      refine ⟨"pause".toList, ?_⟩
      simpa only [volumeBreachDedupKey, volumeBreachPauseKey, append_assoc] using h.symm
    exact start_of_isPrefix hstart
  rw [volumeBreachDedupKey, volumeBreachPauseKey, hblock, append_assoc, append_cancel_left_eq] at h
  have hcolon : ':' ∈ "pause".toList := h ▸ mem_append_right _ mem_cons_self
  revert hcolon
  decide

theorem not_isPrefix_otherPage (chainId' : Int) (p : OtherPage) :
    ¬ volumeBreachStart chainId <+: p.dedupKey chainId' := by
  intro h
  have hv : (volumeBreachStart chainId).head? = some 'v' := rfl
  have hp : (p.dedupKey chainId').head? ≠ some 'v' := by
    cases p <;> exact fun hhead => absurd (Option.some.inj hhead) (by decide)
  obtain ⟨tail, htail⟩ := h
  rw [← htail, head?_append, hv] at hp
  exact hp rfl

end Keys

/-- The durable part of a pager. -/
structure PagerState where
  firing : Bool
  lastPagedAt : Option Int
  deriving DecidableEq, Repr

def PagerState.default : PagerState := ⟨false, none⟩

inductive PageAction where
  | none
  | trigger
  | resolve
  deriving DecidableEq, Repr

structure AlertPager where
  state : PagerState
  minRepageSecs : Nat
  retryNotBefore : Option Int
  deriving DecidableEq, Repr

def retryFloorCeilingSecs : Nat := 60

/-- An `i64` that does not leave its range. -/
def saturate (n : Int) : Int := max (-2 ^ 63) (min n (2 ^ 63 - 1))

namespace AlertPager

def fromState (minRepageSecs : Nat) (state : PagerState) : AlertPager := ⟨state, minRepageSecs, .none⟩

def retryFloorSecs (p : AlertPager) : Nat := min p.minRepageSecs retryFloorCeilingSecs

def blockedByRetryFloor (p : AlertPager) (now : Int) : Bool := p.retryNotBefore.any fun t => decide (now < t)

/-- The cast of `min_repage_secs` to `i64` leaves it as it is: no caller passes more than `i64::MAX`. -/
def onFiring (p : AlertPager) (now : Int) : PageAction :=
  if p.blockedByRetryFloor now then .none
  else
    match p.state.lastPagedAt with
    | .none => .trigger
    | some prev => if p.minRepageSecs ≤ saturate (now - prev) then .trigger else .none

def onClear (p : AlertPager) (now : Int) : PageAction :=
  if p.blockedByRetryFloor now then .none
  else if p.state.firing then .resolve else .none

def onPageResult (p : AlertPager) (now : Int) (action : PageAction) (ok : Bool) : AlertPager × Bool :=
  match action with
  | .none => (p, false)
  | .trigger =>
    if ok then
      let p' := { p with state := ⟨true, some now⟩, retryNotBefore := .none }
      (p', decide (p'.state ≠ p.state))
    else ({ p with retryNotBefore := some (saturate (now + p.retryFloorSecs)) }, false)
  | .resolve =>
    if ok then
      let p' := { p with state := ⟨false, .none⟩, retryNotBefore := .none }
      (p', decide (p'.state ≠ p.state))
    else ({ p with retryNotBefore := some (saturate (now + p.retryFloorSecs)) }, false)

end AlertPager

/-- A row of `watchdog_pager_state`. -/
structure PagerRow where
  chainId : Int
  dedupKey : Text
  state : PagerState
  deriving DecidableEq, Repr

def PagerRow.Is (r : PagerRow) (chainId : Int) (dedupKey : Text) : Prop := r.chainId = chainId ∧ r.dedupKey = dedupKey

instance (r : PagerRow) (chainId : Int) (dedupKey : Text) : Decidable (r.Is chainId dedupKey) :=
  inferInstanceAs (Decidable (_ ∧ _))

section Table

variable (rows : List PagerRow) (chainId : Int) (dedupKey : Text)

def loadPagerState : Option PagerState := (rows.find? fun r => decide (r.Is chainId dedupKey)).map PagerRow.state

/-- `save_pager_state`: an upsert. -/
def savePagerState (state : PagerState) : List PagerRow :=
  ⟨chainId, dedupKey, state⟩ :: rows.filter fun r => decide (¬ r.Is chainId dedupKey)

/-- `clear_pager_states_with_prefix`. -/
def clearPagerStatesWithStart (start : Text) : List PagerRow :=
  rows.filter fun r => decide (¬ (r.chainId = chainId ∧ start <+: r.dedupKey))

variable {rows chainId dedupKey} {r : PagerRow} {state : PagerState}

theorem mem_of_loadPagerState (h : loadPagerState rows chainId dedupKey = some state) :
    ⟨chainId, dedupKey, state⟩ ∈ rows := by
  obtain ⟨r, hfind, rfl⟩ := Option.map_eq_some_iff.mp h
  obtain ⟨rfl, rfl⟩ : r.Is chainId dedupKey := by simpa using find?_some hfind
  exact mem_of_find?_eq_some hfind

theorem exists_loadPagerState (hr : r ∈ rows) : ∃ s, loadPagerState rows r.chainId r.dedupKey = some s := by
  cases hload : loadPagerState rows r.chainId r.dedupKey with
  | some s => exact ⟨s, rfl⟩
  | none =>
    have hnot := find?_eq_none.mp (Option.map_eq_none_iff.mp hload) r hr
    simp [PagerRow.Is] at hnot

theorem mem_savePagerState : r ∈ savePagerState rows chainId dedupKey state ↔
    r = ⟨chainId, dedupKey, state⟩ ∨ r ∈ rows ∧ ¬ r.Is chainId dedupKey := by
  simp [savePagerState]

theorem mem_clearPagerStatesWithStart {start : Text} : r ∈ clearPagerStatesWithStart rows chainId start ↔
    r ∈ rows ∧ ¬ (r.chainId = chainId ∧ start <+: r.dedupKey) := by
  simp only [clearPagerStatesWithStart, mem_filter, decide_eq_true_eq]

theorem loadPagerState_save (chainId' : Int) (dedupKey' : Text) :
    loadPagerState (savePagerState rows chainId dedupKey state) chainId' dedupKey' =
      if chainId = chainId' ∧ dedupKey = dedupKey' then some state else loadPagerState rows chainId' dedupKey' := by
  unfold loadPagerState savePagerState
  by_cases his : chainId = chainId' ∧ dedupKey = dedupKey'
  · have hsaved : PagerRow.Is ⟨chainId, dedupKey, state⟩ chainId' dedupKey' := his
    rw [if_pos his, find?_cons_of_pos (by simpa using hsaved)]
    rfl
  have hsaved : ¬ PagerRow.Is ⟨chainId, dedupKey, state⟩ chainId' dedupKey' := his
  rw [if_neg his, find?_cons_of_neg (by simpa using hsaved), find?_filter]
  congr 1
  refine find?_congr fun r _ => ?_
  by_cases hr : r.Is chainId' dedupKey'
  · have hother : ¬ r.Is chainId dedupKey := fun hsame => his ⟨hsame.1.symm.trans hr.1, hsame.2.symm.trans hr.2⟩
    simp [hr, hother]
  · simp [hr]

theorem loadPagerState_clear {start : Text} {chainId' : Int} {dedupKey' : Text}
    (hother : ¬ (chainId = chainId' ∧ start <+: dedupKey')) :
    loadPagerState (clearPagerStatesWithStart rows chainId start) chainId' dedupKey' =
      loadPagerState rows chainId' dedupKey' := by
  unfold loadPagerState clearPagerStatesWithStart
  rw [find?_filter]
  congr 1
  refine find?_congr fun r _ => ?_
  by_cases hr : r.Is chainId' dedupKey'
  · have hkept : ¬ (r.chainId = chainId ∧ start <+: r.dedupKey) := by
      rw [hr.1, hr.2]
      exact fun h => hother ⟨h.1.symm, h.2⟩
    simp [hr, hkept]
  · simp [hr]

end Table

end RobotMoney.Watchdog
