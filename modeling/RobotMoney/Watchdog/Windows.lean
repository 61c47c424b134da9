import RobotMoney.Watchdog.Delivery

/-!
# What a check sums (`volume.rs`, `watchdog.rs`)

Each check sums the deposits or withdrawals of one block, or of the blocks of a window, in its scope; the sum is exact
in the database and is cut to 128 bits before it is compared, where a larger one becomes zero.

* Rows are netted within a transaction of a block, so the sum is one over the groups of the blocks that count
  (`exactVolume_eq_sum`): it grows with the rows, and it is the sum of the volumes of the single blocks.
* A row more keeps a breach as long as the exact sum stays below `2 ^ 128` (`breached_of_added_iff`).
* The window of a block is the hour before it, whatever comes after it, and what it sums is the volume of that hour as
  long as this is below `2 ^ 128` (`hour_exact_iff`).
-/

namespace RobotMoney.Watchdog

open Evm Indexer SqlTable List Finset Check Prod SourceRow

variable {H : Type}

def ThresholdKind.isMint : ThresholdKind → Bool
  | .perBlockMint | .perHourMint => true
  | .perBlockBurn | .perHourBurn => false

def ThresholdKind.isHour : ThresholdKind → Bool
  | .perHourMint | .perHourBurn => true
  | .perBlockMint | .perBlockBurn => false

def Check.inScope (check : Check) (r : SourceRow) : Bool :=
  match check.vault with
  | none => true
  | some (_, bytes) => decide (addressBytes r.vault = bytes)

def Check.filter (check : Check) (counts : Nat → Bool) (r : SourceRow) : Bool := counts r.blockNumber && check.inScope r

def Check.exactVolume (check : Check) (counts : Nat → Bool) (t : Tables) : Nat :=
  if check.kind.isMint then sumOf snd (mintSources (check.filter counts) t)
  else sumOf amount ((vaultTransferEvents .withdrawal t).filter (check.filter counts))

def Check.blockVolume (check : Check) (t : Tables) (n : Nat) : Nat := check.exactVolume (fun m => decide (m = n)) t

def Check.counts (check : Check) (db : Db H) (blockNumber : Nat) (now : Int) (n : Nat) : Bool :=
  if check.kind.isHour then
    decide (blockBeforeWindow db blockNumber (now - hourWindowSecs) < n ∧ n ≤ blockNumber) &&
      hasHeaderSince db (now - hourWindowSecs) n
  else decide (n = blockNumber)

def Check.exactSum (check : Check) (db : Db H) (blockNumber : Nat) (now : Int) : Nat :=
  check.exactVolume (check.counts db blockNumber now) db.log.tables

def volumeRows (t : Tables) : List SourceRow :=
  agentDeposits t ++ routerDepositLegs t ++ vaultTransferEvents .deposit t ++ vaultTransferEvents .withdrawal t

def Check.groupVolume (check : Check) (t : Tables) (k : Nat × Word × Address) : Nat :=
  let sum (rows : List SourceRow) := groupSum group amount (rows.filter check.inScope) k
  if check.kind.isMint then max (sum (vaultTransferEvents .deposit t))
    (sum (routerDepositLegs t) + sum (agentDeposits t))
  else sum (vaultTransferEvents .withdrawal t)

section Groups

variable {check : Check} {t u : Tables} {K : Finset (Nat × Word × Address)} {counts : Nat → Bool}

private theorem filter_eq (check : Check) (counts : Nat → Bool) :
    check.filter counts = fun r => (fun k : Nat × Word × Address => counts k.1) r.group && check.inScope r := rfl

private theorem groupSum_filter (rows : List SourceRow) (k : Nat × Word × Address) :
    groupSum group amount (rows.filter (check.filter counts)) k =
      if counts k.1 then groupSum group amount (rows.filter check.inScope) k else 0 := by
  rw [filter_eq]
  exact groupSum_filter_key (fun k => counts k.1) check.inScope k

private theorem mem_volumeRows {r : SourceRow} : r ∈ volumeRows t ↔ r ∈ agentDeposits t ∨ r ∈ routerDepositLegs t ∨
    r ∈ vaultTransferEvents .deposit t ∨ r ∈ vaultTransferEvents .withdrawal t := by
  simp only [volumeRows, mem_append, or_assoc]

private theorem exactVolume_eq_sum (hK : ∀ r ∈ volumeRows t, r.group ∈ K) :
    check.exactVolume counts t = ∑ k ∈ K, if counts k.1 then check.groupVolume t k else 0 := by
  have hcovered : ∀ rows : List SourceRow, (∀ r ∈ rows, r ∈ volumeRows t) →
      ∀ r ∈ rows.filter (check.filter counts), r.group ∈ K :=
    fun rows h r hr => hK r (h r (mem_of_mem_filter hr))
  have hagents := hcovered (agentDeposits t) fun r hr => mem_volumeRows.2 (.inl hr)
  have hlegs := hcovered (routerDepositLegs t) fun r hr => mem_volumeRows.2 (.inr (.inl hr))
  have hdeposits := hcovered (vaultTransferEvents .deposit t) fun r hr => mem_volumeRows.2 (.inr (.inr (.inl hr)))
  have hwithdrawals := hcovered (vaultTransferEvents .withdrawal t) fun r hr => mem_volumeRows.2 (.inr (.inr (.inr hr)))
  unfold exactVolume groupVolume
  split
  · rw [sumOf_mintSources hagents hlegs hdeposits]
    refine sum_congr rfl fun k _ => ?_
    rw [groupSum_filter, groupSum_filter, groupSum_filter]
    split <;> simp
  rw [sumOf_eq_sum_groupSum hwithdrawals]
  exact sum_congr rfl fun k _ => groupSum_filter _ k

end Groups

section Queries

variable {f : SourceRow → Bool} {t : Tables}

theorem sumOf_directDepositsNet_filter (q : Nat → Bool) : sumOf snd ((directDepositsNet f t).filter fun r => q r.1) =
      sumOf snd (directDepositsNet (fun r => q r.blockNumber && f r) t) := by
  have hkey : ∀ (rows : List SourceRow) (k : Nat × Word × Address),
      groupSum group amount (rows.filter fun r => q r.blockNumber && f r) k =
        if q k.1 then groupSum group amount (rows.filter f) k else 0 :=
    fun rows k => groupSum_filter_key (fun k : Nat × Word × Address => q k.1) f k
  have hnet : ∀ k : Nat × Word × Address, directDepositNet (fun r => q r.blockNumber && f r) t k =
      if q k.1 then directDepositNet f t k else 0 := by
    intro k
    simp only [directDepositNet, hkey]
    split <;> rfl
  have hcovered : ∀ (g : SourceRow → Bool), ∀ r ∈ (vaultTransferEvents .deposit t).filter g,
      r.group ∈ ((vaultTransferEvents .deposit t).map group).toFinset :=
    fun g r hr => mem_toFinset.2 (mem_map_of_mem (mem_of_mem_filter hr))
  have hleft : sumOf snd ((directDepositsNet f t).filter fun r => q r.1) =
      ((groups group ((vaultTransferEvents .deposit t).filter f)).map fun k =>
        if q k.1 then directDepositNet f t k else 0).sum := by
    rw [sumOf_filter, directDepositsNet, sumOf, List.map_map]
    rfl
  have hright : sumOf snd (directDepositsNet (fun r => q r.blockNumber && f r) t) =
      ((groups group ((vaultTransferEvents .deposit t).filter fun r => q r.blockNumber && f r)).map fun k =>
        directDepositNet (fun r => q r.blockNumber && f r) t k).sum := by
    rw [directDepositsNet, sumOf, List.map_map]
    rfl
  rw [hleft, hright, sum_groups (hcovered f), sum_groups (hcovered _)]
  · exact sum_congr rfl fun k _ => (hnet k).symm
  · exact fun k hk => directDepositNet_of_empty hk
  · intro k hk
    rw [directDepositNet_of_empty hk]
    exact ite_self 0

private theorem sumOf_mintSources_filter (q : Nat → Bool) : sumOf snd ((mintSources f t).filter fun r => q r.1) =
    sumOf snd (mintSources (fun r => q r.blockNumber && f r) t) := by
  have hentries : ∀ rows : List SourceRow, ((rows.filter f).map entry).filter (fun r => q r.1) =
      (rows.filter fun r => q r.blockNumber && f r).map entry := by
    intro rows
    rw [List.filter_map, List.filter_filter]
    rfl
  rw [mintSources, filter_append, filter_append, hentries, hentries, mintSources, sumOf_append, sumOf_append,
    sumOf_append, sumOf_append, sumOf_directDepositsNet_filter]

end Queries

section Volume

variable (db : Db H) (blockNumber : Nat) (now : Int)

theorem mintVolumeSince_eq (f : SourceRow → Bool) : mintVolumeSince db now hourWindowSecs f = decimalToU128 (sumOf snd
    (mintSources (fun r => hasHeaderSince db (now - hourWindowSecs) r.blockNumber && f r) db.log.tables)) :=
  congrArg decimalToU128 (sumOf_mintSources_filter (hasHeaderSince db (now - hourWindowSecs)))

theorem burnVolumeSince_eq (f : SourceRow → Bool) : burnVolumeSince db now hourWindowSecs f = decimalToU128 (sumOf
    amount ((vaultTransferEvents .withdrawal db.log.tables).filter fun r =>
      hasHeaderSince db (now - hourWindowSecs) r.blockNumber && f r)) := by
  rw [burnVolumeSince, List.filter_filter]

private theorem Check.volume_eq (check : Check) :
    check.volume db blockNumber now = decimalToU128 (check.exactSum db blockNumber now) := by
  have hall : ∀ r : SourceRow, atBlock blockNumber r = (decide (r.blockNumber = blockNumber) && true) :=
    fun r => (Bool.and_true _).symm
  have hwindow : ∀ r : SourceRow, (hasHeaderSince db (now - hourWindowSecs) r.blockNumber &&
      inWindow db blockNumber now hourWindowSecs r) =
      (decide (blockBeforeWindow db blockNumber (now - hourWindowSecs) < r.blockNumber ∧ r.blockNumber ≤ blockNumber) &&
        hasHeaderSince db (now - hourWindowSecs) r.blockNumber && true) :=
    fun r => (Bool.and_comm _ _).trans (Bool.and_true _).symm
  have hwindowOf : ∀ (bytes : List UInt8) (r : SourceRow), (hasHeaderSince db (now - hourWindowSecs) r.blockNumber &&
      inWindowOf db blockNumber now hourWindowSecs bytes r) =
      (decide (blockBeforeWindow db blockNumber (now - hourWindowSecs) < r.blockNumber ∧ r.blockNumber ≤ blockNumber) &&
        hasHeaderSince db (now - hourWindowSecs) r.blockNumber && decide (addressBytes r.vault = bytes)) := by
    intro bytes r
    rw [inWindowOf, ← Bool.and_assoc, Bool.and_comm (hasHeaderSince _ _ _)]
    rfl
  obtain ⟨kind, vault, limit⟩ := check
  unfold exactSum exactVolume
  cases kind <;> cases vault
  · exact congrArg (fun f => decimalToU128 (sumOf snd (mintSources f db.log.tables))) (funext hall)
  · rfl
  · exact (mintVolumeSince_eq db now _).trans
      (congrArg (fun f => decimalToU128 (sumOf snd (mintSources f db.log.tables))) (funext hwindow))
  · exact (mintVolumeSince_eq db now _).trans
      (congrArg (fun f => decimalToU128 (sumOf snd (mintSources f db.log.tables))) (funext (hwindowOf _)))
  · exact congrArg (fun f =>
      decimalToU128 (sumOf amount ((vaultTransferEvents .withdrawal db.log.tables).filter f)))
      (funext hall)
  · rfl
  · exact (burnVolumeSince_eq db now _).trans (congrArg
      (fun f => decimalToU128 (sumOf amount ((vaultTransferEvents .withdrawal db.log.tables).filter f)))
        (funext hwindow))
  · exact (burnVolumeSince_eq db now _).trans (congrArg
      (fun f => decimalToU128 (sumOf amount ((vaultTransferEvents .withdrawal db.log.tables).filter f)))
      (funext (hwindowOf _)))

end Volume

section Reports

variable {cfg : Config} {check : Check}

def Config.Reports (cfg : Config) (db : Db H) (blockNumber : Nat) (check : Check) : Prop :=
  ∃ volume, BreachEvent.mk check.kind check.limit volume cfg.chainId blockNumber (check.vault.map fst) ∈
    cfg.breaches db blockNumber

theorem reports_iff (h : check ∈ cfg.checks) (db : Db H) (blockNumber : Nat) : cfg.Reports db blockNumber check ↔
    check.limit < decimalToU128 (check.exactSum db blockNumber (blockAnchor db blockNumber)) := by
  rw [← volume_eq]
  constructor
  · rintro ⟨volume, hmem⟩
    obtain ⟨check', hcheck', hbreach⟩ := mem_flatMap.1 hmem
    unfold Check.breach at hbreach
    split at hbreach
    · rename_i hlt
      obtain ⟨hkind, -, -, -, -, hvault⟩ := BreachEvent.mk.inj (List.mem_singleton.1 hbreach)
      have hsame : check = check' := check_eq h hcheck' hkind (congrArg (fun o => o.getD "global".toList) hvault)
      rwa [← hsame] at hlt
    · cases hbreach
  · intro hlt
    refine ⟨check.volume db blockNumber (blockAnchor db blockNumber), mem_flatMap.2 ⟨check, h, ?_⟩⟩
    rw [Check.breach, if_pos hlt]
    exact List.mem_singleton_self _

end Reports

def unitLimits : Config where
  chainId := 8453
  thresholds := ⟨['1'], ['1'], ['1'], ['1']⟩
  vault := []
  nodup := List.nodup_nil
  mode := .alert
  webhookUrl := some "https://alerts".toList
  gatewayRpcUrl := none
  gatewayAddress := none
  pauser := none
  pauseFeeBumpBps := 0
  indexerLag := ⟨1, 1, 1⟩

def directDeposit (i amount : Nat) : EventRow :=
  .transfer ⟨1, i, BitVec.ofNat 256 i⟩ 7 .deposit 8 8 amount amount

def blockOne (events : List EventRow) : Db Unit := ⟨[⟨1, (), 0⟩], [], ⟨⟨events, [], [], [], [], []⟩, [], []⟩, [some 1]⟩

/-- Rows of deposits and withdrawals are added, anywhere in the tables; the headers are the same. -/
structure Added (db db' : Db H) : Prop where
  blocks : db'.blocks = db.blocks
  deposits : db.log.tables.deposits.Sublist db'.log.tables.deposits
  events : db.log.tables.events.Sublist db'.log.tables.events

section Added

variable {db db' : Db H} {check : Check}

section

variable (h : Added db db')

include h

private theorem Added.volumeRows_sublist : (volumeRows db.log.tables).Sublist (volumeRows db'.log.tables) :=
  (((h.deposits.filterMap _).append (h.events.filterMap _)).append (h.events.filterMap _)).append (h.events.filterMap _)

private theorem Added.groupVolume_le (k : Nat × Word × Address) :
    check.groupVolume db.log.tables k ≤ check.groupVolume db'.log.tables k := by
  have hsum : ∀ f : EventRow → Option SourceRow,
      groupSum group amount ((db.log.tables.events.filterMap f).filter check.inScope) k ≤
        groupSum group amount ((db'.log.tables.events.filterMap f).filter check.inScope) k :=
    fun f => groupSum_le_of_sublist ((h.events.filterMap f).filter _) k
  have hagents : groupSum group amount ((agentDeposits db.log.tables).filter check.inScope) k ≤
      groupSum group amount ((agentDeposits db'.log.tables).filter check.inScope) k :=
    groupSum_le_of_sublist ((h.deposits.filterMap _).filter _) k
  unfold groupVolume
  split
  · exact max_le_max (hsum _) (Nat.add_le_add (hsum _) hagents)
  · exact hsum _

private theorem Added.exactVolume_le (counts : Nat → Bool) :
    check.exactVolume counts db.log.tables ≤ check.exactVolume counts db'.log.tables := by
  have hcovered : ∀ r ∈ volumeRows db'.log.tables,
      r.group ∈ ((volumeRows db'.log.tables).map group).toFinset :=
    fun r hr => List.mem_toFinset.2 (List.mem_map_of_mem hr)
  rw [exactVolume_eq_sum hcovered, exactVolume_eq_sum fun r hr => hcovered r (h.volumeRows_sublist.subset hr)]
  refine Finset.sum_le_sum fun k _ => ?_
  split
  · exact h.groupVolume_le k
  · exact le_refl 0

theorem Added.blockAnchor_eq (blockNumber : Nat) : blockAnchor db' blockNumber = blockAnchor db blockNumber := by
  unfold blockAnchor latestBlockTimestamp Db.timestampOf Db.header
  rw [h.blocks]

private theorem Added.counts_eq (blockNumber : Nat) (now : Int) :
    check.counts db' blockNumber now = check.counts db blockNumber now := by
  funext n
  unfold Check.counts blockBeforeWindow hasHeaderSince Db.timestampOf Db.header
  rw [h.blocks]

end

/-- The sum of a check over the tables, cut or not, as a cycle for a block takes it. -/
def Check.cycleSum (check : Check) (db : Db H) (blockNumber : Nat) : Nat :=
  check.exactSum db blockNumber (blockAnchor db blockNumber)

/-- When rows are added, a check that was reported still is, if and only if the exact sum does not go from a number over
the limit that fits to one that does not fit. -/
theorem reports_of_added_iff (h : Added db db') {cfg : Config} (hcheck : check ∈ cfg.checks) (blockNumber : Nat) :
    (cfg.Reports db blockNumber check → cfg.Reports db' blockNumber check) ↔
      ¬ (check.limit < check.cycleSum db blockNumber ∧ check.cycleSum db blockNumber < 2 ^ 128 ∧
        2 ^ 128 ≤ check.cycleSum db' blockNumber) := by
  have hle : check.cycleSum db blockNumber ≤ check.cycleSum db' blockNumber := by
    unfold cycleSum exactSum
    rw [h.blockAnchor_eq, h.counts_eq]
    exact h.exactVolume_le _
  rw [reports_iff hcheck, reports_iff hcheck]
  change (check.limit < decimalToU128 (check.cycleSum db blockNumber) →
    check.limit < decimalToU128 (check.cycleSum db' blockNumber)) ↔ _
  unfold decimalToU128
  split <;> split <;> omega

end Added

private theorem added_blockOne :
    Added (blockOne [directDeposit 0 2]) (blockOne [directDeposit 0 2, directDeposit 1 (2 ^ 128)]) :=
  ⟨rfl, nil_sublist _, sublist_append_left [directDeposit 0 2] [directDeposit 1 (2 ^ 128)]⟩

/-- The breach of a deposit of two units is not one any more when a deposit of `2 ^ 128` units is added. -/
theorem not_reports_of_added : ¬ (unitLimits.Reports (blockOne [directDeposit 0 2]) 1 ⟨.perBlockMint, none, 1⟩ →
    unitLimits.Reports (blockOne [directDeposit 0 2, directDeposit 1 (2 ^ 128)]) 1 ⟨.perBlockMint, none, 1⟩) := by
  intro himp
  rw [reports_iff (by decide), reports_iff (by decide)] at himp
  have hsilent : ¬ 1 < decimalToU128 (exactSum ⟨.perBlockMint, none, 1⟩
      (blockOne [directDeposit 0 2, directDeposit 1 (2 ^ 128)]) 1
      (blockAnchor (blockOne [directDeposit 0 2, directDeposit 1 (2 ^ 128)]) 1)) := by decide +kernel
  exact hsilent (himp (by decide +kernel))

/-- The two deposits. -/
theorem reports_of_added_iff_of_blockOne :
    (unitLimits.Reports (blockOne [directDeposit 0 2]) 1 ⟨.perBlockMint, none, 1⟩ →
      unitLimits.Reports (blockOne [directDeposit 0 2, directDeposit 1 (2 ^ 128)]) 1 ⟨.perBlockMint, none, 1⟩) ↔
      ¬ (1 < Check.cycleSum ⟨.perBlockMint, none, 1⟩ (blockOne [directDeposit 0 2]) 1 ∧
        Check.cycleSum ⟨.perBlockMint, none, 1⟩ (blockOne [directDeposit 0 2]) 1 < 2 ^ 128 ∧
        2 ^ 128 ≤ Check.cycleSum ⟨.perBlockMint, none, 1⟩
          (blockOne [directDeposit 0 2, directDeposit 1 (2 ^ 128)]) 1) :=
  reports_of_added_iff added_blockOne (by decide) 1

/-- The headers have the times of a chain whose time does not go back, and each block with rows has one. -/
structure Indexed (ts : Nat → Int) (db : Db H) : Prop where
  monotone : ∀ ⦃m n : Nat⦄, m ≤ n → ts m ≤ ts n
  headers : ∀ h ∈ db.blocks, h.timestamp = ts h.blockNumber
  stored : ∀ r ∈ volumeRows db.log.tables, ∃ h ∈ db.blocks, h.blockNumber = r.blockNumber

section Hour

variable {ts : Nat → Int} {db db' : Db H} {check : Check}

private theorem Indexed.timestampOf_eq (h : Indexed ts db) {n : Nat} (hn : ∃ r ∈ db.blocks, r.blockNumber = n) :
    db.timestampOf n = some (ts n) := by
  obtain ⟨r, hr, rfl⟩ := hn
  obtain ⟨r', hr'⟩ : ∃ r', db.blocks.find? (fun h => decide (h.blockNumber = r.blockNumber)) = some r' :=
    Option.isSome_iff_exists.1 (find?_isSome.2 ⟨r, hr, decide_eq_true rfl⟩)
  have hfound := find?_some hr'
  have hnumber : r'.blockNumber = r.blockNumber := of_decide_eq_true hfound
  rw [Db.timestampOf, Db.header, hr', Option.map_some, h.headers r' (mem_of_find?_eq_some hr'), hnumber]

private theorem Indexed.blockAnchor_eq (h : Indexed ts db) {n : Nat} (hn : ∃ r ∈ db.blocks, r.blockNumber = n) :
    blockAnchor db n = ts n := by
  rw [blockAnchor, h.timestampOf_eq hn, Option.getD_some]

private theorem blockBeforeWindow_spec (db : Db H) (untilBlock : Nat) (since : Int) :
    (blockBeforeWindow db untilBlock since = -1 ∨ ∃ r ∈ db.blocks, r.blockNumber ≤ untilBlock ∧ r.timestamp < since ∧
      blockBeforeWindow db untilBlock since = r.blockNumber) := by
  unfold blockBeforeWindow
  split
  · rename_i b hb
    obtain ⟨r, hr, rfl⟩ := mem_map.1 (max?_eq_some_iff.1 hb).1
    obtain ⟨hmem, hcond⟩ := mem_filter.1 hr
    obtain ⟨hle, hlt⟩ := of_decide_eq_true hcond
    exact .inr ⟨r, hmem, hle, hlt, rfl⟩
  · exact .inl rfl

theorem Indexed.counts_iff (h : Indexed ts db) (hhour : check.kind.isHour = true) (x : Nat) (now : Int) {n : Nat}
    (hn : ∃ r ∈ db.blocks, r.blockNumber = n) :
    check.counts db x now n = true ↔ n ≤ x ∧ now - hourWindowSecs ≤ ts n := by
  rw [Check.counts, if_pos hhour, Bool.and_eq_true, decide_eq_true_iff, hasHeaderSince, h.timestampOf_eq hn]
  constructor
  · rintro ⟨⟨-, hle⟩, hsince⟩
    exact ⟨hle, of_decide_eq_true hsince⟩
  · rintro ⟨hle, hsince⟩
    refine ⟨⟨?_, hle⟩, decide_eq_true hsince⟩
    rcases blockBeforeWindow_spec db x (now - hourWindowSecs) with hnone | ⟨r, hr, -, hlt, hbefore⟩
    · rw [hnone]
      omega
    rw [hbefore]
    rw [h.headers r hr] at hlt
    by_contra hge
    have hmono := h.monotone (show n ≤ r.blockNumber by omega)
    omega

private theorem sum_blockVolume (t : Tables) {counts : Nat → Bool} {B : Finset Nat}
    (hB : ∀ r ∈ volumeRows t, counts r.blockNumber = true ↔ r.blockNumber ∈ B) :
    check.exactVolume counts t = ∑ n ∈ B, check.blockVolume t n := by
  have hcovered : ∀ r ∈ volumeRows t, r.group ∈ ((volumeRows t).map group).toFinset :=
    fun r hr => mem_toFinset.2 (mem_map_of_mem hr)
  have hblock : ∀ n, check.blockVolume t n =
      ∑ k ∈ ((volumeRows t).map group).toFinset, if n = k.1 then check.groupVolume t k else 0 := by
    intro n
    rw [blockVolume, exactVolume_eq_sum hcovered]
    exact sum_congr rfl fun k _ => if_congr (decide_eq_true_iff.trans eq_comm) rfl rfl
  rw [exactVolume_eq_sum hcovered, sum_congr rfl fun n _ => hblock n, sum_comm]
  refine sum_congr rfl fun k hk => ?_
  obtain ⟨r, hr, rfl⟩ := mem_map.1 (mem_toFinset.1 hk)
  rw [sum_ite_eq' B r.group.1]
  exact if_congr (hB r hr) rfl rfl

end Hour

def volumeSources (t : Tables) : List (List SourceRow) :=
  [agentDeposits t, routerDepositLegs t, vaultTransferEvents .deposit t, vaultTransferEvents .withdrawal t]

/-- Headers and rows are the same up to a block; the later ones are any. -/
structure SameUpTo (x : Nat) (db db' : Db H) : Prop where
  headers : (db'.blocks.filter fun r => decide (r.blockNumber ≤ x)) = db.blocks.filter fun r =>
    decide (r.blockNumber ≤ x)
  rows : (volumeSources db'.log.tables).map (List.filter fun r => decide (r.blockNumber ≤ x)) =
    (volumeSources db.log.tables).map (List.filter fun r => decide (r.blockNumber ≤ x))

section Later

variable {x : Nat} {db db' : Db H} {check : Check}

private theorem SameUpTo.timestampOf_eq (h : SameUpTo x db db') {n : Nat} (hn : n ≤ x) :
    db'.timestampOf n = db.timestampOf n := by
  have hfind : ∀ blocks : List (HeaderRow H), (blocks.find? fun r => decide (r.blockNumber = n)) =
      (blocks.filter fun r => decide (r.blockNumber ≤ x)).find? fun r => decide (r.blockNumber = n) := by
    intro blocks
    rw [find?_filter]
    congr 1
    funext r
    by_cases hr : r.blockNumber = n
    · simp [hr, hn]
    · simp [hr]
  rw [Db.timestampOf, Db.header, Db.timestampOf, Db.header, hfind, h.headers, ← hfind]

private theorem SameUpTo.blockBeforeWindow_eq (h : SameUpTo x db db') (since : Int) :
    blockBeforeWindow db' x since = blockBeforeWindow db x since := by
  have hfilter : ∀ blocks : List (HeaderRow H), (blocks.filter fun r =>
    decide (r.blockNumber ≤ x ∧ r.timestamp < since)) =
      (blocks.filter fun r => decide (r.blockNumber ≤ x)).filter fun r => decide (r.timestamp < since) := by
    intro blocks
    rw [List.filter_filter]
    congr 1
    funext r
    rw [Bool.decide_and, Bool.and_comm]
  unfold blockBeforeWindow
  rw [hfilter, hfilter, h.headers]

private theorem le_of_counts {n : Nat} {now : Int} (h : check.counts db x now n = true) : n ≤ x := by
  unfold Check.counts at h
  split at h
  · exact (of_decide_eq_true (Bool.and_eq_true_iff.1 h).1).2
  · exact (of_decide_eq_true h).le

theorem SameUpTo.counts_eq (h : SameUpTo x db db') (now : Int) : check.counts db' x now = check.counts db x now := by
  funext n
  by_cases hn : n ≤ x
  · unfold Check.counts hasHeaderSince
    rw [h.blockBeforeWindow_eq, h.timestampOf_eq hn]
  · rw [Bool.eq_false_iff.2 (mt le_of_counts hn), Bool.eq_false_iff.2 (mt le_of_counts hn)]

theorem SameUpTo.exactVolume_eq (h : SameUpTo x db db') {counts : Nat → Bool} (hcounts : ∀ n, counts n = true → n ≤ x) :
    check.exactVolume counts db'.log.tables = check.exactVolume counts db.log.tables := by
  have hfilter : ∀ rows : List SourceRow, rows.filter (check.filter counts) =
      (rows.filter fun r => decide (r.blockNumber ≤ x)).filter (check.filter counts) := by
    intro rows
    rw [List.filter_filter]
    refine (List.filter_congr fun r _ => ?_).symm
    by_cases hr : counts r.blockNumber = true
    · simp [hcounts _ hr]
    · simp [Check.filter, hr]
  have hrows := h.rows
  simp only [volumeSources, List.map_cons, List.map_nil, List.cons.injEq, and_true] at hrows
  obtain ⟨hagents, hlegs, hdeposits, hwithdrawals⟩ := hrows
  unfold exactVolume mintSources directDepositsNet directDepositNet
  simp only [hfilter (agentDeposits _), hfilter (routerDepositLegs _), hfilter (vaultTransferEvents _ _),
    hagents, hlegs, hdeposits, hwithdrawals]

theorem SameUpTo.volume_eq (h : SameUpTo x db db') (now : Int) : check.volume db' x now = check.volume db x now := by
  rw [Check.volume_eq, Check.volume_eq, Check.exactSum, Check.exactSum, h.counts_eq, h.exactVolume_eq fun _ =>
    le_of_counts]

end Later

def hourBlocks (ts : Nat → Int) (x : Nat) : Finset Nat :=
  (Finset.range (x + 1)).filter fun n => ts x - hourWindowSecs ≤ ts n

def Check.hourVolume (check : Check) (ts : Nat → Int) (t : Tables) (x : Nat) : Nat :=
  ∑ n ∈ hourBlocks ts x, check.blockVolume t n

def LastIn (ts : Nat → Int) (t : Tables) (a b : Int) (x : Nat) : Prop :=
  (∃ r ∈ volumeRows t, r.blockNumber = x) ∧ a ≤ ts x ∧ ts x ≤ b ∧
    ∀ r ∈ volumeRows t, a ≤ ts r.blockNumber → ts r.blockNumber ≤ b → r.blockNumber ≤ x

/-- The window of a block is exact and misses no burst. -/
structure HourExact (cfg : Config) (ts : Nat → Int) (db : Db H) (check : Check) (x : Nat) : Prop where
  exact : check.volume db x (ts x) = check.hourVolume ts db.log.tables x
  anchored : (∃ r ∈ db.blocks, r.blockNumber = x) → blockAnchor db x = ts x
  independent : ∀ db' : Db H, SameUpTo x db db' → check.volume db' x (ts x) = check.volume db x (ts x)
  reported : ∀ a b, b - a ≤ hourWindowSecs → LastIn ts db.log.tables a b x →
    check.limit < check.exactVolume (fun n => decide (a ≤ ts n ∧ ts n ≤ b)) db.log.tables → cfg.Reports db x check

section Burst

variable {ts : Nat → Int} {db : Db H} {check : Check} {cfg : Config}

private theorem Indexed.exactSum_eq (h : Indexed ts db) (hhour : check.kind.isHour = true) (x : Nat) :
    check.exactSum db x (ts x) = check.hourVolume ts db.log.tables x := by
  refine sum_blockVolume db.log.tables fun r hr => ?_
  rw [h.counts_iff hhour x (ts x) (h.stored r hr), hourBlocks, Finset.mem_filter, Finset.mem_range, Nat.lt_succ_iff]

private theorem exactVolume_le_hourVolume {a b : Int} (hab : b - a ≤ hourWindowSecs) {x : Nat}
    (hlast : LastIn ts db.log.tables a b x) :
    check.exactVolume (fun n => decide (a ≤ ts n ∧ ts n ≤ b)) db.log.tables ≤ check.hourVolume ts db.log.tables x := by
  obtain ⟨-, -, hxb, hrows⟩ := hlast
  have hsum : check.exactVolume (fun n => decide (a ≤ ts n ∧ ts n ≤ b)) db.log.tables =
      ∑ n ∈ (hourBlocks ts x).filter (fun n => a ≤ ts n ∧ ts n ≤ b), check.blockVolume db.log.tables n := by
    refine sum_blockVolume db.log.tables fun r hr => ?_
    rw [decide_eq_true_iff, Finset.mem_filter, hourBlocks, Finset.mem_filter, Finset.mem_range, Nat.lt_succ_iff]
    constructor
    · rintro ⟨ha, hb⟩
      exact ⟨⟨hrows r hr ha hb, by omega⟩, ha, hb⟩
    · exact fun hmem => hmem.2
  rw [hsum]
  exact sum_le_sum_of_subset (filter_subset _ _)

/-- On an indexed chain the window of a block is exact and misses no burst if and only if the volume of the hour
fits. -/
theorem hourExact_iff (h : Indexed ts db) (hcheck : check ∈ cfg.checks) (hhour : check.kind.isHour = true) (x : Nat) :
    HourExact cfg ts db check x ↔ check.hourVolume ts db.log.tables x < 2 ^ 128 := by
  have hvolume : check.volume db x (ts x) = decimalToU128 (check.hourVolume ts db.log.tables x) := by
    rw [volume_eq, h.exactSum_eq hhour]
  constructor
  · intro hexact
    have hsame := hexact.exact
    rw [hvolume, decimalToU128] at hsame
    split at hsame
    · assumption
    · rw [← hsame]
      exact Nat.two_pow_pos 128
  · intro hlt
    refine ⟨?_, h.blockAnchor_eq, fun db' hdb' => hdb'.volume_eq (ts x), fun a b hab hlast hburst => ?_⟩
    · rw [hvolume, decimalToU128, if_pos hlt]
    · obtain ⟨r, hr, rfl⟩ := hlast.1
      rw [reports_iff hcheck, h.blockAnchor_eq (h.stored r hr), h.exactSum_eq hhour, decimalToU128, if_pos hlt]
      exact hburst.trans_le (exactVolume_le_hourVolume hab hlast)

end Burst

private theorem indexed_blockOne (i amount : Nat) : Indexed (fun _ => 0) (blockOne [directDeposit i amount]) := by
  refine ⟨fun _ _ _ => le_refl _, fun h hh => ?_, fun r hr => ⟨_, List.mem_singleton_self _, ?_⟩⟩
  · rw [List.mem_singleton.1 hh]
  · have hrows : volumeRows (blockOne [directDeposit i amount]).log.tables = [⟨1, BitVec.ofNat 256 i, 7, amount⟩] := rfl
    rw [hrows, List.mem_singleton] at hr
    rw [hr]

/-- A deposit of `2 ^ 128` units is not reported: the volume of its hour reads zero. -/
theorem not_hourExact_of_overflow : Indexed (fun _ => 0) (blockOne [directDeposit 0 (2 ^ 128)]) ∧
    ¬ HourExact unitLimits (fun _ => 0) (blockOne [directDeposit 0 (2 ^ 128)]) ⟨.perHourMint, none, 1⟩ 1 := by
  refine ⟨indexed_blockOne 0 _, fun h => ?_⟩
  have hdiffers : Check.volume ⟨.perHourMint, none, 1⟩ (blockOne [directDeposit 0 (2 ^ 128)]) 1 0 ≠
      hourVolume ⟨.perHourMint, none, 1⟩ (fun _ => 0) (blockOne [directDeposit 0 (2 ^ 128)]).log.tables 1 := by
    decide +kernel
  exact hdiffers h.exact

/-- A deposit of two units. -/
theorem hourExact_of_blockOne :
    HourExact unitLimits (fun _ => 0) (blockOne [directDeposit 0 2]) ⟨.perHourMint, none, 1⟩ 1 :=
  (hourExact_iff (indexed_blockOne 0 2) (by decide) rfl 1).2 (by decide +kernel)

end RobotMoney.Watchdog
