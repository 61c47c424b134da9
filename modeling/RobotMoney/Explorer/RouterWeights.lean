import RobotMoney.Governance.WeightHistory
import RobotMoney.Indexer.Tick

/-!
# The weights that the explorer serves (`routes.rs`)

`/v1/router/weights` and `/v1/router/state` read the first 500 rows of `router_weight_snapshots` and serve the last of
them.  Both kinds of vectors are in the table, and the event that clears a vote is not.  So the vector they serve is the
last one that was set, of either kind (`last_vector_served`), which need not be the one that the router routes by
(`cleared_vector_served`).
-/

namespace RobotMoney.Explorer

open Evm Indexer Governance List

/-- `WeightSnapshotRow`. -/
structure WeightSnapshot where
  routerAddress : Address
  place : LogPlace
  vaultAddresses : List Address
  bpsValues : List Nat
  deriving DecidableEq, Repr

/-- A row of `router_weight_snapshots`. -/
def snapshotOf : EventRow → Option WeightSnapshot
  | .weights place router vaults bps => some ⟨router, place, vaults, bps⟩
  | _ => none

structure WeightHistoryEntry where
  blockNumber : Nat
  txHash : Word
  weights : List Leg
  deriving DecidableEq, Repr

/-- `RouterWeightsResponse` and `RouterStateResponse`, which have the same fields. -/
structure WeightsResponse where
  currentWeights : List Leg
  history : List WeightHistoryEntry
  freshness : Nat
  deriving DecidableEq, Repr

def WeightSnapshot.entry (row : WeightSnapshot) : WeightHistoryEntry :=
  ⟨row.place.blockNumber, row.place.txHash, List.zipWith Leg.mk row.vaultAddresses row.bpsValues⟩

def selectSnapshots (events : List EventRow) : List WeightSnapshot :=
  ((events.filterMap snapshotOf).insertionSort fun a b => a.place.pos ≤ b.place.pos).take 500

section Endpoints

variable {H : Type} (db : Db H)

/-- `latest_freshness`, as far as it is a block. -/
def latestFreshness : Nat := db.lastIndexedBlock.getD 0

def freshnessOf (history : List WeightHistoryEntry) : Nat :=
  match history.getLast? with
  | some e => e.blockNumber
  | none => latestFreshness db

def currentOf (history : List WeightHistoryEntry) : List Leg :=
  (history.getLast?.map WeightHistoryEntry.weights).getD []

def getRouterWeights : WeightsResponse :=
  let history := (selectSnapshots db.log.tables.events).map WeightSnapshot.entry
  let sorted := history.insertionSort fun a b => a.blockNumber ≤ b.blockNumber
  ⟨currentOf history, sorted, freshnessOf db sorted⟩

def getRouterState : WeightsResponse :=
  let history := (selectSnapshots db.log.tables.events).map WeightSnapshot.entry
  ⟨currentOf history, history, freshnessOf db history⟩

end Endpoints

/-- The event as the indexer decodes it; `VotedWeightsCleared` is none of its topics. -/
def decodeWeights : WeightsEvent → Option Event
  | .weightsSet vaults bps => some (.weightsSet vaults bps)
  | .defaultWeightsSet vaults bps => some (.defaultWeightsSet vaults bps)
  | .votedWeightsCleared => none

def statementsOf (cfg : Config) (router : Address) (l : LogPlace × WeightsEvent) : List Statement :=
  match decodeWeights l.2 with
  | some event => handleLog cfg (fun _ => none) [] ⟨router, l.1, event⟩
  | none => []

def snapshotOfStatement : Statement → Option WeightSnapshot
  | .event row => snapshotOf row
  | _ => none

def Indexed (cfg : Config) (router : Address) (logs : List (LogPlace × WeightsEvent)) (events : List EventRow) : Prop :=
  (events.filterMap snapshotOf).Perm ((logs.flatMap (statementsOf cfg router)).filterMap snapshotOfStatement)

instance (cfg : Config) (router : Address) (logs : List (LogPlace × WeightsEvent)) (events : List EventRow) :
    Decidable (Indexed cfg router logs events) :=
  inferInstanceAs (Decidable (List.Perm _ _))

def rowOf (router : Address) (l : LogPlace × WeightsEvent) : Option WeightSnapshot :=
  match l.2 with
  | .weightsSet vaults bps | .defaultWeightsSet vaults bps => some ⟨router, l.1, vaults, bps.map intoI64⟩
  | .votedWeightsCleared => none

section Rows

variable {cfg : Config} {router : Address} {logs : List (LogPlace × WeightsEvent)} {events : List EventRow}

private theorem filterMap_statementsOf (l : LogPlace × WeightsEvent) :
    (statementsOf cfg router l).filterMap snapshotOfStatement = (rowOf router l).toList := by
  obtain ⟨place, event⟩ := l
  cases event <;> rfl

private theorem rows_eq (logs : List (LogPlace × WeightsEvent)) :
    (logs.flatMap (statementsOf cfg router)).filterMap snapshotOfStatement = logs.filterMap (rowOf router) := by
  induction logs with
  | nil => rfl
  | cons l rest ih =>
    rw [flatMap_cons, filterMap_append, ih, filterMap_statementsOf]
    cases hrow : rowOf router l <;> simp [hrow]

private theorem place_of_rowOf {l : LogPlace × WeightsEvent} {row : WeightSnapshot} (h : rowOf router l = some row) :
    row.place = l.1 := by
  obtain ⟨place, event⟩ := l
  cases event with
  | votedWeightsCleared => cases h
  | weightsSet vaults bps | defaultWeightsSet vaults bps =>
    cases h
    rfl

private theorem pairwise_rows (router : Address) (h : (logs.map Prod.fst).Pairwise fun a b => a.pos < b.pos) :
    (logs.filterMap (rowOf router)).Pairwise fun a b => a.place.pos < b.place.pos := by
  rw [pairwise_filterMap]
  refine (pairwise_map.mp h).imp ?_
  intro l l' hlt row hrow row' hrow'
  rw [place_of_rowOf hrow, place_of_rowOf hrow']
  exact hlt

private theorem selectSnapshots_eq (h : (logs.map Prod.fst).Pairwise fun a b => a.pos < b.pos)
    (hindexed : Indexed cfg router logs events) :
    selectSnapshots events = (logs.filterMap (rowOf router)).take 500 := by
  have hrows := pairwise_rows router h
  have hinj : ∀ a ∈ logs.filterMap (rowOf router), ∀ b ∈ logs.filterMap (rowOf router), a.place.pos = b.place.pos →
      a = b := by
    refine inj_on_of_nodup_map (f := fun row : WeightSnapshot => row.place.pos) ?_
    rw [List.Nodup, pairwise_map]
    exact hrows.imp fun hlt => hlt.ne
  unfold Indexed at hindexed
  rw [rows_eq] at hindexed
  unfold selectSnapshots
  congr 1
  refine List.Perm.eq_of_pairwise ?_ (pairwise_insertionSort _ _) (hrows.imp fun hlt => hlt.le)
    ((perm_insertionSort _ _).trans hindexed)
  intro a b ha hb hle hge
  have ha' := hindexed.subset ((mem_insertionSort _).mp ha)
  exact hinj a ha' b hb (le_antisymm hle hge)

private theorem map_intoI64 {bps : List Nat} (h : bps.sum = 10000) : bps.map intoI64 = bps := by
  have hfits : ∀ b ∈ bps, intoI64 b = id b := by
    intro b hb
    have hle : b ≤ 10000 := h ▸ le_sum_of_mem hb
    exact Nat.min_eq_left (hle.trans (by decide))
  rw [map_congr_left hfits, map_id]

private theorem weights_of_rowOf {l : LogPlace × WeightsEvent} (haccepted : l.2.Accepted) :
    (rowOf router l).map (fun row => row.entry.weights) = l.2.vector := by
  obtain ⟨place, event⟩ := l
  cases event with
  | votedWeightsCleared => rfl
  | weightsSet vaults bps | defaultWeightsSet vaults bps =>
    simp only [rowOf, Option.map_some, WeightSnapshot.entry, WeightsEvent.vector, map_intoI64 haccepted.2]

private theorem weights_rows (h : ∀ l ∈ logs, l.2.Accepted) :
    (logs.filterMap (rowOf router)).map (fun row => row.entry.weights) = vectors (logs.map Prod.snd) := by
  rw [map_filterMap, vectors, filterMap_map]
  exact filterMap_congr fun l hl => weights_of_rowOf (h l hl)

private theorem currentOf_map (rows : List WeightSnapshot) : currentOf (rows.map WeightSnapshot.entry) =
    (rows.map fun row => row.entry.weights).getLast?.getD [] := by
  simp [currentOf, getLast?_map, Function.comp_def]

end Rows

section Served

variable {H σ : Type} {db : Db H} {cfg : Config} {router : Address} {s : WeightsState LogPlace}

theorem currentWeights_eq (htracks : Tracks s) (hplaces : (s.logs.map Prod.fst).Pairwise fun a b => a.pos < b.pos)
    (hindexed : Indexed cfg router s.logs db.log.tables.events) :
    (getRouterWeights db).currentWeights = ((vectors (s.logs.map Prod.snd)).take 500).getLast?.getD [] := by
  unfold getRouterWeights
  dsimp only
  rw [currentOf_map, selectSnapshots_eq hplaces hindexed, map_take, weights_rows htracks.accepted]

private theorem getRouterWeights_eq (db : Db H) : getRouterWeights db = getRouterState db := by
  have hsorted : ((selectSnapshots db.log.tables.events).map WeightSnapshot.entry).Pairwise
      fun a b => a.blockNumber ≤ b.blockNumber := by
    rw [pairwise_map]
    refine ((pairwise_insertionSort _ _).take).imp fun {a b} hle => ?_
    exact (Prod.Lex.le_iff.mp hle).elim (fun hlt => hlt.le) fun heq => heq.1.le
  unfold getRouterWeights getRouterState
  dsimp only
  rw [hsorted.insertionSort_eq]

private theorem last_eq_effectiveWeights_iff (h : Tracks s) :
    (vectors (s.logs.map Prod.snd)).getLast?.getD [] = s.router.effectiveWeights ↔ vectors (s.logs.map Prod.snd) = [] ∨
      ∃ i, deciding (s.logs.map Prod.snd) = some i ∧
        (vectors (s.logs.map Prod.snd))[i]? = (vectors (s.logs.map Prod.snd)).getLast? := by
  rw [h.effectiveWeights_eq]
  cases hlast : (vectors (s.logs.map Prod.snd)).getLast? with
  | none => simp [getLast?_eq_none_iff.mp hlast]
  | some v =>
    have hmem := mem_of_getLast? hlast
    have hne : vectors (s.logs.map Prod.snd) ≠ [] := ne_nil_of_mem hmem
    have hv := ne_nil_of_mem_vectors h hmem
    cases hdeciding : deciding (s.logs.map Prod.snd) with
    | none => simp [hne, hv]
    | some i =>
      cases hi : (vectors (s.logs.map Prod.snd))[i]? with
      | none => simp [hi, hne, hv]
      | some v' => simp [hi, hne, eq_comm]

end Served

/-- After every history of the router whose logs are indexed, the two endpoints answer alike; and when at most 500
vectors were set, the weights they serve are the last vector that was set, so they are the ones that the router routes
by when none was set or the one that counts has the same content, and only then. -/
theorem last_vector_served {H σ : Type} (d : RouterDeployment) (env : RoutedVaults σ) (cfg : Config) (router : Address)
    (r : PortfolioRouter) (calls : List (WeightsWorld σ × LogPlace × WeightsCall)) (db : Db H) (hr : NoWeights r)
    (hplaces : calls.Pairwise fun a b => a.2.1.pos < b.2.1.pos)
    (hindexed : Indexed cfg router (run (weightsStep d env) ⟨r, []⟩ calls).logs db.log.tables.events) :
    getRouterWeights db = getRouterState db ∧
      ((vectors ((run (weightsStep d env) ⟨r, []⟩ calls).logs.map Prod.snd)).length ≤ 500 →
        (getRouterWeights db).currentWeights =
            (vectors ((run (weightsStep d env) ⟨r, []⟩ calls).logs.map Prod.snd)).getLast?.getD [] ∧
          ((getRouterWeights db).currentWeights = (run (weightsStep d env) ⟨r, []⟩ calls).router.effectiveWeights ↔
            vectors ((run (weightsStep d env) ⟨r, []⟩ calls).logs.map Prod.snd) = [] ∨
            ∃ i, deciding ((run (weightsStep d env) ⟨r, []⟩ calls).logs.map Prod.snd) = some i ∧
              (vectors ((run (weightsStep d env) ⟨r, []⟩ calls).logs.map Prod.snd))[i]? =
                (vectors ((run (weightsStep d env) ⟨r, []⟩ calls).logs.map Prod.snd)).getLast?)) := by
  refine ⟨getRouterWeights_eq db, fun hcount => ?_⟩
  have htracks : Tracks (run (weightsStep d env) ⟨r, []⟩ calls) := tracks_run hr calls
  have hlogs : ((run (weightsStep d env) ⟨r, []⟩ calls).logs.map Prod.fst).Pairwise fun a b => a.pos < b.pos := by
    obtain ⟨places, heq, hsub⟩ := places_run d env ⟨r, []⟩ calls
    have hcalls : (calls.map fun c => c.2.1).Pairwise fun a b => a.pos < b.pos := pairwise_map.mpr hplaces
    rw [heq]
    exact hcalls.sublist hsub
  have hcurrent := currentWeights_eq htracks hlogs hindexed
  rw [take_of_length_le hcount] at hcurrent
  rw [hcurrent]
  exact ⟨rfl, last_eq_effectiveWeights_iff htracks⟩

def weightsWorld : WeightsWorld Unit where
  weightSetter a := a == 1
  admin a := a == 1
  registry := 8
  routerEligibleCount := 1
  world := Governance.sampleWorld.world

def votedCalls : List (WeightsWorld Unit × LogPlace × WeightsCall) :=
  [(weightsWorld, ⟨1, 0, 1⟩, .setDefaultWeights 1 [4] [10000]), (weightsWorld, ⟨2, 0, 2⟩, .setWeights 1 [5] [10000])]

def clearedCalls : List (WeightsWorld Unit × LogPlace × WeightsCall) :=
  votedCalls ++ [(weightsWorld, ⟨3, 0, 3⟩, .clearVotedWeights 1)]

def weightsConfig : Config := ⟨none, 7, none, none, some 6, none, none, none, 100, none, true⟩

def weightsAfter (calls : List (WeightsWorld Unit × LogPlace × WeightsCall)) : WeightsState LogPlace :=
  run (weightsStep ⟨3, 2⟩ sampleVaults) ⟨⟨0, fun _ => 0, [], false, []⟩, []⟩ calls

def weightsDb (calls : List (WeightsWorld Unit × LogPlace × WeightsCall)) : Db Unit :=
  { (.empty : Db Unit) with
    log := execAll (fun _ => none) .empty ((weightsAfter calls).logs.flatMap (statementsOf weightsConfig 6)) }

theorem last_vector_served_of_votedCalls : (getRouterWeights (weightsDb votedCalls)).currentWeights = [⟨5, 10000⟩] ∧
    (getRouterWeights (weightsDb votedCalls)).currentWeights = (weightsAfter votedCalls).router.effectiveWeights := by
  have hserved := (last_vector_served ⟨3, 2⟩ sampleVaults weightsConfig 6 ⟨0, fun _ => 0, [], false, []⟩ votedCalls
    (weightsDb votedCalls) ⟨rfl, rfl⟩ (by decide) (by decide +kernel)).2 (by decide +kernel)
  exact ⟨by decide +kernel, hserved.2.mpr (.inr ⟨1, by decide +kernel, by decide +kernel⟩)⟩

/-- The vector that was cleared is served, and the router routes by the default one. -/
theorem cleared_vector_served :
    Indexed weightsConfig 6 (weightsAfter clearedCalls).logs (weightsDb clearedCalls).log.tables.events ∧
      (getRouterWeights (weightsDb clearedCalls)).currentWeights = [⟨5, 10000⟩] ∧
      (weightsAfter clearedCalls).router.effectiveWeights = [⟨4, 10000⟩] := by
  decide +kernel

end RobotMoney.Explorer
