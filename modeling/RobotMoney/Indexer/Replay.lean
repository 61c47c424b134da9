import RobotMoney.Indexer.Chain
import RobotMoney.Sql.Replay

/-!
# Replaying statements

A tick that fails has executed some of its statements, and the next tick executes them again.  A statement that has been
executed is absorbed: executing it again changes nothing (`absorbed_execs`).  For the two updates in place this needs
that the row they update was there before (`Ordered`).
-/

namespace RobotMoney.Indexer

open Evm SqlTable List Statement

variable {timestampOf : Nat → Option Int} {t : Tables}

def execs (timestampOf : Nat → Option Int) (sts : List Statement) : Tables :=
  sts.foldl (Statement.execTables timestampOf) .empty

private theorem execs_append_singleton (sts : List Statement) (st : Statement) :
    execs timestampOf (sts ++ [st]) = st.execTables timestampOf (execs timestampOf sts) := by
  simp [execs]

variable {st : Statement} {sts : List Statement}

private theorem execTables_congr {timestampOf' : Nat → Option Int}
    (h : timestampOf st.blockNumber = timestampOf' st.blockNumber) :
    st.execTables timestampOf t = st.execTables timestampOf' t := by
  cases st with
  | agentPolicy place agent owner revoked fields gateway =>
    simp only [blockNumber] at h
    simp only [execTables, insertAgentPolicy, h]
  | _ => rfl

theorem foldl_execTables_congr {timestampOf' : Nat → Option Int}
    (h : ∀ st ∈ sts, timestampOf st.blockNumber = timestampOf' st.blockNumber) :
    sts.foldl (execTables timestampOf) t = sts.foldl (execTables timestampOf') t := by
  induction sts generalizing t with
  | nil => rfl
  | cons st sts ih =>
    rw [foldl_cons, foldl_cons, execTables_congr (h st mem_cons_self)]
    exact ih fun st' hst' => h st' (mem_cons_of_mem _ hst')

def adminKey (place : LogPlace) : TableName × Option Address × (Nat ×ₗ Nat) := (.adminEvents, none, place.pos)

def Statement.Absorbed (t : Tables) : Statement → Prop
  | .event row => ∃ x ∈ t.events, x.key = row.key
  | .markProxyDeployment place =>
    (∃ x ∈ t.events, x.key = adminKey place) ∧ ∀ x ∈ t.events, markDeployment place x = x
  | .agentDeposit row => ∃ x ∈ t.deposits, x.pos = row.pos
  | .agentPolicy place .. => ∃ x ∈ t.policies, x.pos = place.pos
  | .ownerTransfer place .. => ∃ x ∈ t.policies, x.pos = place.pos
  | .walletPosition delta => ∃ x, t.positions.find? (fun r => decide (r.key = delta.key)) = some x ∧
      ∀ last, x.lastLogIndex = some last → delta.logIndex ≤ last
  | .vaultStatus row => ∃ x ∈ t.statusEvents, x.key = row.key
  | .receipt row => ∃ x ∈ t.receipts, x.key = row.key
  | .release contractAddress receiptId released =>
    (∃ x ∈ t.receipts, x.key = (contractAddress, receiptId)) ∧
      ∀ x ∈ t.receipts, x.key = (contractAddress, receiptId) → x.release = some released
  | .exclusion _ | .vault _ => True

private theorem map_of_fixed {ρ : Type} {f : ρ → ρ} {rows : List ρ} (h : ∀ x ∈ rows, f x = x) : rows.map f = rows := by
  conv_rhs => rw [← map_id rows]
  exact map_congr_left h

theorem Statement.Absorbed.execTables (h : st.Absorbed t) : st.execTables timestampOf t = t := by
  cases st with
  | event row | vaultStatus row | receipt row =>
    obtain ⟨x, hx, hkey⟩ := h
    simp only [execTables, insertNew_of_mem hx hkey]
  | markProxyDeployment place =>
    simp only [execTables, map_of_fixed h.2]
  | agentDeposit row =>
    obtain ⟨x, hx, hkey⟩ := h
    simp only [execTables, insertAgentDeposit]
    rw [insertNew_of_mem hx]
    exact hkey
  | agentPolicy place agent owner revoked fields gateway | ownerTransfer place agent newOwner gateway =>
    obtain ⟨x, hx, hkey⟩ := h
    simp only [execTables, insertAgentPolicy, insertAgentOwnerTransfer]
    rw [insertNew_of_mem hx hkey]
  | walletPosition delta =>
    obtain ⟨x, hfind, hlast⟩ := h
    simp only [execTables, applyWalletPositionDelta, hfind]
    cases hindex : x.lastLogIndex with
    | none => rfl
    | some last => simp [hlast last hindex]
  | release contractAddress receiptId released =>
    have hmap : t.receipts.map (setRelease contractAddress receiptId released) = t.receipts := by
      apply map_of_fixed
      intro x hx
      unfold setRelease
      split
      · rename_i hkey
        simp [← h.2 x hx hkey]
      · rfl
    simp only [execTables, hmap]
  | exclusion row | vault row => rfl

def Statement.Ready (t : Tables) : Statement → Prop
  | .markProxyDeployment place => ∃ x ∈ t.events, x.key = adminKey place
  | .release contractAddress receiptId _ => ∃ x ∈ t.receipts, x.key = (contractAddress, receiptId)
  | _ => True

theorem key_markDeployment (place : LogPlace) (x : EventRow) : (markDeployment place x).key = x.key := by
  unfold markDeployment
  split
  · split <;> rfl
  · rfl

private theorem markDeployment_markDeployment {place place' : LogPlace} {x : EventRow}
    (h : place = place' ∨ markDeployment place x = x) :
    markDeployment place (markDeployment place' x) = markDeployment place' x := by
  cases x with
  | admin p contract event =>
    by_cases hplace : p.pos = place'.pos ∧ event.contractKind = .proxy
    · have hmarked : markDeployment place' (.admin p contract event) =
          .admin p contract { event with deployment := true } :=
        if_pos hplace
      rw [hmarked]
      unfold markDeployment
      simp only [ite_self]
    have hsame : markDeployment place' (.admin p contract event) = .admin p contract event := if_neg hplace
    rw [hsame]
    obtain rfl | h := h
    · exact hsame
    · exact h
  | _ => rfl

theorem key_setRelease (c : Address) (id : Word) (released : Release) (x : ReceiptRow) :
    (setRelease c id released x).key = x.key := by
  unfold setRelease
  split <;> rfl

private theorem find_applyWalletPositionDelta (delta : PositionDelta) (positions : List PositionRow) :
    ∃ x, (applyWalletPositionDelta delta positions).find? (fun r => decide (r.key = delta.key)) = some x ∧
      ∀ last, x.lastLogIndex = some last → delta.logIndex ≤ last := by
  unfold applyWalletPositionDelta
  split
  · rename_i hnone
    generalize ((positionBelow positions delta.contract delta.owner delta.blockNumber).map PositionRow.shares).getD 0 =
      prior
    refine ⟨⟨delta.contract, delta.owner, delta.blockNumber, delta.apply prior, some delta.logIndex⟩, ?_, ?_⟩
    · simp only [find?_append, hnone, Option.none_or]
      simp [PositionRow.key, PositionDelta.key]
    · rintro last ⟨⟩
      exact le_refl _
  rename_i row hrow
  split
  · rename_i hindex
    refine ⟨row, hrow, ?_⟩
    intro last hlast
    rw [hindex] at hlast
    cases hlast
  rename_i last hindex
  split
  · rename_i hle
    refine ⟨row, hrow, ?_⟩
    intro last' hlast'
    rw [hindex] at hlast'
    cases hlast'
    exact hle
  have hkey : row.key = delta.key := by simpa using find?_some hrow
  refine ⟨{ row with shares := delta.apply row.shares, lastLogIndex := some delta.logIndex }, ?_, ?_⟩
  · rw [find?_map]
    have hcomp : ((fun r : PositionRow => decide (r.key = delta.key)) ∘ fun r =>
        if r.key = delta.key then
          { r with shares := delta.apply row.shares, lastLogIndex := some delta.logIndex } else r) =
        fun r => decide (r.key = delta.key) := by
      funext r
      simp only [Function.comp]
      split <;> rfl
    rw [hcomp, hrow, Option.map_some, if_pos hkey]
  · rintro last' ⟨⟩
    exact le_refl _

theorem absorbed_execTables (h : st.Ready t) : st.Absorbed (st.execTables timestampOf t) := by
  cases st with
  | event row | vaultStatus row | receipt row => exact exists_mem_insertNew ..
  | markProxyDeployment place =>
    obtain ⟨x, hx, hkey⟩ := h
    constructor
    · exact ⟨_, mem_map_of_mem hx, (key_markDeployment place x).trans hkey⟩
    · intro y hy
      obtain ⟨x', -, rfl⟩ := mem_map.1 hy
      exact markDeployment_markDeployment (.inl rfl)
  | agentDeposit row =>
    obtain ⟨x, hx, hkey⟩ := exists_mem_insertNew DepositRow.pos _ t.deposits
    exact ⟨x, hx, hkey⟩
  | agentPolicy place agent owner revoked fields gateway | ownerTransfer place agent newOwner gateway =>
    obtain ⟨x, hx, hkey⟩ := exists_mem_insertNew PolicyRow.pos _ t.policies
    exact ⟨x, hx, hkey⟩
  | walletPosition delta => exact find_applyWalletPositionDelta delta t.positions
  | release c id released =>
    obtain ⟨x, hx, hkey⟩ := h
    constructor
    · exact ⟨_, mem_map_of_mem hx, (key_setRelease c id released x).trans hkey⟩
    · intro y hy hy'
      obtain ⟨x', -, rfl⟩ := mem_map.1 hy
      rw [key_setRelease] at hy'
      simp [setRelease, hy']
  | exclusion row | vault row => trivial

private theorem find_applyWalletPositionDelta_of_found {delta delta' : PositionDelta} {positions : List PositionRow}
    (h : ∃ x, positions.find? (fun r => decide (r.key = delta.key)) = some x ∧
      ∀ last, x.lastLogIndex = some last → delta.logIndex ≤ last) :
    ∃ x, (applyWalletPositionDelta delta' positions).find? (fun r => decide (r.key = delta.key)) = some x ∧
      ∀ last, x.lastLogIndex = some last → delta.logIndex ≤ last := by
  obtain ⟨x, hx, hlast⟩ := h
  unfold applyWalletPositionDelta
  split
  · refine ⟨x, ?_, hlast⟩
    simp only [find?_append, hx, Option.some_or]
  rename_i row hrow
  split
  · exact ⟨x, hx, hlast⟩
  rename_i last' hindex
  split
  · exact ⟨x, hx, hlast⟩
  rename_i hlt
  have hcomp : ((fun r : PositionRow => decide (r.key = delta.key)) ∘ fun r =>
      if r.key = delta'.key then
        { r with shares := delta'.apply row.shares, lastLogIndex := some delta'.logIndex } else r) =
      fun r => decide (r.key = delta.key) := by
    funext r
    simp only [Function.comp]
    split <;> rfl
  rw [find?_map, hcomp, hx, Option.map_some]
  refine ⟨_, rfl, ?_⟩
  intro last hlast'
  split at hlast'
  · -- the row of this key is the one that `delta'` found
    rename_i hkey
    have hsame : delta.key = delta'.key := by
      have hkey' : x.key = delta.key := by simpa using find?_some hx
      rw [← hkey', hkey]
    rw [← hsame, hx] at hrow
    cases hrow
    cases hlast'
    have := hlast last' hindex
    omega
  · exact hlast last hlast'

/-- Later statements keep a statement absorbed, if they do not release the same receipt again. -/
theorem Statement.Absorbed.step {st st' : Statement} (h : st.Absorbed t)
    (hrelease : ∀ c id released released', st = .release c id released → st' ≠ .release c id released') :
    st.Absorbed (st'.execTables timestampOf t) := by
  have hevents : ∀ key, (∃ x ∈ t.events, x.key = key) → ∃ x ∈ (st'.execTables timestampOf t).events, x.key = key := by
    rintro key ⟨x, hx, hkey⟩
    cases st' with
    | event row => exact ⟨x, mem_insertNew_of_mem hx, hkey⟩
    | markProxyDeployment place => exact ⟨_, mem_map_of_mem hx, (key_markDeployment place x).trans hkey⟩
    | _ => exact ⟨x, hx, hkey⟩
  have hpolicies : ∀ pos, (∃ x ∈ t.policies, x.pos = pos) →
      ∃ x ∈ (st'.execTables timestampOf t).policies, x.pos = pos := by
    rintro pos ⟨x, hx, hpos⟩
    cases st' with
    | agentPolicy place agent owner revoked fields gateway => exact ⟨x, mem_insertNew_of_mem hx, hpos⟩
    | ownerTransfer place agent newOwner gateway => exact ⟨x, mem_insertNew_of_mem hx, hpos⟩
    | _ => exact ⟨x, hx, hpos⟩
  have hreceipts : ∀ key, (∃ x ∈ t.receipts, x.key = key) →
      ∃ x ∈ (st'.execTables timestampOf t).receipts, x.key = key := by
    rintro key ⟨x, hx, hkey⟩
    cases st' with
    | receipt row => exact ⟨x, mem_insertNew_of_mem hx, hkey⟩
    | release c id released => exact ⟨_, mem_map_of_mem hx, (key_setRelease c id released x).trans hkey⟩
    | _ => exact ⟨x, hx, hkey⟩
  cases st with
  | event row => exact hevents _ h
  | agentPolicy place agent owner revoked fields gateway => exact hpolicies _ h
  | ownerTransfer place agent newOwner gateway => exact hpolicies _ h
  | receipt row => exact hreceipts _ h
  | markProxyDeployment place =>
    obtain ⟨hkey, hmarked⟩ := h
    refine ⟨hevents _ hkey, ?_⟩
    intro y hy
    cases st' with
    | event row =>
      obtain ⟨heq, -⟩ | ⟨heq, hfresh⟩ := insertNew_cases EventRow.key row t.events
      · simp only [Statement.execTables, heq] at hy
        exact hmarked y hy
      simp only [Statement.execTables, heq, mem_append, mem_singleton] at hy
      obtain hy | rfl := hy
      · exact hmarked y hy
      -- the row is none of this log, whose row is there
      obtain ⟨x, hx, hx'⟩ := hkey
      cases y with
      | admin p contract event =>
        unfold markDeployment
        apply if_neg
        rintro ⟨hpos, -⟩
        apply hfresh x hx
        rw [hx', adminKey, ← hpos]
        rfl
      | _ => rfl
    | markProxyDeployment place' =>
      obtain ⟨x, hx, rfl⟩ := mem_map.1 hy
      exact markDeployment_markDeployment (.inr (hmarked x hx))
    | _ => exact hmarked y hy
  | agentDeposit row =>
    obtain ⟨x, hx, hpos⟩ := h
    cases st' with
    | agentDeposit row' => exact ⟨x, mem_insertNew_of_mem hx, hpos⟩
    | _ => exact ⟨x, hx, hpos⟩
  | walletPosition delta =>
    cases st' with
    | walletPosition delta' => exact find_applyWalletPositionDelta_of_found h
    | _ => exact h
  | vaultStatus row =>
    obtain ⟨x, hx, hkey⟩ := h
    cases st' with
    | vaultStatus row' => exact ⟨x, mem_insertNew_of_mem hx, hkey⟩
    | _ => exact ⟨x, hx, hkey⟩
  | release c id released =>
    obtain ⟨hkey, hreleased⟩ := h
    refine ⟨hreceipts _ hkey, ?_⟩
    intro y hy hy'
    cases st' with
    | receipt row =>
      obtain ⟨heq, -⟩ | ⟨heq, hfresh⟩ := insertNew_cases ReceiptRow.key row t.receipts
      · simp only [Statement.execTables, heq] at hy
        exact hreleased y hy hy'
      simp only [Statement.execTables, heq, mem_append, mem_singleton] at hy
      obtain hy | rfl := hy
      · exact hreleased y hy hy'
      obtain ⟨x, hx, hx'⟩ := hkey
      exact (hfresh x hx (hx'.trans hy'.symm)).elim
    | release c' id' released' =>
      obtain ⟨x, hx, rfl⟩ := mem_map.1 hy
      rw [key_setRelease] at hy'
      have hother : setRelease c' id' released' x = x := by
        apply if_neg
        intro heq
        rw [hy'] at heq
        cases heq
        exact hrelease c id released released' rfl rfl
      rw [hother]
      exact hreleased x hx hy'
    | _ => exact hreleased y hy hy'
  | exclusion row | vault row => trivial

/-- Statements in the order of the chain: a mark follows the row that it marks, and a receipt is released once, after it
is recorded. -/
structure Ordered (sts : List Statement) : Prop where
  mark : ∀ pre place post, sts = pre ++ .markProxyDeployment place :: post →
    ∃ row, Statement.event row ∈ pre ∧ row.key = adminKey place
  release : ∀ pre c id released post, sts = pre ++ .release c id released :: post →
    (∃ row, Statement.receipt row ∈ pre ∧ row.key = (c, id)) ∧ ∀ released', Statement.release c id released' ∉ pre
  receipt : ∀ row, Statement.receipt row ∈ sts → row.release = none

private theorem Ordered.left {sts sts' : List Statement} (h : Ordered (sts ++ sts')) : Ordered sts where
  mark := by
    intro pre place post heq
    exact h.mark pre place (post ++ sts') (by simp [heq])
  release := by
    intro pre c id released post heq
    exact h.release pre c id released (post ++ sts') (by simp [heq])
  receipt := fun row hrow => h.receipt row (mem_append_left _ hrow)

theorem Ordered.of_isPrefixOf {sts sts' : List Statement} (h : Ordered sts') (hp : sts <+: sts') : Ordered sts := by
  obtain ⟨rest, rfl⟩ := hp
  exact h.left

theorem absorbed_execs (h : Ordered sts) : ∀ st ∈ sts, st.Absorbed (execs timestampOf sts) := by
  induction sts using reverseRecOn with
  | nil => simp
  | append_singleton sts last ih =>
    have ih := ih h.left
    intro st hst
    rw [execs_append_singleton]
    rw [mem_append, mem_singleton] at hst
    obtain hst | rfl := hst
    · apply (ih st hst).step
      rintro c id released released' rfl rfl
      exact (h.release sts c id released' [] rfl).2 released hst
    apply absorbed_execTables
    cases st with
    | markProxyDeployment place =>
      obtain ⟨row, hrow, hkey⟩ := h.mark sts place [] rfl
      obtain ⟨x, hx, hx'⟩ := ih _ hrow
      exact ⟨x, hx, hx'.trans hkey⟩
    | release c id released =>
      obtain ⟨⟨row, hrow, hkey⟩, -⟩ := h.release sts c id released [] rfl
      obtain ⟨x, hx, hx'⟩ := ih _ hrow
      exact ⟨x, hx, hx'.trans hkey⟩
    | _ => trivial

private theorem exists_release (h : Ordered sts) {r : ReceiptRow} (hr : r ∈ (execs timestampOf sts).receipts)
    {released : Release} (hreleased : r.release = some released) :
    ∃ released', release r.contractAddress r.receiptId released' ∈ sts := by
  induction sts using reverseRecOn generalizing r with
  | nil => cases hr
  | append_singleton sts last ih =>
    rw [execs_append_singleton] at hr
    have hinit : ∀ r ∈ (execs timestampOf sts).receipts, r.release = some released →
        ∃ released', Statement.release r.contractAddress r.receiptId released' ∈ sts ++ [last] := by
      intro r hr hreleased
      obtain ⟨released', hmem⟩ := ih h.left hr hreleased
      exact ⟨released', mem_append_left _ hmem⟩
    cases last with
    | receipt row =>
      obtain hr | rfl := mem_of_mem_insertNew hr
      · exact hinit r hr hreleased
      rw [h.receipt r (by simp)] at hreleased
      cases hreleased
    | release c id released' =>
      obtain ⟨x, hx, rfl⟩ := mem_map.1 hr
      unfold setRelease at hreleased ⊢
      split at hreleased
      · rename_i hkey
        rw [if_pos hkey]
        simp only [ReceiptRow.key, Prod.mk.injEq] at hkey
        exact ⟨released', by simp [hkey]⟩
      rename_i hkey
      rw [if_neg hkey]
      exact hinit x hx hreleased
    | _ => exact hinit r hr hreleased

variable {root : Int}

private theorem upTo_execs (h : Ordered sts) (hblocks : ∀ st ∈ sts, (st.blockNumber : Int) ≤ root) :
    (execs timestampOf sts).UpTo root := by
  induction sts using reverseRecOn with
  | nil => exact Tables.upTo_empty
  | append_singleton sts last ih =>
    rw [execs_append_singleton]
    apply (ih h.left fun st hst => hblocks st (mem_append_left _ hst)).exec (hblocks last (by simp))
    rintro row rfl
    exact h.receipt row (by simp)

theorem deleteAboveBlock_execs {sts above : List Statement} (h : Ordered (sts ++ above))
    (hblocks : ∀ st ∈ sts, (st.blockNumber : Int) ≤ root) (habove : ∀ st ∈ above, root < (st.blockNumber : Int)) :
    (execs timestampOf (sts ++ above)).deleteAboveBlock root = execs timestampOf sts := by
  induction above using reverseRecOn with
  | nil =>
    rw [append_nil] at h ⊢
    exact (upTo_execs h hblocks).deleteAboveBlock
  | append_singleton above last ih =>
    rw [← append_assoc] at h ⊢
    rw [execs_append_singleton, deleteAboveBlock_execTables (habove last (by simp))]
    · exact ih h.left fun st hst => habove st (mem_append_left _ hst)
    · rintro c id released rfl r hr hkey
      cases hreleased : r.release with
      | none => rfl
      | some released' =>
        obtain ⟨released'', hmem⟩ := exists_release h.left hr hreleased
        simp only [ReceiptRow.key, Prod.mk.injEq] at hkey
        rw [hkey.1, hkey.2] at hmem
        exact ((h.release _ c id released [] rfl).2 released'' hmem).elim

end RobotMoney.Indexer
