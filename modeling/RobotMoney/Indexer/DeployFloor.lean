import RobotMoney.Evm.Machine
import RobotMoney.Indexer.Tick

/-!
# The deploy floor (`resolve_deploy_floor`)

The first block worth reading is the lowest deployment block of the configured contracts.  The indexer searches for it
with `eth_getCode`, which a node answers only from the first block that it still serves, and remembers the answers.  A
call that fails tells nothing, and the search gives up rather than guess.

* The search finds the lowest block with code, or meets a call that failed (`searchLowestCodeBlock_spec`).
* A remembered block is never above both the deployment and what the node serves (`Remembers`), whatever failed.
* So the floor is never above the lowest deployment and what the node serves (`deploy_floor_skips_nothing`), except
where the operator has set it (`start_block_skips`).
-/

namespace RobotMoney.Indexer

open Evm List Prod Function

/-- `RpcError`; of the texts only that of a server's answer is read. -/
inductive RpcError where
  | transport
  | server (message : String)
  | decode
  | refused
  deriving DecidableEq, Repr

def isBelowHistory (message : String) : Bool :=
  let m := message.toList.map Char.toLower
  ["blockoutofrange", "not found", "-32602"].any fun marker => decide (marker.toList <:+: m)

inductive CodeProbe where
  | present
  | empty
  | belowHistory
  | unusable
  deriving DecidableEq, Repr

def classifyCodeProbe : Except RpcError (List UInt8) → CodeProbe
  | .ok code => if code = [] then .empty else .present
  | .error (.server message) => if isBelowHistory message then .belowHistory else .unusable
  | .error _ => .unusable

/-- The loop of `search_lowest_code_block`. -/
def searchCode (probe : Nat → CodeProbe) (lo hi : Nat) : Option Nat :=
  if lo < hi then
    let mid := lo + (hi - lo) / 2
    match probe mid with
    | .present => searchCode probe lo mid
    | .empty | .belowHistory => searchCode probe (mid + 1) hi
    | .unusable => none
  else some lo
termination_by hi - lo

def searchLowestCodeBlock (head : Nat) (probe : Nat → CodeProbe) : Option Nat := searchCode probe 0 head

/-- Why a tick asks for the code of a contract; a second time to confirm a history boundary. -/
inductive Ask where
  | check (again : Bool)
  | head
  | search (again : Bool)
  deriving DecidableEq, Repr

/-- What one tick gets to hear: the answers of the node, and which calls of the database fail. -/
structure Replies where
  getCodeAt : Ask → Address → (block : Nat) → Except RpcError (List UInt8)
  blockNumber : Except RpcError Nat
  readFails : Address → Bool
  clearFails : Address → Bool
  upsertFails : Address → Bool

def confirmedProbe (getCode : Bool → Nat → Except RpcError (List UInt8)) (block : Nat) : CodeProbe :=
  match classifyCodeProbe (getCode false block) with
  | .belowHistory =>
    match classifyCodeProbe (getCode true block) with
    | .belowHistory => .belowHistory
    | _ => .unusable
  | first => first

inductive DeployBlock where
  | atBlock (block : Nat)
  | noCode
  | undetermined
  deriving DecidableEq, Repr

def detectDeployBlock (r : Replies) (address : Address) (head : Nat) : DeployBlock :=
  match classifyCodeProbe (r.getCodeAt .head address head) with
  | .present =>
    match searchLowestCodeBlock head (confirmedProbe fun again => r.getCodeAt (.search again) address) with
    | some block => .atBlock block
    | none => .undetermined
  | .empty => .noCode
  | _ => .undetermined

def foldDeployFloor (found : List Nat) (undetermined : Nat) : Option Nat :=
  if undetermined > 0 then none else found.min?

inductive FloorCheck where
  | holds
  | stale
  | historyMoved
  | inconclusive
  deriving DecidableEq, Repr

def classifyFloorCheck : CodeProbe → FloorCheck
  | .present => .holds
  | .empty => .stale
  | .belowHistory => .historyMoved
  | .unusable => .inconclusive

/-- The column `deployed_block`, where `none` stands for a missing row too. -/
abbrev DeployedBlocks := Address → Option Int

/-- `upsert_contract`: a stored block is never overwritten. -/
def upsertContract (rows : DeployedBlocks) (address : Address) (deployedBlock : Option Int) : DeployedBlocks :=
  match rows address with
  | some _ => rows
  | none => update rows address deployedBlock

def clearDeployedBlock (rows : DeployedBlocks) (address : Address) : DeployedBlocks := update rows address none

def Config.configuredContracts (cfg : Config) : List Address :=
  (cfg.gateway.toList ++ [cfg.vault] ++ cfg.registry.toList ++ cfg.routerGovernance.toList ++
    cfg.portfolioRouter.toList ++ cfg.consensusReceipt.toList ++ cfg.timelock.toList ++
      cfg.safe.toList).foldl pushNew []

/-- The contracts with a remembered block, and those without; `none` when a read fails. -/
def readDeployed (rows : DeployedBlocks) (r : Replies) : List Address → Option (List (Address × Nat) × List Address)
  | [] => some ([], [])
  | a :: contracts =>
    if r.readFails a then none
    else
      match readDeployed rows r contracts with
      | none => none
      | some (cached, toDetect) =>
        match rows a with
        | some block => if 0 ≤ block then some ((a, block.toNat) :: cached, toDetect) else some (cached, a :: toDetect)
        | none => some (cached, a :: toDetect)

/-- The lowest remembered block, if nothing is left to detect and the cursor has reached it. -/
def steadyFloor (cursor : Option Nat) (cached : List (Address × Nat)) (toDetect : List Address) : Option Nat :=
  if toDetect = [] then
    match cached.argmin snd with
    | some lowest => if cursor.any fun c => decide (lowest.2 ≤ c + 1) then some lowest.2 else none
    | none => none
  else none

/-- The lowest remembered block is checked, and all of them are forgotten when it is not readable any more. -/
def revalidate (rows : DeployedBlocks) (r : Replies) (cached : List (Address × Nat)) (toDetect : List Address) :
    DeployedBlocks × List (Address × Nat) × List Address :=
  match cached.argmin snd with
  | none => (rows, cached, toDetect)
  | some (address, block) =>
    match classifyFloorCheck (confirmedProbe (fun again => r.getCodeAt (.check again) address) block) with
    | .holds | .inconclusive => (rows, cached, toDetect)
    | .stale | .historyMoved =>
      (cached.foldl (fun rows c => if r.clearFails c.1 then rows else clearDeployedBlock rows c.1) rows, [],
        toDetect ++ cached.map fst)

/-- The detection so far. -/
structure Detection where
  rows : DeployedBlocks
  found : List Nat
  undetermined : Nat

def detectNext (r : Replies) (head : Nat) (s : Detection) (address : Address) : Detection :=
  match detectDeployBlock r address head with
  | .atBlock block =>
    { s with
      rows := if r.upsertFails address then s.rows
        else upsertContract s.rows address (some ((min block (2 ^ 63 - 1) : Nat) : Int))
      found := s.found ++ [block] }
  | .noCode => s
  | .undetermined => { s with undetermined := s.undetermined + 1 }

def detectFloor (rows : DeployedBlocks) (r : Replies) (cached : List (Address × Nat)) (toDetect : List Address) :
    DeployedBlocks × Nat :=
  if toDetect = [] then (rows, (foldDeployFloor (cached.map snd) 0).getD 0)
  else
    match r.blockNumber with
    | .error _ => (rows, 0)
    | .ok head =>
      let s := toDetect.foldl (detectNext r head) ⟨rows, cached.map snd, 0⟩
      (s.rows, (foldDeployFloor s.found s.undetermined).getD 0)

/-- `resolve_deploy_floor`, with `INDEXER_START_BLOCK`: the rows after it, and the floor. -/
def resolveDeployFloor (rows : DeployedBlocks) (r : Replies) (startBlock : Option Nat) (cfg : Config)
    (storedCursor : Option Nat) : DeployedBlocks × Nat :=
  match startBlock with
  | some block => (rows, block)
  | none =>
    if cfg.configuredContracts = [] then (rows, 0)
    else
      match readDeployed rows r cfg.configuredContracts with
      | none => (rows, 0)
      | some (cached, toDetect) =>
        match steadyFloor storedCursor cached toDetect with
        | some floor => (rows, floor)
        | none =>
          let (rows, cached, toDetect) := revalidate rows r cached toDetect
          detectFloor rows r cached toDetect

def MonotoneProbe (probe : Nat → CodeProbe) : Prop :=
  ∀ a b, a ≤ b → probe a = .present → probe b = .present ∨ probe b = .unusable

variable {probe : Nat → CodeProbe} {a : Address} {done contracts toDetect : List Address} {s : Detection}
  {cached : List (Address × Nat)}

private theorem MonotoneProbe.below (hmono : MonotoneProbe probe) {mid : Nat} (hpresent : probe mid ≠ .present)
    (hunusable : probe mid ≠ .unusable) : ∀ n < mid + 1, probe n ≠ .present := by
  intro n hn hcode
  rcases hmono n mid (by omega) hcode with h | h
  · exact hpresent h
  · exact hunusable h

private theorem searchCode_spec (hmono : MonotoneProbe probe) (lo hi : Nat) (hle : lo ≤ hi)
    (hlo : ∀ n < lo, probe n ≠ .present) (hhi : probe hi = .present) :
    (∃ b, searchCode probe lo hi = some b ∧ IsLeast {n | probe n = .present} b) ∨
      (searchCode probe lo hi = none ∧ ∃ n < hi, probe n = .unusable) := by
  fun_induction searchCode probe lo hi with
  | case1 lo hi hlt mid hmid ih =>
    rcases ih (by omega) hlo hmid with hfound | ⟨hnone, n, hn, hunusable⟩
    · exact Or.inl hfound
    · exact Or.inr ⟨hnone, n, by omega, hunusable⟩
  | case2 lo hi hlt mid hmid ih | case3 lo hi hlt mid hmid ih =>
    exact ih (by omega) (hmono.below (by simp [hmid]) (by simp [hmid])) hhi
  | case4 lo hi hlt mid hmid =>
    exact Or.inr ⟨rfl, mid, by omega, hmid⟩
  | case5 lo hi hge =>
    have heq : lo = hi := by omega
    subst heq
    refine Or.inl ⟨lo, rfl, hhi, fun n hn => ?_⟩
    by_contra hlt
    exact hlo n (by omega) hn

private theorem searchLowestCodeBlock_spec (hmono : MonotoneProbe probe) {head : Nat} (hhead : probe head = .present) :
    (∃ b, searchLowestCodeBlock head probe = some b ∧ IsLeast {n | probe n = .present} b) ∨
      (searchLowestCodeBlock head probe = none ∧ ∃ n < head, probe n = .unusable) :=
  searchCode_spec hmono 0 head (Nat.zero_le _) (fun n hn => absurd hn (Nat.not_lt_zero n)) hhead

/-- The replies of one tick are those of a chain on which a contract has code from its block in `deploy` on, and of a
node at the block `head` that has pruned only what is below `servable`.  A call may always fail, and a single reply
about pruned history may be wrong. -/
structure Truthful (deploy : Address → Option Nat) (head servable : Nat) (r : Replies) : Prop where
  head : ∀ n, r.blockNumber = .ok n → n = head
  present : ∀ ask a n, classifyCodeProbe (r.getCodeAt ask a n) = .present → ∃ d, deploy a = some d ∧ d ≤ n
  empty : ∀ ask a n, classifyCodeProbe (r.getCodeAt ask a n) = .empty → ∀ d, deploy a = some d → n < d
  pruned : ∀ a n, (classifyCodeProbe (r.getCodeAt (.search false) a n) = .belowHistory →
    classifyCodeProbe (r.getCodeAt (.search true) a n) = .belowHistory → n < servable)

def Remembers (deploy : Address → Option Nat) (head servable : Nat) (a : Address) (block : Nat) : Prop :=
  ∃ d, deploy a = some d ∧ d ≤ head ∧ block ≤ max servable d

def RowsOk (deploy : Address → Option Nat) (head servable : Nat) (rows : DeployedBlocks) : Prop :=
  ∀ a block, rows a = some block → Remembers deploy head servable a block.toNat

variable {deploy : Address → Option Nat} {head servable : Nat} {r : Replies} {rows : DeployedBlocks}

private theorem Remembers.mono {block block' head' servable' : Nat} (h : Remembers deploy head servable a block)
    (hblock : block' ≤ block) (hhead : head ≤ head') (hservable : servable ≤ servable') :
    Remembers deploy head' servable' a block' := by
  obtain ⟨d, hd, hle, hmax⟩ := h
  exact ⟨d, hd, by omega, by omega⟩

private theorem searchCode_le (h : Truthful deploy head servable r) {d : Nat} (hd : deploy a = some d)
    {lo hi b : Nat} (hle : lo ≤ max servable d)
    (hb : searchCode (confirmedProbe fun again => r.getCodeAt (.search again) a) lo hi = some b) :
    b ≤ max servable d := by
  fun_induction searchCode (confirmedProbe fun again => r.getCodeAt (.search again) a) lo hi with
  | case1 lo hi hlt mid hmid ih => exact ih hle hb
  | case2 lo hi hlt mid hmid ih =>
    refine ih ?_ hb
    have hempty : classifyCodeProbe (r.getCodeAt (.search false) a mid) = .empty := by
      unfold confirmedProbe at hmid
      split at hmid
      · split at hmid <;> cases hmid
      · exact hmid
    have hbelow := h.empty _ _ _ hempty d hd
    omega
  | case3 lo hi hlt mid hmid ih =>
    refine ih ?_ hb
    have hboth : mid < servable := by
      unfold confirmedProbe at hmid
      split at hmid
      · rename_i hfirst
        split at hmid
        · rename_i hsecond
          exact h.pruned a mid hfirst hsecond
        · cases hmid
      rename_i hfirst
      exact absurd hmid hfirst
    omega
  | case4 => cases hb
  | case5 lo hi hge =>
    cases hb
    exact hle

private theorem detectDeployBlock_spec (h : Truthful deploy head servable r) (a : Address) :
    (∀ b, detectDeployBlock r a head = .atBlock b → Remembers deploy head servable a b) ∧
      (detectDeployBlock r a head = .noCode → ∀ d, deploy a = some d → head < d) := by
  unfold detectDeployBlock
  split
  · rename_i hhead
    obtain ⟨d, hd, hle⟩ := h.present _ _ _ hhead
    split
    · rename_i block hsearch
      refine ⟨fun b hb => ?_, by simp⟩
      cases hb
      exact ⟨d, hd, hle, searchCode_le h hd (Nat.zero_le _) hsearch⟩
    · exact ⟨by simp, by simp⟩
  · rename_i hhead
    exact ⟨by simp, fun _ d hd => h.empty _ _ _ hhead d hd⟩
  · exact ⟨by simp, by simp⟩

private theorem RowsOk.update (h : RowsOk deploy head servable rows) {value : Option Int}
    (hvalue : ∀ block, value = some block → Remembers deploy head servable a block.toNat) :
    RowsOk deploy head servable (update rows a value) := by
  intro x block hx
  by_cases hxa : x = a
  · subst hxa
    rw [update_self] at hx
    exact hvalue block hx
  rw [update_of_ne hxa] at hx
  exact h x block hx

/-- The detection after the contracts `done`: every block found is one to remember, and a contract with code has one, or
some contract is undetermined. -/
structure Detected (deploy : Address → Option Nat) (head servable : Nat) (done : List Address) (s : Detection) :
    Prop where
  rows : RowsOk deploy head servable s.rows
  found : ∀ b ∈ s.found, ∃ a ∈ done, Remembers deploy head servable a b
  covered : ∀ a ∈ done, ∀ d, deploy a = some d → d ≤ head → 0 < s.undetermined ∨ ∃ b ∈ s.found, b ≤ max servable d

theorem Detected.next (h : Truthful deploy head servable r) (hs : Detected deploy head servable done s) (a : Address) :
    Detected deploy head servable (done ++ [a]) (detectNext r head s a) := by
  obtain ⟨hat, hnone⟩ := detectDeployBlock_spec h a
  have hfound : ∀ b ∈ s.found, ∃ x ∈ done ++ [a], Remembers deploy head servable x b := by
    intro b hb
    obtain ⟨x, hx, hremembers⟩ := hs.found b hb
    exact ⟨x, mem_append_left _ hx, hremembers⟩
  unfold detectNext
  split
  · rename_i block hdetect
    have hremembers := hat block hdetect
    refine ⟨?_, ?_, ?_⟩
    · show RowsOk deploy head servable (if r.upsertFails a then s.rows else
        upsertContract s.rows a (some ((min block (2 ^ 63 - 1) : Nat) : Int)))
      split
      · exact hs.rows
      unfold upsertContract
      split
      · exact hs.rows
      refine hs.rows.update fun stored hstored => ?_
      cases hstored
      exact hremembers.mono (by simp) le_rfl le_rfl
    · intro b hb
      rcases mem_append.1 hb with hb | hb
      · exact hfound b hb
      rw [mem_singleton.1 hb]
      exact ⟨a, by simp, hremembers⟩
    · intro x hx d hd hle
      rcases mem_append.1 hx with hx | hx
      · refine (hs.covered x hx d hd hle).imp_right ?_
        rintro ⟨b, hb, hbound⟩
        exact ⟨b, mem_append_left _ hb, hbound⟩
      rw [mem_singleton.1 hx] at hd
      obtain ⟨d', hd', -, hbound⟩ := hremembers
      have hsame : d' = d := Option.some.inj (hd'.symm.trans hd)
      exact Or.inr ⟨block, by simp, hsame ▸ hbound⟩
  · rename_i hdetect
    refine ⟨hs.rows, hfound, fun x hx d hd hle => ?_⟩
    rcases mem_append.1 hx with hx | hx
    · exact hs.covered x hx d hd hle
    rw [mem_singleton.1 hx] at hd
    exact absurd (hnone hdetect d hd) (Nat.not_lt.2 hle)
  · exact ⟨hs.rows, hfound, fun x hx d hd hle => Or.inl (Nat.succ_pos _)⟩

private theorem Detected.all (h : Truthful deploy head servable r) (hs : Detected deploy head servable done s)
    (toDetect : List Address) :
    Detected deploy head servable (done ++ toDetect) (toDetect.foldl (detectNext r head) s) := by
  induction toDetect generalizing done s with
  | nil => simpa using hs
  | cons a toDetect ih =>
    have hrest := ih (hs.next h a)
    rwa [append_assoc] at hrest

def lowestDeployment (deploy : Address → Option Nat) (head : Nat) (contracts : List Address) : Nat :=
  ((contracts.filterMap fun a => (deploy a).filter fun d => decide (d ≤ head)).min?).getD 0

private theorem Detected.floor_le (hs : Detected deploy head servable done s) (hdone : ∀ a, a ∈ done ↔ a ∈ contracts) :
    (foldDeployFloor s.found s.undetermined).getD 0 ≤ max servable (lowestDeployment deploy head contracts) := by
  unfold foldDeployFloor
  split
  · simp
  rename_i hdetermined
  unfold lowestDeployment
  cases hlowest : (contracts.filterMap fun a => (deploy a).filter fun d => decide (d ≤ head)).min? with
  | none =>
    -- no contract has code, so nothing is found
    rw [min?_eq_none_iff, filterMap_eq_nil_iff] at hlowest
    have hnone : s.found = [] := by
      refine eq_nil_iff_forall_not_mem.2 fun b hb => ?_
      obtain ⟨a, ha, d, hd, hle, -⟩ := hs.found b hb
      have hcode := hlowest a ((hdone a).1 ha)
      rw [hd] at hcode
      simp only [Option.filter_some, decide_eq_true_eq, hle, if_true, reduceCtorEq] at hcode
    rw [hnone]
    simp
  | some m =>
    have hm := min?_mem hlowest
    obtain ⟨a, ha, hfilter⟩ := mem_filterMap.1 hm
    obtain ⟨hd, hle⟩ := Option.filter_eq_some_iff.1 hfilter
    obtain hundetermined | ⟨b, hb, hbound⟩ := hs.covered a ((hdone a).2 ha) m hd (by simpa using hle)
    · exact absurd hundetermined hdetermined
    obtain ⟨floor, hfloor⟩ : ∃ floor, s.found.min? = some floor := by
      rw [← Option.isSome_iff_exists, isSome_min?_iff]
      exact ne_nil_of_mem hb
    have hle := (min?_eq_some_iff.1 hfloor).2 b hb
    rw [hfloor, Option.getD_some, Option.getD_some]
    exact hle.trans hbound

private theorem readDeployed_spec (hrows : RowsOk deploy head servable rows)
    (h : readDeployed rows r contracts = some (cached, toDetect)) :
    (∀ a, a ∈ cached.map fst ∨ a ∈ toDetect ↔ a ∈ contracts) ∧
      ∀ c ∈ cached, Remembers deploy head servable c.1 c.2 := by
  induction contracts generalizing cached toDetect with
  | nil =>
    cases h
    simp
  | cons a contracts ih =>
    unfold readDeployed at h
    split at h
    · cases h
    split at h
    · cases h
    rename_i cached' toDetect' hrest
    obtain ⟨hmem, hremembers⟩ := ih hrest
    have hdetect : ∀ x, x ∈ cached'.map fst ∨ x ∈ a :: toDetect' ↔ x ∈ a :: contracts := by
      intro x
      rw [mem_cons, mem_cons, ← hmem]
      tauto
    split at h
    · rename_i block hblock
      split at h
      · cases h
        refine ⟨fun x => ?_, fun c hc => ?_⟩
        · rw [map_cons, mem_cons, mem_cons, ← hmem, or_assoc]
        · rcases mem_cons.1 hc with rfl | hc
          · exact hrows a block hblock
          · exact hremembers c hc
      cases h
      exact ⟨hdetect, hremembers⟩
    cases h
    exact ⟨hdetect, hremembers⟩

private theorem detected_cached (hrows : RowsOk deploy head servable rows)
    (hcached : ∀ c ∈ cached, Remembers deploy head servable c.1 c.2) :
    Detected deploy head servable (cached.map fst) ⟨rows, cached.map snd, 0⟩ where
  rows := hrows
  found := by
    intro b hb
    obtain ⟨c, hc, rfl⟩ := mem_map.1 hb
    exact ⟨c.1, mem_map_of_mem hc, hcached c hc⟩
  covered := by
    intro a ha d hd hle
    obtain ⟨c, hc, rfl⟩ := mem_map.1 ha
    obtain ⟨d', hd', -, hbound⟩ := hcached c hc
    have hsame : d' = d := Option.some.inj (hd'.symm.trans hd)
    exact Or.inr ⟨c.2, mem_map_of_mem hc, hsame ▸ hbound⟩

private theorem detectFloor_spec (h : Truthful deploy head servable r) (hrows : RowsOk deploy head servable rows)
    (hmem : ∀ a, a ∈ cached.map fst ∨ a ∈ toDetect ↔ a ∈ contracts)
    (hcached : ∀ c ∈ cached, Remembers deploy head servable c.1 c.2) :
    RowsOk deploy head servable (detectFloor rows r cached toDetect).1 ∧
      (detectFloor rows r cached toDetect).2 ≤ max servable (lowestDeployment deploy head contracts) := by
  have hstart := detected_cached hrows hcached
  unfold detectFloor
  split
  · rename_i hnone
    refine ⟨hrows, hstart.floor_le fun a => ?_⟩
    rw [← hmem, hnone]
    simp
  split
  · exact ⟨hrows, Nat.zero_le _⟩
  rename_i n hn
  have hhead := h.head n hn
  subst hhead
  have hall := hstart.all h toDetect
  refine ⟨hall.rows, hall.floor_le fun a => ?_⟩
  rw [mem_append, hmem]

section

variable (hrows : RowsOk deploy head servable rows)

include hrows

theorem rowsOk_clear (cached : List (Address × Nat)) : RowsOk deploy head servable
      (cached.foldl (fun rows c => if r.clearFails c.1 then rows else clearDeployedBlock rows c.1) rows) := by
  induction cached generalizing rows with
  | nil => exact hrows
  | cons c cached ih =>
    rw [foldl_cons]
    refine ih ?_
    split
    · exact hrows
    · exact hrows.update (by simp)

theorem revalidate_spec (hmem : ∀ a, a ∈ cached.map fst ∨ a ∈ toDetect ↔ a ∈ contracts)
    (hcached : ∀ c ∈ cached, Remembers deploy head servable c.1 c.2) :
    RowsOk deploy head servable (revalidate rows r cached toDetect).1 ∧
      (∀ a, a ∈ (revalidate rows r cached toDetect).2.1.map fst ∨ a ∈ (revalidate rows r cached toDetect).2.2 ↔
        a ∈ contracts) ∧ ∀ c ∈ (revalidate rows r cached toDetect).2.1, Remembers deploy head servable c.1 c.2 := by
  have hforgotten : ∀ a, a ∈ ([] : List (Address × Nat)).map fst ∨ a ∈ toDetect ++ cached.map fst ↔
      a ∈ contracts := by
    intro a
    rw [← hmem, mem_append]
    simp [or_comm]
  unfold revalidate
  split
  · exact ⟨hrows, hmem, hcached⟩
  split
  · exact ⟨hrows, hmem, hcached⟩
  · exact ⟨hrows, hmem, hcached⟩
  · exact ⟨rowsOk_clear hrows cached, hforgotten, by simp⟩
  · exact ⟨rowsOk_clear hrows cached, hforgotten, by simp⟩

theorem steadyFloor_spec {cursor : Option Nat} (hmem : ∀ a, a ∈ cached.map fst ∨ a ∈ toDetect ↔ a ∈ contracts)
    (hcached : ∀ c ∈ cached, Remembers deploy head servable c.1 c.2) {floor : Nat}
    (h : steadyFloor cursor cached toDetect = some floor) :
    floor ≤ max servable (lowestDeployment deploy head contracts) := by
  unfold steadyFloor at h
  split at h
  · rename_i hnone
    split at h
    · rename_i lowest hlowest
      split at h
      · cases h
        have hmin : (cached.map snd).min? = some lowest.2 := by
          refine min?_eq_some_iff.2 ⟨mem_map_of_mem (argmin_mem hlowest), fun b hb => ?_⟩
          obtain ⟨c, hc, rfl⟩ := mem_map.1 hb
          exact le_of_mem_argmin hc hlowest
        have hdone : ∀ a, a ∈ cached.map fst ↔ a ∈ contracts := fun a => by
          rw [← hmem, hnone]
          simp
        have hle := (detected_cached hrows hcached).floor_le hdone
        rwa [foldDeployFloor, if_neg (lt_irrefl 0), hmin, Option.getD_some] at hle
      · cases h
    · cases h
  · cases h

end

private theorem resolveDeployFloor_spec (h : Truthful deploy head servable r) (hrows : RowsOk deploy head servable rows)
    (startBlock : Option Nat) (cfg : Config) (cursor : Option Nat) :
    RowsOk deploy head servable (resolveDeployFloor rows r startBlock cfg cursor).1 ∧
      (startBlock = none → (resolveDeployFloor rows r startBlock cfg cursor).2 ≤
        max servable (lowestDeployment deploy head cfg.configuredContracts)) := by
  cases startBlock with
  | some block => exact ⟨hrows, by simp⟩
  | none =>
    unfold resolveDeployFloor
    dsimp only
    split
    · exact ⟨hrows, fun _ => Nat.zero_le _⟩
    split
    · exact ⟨hrows, fun _ => Nat.zero_le _⟩
    rename_i cached toDetect hread
    obtain ⟨hmem, hcached⟩ := readDeployed_spec hrows hread
    split
    · rename_i floor hsteady
      exact ⟨hrows, fun _ => steadyFloor_spec hrows hmem hcached hsteady⟩
    obtain ⟨hrows', hmem', hcached'⟩ := revalidate_spec (r := r) hrows hmem hcached
    obtain ⟨hafter, hfloor⟩ := detectFloor_spec h hrows' hmem' hcached'
    exact ⟨hafter, fun _ => hfloor⟩

/-- The node and the database: the head, the first block that the node serves, and the rows. -/
structure FloorState where
  head : Nat
  servable : Nat
  rows : DeployedBlocks

/-- Blocks are added and old ones pruned, or the indexer ticks. -/
inductive FloorCall where
  | mined (blocks pruned : Nat)
  | tick (startBlock : Option Nat) (cfg : Config) (storedCursor : Option Nat) (replies : Replies)

def floorStep (s : FloorState) : FloorCall → Except Empty FloorState
  | .mined blocks pruned => .ok { s with head := s.head + blocks, servable := s.servable + pruned }
  | .tick startBlock cfg storedCursor replies =>
    .ok { s with rows := (resolveDeployFloor s.rows replies startBlock cfg storedCursor).1 }

def ToldTruth (deploy : Address → Option Nat) (s : FloorState) : FloorCall → Prop
  | .mined .. => True
  | .tick _ _ _ replies => Truthful deploy s.head s.servable replies

private theorem rowsOk_run {s : FloorState} (hs : RowsOk deploy s.head s.servable s.rows) {calls : List FloorCall}
    (h : Along floorStep (ToldTruth deploy) s calls) :
    RowsOk deploy (run floorStep s calls).head (run floorStep s calls).servable (run floorStep s calls).rows := by
  refine Along.invariant (P := fun s => RowsOk deploy s.head s.servable s.rows) ?_ hs h
  rintro s call s' hs htold hstep
  cases call with
  | mined blocks pruned =>
    cases hstep
    intro a block ha
    exact (hs a block ha).mono le_rfl (Nat.le_add_right ..) (Nat.le_add_right ..)
  | tick startBlock cfg cursor replies =>
    cases hstep
    exact (resolveDeployFloor_spec htold hs startBlock cfg cursor).1

private theorem firstBlock_resolveCursorStart (cursor : Option Nat) (floor : Nat) :
    firstBlock (resolveCursorStart cursor floor) floor = firstBlock cursor floor := by
  cases cursor with
  | none => rfl
  | some li =>
    unfold resolveCursorStart
    dsimp only
    split
    · simp only [firstBlock, Option.map_none, Option.getD_none, Option.map_some, Option.getD_some]
      omega
    · rfl

/-- The search finds the lowest block with code unless a probe fails.  In any run of ticks on one chain, with calls that
fail and changing configurations, the floor is the operator's, if that is set, or else not above both the first block
that the node serves and the lowest deployment of a configured contract with code; and the tick starts at its cursor or
at that floor. -/
theorem deploy_floor_skips_nothing :
    (∀ (probe : Nat → CodeProbe) (head : Nat), MonotoneProbe probe → probe head = .present →
      (∃ b, searchLowestCodeBlock head probe = some b ∧ IsLeast {n | probe n = .present} b) ∨
        (searchLowestCodeBlock head probe = none ∧ ∃ n < head, probe n = .unusable)) ∧
      ∀ (deploy : Address → Option Nat) (head servable : Nat) (calls : List FloorCall) (startBlock : Option Nat)
        (cfg : Config) (cursor : Option Nat) (replies : Replies),
        Along floorStep (ToldTruth deploy) ⟨head, servable, fun _ => none⟩
            (calls ++ [.tick startBlock cfg cursor replies]) →
          let s := run floorStep ⟨head, servable, fun _ => none⟩ calls
          let floor := (resolveDeployFloor s.rows replies startBlock cfg cursor).2
          firstBlock (resolveCursorStart cursor floor) floor = firstBlock cursor floor ∧
            match startBlock with
            | some block => floor = block
            | none => floor ≤ max s.servable (lowestDeployment deploy s.head cfg.configuredContracts) := by
  refine ⟨fun probe head hmono hhead => searchLowestCodeBlock_spec hmono hhead, ?_⟩
  intro deploy head servable calls startBlock cfg cursor replies halong
  rw [along_append] at halong
  obtain ⟨hcalls, htold, -⟩ := halong
  have hrows := @rowsOk_run deploy ⟨head, servable, fun _ => none⟩ (by intro a block ha; cases ha) _ hcalls
  refine ⟨firstBlock_resolveCursorStart .., ?_⟩
  cases startBlock with
  | some block => rfl
  | none => exact (resolveDeployFloor_spec htold hrows none cfg cursor).2 rfl

/-- A vault at address 7, deployed in block 5, and a registry at address 9, deployed in block 8. -/
def twoContracts (a : Address) : Option Nat := if a = 7 then some 5 else if a = 9 then some 8 else none

def twoContractsConfig : Config := ⟨none, 7, some 9, none, none, none, none, none, 100, none, true⟩

def prunedNode : Replies where
  getCodeAt _ a n :=
    if n < 6 then .error (.server "header not found")
    else if (twoContracts a).any fun d => decide (d ≤ n) then .ok [0x60]
    else .ok []
  blockNumber := .ok 20
  readFails _ := false
  clearFails _ := false
  upsertFails _ := false

private theorem truthful_prunedNode : Truthful twoContracts 20 6 prunedNode := by
  have hbelow : classifyCodeProbe (.error (.server "header not found")) = .belowHistory := by decide +kernel
  refine ⟨fun n hn => ?_, fun ask a n h => ?_, fun ask a n h d hd => ?_, fun a n h _ => ?_⟩
  · cases hn
    rfl
  · simp only [prunedNode] at h
    split at h
    · rw [hbelow] at h
      cases h
    split at h
    · rename_i hcode
      cases hd : twoContracts a with
      | none =>
        rw [hd] at hcode
        cases hcode
      | some d =>
        rw [hd] at hcode
        exact ⟨d, rfl, by simpa using hcode⟩
    · cases h
  · simp only [prunedNode] at h
    split at h
    · rw [hbelow] at h
      cases h
    split at h
    · cases h
    rename_i hcode
    rw [hd] at hcode
    simpa using hcode
  · simp only [prunedNode] at h
    split at h
    · assumption
    split at h
    · cases h
    · cases h

theorem deploy_floor_skips_nothing_pruned :
    (resolveDeployFloor (fun _ => none) prunedNode none twoContractsConfig (some 2)).2 ≤ 6 :=
  (deploy_floor_skips_nothing.2 twoContracts 20 6 [] none twoContractsConfig (some 2) prunedNode
    ⟨truthful_prunedNode, trivial⟩).2.trans (by decide +kernel)

/-- With `INDEXER_START_BLOCK` the floor is above the deployment of the vault and all that the node has pruned. -/
theorem start_block_skips :
    ¬ ∀ (deploy : Address → Option Nat) (head servable : Nat) (calls : List FloorCall) (startBlock : Option Nat)
      (cfg : Config) (cursor : Option Nat) (replies : Replies),
      Along floorStep (ToldTruth deploy) ⟨head, servable, fun _ => none⟩
          (calls ++ [.tick startBlock cfg cursor replies]) →
        let s := run floorStep ⟨head, servable, fun _ => none⟩ calls
        (resolveDeployFloor s.rows replies startBlock cfg cursor).2 ≤
          max s.servable (lowestDeployment deploy s.head cfg.configuredContracts) := by
  intro h
  have hle := h twoContracts 20 6 [] (some 10) twoContractsConfig none prunedNode ⟨truthful_prunedNode, trivial⟩
  exact absurd hle (by decide +kernel)

end RobotMoney.Indexer
