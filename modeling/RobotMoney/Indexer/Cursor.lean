import RobotMoney.Indexer.Follow

/-!
# The cursor over a run

What a run of ticks has read is told by the chain of the last tick that wrote rows of a range, and by how far rows reach
(`Deployment.fetch`).  The headers stored are those of that chain (`Headed`), as long as the chain does not change above
the cursor where failed ticks have left rows (`Continues`); so the rows that a tick finds below its range are those of
its own chain (`Headed.agree_of_target`).
-/

namespace RobotMoney.Indexer

open Evm SqlTable List

variable {H : Type} [DecidableEq H] (d : Deployment H)

/-- A tick, with the chain that its rows are of and how far they reach; a tick without rows leaves the chain. -/
def Deployment.fetch (p : Progress H) (t : Tick) : Progress H :=
  let db := d.runOnce p.db t
  let rollbacks := (d.reorgRoot p.db t.chain).toList.length
  if t.failsAfter.any (· < rollbacks) then ⟨db, p.seen, p.reach⟩
  else
    match d.target p.db t.chain with
    | none => ⟨db, p.seen, d.reachRolled p t.chain⟩
    | some target =>
      if t.failsAfter.any (· ≤ rollbacks) then ⟨db, p.seen, d.reachRolled p t.chain⟩
      else ⟨db, t.chain, max (d.reachRolled p t.chain) (target + 1)⟩

/-- The chain of a tick has a genesis block.  If the tick reads a range without a rollback, and failed ticks have left
rows above the cursor, the chain has not changed in the blocks that those ticks read. -/
structure Deployment.Continues (p : Progress H) (t : Tick) : Prop where
  genesis : t.chain ≠ []
  agrees : d.reorgRoot p.db t.chain = none → (d.target p.db t.chain).isSome = true → d.nextBlock p.db < p.reach →
    Agree p.seen t.chain p.reach

/-- The headers are those of the chain, and that of the cursor is there. -/
structure Deployment.Headed (p : Progress H) : Prop where
  floor : d.deployFloor ≤ d.nextBlock p.db
  le : d.nextBlock p.db ≤ p.reach
  headers : ∀ x ∈ p.db.blocks, d.deployFloor ≤ x.blockNumber ∧ x.blockNumber < p.reach ∧
    d.headerAt p.seen x.blockNumber = some x
  cursor : d.CursorStored p.db

variable {d} {p : Progress H} {t : Tick} {c : Chain}

omit [DecidableEq H] in
theorem headed_init : d.Headed d.init := by
  have hnext : d.nextBlock (Db.empty : Db H) = d.deployFloor := by
    simp [Deployment.nextBlock, Db.lastIndexedBlock, Db.empty, firstBlock]
  refine ⟨by rw [Deployment.init, hnext], by rw [Deployment.init, hnext], by simp [Deployment.init, Db.empty], ?_⟩
  intro li hli
  simp [Deployment.init, Db.empty, Db.lastIndexedBlock] at hli

namespace Deployment.Headed

open List Option

omit [DecidableEq H] in
private theorem agree (h : d.Headed p) (hagree : Agree p.seen c p.reach) : d.Headed ⟨p.db, c, p.reach⟩ where
  floor := h.floor
  le := h.le
  headers := by
    intro x hx
    obtain ⟨hfloor, hbelow, hheader⟩ := h.headers x hx
    exact ⟨hfloor, hbelow, by rw [← hagree.headerAt hbelow, hheader]⟩
  cursor := h.cursor

omit [DecidableEq H] in
private theorem of_floor (h : d.Headed p) (hreach : p.reach = d.deployFloor) : d.Headed ⟨p.db, c, p.reach⟩ where
  floor := h.floor
  le := h.le
  headers := by
    intro x hx
    obtain ⟨hfloor, hbelow, -⟩ := h.headers x hx
    omega
  cursor := h.cursor

theorem rolledBack (h : d.Headed p) (c : Chain) : d.Headed ⟨d.rolledBack p.db c, p.seen, d.reachRolled p c⟩ ∧
    (d.rolledBack p.db c).lastIndexedBlock = d.lastIndexed p.db c ∧
    d.nextBlock (d.rolledBack p.db c) = d.fromBlock p.db c := by
  have hnext : (d.rolledBack p.db c).lastIndexedBlock = d.lastIndexed p.db c →
      d.nextBlock (d.rolledBack p.db c) = d.fromBlock p.db c := by
    intro hlast
    rw [Deployment.nextBlock, hlast, Deployment.fromBlock]
  cases hroot : d.reorgRoot p.db c with
  | none =>
    have hlast : (d.rolledBack p.db c).lastIndexedBlock = d.lastIndexed p.db c := by
      simp only [Deployment.rolledBack, hroot, (h.cursor.fromBlock_of_unchanged hroot).1]
    refine ⟨?_, hlast, hnext hlast⟩
    simp only [Deployment.rolledBack, Deployment.reachRolled, hroot]
    exact h
  | some root =>
    obtain ⟨hlast, hfrom, hfloor, hbelow, hcursor⟩ := h.cursor.rollback hroot
    have hlast' : (d.rolledBack p.db c).lastIndexedBlock = d.lastIndexed p.db c := by
      simp only [Deployment.rolledBack, hroot, hlast]
    have hnext' := hnext hlast'
    refine ⟨?_, hlast', hnext'⟩
    simp only [Deployment.rolledBack, Deployment.reachRolled, hroot] at hnext' ⊢
    refine ⟨by rw [hnext']; exact hfloor, hnext'.le, ?_, hcursor⟩
    intro x hx
    obtain ⟨hx, hblock⟩ := mem_filter.1 hx
    rw [survives_eq _ rfl, decide_eq_true_eq] at hblock
    obtain ⟨hfloor', -, hheader⟩ := h.headers x hx
    exact ⟨hfloor', by simp only; omega, hheader⟩

theorem agree_of_target (h : d.Headed p) (hcontinues : d.Continues p t) {target : Nat}
    (htarget : d.target p.db t.chain = some target) : Agree p.seen t.chain (d.reachRolled p t.chain) ∨
      (d.fromBlock p.db t.chain = d.deployFloor ∧ d.reachRolled p t.chain = d.deployFloor) := by
  have hheaders : ∀ x ∈ p.db.blocks, d.headerAt p.seen x.blockNumber = some x := fun x hx => (h.headers x hx).2.2
  cases hroot : d.reorgRoot p.db t.chain with
  | none =>
    have hreach : d.reachRolled p t.chain = p.reach := by simp only [reachRolled, hroot]
    rw [hreach]
    obtain hlt | heq := Nat.lt_or_eq_of_le h.le
    · exact .inl (hcontinues.agrees hroot (by rw [htarget]; rfl) hlt)
    -- the chain has the block of the cursor, so the check has compared the hashes
    have hcursor : ∀ li, p.db.lastIndexedBlock = some li → li < t.chain.length := by
      intro li hli
      obtain ⟨hfrom, hsafe, -, -⟩ := target_spec htarget
      rw [(h.cursor.fromBlock_of_unchanged hroot).2, nextBlock, hli] at hfrom
      simp only [firstBlock, map_some, getD_some, Chain.safeHead] at hfrom hsafe
      omega
    obtain hfloor | hagree := h.cursor.agree_of_unchanged hheaders hroot hcursor
    · exact .inr ⟨by rw [(h.cursor.fromBlock_of_unchanged hroot).2, hfloor], by omega⟩
    rw [heq] at hagree
    exact .inl hagree
  | some root =>
    have hreach : d.reachRolled p t.chain = d.fromBlock p.db t.chain := by simp only [reachRolled, hroot]
    rw [hreach]
    obtain ⟨-, -, -, -, hmatch⟩ := h.cursor.reorgRoot_spec hroot
    obtain ⟨-, hfrom, -, -, -⟩ := h.cursor.rollback hroot
    obtain heq | ⟨m, heq, -, hmatch⟩ := hmatch
    · exact .inr ⟨by omega, by omega⟩
    · exact .inl ((agree_of_hashMatches hheaders hmatch).symm.mono (by omega))

theorem rolledBack_chain (h : d.Headed p) (hcontinues : d.Continues p t) {target : Nat}
    (htarget : d.target p.db t.chain = some target) :
    d.Headed ⟨d.rolledBack p.db t.chain, t.chain, d.reachRolled p t.chain⟩ := by
  obtain hagree | ⟨-, hreach⟩ := h.agree_of_target hcontinues htarget
  · exact (h.rolledBack t.chain).1.agree hagree
  · exact (h.rolledBack t.chain).1.of_floor hreach

section Range

variable {db : Db H} {hi reach : Nat}

omit [DecidableEq H] in
private theorem headers_take {headers : List (HeaderRow H)} {lo : Nat} (hfloor : d.deployFloor ≤ lo) (hlt : lo < hi)
    (hdb : ∀ x ∈ db.blocks, d.deployFloor ≤ x.blockNumber ∧ x.blockNumber < reach ∧ d.headerAt c x.blockNumber = some x)
    (hheaders : headers <+: d.headerRows db c lo hi) : ∀ x ∈ insertHeaders db.blocks headers,
      d.deployFloor ≤ x.blockNumber ∧ x.blockNumber < max reach hi ∧ d.headerAt c x.blockNumber = some x := by
  intro x hx
  obtain hx | hx := mem_of_mem_insertHeaders hx
  · obtain ⟨hfloor', hbelow, hheader⟩ := hdb x hx
    exact ⟨hfloor', by omega, hheader⟩
  obtain ⟨hlo, hhi, hheader⟩ := headerAt_of_headerRows hlt (hheaders.subset hx)
  exact ⟨by omega, by omega, hheader⟩

omit [DecidableEq H] in
theorem take (h : d.Headed ⟨db, c, reach⟩) (hlt : d.nextBlock db < hi) (k : Nat) :
    d.Headed ⟨((d.rangeWrites db c (d.nextBlock db) hi).take k).foldl Write.exec db, c, max reach hi⟩ ∧
      d.nextBlock (((d.rangeWrites db c (d.nextBlock db) hi).take k).foldl Write.exec db) = d.nextBlock db := by
  have hblocks := fun x hx => @mem_blocks_foldl_rangeWrites _ d db c (d.nextBlock db) hi x hx k
  obtain ⟨headers, hheaders, sts, -, -, heq⟩ := @foldl_take_rangeWrites _ d c (d.nextBlock db) hi db k
  rw [heq] at hblocks ⊢
  refine ⟨⟨h.floor, Nat.le_trans h.le (Nat.le_max_left ..), headers_take h.floor hlt h.headers hheaders, ?_⟩, rfl⟩
  intro li hli
  obtain hbelow | ⟨hfloor, x, hx, hblock⟩ := h.cursor li hli
  · exact .inl hbelow
  · exact .inr ⟨hfloor, x, hblocks x hx, hblock⟩

omit [DecidableEq H] in
theorem range {target : Nat} (h : d.Headed ⟨db, c, reach⟩) (hle : d.nextBlock db ≤ target)
    (hlength : target + 1 ≤ c.length) {db' : Db H}
    (hdb' : db' = { (d.rangeWrites db c (d.nextBlock db) (target + 1)).foldl Write.exec db with
      runs := db.runs ++ [some target] }) :
    d.Headed ⟨db', c, max reach (target + 1)⟩ ∧ d.nextBlock db' = target + 1 := by
  have hfloor : d.deployFloor ≤ d.nextBlock db := h.floor
  have hlast : db'.lastIndexedBlock = some target := by
    refine @lastIndexedBlock_append _ db _ ?_ db' (by rw [hdb'])
    intro li hli
    simp only [nextBlock, hli, firstBlock, map_some, getD_some] at hle
    omega
  have hnext : d.nextBlock db' = target + 1 := by
    simp only [nextBlock, hlast, firstBlock, map_some, getD_some]
    omega
  obtain ⟨x, hx, hblock⟩ := exists_header_rangeWrites (d := d) db (Nat.lt_succ_of_le hle) hlength
  have hblocks : db'.blocks = insertHeaders db.blocks (d.headerRows db c (d.nextBlock db) (target + 1)) := by
    rw [hdb', rangeWrites, foldl_append, foldl_append, foldl_ledger, foldl_header, foldl_statement]
  have hx' : x ∈ db'.blocks := by rw [hdb']; exact hx
  refine ⟨⟨by simp only [hnext]; omega, by simp only [hnext]; omega, ?_, ?_⟩, hnext⟩
  · rw [hblocks]
    exact headers_take hfloor (Nat.lt_succ_of_le hle) h.headers (prefix_refl _)
  · intro li hli
    rw [hlast, some.injEq] at hli
    exact .inr ⟨by omega, x, hx', by omega⟩

omit [DecidableEq H] in
theorem idle (h : d.Headed p) {db' : Db H}
    (hdb' : db' = { p.db with runs := p.db.runs ++ [p.db.lastIndexedBlock] }) :
    d.Headed ⟨db', p.seen, p.reach⟩ ∧ d.nextBlock db' = d.nextBlock p.db := by
  have hlast : db'.lastIndexedBlock = p.db.lastIndexedBlock := lastIndexedBlock_append_self db' (by rw [hdb'])
  have hnext : d.nextBlock db' = d.nextBlock p.db := by rw [nextBlock, hlast, nextBlock]
  refine ⟨⟨by rw [hnext]; exact h.floor, by rw [hnext]; exact h.le, by rw [hdb']; exact h.headers, ?_⟩, hnext⟩
  intro li hli
  rw [hlast] at hli
  rw [hdb']
  exact h.cursor li hli

end Range

end Deployment.Headed

theorem fetch_of_unrolled (h : t.failsAfter.any (· < (d.reorgRoot p.db t.chain).toList.length) = true) :
    d.fetch p t = ⟨d.runOnce p.db t, p.seen, p.reach⟩ := if_pos h

section

variable (h : ¬t.failsAfter.any (· < (d.reorgRoot p.db t.chain).toList.length) = true)

include h

theorem fetch_of_rolledBack
    (hrange : d.target p.db t.chain = none ∨
      t.failsAfter.any (· ≤ (d.reorgRoot p.db t.chain).toList.length) = true) :
    d.fetch p t = ⟨d.runOnce p.db t, p.seen, d.reachRolled p t.chain⟩ := by
  unfold Deployment.fetch
  simp only
  rw [if_neg h]
  obtain htarget | honly := hrange
  · rw [htarget]
  split
  · rfl
  · rw [if_pos honly]

theorem fetch_of_range {target : Nat}
    (htarget : d.target p.db t.chain = some target)
    (hrange : ¬t.failsAfter.any (· ≤ (d.reorgRoot p.db t.chain).toList.length) = true) :
    d.fetch p t = ⟨d.runOnce p.db t, t.chain, max (d.reachRolled p t.chain) (target + 1)⟩ := by
  unfold Deployment.fetch
  simp only [htarget]
  rw [if_neg h, if_neg hrange]

end

/-- What a tick leaves: nothing new, the state after the reorg check, a part of a range, or a whole range. -/
theorem fetch_cases (h : d.Headed p) (hgenesis : t.chain ≠ []) :
    d.fetch p t = p ∨
    (∃ db', (db' = d.rolledBack p.db t.chain ∨
        db' = { d.rolledBack p.db t.chain with
          runs := (d.rolledBack p.db t.chain).runs ++ [(d.rolledBack p.db t.chain).lastIndexedBlock] }) ∧
      d.fetch p t = ⟨db', p.seen, d.reachRolled p t.chain⟩) ∨
    ∃ target, d.target p.db t.chain = some target ∧ ∃ db',
      ((∃ k, db' = ((d.rangeWrites (d.rolledBack p.db t.chain) t.chain (d.fromBlock p.db t.chain) (target + 1)).take
          k).foldl Write.exec (d.rolledBack p.db t.chain)) ∨
        target + 1 ≤ t.chain.length ∧ db' =
          { (d.rangeWrites (d.rolledBack p.db t.chain) t.chain (d.fromBlock p.db t.chain) (target + 1)).foldl
              Write.exec (d.rolledBack p.db t.chain) with
            runs := (d.rolledBack p.db t.chain).runs ++ [some target] }) ∧
      d.fetch p t = ⟨db', t.chain, max (d.reachRolled p t.chain) (target + 1)⟩ := by
  obtain ⟨-, hlast, hnext⟩ := h.rolledBack t.chain
  have hrollbacks : ((d.reorgRoot p.db t.chain).toList.map (@Write.rollback H)).length =
      (d.reorgRoot p.db t.chain).toList.length := length_map _
  unfold Deployment.fetch
  simp only
  split
  · -- not even the rollback
    rename_i hnone
    left
    cases hfails : t.failsAfter with
    | none =>
      rw [hfails] at hnone
      cases hnone
    | some k =>
      have hle : (d.reorgRoot p.db t.chain).toList.length ≤ 1 := by
        cases d.reorgRoot p.db t.chain <;> simp
      simp only [hfails, Option.any_some, decide_eq_true_eq] at hnone
      obtain rfl : k = 0 := by omega
      simp only [Deployment.runOnce, hfails, take_zero, foldl_nil]
  rename_i hrollback
  right
  cases htarget : d.target p.db t.chain with
  | none =>
    left
    refine ⟨_, ?_, rfl⟩
    cases hfails : t.failsAfter with
    | none =>
      right
      simp only [Deployment.runOnce, hfails, htarget, writes_of_none htarget, foldl_rollback, hlast]
    | some k =>
      left
      simp only [hfails, Option.any_some, decide_eq_true_eq, not_lt] at hrollback
      simp only [Deployment.runOnce, hfails, writes_of_none htarget]
      rw [take_of_length_le (by rwa [hrollbacks]), foldl_rollback]
  | some target =>
    simp only
    split
    · -- only the rollback
      rename_i honly
      refine .inl ⟨_, .inl ?_, rfl⟩
      cases hfails : t.failsAfter with
      | none =>
        rw [hfails] at honly
        cases honly
      | some k =>
        simp only [hfails, Option.any_some, decide_eq_true_eq, not_lt] at hrollback honly
        simp only [Deployment.runOnce, hfails, writes_of_target htarget]
        rw [take_append_of_le_length (by rw [hrollbacks]; exact honly),
          take_of_length_le (by rwa [hrollbacks]), foldl_rollback]
    rename_i honly
    refine .inr ⟨target, rfl, _, ?_, rfl⟩
    cases hfails : t.failsAfter with
    | none =>
      right
      obtain ⟨hfrom, hsafe, -, -⟩ := target_spec htarget
      constructor
      · have hpos := length_pos_iff.2 hgenesis
        unfold Chain.safeHead at hsafe
        omega
      · have hruns := @runs_foldl_rangeWrites _ d (d.rolledBack p.db t.chain) t.chain (d.fromBlock p.db t.chain)
          (target + 1) (d.rangeWrites (d.rolledBack p.db t.chain) t.chain (d.fromBlock p.db t.chain)
            (target + 1)).length
        rw [take_length] at hruns
        simp only [Deployment.runOnce, hfails, htarget, writes_of_target htarget, foldl_append, foldl_rollback,
          hruns]
    | some k =>
      left
      simp only [hfails, Option.any_some, decide_eq_true_eq, not_le] at honly
      refine ⟨k - (d.reorgRoot p.db t.chain).toList.length, ?_⟩
      simp only [Deployment.runOnce, hfails, writes_of_target htarget]
      rw [take_append, take_of_length_le (by rw [hrollbacks]; omega), foldl_append, foldl_rollback,
        hrollbacks]

theorem db_fetch (p : Progress H) (t : Tick) : (d.fetch p t).db = d.runOnce p.db t := by
  unfold Deployment.fetch
  simp only
  split
  · rfl
  split
  · rfl
  · split <;> rfl

theorem Deployment.Headed.fetch (h : d.Headed p) (hcontinues : d.Continues p t) : d.Headed (d.fetch p t) := by
  obtain ⟨hrolled, -, hnext⟩ := h.rolledBack t.chain
  obtain heq | ⟨db', rfl | hdb', heq⟩ | ⟨target, htarget, db', hdb', heq⟩ := fetch_cases h hcontinues.genesis
  · rw [heq]
    exact h
  · rw [heq]
    exact hrolled
  · rw [heq]
    exact (hrolled.idle hdb').1
  have hchain := h.rolledBack_chain hcontinues htarget
  have hfrom := (target_spec htarget).1
  rw [← hnext] at hdb' hfrom
  rw [heq]
  obtain ⟨k, rfl⟩ | ⟨hlength, hdb'⟩ := hdb'
  · exact (hchain.take (Nat.lt_succ_of_le hfrom) k).1
  · exact (hchain.range hfrom hlength hdb').1

end RobotMoney.Indexer
