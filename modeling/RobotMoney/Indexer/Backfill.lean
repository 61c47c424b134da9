import RobotMoney.Indexer.Database

/-!
# The backfill of registrations (migration 0031)

The migration computes the registrations of the rows that are there, with window functions over the rows of an agent;
the indexer computes that of a row when it inserts it, from the row before.  Both give the same (`backfill_eq_live`):
over an agent in order, `lag` is the row before, and the running maximum of the keys of the starts is the registration
of that row or, at a start, the key of the row itself.

The tables are those of one chain.
-/

namespace RobotMoney.Indexer

open Evm SqlTable List Option Prod Bool

/-- A row of `agent_policies` before the migration; old rows may lack an owner and a gateway. -/
structure PolicyEvent where
  place : LogPlace
  agent : Address
  owner : Option Address
  revoked : Bool
  fields : PolicyFields
  gateway : Option Address
  deriving DecidableEq, Repr

def PolicyEvent.pos (e : PolicyEvent) : Nat ×ₗ Nat := e.place.pos

/-- The columns of `PARTITION BY`. -/
def PolicyEvent.group (e : PolicyEvent) : Option Address × Address := (e.gateway, e.agent)

/-- The two tables: a row a log, with an index that fits into its column, and no registrations yet. -/
structure AgentTables where
  policies : List PolicyEvent
  deposits : List DepositRow
  policyKeys : (policies.map PolicyEvent.pos).Nodup
  depositKeys : (deposits.map DepositRow.pos).Nodup
  logIndex : ∀ e ∈ policies, e.place.logIndex < 2 ^ 31
  unassigned : ∀ r ∈ deposits, r.registration = none

inductive MigrationError where
  /-- `cannot derive agent registrations`. -/
  | missingHeader
  /-- `bigint out of range`. -/
  | bigintOutOfRange
  deriving DecidableEq, Repr

/-- A row of `ordered`.  The first row of a partition (`rn = 1`) has no row before it. -/
structure OrderedRow where
  event : PolicyEvent
  lag : Option PolicyEvent
  blockTs : Option Int

def orderedFrom (timestampOf : Nat → Option Int) : Option PolicyEvent → List PolicyEvent → List OrderedRow
  | _, [] => []
  | lag, e :: es => ⟨e, lag, timestampOf e.place.blockNumber⟩ :: orderedFrom timestampOf (some e) es

/-- `kinded`. -/
def OrderedRow.kind (o : OrderedRow) : PolicyKind :=
  if o.event.revoked then .revoked
  else
    match o.lag with
    | some p =>
      if p.revoked = false ∧ o.event.owner ≠ p.owner ∧ o.event.fields.validUntil = p.fields.validUntil ∧
          o.event.fields.maxPerPayment = p.fields.maxPerPayment ∧ o.event.fields.maxPerWindow = p.fields.maxPerWindow ∧
          o.event.fields.shareReceiver = p.fields.shareReceiver then .transferred
      else .authorized
    | none => .authorized

/-- The condition of `start_key`. -/
def OrderedRow.isStart (o : OrderedRow) : Bool :=
  match o.lag with
  | none => true
  | some p => p.revoked ||
      (o.kind = .authorized && match p.fields.validUntil, o.blockTs with
        | some v, some ts => decide (v < ts)
        | _, _ => false)

/-- A result of arithmetic on `BIGINT`. -/
def bigint (n : Nat) : Except MigrationError Nat := if n < 2 ^ 63 then .ok n else .error .bigintOutOfRange

/-- `start_key` of `starts`. -/
def OrderedRow.startKey (o : OrderedRow) : Except MigrationError (Option Nat) :=
  if o.isStart then do
    let high ← bigint (o.event.place.blockNumber * 4294967296)
    let key ← bigint (high + o.event.place.logIndex)
    return some key
  else return none

/-- `max(…) OVER`, up to the current row and without the nulls. -/
def runningMax : Option Nat → List (Option Nat) → List (Option Nat)
  | _, [] => []
  | m, k :: ks => m.merge max k :: runningMax (m.merge max k) ks

/-- A row with the columns that the update sets. -/
structure FilledRow where
  event : PolicyEvent
  kind : PolicyKind
  registration : Option (Nat × Nat)
  deriving DecidableEq, Repr

/-- The update of a row with its `reg_key`. -/
def OrderedRow.fill (o : OrderedRow) (regKey : Option Nat) : FilledRow :=
  ⟨o.event, o.kind, regKey.map fun key => (key / 4294967296, key % 4294967296)⟩

/-- `grouped` and the update, for one partition after `lag`, whose `reg_key` is `m`. -/
def fillFrom (m : Option Nat) (rows : List OrderedRow) : Except MigrationError (List FilledRow) := do
  let keys ← rows.mapM OrderedRow.startKey
  return List.zipWith OrderedRow.fill rows (runningMax m keys)

def partitionOf (policies : List PolicyEvent) (g : Option Address × Address) : List PolicyEvent :=
  (policies.filter fun e => decide (e.group = g)).insertionSort fun e e' => e.pos ≤ e'.pos

def groups (policies : List PolicyEvent) : List (Option Address × Address) := (policies.map PolicyEvent.group).dedup

def ordered (timestampOf : Nat → Option Int) (policies : List PolicyEvent) : List (List OrderedRow) :=
  (groups policies).map fun g => orderedFrom timestampOf none (partitionOf policies g)

/-- The prerequisite: only the first row of a partition may be in a block without a header. -/
def headersMissing (timestampOf : Nat → Option Int) (policies : List PolicyEvent) : Bool :=
  (ordered timestampOf policies).any fun rows => rows.any fun o => o.lag.isSome && o.blockTs.isNone

def previousFilled (rows : List FilledRow) (gateway : Option Address) (agent : Address) (place : LogPlace) :
    Option FilledRow :=
  (rows.filter fun r => decide (r.event.gateway = gateway ∧ r.event.agent = agent ∧ r.event.pos < place.pos)).argmax
    fun r => r.event.pos

def fillDeposit (rows : List FilledRow) (row : DepositRow) : DepositRow :=
  match previousFilled rows row.gateway row.agent row.place with
  | some p => if p.event.revoked then row else { row with registration := p.registration }
  | none => row

structure Filled where
  policies : List FilledRow
  deposits : List DepositRow

/-- Migration 0031.  Each row of `agent_policies` is in one partition, so the update sets all of them. -/
def backfill (timestampOf : Nat → Option Int) (t : AgentTables) : Except MigrationError Filled :=
  if headersMissing timestampOf t.policies then .error .missingHeader
  else do
    let rows ← (ordered timestampOf t.policies).mapM (fillFrom none)
    return ⟨rows.flatten, t.deposits.map (fillDeposit rows.flatten)⟩

/-- `insert_agent_policy`, with the columns that may be null. -/
def writeAgentPolicy (timestampOf : Nat → Option Int) (place : LogPlace) (agent : Address) (owner : Option Address)
    (revoked : Bool) (fields : PolicyFields) (gateway : Option Address) (policies : List PolicyRow) : List PolicyRow :=
  let kind := if revoked then PolicyKind.revoked else .authorized
  let prev := previousPolicy policies gateway agent place
  let own := (place.blockNumber, place.logIndex)
  let registration := if isStart prev kind (timestampOf place.blockNumber) then own
    else (prev.map PolicyRow.registration).getD own
  insertNew PolicyRow.pos ⟨place, agent, owner, revoked, fields, gateway, kind, registration⟩ policies

/-- `insert_agent_owner_transfer`, with the columns that may be null. -/
def writeOwnerTransfer (place : LogPlace) (agent : Address) (newOwner gateway : Option Address)
    (policies : List PolicyRow) : List PolicyRow :=
  let prev := previousPolicy policies gateway agent place
  insertNew PolicyRow.pos
    ⟨place, agent, newOwner, false, (prev.map PolicyRow.fields).getD ⟨none, none, none, none, none⟩, gateway,
      .transferred, (prev.map PolicyRow.registration).getD (place.blockNumber, place.logIndex)⟩ policies

/-- An event, of a kind that tells its writer. -/
inductive AgentEvent where
  | policy (event : PolicyEvent) (kind : PolicyKind)
  | deposit (row : DepositRow)

def AgentEvent.pos : AgentEvent → Nat ×ₗ Nat
  | .policy event _ => event.pos
  | .deposit row => row.pos

def AgentEvent.asPolicy : AgentEvent → Option (PolicyEvent × PolicyKind)
  | .policy event kind => some (event, kind)
  | .deposit _ => none

def AgentEvent.asDeposit : AgentEvent → Option DepositRow
  | .policy .. => none
  | .deposit row => some row

/-- The writer of an event of `agent_policies`. -/
def writePolicy (timestampOf : Nat → Option Int) (policies : List PolicyRow) (x : PolicyEvent × PolicyKind) :
    List PolicyRow :=
  match x.2 with
  | .transferred => writeOwnerTransfer x.1.place x.1.agent x.1.owner x.1.gateway policies
  | _ => writeAgentPolicy timestampOf x.1.place x.1.agent x.1.owner x.1.revoked x.1.fields x.1.gateway policies

def AgentEvent.write (timestampOf : Nat → Option Int) (s : List PolicyRow × List DepositRow) :
    AgentEvent → List PolicyRow × List DepositRow
  | .policy event kind => (writePolicy timestampOf s.1 (event, kind), s.2)
  | .deposit row => (s.1, insertAgentDeposit row s.1 s.2)

open AgentEvent

/-- The row that the migration and the writers agree on: the event, its kind, and the columns of its registration. -/
structure RegistrationColumns where
  place : LogPlace
  agent : Address
  gateway : Option Address
  revoked : Bool
  kind : PolicyKind
  registration : Option (Nat × Nat)
  deriving DecidableEq, Repr

def PolicyRow.columns (p : PolicyRow) : RegistrationColumns :=
  ⟨p.place, p.agent, p.gateway, p.revoked, p.eventKind, some p.registration⟩

def FilledRow.columns (r : FilledRow) : RegistrationColumns :=
  ⟨r.event.place, r.event.agent, r.event.gateway, r.event.revoked, r.kind, r.registration⟩

variable {timestampOf : Nat → Option Int} {policies tbl : List PolicyRow} {lag : Option PolicyEvent} {m : Option Nat}

private theorem perm_flatMap_filter {α κ : Type} [DecidableEq κ] {f : α → κ} {l : List α} {gs : List κ}
    (hnodup : gs.Nodup) (hmem : ∀ x ∈ l, f x ∈ gs) : l.Perm (gs.flatMap fun g => l.filter fun x =>
      decide (f x = g)) := by
  induction gs generalizing l with
  | nil =>
    have hnil : l = [] := eq_nil_iff_forall_not_mem.2 fun x hx => not_mem_nil (hmem x hx)
    rw [hnil]
    rfl
  | cons g gs ih =>
    rw [nodup_cons] at hnodup
    have hrest := ih hnodup.2 (l := l.filter fun x => !decide (f x = g)) fun x hx => by
      rw [mem_filter, not_eq_true', decide_eq_false_iff_not] at hx
      exact (mem_cons.1 (hmem x hx.1)).resolve_left hx.2
    rw [flatMap_cons]
    refine (filter_append_perm (fun x => decide (f x = g)) l).symm.trans (.append_left _ ?_)
    refine hrest.trans (.flatMap_left _ fun g' hg' => List.Perm.of_eq ?_)
    rw [List.filter_filter]
    refine filter_congr fun x _ => ?_
    by_cases hx : f x = g'
    · have hne : f x ≠ g := by
        rintro rfl
        exact hnodup.1 (hx ▸ hg')
      simp [hx, hx ▸ hne]
    · simp [hx]

private theorem argmax_map {α β γ : Type} [LinearOrder γ] (g : α → β) (f : β → γ) (l : List α) :
    (l.map g).argmax f = (l.argmax (f ∘ g)).map g := by
  induction l using reverseRecOn with
  | nil => rfl
  | append_singleton l a ih =>
    rw [map_append, map_cons, map_nil, argmax_concat, argmax_concat, ih]
    cases l.argmax (f ∘ g) with
    | none => rfl
    | some c =>
      simp only [map_some, Function.comp_apply]
      split <;> rfl

private theorem argmax_perm {α β : Type} [LinearOrder β] {f : α → β} {l l' : List α} (h : l.Perm l')
    (hnodup : (l.map f).Nodup) : l.argmax f = l'.argmax f := by
  cases hmax : l.argmax f with
  | none =>
    rw [argmax_eq_none] at hmax
    rw [hmax, nil_perm] at h
    rw [h, argmax_nil]
  | some x =>
    have hx := argmax_mem hmax
    refine (argmax_eq_of_newest (h.subset hx) fun y hy hne => ?_).symm
    have hy := h.symm.subset hy
    refine lt_of_le_of_ne (le_of_mem_argmax hy hmax) fun heq => hne ?_
    exact inj_on_of_nodup_map hnodup hy hx heq

def rowOf (timestampOf : Nat → Option Int) (policies : List PolicyRow) (x : PolicyEvent × PolicyKind) : PolicyRow :=
  let prev := previousPolicy policies x.1.gateway x.1.agent x.1.place
  let own := (x.1.place.blockNumber, x.1.place.logIndex)
  match x.2 with
  | .transferred =>
    ⟨x.1.place, x.1.agent, x.1.owner, false, (prev.map PolicyRow.fields).getD ⟨none, none, none, none, none⟩,
      x.1.gateway, .transferred, (prev.map PolicyRow.registration).getD own⟩
  | _ =>
    let kind := if x.1.revoked then PolicyKind.revoked else .authorized
    ⟨x.1.place, x.1.agent, x.1.owner, x.1.revoked, x.1.fields, x.1.gateway, kind,
      if isStart prev kind (timestampOf x.1.place.blockNumber) then own else (prev.map PolicyRow.registration).getD own⟩

private theorem writePolicy_eq (policies : List PolicyRow) (x : PolicyEvent × PolicyKind) :
    writePolicy timestampOf policies x = insertNew PolicyRow.pos (rowOf timestampOf policies x) policies := by
  obtain ⟨e, kind⟩ := x
  cases kind <;> rfl

@[simp] theorem place_rowOf (policies : List PolicyRow) (x : PolicyEvent × PolicyKind) :
    (rowOf timestampOf policies x).place = x.1.place := by
  obtain ⟨e, kind⟩ := x
  cases kind <;> rfl

@[simp] theorem pos_rowOf (policies : List PolicyRow) (x : PolicyEvent × PolicyKind) :
    (rowOf timestampOf policies x).pos = x.1.pos := by
  rw [PolicyRow.pos, place_rowOf, PolicyEvent.pos]

def PolicyRow.agentGroup (p : PolicyRow) : Option Address × Address := (p.gateway, p.agent)

@[simp] theorem agentGroup_rowOf (policies : List PolicyRow) (x : PolicyEvent × PolicyKind) :
    (rowOf timestampOf policies x).agentGroup = x.1.group := by
  obtain ⟨e, kind⟩ := x
  cases kind <;> rfl

private theorem previousPolicy_filter (policies : List PolicyRow) (e : PolicyEvent) :
    previousPolicy (policies.filter fun p => decide (p.agentGroup = e.group)) e.gateway e.agent e.place =
      previousPolicy policies e.gateway e.agent e.place := by
  unfold previousPolicy
  rw [List.filter_filter]
  congr 1
  refine List.filter_congr fun p _ => ?_
  rw [← decide_and, decide_eq_decide, PolicyRow.agentGroup, PolicyEvent.group, mk.injEq]
  constructor
  · exact And.left
  · rintro ⟨hgateway, hagent, hlt⟩
    exact ⟨⟨hgateway, hagent, hlt⟩, hgateway, hagent⟩

private theorem rowOf_filter (policies : List PolicyRow) (x : PolicyEvent × PolicyKind) :
    rowOf timestampOf (policies.filter fun p =>
      decide (p.agentGroup = x.1.group)) x = rowOf timestampOf policies x := by
  simp only [rowOf, previousPolicy_filter]

variable {xs : List (PolicyEvent × PolicyKind)} {x : PolicyEvent × PolicyKind}

private theorem writePolicy_of_fresh
    (htbl : tbl.map PolicyRow.pos = xs.map fun x => x.1.pos) (hnodup : ((xs ++ [x]).map fun x => x.1.pos).Nodup) :
    writePolicy timestampOf tbl x = tbl ++ [rowOf timestampOf tbl x] := by
  rw [map_append, nodup_append] at hnodup
  rw [writePolicy_eq, insertNew_of_fresh]
  intro p hp heq
  have hp := mem_map_of_mem (f := PolicyRow.pos) hp
  rw [htbl, heq, pos_rowOf] at hp
  exact hnodup.2.2 _ hp _ (by simp) rfl

theorem map_pos_foldl_writePolicy {xs : List (PolicyEvent × PolicyKind)} (hnodup : (xs.map fun x => x.1.pos).Nodup) :
    (xs.foldl (writePolicy timestampOf) []).map PolicyRow.pos = xs.map fun x => x.1.pos := by
  induction xs using reverseRecOn with
  | nil => rfl
  | append_singleton xs x ih =>
    have ih := ih (by rw [map_append, nodup_append] at hnodup; exact hnodup.1)
    rw [foldl_append, foldl_cons, foldl_nil, writePolicy_of_fresh ih hnodup, map_append, ih]
    simp

private theorem foldl_writePolicy_append
    (hnodup : ((xs ++ [x]).map fun x => x.1.pos).Nodup) : (xs ++ [x]).foldl (writePolicy timestampOf) [] =
      xs.foldl (writePolicy timestampOf) [] ++ [rowOf timestampOf (xs.foldl (writePolicy timestampOf) []) x] := by
  have hxs : (xs.map fun x => x.1.pos).Nodup := by
    rw [map_append, nodup_append] at hnodup
    exact hnodup.1
  rw [foldl_append, foldl_cons, foldl_nil, writePolicy_of_fresh (map_pos_foldl_writePolicy hxs) hnodup]

private theorem filter_foldl_writePolicy (hnodup : (xs.map fun x => x.1.pos).Nodup) (g : Option Address × Address) :
    ((xs.foldl (writePolicy timestampOf) []).filter fun p => decide (p.agentGroup = g)) =
      (xs.filter fun x => decide (x.1.group = g)).foldl (writePolicy timestampOf) [] := by
  induction xs using reverseRecOn with
  | nil => rfl
  | append_singleton xs x ih =>
    have ih := ih (by rw [map_append, nodup_append] at hnodup; exact hnodup.1)
    rw [foldl_writePolicy_append hnodup, filter_append, filter_append, ih]
    by_cases hx : x.1.group = g
    · have hrow : ([rowOf timestampOf (xs.foldl (writePolicy timestampOf) []) x].filter
          fun p => decide (p.agentGroup = g)) = [rowOf timestampOf (xs.foldl (writePolicy timestampOf) []) x] := by
        simp [hx]
      have hevent : ([x].filter fun x => decide (x.1.group = g)) = [x] := by simp [hx]
      rw [hrow, hevent, foldl_writePolicy_append, ← rowOf_filter, hx, ih]
      refine hnodup.sublist (.map _ ?_)
      exact filter_sublist.append (.refl _)
    · simp [hx]

def regKey (block log : Nat) : Nat := block * 4294967296 + log

/-- The rows of a partition so far, seen from the next one: the newest row is that of `lag`, and `m` is the key of its
registration. -/
def Follows (tbl : List PolicyRow) (lag : Option PolicyEvent) (m : Option Nat) : Prop :=
  match lag with
  | none => tbl = [] ∧ m = none
  | some p => ∃ row ∈ tbl, (∀ r ∈ tbl, r ≠ row → r.pos < row.pos) ∧ row.pos = p.pos ∧ row.revoked = p.revoked ∧
      row.fields.validUntil = p.fields.validUntil ∧ m = some (regKey row.registration.1 row.registration.2) ∧
      row.registration.2 < 2 ^ 31 ∧
        regKey row.registration.1 row.registration.2 ≤ regKey p.place.blockNumber p.place.logIndex

/-- `start_key`, where it fits. -/
def OrderedRow.key (o : OrderedRow) : Option Nat :=
  if o.isStart then some (regKey o.event.place.blockNumber o.event.place.logIndex) else none

def OrderedRow.Overflows (o : OrderedRow) : Prop := o.isStart ∧ 2 ^ 31 ≤ o.event.place.blockNumber

instance (o : OrderedRow) : Decidable o.Overflows := inferInstanceAs (Decidable (_ ∧ _))

variable {block log : Nat}

theorem key_lt (hblock : block < 2 ^ 31) (hlog : log < 2 ^ 31) : block * 4294967296 + log < 2 ^ 63 := by omega

private theorem le_key (hblock : 2 ^ 31 ≤ block) : 2 ^ 63 ≤ block * 4294967296 := by omega

variable {n : Nat}

private theorem bigint_of_lt (h : n < 2 ^ 63) : bigint n = .ok n := if_pos h

private theorem bigint_of_ge (h : 2 ^ 63 ≤ n) : bigint n = .error .bigintOutOfRange := if_neg (Nat.not_lt.2 h)

variable {o : OrderedRow}

private theorem startKey_eq (hlog : o.event.place.logIndex < 2 ^ 31) :
    o.startKey = if o.Overflows then .error .bigintOutOfRange else .ok o.key := by
  unfold OrderedRow.startKey OrderedRow.key
  by_cases hstart : o.isStart = true
  · rw [if_pos hstart, if_pos hstart]
    by_cases hblock : o.event.place.blockNumber < 2 ^ 31
    · have hkey := key_lt hblock hlog
      have hhigh := (Nat.le_add_right _ o.event.place.logIndex).trans_lt hkey
      have hfits : ¬ o.Overflows := fun h => Nat.not_lt.2 h.2 hblock
      rw [if_neg hfits, bigint_of_lt hhigh, ok_bind, bigint_of_lt hkey, ok_bind, regKey, pure_eq_ok]
    have hhigh : o.Overflows := ⟨hstart, Nat.not_lt.1 hblock⟩
    rw [if_pos hhigh, bigint_of_ge (le_key hhigh.2), error_bind]
  have hfits : ¬ o.Overflows := fun h => hstart h.1
  rw [if_neg hstart, if_neg hstart, if_neg hfits, pure_eq_ok]

def filledFrom (m : Option Nat) (rows : List OrderedRow) : List FilledRow :=
  List.zipWith OrderedRow.fill rows (runningMax m (rows.map OrderedRow.key))

@[simp] theorem filledFrom_cons (o : OrderedRow) (rows : List OrderedRow) :
    filledFrom m (o :: rows) = o.fill (m.merge max o.key) :: filledFrom (m.merge max o.key) rows := rfl

private theorem fillFrom_eq {rows : List OrderedRow} (hlog : ∀ o ∈ rows, o.event.place.logIndex < 2 ^ 31) :
    fillFrom m rows = if ∃ o ∈ rows, o.Overflows then .error .bigintOutOfRange else .ok (filledFrom m rows) := by
  rw [fillFrom, mapM_eq_ite fun o ho => startKey_eq (hlog o ho)]
  split
  · rfl
  · rfl

private theorem OrderedRow.transferred (h : o.kind = .transferred) : o.event.revoked = false ∧
    ∃ p, o.lag = some p ∧ p.revoked = false ∧ o.event.fields.validUntil = p.fields.validUntil := by
  unfold OrderedRow.kind at h
  split at h
  · cases h
  rename_i hrevoked
  rw [not_eq_true] at hrevoked
  split at h
  · rename_i p hlag
    split at h
    · rename_i hsame
      exact ⟨hrevoked, p, hlag, hsame.1, hsame.2.2.1⟩
    · cases h
  · cases h

private theorem OrderedRow.kind_of_not_transferred (h : o.kind ≠ .transferred) :
    o.kind = if o.event.revoked then .revoked else .authorized := by
  unfold OrderedRow.kind at h ⊢
  split
  · rfl
  rename_i hrevoked
  rw [if_neg hrevoked] at h
  split at h
  · split at h
    · exact (h rfl).elim
    rename_i hdiffer
    simp only [if_neg hdiffer]
  · rfl

variable {e : PolicyEvent}

section

variable (h : Follows tbl lag m)

include h

theorem Follows.previousPolicy (hgroup : ∀ r ∈ tbl, r.agentGroup = e.group) (hlt : ∀ p, lag = some p → p.pos < e.pos) :
    (lag = none ∧ tbl = [] ∧ m = none ∧ Indexer.previousPolicy tbl e.gateway e.agent e.place = none) ∨
    ∃ p row, lag = some p ∧ Indexer.previousPolicy tbl e.gateway e.agent e.place = some row ∧ row.revoked = p.revoked ∧
      row.fields.validUntil = p.fields.validUntil ∧ m = some (regKey row.registration.1 row.registration.2) ∧
        row.registration.2 < 2 ^ 31 ∧
      regKey row.registration.1 row.registration.2 ≤ regKey p.place.blockNumber p.place.logIndex ∧
          ∀ r ∈ tbl, r.pos ≤ p.pos := by
  cases lag with
  | none =>
    obtain ⟨rfl, hm⟩ := h
    exact .inl ⟨rfl, rfl, hm, rfl⟩
  | some p =>
    obtain ⟨row, hrow, hnewest, hpos, hrevoked, hvalid, hm, hlog, hkey⟩ := h
    have hle : ∀ r ∈ tbl, r.pos ≤ p.pos := by
      intro r hr
      rw [← hpos]
      by_cases hne : r = row
      · rw [hne]
      · exact (hnewest r hr hne).le
    refine .inr ⟨p, row, rfl, ?_, hrevoked, hvalid, hm, hlog, hkey, hle⟩
    have hall : (tbl.filter fun r =>
        decide (r.gateway = e.gateway ∧ r.agent = e.agent ∧ r.pos < e.place.pos)) = tbl := by
      refine filter_eq_self.2 fun r hr => ?_
      have hsame := hgroup r hr
      rw [PolicyRow.agentGroup, PolicyEvent.group, mk.injEq] at hsame
      exact decide_eq_true ⟨hsame.1, hsame.2, (hle r hr).trans_lt (hlt p rfl)⟩
    rw [Indexer.previousPolicy, hall]
    exact argmax_eq_of_newest hrow hnewest

private theorem Follows.below (hgroup : ∀ r ∈ tbl, r.agentGroup = e.group)
    (hlt : ∀ p, lag = some p → p.pos < e.pos) : ∀ r ∈ tbl, r.pos < e.pos := by
  rcases h.previousPolicy hgroup hlt with ⟨-, rfl, -⟩ | ⟨p, -, rfl, -, -, -, -, -, -, hbelow⟩
  · simp
  · exact fun r hr => (hbelow r hr).trans_lt (hlt p rfl)

private theorem Follows.isStart (hgroup : ∀ r ∈ tbl, r.agentGroup = e.group)
    (hlt : ∀ p, lag = some p → p.pos < e.pos) {timestamp : Option Int} : (OrderedRow.mk e lag timestamp).isStart =
      Indexer.isStart (Indexer.previousPolicy tbl e.gateway e.agent e.place)
          (OrderedRow.mk e lag timestamp).kind timestamp := by
  rcases h.previousPolicy hgroup hlt with ⟨rfl, -, -, hprev⟩ | ⟨p, row, rfl, hprev, hrevoked, hvalid, -⟩
  · rw [hprev]
    rfl
  unfold OrderedRow.isStart Indexer.isStart
  rw [hprev]
  dsimp only
  exact hrevoked ▸ hvalid ▸ rfl

private theorem Follows.rowOf (hgroup : ∀ r ∈ tbl, r.agentGroup = e.group)
    (hlt : ∀ p, lag = some p → p.pos < e.pos) (ho : o = ⟨e, lag, timestampOf e.place.blockNumber⟩) :
    (Indexer.rowOf timestampOf tbl (e, o.kind)).columns = ⟨e.place, e.agent, e.gateway, e.revoked, o.kind,
      some (if o.isStart then (e.place.blockNumber, e.place.logIndex)
        else ((Indexer.previousPolicy tbl e.gateway e.agent e.place).map PolicyRow.registration).getD
          (e.place.blockNumber, e.place.logIndex))⟩ ∧
    (Indexer.rowOf timestampOf tbl (e, o.kind)).fields.validUntil = e.fields.validUntil := by
  have hstart : o.isStart = Indexer.isStart (Indexer.previousPolicy tbl e.gateway e.agent e.place) o.kind
      (timestampOf e.place.blockNumber) := by
    rw [ho]
    exact h.isStart hgroup hlt
  by_cases hkind : o.kind = .transferred
  · obtain ⟨hrevoked, p, hlag, hlive, hsame⟩ := OrderedRow.transferred hkind
    rw [ho] at hrevoked hlag hsame
    have hstart' : o.isStart = false := by
      rw [OrderedRow.isStart, hkind, ho]
      simp [show lag = some p from hlag, hlive]
    rcases h.previousPolicy hgroup hlt with ⟨hnone, -⟩ | ⟨p', row, hlag', hprev, -, hvalid, -⟩
    · rw [hnone] at hlag
      cases hlag
    have hp : p' = p := some.inj (hlag'.symm.trans hlag)
    rw [hp] at hvalid
    rw [hkind, hstart', hprev]
    refine ⟨?_, ?_⟩
    · simp [Indexer.rowOf, PolicyRow.columns, hprev, show e.revoked = false from hrevoked]
    · simp [Indexer.rowOf, hprev, hvalid, show e.fields.validUntil = p.fields.validUntil from hsame]
  have hown := OrderedRow.kind_of_not_transferred hkind
  have hevent : o.event = e := by rw [ho]
  rw [hevent] at hown
  rw [hstart]
  cases hrevoked : e.revoked with
  | true =>
    rw [hrevoked, if_pos rfl] at hown
    rw [hown]
    exact ⟨by simp [Indexer.rowOf, PolicyRow.columns, hrevoked], rfl⟩
  | false =>
    rw [hrevoked, if_neg Bool.false_ne_true] at hown
    rw [hown]
    exact ⟨by simp [Indexer.rowOf, PolicyRow.columns, hrevoked], rfl⟩

end

private theorem regKey_le {p : PolicyEvent} (hlt : p.pos < e.pos) (hp : p.place.logIndex < 2 ^ 31) :
    regKey p.place.blockNumber p.place.logIndex ≤ regKey e.place.blockNumber e.place.logIndex := by
  simp only [PolicyEvent.pos, LogPlace.pos, Prod.Lex.toLex_lt_toLex] at hlt
  unfold regKey
  rcases hlt with hblock | ⟨hblock, hlog⟩
  · omega
  rw [hblock]
  exact Nat.add_le_add_left hlog.le _

private theorem regKey_apart (hlog : log < 2 ^ 31) :
    (regKey block log / 4294967296, regKey block log % 4294967296) = (block, log) := by
  unfold regKey
  rw [mk.injEq]
  constructor <;> omega

/-- One row of a partition: the writer inserts what the update sets. -/
theorem Follows.step (h : Follows tbl lag m) (hgroup : ∀ r ∈ tbl, r.agentGroup = e.group)
    (hlt : ∀ p, lag = some p → p.pos < e.pos) (hlag : ∀ p, lag = some p → p.place.logIndex < 2 ^ 31)
    (hlog : e.place.logIndex < 2 ^ 31) (ho : o = ⟨e, lag, timestampOf e.place.blockNumber⟩) :
    (Indexer.rowOf timestampOf tbl (e, o.kind)).columns = (o.fill (m.merge max o.key)).columns ∧
      Follows (tbl ++ [Indexer.rowOf timestampOf tbl (e, o.kind)]) (some e) (m.merge max o.key) := by
  obtain ⟨hcolumns, hvalid⟩ := h.rowOf hgroup hlt ho
  have hevent : o.event = e := by rw [ho]
  -- The registration of the row, as the column of the update.
  obtain ⟨block, log, hreg, hmax, hsmall, hle⟩ : ∃ block log,
      (if o.isStart then (e.place.blockNumber, e.place.logIndex)
        else ((Indexer.previousPolicy tbl e.gateway e.agent e.place).map PolicyRow.registration).getD
          (e.place.blockNumber, e.place.logIndex)) = (block, log) ∧ m.merge max o.key = some (regKey block log) ∧
      log < 2 ^ 31 ∧ regKey block log ≤ regKey e.place.blockNumber e.place.logIndex := by
    unfold OrderedRow.key
    rcases h.previousPolicy hgroup hlt with ⟨rfl, -, rfl, -⟩ | ⟨p, row, rfl, hprev, -, -, rfl, hsmall, hle, -⟩
    · have hstart : o.isStart = true := by rw [ho]; rfl
      refine ⟨e.place.blockNumber, e.place.logIndex, if_pos hstart, ?_, hlog, le_rfl⟩
      rw [if_pos hstart, hevent]
      rfl
    have hle := hle.trans (regKey_le (hlt p rfl) (hlag p rfl))
    by_cases hstart : o.isStart = true
    · refine ⟨e.place.blockNumber, e.place.logIndex, if_pos hstart, ?_, hlog, le_rfl⟩
      rw [if_pos hstart, hevent]
      exact congrArg some (max_eq_right hle)
    refine ⟨row.registration.1, row.registration.2, ?_, ?_, hsmall, hle⟩
    · rw [if_neg hstart, hprev]
      rfl
    · rw [if_neg hstart]
      rfl
  rw [hreg] at hcolumns
  rw [hmax]
  constructor
  · rw [hcolumns]
    simp only [OrderedRow.fill, FilledRow.columns, hevent, map_some, regKey_apart hsmall]
  · have hregistration : (Indexer.rowOf timestampOf tbl (e, o.kind)).registration = (block, log) :=
      some.inj (congrArg RegistrationColumns.registration hcolumns)
    refine ⟨_, mem_append_right _ (mem_singleton_self _), ?_, pos_rowOf _ _, ?_, hvalid, ?_, ?_, ?_⟩
    · intro r hr hne
      rw [mem_append, mem_singleton] at hr
      rcases hr with hr | hr
      · rw [pos_rowOf]
        exact h.below hgroup hlt r hr
      · exact (hne hr).elim
    · exact congrArg RegistrationColumns.revoked hcolumns
    · rw [hregistration]
    · rw [hregistration]
      exact hsmall
    · rw [hregistration]
      exact hle

def OrderedRow.kinded (o : OrderedRow) : PolicyEvent × PolicyKind := (o.event, o.kind)

open OrderedRow

private theorem foldl_orderedFrom {es : List PolicyEvent} {g : Option Address × Address}
    (h : Follows tbl lag m) (hgroup : ∀ r ∈ tbl, r.agentGroup = g) (hes : ∀ e ∈ es, e.group = g)
    (hsorted : (lag.toList ++ es).Pairwise fun e e' => e.pos < e'.pos)
    (hlog : ∀ e ∈ lag.toList ++ es, e.place.logIndex < 2 ^ 31) :
    ∃ rows, ((orderedFrom timestampOf lag es).map kinded).foldl (writePolicy timestampOf) tbl = tbl ++ rows ∧
      rows.map PolicyRow.columns = (filledFrom m (orderedFrom timestampOf lag es)).map FilledRow.columns := by
  induction es generalizing tbl lag m with
  | nil => exact ⟨[], by simp [orderedFrom], by simp [orderedFrom, filledFrom]⟩
  | cons e es ih =>
    rw [orderedFrom]
    have hlt : ∀ p, lag = some p → p.pos < e.pos := by
      rintro p rfl
      exact (pairwise_cons.1 hsorted).1 e (by simp)
    have hlag : ∀ p, lag = some p → p.place.logIndex < 2 ^ 31 := by
      rintro p rfl
      exact hlog p (by simp)
    have hgroup' : ∀ r ∈ tbl, r.agentGroup = e.group := fun r hr => (hgroup r hr).trans (hes e (by simp)).symm
    obtain ⟨hcolumns, hnext⟩ := h.step hgroup' hlt hlag (hlog e (by simp)) rfl
    have hgroup'' : ∀ r ∈ tbl ++ [rowOf timestampOf tbl (kinded ⟨e, lag, timestampOf e.place.blockNumber⟩)],
        r.agentGroup = g := by
      intro r hr
      rw [mem_append, mem_singleton] at hr
      rcases hr with hr | rfl
      · exact hgroup r hr
      rw [agentGroup_rowOf]
      exact hes e (by simp)
    obtain ⟨rows, hfold, hrows⟩ := ih hnext hgroup'' (fun e' he' => hes e' (by simp [he']))
      (hsorted.sublist (sublist_append_right _ _)) fun e' he' => hlog e' (mem_append_right _ he')
    refine ⟨rowOf timestampOf tbl (kinded ⟨e, lag, timestampOf e.place.blockNumber⟩) :: rows, ?_, ?_⟩
    · rw [map_cons, foldl_cons, writePolicy_eq, insertNew_of_fresh]
      · rw [append_assoc, singleton_append] at hfold
        exact hfold
      · intro r hr heq
        rw [pos_rowOf] at heq
        exact absurd heq (h.below hgroup' hlt r hr).ne
    · rw [map_cons, hrows, filledFrom_cons, map_cons]
      exact congrArg (· :: _) hcolumns

@[simp] theorem map_event_orderedFrom (es : List PolicyEvent) :
    (orderedFrom timestampOf lag es).map event = es := by
  induction es generalizing lag with
  | nil => rfl
  | cons e es ih => rw [orderedFrom, map_cons, ih]

private theorem map_event_filledFrom (rows : List OrderedRow) :
    ((filledFrom m rows).map fun r => (r.event, r.kind)) = rows.map kinded := by
  induction rows generalizing m with
  | nil => rfl
  | cons o rows ih =>
    rw [filledFrom_cons, map_cons, map_cons, ih]
    rfl

private theorem groups_nodup (events : List PolicyEvent) : (groups events).Nodup := nodup_dedup _

variable {events : List PolicyEvent}

private theorem mem_groups (he : e ∈ events) : e.group ∈ groups events :=
  mem_dedup.2 (mem_map_of_mem he)

variable {g : Option Address × Address}

private theorem mem_partitionOf : e ∈ partitionOf events g ↔ e ∈ events ∧ e.group = g := by
  rw [partitionOf, mem_insertionSort, mem_filter, decide_eq_true_eq]

private theorem partitionOf_sorted (hkeys : (events.map PolicyEvent.pos).Nodup)
    (g : Option Address × Address) : (partitionOf events g).Pairwise fun e e' => e.pos < e'.pos := by
  have htotal : Std.Total fun e e' : PolicyEvent => e.pos ≤ e'.pos := ⟨fun e e' => le_total e.pos e'.pos⟩
  have htrans : IsTrans PolicyEvent fun e e' => e.pos ≤ e'.pos := ⟨fun _ _ _ => le_trans⟩
  have hsorted := pairwise_insertionSort (fun e e' : PolicyEvent => e.pos ≤ e'.pos)
    (events.filter fun e => decide (e.group = g))
  have hnodup : ((partitionOf events g).map PolicyEvent.pos).Nodup := by
    rw [partitionOf, ((perm_insertionSort _ _).map PolicyEvent.pos).nodup_iff]
    exact hkeys.sublist (filter_sublist.map _)
  rw [List.Nodup, pairwise_map] at hnodup
  exact hsorted.imp₂ (fun _ _ hle hne => lt_of_le_of_ne hle hne) hnodup

def filledRows (timestampOf : Nat → Option Int) (events : List PolicyEvent) : List FilledRow :=
  (ordered timestampOf events).flatMap (filledFrom none)

private theorem backfill_eq (timestampOf : Nat → Option Int) (t : AgentTables) : backfill timestampOf t =
    if headersMissing timestampOf t.policies then .error .missingHeader
    else if ∃ rows ∈ ordered timestampOf t.policies, ∃ o ∈ rows, o.Overflows then .error .bigintOutOfRange
    else .ok ⟨filledRows timestampOf t.policies, t.deposits.map (fillDeposit (filledRows timestampOf t.policies))⟩ := by
  have hfill : ∀ rows ∈ ordered timestampOf t.policies, fillFrom none rows =
      if ∃ o ∈ rows, o.Overflows then .error .bigintOutOfRange else .ok (filledFrom none rows) := by
    intro rows hrows
    refine fillFrom_eq fun o ho => ?_
    obtain ⟨g, -, rfl⟩ := mem_map.1 hrows
    have he := mem_map_of_mem (f := event) ho
    rw [map_event_orderedFrom, mem_partitionOf] at he
    exact t.logIndex _ he.1
  rw [backfill, mapM_eq_ite hfill]
  split
  · rfl
  split
  · rfl
  · rw [ok_bind, filledRows, flatMap_def, pure_eq_ok]

private theorem map_event_filledRows (events : List PolicyEvent) :
    ((filledRows timestampOf events).map fun r => (r.event, r.kind)) =
      (groups events).flatMap fun g => (orderedFrom timestampOf none (partitionOf events g)).map kinded := by
  simp only [filledRows, ordered, map_flatMap, flatMap_map, map_event_filledFrom]

private theorem perm_map_event_filledRows (events : List PolicyEvent) :
    ((filledRows timestampOf events).map FilledRow.event).Perm events := by
  have hfst : (filledRows timestampOf events).map FilledRow.event =
      ((filledRows timestampOf events).map fun r => (r.event, r.kind)).map fst := by
    rw [List.map_map]
    rfl
  have hpart : ∀ g, ((orderedFrom timestampOf none (partitionOf events g)).map kinded).map fst =
      partitionOf events g := by
    intro g
    rw [List.map_map]
    exact map_event_orderedFrom _
  rw [hfst, map_event_filledRows, map_flatMap]
  simp only [hpart]
  refine (List.Perm.flatMap_left _ fun g _ => perm_insertionSort _ _).trans ?_
  exact (perm_flatMap_filter (groups_nodup _) fun _ => mem_groups).symm

def kindedPartition (timestampOf : Nat → Option Int) (events : List PolicyEvent) (g : Option Address × Address) :
    List (PolicyEvent × PolicyKind) :=
  (orderedFrom timestampOf none (partitionOf events g)).map kinded

private theorem map_fst_kindedPartition (events : List PolicyEvent) (g : Option Address × Address) :
    (kindedPartition timestampOf events g).map fst = partitionOf events g := by
  rw [kindedPartition, List.map_map]
  exact map_event_orderedFrom _

private theorem mem_kindedPartition (hx : x ∈ kindedPartition timestampOf events g) : x.1 ∈ events ∧ x.1.group = g := by
  have hfst := mem_map_of_mem (f := fst) hx
  rwa [map_fst_kindedPartition, mem_partitionOf] at hfst

private theorem kindedPartition_sorted {events : List PolicyEvent} (hkeys : (events.map PolicyEvent.pos).Nodup)
    (g : Option Address × Address) : (kindedPartition timestampOf events g).Pairwise fun x y => x.1.pos < y.1.pos := by
  have hsorted := partitionOf_sorted hkeys g
  rwa [← @map_fst_kindedPartition timestampOf, pairwise_map] at hsorted

private theorem filter_eq_kindedPartition (hkeys : (events.map PolicyEvent.pos).Nodup)
    (hsorted : xs.Pairwise fun x y => x.1.pos < y.1.pos)
    (hperm : xs.Perm ((filledRows timestampOf events).map fun r => (r.event, r.kind))) (g : Option Address × Address) :
    (xs.filter fun x => decide (x.1.group = g)) = kindedPartition timestampOf events g := by
  have hleft := hsorted.sublist (filter_sublist (p := fun x => decide (x.1.group = g)))
  have hright := @kindedPartition_sorted timestampOf _ hkeys g
  refine List.Perm.eq_of_pairwise (fun x y _ _ hxy hyx => (lt_asymm hxy hyx).elim) hleft hright ?_
  refine (perm_ext_iff_of_nodup (hleft.imp ?_) (hright.imp ?_)).2 fun x => ?_
  · rintro x _ hlt rfl
    exact lt_irrefl _ hlt
  · rintro x _ hlt rfl
    exact lt_irrefl _ hlt
  rw [mem_filter, hperm.mem_iff, map_event_filledRows, mem_flatMap, decide_eq_true_eq]
  constructor
  · rintro ⟨⟨g', -, hx⟩, rfl⟩
    rw [(mem_kindedPartition hx).2]
    exact hx
  · intro hx
    obtain ⟨hmem, hgroup⟩ := mem_kindedPartition hx
    exact ⟨⟨g, hgroup ▸ mem_groups hmem, hx⟩, hgroup⟩

private theorem filter_live_columns (t : AgentTables) (hsorted : xs.Pairwise fun x y => x.1.pos < y.1.pos)
    (hperm : xs.Perm ((filledRows timestampOf t.policies).map fun r =>
    (r.event, r.kind))) (g : Option Address × Address) :
    ((xs.foldl (writePolicy timestampOf) []).filter fun p => decide (p.agentGroup = g)).map PolicyRow.columns =
      (filledFrom none (orderedFrom timestampOf none (partitionOf t.policies g))).map FilledRow.columns := by
  have hnodup : (xs.map fun x => x.1.pos).Nodup := by
    rw [List.Nodup, pairwise_map]
    exact hsorted.imp fun hlt => hlt.ne
  obtain ⟨rows, hfold, hrows⟩ := @foldl_orderedFrom timestampOf [] none none
    (partitionOf t.policies g) g ⟨rfl, rfl⟩ (by simp) (fun e he => (mem_partitionOf.1 he).2)
    (partitionOf_sorted t.policyKeys g) fun e he => t.logIndex e (mem_partitionOf.1 he).1
  rw [filter_foldl_writePolicy hnodup, filter_eq_kindedPartition t.policyKeys hsorted hperm, kindedPartition, hfold,
    nil_append, hrows]

private theorem live_columns (t : AgentTables) (hsorted : xs.Pairwise fun x y => x.1.pos < y.1.pos)
    (hperm : xs.Perm ((filledRows timestampOf t.policies).map fun r => (r.event, r.kind))) :
    ((xs.foldl (writePolicy timestampOf) []).map PolicyRow.columns).Perm
      ((filledRows timestampOf t.policies).map FilledRow.columns) := by
  have hmem : ∀ r ∈ xs.foldl (writePolicy timestampOf) [], r.agentGroup ∈ groups t.policies := by
    intro r hr
    have hrow : r ∈ (xs.foldl (writePolicy timestampOf) []).filter fun p => decide (p.agentGroup = r.agentGroup) := by
      simp [hr]
    have hcolumns := mem_map_of_mem (f := PolicyRow.columns) hrow
    rw [filter_live_columns t hsorted hperm, List.mem_map] at hcolumns
    obtain ⟨filled, hfilled, -⟩ := hcolumns
    have hevent := mem_map_of_mem (f := fun r => (r.event, r.kind)) hfilled
    rw [map_event_filledFrom] at hevent
    obtain ⟨hpolicy, hgroup⟩ := mem_kindedPartition hevent
    rw [← hgroup]
    exact mem_groups hpolicy
  refine ((perm_flatMap_filter (groups_nodup _) hmem).map PolicyRow.columns).trans (.of_eq ?_)
  simp only [map_flatMap, filter_live_columns t hsorted hperm, filledRows, ordered, flatMap_map]

def liveRegistration (columns : List RegistrationColumns) (row : DepositRow) : Option (Nat × Nat) :=
  ((columns.filter fun c => decide (c.gateway = row.gateway ∧ c.agent = row.agent ∧ c.place.pos < row.place.pos)).argmax
    fun c => c.place.pos).bind fun c => if c.revoked then none else c.registration

def DepositRow.assigned (columns : List RegistrationColumns) (row : DepositRow) : DepositRow :=
  { row with registration := liveRegistration columns row }

private theorem liveRegistration_perm {columns columns' : List RegistrationColumns} (h : columns.Perm columns')
    (hnodup : (columns.map fun c => c.place.pos).Nodup) (row : DepositRow) :
    liveRegistration columns row = liveRegistration columns' row := by
  unfold liveRegistration
  rw [argmax_perm (h.filter _) (hnodup.sublist (filter_sublist.map _))]

private theorem insertAgentDeposit_eq (row : DepositRow) (policies : List PolicyRow) (deposits : List DepositRow) :
    insertAgentDeposit row policies deposits =
      insertNew DepositRow.pos (row.assigned (policies.map PolicyRow.columns)) deposits := by
  have hprev : liveRegistration (policies.map PolicyRow.columns) row =
      (previousPolicy policies row.gateway row.agent row.place).bind fun p =>
        if p.revoked then none else some p.registration := by
    rw [liveRegistration, List.filter_map, argmax_map]
    exact bind_map
  rw [insertAgentDeposit, DepositRow.assigned, hprev]
  cases previousPolicy policies row.gateway row.agent row.place <;> rfl

private theorem fillDeposit_eq (rows : List FilledRow) {row : DepositRow} (hrow : row.registration = none) :
    fillDeposit rows row = row.assigned (rows.map FilledRow.columns) := by
  have hprev : liveRegistration (rows.map FilledRow.columns) row =
      (previousFilled rows row.gateway row.agent row.place).bind fun r =>
        if r.event.revoked then none else r.registration := by
    rw [liveRegistration, List.filter_map, argmax_map]
    exact bind_map
  have hsame : { row with registration := none } = row := by
    cases row
    cases hrow
    rfl
  rw [fillDeposit, DepositRow.assigned, hprev]
  cases previousFilled rows row.gateway row.agent row.place with
  | none => exact hsame.symm
  | some r =>
    simp only [bind_some]
    split
    · exact hsame.symm
    · rfl

theorem liveRegistration_append {columns : List RegistrationColumns} {c : RegistrationColumns} {row : DepositRow}
    (h : row.pos ≤ c.place.pos) : liveRegistration (columns ++ [c]) row = liveRegistration columns row := by
  have hdrop : ¬ (c.gateway = row.gateway ∧ c.agent = row.agent ∧ c.place.pos < row.place.pos) :=
    fun hlt => (lt_of_lt_of_le hlt.2.2 h).false
  rw [liveRegistration, filter_append, filter_cons_of_neg (by rw [decide_eq_true_eq]; exact hdrop), filter_nil,
    append_nil]
  rfl

/-- The writers in order: first the rows of the policies, and then the deposits by what all of these say. -/
theorem foldl_write {events : List AgentEvent} (hsorted : events.Pairwise fun x y => x.pos ≤ y.pos)
    (hpolicies : ((events.filterMap asPolicy).map fun x => x.1.pos).Nodup)
    (hdeposits : ((events.filterMap asDeposit).map DepositRow.pos).Nodup) :
    events.foldl (write timestampOf) ([], []) =
      ((events.filterMap asPolicy).foldl (writePolicy timestampOf) [],
        (events.filterMap asDeposit).map (DepositRow.assigned
          (((events.filterMap asPolicy).foldl (writePolicy timestampOf) []).map PolicyRow.columns))) := by
  induction events using reverseRecOn with
  | nil => rfl
  | append_singleton events event ih =>
    rw [pairwise_append] at hsorted
    rw [filterMap_append] at hpolicies hdeposits
    have ih := ih hsorted.1 (hpolicies.sublist ((sublist_append_left _ _).map _))
      (hdeposits.sublist ((sublist_append_left _ _).map _))
    rw [foldl_append, ih, filterMap_append, filterMap_append, foldl_cons, foldl_nil]
    cases event with
    | policy e kind =>
      have hpolicy : [policy e kind].filterMap asPolicy = [(e, kind)] := rfl
      have hdeposit : [policy e kind].filterMap asDeposit = [] := rfl
      rw [hpolicy] at hpolicies
      rw [hpolicy, hdeposit, append_nil, foldl_writePolicy_append hpolicies, map_append]
      refine Prod.ext ?_ (map_congr_left fun row hrow => ?_)
      · exact (foldl_append ..).symm.trans (foldl_writePolicy_append hpolicies)
      -- The row of a later event does not count for the deposits so far.
      obtain ⟨event, hevent, hasDeposit⟩ := mem_filterMap.1 hrow
      cases event with
      | policy e' kind' => cases hasDeposit
      | deposit row' =>
        cases hasDeposit
        have hle : row.pos ≤ e.pos := hsorted.2.2 _ hevent _ (mem_singleton_self _)
        rw [map_cons, map_nil, DepositRow.assigned, DepositRow.assigned, liveRegistration_append]
        rw [PolicyRow.columns, place_rowOf]
        exact hle
    | deposit row =>
      have hpolicy : [deposit row].filterMap asPolicy = [] := rfl
      have hdeposit : [deposit row].filterMap asDeposit = [row] := rfl
      rw [hdeposit] at hdeposits
      rw [hpolicy, hdeposit, append_nil, map_append]
      refine Prod.ext rfl ?_
      refine (insertAgentDeposit_eq _ _ _).trans (insertNew_of_fresh ?_)
      intro row' hrow' heq
      obtain ⟨row'', hrow'', rfl⟩ := mem_map.1 hrow'
      rw [map_append, nodup_append] at hdeposits
      exact hdeposits.2.2 _ (mem_map_of_mem hrow'') _ (mem_singleton_self _) heq

private theorem policyEvents_sorted {events : List AgentEvent} (hsorted : events.Pairwise fun x y => x.pos ≤ y.pos)
    (hnodup : ((events.filterMap asPolicy).map fun x => x.1.pos).Nodup) :
    (events.filterMap asPolicy).Pairwise fun x y => x.1.pos < y.1.pos := by
  rw [List.Nodup, pairwise_map] at hnodup
  refine .imp₂ (fun _ _ hle hne => lt_of_le_of_ne hle hne) ?_ hnodup
  refine hsorted.filterMap asPolicy fun x y hle a ha b hb => ?_
  cases x with
  | deposit row => cases ha
  | policy e kind =>
    cases y with
    | deposit row => cases hb
    | policy e' kind' =>
      cases ha
      cases hb
      exact hle

/-- The migration sets the registrations that the writers give the same events in order, of the kinds that it assigns;
and it goes through unless a row after the first of its agent has no header, or a registration starts in a block that
does not fit. -/
theorem backfill_eq_live (timestampOf : Nat → Option Int) (t : AgentTables) :
    (∀ filled, backfill timestampOf t = .ok filled →
      (filled.policies.map FilledRow.event).Perm t.policies ∧
      ∀ events : List AgentEvent, (events.Pairwise fun x y => x.pos ≤ y.pos) →
        (events.filterMap asPolicy).Perm (filled.policies.map fun r => (r.event, r.kind)) →
        (events.filterMap asDeposit).Perm t.deposits →
        ((events.foldl (write timestampOf) ([], [])).1.map PolicyRow.columns).Perm
          (filled.policies.map FilledRow.columns) ∧
        (events.foldl (write timestampOf) ([], [])).2.Perm filled.deposits) ∧
    ((∃ filled, backfill timestampOf t = .ok filled) ↔ headersMissing timestampOf t.policies = false ∧
      ∀ rows ∈ ordered timestampOf t.policies, ∀ o ∈ rows, o.isStart → o.event.place.blockNumber < 2 ^ 31) := by
  constructor
  · intro filled hfilled
    rw [backfill_eq] at hfilled
    split at hfilled
    · cases hfilled
    split at hfilled
    · cases hfilled
    cases hfilled
    refine ⟨perm_map_event_filledRows _, fun events hsorted hpolicies hdeposits => ?_⟩
    have hnodup : ((events.filterMap asPolicy).map fun x => x.1.pos).Nodup := by
      have hevents := ((@perm_map_event_filledRows timestampOf t.policies).map PolicyEvent.pos).nodup_iff.2
        t.policyKeys
      rw [List.map_map] at hevents
      rw [(hpolicies.map fun x => x.1.pos).nodup_iff, List.map_map]
      exact hevents
    have hrows := live_columns t (policyEvents_sorted hsorted hnodup) hpolicies
    have hkeys : ((events.filterMap asDeposit).map DepositRow.pos).Nodup :=
      (hdeposits.map DepositRow.pos).nodup_iff.2 t.depositKeys
    rw [foldl_write hsorted hnodup hkeys]
    refine ⟨hrows, (hdeposits.map _).trans (.of_eq (map_congr_left fun row hrow => ?_))⟩
    have hpositions : ((((events.filterMap asPolicy).foldl (writePolicy timestampOf) []).map
        PolicyRow.columns).map fun c => c.place.pos).Nodup := by
      have hlive := @map_pos_foldl_writePolicy timestampOf _ hnodup
      rw [← hlive] at hnodup
      rwa [List.map_map]
    rw [fillDeposit_eq _ (t.unassigned row hrow), DepositRow.assigned, DepositRow.assigned,
      liveRegistration_perm hrows hpositions]
  · rw [backfill_eq]
    constructor
    · rintro ⟨filled, hfilled⟩
      split at hfilled
      · cases hfilled
      rename_i hheaders
      split at hfilled
      · cases hfilled
      rename_i hfits
      refine ⟨eq_false_iff.2 hheaders, fun rows hrows o ho hstart => ?_⟩
      exact Nat.lt_of_not_le fun hle => hfits ⟨rows, hrows, o, ho, hstart, hle⟩
    · rintro ⟨hheaders, hfits⟩
      have hfits : ¬ ∃ rows ∈ ordered timestampOf t.policies, ∃ o ∈ rows, o.Overflows := by
        rintro ⟨rows, hrows, o, ho, hstart, hle⟩
        exact Nat.not_le.2 (hfits rows hrows o ho hstart) hle
      rw [hheaders, if_neg Bool.false_ne_true, if_neg hfits]
      exact ⟨_, rfl⟩

def renewedPolicy (blockNumber logIndex : Nat) (owner : Address) (revoked : Bool) (validUntil : Option Int) :
    PolicyEvent :=
  ⟨⟨blockNumber, logIndex, 0⟩, 7, some owner, revoked, ⟨validUntil, none, none, none, none⟩, some 1⟩

def renewedDeposit (blockNumber logIndex : Nat) : DepositRow :=
  ⟨⟨blockNumber, logIndex, 0⟩, 0, 0, 7, 7, 100, 100, 0, none, some 1, none⟩

def renewedPolicies : List PolicyEvent :=
  [renewedPolicy 13 0 6 false (some 500), renewedPolicy 10 0 5 false (some 100), renewedPolicy 11 0 6 false (some 100),
    renewedPolicy 12 3 6 true none, renewedPolicy 12 5 6 false (some 200)]

def renewedTimestamp (blockNumber : Nat) : Option Int := if blockNumber = 13 then some 300 else some 50

def renewedDeposits : List DepositRow := [renewedDeposit 11 1, renewedDeposit 12 4, renewedDeposit 13 1]

private theorem renewedPolicies_nodup : (renewedPolicies.map PolicyEvent.pos).Nodup := by decide

private theorem renewedDeposits_nodup : (renewedDeposits.map DepositRow.pos).Nodup := by decide

private theorem renewedPolicies_logIndex : ∀ e ∈ renewedPolicies, e.place.logIndex < 2 ^ 31 := by decide

private theorem renewedDeposits_unassigned : ∀ r ∈ renewedDeposits, r.registration = none := by decide

def renewedAgentTables : AgentTables :=
  ⟨renewedPolicies, renewedDeposits, renewedPolicies_nodup, renewedDeposits_nodup, renewedPolicies_logIndex,
    renewedDeposits_unassigned⟩

def renewedAgentEvents : List AgentEvent :=
  [.policy (renewedPolicy 10 0 5 false (some 100)) .authorized,
    .policy (renewedPolicy 11 0 6 false (some 100)) .transferred,
    .deposit (renewedDeposit 11 1), .policy (renewedPolicy 12 3 6 true none) .revoked, .deposit (renewedDeposit 12 4),
    .policy (renewedPolicy 12 5 6 false (some 200)) .authorized,
      .policy (renewedPolicy 13 0 6 false (some 500)) .authorized,
    .deposit (renewedDeposit 13 1)]

theorem backfill_eq_live_of_renewed : ∃ filled, backfill renewedTimestamp renewedAgentTables = .ok filled ∧
    filled.deposits.map DepositRow.registration = [some (10, 0), none, some (13, 0)] ∧
    (filled.policies.map FilledRow.event).Perm renewedPolicies ∧
    ((renewedAgentEvents.foldl (write renewedTimestamp) ([], [])).1.map PolicyRow.columns).Perm
      (filled.policies.map FilledRow.columns) ∧
    (renewedAgentEvents.foldl (write renewedTimestamp) ([], [])).2.Perm filled.deposits := by
  refine ⟨_, rfl, ?_, ?_⟩
  · decide +kernel
  · obtain ⟨hevents, hlive⟩ := (backfill_eq_live renewedTimestamp renewedAgentTables).1 _ rfl
    exact ⟨hevents, hlive renewedAgentEvents (by decide +kernel) (by decide +kernel) (by decide +kernel)⟩

end RobotMoney.Indexer
