import RobotMoney.Client.RoleMembers
import RobotMoney.Evm.HexText

/-!
# The pending operations of the timelock (`get_timelock.rs`)

`fetch_pending_ops` takes the ids of all `CallScheduled` logs and keeps those whose ready time it then reads as more
than that of a finished operation.  A read that fails counts as a ready time of zero, which is that of a cancelled
operation: such an operation is left out of a report without an error.  The list has every pending operation, in order
of ready time, exactly where no read of a pending operation fails (`fetchPendingOps_complete_iff`).
-/

namespace RobotMoney.Client

open List Function

structure PendingOp where
  operationId : List Char
  readyTimestamp : Nat
  deriving DecidableEq, Repr

def doneTimestamp : Nat := 1

def operationIdText (id : B256) : List Char := '0' :: 'x' :: HexText.digits 64 id.toNat

/-- `saturating_to::<u64>`. -/
def saturatingToU64 (n : Nat) : Nat := min n (2 ^ 64 - 1)

def operationIds (logs : List RawLog) : Finset B256 := (logs.filterMap fun log => log.topics[1]?).toFinset

def callGetTimestamp (answer : Except String Nat) : Except String Nat := answer.map saturatingToU64

def pendingOp (getTimestamp : B256 → Except String Nat) (id : B256) : Option PendingOp :=
  let ts := (callGetTimestamp (getTimestamp id)).toOption.getD 0
  if doneTimestamp < ts then some ⟨operationIdText id, ts⟩ else none

/-- `fetch_pending_ops`, given what the endpoint answers. -/
def fetchPendingOps (order : HashOrder B256) (getLogs : Except String (List RawLog))
    (getTimestamp : B256 → Except String Nat) : Except String (List PendingOp) :=
  match getLogs with
  | .error e => .error ("eth_getLogs(CallScheduled) failed: " ++ e)
  | .ok logs =>
    .ok (Keyed.sortByKey PendingOp.readyTimestamp ((order.iter (operationIds logs)).filterMap (pendingOp getTimestamp)))

/-- Of `TimelockController`: the ready times by id, zero where there is no operation, and the `CallScheduled` logs. -/
structure Timelock where
  timestamps : B256 → Nat
  logs : List RawLog

namespace Timelock

def empty : Timelock := ⟨fun _ => 0, []⟩

/-- `isOperationPending`: the operation waits or is ready. -/
def isOperationPending (t : Timelock) (id : B256) : Prop := doneTimestamp < t.timestamps id

instance (t : Timelock) (id : B256) : Decidable (t.isOperationPending id) := inferInstanceAs (Decidable (_ < _))

/-- A call to the timelock; the ready time is the time of the block and the delay, `executed` the time of its block. -/
inductive Call where
  | schedule (id : B256) (blockNumber logIndex ready : Nat)
  | cancel (id : B256)
  | execute (id : B256) (executed : Nat)
  deriving DecidableEq, Repr

/-- `CallScheduled`, with the id and the index of the call. -/
def scheduledLog (topic0 id : B256) (blockNumber logIndex i : Nat) : RawLog :=
  ⟨[topic0, id, BitVec.ofNat 256 i], blockNumber, logIndex + i⟩

variable (topic0 : B256) (callCount : B256 → Nat)

/-- A call; a reverted one leaves the timelock as it is.  The id of an operation is a hash of its calls, so it fixes how
many there are; `schedule` has one call and `scheduleBatch` any number. -/
def exec (t : Timelock) : Call → Timelock
  | .schedule id blockNumber logIndex ready =>
    if t.timestamps id = 0 then
      ⟨update t.timestamps id ready,
        t.logs ++ (range (callCount id)).map (scheduledLog topic0 id blockNumber logIndex)⟩
    else t
  | .cancel id => if t.isOperationPending id then { t with timestamps := update t.timestamps id 0 } else t
  | .execute id executed =>
    if t.isOperationPending id ∧ t.timestamps id ≤ executed then
      { t with timestamps := update t.timestamps id doneTimestamp }
    else t

def run (calls : List Call) : Timelock := calls.foldl (exec topic0 callCount) empty

end Timelock

/-- Which reads of a report fail, with the texts of the errors. -/
structure Failures where
  getLogs : Option String
  getTimestamp : B256 → Option String

def answer {α : Type} (failure : Option String) (value : α) : Except String α :=
  match failure with
  | some e => .error e
  | none => .ok value

def pendingOps (order : HashOrder B256) (failures : Failures) (t : Timelock) : Except String (List PendingOp) :=
  fetchPendingOps order (answer failures.getLogs t.logs) fun id => answer (failures.getTimestamp id) (t.timestamps id)

def Complete (t : Timelock) (result : Except String (List PendingOp)) : Prop :=
  ∀ ops, result = .ok ops → ∃ ids : List B256, ids.Nodup ∧ (∀ id, id ∈ ids ↔ t.isOperationPending id) ∧
    ids.Pairwise (fun a b => t.timestamps a ≤ t.timestamps b) ∧
      ops.map PendingOp.operationId = ids.map operationIdText

private theorem mem_operationIds {logs : List RawLog} {id : B256} :
    id ∈ operationIds logs ↔ ∃ log ∈ logs, log.topics[1]? = some id := by
  rw [operationIds, mem_toFinset, mem_filterMap]

private theorem operationIds_append (logs new : List RawLog) :
    operationIds (logs ++ new) = operationIds logs ∪ operationIds new := by
  rw [operationIds, filterMap_append, toFinset_append]
  rfl

private theorem mem_operationIds_scheduled {topic0 id id' : B256} {n blockNumber logIndex : Nat} :
    id' ∈ operationIds ((range n).map (Timelock.scheduledLog topic0 id blockNumber logIndex)) ↔
      0 < n ∧ id' = id := by
  rw [mem_operationIds]
  constructor
  · rintro ⟨log, hlog, htopic⟩
    obtain ⟨i, hi, rfl⟩ := mem_map.1 hlog
    exact ⟨(mem_range.1 hi).pos, (Option.some.inj htopic).symm⟩
  · rintro ⟨hn, rfl⟩
    exact ⟨_, mem_map_of_mem (mem_range.2 hn), rfl⟩

section Run

variable {topic0 : B256} {callCount : B256 → Nat}

def Timelock.Logged (callCount : B256 → Nat) (t : Timelock) : Prop :=
  ∀ id, (id ∈ operationIds t.logs → 0 < callCount id) ∧
    (t.timestamps id ≠ 0 → 0 < callCount id → id ∈ operationIds t.logs)

theorem Timelock.Logged.update {t : Timelock} (h : t.Logged callCount) {id : B256} (hknown : t.timestamps id ≠ 0)
    (ready : Nat) : Timelock.Logged callCount { t with timestamps := update t.timestamps id ready } := by
  intro id'
  refine ⟨(h id').1, fun hne hcalls => ?_⟩
  rcases eq_or_ne id' id with rfl | hid
  · exact (h id').2 hknown hcalls
  have hsame : Function.update t.timestamps id ready id' ≠ 0 := hne
  rw [update_of_ne hid] at hsame
  exact (h id').2 hsame hcalls

private theorem Timelock.Logged.exec {t : Timelock} (h : t.Logged callCount) (c : Timelock.Call) :
    (t.exec topic0 callCount c).Logged callCount := by
  cases c with
  | schedule id blockNumber logIndex ready =>
    rw [Timelock.exec]
    split
    · intro id'
      change (id' ∈ operationIds (t.logs ++ _) → _) ∧
        (Function.update t.timestamps id ready id' ≠ 0 → _ → id' ∈ operationIds (t.logs ++ _))
      rw [operationIds_append, Finset.mem_union, mem_operationIds_scheduled]
      constructor
      · rintro (hid | ⟨hcalls, rfl⟩)
        · exact (h id').1 hid
        · exact hcalls
      · intro hne hcalls
        rcases eq_or_ne id' id with rfl | hid
        · exact .inr ⟨hcalls, rfl⟩
        rw [update_of_ne hid] at hne
        exact .inl ((h id').2 hne hcalls)
    · exact h
  | cancel id =>
    rw [Timelock.exec]
    split
    · rename_i hpending
      exact h.update (Nat.ne_of_gt (Nat.zero_lt_of_lt hpending)) 0
    · exact h
  | execute id executed =>
    rw [Timelock.exec]
    split
    · rename_i hready
      exact h.update (Nat.ne_of_gt (Nat.zero_lt_of_lt hready.1)) doneTimestamp
    · exact h

theorem Timelock.logged_run (calls : List Timelock.Call) : (Timelock.run topic0 callCount calls).Logged callCount := by
  have hall : ∀ t : Timelock, t.Logged callCount →
      (calls.foldl (Timelock.exec topic0 callCount) t).Logged callCount := by
    induction calls with
    | nil => exact fun _ h => h
    | cons c calls ih => exact fun t h => ih _ (h.exec c)
  exact hall _ fun id => ⟨fun h => absurd h (Finset.notMem_empty id), fun h => absurd rfl h⟩

end Run

private theorem operationIdText_injective : Function.Injective operationIdText := by
  intro a b h
  obtain ⟨-, htail⟩ := cons.inj h
  obtain ⟨-, hdigits⟩ := cons.inj htail
  exact BitVec.eq_of_toNat_eq (HexText.digits_injective (by simpa using a.isLt) (by simpa using b.isLt) hdigits)

def Timelock.entry (t : Timelock) (id : B256) : PendingOp := ⟨operationIdText id, saturatingToU64 (t.timestamps id)⟩

open Timelock

private theorem pendingOp_answer (failure : B256 → Option String) (t : Timelock) (id : B256) :
    pendingOp (fun id => answer (failure id) (t.timestamps id)) id =
      if failure id = none ∧ t.isOperationPending id then some (t.entry id) else none := by
  have hsat : doneTimestamp < saturatingToU64 (t.timestamps id) ↔ t.isOperationPending id := by
    unfold saturatingToU64 isOperationPending doneTimestamp
    omega
  cases hfailure : failure id with
  | some e =>
    rw [if_neg (fun h => Option.some_ne_none e h.1), pendingOp, hfailure]
    rfl
  | none =>
    rw [pendingOp, hfailure]
    by_cases hpending : t.isOperationPending id
    · exact (if_pos (hsat.2 hpending)).trans (if_pos ⟨rfl, hpending⟩).symm
    · exact (if_neg (mt hsat.1 hpending)).trans (if_neg fun h => hpending h.2).symm

private theorem filterMap_ite {α β : Type} (p : α → Prop) [DecidablePred p] (f : α → β) (l : List α) :
    l.filterMap (fun a => if p a then some (f a) else none) = (l.filter fun a => decide (p a)).map f := by
  induction l with
  | nil => rfl
  | cons a l ih =>
    by_cases ha : p a <;> simp [ha, ih]

def listed (order : HashOrder B256) (failures : Failures) (t : Timelock) : List B256 :=
  Keyed.sortByKey (fun id => saturatingToU64 (t.timestamps id))
    ((order.iter (operationIds t.logs)).filter fun id =>
      decide (failures.getTimestamp id = none ∧ t.isOperationPending id))

section Report

variable {order : HashOrder B256} {failures : Failures} {t : Timelock}

private theorem pendingOps_eq (h : failures.getLogs = none) :
    pendingOps order failures t = .ok ((listed order failures t).map t.entry) := by
  have hentries : pendingOp (fun id => answer (failures.getTimestamp id) (t.timestamps id)) =
      fun id => if failures.getTimestamp id = none ∧ t.isOperationPending id then some (t.entry id) else none :=
    funext (pendingOp_answer failures.getTimestamp t)
  rw [pendingOps, h, answer, fetchPendingOps, hentries, filterMap_ite, Keyed.sortByKey_map]
  rfl

private theorem nodup_listed : (listed order failures t).Nodup :=
  (Keyed.sortByKey_perm _).nodup_iff.2 ((order.nodup_iter _).filter _)

private theorem mem_listed {id : B256} : id ∈ listed order failures t ↔
    id ∈ operationIds t.logs ∧ failures.getTimestamp id = none ∧ t.isOperationPending id := by
  rw [listed, Keyed.mem_sortByKey, mem_filter, order.mem_iter, decide_eq_true_iff]

private theorem complete_iff_listed (h : failures.getLogs = none) : Complete t (pendingOps order failures t) ↔
    (∀ id, id ∈ listed order failures t ↔ t.isOperationPending id) ∧
      (listed order failures t).Pairwise fun a b => t.timestamps a ≤ t.timestamps b := by
  have htexts : ((listed order failures t).map t.entry).map PendingOp.operationId =
      (listed order failures t).map operationIdText := map_map
  rw [pendingOps_eq h]
  constructor
  · intro hcomplete
    obtain ⟨ids, -, hmem, hordered, hids⟩ := hcomplete _ rfl
    rw [htexts] at hids
    rw [map_injective_iff.2 operationIdText_injective hids]
    exact ⟨hmem, hordered⟩
  · rintro ⟨hmem, hordered⟩ ops hops
    cases hops
    exact ⟨_, nodup_listed, hmem, hordered, htexts⟩

end Report

section Complete

variable {failures : Failures} {t : Timelock}

private theorem saturatingToU64_le {m n : Nat} (h : saturatingToU64 m ≤ saturatingToU64 n) :
    m ≤ n ∨ 2 ^ 64 - 1 ≤ m ∧ 2 ^ 64 - 1 ≤ n := by
  unfold saturatingToU64 at h
  omega

private theorem le_of_pairwise_listed {order : HashOrder B256}
    (hordered : ∀ order, (listed order failures t).Pairwise fun a b => t.timestamps a ≤ t.timestamps b) {a b : B256}
    (ha : a ∈ listed order failures t) (hb : b ∈ listed order failures t) (hsa : 2 ^ 64 - 1 ≤ t.timestamps a)
    (hsb : 2 ^ 64 - 1 ≤ t.timestamps b) : t.timestamps b ≤ t.timestamps a := by
  rcases eq_or_ne a b with rfl | hne
  · exact le_refl _
  rw [mem_listed] at ha hb
  have hiter : (HashOrder.startingWith b).iter (operationIds t.logs) = b :: ((operationIds t.logs).erase b).toList :=
    if_pos hb.1
  have ha' : a ∈ ((operationIds t.logs).erase b).toList := Finset.mem_toList.2 (Finset.mem_erase.2 ⟨hne, ha.1⟩)
  have hpair : [b, a].Sublist (((HashOrder.startingWith b).iter (operationIds t.logs)).filter fun id =>
      decide (failures.getTimestamp id = none ∧ t.isOperationPending id)) := by
    rw [hiter, filter_cons, if_pos (decide_eq_true hb.2)]
    exact (singleton_sublist.2 (mem_filter.2 ⟨ha', decide_eq_true ha.2⟩)).cons_cons b
  have hcut : saturatingToU64 (t.timestamps b) = saturatingToU64 (t.timestamps a) :=
    (min_eq_right hsb).trans (min_eq_right hsa).symm
  have hkept : [b, a].Sublist (listed (.startingWith b) failures t) :=
    Keyed.sublist_sortByKey (pairwise_pair.2 hcut.le) hpair
  have hsorted := (hordered (.startingWith b)).sublist hkept
  exact (pairwise_cons.1 hsorted).1 a (mem_singleton_self a)

theorem pairwise_listed_iff : (∀ order, (listed order failures t).Pairwise fun a b => t.timestamps a ≤ t.timestamps b) ↔
    ∀ order, ∀ a ∈ listed order failures t, ∀ b ∈ listed order failures t,
      2 ^ 64 - 1 ≤ t.timestamps a → 2 ^ 64 - 1 ≤ t.timestamps b → t.timestamps a = t.timestamps b := by
  constructor
  · intro hordered order a ha b hb hsa hsb
    exact le_antisymm (le_of_pairwise_listed hordered hb ha hsb hsa) (le_of_pairwise_listed hordered ha hb hsa hsb)
  · intro hsame order
    have hsorted : (listed order failures t).Pairwise fun a b =>
        saturatingToU64 (t.timestamps a) ≤ saturatingToU64 (t.timestamps b) := Keyed.pairwise_sortByKey _
    refine hsorted.imp_of_mem fun ha hb hle => ?_
    rcases saturatingToU64_le hle with hle | ⟨hsa, hsb⟩
    · exact hle
    · exact (hsame order _ ha _ hb hsa hsb).le

end Complete

/-- For every history of the timelock and every pattern of failed reads: whatever the order in which the ids are read,
the report is an error or complete, if and only if the scan fails, or each pending operation has a call and is read, and
no two of them have different ready times from `2 ^ 64 - 1` on. -/
theorem fetchPendingOps_complete_iff (topic0 : B256) (callCount : B256 → Nat) (calls : List Timelock.Call)
    (failures : Failures) :
    (∀ order, Complete (run topic0 callCount calls)
        (pendingOps order failures (run topic0 callCount calls))) ↔
      failures.getLogs ≠ none ∨
        (∀ id, (run topic0 callCount calls).isOperationPending id →
          0 < callCount id ∧ failures.getTimestamp id = none) ∧
        ∀ a b, (run topic0 callCount calls).isOperationPending a →
          (run topic0 callCount calls).isOperationPending b →
          2 ^ 64 - 1 ≤ (run topic0 callCount calls).timestamps a →
          2 ^ 64 - 1 ≤ (run topic0 callCount calls).timestamps b →
          (run topic0 callCount calls).timestamps a = (run topic0 callCount calls).timestamps b := by
  have hlogged : (run topic0 callCount calls).Logged callCount := logged_run calls
  generalize run topic0 callCount calls = t at hlogged ⊢
  cases hscan : failures.getLogs with
  | some e =>
    refine iff_of_true (fun order ops hops => ?_) (.inl (Option.some_ne_none e))
    rw [pendingOps, hscan] at hops
    cases hops
  | none =>
    have hmem : (∀ order : HashOrder B256, ∀ id, id ∈ listed order failures t ↔ t.isOperationPending id) ↔
        ∀ id, t.isOperationPending id → 0 < callCount id ∧ failures.getTimestamp id = none := by
      constructor
      · intro h id hpending
        obtain ⟨hid, hread, -⟩ := mem_listed.1 ((h (.startingWith id) id).2 hpending)
        exact ⟨(hlogged id).1 hid, hread⟩
      · intro h order id
        rw [mem_listed]
        refine ⟨fun hid => hid.2.2, fun hpending => ⟨?_, (h id hpending).2, hpending⟩⟩
        exact (hlogged id).2 (Nat.ne_of_gt (Nat.zero_lt_of_lt hpending)) (h id hpending).1
    have hiff : (∀ order, Complete t (pendingOps order failures t)) ↔
        (∀ order : HashOrder B256, ∀ id, id ∈ listed order failures t ↔ t.isOperationPending id) ∧
          ∀ order, (listed order failures t).Pairwise fun a b => t.timestamps a ≤ t.timestamps b := by
      rw [← forall_and]
      exact forall_congr' fun order => complete_iff_listed hscan
    rw [hiff, pairwise_listed_iff]
    constructor
    · rintro ⟨hall, hsame⟩
      refine .inr ⟨hmem.1 hall, fun a b ha hb => ?_⟩
      exact hsame (.startingWith a) a ((hall _ a).2 ha) b ((hall _ b).2 hb)
    · rintro (habs | ⟨hread, hsame⟩)
      · exact absurd rfl habs
      · refine ⟨hmem.2 hread, fun order a ha b hb => ?_⟩
        exact hsame a b (mem_listed.1 ha).2.2 (mem_listed.1 hb).2.2

/-- An operation is queued, and the read of its ready time fails: the report says that nothing is pending. -/
theorem not_complete_of_failed_read :
    ¬ ∀ order, Complete (run 1 (fun _ => 1) [.schedule 9 100 0 1000])
      (pendingOps order ⟨none, fun _ => some "timeout"⟩ (run 1 (fun _ => 1) [.schedule 9 100 0 1000])) := by
  intro hcomplete
  have hpending : (run 1 (fun _ => 1) [.schedule 9 100 0 1000]).isOperationPending 9 := by decide
  obtain ⟨ids, -, hmem, -, hids⟩ := hcomplete (.startingWith 9) _ (pendingOps_eq rfl)
  have hnone : listed (.startingWith 9) ⟨none, fun _ => some "timeout"⟩
      (run 1 (fun _ => 1) [.schedule 9 100 0 1000]) = [] := by
    rw [eq_nil_iff_forall_not_mem]
    intro id hid
    cases (mem_listed.1 hid).2.1
  rw [hnone] at hids
  have hempty : ids = [] := map_eq_nil_iff.1 hids.symm
  rw [hempty] at hmem
  cases (hmem 9).2 hpending

end RobotMoney.Client
