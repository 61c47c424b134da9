import Mathlib.Data.Prod.Lex
import RobotMoney.Access.AdminFloor
import RobotMoney.Sort.Keyed

/-!
# The members of a role, from its logs (`get_timelock.rs`)

`reconstruct_role_members` gets the `RoleGranted` and the `RoleRevoked` logs of a role in two batches and replays them
in the order of their places on chain.  The contract emits a log only where a grant or a revoke changes something, so
the logs in order carry the members from one change to the next (`foldl_replay_emitted`), and the result is the list of
the holders at the end, in ascending order (`reconstructRoleMembers_exact`).
-/

namespace RobotMoney.Client

open Evm Access List AccessControl

abbrev B256 := BitVec 256

/-- The part of a log that is read here. -/
structure RawLog where
  topics : List B256
  blockNumber : Nat
  logIndex : Nat
  deriving DecidableEq, Repr

def addressFromSlice (topic : B256) : Address := Fin.ofNat (2 ^ 160) topic.toNat

def accountFromTopic (log : RawLog) : Option Address := log.topics[2]?.map addressFromSlice

/-- One change of the membership, with its place on chain. -/
structure RoleEvent where
  blockNumber : Nat
  logIndex : Nat
  account : Address
  granted : Bool
  deriving DecidableEq, Repr

def RoleEvent.place (e : RoleEvent) : ℕ ×ₗ ℕ := toLex (e.blockNumber, e.logIndex)

def roleEvent (granted : Bool) (log : RawLog) : Option RoleEvent :=
  (accountFromTopic log).map fun account => ⟨log.blockNumber, log.logIndex, account, granted⟩

def RoleEvent.replay (members : Finset Address) (e : RoleEvent) : Finset Address :=
  if e.granted then insert e.account members else members.erase e.account

/-- `reconstruct_role_members`; the set is iterated in any order before the result is sorted. -/
def reconstructRoleMembers (order : HashOrder Address) (grantedLogs revokedLogs : List RawLog) : List Address :=
  let events := Keyed.sortByKey RoleEvent.place (grantedLogs.filterMap (roleEvent true) ++
    revokedLogs.filterMap (roleEvent false))
  Keyed.sortByKey id (order.iter (events.foldl RoleEvent.replay ∅))

/-- A use of `_grantRole` or `_revokeRole`, with the place of the event that it emits if it changes something. -/
structure RoleUse where
  blockNumber : Nat
  logIndex : Nat
  role : Access.Role
  account : Address
  sender : Address
  granted : Bool
  deriving DecidableEq, Repr

namespace RoleUse

def place (u : RoleUse) : ℕ ×ₗ ℕ := toLex (u.blockNumber, u.logIndex)

def exec (s : AccessControl) (u : RoleUse) : AccessControl × Bool :=
  if u.granted then s.internalGrantRole u.role u.account else s.internalRevokeRole u.role u.account

def run (s : AccessControl) (uses : List RoleUse) : AccessControl := uses.foldl (fun s u => (u.exec s).1) s

def emitted : AccessControl → List RoleUse → List RoleUse
  | _, [] => []
  | s, u :: uses => if (u.exec s).2 then u :: emitted (u.exec s).1 uses else emitted (u.exec s).1 uses

/-- The log of `RoleGranted` or `RoleRevoked`, whose three arguments are all indexed. -/
def log (topic0 : B256) (u : RoleUse) : RawLog where
  topics := [topic0, u.role, BitVec.ofNat 256 u.account, BitVec.ofNat 256 u.sender]
  blockNumber := u.blockNumber
  logIndex := u.logIndex

def roleLogs (topic0 : B256) (role : Access.Role) (granted : Bool) (events : List RoleUse) : List RawLog :=
  (events.filter fun u => decide (u.role = role ∧ u.granted = granted)).map (log topic0)

def event (u : RoleUse) : RoleEvent := ⟨u.blockNumber, u.logIndex, u.account, u.granted⟩

end RoleUse

private theorem addressFromSlice_ofNat (a : Address) : addressFromSlice (BitVec.ofNat 256 a) = a := by
  have hlt : a.val < 2 ^ 256 := a.isLt.trans (by decide)
  apply Fin.ext
  rw [addressFromSlice, BitVec.toNat_ofNat, Nat.mod_eq_of_lt hlt]
  exact Nat.mod_eq_of_lt a.isLt

private theorem roleEvent_log (topic0 : B256) (u : RoleUse) : roleEvent u.granted (u.log topic0) = some u.event :=
  congrArg (fun a => some (⟨u.blockNumber, u.logIndex, a, u.granted⟩ : RoleEvent)) (addressFromSlice_ofNat u.account)

private theorem filterMap_roleLogs (topic0 : B256) (role : Access.Role) (granted : Bool) (events : List RoleUse) :
    (RoleUse.roleLogs topic0 role granted events).filterMap (roleEvent granted) =
      (events.filter fun u => decide (u.role = role ∧ u.granted = granted)).map RoleUse.event := by
  rw [RoleUse.roleLogs, filterMap_map, ← filterMap_eq_map]
  apply filterMap_congr
  intro u hu
  have hgranted := (of_decide_eq_true (mem_filter.1 hu).2).2
  rw [← hgranted]
  exact roleEvent_log topic0 u

private theorem exec_of_silent {s : AccessControl} {u : RoleUse} (h : (u.exec s).2 = false) : (u.exec s).1 = s := by
  unfold RoleUse.exec at h ⊢
  split
  · rename_i hgranted
    rw [if_pos hgranted, internalGrantRole_eq, Bool.not_eq_false'] at h
    rw [internalGrantRole, if_pos h]
  rename_i hgranted
  rw [if_neg hgranted, internalRevokeRole_eq] at h
  have hnone : s.hasRole u.role u.account = false := h
  rw [internalRevokeRole, hnone]
  rfl

private theorem holders_exec (role : Access.Role) (s : AccessControl) (u : RoleUse) :
    (u.exec s).1.holders role = if u.role = role then u.event.replay (s.holders role) else s.holders role := by
  have hset : (u.exec s).1 = s.setMember u.role u.account u.granted := by
    unfold RoleUse.exec
    split
    · rename_i hgranted
      rw [internalGrantRole_eq, hgranted]
    rename_i hgranted
    rw [internalRevokeRole_eq, Bool.eq_false_of_not_eq_true hgranted]
  rw [hset]
  split
  · rename_i hrole
    subst hrole
    unfold RoleEvent.replay RoleUse.event
    cases u.granted with
    | true => exact holders_setMember_true s u.role u.account
    | false => exact holders_setMember_false s u.role u.account
  rename_i hrole
  exact holders_setMember_of_ne (Ne.symm hrole) u.account u.granted

private theorem foldl_replay_emitted (role : Access.Role) (uses : List RoleUse) : ∀ s : AccessControl,
    (((RoleUse.emitted s uses).filter fun u => decide (u.role = role)).map RoleUse.event).foldl RoleEvent.replay
      (s.holders role) = (RoleUse.run s uses).holders role := by
  induction uses with
  | nil => exact fun _ => rfl
  | cons u uses ih =>
    intro s
    have hrest := ih (u.exec s).1
    cases hflag : (u.exec s).2 with
    | false =>
      rw [exec_of_silent hflag] at hrest
      rw [RoleUse.emitted, hflag, exec_of_silent hflag, RoleUse.run, foldl_cons, exec_of_silent hflag]
      exact hrest
    | true =>
      rw [holders_exec] at hrest
      rw [RoleUse.emitted, if_pos hflag, filter_cons]
      by_cases hrole : u.role = role
      · rw [if_pos hrole] at hrest
        rw [if_pos (decide_eq_true hrole)]
        exact hrest
      rw [if_neg hrole] at hrest
      rw [if_neg (by simpa using hrole)]
      exact hrest

private theorem perm_filterMap_roleLogs {grantedLogs revokedLogs : List RawLog} {grantedTopic0 revokedTopic0 : B256}
    {role : Access.Role}
    {events : List RoleUse} (hgranted : grantedLogs.Perm (RoleUse.roleLogs grantedTopic0 role true events))
    (hrevoked : revokedLogs.Perm (RoleUse.roleLogs revokedTopic0 role false events)) :
    (grantedLogs.filterMap (roleEvent true) ++ revokedLogs.filterMap (roleEvent false)).Perm
      ((events.filter fun u => decide (u.role = role)).map RoleUse.event) := by
  have hsplit : ∀ b : Bool, (events.filter fun u => decide (u.role = role ∧ u.granted = b)) =
      (events.filter fun u => decide (u.role = role)).filter fun u => decide (u.granted = b) := by
    intro b
    rw [filter_filter]
    congr 1
    funext u
    rw [Bool.decide_and, Bool.and_comm]
  refine ((hgranted.filterMap _).append (hrevoked.filterMap _)).trans ?_
  rw [filterMap_roleLogs, filterMap_roleLogs, ← map_append, hsplit, hsplit]
  apply List.Perm.map
  have hnot : (fun u : RoleUse => decide (u.granted = false)) = fun u => !decide (u.granted = true) := by
    funext u
    cases u.granted <;> rfl
  rw [hnot]
  exact filter_append_perm _ _

/-- Of a history of grants and revokes, on any roles and any accounts, the two batches of logs of a role, each in any
order, give the holders of the role at the end, in ascending order and each once. -/
theorem reconstructRoleMembers_exact (order : HashOrder Address) (uses : List RoleUse) (role : Access.Role)
    (grantedTopic0 revokedTopic0 : B256)
    (hplaces : Keyed.Ascending RoleUse.place ((RoleUse.emitted .empty uses).filter fun u => decide (u.role = role)))
    {grantedLogs revokedLogs : List RawLog}
    (hgranted : grantedLogs.Perm (RoleUse.roleLogs grantedTopic0 role true (RoleUse.emitted .empty uses)))
    (hrevoked : revokedLogs.Perm (RoleUse.roleLogs revokedTopic0 role false (RoleUse.emitted .empty uses))) :
    reconstructRoleMembers order grantedLogs revokedLogs = ((RoleUse.run .empty uses).holders role).sort := by
  have hsorted : Keyed.Ascending RoleEvent.place
      (((RoleUse.emitted .empty uses).filter fun u => decide (u.role = role)).map RoleUse.event) :=
    pairwise_map.2 hplaces
  have hevents := Keyed.sortByKey_eq hsorted (perm_filterMap_roleLogs hgranted hrevoked)
  have hmembers := foldl_replay_emitted role uses .empty
  rw [holders_empty] at hmembers
  rw [reconstructRoleMembers, hevents, hmembers, order.sortByKey_iter]

def regrantUses : List RoleUse :=
  [⟨1, 0, 7, 11, 5, true⟩, ⟨1, 3, 7, 12, 5, true⟩, ⟨2, 0, 7, 11, 5, false⟩, ⟨2, 1, 7, 11, 5, true⟩]

/-- Both batches in reverse. -/
theorem reconstructRoleMembers_exact_of_regrant :
    reconstructRoleMembers .ascending (RoleUse.roleLogs 1 7 true (RoleUse.emitted .empty regrantUses)).reverse
      (RoleUse.roleLogs 2 7 false (RoleUse.emitted .empty regrantUses)).reverse =
        ((RoleUse.run .empty regrantUses).holders 7).sort := by
  have hplaces : Keyed.Ascending RoleUse.place
      ((RoleUse.emitted .empty regrantUses).filter fun u => decide (u.role = 7)) := by
    unfold Keyed.Ascending
    decide
  exact reconstructRoleMembers_exact .ascending regrantUses 7 1 2 hplaces (reverse_perm _) (reverse_perm _)

end RobotMoney.Client
