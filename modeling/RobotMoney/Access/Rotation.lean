import RobotMoney.Access.AdminFloor
import RobotMoney.Evm.EnumerableSet

/-!
# Rotation of the weight setter

`proposeWeightSetterRotation`, `cancelWeightSetterRotation` and `executeWeightSetterRotation` of the router, beside the
public role functions it inherits.  An execution reads the members of `WEIGHT_SETTER_ROLE` by index while it revokes
them, so the roles are kept here with their member arrays (`OrderedRoles`), in any layout.

* The loop runs down from the last index, and each revoke shortens the array by one, so it always reads the member that
  is last: whatever moves into the freed place, none is left over (`revokeMembers_spec`).
* Forgetting the order gives the roles of the admin floor, and a rotation is a run of revokes and a grant
  (`step_reachable`).
* The setters change by a grant or a revoke of a setter, by one that leaves, and by an execution
  (`weight_setter_rotation_exact`).
-/

namespace RobotMoney.Access

open Evm Function List AccessControl

/-- Storage of `AccessControlEnumerable`, the member sets as the arrays they are read from. -/
structure OrderedRoles where
  base : AccessControl
  roleMembers : Role → List Address
  nodup : ∀ role, (roleMembers role).Nodup
  mem_roleMembers : ∀ role account, account ∈ roleMembers role ↔ base.hasRole role account = true

namespace OrderedRoles

private theorem empty_mem (role : Role) (account : Address) :
    account ∈ ([] : List Address) ↔ empty.hasRole role account = true := by
  simp [empty]

def empty : OrderedRoles where
  base := .empty
  roleMembers _ := []
  nodup _ := nodup_nil
  mem_roleMembers := empty_mem

def getRoleMemberCount (s : OrderedRoles) (role : Role) : Nat := (s.roleMembers role).length

def getRoleMember (s : OrderedRoles) (role : Role) (index : Nat) : Except RoleError Address :=
  orPanic .outOfBounds (s.roleMembers role)[index]?

variable (layout : SetLayout Address) {s t : OrderedRoles} {role r : Role} {account : Address}

private theorem nodup_grant (hnew : ¬ s.base.hasRole role account = true) (r : Role) :
    (update s.roleMembers role (layout.add (s.roleMembers role) account) r).Nodup := by
  have hmem : account ∉ s.roleMembers role := fun h => hnew ((s.mem_roleMembers role account).1 h)
  by_cases hr : r = role
  · subst hr
    rw [update_self]
    exact layout.nodup_add (s.nodup r) hmem
  rw [update_of_ne hr]
  exact s.nodup r

private theorem mem_grant (hnew : ¬ s.base.hasRole role account = true) (r : Role) (a : Address) :
    a ∈ update s.roleMembers role (layout.add (s.roleMembers role) account) r ↔
      (s.base.setMember role account true).hasRole r a = true := by
  have hmem : account ∉ s.roleMembers role := fun h => hnew ((s.mem_roleMembers role account).1 h)
  by_cases hr : r = role
  · subst hr
    rw [update_self, layout.mem_add hmem, s.mem_roleMembers, ← mem_holders,
      ← mem_holders, holders_setMember_true, Finset.mem_insert]
  rw [update_of_ne hr, s.mem_roleMembers, ← mem_holders, ← mem_holders,
    holders_setMember_of_ne hr]

private theorem nodup_revoke (hheld : s.base.hasRole role account = true) (r : Role) :
    (update s.roleMembers role (layout.remove (s.roleMembers role) account) r).Nodup := by
  have hmem : account ∈ s.roleMembers role := (s.mem_roleMembers role account).2 hheld
  by_cases hr : r = role
  · subst hr
    rw [update_self]
    exact layout.nodup_remove (s.nodup r) hmem
  rw [update_of_ne hr]
  exact s.nodup r

private theorem mem_revoke (hheld : s.base.hasRole role account = true) (r : Role) (a : Address) :
    a ∈ update s.roleMembers role (layout.remove (s.roleMembers role) account) r ↔
      (s.base.setMember role account false).hasRole r a = true := by
  have hmem : account ∈ s.roleMembers role := (s.mem_roleMembers role account).2 hheld
  by_cases hr : r = role
  · subst hr
    rw [update_self, layout.mem_remove (s.nodup r) hmem, s.mem_roleMembers, ← mem_holders,
      ← mem_holders, holders_setMember_false, Finset.mem_erase]
  rw [update_of_ne hr, s.mem_roleMembers, ← mem_holders, ← mem_holders,
    holders_setMember_of_ne hr]

/-- `_grantRole` of `AccessControlEnumerable`. -/
def internalGrantRole (s : OrderedRoles) (role : Role) (account : Address) : OrderedRoles :=
  if hheld : s.base.hasRole role account = true then s
  else
    { base := s.base.setMember role account true
      roleMembers := update s.roleMembers role (layout.add (s.roleMembers role) account)
      nodup := nodup_grant layout hheld
      mem_roleMembers := mem_grant layout hheld }

/-- `_revokeRole` of `AccessControlEnumerable`. -/
def internalRevokeRole (s : OrderedRoles) (role : Role) (account : Address) : OrderedRoles :=
  if hheld : s.base.hasRole role account = true then
    { base := s.base.setMember role account false
      roleMembers := update s.roleMembers role (layout.remove (s.roleMembers role) account)
      nodup := nodup_revoke layout hheld
      mem_roleMembers := mem_revoke layout hheld }
  else s

def setRoleAdmin (s : OrderedRoles) (role adminRole : Role) : OrderedRoles :=
  { s with base := s.base.setRoleAdmin role adminRole }

private theorem base_grant (s : OrderedRoles) (role : Role) (account : Address) :
    (s.internalGrantRole layout role account).base = s.base.setMember role account true := by
  unfold internalGrantRole
  split
  · rename_i hheld
    rw [← hheld, setMember_same]
  · rfl

private theorem base_revoke (s : OrderedRoles) (role : Role) (account : Address) :
    (s.internalRevokeRole layout role account).base = s.base.setMember role account false := by
  unfold internalRevokeRole
  split
  · rfl
  rename_i hheld
  rw [Bool.not_eq_true] at hheld
  rw [← hheld, setMember_same]

private theorem roleAdmin_grant (s : OrderedRoles) (role : Role) (account : Address) :
    (s.internalGrantRole layout role account).base.roleAdmin = s.base.roleAdmin := by
  rw [base_grant]
  rfl

private theorem roleAdmin_revoke (s : OrderedRoles) (role : Role) (account : Address) :
    (s.internalRevokeRole layout role account).base.roleAdmin = s.base.roleAdmin := by
  rw [base_revoke]
  rfl

private theorem roleMembers_grant_of_ne (h : r ≠ role) :
    (s.internalGrantRole layout role account).roleMembers r = s.roleMembers r := by
  unfold internalGrantRole
  split
  · rfl
  · exact update_of_ne h _ _

private theorem roleMembers_revoke_of_ne (h : r ≠ role) :
    (s.internalRevokeRole layout role account).roleMembers r = s.roleMembers r := by
  unfold internalRevokeRole
  split
  · exact update_of_ne h _ _
  · rfl

private theorem count_revoke (h : account ∈ s.roleMembers role) :
    (s.internalRevokeRole layout role account).getRoleMemberCount role + 1 = s.getRoleMemberCount role := by
  have hheld := (s.mem_roleMembers role account).1 h
  simp only [getRoleMemberCount, internalRevokeRole, hheld, dif_pos, update_self]
  exact layout.length_remove (s.nodup role) h

private theorem roleMembers_grant_empty (h : s.roleMembers role = []) :
    (s.internalGrantRole layout role account).roleMembers role = [account] := by
  have hnew : ¬ s.base.hasRole role account = true := by
    rw [← s.mem_roleMembers, h]
    exact not_mem_nil
  simp only [internalGrantRole, hnew, Bool.false_eq_true, dif_neg, not_false_eq_true, update_self, h]
  exact layout.add_nil

def forget (s : OrderedRoles) : EnumerableRoles := ⟨s.base, fun role => (s.roleMembers role).toFinset⟩

@[simp] theorem forget_base (s : OrderedRoles) : s.forget.base = s.base := rfl

private theorem forget_sound (s : OrderedRoles) : s.forget.Sound := by
  intro role
  ext account
  simp [forget, s.mem_roleMembers]

@[simp] theorem forget_count (s : OrderedRoles) (role : Role) :
    s.forget.getRoleMemberCount role = s.getRoleMemberCount role :=
  toFinset_card_of_nodup (s.nodup role)

private theorem enumerable_ext {a b : EnumerableRoles} (ha : a.Sound) (hb : b.Sound) (h : a.base = b.base) : a = b := by
  obtain ⟨base, members⟩ := a
  obtain ⟨base', members'⟩ := b
  obtain rfl : base = base' := h
  have hmembers : members = members' := by
    funext role
    exact (ha role).trans (hb role).symm
  rw [hmembers]

private theorem forget_grant (s : OrderedRoles) (role : Role) (account : Address) :
    (s.internalGrantRole layout role account).forget = s.forget.internalGrantRole role account := by
  refine enumerable_ext (forget_sound _) (s.forget_sound.grant role account) ?_
  rw [forget_base, base_grant, EnumerableRoles.base_grant, forget_base]

private theorem forget_revoke (s : OrderedRoles) (role : Role) (account : Address) :
    (s.internalRevokeRole layout role account).forget = s.forget.internalRevokeRole role account := by
  refine enumerable_ext (forget_sound _) (s.forget_sound.revoke role account) ?_
  rw [forget_base, base_revoke, EnumerableRoles.base_revoke, forget_base]

end OrderedRoles

section Router

variable (keccak256 : String → Role) (layout : SetLayout Address)

/-- `_revokeRole` of `AdminFloorAccessControl`. -/
def OrderedRoles.flooredRevokeRole (s : OrderedRoles) (role : Role) (account : Address) :
    Except RoleError OrderedRoles := do
  revertIf (role = adminRole keccak256 ∧ s.base.hasRole role account = true ∧ s.getRoleMemberCount role = 1)
    .lastAdminFloor
  .ok (s.internalRevokeRole layout role account)

def orderedAccessControl : Hooks OrderedRoles where
  roles := OrderedRoles.base
  internalGrantRole s role account := .ok (s.internalGrantRole layout role account)
  internalRevokeRole s role account := s.flooredRevokeRole keccak256 layout role account
  setRoleAdmin := OrderedRoles.setRoleAdmin

/-- The loop that revokes the members of a role, from the last index `n - 1` down. -/
def OrderedRoles.revokeMembers (s : OrderedRoles) (role : Role) (n : Nat) : Except RoleError OrderedRoles :=
  (range n).reverse.foldlM
    (fun s i => do
      let account ← s.getRoleMember role i
      s.flooredRevokeRole keccak256 layout role account)
    s

/-- What a call reads of the chain: the clock, which accounts have code, and the reply of `getMinDelay()`. -/
structure Surroundings where
  timestamp : BlockTime
  hasCode : Address → Bool
  getMinDelay : Address → Reply Nat

/-- `newHolder` is zero when no rotation is pending. -/
structure WeightSetterRotation where
  newHolder : Address
  proposedAt : Nat
  deriving DecidableEq

inductive RotationEvent where
  | weightSetterRotationProposed (newHolder : Address) (proposedAt : Nat)
  | weightSetterRotationCancelled (newHolder sender : Address)
  | weightSetterRotated (newHolder : Address) (revokedHolders : Nat)
  deriving DecidableEq

inductive RotationError where
  | role (e : RoleError)
  | rotationTargetNotContract (target : Address)
  | rotationTargetForbidden (target : Address)
  | rotationAlreadyPending
  | noRotationPending
  | rotationTargetMismatch (pending expected : Address)
  | rotationNotReady (readyAt : Nat)
  | callFailed
  deriving DecidableEq

instance rotationError_panics : Panics RotationError := ⟨fun p => .role (.panicked p)⟩

/-- The part of the router's storage a rotation works on, with the events emitted so far. -/
structure RotationState where
  roles : OrderedRoles
  pendingWeightSetterRotation : WeightSetterRotation
  events : List RotationEvent

/-- The calls that reach the roles of the router. -/
inductive RotationCall where
  | proposeWeightSetterRotation (chain : Surroundings) (sender newHolder : Address)
  | cancelWeightSetterRotation (sender : Address)
  | executeWeightSetterRotation (chain : Surroundings) (sender expectedNewHolder : Address)
  | grantRole (sender : Address) (role : Role) (account : Address)
  | revokeRole (sender : Address) (role : Role) (account : Address)
  | renounceRole (sender : Address) (role : Role) (callerConfirmation : Address)

def weightSetterRole : Role := keccak256 "WEIGHT_SETTER_ROLE"

def weightSetterRotatorRole : Role := keccak256 "WEIGHT_SETTER_ROTATOR_ROLE"

def weightSetterRotationExecutorRole : Role := keccak256 "WEIGHT_SETTER_ROTATION_EXECUTOR_ROLE"

/-- `initialize`, as far as roles and rotations go. -/
def RotationState.initialize (admin : Address) : Except RoleError RotationState := do
  let roles ← foldlM (orderedAccessControl keccak256 layout).instruct .empty <|
    EnumerableContract.portfolioRouter.initialize keccak256 admin
  .ok ⟨roles, ⟨0, 0⟩, []⟩

namespace RotationState

variable (router : Address)

def onlyRole (s : RotationState) (sender : Address) (role : Role) : Except RotationError Unit :=
  ((orderedAccessControl keccak256 layout).onlyRole s.roles sender role).mapError .role

def requireAllowedRotationTarget (s : RotationState) (target : Address) : Except RotationError Unit :=
  revertIf (target = router ∨ s.roles.base.hasRole (weightSetterRotatorRole keccak256) target = true ∨
    s.roles.base.hasRole (weightSetterRotationExecutorRole keccak256) target = true) (.rotationTargetForbidden target)

def proposeWeightSetterRotation (s : RotationState) (chain : Surroundings) (sender newHolder : Address) :
    Except RotationError RotationState := do
  s.onlyRole keccak256 layout sender (weightSetterRotatorRole keccak256)
  revertIf (chain.hasCode newHolder = false) (.rotationTargetNotContract newHolder)
  s.requireAllowedRotationTarget keccak256 router newHolder
  revertIf (s.pendingWeightSetterRotation.newHolder ≠ 0) .rotationAlreadyPending
  .ok { s with
    pendingWeightSetterRotation := ⟨newHolder, toUint64 chain.timestamp.val⟩
    events := s.events ++ [.weightSetterRotationProposed newHolder (toUint64 chain.timestamp.val)] }

def cancelWeightSetterRotation (s : RotationState) (sender : Address) : Except RotationError RotationState := do
  s.onlyRole keccak256 layout sender (weightSetterRotatorRole keccak256)
  let pending := s.pendingWeightSetterRotation.newHolder
  revertIf (pending = 0) .noRotationPending
  .ok { s with
    pendingWeightSetterRotation := ⟨0, 0⟩
    events := s.events ++ [.weightSetterRotationCancelled pending sender] }

def executeWeightSetterRotation (s : RotationState) (chain : Surroundings) (sender expectedNewHolder : Address) :
    Except RotationError RotationState := do
  s.onlyRole keccak256 layout sender (weightSetterRotationExecutorRole keccak256)
  let r := s.pendingWeightSetterRotation
  revertIf (r.newHolder = 0) .noRotationPending
  revertIf (r.newHolder ≠ expectedNewHolder) (.rotationTargetMismatch r.newHolder expectedNewHolder)
  let minDelay ← (chain.getMinDelay sender).value .callFailed
  let readyAt ← add r.proposedAt minDelay
  revertIf (chain.timestamp.val < readyAt) (.rotationNotReady readyAt)
  revertIf (chain.hasCode r.newHolder = false) (.rotationTargetNotContract r.newHolder)
  s.requireAllowedRotationTarget keccak256 router r.newHolder
  let revoked := s.roles.getRoleMemberCount (weightSetterRole keccak256)
  let roles ← (s.roles.revokeMembers keccak256 layout (weightSetterRole keccak256) revoked).mapError .role
  .ok {
    roles := roles.internalGrantRole layout (weightSetterRole keccak256) r.newHolder
    pendingWeightSetterRotation := ⟨0, 0⟩
    events := s.events ++ [.weightSetterRotated r.newHolder revoked] }

def roleCall (s : RotationState) (c : RoleCall) : Except RotationError RotationState := do
  let roles ← ((orderedAccessControl keccak256 layout).roleStep s.roles c).mapError .role
  .ok { s with roles := roles }

def step (s : RotationState) : RotationCall → Except RotationError RotationState
  | .proposeWeightSetterRotation chain sender newHolder =>
    s.proposeWeightSetterRotation keccak256 layout router chain sender newHolder
  | .cancelWeightSetterRotation sender => s.cancelWeightSetterRotation keccak256 layout sender
  | .executeWeightSetterRotation chain sender expectedNewHolder =>
    s.executeWeightSetterRotation keccak256 layout router chain sender expectedNewHolder
  | .grantRole sender role account => s.roleCall keccak256 layout (.grantRole sender role account)
  | .revokeRole sender role account => s.roleCall keccak256 layout (.revokeRole sender role account)
  | .renounceRole sender role callerConfirmation =>
    s.roleCall keccak256 layout (.renounceRole sender role callerConfirmation)

def setters (s : RotationState) : Finset Address := s.roles.base.holders (weightSetterRole keccak256)

end RotationState

end Router

section Rules

variable {keccak256 : String → Role} {layout : SetLayout Address} {router : Address}

namespace OrderedRoles

variable {s t : OrderedRoles} {role r : Role} {account : Address} {n : Nat}

private theorem flooredRevokeRole_eq_ok : s.flooredRevokeRole keccak256 layout role account = .ok t ↔
    ¬ (role = adminRole keccak256 ∧ s.base.hasRole role account = true ∧ s.getRoleMemberCount role = 1) ∧
      t = s.internalRevokeRole layout role account := by
  unfold flooredRevokeRole
  simp only [bind_eq_ok, revertIf_eq_ok, Except.ok.injEq]
  constructor
  · rintro ⟨-, hfloor, rfl⟩
    exact ⟨hfloor, rfl⟩
  · rintro ⟨hfloor, rfl⟩
    exact ⟨(), hfloor, rfl⟩

private theorem revokeMembers_succ (s : OrderedRoles) (role : Role) (n : Nat) :
    s.revokeMembers keccak256 layout role (n + 1) = (do
      let account ← s.getRoleMember role n
      let s ← s.flooredRevokeRole keccak256 layout role account
      s.revokeMembers keccak256 layout role n) := by
  simp only [revokeMembers, range_succ, reverse_append, reverse_singleton, singleton_append,
    foldlM_cons, bind_assoc]

theorem getRoleMember_eq_ok : s.getRoleMember role n = .ok account ↔ (s.roleMembers role)[n]? = some account := by
  simp [getRoleMember]

theorem revokeMembers_spec (hn : s.getRoleMemberCount role = n) (h : s.revokeMembers keccak256 layout role n = .ok t) :
    t.roleMembers role = [] ∧ (∀ r, r ≠ role → t.roleMembers r = s.roleMembers r) ∧
      t.base.roleAdmin = s.base.roleAdmin := by
  induction n generalizing s with
  | zero =>
    have hst : s = t := by simpa [revokeMembers] using h
    subst hst
    exact ⟨length_eq_zero_iff.1 hn, fun r _ => rfl, rfl⟩
  | succ n ih =>
    rw [revokeMembers_succ] at h
    simp only [bind_eq_ok, getRoleMember_eq_ok, flooredRevokeRole_eq_ok] at h
    obtain ⟨account, hread, mid, ⟨-, rfl⟩, h⟩ := h
    have hmem : account ∈ s.roleMembers role := mem_of_getElem? hread
    have hcount := count_revoke layout hmem
    obtain ⟨hempty, hframe, hadmin⟩ := ih (by omega) h
    refine ⟨hempty, fun r hr => ?_, ?_⟩
    · rw [hframe r hr, roleMembers_revoke_of_ne layout hr]
    · rw [hadmin, roleAdmin_revoke]

private theorem revokeMembers_returns (hrole : role ≠ adminRole keccak256) (hn : s.getRoleMemberCount role = n) :
    ∃ t, s.revokeMembers keccak256 layout role n = .ok t := by
  induction n generalizing s with
  | zero => exact ⟨s, rfl⟩
  | succ n ih =>
    have hlt : n < (s.roleMembers role).length := by
      rw [getRoleMemberCount] at hn
      omega
    obtain ⟨account, hread⟩ : ∃ account, (s.roleMembers role)[n]? = some account :=
      ⟨_, getElem?_eq_getElem hlt⟩
    have hcount := count_revoke layout (mem_of_getElem? hread)
    have hrest : (s.internalRevokeRole layout role account).getRoleMemberCount role = n := by omega
    obtain ⟨t, ht⟩ := ih hrest
    refine ⟨t, ?_⟩
    rw [revokeMembers_succ, getRoleMember_eq_ok.2 hread, ok_bind,
      flooredRevokeRole_eq_ok.2 ⟨fun hfloor => hrole hfloor.1, rfl⟩, ok_bind, ht]

private theorem revokeMembers_reachable (h : s.revokeMembers keccak256 layout role n = .ok t) :
    Reachable (orderedAccessControl keccak256 layout).roleStep s t := by
  induction n generalizing s with
  | zero =>
    have hst : s = t := by simpa [revokeMembers] using h
    subst hst
    exact .refl s
  | succ n ih =>
    rw [revokeMembers_succ] at h
    simp only [bind_eq_ok] at h
    obtain ⟨account, -, mid, hmid, h⟩ := h
    have hfirst : (orderedAccessControl keccak256 layout).roleStep s (.own [.revoke role account]) = .ok mid := by
      simp [Hooks.roleStep, Hooks.instruct, orderedAccessControl, hmid]
    obtain ⟨cs, hcs⟩ := ih h
    exact ⟨.own [.revoke role account] :: cs, by rw [run_cons, exec_of_ok hfirst, hcs]⟩

theorem forget_instruct {i : RoleInstruction} (h : (orderedAccessControl keccak256 layout).instruct s i = .ok t) :
    (adminFloorAccessControl keccak256).instruct s.forget i = .ok t.forget := by
  cases i with
  | setRoleAdmin role adminRole =>
    cases h
    rfl
  | grant role account =>
    cases h
    simp [Hooks.instruct, adminFloorAccessControl, forget_grant]
  | revoke role account =>
    obtain ⟨hfloor, rfl⟩ := flooredRevokeRole_eq_ok.1 h
    simp only [Hooks.instruct, adminFloorAccessControl, EnumerableRoles.flooredRevokeRole, forget_base, forget_count,
      revertIf_of_not _ hfloor, ok_bind, forget_revoke]

private theorem forget_instructions {l : List RoleInstruction}
    (h : l.foldlM (orderedAccessControl keccak256 layout).instruct s = .ok t) :
    l.foldlM (adminFloorAccessControl keccak256).instruct s.forget = .ok t.forget := by
  induction l generalizing s with
  | nil =>
    have hst : s = t := by simpa using h
    subst hst
    rfl
  | cons i l ih =>
    rw [foldlM_cons, bind_eq_ok] at h
    obtain ⟨mid, hi, h⟩ := h
    rw [foldlM_cons, forget_instruct hi, ok_bind, ih h]

private theorem forget_roleStep {c : RoleCall} (h : (orderedAccessControl keccak256 layout).roleStep s c = .ok t) :
    (adminFloorAccessControl keccak256).roleStep s.forget c = .ok t.forget := by
  cases c with
  | grantRole sender role account =>
    simp only [Hooks.roleStep, Hooks.grantRole, bind_eq_ok] at h ⊢
    obtain ⟨u, hrole, h⟩ := h
    exact ⟨u, hrole, forget_instruct (i := .grant role account) h⟩
  | revokeRole sender role account =>
    simp only [Hooks.roleStep, Hooks.revokeRole, bind_eq_ok] at h ⊢
    obtain ⟨u, hrole, h⟩ := h
    exact ⟨u, hrole, forget_instruct (i := .revoke role account) h⟩
  | renounceRole sender role callerConfirmation =>
    simp only [Hooks.roleStep, Hooks.renounceRole, bind_eq_ok] at h ⊢
    obtain ⟨u, hrole, h⟩ := h
    exact ⟨u, hrole, forget_instruct (i := .revoke role callerConfirmation) h⟩
  | own instructions => exact forget_instructions h

private theorem forget_reachable (h : Reachable (orderedAccessControl keccak256 layout).roleStep s t) :
    Reachable (adminFloorAccessControl keccak256).roleStep s.forget t.forget :=
  h.invariant (P := fun t => Reachable (adminFloorAccessControl keccak256).roleStep s.forget t.forget)
    (.refl _) fun _ _ _ hr hc => hr.call (forget_roleStep hc)

end OrderedRoles

namespace RotationState

open AccessControl OrderedRoles Hooks Except

variable {s s' : RotationState} {chain : Surroundings} {sender target : Address}

private theorem onlyRole_eq_ok {role : Role} {u : Unit} :
    s.onlyRole keccak256 layout sender role = .ok u ↔ s.roles.base.hasRole role sender = true := by
  simp only [onlyRole, mapError_eq_ok, Hooks.onlyRole_eq_ok, orderedAccessControl]

/-- The target may hold the setter role: neither the router nor a holder of a rotation role. -/
def Allowed (keccak256 : String → Role) (router : Address) (s : RotationState) (target : Address) : Prop :=
  target ≠ router ∧ s.roles.base.hasRole (weightSetterRotatorRole keccak256) target = false ∧
    s.roles.base.hasRole (weightSetterRotationExecutorRole keccak256) target = false

private theorem requireAllowedRotationTarget_eq_ok {u : Unit} :
    s.requireAllowedRotationTarget keccak256 router target = .ok u ↔ s.Allowed keccak256 router target := by
  simp [requireAllowedRotationTarget, Allowed]

/-- The pending rotation to `target` may be executed by `sender` now. -/
structure Ready (keccak256 : String → Role) (router : Address) (s : RotationState) (chain : Surroundings)
    (sender target : Address) : Prop where
  executor : s.roles.base.hasRole (weightSetterRotationExecutorRole keccak256) sender = true
  nonzero : target ≠ 0
  pending : s.pendingWeightSetterRotation.newHolder = target
  delayed : ∃ minDelay, chain.getMinDelay sender = .returned minDelay ∧
    s.pendingWeightSetterRotation.proposedAt + minDelay ≤ chain.timestamp.val
  hasCode : chain.hasCode target = true
  allowed : s.Allowed keccak256 router target

def rotated (keccak256 : String → Role) (layout : SetLayout Address) (s : RotationState) (roles : OrderedRoles)
    (target : Address) : RotationState where
  roles := roles.internalGrantRole layout (weightSetterRole keccak256) target
  pendingWeightSetterRotation := ⟨0, 0⟩
  events := s.events ++
    [.weightSetterRotated target (s.roles.getRoleMemberCount (weightSetterRole keccak256))]

private theorem executeWeightSetterRotation_eq_ok :
    s.executeWeightSetterRotation keccak256 layout router chain sender target = .ok s' ↔
      s.Ready keccak256 router chain sender target ∧
        ∃ roles, s.roles.revokeMembers keccak256 layout (weightSetterRole keccak256)
          (s.roles.getRoleMemberCount (weightSetterRole keccak256)) = .ok roles ∧
          s' = s.rotated keccak256 layout roles target := by
  simp only [executeWeightSetterRotation, bind_eq_ok, onlyRole_eq_ok, revertIf_eq_ok, Reply.value_eq_ok, add_eq_ok,
    requireAllowedRotationTarget_eq_ok, mapError_eq_ok, ok.injEq]
  constructor
  · rintro ⟨-, hexec, -, hsome, -, hsame, minDelay, hdelay, readyAt, ⟨-, rfl⟩, -, hready, -, hcode, -, hallowed,
      roles, hroles, rfl⟩
    obtain rfl : s.pendingWeightSetterRotation.newHolder = target := not_not.1 hsame
    exact ⟨⟨hexec, hsome, rfl, ⟨minDelay, hdelay, by omega⟩, by simpa using hcode, hallowed⟩, roles, hroles, rfl⟩
  · rintro ⟨⟨hexec, hsome, rfl, ⟨minDelay, hdelay, hle⟩, hcode, hallowed⟩, roles, hroles, rfl⟩
    have hlt := chain.timestamp.lt
    have hword : s.pendingWeightSetterRotation.proposedAt + minDelay < wordSize := by
      unfold wordSize
      omega
    exact ⟨(), hexec, (), hsome, (), not_not.2 rfl, minDelay, hdelay, _, ⟨hword, rfl⟩, (), by omega, (),
      by simp [hcode], (), hallowed, roles, hroles, rfl⟩

private theorem proposeWeightSetterRotation_eq_ok :
    s.proposeWeightSetterRotation keccak256 layout router chain sender target = .ok s' ↔
      s.roles.base.hasRole (weightSetterRotatorRole keccak256) sender = true ∧ chain.hasCode target = true ∧
        s.Allowed keccak256 router target ∧ s.pendingWeightSetterRotation.newHolder = 0 ∧
        s' = { s with
          pendingWeightSetterRotation := ⟨target, chain.timestamp.val⟩
          events := s.events ++ [.weightSetterRotationProposed target chain.timestamp.val] } := by
  have hclock : toUint64 chain.timestamp.val = chain.timestamp.val := Nat.mod_eq_of_lt chain.timestamp.lt
  simp only [proposeWeightSetterRotation, bind_eq_ok, onlyRole_eq_ok, revertIf_eq_ok,
    requireAllowedRotationTarget_eq_ok, ok.injEq, hclock]
  constructor
  · rintro ⟨-, hrotator, -, hcode, -, hallowed, -, hnone, rfl⟩
    exact ⟨hrotator, by simpa using hcode, hallowed, not_not.1 hnone, rfl⟩
  · rintro ⟨hrotator, hcode, hallowed, hnone, rfl⟩
    exact ⟨(), hrotator, (), by simp [hcode], (), hallowed, (), not_not.2 hnone, rfl⟩

theorem cancelWeightSetterRotation_eq_ok : s.cancelWeightSetterRotation keccak256 layout sender = .ok s' ↔
      s.roles.base.hasRole (weightSetterRotatorRole keccak256) sender = true ∧
        s.pendingWeightSetterRotation.newHolder ≠ 0 ∧
        s' = { s with
          pendingWeightSetterRotation := ⟨0, 0⟩
          events := s.events ++
            [.weightSetterRotationCancelled s.pendingWeightSetterRotation.newHolder sender] } := by
  simp only [cancelWeightSetterRotation, bind_eq_ok, onlyRole_eq_ok, revertIf_eq_ok, ok.injEq]
  constructor
  · rintro ⟨-, hrotator, -, hsome, rfl⟩
    exact ⟨hrotator, hsome, rfl⟩
  · rintro ⟨hrotator, hsome, rfl⟩
    exact ⟨(), hrotator, (), hsome, rfl⟩

private theorem roleCall_eq_ok {c : RoleCall} : s.roleCall keccak256 layout c = .ok s' ↔
    ∃ roles, (orderedAccessControl keccak256 layout).roleStep s.roles c = .ok roles ∧
      s' = { s with roles := roles } := by
  simp only [roleCall, bind_eq_ok, mapError_eq_ok, ok.injEq]
  constructor
  · rintro ⟨roles, hroles, rfl⟩
    exact ⟨roles, hroles, rfl⟩
  · rintro ⟨roles, hroles, rfl⟩
    exact ⟨roles, hroles, rfl⟩

private theorem roleMembers_rotated {roles : OrderedRoles}
    (h : s.roles.revokeMembers keccak256 layout (weightSetterRole keccak256)
      (s.roles.getRoleMemberCount (weightSetterRole keccak256)) = .ok roles) (target : Address) :
    (s.rotated keccak256 layout roles target).roles.roleMembers (weightSetterRole keccak256) = [target] ∧
      ∀ r, r ≠ weightSetterRole keccak256 →
        (s.rotated keccak256 layout roles target).roles.roleMembers r = s.roles.roleMembers r := by
  obtain ⟨hempty, hframe, -⟩ := revokeMembers_spec rfl h
  refine ⟨roleMembers_grant_empty layout hempty, fun r hr => ?_⟩
  rw [rotated, roleMembers_grant_of_ne layout hr, hframe r hr]

private theorem mem_setters {account : Address} :
    account ∈ s.setters keccak256 ↔ account ∈ s.roles.roleMembers (weightSetterRole keccak256) := by
  rw [setters, mem_holders, s.roles.mem_roleMembers]

theorem setters_rotated {roles : OrderedRoles} (h : s.roles.revokeMembers keccak256 layout (weightSetterRole keccak256)
      (s.roles.getRoleMemberCount (weightSetterRole keccak256)) = .ok roles) (target : Address) :
    (s.rotated keccak256 layout roles target).setters keccak256 = {target} := by
  ext account
  rw [mem_setters, (roleMembers_rotated h target).1, mem_singleton, Finset.mem_singleton]

/-- What a call may do to the setters: a setter grants or revokes the role, an account leaves it, and an execution
hands it to the target alone. -/
def SetterChange (setter : Role) (before after : Finset Address) : RotationCall → Prop
  | .proposeWeightSetterRotation .. => after = before
  | .cancelWeightSetterRotation .. => after = before
  | .executeWeightSetterRotation _ _ expectedNewHolder => after = {expectedNewHolder}
  | .grantRole sender role account =>
    if role = setter then sender ∈ before ∧ after = insert account before else after = before
  | .revokeRole sender role account =>
    if role = setter then sender ∈ before ∧ after = before.erase account else after = before
  | .renounceRole sender role _ => if role = setter then after = before.erase sender else after = before

def SelfAdministered (keccak256 : String → Role) (s : RotationState) : Prop :=
  s.roles.base.roleAdmin (weightSetterRole keccak256) = weightSetterRole keccak256

private theorem holders_grant (b : AccessControl) (role setter : Role) (account : Address) :
    (b.setMember role account true).holders setter =
      if role = setter then insert account (b.holders setter) else b.holders setter := by
  split
  · rename_i hrole
    subst hrole
    exact holders_setMember_true b role account
  rename_i hrole
  exact holders_setMember_of_ne (Ne.symm hrole) account true

private theorem holders_revoke (b : AccessControl) (role setter : Role) (account : Address) :
    (b.setMember role account false).holders setter =
      if role = setter then (b.holders setter).erase account else b.holders setter := by
  split
  · rename_i hrole
    subst hrole
    exact holders_setMember_false b role account
  rename_i hrole
  exact holders_setMember_of_ne (Ne.symm hrole) account false

variable {c : RotationCall} {s₀ : RotationState}

/-- One accepted call: the setters change as they may, and the role goes on administering itself. -/
theorem step_change (hs : s.SelfAdministered keccak256) (h : s.step keccak256 layout router c = .ok s') :
    SetterChange (weightSetterRole keccak256) (s.setters keccak256) (s'.setters keccak256) c ∧
      s'.SelfAdministered keccak256 := by
  cases c with
  | proposeWeightSetterRotation chain sender newHolder =>
    obtain ⟨-, -, -, -, rfl⟩ := proposeWeightSetterRotation_eq_ok.1 h
    exact ⟨rfl, hs⟩
  | cancelWeightSetterRotation sender =>
    obtain ⟨-, -, rfl⟩ := cancelWeightSetterRotation_eq_ok.1 h
    exact ⟨rfl, hs⟩
  | executeWeightSetterRotation chain sender expectedNewHolder =>
    obtain ⟨-, roles, hroles, rfl⟩ := executeWeightSetterRotation_eq_ok.1 h
    refine ⟨setters_rotated hroles expectedNewHolder, ?_⟩
    obtain ⟨-, -, hadmin⟩ := OrderedRoles.revokeMembers_spec rfl hroles
    rw [SelfAdministered, rotated, OrderedRoles.roleAdmin_grant, hadmin]
    exact hs
  | grantRole sender role account =>
    obtain ⟨roles, hroles, rfl⟩ := roleCall_eq_ok.1 h
    simp only [Hooks.roleStep, Hooks.grantRole, Hooks.onlyRole_eq_ok, orderedAccessControl, bind_eq_ok,
      ok.injEq] at hroles
    obtain ⟨-, hsender, rfl⟩ := hroles
    refine ⟨?_, (congrFun (OrderedRoles.roleAdmin_grant layout _ role account) _).trans hs⟩
    simp only [SetterChange, setters, OrderedRoles.base_grant, holders_grant]
    split
    · rename_i hrole
      subst hrole
      exact ⟨mem_holders.2 (hs ▸ hsender), rfl⟩
    · rfl
  | revokeRole sender role account =>
    obtain ⟨roles, hroles, rfl⟩ := roleCall_eq_ok.1 h
    simp only [Hooks.roleStep, Hooks.revokeRole, Hooks.onlyRole_eq_ok, orderedAccessControl, bind_eq_ok,
      OrderedRoles.flooredRevokeRole_eq_ok] at hroles
    obtain ⟨-, hsender, -, rfl⟩ := hroles
    refine ⟨?_, (congrFun (OrderedRoles.roleAdmin_revoke layout _ role account) _).trans hs⟩
    simp only [SetterChange, setters, OrderedRoles.base_revoke, holders_revoke]
    split
    · rename_i hrole
      subst hrole
      exact ⟨mem_holders.2 (hs ▸ hsender), rfl⟩
    · rfl
  | renounceRole sender role callerConfirmation =>
    obtain ⟨roles, hroles, rfl⟩ := roleCall_eq_ok.1 h
    simp only [Hooks.roleStep, Hooks.renounceRole, orderedAccessControl, bind_eq_ok, revertIf_eq_ok, not_not,
      OrderedRoles.flooredRevokeRole_eq_ok] at hroles
    obtain ⟨-, rfl, -, rfl⟩ := hroles
    refine ⟨?_, (congrFun (OrderedRoles.roleAdmin_revoke layout _ role callerConfirmation) _).trans hs⟩
    simp only [SetterChange, setters, OrderedRoles.base_revoke, holders_revoke]
    split
    · rfl
    · rfl

private theorem step_reachable (h : s.step keccak256 layout router c = .ok s') :
    Reachable (orderedAccessControl keccak256 layout).roleStep s.roles s'.roles := by
  cases c with
  | proposeWeightSetterRotation chain sender newHolder =>
    obtain ⟨-, -, -, -, rfl⟩ := proposeWeightSetterRotation_eq_ok.1 h
    exact .refl _
  | cancelWeightSetterRotation sender =>
    obtain ⟨-, -, rfl⟩ := cancelWeightSetterRotation_eq_ok.1 h
    exact .refl _
  | executeWeightSetterRotation chain sender expectedNewHolder =>
    obtain ⟨-, roles, hroles, rfl⟩ := executeWeightSetterRotation_eq_ok.1 h
    exact (revokeMembers_reachable hroles).call
      (c := .own [.grant (weightSetterRole keccak256) expectedNewHolder]) rfl
  | grantRole sender role account | revokeRole sender role account | renounceRole sender role callerConfirmation =>
    obtain ⟨roles, hroles, rfl⟩ := roleCall_eq_ok.1 h
    exact (Reachable.refl _).call hroles

private def seeded (layout : SetLayout Address) (admin : Address) (s : OrderedRoles) (role : Role) : OrderedRoles :=
  (s.setRoleAdmin role role).internalGrantRole layout role admin

private theorem holders_seeded (admin : Address) (s : OrderedRoles) (role r : Role) :
    (seeded layout admin s role).base.holders r =
      if role = r then insert admin (s.base.holders r) else s.base.holders r := by
  rw [seeded, base_grant, holders_grant]
  rfl

private theorem roleAdmin_seeded (admin : Address) (s : OrderedRoles) (role r : Role) :
    (seeded layout admin s role).base.roleAdmin r = if r = role then role else s.base.roleAdmin r := by
  rw [seeded, roleAdmin_grant]
  exact update_apply ..

private theorem initialize_returns (keccak256 : String → Role) (layout : SetLayout Address) (admin : Address) :
    ∃ s₀, RotationState.initialize keccak256 layout admin = .ok s₀ ∧ s₀.SelfAdministered keccak256 ∧
      s₀.setters keccak256 = {admin} ∧ s₀.pendingWeightSetterRotation = ⟨0, 0⟩ := by
  refine ⟨⟨seeded layout admin (seeded layout admin (seeded layout admin (seeded layout admin .empty
    (adminRole keccak256)) (weightSetterRole keccak256)) (weightSetterRotatorRole keccak256))
    (weightSetterRotationExecutorRole keccak256), ⟨0, 0⟩, []⟩, rfl, ?_, ?_, rfl⟩
  · simp only [SelfAdministered, roleAdmin_seeded]
    split_ifs with h1 h2
    · exact h1.symm
    · exact h2.symm
    · rfl
  · simp only [setters, holders_seeded, OrderedRoles.empty, holders_empty]
    split_ifs <;> simp

private theorem run_selfAdministered (h₀ : s₀.SelfAdministered keccak256) (cs : List RotationCall) :
    (run (step keccak256 layout router) s₀ cs).SelfAdministered keccak256 := by
  refine run_invariant (P := SelfAdministered keccak256) ?_ h₀ cs
  intro s c s' hs hc
  exact (step_change hs hc).2

/-- Rotations are calls of `AdminFloorAccessControl` in disguise: with the order of the members forgotten, what a run
makes of the router's roles is what calls of that contract make of its initial roles, so the router always has an
admin. -/
theorem rotation_refines_admin_floor (keccak256 : String → Role) (layout : SetLayout Address) (router admin : Address) :
    ∃ s₀, RotationState.initialize keccak256 layout admin = .ok s₀ ∧
      (foldlM (adminFloorAccessControl keccak256).instruct .empty <|
        EnumerableContract.portfolioRouter.initialize keccak256 admin) = .ok s₀.roles.forget ∧
      ∀ cs, let s := run (step keccak256 layout router) s₀ cs
        Reachable (adminFloorAccessControl keccak256).roleStep s₀.roles.forget s.roles.forget ∧
          (s.roles.base.holders (adminRole keccak256)).Nonempty := by
  obtain ⟨s₀, h₀, -⟩ := initialize_returns keccak256 layout admin
  have h₀' := h₀
  simp only [bind_eq_ok, ok.injEq, RotationState.initialize] at h₀'
  obtain ⟨roles, hroles, rfl⟩ := h₀'
  have hinit := forget_instructions hroles
  refine ⟨_, h₀, hinit, fun cs => ?_⟩
  have hreach : Reachable (adminFloorAccessControl keccak256).roleStep roles.forget
      (run (step keccak256 layout router) ⟨roles, ⟨0, 0⟩, []⟩ cs).roles.forget := by
    refine run_invariant (P := fun s : RotationState =>
      Reachable (adminFloorAccessControl keccak256).roleStep roles.forget s.roles.forget) ?_ (.refl _) cs
    intro s c s' hs hc
    obtain ⟨ds, hds⟩ := forget_reachable (step_reachable hc)
    exact hds ▸ hs.run ds
  refine ⟨hreach, ?_⟩
  have hadmin := EnumerableContract.portfolioRouter.grants.mem_holders
    (EnumerableContract.portfolioRouter.grantwise keccak256 admin) hinit
    (EnumerableContract.portfolioRouter.grant_mem keccak256 admin)
  exact (EnumerableContract.portfolioRouter.keeps_floored.reachable ⟨roles.forget_sound, ⟨admin, hadmin⟩⟩ hreach).2

private theorem step_pending (h : s.step keccak256 layout router c = .ok s')
    (hsome : s'.pendingWeightSetterRotation.newHolder ≠ 0) :
    s'.pendingWeightSetterRotation = s.pendingWeightSetterRotation ∨
      ∃ chain sender, c = .proposeWeightSetterRotation chain sender s'.pendingWeightSetterRotation.newHolder ∧
        s'.pendingWeightSetterRotation.proposedAt = chain.timestamp.val := by
  cases c with
  | proposeWeightSetterRotation chain sender newHolder =>
    obtain ⟨-, -, -, -, rfl⟩ := proposeWeightSetterRotation_eq_ok.1 h
    exact .inr ⟨chain, sender, rfl, rfl⟩
  | cancelWeightSetterRotation sender =>
    obtain ⟨-, -, rfl⟩ := cancelWeightSetterRotation_eq_ok.1 h
    exact absurd rfl hsome
  | executeWeightSetterRotation chain sender expectedNewHolder =>
    obtain ⟨-, roles, -, rfl⟩ := executeWeightSetterRotation_eq_ok.1 h
    exact absurd rfl hsome
  | grantRole sender role account | revokeRole sender role account | renounceRole sender role callerConfirmation =>
    obtain ⟨roles, -, rfl⟩ := roleCall_eq_ok.1 h
    exact .inl rfl

/-- The rotation `r` pending after the run was proposed in it at its time, and has been pending ever since. -/
def ProposedIn (keccak256 : String → Role) (layout : SetLayout Address) (router : Address) (s₀ : RotationState)
    (cs : List RotationCall) (r : WeightSetterRotation) : Prop :=
  ∃ before chain sender after, cs = before ++ .proposeWeightSetterRotation chain sender r.newHolder :: after ∧
    r.proposedAt = chain.timestamp.val ∧
    (run (step keccak256 layout router) s₀ before).roles.base.hasRole
      (weightSetterRotatorRole keccak256) sender = true ∧
    ∀ ds, ds <+: after → (run (step keccak256 layout router) s₀
      (before ++ .proposeWeightSetterRotation chain sender r.newHolder :: ds)).pendingWeightSetterRotation = r

private theorem ProposedIn.snoc {cs : List RotationCall} {r : WeightSetterRotation}
    (h : ProposedIn keccak256 layout router s₀ cs r)
    (hc : (run (step keccak256 layout router) s₀ (cs ++ [c])).pendingWeightSetterRotation = r) :
    ProposedIn keccak256 layout router s₀ (cs ++ [c]) r := by
  obtain ⟨before, chain, sender, after, rfl, htime, hrotator, hall⟩ := h
  refine ⟨before, chain, sender, after ++ [c], by simp, htime, hrotator, ?_⟩
  intro ds hds
  rcases prefix_concat_iff.1 hds with rfl | hds
  · simpa using hc
  · exact hall ds hds

private theorem run_pending (h₀ : s₀.pendingWeightSetterRotation.newHolder = 0) (cs : List RotationCall)
    (hsome : (run (step keccak256 layout router) s₀ cs).pendingWeightSetterRotation.newHolder ≠ 0) :
    ProposedIn keccak256 layout router s₀ cs
      (run (step keccak256 layout router) s₀ cs).pendingWeightSetterRotation := by
  induction cs using reverseRecOn with
  | nil => exact absurd h₀ hsome
  | append_singleton cs c ih =>
    have hrun : run (step keccak256 layout router) s₀ (cs ++ [c]) =
        exec (step keccak256 layout router) (run (step keccak256 layout router) s₀ cs) c := run_append s₀ cs [c]
    cases hc : (run (step keccak256 layout router) s₀ cs).step keccak256 layout router c with
    | error e =>
      rw [exec_of_error hc] at hrun
      rw [hrun] at hsome
      have hkept := (ih hsome).snoc (c := c) (by rw [hrun])
      rwa [hrun]
    | ok s' =>
      rw [exec_of_ok hc] at hrun
      rw [hrun] at hsome
      rcases step_pending hc hsome with hsame | ⟨chain, sender, rfl, htime⟩
      · have hkept := (ih (hsame ▸ hsome)).snoc (c := c) (by rw [hrun, hsame])
        rwa [hrun, hsame]
      obtain ⟨hrotator, -⟩ := proposeWeightSetterRotation_eq_ok.1 hc
      refine ⟨cs, chain, sender, [], by rw [hrun], by rw [hrun, htime], hrotator, ?_⟩
      intro ds hds
      rw [prefix_nil.1 hds, hrun, hrun]

end RotationState

end Rules

open RotationState in
/-- An execution that returns was of the pending rotation after its delay and leaves its target as the one setter, for
any members in any order; it returns whenever the rotation is ready.  In every run the setters change only as
`SetterChange` says, and what is executed was proposed in the run a delay ago and not cancelled since. -/
theorem weight_setter_rotation_exact (keccak256 : String → Role) (layout : SetLayout Address)
    (router admin : Address) :
    (∀ (s s' : RotationState) (chain : Surroundings) (sender newHolder : Address),
      s.executeWeightSetterRotation keccak256 layout router chain sender newHolder = .ok s' →
      s'.roles.roleMembers (weightSetterRole keccak256) = [newHolder] ∧
        s.Ready keccak256 router chain sender newHolder ∧ s'.pendingWeightSetterRotation = ⟨0, 0⟩ ∧
        ∀ r, r ≠ weightSetterRole keccak256 → s'.roles.roleMembers r = s.roles.roleMembers r) ∧
    (weightSetterRole keccak256 ≠ adminRole keccak256 →
      ∀ (s : RotationState) (chain : Surroundings) (sender newHolder : Address),
        s.Ready keccak256 router chain sender newHolder →
        ∃ s', s.executeWeightSetterRotation keccak256 layout router chain sender newHolder = .ok s') ∧
    ∃ s₀, RotationState.initialize keccak256 layout admin = .ok s₀ ∧ s₀.setters keccak256 = {admin} ∧
      ∀ (cs : List RotationCall) (c : RotationCall) (s s' : RotationState),
        run (step keccak256 layout router) s₀ cs = s → s.step keccak256 layout router c = .ok s' →
        SetterChange (weightSetterRole keccak256) (s.setters keccak256) (s'.setters keccak256) c ∧
          ∀ chain sender newHolder, c = .executeWeightSetterRotation chain sender newHolder →
            ∃ proposedAt minDelay, ProposedIn keccak256 layout router s₀ cs ⟨newHolder, proposedAt⟩ ∧
              chain.getMinDelay sender = .returned minDelay ∧ proposedAt + minDelay ≤ chain.timestamp.val := by
  refine ⟨?_, ?_, ?_⟩
  · intro s s' chain sender newHolder h
    obtain ⟨hready, roles, hroles, rfl⟩ := executeWeightSetterRotation_eq_ok.1 h
    obtain ⟨hmembers, hframe⟩ := roleMembers_rotated hroles newHolder
    exact ⟨hmembers, hready, rfl, hframe⟩
  · intro hne s chain sender newHolder hready
    obtain ⟨roles, hroles⟩ : ∃ roles, s.roles.revokeMembers keccak256 layout (weightSetterRole keccak256)
        (s.roles.getRoleMemberCount (weightSetterRole keccak256)) = .ok roles :=
      s.roles.revokeMembers_returns hne rfl
    exact ⟨_, executeWeightSetterRotation_eq_ok.2 ⟨hready, roles, hroles, rfl⟩⟩
  · obtain ⟨s₀, hinit, hadmin, hsetters, hpending⟩ := initialize_returns keccak256 layout admin
    refine ⟨s₀, hinit, hsetters, ?_⟩
    rintro cs c s s' rfl h
    refine ⟨(step_change (run_selfAdministered hadmin cs) h).1, ?_⟩
    rintro chain sender newHolder rfl
    obtain ⟨hready, -⟩ := executeWeightSetterRotation_eq_ok.1 h
    obtain ⟨minDelay, hdelay, hle⟩ := hready.delayed
    have hproposed := run_pending (by rw [hpending]) cs (hready.pending ▸ hready.nonzero)
    exact ⟨_, minDelay, hready.pending ▸ hproposed, hdelay, hle⟩

def routerHash (name : String) : Role :=
  if name = "ADMIN_ROLE" then 0xa49807205ce4d355092ef5a8a18f56e8913cf4a201fbe287825b095693c21775
  else if name = "WEIGHT_SETTER_ROLE" then 0xa2edfd05c0c1cda238b1c99a8a31252998b19153c63b3f9e5b7048bc4b5f4a3f
  else if name = "WEIGHT_SETTER_ROTATOR_ROLE" then 0x11c08153e8e59142d3ad235d7b5d8e19a100a35d2a245a26f7cc9b31d8835259
  else if name = "WEIGHT_SETTER_ROTATION_EXECUTOR_ROLE" then
    0xc9af743f070ca42dfe8369084112a9f3a40f18e9e194924a90abc725fbb869b6
  else 0

/-- Four setters, the target of the pending rotation among them, and 2 to execute it. -/
def RotationState.sample : RotationState where
  roles := [(weightSetterRotationExecutorRole routerHash, (2 : Address)), (weightSetterRole routerHash, 5),
      (weightSetterRole routerHash, 6), (weightSetterRole routerHash, 7), (weightSetterRole routerHash, 8)].foldl
    (fun s entry => s.internalGrantRole .swapAndPop entry.1 entry.2) .empty
  pendingWeightSetterRotation := ⟨6, 100⟩
  events := []

private theorem rotationTime_lt : 150 < 2 ^ 64 := by decide

def Surroundings.sample : Surroundings where
  timestamp := ⟨150, Nat.succ_pos 149, rotationTime_lt⟩
  hasCode _ := true
  getMinDelay _ := .returned 50

theorem weight_setter_rotation_exact_four :
    RotationState.sample.roles.roleMembers (weightSetterRole routerHash) = [5, 6, 7, 8] ∧
      ∃ s', RotationState.sample.executeWeightSetterRotation routerHash .swapAndPop 1 .sample 2 6 = .ok s' ∧
        s'.roles.roleMembers (weightSetterRole routerHash) = [6] := by
  obtain ⟨hexact, hreturns, -⟩ := weight_setter_rotation_exact routerHash .swapAndPop 1 3
  have hready : RotationState.sample.Ready routerHash 1 .sample 2 6 :=
    ⟨by decide +kernel, by decide, rfl, ⟨50, rfl, by decide⟩, rfl,
      by decide, by decide +kernel, by decide +kernel⟩
  obtain ⟨s', h⟩ := hreturns (by decide) _ _ _ _ hready
  exact ⟨by decide +kernel, s', h, (hexact _ _ _ _ _ h).1⟩

end RobotMoney.Access
