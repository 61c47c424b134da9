import RobotMoney.Evm.Chain
import RobotMoney.Evm.Machine

/-!
# The last-admin floor

`AdminFloorAccessControl` and `AdminFloorAccessControlCounter` over the `AccessControl` and `AccessControlEnumerable`
bases, with the role part of the initializers of the contracts built on them:

* the public entry points `grantRole`, `revokeRole` and `renounceRole` reach the membership through two virtual
  functions, so a contract is given by its overrides of these (`Hooks`);
* the enumerable variant reads the number of admins off the member set, the counter variant off a stored count.

A role is the hash of its name; nothing here needs the hashes to differ.
-/

namespace RobotMoney.Access

open Evm Function Finset Except

abbrev Role := BitVec 256

inductive RoleError where
  | unauthorizedAccount (account : Address) (neededRole : Role)
  | badConfirmation
  | lastAdminFloor
  | panicked (p : Panic)
  deriving DecidableEq

instance roleError_panics : Panics RoleError := ⟨.panicked⟩

/-- Storage of `AccessControl`. -/
structure AccessControl where
  hasRole : Role → Address → Bool
  roleAdmin : Role → Role

open AccessControl

namespace AccessControl

def empty : AccessControl := ⟨fun _ _ => false, fun _ => 0⟩

def setMember (s : AccessControl) (role : Role) (account : Address) (held : Bool) : AccessControl :=
  { s with hasRole := update s.hasRole role (update (s.hasRole role) account held) }

/-- `_grantRole`: the flag says whether the account was new. -/
def internalGrantRole (s : AccessControl) (role : Role) (account : Address) : AccessControl × Bool :=
  if s.hasRole role account then (s, false) else (s.setMember role account true, true)

/-- `_revokeRole`. -/
def internalRevokeRole (s : AccessControl) (role : Role) (account : Address) : AccessControl × Bool :=
  if s.hasRole role account then (s.setMember role account false, true) else (s, false)

def setRoleAdmin (s : AccessControl) (role adminRole : Role) : AccessControl :=
  { s with roleAdmin := update s.roleAdmin role adminRole }

def holders (s : AccessControl) (role : Role) : Finset Address :=
  univ.filter fun account => s.hasRole role account = true

@[simp] theorem mem_holders {s : AccessControl} {role : Role} {account : Address} :
    account ∈ s.holders role ↔ s.hasRole role account = true := by
  simp [holders]

@[simp] theorem holders_setRoleAdmin (s : AccessControl) (role adminRole r : Role) :
    (s.setRoleAdmin role adminRole).holders r = s.holders r := rfl

@[simp] theorem holders_empty (role : Role) : empty.holders role = ∅ := by
  ext account
  simp [empty]

theorem setMember_same (s : AccessControl) (role : Role) (account : Address) :
    s.setMember role account (s.hasRole role account) = s := by
  simp [setMember]

theorem internalGrantRole_eq (s : AccessControl) (role : Role) (account : Address) :
    s.internalGrantRole role account = (s.setMember role account true, !s.hasRole role account) := by
  unfold internalGrantRole
  split
  · rename_i hheld
    rw [hheld, ← hheld, setMember_same]
    simp [hheld]
  rename_i hheld
  simp [hheld]

theorem internalRevokeRole_eq (s : AccessControl) (role : Role) (account : Address) :
    s.internalRevokeRole role account = (s.setMember role account false, s.hasRole role account) := by
  unfold internalRevokeRole
  split
  · rename_i hheld
    rw [hheld]
  rename_i hheld
  rw [Bool.not_eq_true] at hheld
  rw [hheld, ← hheld, setMember_same]

theorem holders_setMember_of_ne {s : AccessControl} {role r : Role} (h : r ≠ role) (account : Address) (held : Bool) :
    (s.setMember role account held).holders r = s.holders r := by
  ext a
  simp [setMember, update_of_ne h]

theorem holders_setMember_true (s : AccessControl) (role : Role) (account : Address) :
    (s.setMember role account true).holders role = insert account (s.holders role) := by
  ext a
  by_cases ha : a = account
  · subst ha
    simp [setMember]
  · simp [setMember, ha]

theorem holders_setMember_false (s : AccessControl) (role : Role) (account : Address) :
    (s.setMember role account false).holders role = (s.holders role).erase account := by
  ext a
  by_cases ha : a = account
  · subst ha
    simp [setMember]
  · simp [setMember, ha]

private theorem holders_subset_grant (s : AccessControl) (role r : Role) (account : Address) :
    s.holders r ⊆ (s.setMember role account true).holders r := by
  by_cases hr : r = role
  · subst hr
    rw [holders_setMember_true]
    exact subset_insert _ _
  · rw [holders_setMember_of_ne hr]

end AccessControl

/-- Storage of `AccessControlEnumerable`: the member sets beside the flags. -/
structure EnumerableRoles where
  base : AccessControl
  roleMembers : Role → Finset Address

namespace EnumerableRoles

def empty : EnumerableRoles := ⟨.empty, fun _ => ∅⟩

def getRoleMemberCount (s : EnumerableRoles) (role : Role) : Nat := (s.roleMembers role).card

/-- `_grantRole` of `AccessControlEnumerable`. -/
def internalGrantRole (s : EnumerableRoles) (role : Role) (account : Address) : EnumerableRoles :=
  let (base, granted) := s.base.internalGrantRole role account
  ⟨base, if granted then update s.roleMembers role (insert account (s.roleMembers role))
    else s.roleMembers⟩

/-- `_revokeRole` of `AccessControlEnumerable`. -/
def internalRevokeRole (s : EnumerableRoles) (role : Role) (account : Address) : EnumerableRoles :=
  let (base, revoked) := s.base.internalRevokeRole role account
  ⟨base, if revoked then update s.roleMembers role ((s.roleMembers role).erase account)
    else s.roleMembers⟩

end EnumerableRoles

/-- What a contract makes of the virtual functions. -/
structure Hooks (σ : Type) where
  roles : σ → AccessControl
  internalGrantRole : σ → Role → Address → Except RoleError σ
  internalRevokeRole : σ → Role → Address → Except RoleError σ
  setRoleAdmin : σ → Role → Role → σ

/-- A use of the internal functions by the contract itself. -/
inductive RoleInstruction where
  | setRoleAdmin (role adminRole : Role)
  | grant (role : Role) (account : Address)
  | revoke (role : Role) (account : Address)

/-- The calls that reach the roles: the public entry points, and functions of the contract that move roles themselves,
such as the rotation of the weight setter or the migration of the receipt's roles. -/
inductive RoleCall where
  | grantRole (sender : Address) (role : Role) (account : Address)
  | revokeRole (sender : Address) (role : Role) (account : Address)
  | renounceRole (sender : Address) (role : Role) (callerConfirmation : Address)
  | own (instructions : List RoleInstruction)

namespace Hooks

variable {σ : Type} (hooks : Hooks σ)

def onlyRole (s : σ) (sender : Address) (role : Role) : Except RoleError Unit :=
  revertIf ((hooks.roles s).hasRole role sender = false) (.unauthorizedAccount sender role)

variable {s s' : σ}

theorem onlyRole_eq_ok {sender : Address} {role : Role} {u : Unit} :
    hooks.onlyRole s sender role = .ok u ↔ (hooks.roles s).hasRole role sender = true := by
  simp [onlyRole]

def instruct (s : σ) : RoleInstruction → Except RoleError σ
  | .setRoleAdmin role adminRole => .ok (hooks.setRoleAdmin s role adminRole)
  | .grant role account => hooks.internalGrantRole s role account
  | .revoke role account => hooks.internalRevokeRole s role account

def grantRole (s : σ) (sender : Address) (role : Role) (account : Address) : Except RoleError σ := do
  hooks.onlyRole s sender ((hooks.roles s).roleAdmin role)
  hooks.internalGrantRole s role account

def revokeRole (s : σ) (sender : Address) (role : Role) (account : Address) : Except RoleError σ := do
  hooks.onlyRole s sender ((hooks.roles s).roleAdmin role)
  hooks.internalRevokeRole s role account

def renounceRole (s : σ) (sender : Address) (role : Role) (callerConfirmation : Address) : Except RoleError σ := do
  revertIf (callerConfirmation ≠ sender) .badConfirmation
  hooks.internalRevokeRole s role callerConfirmation

def roleStep (s : σ) : RoleCall → Except RoleError σ
  | .grantRole sender role account => hooks.grantRole s sender role account
  | .revokeRole sender role account => hooks.revokeRole s sender role account
  | .renounceRole sender role callerConfirmation => hooks.renounceRole s sender role callerConfirmation
  | .own instructions => instructions.foldlM hooks.instruct s

/-- A property the virtual functions keep. -/
structure Keeps (P : σ → Prop) : Prop where
  grant : ∀ {s s' role account}, P s → hooks.internalGrantRole s role account = .ok s' → P s'
  revoke : ∀ {s s' role account}, P s → hooks.internalRevokeRole s role account = .ok s' → P s'
  setRoleAdmin : ∀ {s} (role adminRole), P s → P (hooks.setRoleAdmin s role adminRole)

variable {hooks} {P : σ → Prop}

private theorem Keeps.instruct (h : hooks.Keeps P) {i : RoleInstruction} (hs : P s) (hi : hooks.instruct s i = .ok s') :
    P s' := by
  cases i with
  | setRoleAdmin role adminRole =>
    cases hi
    exact h.setRoleAdmin role adminRole hs
  | grant role account => exact h.grant hs hi
  | revoke role account => exact h.revoke hs hi

theorem Keeps.instructions (h : hooks.Keeps P) {l : List RoleInstruction} (hs : P s)
    (hl : l.foldlM hooks.instruct s = .ok s') : P s' :=
  foldlM_invariant P (fun _ _ _ _ hs hi => h.instruct hs hi) hs hl

theorem Keeps.roleStep (h : hooks.Keeps P) {c : RoleCall} (hs : P s) (hc : hooks.roleStep s c = .ok s') : P s' := by
  cases c with
  | grantRole sender role account =>
    simp only [Hooks.roleStep, Hooks.grantRole, bind_eq_ok] at hc
    obtain ⟨u, -, hc⟩ := hc
    exact h.grant hs hc
  | revokeRole sender role account | renounceRole sender role callerConfirmation =>
    simp only [Hooks.roleStep, Hooks.revokeRole, Hooks.renounceRole, bind_eq_ok] at hc
    obtain ⟨u, -, hc⟩ := hc
    exact h.revoke hs hc
  | own instructions => exact h.instructions hs hc

theorem Keeps.reachable (h : hooks.Keeps P) (hs : P s) (hr : Reachable hooks.roleStep s s') : P s' :=
  hr.invariant hs fun _ _ _ hs hc => h.roleStep hs hc

end Hooks

section Contracts

variable (keccak256 : String → Role)

/-- `FLOOR_ADMIN_ROLE`, the `ADMIN_ROLE` of every contract here. -/
def adminRole : Role := keccak256 "ADMIN_ROLE"

def defaultAdminRole : Role := 0

/-- `_revokeRole` of `AdminFloorAccessControl`. -/
def EnumerableRoles.flooredRevokeRole (s : EnumerableRoles) (role : Role) (account : Address) :
    Except RoleError EnumerableRoles := do
  revertIf (role = adminRole keccak256 ∧ s.base.hasRole role account = true ∧ s.getRoleMemberCount role = 1)
    .lastAdminFloor
  .ok (s.internalRevokeRole role account)

def adminFloorAccessControl : Hooks EnumerableRoles where
  roles := EnumerableRoles.base
  internalGrantRole s role account := .ok (s.internalGrantRole role account)
  internalRevokeRole s role account := s.flooredRevokeRole keccak256 role account
  setRoleAdmin s role adminRole := { s with base := s.base.setRoleAdmin role adminRole }

/-- `ConsensusRecommendationReceipt` floors the default admin too. -/
def receiptAccessControl : Hooks EnumerableRoles where
  roles := EnumerableRoles.base
  internalGrantRole s role account := .ok (s.internalGrantRole role account)
  internalRevokeRole s role account := do
    revertIf (role = defaultAdminRole ∧ s.base.hasRole role account = true ∧ s.getRoleMemberCount role = 1)
      .lastAdminFloor
    s.flooredRevokeRole keccak256 role account
  setRoleAdmin s role adminRole := { s with base := s.base.setRoleAdmin role adminRole }

/-- The contracts built on `AdminFloorAccessControl`. -/
inductive EnumerableContract where
  | routerGovernance
  | portfolioRouter
  | vaultRegistry
  | consensusRecommendationReceipt
  deriving DecidableEq, Repr

def selfAdministered (role : String) (account : Address) : List RoleInstruction :=
  [.setRoleAdmin (keccak256 role) (keccak256 role), .grant (keccak256 role) account]

/-- What `initialize` does to the roles. -/
def EnumerableContract.initialize (admin : Address) : EnumerableContract → List RoleInstruction
  | .routerGovernance =>
    selfAdministered keccak256 "ADMIN_ROLE" admin ++ selfAdministered keccak256 "WEIGHT_SETTER_ROLE" admin
  | .portfolioRouter =>
    selfAdministered keccak256 "ADMIN_ROLE" admin ++ selfAdministered keccak256 "WEIGHT_SETTER_ROLE" admin ++
      selfAdministered keccak256 "WEIGHT_SETTER_ROTATOR_ROLE" admin ++
      selfAdministered keccak256 "WEIGHT_SETTER_ROTATION_EXECUTOR_ROLE" admin
  | .vaultRegistry => selfAdministered keccak256 "ADMIN_ROLE" admin
  | .consensusRecommendationReceipt =>
    [.grant defaultAdminRole admin, .grant (adminRole keccak256) admin,
      .setRoleAdmin (keccak256 "RECEIPT_SUBMITTER_ROLE") (adminRole keccak256),
      .setRoleAdmin (keccak256 "RECEIPT_RELEASER_ROLE") (adminRole keccak256)]

def EnumerableContract.hooks : EnumerableContract → Hooks EnumerableRoles
  | .consensusRecommendationReceipt => receiptAccessControl keccak256
  | _ => adminFloorAccessControl keccak256

/-- Storage of `AdminFloorAccessControlCounter`. -/
structure CountedRoles where
  base : AccessControl
  adminCount : Nat

def CountedRoles.empty : CountedRoles := ⟨.empty, 0⟩

/-- `_grantRole` of `AdminFloorAccessControlCounter`. -/
def CountedRoles.internalGrantRole (s : CountedRoles) (role : Role) (account : Address) :
    Except RoleError CountedRoles := do
  let (base, granted) := s.base.internalGrantRole role account
  if granted ∧ role = adminRole keccak256 then
    let adminCount ← add s.adminCount 1
    .ok ⟨base, adminCount⟩
  else
    .ok ⟨base, s.adminCount⟩

/-- `_revokeRole` of `AdminFloorAccessControlCounter`. -/
def CountedRoles.internalRevokeRole (s : CountedRoles) (role : Role) (account : Address) :
    Except RoleError CountedRoles := do
  revertIf (role = adminRole keccak256 ∧ s.base.hasRole role account = true ∧ s.adminCount = 1) .lastAdminFloor
  let (base, revoked) := s.base.internalRevokeRole role account
  if revoked ∧ role = adminRole keccak256 then
    let adminCount ← sub s.adminCount 1
    .ok ⟨base, adminCount⟩
  else
    .ok ⟨base, s.adminCount⟩

def adminFloorAccessControlCounter : Hooks CountedRoles where
  roles := CountedRoles.base
  internalGrantRole s role account := s.internalGrantRole keccak256 role account
  internalRevokeRole s role account := s.internalRevokeRole keccak256 role account
  setRoleAdmin s role adminRole := { s with base := s.base.setRoleAdmin role adminRole }

/-- The contracts built on `AdminFloorAccessControlCounter`; the basket vaults share one initializer. -/
inductive CounterContract where
  | basketVault
  | robotMoneyVault
  deriving DecidableEq, Repr

/-- What `initialize` does to the roles. -/
def CounterContract.initialize (admin emergencyResponder : Address) : CounterContract → List RoleInstruction
  | .basketVault =>
    [.setRoleAdmin (adminRole keccak256) (adminRole keccak256),
      .setRoleAdmin (keccak256 "EMERGENCY_ROLE") (adminRole keccak256),
      .grant (adminRole keccak256) admin, .grant (keccak256 "EMERGENCY_ROLE") emergencyResponder]
  | .robotMoneyVault =>
    [.setRoleAdmin (adminRole keccak256) (adminRole keccak256),
      .setRoleAdmin (keccak256 "EMERGENCY_ROLE") (adminRole keccak256),
      .setRoleAdmin (keccak256 "KEEPER_ROLE") (adminRole keccak256),
      .grant (adminRole keccak256) admin, .grant (keccak256 "EMERGENCY_ROLE") emergencyResponder]

end Contracts

namespace Hooks

variable {σ : Type} {hooks : Hooks σ}

/-- Grants that do not revert set the membership, and the admin of a role is no membership. -/
structure Grants (hooks : Hooks σ) : Prop where
  grant : ∀ {s s' role account}, hooks.internalGrantRole s role account = .ok s' →
    hooks.roles s' = (hooks.roles s).setMember role account true
  setRoleAdmin : ∀ s role adminRole,
    hooks.roles (hooks.setRoleAdmin s role adminRole) = (hooks.roles s).setRoleAdmin role adminRole

def Grantwise (l : List RoleInstruction) : Prop := ∀ role account, .revoke role account ∉ l

variable {l : List RoleInstruction}

private theorem Grantwise.tail {i : RoleInstruction} (h : Grantwise (i :: l)) : Grantwise l :=
  fun role account hmem => h role account (List.mem_cons_of_mem _ hmem)

private theorem Grants.holders_subset (h : hooks.Grants) (hl : Grantwise l) {s s' : σ}
    (hx : l.foldlM hooks.instruct s = .ok s') (role : Role) :
    (hooks.roles s).holders role ⊆ (hooks.roles s').holders role := by
  induction l generalizing s with
  | nil =>
    simp only [List.foldlM_nil, pure_eq_ok, ok.injEq] at hx
    rw [hx]
  | cons i l ih =>
    rw [List.foldlM_cons, bind_eq_ok] at hx
    obtain ⟨mid, hi, hx⟩ := hx
    refine Finset.Subset.trans ?_ (ih hl.tail hx)
    cases i with
    | setRoleAdmin r adminRole =>
      cases hi
      rw [h.setRoleAdmin, holders_setRoleAdmin]
    | grant r account =>
      rw [h.grant hi]
      exact holders_subset_grant _ _ _ _
    | revoke r account => exact (hl r account (List.mem_cons_self ..)).elim

theorem Grants.mem_holders (h : hooks.Grants) (hl : Grantwise l) {s s' : σ} (hx : l.foldlM hooks.instruct s = .ok s')
    {role : Role} {account : Address} (hmem : .grant role account ∈ l) : account ∈ (hooks.roles s').holders role := by
  induction l generalizing s with
  | nil => cases hmem
  | cons i l ih =>
    rw [List.foldlM_cons, bind_eq_ok] at hx
    obtain ⟨mid, hi, hx⟩ := hx
    rcases List.mem_cons.1 hmem with rfl | hmem
    · apply h.holders_subset hl.tail hx role
      rw [h.grant hi, holders_setMember_true]
      exact mem_insert_self _ _
    · exact ih hl.tail hx hmem

end Hooks

theorem EnumerableContract.grantwise (keccak256 : String → Role) (c : EnumerableContract) (admin : Address) :
    Hooks.Grantwise <| c.initialize keccak256 admin := by
  intro role account
  cases c <;> simp [selfAdministered, EnumerableContract.initialize]

theorem EnumerableContract.grant_mem (keccak256 : String → Role) (c : EnumerableContract) (admin : Address) :
    .grant (adminRole keccak256) admin ∈ c.initialize keccak256 admin := by
  cases c <;> simp [selfAdministered, adminRole, EnumerableContract.initialize]

theorem CounterContract.grantwise (keccak256 : String → Role) (c : CounterContract) (admin responder : Address) :
    Hooks.Grantwise <| c.initialize keccak256 admin responder := by
  intro role account
  unfold CounterContract.initialize
  cases c <;> simp

theorem CounterContract.grant_mem (keccak256 : String → Role) (c : CounterContract) (admin responder : Address) :
    .grant (adminRole keccak256) admin ∈ c.initialize keccak256 admin responder := by
  unfold CounterContract.initialize
  cases c <;> simp

namespace EnumerableRoles

variable {keccak256 : String → Role} {s s' : EnumerableRoles} {role : Role} {account : Address}

def Sound (s : EnumerableRoles) : Prop := ∀ role, s.roleMembers role = s.base.holders role

def Floored (keccak256 : String → Role) (s : EnumerableRoles) : Prop :=
  s.Sound ∧ (s.base.holders (adminRole keccak256)).Nonempty

private theorem sound_empty : empty.Sound := by
  intro role
  simp [empty]

theorem base_grant (s : EnumerableRoles) (role : Role) (account : Address) :
    (s.internalGrantRole role account).base = s.base.setMember role account true := by
  simp [internalGrantRole, internalGrantRole_eq]

theorem base_revoke (s : EnumerableRoles) (role : Role) (account : Address) :
    (s.internalRevokeRole role account).base = s.base.setMember role account false := by
  simp [internalRevokeRole, internalRevokeRole_eq]

theorem Sound.grant (hs : s.Sound) (role : Role) (account : Address) : (s.internalGrantRole role account).Sound := by
  intro r
  rw [base_grant]
  simp only [internalGrantRole, internalGrantRole_eq]
  by_cases hr : r = role
  · subst hr
    rw [holders_setMember_true, ← hs r]
    by_cases hheld : s.base.hasRole r account = true
    · have hmem : account ∈ s.roleMembers r := by rwa [hs r, mem_holders]
      simp [hheld, insert_eq_of_mem hmem]
    · simp [hheld]
  rw [holders_setMember_of_ne hr, ← hs r]
  split
  · rw [update_of_ne hr]
  · rfl

theorem Sound.revoke (hs : s.Sound) (role : Role) (account : Address) : (s.internalRevokeRole role account).Sound := by
  intro r
  rw [base_revoke]
  simp only [internalRevokeRole, internalRevokeRole_eq]
  by_cases hr : r = role
  · subst hr
    rw [holders_setMember_false, ← hs r]
    by_cases hheld : s.base.hasRole r account = true
    · simp [hheld]
    have hmem : account ∉ s.roleMembers r := by rwa [hs r, mem_holders]
    simp [hheld, erase_eq_of_notMem hmem]
  rw [holders_setMember_of_ne hr, ← hs r]
  split
  · rw [update_of_ne hr]
  · rfl

private theorem Floored.grant (h : s.Floored keccak256) (role : Role) (account : Address) :
    (s.internalGrantRole role account).Floored keccak256 := by
  refine ⟨h.1.grant role account, h.2.mono ?_⟩
  rw [base_grant]
  exact holders_subset_grant _ _ _ _

private theorem Floored.revoke (h : s.Floored keccak256) (hx : s.flooredRevokeRole keccak256 role account = .ok s') :
    s'.Floored keccak256 := by
  simp only [flooredRevokeRole, bind_eq_ok, revertIf_eq_ok, ok.injEq] at hx
  obtain ⟨-, hfloor, rfl⟩ := hx
  refine ⟨h.1.revoke role account, ?_⟩
  rw [base_revoke]
  by_cases hr : adminRole keccak256 = role
  · subst hr
    rw [holders_setMember_false]
    by_cases hmem : account ∈ s.base.holders (adminRole keccak256)
    · have hne : s.getRoleMemberCount (adminRole keccak256) ≠ 1 :=
        fun hone => hfloor ⟨rfl, mem_holders.1 hmem, hone⟩
      rw [getRoleMemberCount, h.1] at hne
      have hpos := h.2.card_pos
      rw [← card_pos, card_erase_of_mem hmem]
      omega
    rw [erase_eq_of_notMem hmem]
    exact h.2
  rw [holders_setMember_of_ne hr]
  exact h.2

private theorem Floored.setRoleAdmin (h : s.Floored keccak256) (role adminRole : Role) :
    Floored keccak256 { s with base := s.base.setRoleAdmin role adminRole } := h

end EnumerableRoles

namespace EnumerableContract

variable {keccak256 : String → Role}

private theorem hooks_roles (c : EnumerableContract) : (c.hooks keccak256).roles = EnumerableRoles.base := by
  cases c <;> rfl

theorem grants (c : EnumerableContract) : (c.hooks keccak256).Grants := by
  cases c
  all_goals
    constructor
    · intro s s' role account h
      cases h
      exact s.base_grant role account
    · intro s role adminRole
      rfl

theorem keeps_floored (c : EnumerableContract) : (c.hooks keccak256).Keeps (EnumerableRoles.Floored keccak256) := by
  have hfloor : (adminFloorAccessControl keccak256).Keeps (EnumerableRoles.Floored keccak256) := by
    constructor
    · intro s s' role account hs h
      cases h
      exact hs.grant role account
    · intro s s' role account hs h
      exact hs.revoke h
    · intro s role adminRole hs
      exact hs.setRoleAdmin role adminRole
  cases c with
  | consensusRecommendationReceipt =>
    refine ⟨hfloor.grant, ?_, hfloor.setRoleAdmin⟩
    intro s s' role account hs h
    -- the second floor only refuses more
    simp only [EnumerableContract.hooks, receiptAccessControl, bind_eq_ok] at h
    obtain ⟨u, -, h⟩ := h
    exact hs.revoke h
  | routerGovernance => exact hfloor
  | portfolioRouter => exact hfloor
  | vaultRegistry => exact hfloor

private theorem keeps_sound (c : EnumerableContract) : (c.hooks keccak256).Keeps EnumerableRoles.Sound := by
  have hsound : (adminFloorAccessControl keccak256).Keeps EnumerableRoles.Sound := by
    constructor
    · intro s s' role account hs h
      cases h
      exact hs.grant role account
    · intro s s' role account hs h
      simp only [adminFloorAccessControl, EnumerableRoles.flooredRevokeRole, bind_eq_ok, ok.injEq] at h
      obtain ⟨u, -, rfl⟩ := h
      exact hs.revoke role account
    · intro s role adminRole hs
      exact hs
  cases c with
  | consensusRecommendationReceipt =>
    refine ⟨hsound.grant, ?_, hsound.setRoleAdmin⟩
    intro s s' role account hs h
    simp only [EnumerableContract.hooks, receiptAccessControl, bind_eq_ok] at h
    obtain ⟨u, -, h⟩ := h
    exact hsound.revoke hs h
  | routerGovernance => exact hsound
  | portfolioRouter => exact hsound
  | vaultRegistry => exact hsound

end EnumerableContract

namespace CountedRoles

open Finset AccessControl

variable {keccak256 : String → Role} {s s' : CountedRoles} {role : Role} {account : Address}

def Sound (keccak256 : String → Role) (s : CountedRoles) : Prop :=
  s.adminCount = (s.base.holders (adminRole keccak256)).card

def Floored (keccak256 : String → Role) (s : CountedRoles) : Prop := s.Sound keccak256 ∧ 0 < s.adminCount

private theorem internalGrantRole_ok (h : s.internalGrantRole keccak256 role account = .ok s') :
    s'.base = s.base.setMember role account true ∧ s'.adminCount =
      s.adminCount + if s.base.hasRole role account = false ∧ role = adminRole keccak256 then 1 else 0 := by
  simp only [internalGrantRole, internalGrantRole_eq, Bool.not_eq_true'] at h
  split at h
  · rename_i hnew
    simp only [bind_eq_ok, add_eq_ok, ok.injEq] at h
    obtain ⟨n, ⟨-, rfl⟩, rfl⟩ := h
    exact ⟨rfl, by rw [if_pos hnew]⟩
  rename_i hnew
  cases h
  exact ⟨rfl, by rw [if_neg hnew]; rfl⟩

private theorem internalRevokeRole_ok (h : s.internalRevokeRole keccak256 role account = .ok s') :
    s'.base = s.base.setMember role account false ∧
      if s.base.hasRole role account = true ∧ role = adminRole keccak256 then
        s'.adminCount + 1 = s.adminCount ∧ s.adminCount ≠ 1
      else s'.adminCount = s.adminCount := by
  simp only [internalRevokeRole, internalRevokeRole_eq, bind_eq_ok, revertIf_eq_ok] at h
  obtain ⟨-, hfloor, h⟩ := h
  split at h
  · rename_i hheld
    simp only [bind_eq_ok, sub_eq_ok, ok.injEq] at h
    obtain ⟨n, ⟨hle, rfl⟩, rfl⟩ := h
    refine ⟨rfl, ?_⟩
    rw [if_pos hheld]
    exact ⟨Nat.sub_add_cancel hle, fun hone => hfloor ⟨hheld.2, hheld.1, hone⟩⟩
  rename_i hheld
  cases h
  refine ⟨rfl, ?_⟩
  rw [if_neg hheld]

theorem Sound.grant (hs : s.Sound keccak256) (h : s.internalGrantRole keccak256 role account = .ok s') :
    s'.Sound keccak256 := by
  obtain ⟨hbase, hcount⟩ := internalGrantRole_ok h
  rw [Sound, hbase, hcount, hs]
  by_cases hr : adminRole keccak256 = role
  · subst hr
    rw [holders_setMember_true]
    by_cases hheld : s.base.hasRole (adminRole keccak256) account = true
    · rw [insert_eq_of_mem (mem_holders.2 hheld)]
      simp [hheld]
    rw [card_insert_of_notMem (by simpa using hheld)]
    simp [hheld]
  · rw [holders_setMember_of_ne hr, if_neg fun h => hr h.2.symm, Nat.add_zero]

private theorem Sound.revoke (hs : s.Sound keccak256) (h : s.internalRevokeRole keccak256 role account = .ok s') :
    s'.Sound keccak256 := by
  obtain ⟨hbase, hcount⟩ := internalRevokeRole_ok h
  rw [Sound, hbase]
  by_cases hr : adminRole keccak256 = role
  · subst hr
    rw [holders_setMember_false]
    by_cases hheld : s.base.hasRole (adminRole keccak256) account = true
    · rw [if_pos ⟨hheld, rfl⟩, hs] at hcount
      rw [card_erase_of_mem (mem_holders.2 hheld)]
      omega
    rw [if_neg fun h => hheld h.1] at hcount
    rw [erase_eq_of_notMem (by simpa using hheld), hcount, hs]
  rw [if_neg fun h => hr h.2.symm] at hcount
  rw [holders_setMember_of_ne hr, hcount, hs]

private theorem Floored.revoke (h : s.Floored keccak256) (hx : s.internalRevokeRole keccak256 role account = .ok s') :
    s'.Floored keccak256 := by
  refine ⟨h.1.revoke hx, ?_⟩
  obtain ⟨-, hcount⟩ := internalRevokeRole_ok hx
  have hpos := h.2
  split at hcount <;> omega

private theorem Floored.grant (h : s.Floored keccak256) (hx : s.internalGrantRole keccak256 role account = .ok s') :
    s'.Floored keccak256 := by
  refine ⟨h.1.grant hx, ?_⟩
  obtain ⟨-, hcount⟩ := internalGrantRole_ok hx
  have hpos := h.2
  omega

theorem Floored.nonempty (h : s.Floored keccak256) : (s.base.holders (adminRole keccak256)).Nonempty := by
  have hpos := h.2
  rw [h.1] at hpos
  exact card_pos.1 hpos

theorem sound_empty (keccak256 : String → Role) : empty.Sound keccak256 := by
  simp [Sound, empty]

theorem grants (keccak256 : String → Role) : (adminFloorAccessControlCounter keccak256).Grants where
  grant h := (internalGrantRole_ok h).1
  setRoleAdmin _ _ _ := rfl

theorem keeps_sound (keccak256 : String → Role) :
    (adminFloorAccessControlCounter keccak256).Keeps (Sound keccak256) where
  grant hs h := hs.grant h
  revoke hs h := hs.revoke h
  setRoleAdmin _ _ hs := hs

theorem keeps_floored (keccak256 : String → Role) :
    (adminFloorAccessControlCounter keccak256).Keeps (Floored keccak256) where
  grant hs h := hs.grant h
  revoke hs h := hs.revoke h
  setRoleAdmin _ _ hs := hs

end CountedRoles

/-- After initialisation, whatever accounts grant, revoke and renounce, every contract on either base keeps an admin,
and the stored count is the number of distinct admins. -/
theorem admin_floor (keccak256 : String → Role) (admin emergencyResponder : Address) :
    (∀ (c : EnumerableContract) (s₀ s : EnumerableRoles),
      (List.foldlM (c.hooks keccak256).instruct .empty <| c.initialize keccak256 admin) = .ok s₀ →
      Reachable (c.hooks keccak256).roleStep s₀ s →
      (s.base.holders (adminRole keccak256)).Nonempty) ∧
    (∀ (c : CounterContract) (s₀ s : CountedRoles),
      (List.foldlM (adminFloorAccessControlCounter keccak256).instruct .empty <|
        c.initialize keccak256 admin emergencyResponder) = .ok s₀ →
      Reachable (adminFloorAccessControlCounter keccak256).roleStep s₀ s →
      (s.base.holders (adminRole keccak256)).Nonempty ∧
        s.adminCount = (s.base.holders (adminRole keccak256)).card) := by
  constructor
  · intro c s₀ s h₀ h
    have hsound : s₀.Sound := c.keeps_sound.instructions EnumerableRoles.sound_empty h₀
    have hadmin := c.grants.mem_holders (c.grantwise keccak256 admin) h₀ (c.grant_mem keccak256 admin)
    rw [c.hooks_roles] at hadmin
    exact (c.keeps_floored.reachable ⟨hsound, ⟨admin, hadmin⟩⟩ h).2
  · intro c s₀ s h₀ h
    have hsound : s₀.Sound keccak256 :=
      (CountedRoles.keeps_sound keccak256).instructions (CountedRoles.sound_empty keccak256) h₀
    have hadmin := (CountedRoles.grants keccak256).mem_holders (c.grantwise keccak256 admin emergencyResponder) h₀
      (c.grant_mem keccak256 admin emergencyResponder)
    have hpos : 0 < s₀.adminCount := by
      rw [hsound]
      exact card_pos.2 ⟨admin, hadmin⟩
    have hs := (CountedRoles.keeps_floored keccak256).reachable ⟨hsound, hpos⟩ h
    exact ⟨hs.nonempty, hs.1⟩

def sampleHash (name : String) : Role :=
  if name = "ADMIN_ROLE" then 0xa49807205ce4d355092ef5a8a18f56e8913cf4a201fbe287825b095693c21775
  else if name = "EMERGENCY_ROLE" then 0xbf233dd2aafeb4d50879c4aa5c81e96d92f6e6945c906a58f9f2d1c1631b4b26
  else 0

def sampleRoleCalls : List RoleCall :=
  [.grantRole 1 (sampleHash "ADMIN_ROLE") 2, .grantRole 1 (sampleHash "ADMIN_ROLE") 2,
    .renounceRole 1 (sampleHash "ADMIN_ROLE") 1, .renounceRole 2 (sampleHash "ADMIN_ROLE") 2]

def CountedRoles.sample : CountedRoles :=
  ⟨(((AccessControl.empty.setRoleAdmin (sampleHash "ADMIN_ROLE") (sampleHash "ADMIN_ROLE")).setRoleAdmin
    (sampleHash "EMERGENCY_ROLE") (sampleHash "ADMIN_ROLE")).setMember (sampleHash "ADMIN_ROLE") 1 true).setMember
    (sampleHash "EMERGENCY_ROLE") 3 true, 1⟩

theorem admin_floor_last_admin_stays :
    let s := run (adminFloorAccessControlCounter sampleHash).roleStep .sample sampleRoleCalls
    s.adminCount = 1 ∧ s.base.hasRole (sampleHash "ADMIN_ROLE") 2 = true ∧
      (s.base.holders (adminRole sampleHash)).card = 1 := by
  intro s
  have hcount : s.adminCount = 1 := by decide +kernel
  refine ⟨hcount, by decide +kernel, ?_⟩
  have h := (admin_floor sampleHash 1 3).2 .basketVault .sample s rfl ⟨sampleRoleCalls, rfl⟩
  rw [← h.2, hcount]

end RobotMoney.Access
