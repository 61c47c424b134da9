import RobotMoney.Access.AdminFloor

/-!
# The proposer floor of the timelock

`ProposerFloorTimelock` counts the holders of `PROPOSER_ROLE` the way `AdminFloorAccessControlCounter` counts its
admins: its two overrides are those of the counter contract with another role under the floor, so the lemmas about the
counter hold of it as they stand.  What is new is the constructor, which must leave a proposer, and what the floor is
for: whatever is granted, revoked and renounced, somebody can schedule (`proposer_floor`).
-/

namespace RobotMoney.Access

open Evm CountedRoles List

inductive TimelockError where
  | role (e : RoleError)
  | lastProposerFloor
  | noProposer
  deriving DecidableEq

/-- The revert of the floor has a name of its own in the timelock. -/
def timelockError : RoleError → TimelockError
  | .lastAdminFloor => .lastProposerFloor
  | e => .role e

section Timelock

variable (keccak256 : String → Role)

def proposerRole : Role := keccak256 "PROPOSER_ROLE"

/-- The counter contract with `PROPOSER_ROLE` under its floor; the counter is `proposerCount`. -/
def proposerFloorTimelock : Hooks CountedRoles := adminFloorAccessControlCounter fun _ => proposerRole keccak256

def proposerCount (s : CountedRoles) : Nat := s.adminCount

/-- The grants of the `TimelockController` constructor. -/
def constructorGrants (self : Address) (proposers executors : List Address) (admin : Address) : List (Role × Address) :=
  (defaultAdminRole, self) :: (if admin = 0 then [] else [(defaultAdminRole, admin)]) ++
    proposers.flatMap (fun a => [(proposerRole keccak256, a), (keccak256 "CANCELLER_ROLE", a)]) ++
    executors.map fun a => (keccak256 "EXECUTOR_ROLE", a)

def grantAll (grants : List (Role × Address)) : Except RoleError CountedRoles :=
  (grants.map fun g => .grant g.1 g.2).foldlM (proposerFloorTimelock keccak256).instruct .empty

/-- The constructor of `ProposerFloorTimelock`. -/
def newTimelock (self : Address) (proposers executors : List Address) (admin : Address) :
    Except TimelockError CountedRoles := do
  let s ← (grantAll keccak256 (constructorGrants keccak256 self proposers executors admin)).mapError timelockError
  revertIf (proposerCount s = 0) .noProposer
  .ok s

def timelockStep (s : CountedRoles) (c : RoleCall) : Except TimelockError CountedRoles :=
  ((proposerFloorTimelock keccak256).roleStep s c).mapError timelockError

end Timelock

variable {keccak256 : String → Role} {s : CountedRoles}

/-- A counter that counts right is far below `2 ^ 256`, so no grant overflows it. -/
private theorem grants_succeed (hs : s.Sound keccak256) (grants : List (Role × Address)) :
    ∃ t, (grants.map fun g => .grant g.1 g.2).foldlM (adminFloorAccessControlCounter keccak256).instruct s = .ok t := by
  induction grants generalizing s with
  | nil => exact ⟨s, rfl⟩
  | cons g grants ih =>
    have hcard : (s.base.holders (adminRole keccak256)).card ≤ 2 ^ 160 := by
      simpa using Finset.card_le_univ (s.base.holders (adminRole keccak256))
    have hgrant : ∃ u, s.internalGrantRole keccak256 g.1 g.2 = .ok u := by
      simp only [CountedRoles.internalGrantRole]
      split
      · simp only [bind_eq_ok, add_eq_ok]
        exact ⟨_, _, ⟨by rw [hs]; unfold wordSize; omega, rfl⟩, rfl⟩
      · exact ⟨_, rfl⟩
    obtain ⟨u, hu⟩ := hgrant
    obtain ⟨t, ht⟩ := ih (hs.grant hu)
    refine ⟨t, ?_⟩
    rw [map_cons, foldlM_cons,
      show (adminFloorAccessControlCounter keccak256).instruct s (.grant g.1 g.2) = .ok u from hu, ok_bind, ht]

/-- The constructor reverts only without proposers, and with `NoProposer`.  A timelock that was built has the proposers
that were named; after every sequence of grants, revocations and renunciations by any accounts `proposerCount` is the
number of the holders of the role, and one of them passes the check that `schedule` makes. -/
theorem proposer_floor (keccak256 : String → Role) (self : Address) (proposers executors : List Address)
    (admin : Address) :
    match newTimelock keccak256 self proposers executors admin with
    | .error e => proposers = [] ∧ e = .noProposer
    | .ok s₀ => (∀ a ∈ proposers, s₀.base.hasRole (proposerRole keccak256) a = true) ∧ ∀ calls,
        let s := run (timelockStep keccak256) s₀ calls
        proposerCount s = (s.base.holders (proposerRole keccak256)).card ∧
          ∃ a, (proposerFloorTimelock keccak256).onlyRole s a (proposerRole keccak256) = .ok () := by
  have hempty := sound_empty fun _ => proposerRole keccak256
  obtain ⟨s₀, h₀⟩ := grants_succeed hempty (constructorGrants keccak256 self proposers executors admin)
  have hsound : s₀.Sound fun _ => proposerRole keccak256 := (keeps_sound _).instructions hempty h₀
  have hholds : ∀ a ∈ proposers, a ∈ s₀.base.holders (proposerRole keccak256) := by
    intro a ha
    refine (CountedRoles.grants fun _ => proposerRole keccak256).mem_holders ?_ h₀ ?_
    · intro role account hmem
      obtain ⟨g, -, hg⟩ := mem_map.1 hmem
      cases hg
    · refine mem_map.2 ⟨(proposerRole keccak256, a), ?_, rfl⟩
      simp only [constructorGrants, mem_append, mem_flatMap]
      exact .inl (.inr ⟨a, ha, mem_cons_self⟩)
  have hnew : newTimelock keccak256 self proposers executors admin =
      if proposerCount s₀ = 0 then .error .noProposer else .ok s₀ := by
    simp only [newTimelock, grantAll, proposerFloorTimelock, h₀, Except.mapError, ok_bind, revertIf]
    split <;> rfl
  rw [hnew]
  by_cases hzero : proposerCount s₀ = 0
  · rw [if_pos hzero]
    refine ⟨eq_nil_iff_forall_not_mem.2 fun a ha => ?_, rfl⟩
    have hcard : (s₀.base.holders (proposerRole keccak256)).card = 0 := hsound.symm.trans hzero
    exact absurd (hholds a ha) (by rw [Finset.card_eq_zero.1 hcard]; exact Finset.notMem_empty a)
  rw [if_neg hzero]
  refine ⟨fun a ha => AccessControl.mem_holders.1 (hholds a ha), fun calls => ?_⟩
  have hrun : (run (timelockStep keccak256) s₀ calls).Floored fun _ => proposerRole keccak256 :=
    run_invariant (P := Floored fun _ => proposerRole keccak256)
      (fun _ _ _ hs hc => (keeps_floored _).roleStep hs (mapError_eq_ok.1 hc)) ⟨hsound, Nat.pos_of_ne_zero hzero⟩ calls
  obtain ⟨a, ha⟩ := hrun.nonempty
  exact ⟨hrun.1, a, (Hooks.onlyRole_eq_ok _).2 (AccessControl.mem_holders.1 ha)⟩

end RobotMoney.Access
