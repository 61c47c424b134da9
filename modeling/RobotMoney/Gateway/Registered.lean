import RobotMoney.Gateway.Payments

/-!
# What a registered agent is

The owner, the agent role and the policy of an account are written by different functions, the roles also by the
public role calls, and the deposit window by payments.  In every state they tell one story: an account is either not
registered, and then everything about it is clear, or registered, and then it has an owner, the role and a policy its
owner may have set (`AccountOk`).  The tiers of roles stay apart and the admin counters count (`RolesOk`).

Both facts are followed through the two hooks `_grantRole` and `_revokeRole`, which every role change goes through.
-/

namespace RobotMoney

open Evm GatewayWindows Function Finset Gateway Except

variable {W σ : Type}

def Gateway.holders (g : Gateway W) (role : Role) : Nat := (Finset.univ.filter fun a => g.hasRole role a = true).card

private def moved (counter role : Role) : Nat := if role = counter then 1 else 0

variable {g g' : Gateway W} {role : Role} {account a agent : Address} {p : AgentPolicy} {now : Nat}

theorem grantRole_cases (h : g.internalGrantRole role account = .ok g') : g.separationBlocks role account = false ∧
      ((g.hasRole role account = true ∧ g' = g) ∨
        (g.hasRole role account = false ∧
          g' = { g.setRole role account true with
            adminCount := g.adminCount + moved .admin role
            defaultAdminCount := g.defaultAdminCount + moved .defaultAdmin role })) := by
  simp only [internalGrantRole, bind_eq_ok, revertIf_eq_ok, Bool.not_eq_true] at h
  obtain ⟨-, hsep, h⟩ := h
  refine ⟨hsep, ?_⟩
  split at h
  · rename_i hheld
    cases h
    exact .inl ⟨hheld, rfl⟩
  rename_i hheld
  right
  refine ⟨by simpa using hheld, ?_⟩
  cases role <;> cases h <;> rfl

theorem revokeRole_cases (h : g.internalRevokeRole role account = .ok g') : (g.hasRole role account = false ∧ g' = g) ∨
      (g.hasRole role account = true ∧ (role = .admin → g.adminCount ≠ 1) ∧
        (role = .defaultAdmin → g.defaultAdminCount ≠ 1) ∧
        g' = { g.setRole role account false with
          adminCount := g.adminCount - moved .admin role
          defaultAdminCount := g.defaultAdminCount - moved .defaultAdmin role }) := by
  unfold internalRevokeRole at h
  split at h
  · rename_i hheld
    simp only [bind_eq_ok, revertIf_eq_ok, not_and] at h
    obtain ⟨-, hadmin, -, hdefault, h⟩ := h
    right
    refine ⟨hheld, hadmin, hdefault, ?_⟩
    cases role <;> cases h <;> rfl
  rename_i hheld
  cases h
  exact .inl ⟨by simpa using hheld, rfl⟩

@[simp] private theorem setRole_hasRole (g : Gateway W) (role r : Role) (account a : Address) (held : Bool) :
    (g.setRole role account held).hasRole r a = if r = role ∧ a = account then held else g.hasRole r a := rfl

private theorem holders_grant (h : g.hasRole role account = false) (r : Role) :
    (g.setRole role account true).holders r = g.holders r + moved r role := by
  unfold moved
  split
  · rename_i hr
    subst hr
    unfold Gateway.holders
    have hset : (univ.filter fun a => (g.setRole role account true).hasRole role a = true) =
        insert account (univ.filter fun a => g.hasRole role a = true) := by
      ext a
      by_cases ha : a = account <;> simp [ha]
    rw [hset, card_insert_of_notMem (by simp [h])]
  rename_i hr
  simp [Gateway.holders, Ne.symm hr]

private theorem holders_revoke (h : g.hasRole role account = true) (r : Role) :
    (g.setRole role account false).holders r + moved r role = g.holders r := by
  unfold moved
  split
  · rename_i hr
    subst hr
    unfold Gateway.holders
    have hset : (univ.filter fun a => (g.setRole role account false).hasRole role a = true) =
        (univ.filter fun a => g.hasRole role a = true).erase account := by
      ext a
      by_cases ha : a = account <;> simp [ha]
    rw [hset]
    exact card_erase_add_one (by simp [h])
  rename_i hr
  simp [Gateway.holders, Ne.symm hr]

/-- The tiers of roles are pairwise disjoint, and each admin counter counts its holders, of which there is one at
least. -/
structure Gateway.RolesOk (g : Gateway W) : Prop where
  admin_pauser : ∀ a, ¬ (g.isAdminTier a = true ∧ g.hasRole .depositPauser a = true)
  admin_agent : ∀ a, ¬ (g.isAdminTier a = true ∧ g.hasRole .agent a = true)
  pauser_agent : ∀ a, ¬ (g.hasRole .depositPauser a = true ∧ g.hasRole .agent a = true)
  adminCount : g.adminCount = g.holders .admin
  defaultAdminCount : g.defaultAdminCount = g.holders .defaultAdmin
  admin_floor : 1 ≤ g.adminCount
  defaultAdmin_floor : 1 ≤ g.defaultAdminCount

private theorem RolesOk.congr (hg : g.RolesOk) (hrole : g'.hasRole = g.hasRole)
    (hadmin : g'.adminCount = g.adminCount) (hdefault : g'.defaultAdminCount = g.defaultAdminCount) : g'.RolesOk := by
  cases g
  cases g'
  dsimp only at hrole hadmin hdefault
  subst hrole hadmin hdefault
  exact ⟨hg.1, hg.2, hg.3, hg.4, hg.5, hg.6, hg.7⟩

private theorem rolesOk_grant (hg : g.RolesOk) (h : g.internalGrantRole role account = .ok g') : g'.RolesOk := by
  obtain ⟨hsep, ⟨-, rfl⟩ | ⟨hnew, rfl⟩⟩ := grantRole_cases h
  · exact hg
  have hadmin := holders_grant hnew .admin
  have hdefault := holders_grant hnew .defaultAdmin
  -- a new member of a tier holds none of the two others
  have hdisjoint : ∀ a, a = account → g.separationBlocks role a = false := by
    intro a ha
    rw [ha]
    exact hsep
  refine ⟨fun a => ?_, fun a => ?_, fun a => ?_, ?_, ?_, ?_, ?_⟩
  · have h1 := hg.admin_pauser a
    have h2 := hdisjoint a
    cases role <;> simp_all [isAdminTier, separationBlocks] <;> grind
  · have h1 := hg.admin_agent a
    have h2 := hdisjoint a
    cases role <;> simp_all [isAdminTier, separationBlocks] <;> grind
  · have h1 := hg.pauser_agent a
    have h2 := hdisjoint a
    cases role <;> simp_all [isAdminTier, separationBlocks] <;> grind
  · have := hg.adminCount
    show g.adminCount + _ = (g.setRole role account true).holders .admin
    omega
  · have := hg.defaultAdminCount
    show g.defaultAdminCount + _ = (g.setRole role account true).holders .defaultAdmin
    omega
  · have := hg.admin_floor
    show 1 ≤ g.adminCount + _
    omega
  · have := hg.defaultAdmin_floor
    show 1 ≤ g.defaultAdminCount + _
    omega

private theorem rolesOk_revoke (hg : g.RolesOk) (h : g.internalRevokeRole role account = .ok g') : g'.RolesOk := by
  obtain ⟨-, rfl⟩ | ⟨hheld, hadmin, hdefault, rfl⟩ := revokeRole_cases h
  · exact hg
  have hcount := holders_revoke hheld .admin
  have hcount' := holders_revoke hheld .defaultAdmin
  have h1 := hg.adminCount
  have h2 := hg.defaultAdminCount
  have h3 := hg.admin_floor
  have h4 := hg.defaultAdmin_floor
  have hfew : ∀ r a, (g.setRole role account false).hasRole r a = true → g.hasRole r a = true := by
    intro r a hr
    rw [setRole_hasRole] at hr
    split at hr
    · cases hr
    · exact hr
  have htier : ∀ a, (g.setRole role account false).isAdminTier a = true → g.isAdminTier a = true := by
    intro a ha
    simp only [isAdminTier, Bool.or_eq_true] at ha ⊢
    exact ha.imp (hfew _ a) (hfew _ a)
  -- the floor leaves the last holder of a tier in place
  have hfloor : 1 ≤ g.adminCount - moved .admin role := by
    unfold moved at *
    split
    · rename_i hrole
      have := hadmin hrole
      omega
    · omega
  have hfloor' : 1 ≤ g.defaultAdminCount - moved .defaultAdmin role := by
    unfold moved at *
    split
    · rename_i hrole
      have := hdefault hrole
      omega
    · omega
  refine ⟨fun a ha => hg.admin_pauser a ⟨htier a ha.1, hfew _ a ha.2⟩,
    fun a ha => hg.admin_agent a ⟨htier a ha.1, hfew _ a ha.2⟩,
    fun a ha => hg.pauser_agent a ⟨hfew _ a ha.1, hfew _ a ha.2⟩, ?_, ?_, hfloor, hfloor'⟩
  · show g.adminCount - _ = (g.setRole role account false).holders .admin
    omega
  · show g.defaultAdminCount - _ = (g.setRole role account false).holders .defaultAdmin
    omega

def RollingWindow.Cleared (w : RollingWindow) : Prop := w.head = 0 ∧ w.count = 0 ∧ w.total = 0

/-- A policy that `owner` may set for as long as it runs: the bounds of `_validatePolicy` all hold, the one on
`validUntil` until then. -/
structure PolicyOk (owner : Address) (p : AgentPolicy) : Prop where
  receiver : p.shareReceiver = owner
  nonempty : p.allowedDestinations ≠ []
  nonzero : 0 ∉ p.allowedDestinations
  bounds : ∀ now, validatePolicy owner p now = .ok () ↔ now ≤ p.validUntil

/-- An account is clear or registered. -/
inductive Gateway.AccountOk (g : Gateway W) (a : Address) : Prop where
  | unregistered (owner : g.agentOwner a = 0) (role : g.hasRole .agent a = false) (policy : g.agents a = .zero)
      (window : RollingWindow.Cleared (g.depositWindow a)) (summary : g.agentDepositWindow a = ⟨0, 0⟩)
  | registered (owner : g.agentOwner a ≠ 0) (role : g.hasRole .agent a = true) (active : (g.agents a).active = true)
      (policy : PolicyOk (g.agentOwner a) (g.agents a))

/-- Two gateways that agree on everything about one account. -/
structure Gateway.SameAccount (g g' : Gateway W) (a : Address) : Prop where
  owner : g'.agentOwner a = g.agentOwner a
  role : g'.hasRole .agent a = g.hasRole .agent a
  policy : g'.agents a = g.agents a
  window : g'.depositWindow a = g.depositWindow a
  summary : g'.agentDepositWindow a = g.agentDepositWindow a

private theorem SameAccount.accountOk (h : g.SameAccount g' a) (hg : g.AccountOk a) : g'.AccountOk a := by
  obtain ⟨howner, hrole, hpolicy, hwindow, hsummary⟩ := h
  cases hg with
  | unregistered owner role policy window summary =>
    exact .unregistered (howner.trans owner) (hrole.trans role) (hpolicy.trans policy) (by rwa [hwindow])
      (hsummary.trans summary)
  | registered owner role active policy =>
    exact .registered (by rwa [howner]) (hrole.trans role) (by rwa [hpolicy]) (by rwa [howner, hpolicy])

private theorem policyOk_of_validatePolicy {caller : Address} {u : Unit} (h : validatePolicy caller p now = .ok u) :
    p.active = true ∧ now ≤ p.validUntil ∧ PolicyOk caller p := by
  simp only [validatePolicy, bind_eq_ok, revertIf_eq_ok] at h
  obtain ⟨-, hreceiver, -, hactive, -, huntil, -, hzero, -, hcaps, -, hlen, -, hdest, hretired⟩ := h
  refine ⟨by simpa using hactive, by omega, by simpa using hreceiver, ?_, hdest, ?_⟩
  · intro hnil
    rw [hnil] at hlen
    exact hlen rfl
  · intro t
    simp only [validatePolicy, bind_eq_ok, revertIf_eq_ok]
    constructor
    · rintro ⟨-, -, -, -, -, ht, -⟩
      omega
    · intro ht
      exact ⟨(), hreceiver, (), hactive, (), by omega, (), hzero, (), hcaps, (), hlen, (), hdest, hretired⟩

/-- The registration invariant. -/
structure Gateway.Registered (g : Gateway W) : Prop where
  account : ∀ a, g.AccountOk a
  roles : g.RolesOk

open Gateway

section

variable (ha : role ≠ .agent ∨ a ≠ account)

include ha

theorem setRole_agent (held : Bool) : (g.setRole role account held).hasRole .agent a = g.hasRole .agent a := by
  rw [setRole_hasRole, if_neg]
  rintro ⟨rfl, rfl⟩
  simp at ha

theorem sameAccount_grant (h : g.internalGrantRole role account = .ok g') : g.SameAccount g' a := by
  obtain ⟨-, ⟨-, rfl⟩ | ⟨-, rfl⟩⟩ := grantRole_cases h
  · exact ⟨rfl, rfl, rfl, rfl, rfl⟩
  · exact ⟨rfl, setRole_agent ha true, rfl, rfl, rfl⟩

theorem sameAccount_revoke (h : g.internalRevokeRole role account = .ok g') : g.SameAccount g' a := by
  obtain ⟨-, rfl⟩ | ⟨-, -, -, rfl⟩ := revokeRole_cases h
  · exact ⟨rfl, rfl, rfl, rfl, rfl⟩
  · exact ⟨rfl, setRole_agent ha false, rfl, rfl, rfl⟩

end

private theorem granted_role (h : g.internalGrantRole role account = .ok g') :
    g'.hasRole role account = true ∧ g'.agentOwner = g.agentOwner ∧ g'.agents = g.agents := by
  obtain ⟨-, ⟨hheld, rfl⟩ | ⟨-, rfl⟩⟩ := grantRole_cases h
  · exact ⟨hheld, rfl, rfl⟩
  refine ⟨?_, rfl, rfl⟩
  show (g.setRole role account true).hasRole role account = true
  simp

private theorem revoked_role (h : g.internalRevokeRole role account = .ok g') :
    g'.hasRole role account = false ∧ g'.agentOwner = g.agentOwner ∧ g'.agents = g.agents ∧
      g'.depositWindow = g.depositWindow := by
  obtain ⟨hheld, rfl⟩ | ⟨-, -, -, rfl⟩ := revokeRole_cases h
  · exact ⟨hheld, rfl, rfl, rfl⟩
  refine ⟨?_, rfl, rfl, rfl⟩
  show (g.setRole role account false).hasRole role account = false
  simp

section

variable (hg : g.Registered)

include hg

private theorem registered_endRegistration (h : g.endRegistration agent = .ok g') :
    g'.Registered ∧ g'.agentOwner agent = 0 := by
  simp only [endRegistration, bind_eq_ok, ok.injEq] at h
  obtain ⟨g₁, hrev, rfl⟩ := h
  obtain ⟨hrole, howner, hagents, hwindow⟩ := revoked_role hrev
  have hclear : g₁.agentOwner agent = 0 := by simp [howner]
  refine ⟨⟨fun a => ?_, ?_⟩, hclear⟩
  · by_cases ha : a = agent
    · subst ha
      refine .unregistered hclear hrole (by simp [hagents]) ?_ (by simp)
      show RollingWindow.Cleared (update g₁.depositWindow a _ a)
      simp [RollingWindow.Cleared, endRegistrationWindow]
    have hsame := sameAccount_revoke (.inr ha) hrev
    refine SameAccount.accountOk (g := g) ⟨?_, hsame.role, ?_, ?_, ?_⟩ (hg.account a)
    · exact hsame.owner.trans (update_of_ne ha ..)
    · exact hsame.policy.trans (update_of_ne ha ..)
    · exact (update_of_ne ha ..).trans hsame.window
    · exact (update_of_ne ha ..).trans hsame.summary
  · have hroles : g₁.RolesOk := by
      refine rolesOk_revoke ?_ hrev
      exact RolesOk.congr hg.roles rfl rfl rfl
    exact RolesOk.congr hroles rfl rfl rfl

private theorem registered_releaseExpired (h : g.releaseExpired agent now = .ok g') :
    g'.Registered ∧ g'.agentOwner agent = 0 := by
  unfold releaseExpired at h
  split at h
  · rw [bind_eq_ok] at h
    obtain ⟨-, -, h⟩ := h
    exact registered_endRegistration hg h
  rename_i howner
  cases h
  exact ⟨hg, not_not.1 howner⟩

private theorem registered_register {sender agent : Address} (hsender : sender ≠ 0)
    (h : g.register sender agent p now = .ok g') : g'.Registered := by
  simp only [register, bind_eq_ok, ok.injEq] at h
  obtain ⟨-, -, g₁, hrel, u, hvalid, g₂, hgrant, -, -, rfl⟩ := h
  obtain ⟨hg₁, -⟩ := registered_releaseExpired hg hrel
  obtain ⟨hactive, -, hpolicy⟩ := policyOk_of_validatePolicy hvalid
  obtain ⟨hrole, howner, hagents⟩ := granted_role hgrant
  refine ⟨fun a => ?_, ?_⟩
  · by_cases ha : a = agent
    · subst ha
      have hown : g₂.agentOwner a = sender := by simp [howner]
      have hpol : g₂.agents a = p := by simp [hagents]
      exact .registered (by rwa [hown]) hrole (by rwa [hpol]) (by rwa [hown, hpol])
    have hsame := sameAccount_grant (.inr ha) hgrant
    refine SameAccount.accountOk (g := g₁) ⟨?_, hsame.role, ?_, hsame.window, hsame.summary⟩ (hg₁.account a)
    · exact hsame.owner.trans (update_of_ne ha ..)
    · exact hsame.policy.trans (update_of_ne ha ..)
  · refine rolesOk_grant ?_ hgrant
    exact RolesOk.congr hg₁.roles rfl rfl rfl

private theorem registered_setPolicy {sender agent : Address} (hnow : 0 < now)
    (h : g.setPolicy sender agent p now = .ok g') : g'.Registered := by
  simp only [setPolicy, bind_eq_ok, revertIf_eq_ok, ne_eq, not_not, ok.injEq] at h
  obtain ⟨-, -, -, howner, -, hlive, u, hvalid, rfl⟩ := h
  obtain ⟨hactive, -, hpolicy⟩ := policyOk_of_validatePolicy hvalid
  refine ⟨fun a => ?_, RolesOk.congr hg.roles rfl rfl rfl⟩
  by_cases ha : a = agent
  · subst ha
    cases hg.account a with
    | unregistered _ _ hzero =>
      rw [hzero] at hlive
      exact absurd hnow (by simpa [AgentPolicy.zero] using hlive)
    | registered hown hrole =>
      exact .registered hown hrole (by simpa using hactive) (by simpa [howner] using hpolicy)
  · exact SameAccount.accountOk (g := g) ⟨rfl, rfl, update_of_ne ha .., rfl, rfl⟩ (hg.account a)

theorem registered_of_role (hsame : ∀ a, g.SameAccount g' a) (hroles : g'.RolesOk) : g'.Registered :=
  ⟨fun a => SameAccount.accountOk (hsame a) (hg.account a), hroles⟩

private theorem Registered.congr (hsame : ∀ a, g.SameAccount g' a)
    (hrole : g'.hasRole = g.hasRole) (hadmin : g'.adminCount = g.adminCount)
    (hdefault : g'.defaultAdminCount = g.defaultAdminCount) : g'.Registered :=
  registered_of_role hg hsame (RolesOk.congr hg.roles hrole hadmin hdefault)

theorem registered_accrueDeposit {amount cap now : Nat} (hrole : g.hasRole .agent agent = true)
    (h : g.accrueDeposit agent amount cap now = .ok g') : g'.Registered := by
  unfold accrueDeposit at h
  split at h
  · cases h
  cases h
  refine ⟨fun a => ?_, RolesOk.congr hg.roles rfl rfl rfl⟩
  by_cases ha : a = agent
  · subst ha
    cases hg.account a with
    | unregistered _ hnone =>
      rw [hrole] at hnone
      cases hnone
    | registered hown _ hactive hpolicy => exact .registered hown hrole hactive hpolicy
  exact SameAccount.accountOk (g := g) ⟨rfl, rfl, rfl, update_of_ne ha .., update_of_ne ha ..⟩
    (hg.account a)

end

section Step

variable [DecidableEq W] {enc : Encoding W}

variable {s : GatewayState W}

private theorem reveal_sender_ne_zero (hs : s.CommitmentsMatch enc) {g : Gateway W} {sender agent : Address}
    {salt : W} (h : s.gateway.consumeOwner enc sender agent salt s.block = .ok g) : sender ≠ 0 := by
  rintro rfl
  simp only [consumeOwner, bind_eq_ok, revertIf_eq_ok] at h
  obtain ⟨-, hfound, -⟩ := h
  rw [hs.stored] at hfound
  cases hp : pending s.history 0 (ownerHash enc agent 0 salt) with
  | none => exact hfound (by rw [hp]; rfl)
  | some b => exact hfound (by rw [hp]; rfl)

private theorem registered_reveal (hs : s.CommitmentsMatch enc) (hg : s.gateway.Registered) {g' : Gateway W}
    {sender : Address} {callData : Calldata} (h : s.gateway.revealAuthorization enc sender callData s.block = .ok g') :
    g'.Registered := by
  unfold revealAuthorization at h
  split at h
  · cases h
  rename_i agent salt p hdec
  simp only [bind_eq_ok] at h
  obtain ⟨g₁, hown, g₂, hreg, hcons⟩ := h
  have hsender := reveal_sender_ne_zero hs hown
  have hg₁ : g₁.Registered := by
    simp only [consumeOwner, bind_eq_ok, ok.injEq] at hown
    obtain ⟨-, -, -, -, -, -, rfl⟩ := hown
    exact Registered.congr hg (fun a => ⟨rfl, rfl, rfl, rfl, rfl⟩) rfl rfl rfl
  have hg₂ : g₂.Registered := registered_register hg₁ hsender hreg
  unfold consumeConsent at hcons
  split at hcons
  · simp only [bind_eq_ok, ok.injEq] at hcons
    obtain ⟨-, -, -, -, rfl⟩ := hcons
    exact Registered.congr hg₂ (fun a => ⟨rfl, rfl, rfl, rfl, rfl⟩) rfl rfl rfl
  cases hcons
  exact hg₂

/-- Step lemma: every call of the gateway keeps the invariant. -/
theorem registered_step {s s' : GatewayState W} {c : GatewayCall W} (hs : s.CommitmentsMatch enc)
    (hg : s.gateway.Registered) (h : gatewayStep enc s c = .ok s') : s'.gateway.Registered := by
  cases c with
  | advance blocks t =>
    cases h
    exact hg
  | commitAuthorization sender hash =>
    cases h
    exact Registered.congr hg (fun a => ⟨rfl, rfl, rfl, rfl, rfl⟩) rfl rfl rfl
  | revealAuthorization sender callData =>
    simp only [gatewayStep, bind_eq_ok, ok.injEq] at h
    obtain ⟨g, hrev, rfl⟩ := h
    exact registered_reveal hs hg hrev
  | setPolicy sender agent p =>
    simp only [gatewayStep, bind_eq_ok, ok.injEq] at h
    obtain ⟨g, hset, rfl⟩ := h
    exact registered_setPolicy hg s.block.timestamp.pos hset
  | revokeAgent sender agent =>
    simp only [gatewayStep, revokeAgent, bind_eq_ok, ok.injEq] at h
    obtain ⟨g, ⟨-, -, -, -, hend⟩, rfl⟩ := h
    exact (registered_endRegistration hg hend).1
  | grantRole sender role account =>
    simp only [gatewayStep, grantRole, bind_eq_ok, revertIf_eq_ok, ok.injEq] at h
    obtain ⟨g, ⟨-, hrole, -, -, hgrant⟩, rfl⟩ := h
    exact registered_of_role hg (fun a => sameAccount_grant (.inl hrole) hgrant) (rolesOk_grant hg.roles hgrant)
  | revokeRole sender role account | renounceRole sender role confirmation =>
    simp only [gatewayStep, revokeRole, renounceRole, bind_eq_ok, revertIf_eq_ok, ok.injEq] at h
    obtain ⟨g, ⟨-, hrole, -, -, hrev⟩, rfl⟩ := h
    exact registered_of_role hg (fun a => sameAccount_revoke (.inl hrole) hrev) (rolesOk_revoke hg.roles hrev)
  | pauseDeposits sender | unpauseDeposits sender =>
    simp only [gatewayStep, pauseDeposits, unpauseDeposits, bind_eq_ok, ok.injEq] at h
    obtain ⟨g, ⟨-, -, -, -, rfl⟩, rfl⟩ := h
    exact Registered.congr hg (fun a => ⟨rfl, rfl, rfl, rfl, rfl⟩) rfl rfl rfl

private theorem registered_run (hs : s.CommitmentsMatch enc) (hg : s.gateway.Registered) (cs : List (GatewayCall W)) :
    (run (gatewayStep enc) s cs).CommitmentsMatch enc ∧ (run (gatewayStep enc) s cs).gateway.Registered :=
  run_invariant (P := fun s : GatewayState W => s.CommitmentsMatch enc ∧ s.gateway.Registered)
    (fun _ _ _ hP h => ⟨commitmentsMatch_step hP.1 h, registered_step hP.1 hP.2 h⟩) ⟨hs, hg⟩ cs

end Step

section Payments

variable [DecidableEq W] {enc : PaymentEncoding W} {site : GatewaySite} {out : Counterparties W σ}

theorem registered_paymentStep {s s' : PaymentState W σ} {c : PaymentCall W σ}
    (hs : s.registration.CommitmentsMatch enc.toEncoding) (hg : s.registration.gateway.Registered)
    (h : paymentStep enc site out s c = .ok s') :
    s'.registration.CommitmentsMatch enc.toEncoding ∧ s'.registration.gateway.Registered := by
  cases c with
  | lifecycle c =>
    simp only [paymentStep] at h
    split at h
    · cases h
    rename_i r hr
    cases h
    exact ⟨commitmentsMatch_step hs hr, registered_step hs hg hr⟩
  | depositTo sender d =>
    simp only [paymentStep, bind_eq_ok, ok.injEq] at h
    obtain ⟨s₁, hd, rfl⟩ := h
    obtain ⟨g, o, r, hcheck, -, haccrue, -, -, rfl⟩ := depositTo_eq_ok hd
    obtain ⟨hrole, -, -⟩ := checkPayment_eq_ok hcheck
    have hcommit : g.commitments = s.registration.gateway.commitments := by
      unfold accrueDeposit at haccrue
      split at haccrue
      · cases haccrue
      cases haccrue
      rfl
    have hg' : g.Registered := registered_accrueDeposit hg hrole haccrue
    have hs' : ({ s.registration with gateway := g } : GatewayState W).CommitmentsMatch enc.toEncoding := by
      refine ⟨fun h a => ?_, hs.past, hs.consented⟩
      show g.commitments _ = _
      rw [hcommit]
      exact hs.stored h a
    exact registered_run hs' hg' _
  | elsewhere o =>
    cases h
    exact ⟨hs, hg⟩

end Payments

theorem initialize_eq_ok {usdc admin pauser : Address} (h : Gateway.initialize usdc admin pauser = .ok g) :
    admin ≠ pauser ∧ g = init admin pauser := by
  simp only [bind_eq_ok, Gateway.initialize] at h
  obtain ⟨-, -, -, -, -, -, g₁, h₁, g₂, h₂, h₃⟩ := h
  obtain ⟨-, ⟨hheld, -⟩ | ⟨-, rfl⟩⟩ := grantRole_cases h₁
  · cases hheld
  obtain ⟨-, ⟨hheld, -⟩ | ⟨-, rfl⟩⟩ := grantRole_cases h₂
  · simp [blank, setRole] at hheld
  obtain ⟨hsep, ⟨hheld, -⟩ | ⟨-, rfl⟩⟩ := grantRole_cases h₃
  · simp [blank, setRole] at hheld
  constructor
  · rintro rfl
    simp [separationBlocks, isAdminTier, blank, setRole] at hsep
  · simp only [Gateway.init, Gateway.blank, Gateway.setRole, Gateway.mk.injEq, true_and]
    refine ⟨?_, rfl, rfl⟩
    funext r a
    by_cases hadmin : a = admin <;> by_cases hpauser : a = pauser <;> cases r <;> simp [hadmin, hpauser]

theorem registered_init {admin pauser : Address} (h : admin ≠ pauser) :
    (init admin pauser : Gateway W).Registered := by
  refine ⟨fun a => .unregistered rfl (by simp [init]) rfl ⟨rfl, rfl, rfl⟩ rfl, ?_⟩
  refine ⟨fun a => ?_, fun a => ?_, fun a => ?_, ?_, ?_, Nat.le_refl _, Nat.le_refl _⟩
  · simp only [init, isAdminTier, Bool.or_eq_true, decide_eq_true_eq]
    rintro ⟨hadmin, hpauser⟩
    simp only [reduceCtorEq, false_and, true_and, or_false, false_or, or_self] at hadmin hpauser
    exact h (hadmin.symm.trans hpauser)
  · simp [init]
  · simp [init]
  · simp [init, holders, filter_eq']
  · simp [init, holders, filter_eq']

/-- The registration invariant.  In every state some run of the initialised gateway reaches, with registrations, role
calls and payments in any order:

* an account has an owner exactly when it has the agent role, and the role exactly when its policy is active;
* an active policy pays its owner, names destinations and none is zero, and `_validatePolicy` accepts it from its owner
  at exactly the times up to its `validUntil`;
* an account without an owner has the zero policy and a cleared window;
* no account is in two of the tiers admin, pauser and agent;
* each admin counter is the number of holders of its role, and at least one. -/
theorem registration_invariant [DecidableEq W] (enc : PaymentEncoding W) (site : GatewaySite) (out : Counterparties W σ)
    {usdc admin pauser : Address} {g₀ : Gateway W} (h₀ : Gateway.initialize usdc admin pauser = .ok g₀)
    (block : Block) (o : σ) {s : PaymentState W σ}
    (hs : Reachable (paymentStep enc site out) (PaymentState.init g₀ block o) s) :
    let g := s.registration.gateway
    (∀ a, (g.agentOwner a ≠ 0 ↔ g.hasRole .agent a = true) ∧
      (g.hasRole .agent a = true ↔ (g.agents a).active = true)) ∧
    (∀ a, (g.agents a).active = true → (g.agents a).shareReceiver = g.agentOwner a ∧
      (g.agents a).allowedDestinations ≠ [] ∧ 0 ∉ (g.agents a).allowedDestinations ∧
      ∀ now, validatePolicy (g.agentOwner a) (g.agents a) now = .ok () ↔ now ≤ (g.agents a).validUntil) ∧
    (∀ a, g.agentOwner a = 0 → g.agents a = .zero ∧ RollingWindow.Cleared (g.depositWindow a) ∧
      g.agentDepositWindow a = ⟨0, 0⟩) ∧
    (∀ a, ¬ (g.isAdminTier a = true ∧ g.hasRole .depositPauser a = true) ∧
      ¬ (g.isAdminTier a = true ∧ g.hasRole .agent a = true) ∧
      ¬ (g.hasRole .depositPauser a = true ∧ g.hasRole .agent a = true)) ∧
    g.adminCount = g.holders .admin ∧ 1 ≤ g.adminCount ∧
    g.defaultAdminCount = g.holders .defaultAdmin ∧ 1 ≤ g.defaultAdminCount := by
  intro g
  have hinv : s.registration.CommitmentsMatch enc.toEncoding ∧ g.Registered := by
    obtain ⟨hne, rfl⟩ := initialize_eq_ok h₀
    apply Reachable.invariant (P := fun s : PaymentState W σ => s.registration.CommitmentsMatch enc.toEncoding ∧
      s.registration.gateway.Registered) hs
    · refine ⟨⟨fun h a => rfl, fun a h b hb => (by cases hb), ?_⟩, registered_init hne⟩
      intro newer older purpose account hash n e
      simp [PaymentState.init] at e
    · exact fun s c s' hP h => registered_paymentStep hP.1 hP.2 h
  obtain ⟨-, hg⟩ := hinv
  clear_value g
  refine ⟨fun a => ?_, fun a hactive => ?_, fun a howner => ?_, fun a => ?_, hg.roles.adminCount, hg.roles.admin_floor,
    hg.roles.defaultAdminCount, hg.roles.defaultAdmin_floor⟩
  · cases hg.account a with
    | unregistered howner hrole hpolicy => simp [howner, hrole, hpolicy, AgentPolicy.zero]
    | registered howner hrole hactive => simp [howner, hrole, hactive]
  · cases hg.account a with
    | unregistered _ _ hpolicy =>
      rw [hpolicy] at hactive
      cases hactive
    | registered _ _ _ hpolicy => exact ⟨hpolicy.receiver, hpolicy.nonempty, hpolicy.nonzero, hpolicy.bounds⟩
  · cases hg.account a with
    | unregistered _ _ hpolicy hwindow hsummary => exact ⟨hpolicy, hwindow, hsummary⟩
    | registered howner' => exact absurd howner howner'
  · exact ⟨hg.roles.admin_pauser a, hg.roles.admin_agent a, hg.roles.pauser_agent a⟩

/-- The sample registration: the owner is the share receiver, and one account is an admin. -/
theorem registration_invariant_sample :
    ∃ g₀, Gateway.initialize 60 1 2 = .ok g₀ ∧
      let s := run (paymentStep sampleEncoding ⟨50, opDepositTo⟩ .plain) (.init g₀ Block.sample sampleWorld)
        sampleRegistration
      (s.registration.gateway.agents 7).shareReceiver = s.registration.gateway.agentOwner 7 ∧
        s.registration.gateway.holders .admin = 1 := by
  refine ⟨_, rfl, ?_⟩
  intro s
  obtain ⟨-, hpolicy, -, -, hadmin, -⟩ := registration_invariant sampleEncoding ⟨50, opDepositTo⟩ .plain
    (show Gateway.initialize 60 1 2 = .ok _ from rfl) Block.sample sampleWorld ⟨sampleRegistration, rfl⟩
  refine ⟨(hpolicy 7 (by decide +kernel)).1, ?_⟩
  rw [← hadmin]
  decide +kernel

/-- An expired registration stays active, and its policy no longer passes the bound on `validUntil`. -/
theorem expired_policy_fails_validation :
    ∃ g₀ s, Gateway.initialize 60 1 2 = .ok g₀ ∧
      Reachable (paymentStep sampleEncoding ⟨50, opDepositTo⟩ .plain) (.init g₀ Block.sample sampleWorld) s ∧
      (s.registration.gateway.agents 7).active = true ∧
      validatePolicy (s.registration.gateway.agentOwner 7) (s.registration.gateway.agents 7)
        s.registration.block.timestamp.val = .error .invalidValidUntil := by
  refine ⟨_, _, rfl, ⟨sampleRegistration ++ [.lifecycle (.advance 1 ⟨101, by decide, by decide⟩)], rfl⟩, ?_, ?_⟩
  · decide +kernel
  · decide +kernel

end RobotMoney
