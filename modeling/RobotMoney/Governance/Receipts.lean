import RobotMoney.Router.PortfolioRouter

/-!
# Applying consensus receipts

Three contracts take part.  `ConsensusRecommendationReceipt` is an append-only register of receipts, each with a
`released` flag; `PortfolioRouter` holds the voted weight vector; `RouterGovernance` is the only account that may
release a receipt or set the vector, and does both in one call, `applyReceipt`.  The governance contract remembers when
the last receipt it applied was recorded, and refuses any that was not recorded later.

The roles and the world around the router may be different at every call.  The history keeps the receipts that were
applied and the times the vector was cleared, the newest first.
-/

namespace RobotMoney.Governance

open Evm List Except

abbrev Bytes32 := BitVec 256

structure Receipt where
  receiptId : Bytes32
  payloadDigest : Bytes32
  payloadUri : String
  submitter : Address
  recordedAt : Nat
  releasedAt : Nat
  released : Bool
  deriving DecidableEq, Repr

/-- `_receipts` and `_indexPlusOne`. -/
structure Register where
  receipts : List Receipt
  indexPlusOne : Bytes32 → Nat

inductive GovernanceError where
  | accessControlUnauthorizedAccount (account : Address)
  | submitterNotAllowlisted
  | emptyReceiptId
  | emptyPayloadDigest
  | emptyPayloadUri
  | receiptAlreadyRecorded
  | receiptNotFound
  | alreadyReleased
  | receiptNotRecorded (receiptId : Bytes32)
  | receiptAlreadyReleased (receiptId : Bytes32)
  | payloadDigestMismatch (receiptId stored given : Bytes32)
  | receiptNotNewerThanApplied (receiptId : Bytes32) (recordedAt lastApplied : Nat)
  | lengthMismatch
  | zeroAddress
  | duplicateVault (vault : Address)
  | invalidWeightSum
  | router (e : RouterError)
  | panic (p : Panic)
  deriving DecidableEq, Repr

instance governancePanics : Panics GovernanceError := ⟨.panic⟩

namespace Register

def isRecorded (r : Register) (receiptId : Bytes32) : Bool := r.indexPlusOne receiptId != 0

def getReceiptById (r : Register) (receiptId : Bytes32) : Except GovernanceError Receipt := do
  revertIf (r.indexPlusOne receiptId = 0) .receiptNotFound
  orPanic .outOfBounds r.receipts[r.indexPlusOne receiptId - 1]?

def recordReceipt (r : Register) (submitters : Address → Bool) (now : BlockTime) (sender : Address)
    (receiptId payloadDigest : Bytes32) (payloadUri : String) : Except GovernanceError Register := do
  revertIf (submitters sender = false) .submitterNotAllowlisted
  revertIf (receiptId = 0) .emptyReceiptId
  revertIf (payloadDigest = 0) .emptyPayloadDigest
  revertIf (payloadUri = "") .emptyPayloadUri
  revertIf (r.indexPlusOne receiptId ≠ 0) .receiptAlreadyRecorded
  .ok {
    receipts := r.receipts ++ [⟨receiptId, payloadDigest, payloadUri, sender, toUint64 now.val, 0, false⟩]
    indexPlusOne := Function.update r.indexPlusOne receiptId (r.receipts.length + 1) }

/-- `releaseReceipt`, after its role check. -/
def releaseReceipt (r : Register) (now : BlockTime) (receiptId : Bytes32) : Except GovernanceError Register := do
  let receipt ← r.getReceiptById receiptId
  revertIf (receipt.released = true) .alreadyReleased
  .ok { r with
    receipts := r.receipts.set (r.indexPlusOne receiptId - 1)
      { receipt with released := true, releasedAt := toUint64 now.val } }

end Register

section Weights

variable {σ : Type} (d : RouterDeployment) (env : RoutedVaults σ)

def requireActiveAndEligible (w : RouterWorld σ) (vault : Address) : Except RouterError Unit := do
  let status ← w.registry.getVault vault
  revertIf (status ≠ .active) (.vaultNotActive vault status)
  requireRouterEligible d env w vault

def orRouter {α : Type} : Except RouterError α → Except GovernanceError α
  | .ok a => .ok a
  | .error e => .error (.router e)

/-- The loop of `setWeights`, with the vaults before the current one, which `_requireNotRepeated` scans, and the sum of
their weights. -/
def checkWeights (w : RouterWorld σ) :
    (earlier : List Address) → List Leg → (total : Nat) → Except GovernanceError Nat
  | _, [], total => .ok total
  | earlier, leg :: rest, total => do
    revertIf (leg.vault = 0) .zeroAddress
    orRouter (requireActiveAndEligible d env w leg.vault)
    revertIf (leg.vault ∈ earlier) (.duplicateVault leg.vault)
    let total ← add total leg.bps
    checkWeights w (earlier ++ [leg.vault]) rest total

/-- `setWeights`, after its role check. -/
def setWeights (r : PortfolioRouter) (w : RouterWorld σ) (vaults : List Address) (bps : List Nat) :
    Except GovernanceError PortfolioRouter := do
  revertIf (vaults.length ≠ bps.length) .lengthMismatch
  let total ← checkWeights d env w [] (zipWith Leg.mk vaults bps) 0
  revertIf (total ≠ 10000) .invalidWeightSum
  .ok { r with weights := zipWith Leg.mk vaults bps, votedWeightsActive := true }

/-- `clearVotedWeights`, after its role check. -/
def clearVotedWeights (r : PortfolioRouter) : PortfolioRouter :=
  { r with weights := [], votedWeightsActive := false }

end Weights

/-- A receipt that was applied: its id, when it was recorded, and the vector that was set. -/
structure Applied where
  receiptId : Bytes32
  recordedAt : Nat
  weights : List Leg
  deriving DecidableEq, Repr

inductive GovernanceEvent where
  | applied (a : Applied)
  | cleared
  deriving DecidableEq, Repr

structure GovernanceState where
  register : Register
  router : PortfolioRouter
  lastAppliedRecordedAt : Nat
  history : List GovernanceEvent

/-- What a call finds: who holds the roles, the block and the world around the router. -/
structure GovernanceWorld (σ : Type) where
  submitter : Address → Bool
  weightSetter : Address → Bool
  governanceAdmin : Address → Bool
  routerAdmin : Address → Bool
  now : BlockTime
  world : RouterWorld σ

/-- The calls.  The governance contract itself makes no call but those of its code; its `clearVotedWeights` forwards to
the router, whose own admins may call it too. -/
inductive GovernanceCall (governance : Address) where
  | recordReceipt (sender : Address) (receiptId payloadDigest : Bytes32) (payloadUri : String)
  | applyReceipt (sender : Address) (receiptId payloadDigest : Bytes32) (vaults : List Address) (bps : List Nat)
  | clearVotedWeights (sender : Address)
  | routerClearVotedWeights (sender : { a : Address // a ≠ governance })
  | routerSetWeights (sender : { a : Address // a ≠ governance }) (vaults : List Address) (bps : List Nat)
  | releaseReceipt (sender : { a : Address // a ≠ governance }) (receiptId : Bytes32)

section Machine

variable {σ : Type} (d : RouterDeployment) (env : RoutedVaults σ) (governance : Address)

def onlyRole (holds : Address → Bool) (sender : Address) : Except GovernanceError Unit :=
  revertIf (holds sender = false) (.accessControlUnauthorizedAccount sender)

def applyReceipt (s : GovernanceState) (w : GovernanceWorld σ) (sender : Address) (receiptId payloadDigest : Bytes32)
    (vaults : List Address) (bps : List Nat) : Except GovernanceError GovernanceState := do
  onlyRole w.weightSetter sender
  revertIf (s.register.isRecorded receiptId = false) (.receiptNotRecorded receiptId)
  let r ← s.register.getReceiptById receiptId
  revertIf (r.released = true) (.receiptAlreadyReleased receiptId)
  revertIf (r.payloadDigest ≠ payloadDigest) (.payloadDigestMismatch receiptId r.payloadDigest payloadDigest)
  revertIf (r.recordedAt ≤ s.lastAppliedRecordedAt)
    (.receiptNotNewerThanApplied receiptId r.recordedAt s.lastAppliedRecordedAt)
  let register ← s.register.releaseReceipt w.now receiptId
  let router ← setWeights d env s.router w.world vaults bps
  .ok {
    register
    router
    lastAppliedRecordedAt := r.recordedAt
    history := .applied ⟨receiptId, r.recordedAt, zipWith Leg.mk vaults bps⟩ :: s.history }

def clear (s : GovernanceState) : GovernanceState :=
  { s with router := clearVotedWeights s.router, history := .cleared :: s.history }

/-- Only the governance contract holds the router's `WEIGHT_SETTER_ROLE` and the register's `RECEIPT_RELEASER_ROLE`. -/
def governanceStep (s : GovernanceState) :
    GovernanceWorld σ × GovernanceCall governance → Except GovernanceError GovernanceState
  | (w, .recordReceipt sender receiptId payloadDigest payloadUri) => do
    let register ← s.register.recordReceipt w.submitter w.now sender receiptId payloadDigest payloadUri
    .ok { s with register }
  | (w, .applyReceipt sender receiptId payloadDigest vaults bps) =>
    applyReceipt d env s w sender receiptId payloadDigest vaults bps
  | (w, .clearVotedWeights sender) => do
    onlyRole w.governanceAdmin sender
    onlyRole w.routerAdmin governance
    .ok (clear s)
  | (w, .routerClearVotedWeights sender) => do
    onlyRole w.routerAdmin sender.val
    .ok (clear s)
  | (w, .routerSetWeights sender vaults bps) => do
    onlyRole (· == governance) sender.val
    let router ← setWeights d env s.router w.world vaults bps
    .ok { s with router }
  | (w, .releaseReceipt sender receiptId) => do
    onlyRole (· == governance) sender.val
    let register ← s.register.releaseReceipt w.now receiptId
    .ok { s with register }

end Machine

/-- New contracts: nothing recorded, applied or set. -/
structure GovernanceState.Fresh (s : GovernanceState) : Prop where
  receipts : s.register.receipts = []
  indexPlusOne : ∀ id, s.register.indexPlusOne id = 0
  weights : s.router.weights = [] ∧ s.router.votedWeightsActive = false
  lastAppliedRecordedAt : s.lastAppliedRecordedAt = 0
  history : s.history = []

namespace Register

variable {r r' : Register} {receiptId : Bytes32} {now : BlockTime}

def lookup (r : Register) (receiptId : Bytes32) : Option Receipt :=
  if r.indexPlusOne receiptId = 0 then none else r.receipts[r.indexPlusOne receiptId - 1]?

def WellFormed (r : Register) : Prop :=
  ∀ id, r.indexPlusOne id ≠ 0 → ∃ receipt, r.receipts[r.indexPlusOne id - 1]? = some receipt ∧ receipt.receiptId = id

private theorem getReceiptById_eq_ok {receipt : Receipt} :
    r.getReceiptById receiptId = .ok receipt ↔ r.lookup receiptId = some receipt := by
  simp only [getReceiptById, lookup, bind_eq_ok, revertIf_eq_ok, orPanic_eq_ok]
  split
  · simp [*]
  · simp [*]

private theorem WellFormed.slot_ne (h : r.WellFormed) {id id' : Bytes32} (hne : id ≠ id') (hid : r.indexPlusOne id ≠ 0)
    (hid' : r.indexPlusOne id' ≠ 0) : r.indexPlusOne id - 1 ≠ r.indexPlusOne id' - 1 := by
  intro heq
  obtain ⟨receipt, hget, hreceipt⟩ := h id hid
  obtain ⟨receipt', hget', hreceipt'⟩ := h id' hid'
  rw [heq, hget'] at hget
  cases hget
  exact hne (hreceipt.symm.trans hreceipt')

private theorem recordReceipt_spec {submitters : Address → Bool} {sender : Address} {payloadDigest : Bytes32}
    {payloadUri : String} (hwf : r.WellFormed)
    (h : r.recordReceipt submitters now sender receiptId payloadDigest payloadUri = .ok r') :
    r.lookup receiptId = none ∧ r'.WellFormed ∧ ∃ receipt, receipt.released = false ∧
      ∀ id, r'.lookup id = if id = receiptId then some receipt else r.lookup id := by
  simp only [recordReceipt, bind_eq_ok, revertIf_eq_ok, ok.injEq] at h
  obtain ⟨u₁, -, u₂, -, u₃, -, u₄, -, u₅, hnew, rfl⟩ := h
  have hnew := not_not.1 hnew
  have hold : ∀ id, id ≠ receiptId → r.indexPlusOne id ≠ 0 → r.indexPlusOne id - 1 < r.receipts.length := by
    intro id _ hid
    obtain ⟨receipt, hget, -⟩ := hwf id hid
    exact (List.getElem?_eq_some_iff.1 hget).1
  refine ⟨by simp [lookup, hnew], ?_,
    ⟨receiptId, payloadDigest, payloadUri, sender, toUint64 now.val, 0, false⟩, rfl, ?_⟩
  · intro id hid
    rcases eq_or_ne id receiptId with rfl | hne
    · simp
    simp only [Function.update_of_ne hne] at hid ⊢
    rw [getElem?_append_left (hold id hne hid)]
    exact hwf id hid
  · intro id
    rcases eq_or_ne id receiptId with rfl | hne
    · simp [lookup]
    rw [if_neg hne]
    simp only [lookup, Function.update_of_ne hne]
    split
    · rfl
    · next hid => rw [getElem?_append_left (hold id hne hid)]

private theorem releaseReceipt_spec (hwf : r.WellFormed) (h : r.releaseReceipt now receiptId = .ok r') :
    ∃ receipt, r.lookup receiptId = some receipt ∧ receipt.released = false ∧ r'.WellFormed ∧
      ∀ id, r'.lookup id = if id = receiptId then
        some { receipt with released := true, releasedAt := toUint64 now.val } else r.lookup id := by
  simp only [releaseReceipt, bind_eq_ok, getReceiptById_eq_ok, revertIf_eq_ok, ok.injEq] at h
  obtain ⟨receipt, hget, u, hrel, rfl⟩ := h
  have hslot : r.indexPlusOne receiptId ≠ 0 := by
    intro h0
    simp [lookup, h0] at hget
  have hreceipt : r.receipts[r.indexPlusOne receiptId - 1]? = some receipt := by
    simpa [lookup, hslot] using hget
  have hlt := (List.getElem?_eq_some_iff.1 hreceipt).1
  refine ⟨receipt, hget, by simpa using hrel, ?_, ?_⟩
  · intro id hid
    rcases eq_or_ne id receiptId with rfl | hne
    · obtain ⟨receipt', hget', hid'⟩ := hwf id hid
      rw [hreceipt] at hget'
      cases hget'
      exact ⟨_, getElem?_set_self hlt, hid'⟩
    have hne' := hwf.slot_ne hne.symm hslot hid
    simp only [getElem?_set_ne hne']
    exact hwf id hid
  · intro id
    rcases eq_or_ne id receiptId with rfl | hne
    · simp [lookup, hslot, hlt]
    rw [if_neg hne]
    simp only [lookup]
    split
    · rfl
    · next hid => rw [getElem?_set_ne (hwf.slot_ne hne.symm hslot hid)]

end Register

namespace GovernanceState

def applied (s : GovernanceState) : List Applied :=
  s.history.filterMap fun e => match e with
    | .applied a => some a
    | .cleared => none

/-- The voted vector a history leaves: that of the last receipt, unless it was cleared since. -/
def votedWeights : List GovernanceEvent → List Leg × Bool
  | .applied a :: _ => (a.weights, true)
  | _ => ([], false)

structure Sound (s : GovernanceState) : Prop where
  wellFormed : s.register.WellFormed
  released : ∀ a ∈ s.applied, ∃ r, s.register.lookup a.receiptId = some r ∧ r.released = true ∧
    r.recordedAt = a.recordedAt
  order : s.applied.Pairwise fun later earlier =>
    earlier.recordedAt < later.recordedAt ∧ earlier.receiptId ≠ later.receiptId
  last : ∀ a ∈ s.applied, a.recordedAt ≤ s.lastAppliedRecordedAt
  voted : (s.router.weights, s.router.votedWeightsActive) = votedWeights s.history

private theorem Fresh.sound {s : GovernanceState} (h : s.Fresh) : s.Sound := by
  have hnone : s.applied = [] := by simp [applied, h.history]
  constructor
  · intro id hid
    exact absurd (h.indexPlusOne id) hid
  · simp [hnone]
  · simp [hnone]
  · simp [hnone]
  · rw [h.history, h.weights.1, h.weights.2]
    rfl

variable {σ : Type} {d : RouterDeployment} {env : RoutedVaults σ} {governance : Address} {s s' : GovernanceState}
  {w : GovernanceWorld σ}

variable {sender : Address} {receiptId payloadDigest : Bytes32}

private theorem Sound.recordReceipt (hs : s.Sound) {submitters : Address → Bool} {now : BlockTime} {payloadUri : String}
    {register : Register}
    (h : s.register.recordReceipt submitters now sender receiptId payloadDigest payloadUri = .ok register) :
    { s with register := register }.Sound := by
  obtain ⟨hnone, hwf, receipt, -, hlookup⟩ := Register.recordReceipt_spec hs.wellFormed h
  refine ⟨hwf, fun a ha => ?_, hs.order, hs.last, hs.voted⟩
  obtain ⟨r, hr, hreleased⟩ := hs.released a ha
  have hne : a.receiptId ≠ receiptId := by
    intro heq
    rw [heq, hnone] at hr
    cases hr
  exact ⟨r, by rw [hlookup, if_neg hne]; exact hr, hreleased⟩

private theorem applyReceipt_ok {vaults : List Address} {bps : List Nat}
    (h : applyReceipt d env s w sender receiptId payloadDigest vaults bps = .ok s') :
    ∃ r register, s.register.lookup receiptId = some r ∧ r.released = false ∧ r.payloadDigest = payloadDigest ∧
      s.lastAppliedRecordedAt < r.recordedAt ∧ s.register.releaseReceipt w.now receiptId = .ok register ∧
      s' = { register := register
             router := { s.router with weights := zipWith Leg.mk vaults bps, votedWeightsActive := true }
             lastAppliedRecordedAt := r.recordedAt
             history := .applied ⟨receiptId, r.recordedAt, zipWith Leg.mk vaults bps⟩ :: s.history } := by
  simp only [applyReceipt, setWeights, bind_eq_ok, revertIf_eq_ok, Register.getReceiptById_eq_ok, ok.injEq] at h
  obtain ⟨u₁, -, u₂, -, r, hr, u₃, hreleased, u₄, hdigest, u₅, hnewer, register, hrelease, router,
    ⟨u₆, -, total, -, u₇, -, rfl⟩, rfl⟩ := h
  exact ⟨r, register, hr, by simpa using hreleased, not_not.1 hdigest, by omega, hrelease, rfl⟩

private theorem Sound.applyReceipt (hs : s.Sound) {vaults : List Address} {bps : List Nat}
    (h : Governance.applyReceipt d env s w sender receiptId payloadDigest vaults bps = .ok s') : s'.Sound := by
  obtain ⟨r, register, hr, hreleased, -, hnewer, hrelease, rfl⟩ := applyReceipt_ok h
  obtain ⟨receipt, hreceipt, -, hwf, hlookup⟩ := Register.releaseReceipt_spec hs.wellFormed hrelease
  rw [hr] at hreceipt
  cases hreceipt
  -- what was applied before is released, so it is another receipt
  have hother : ∀ a ∈ s.applied, a.receiptId ≠ receiptId := by
    intro a ha heq
    obtain ⟨r', hr', hreleased', -⟩ := hs.released a ha
    rw [heq, hr] at hr'
    cases hr'
    rw [hreleased] at hreleased'
    cases hreleased'
  have hold : ∀ a ∈ s.applied, a.recordedAt < r.recordedAt := by
    intro a ha
    have := hs.last a ha
    omega
  constructor
  · exact hwf
  · intro a ha
    rcases mem_cons.1 ha with rfl | ha
    · exact ⟨{ r with released := true, releasedAt := toUint64 w.now.val }, by rw [hlookup, if_pos rfl], rfl, rfl⟩
    obtain ⟨r', hr', hreleased'⟩ := hs.released a ha
    exact ⟨r', by rw [hlookup, if_neg (hother a ha)]; exact hr', hreleased'⟩
  · exact pairwise_cons.2 ⟨fun a ha => ⟨hold a ha, hother a ha⟩, hs.order⟩
  · intro a ha
    rcases mem_cons.1 ha with rfl | ha
    · exact Nat.le_refl _
    · exact (hold a ha).le
  · rfl

private theorem Sound.clear (hs : s.Sound) : (Governance.clear s).Sound :=
  ⟨hs.wellFormed, hs.released, hs.order, hs.last, rfl⟩

private theorem onlyRole_governance {sender : { a : Address // a ≠ governance }} {u : Unit}
    (h : onlyRole (· == governance) sender.val = .ok u) : False := by
  simp [onlyRole, sender.property] at h

private theorem Sound.step {c : GovernanceWorld σ × GovernanceCall governance} (hs : s.Sound)
    (h : governanceStep d env governance s c = .ok s') : s'.Sound := by
  obtain ⟨w, call⟩ := c
  cases call with
  | recordReceipt sender receiptId payloadDigest payloadUri =>
    simp only [governanceStep, bind_eq_ok, ok.injEq] at h
    obtain ⟨register, hrecord, rfl⟩ := h
    exact hs.recordReceipt hrecord
  | applyReceipt sender receiptId payloadDigest vaults bps => exact hs.applyReceipt h
  | clearVotedWeights sender =>
    simp only [governanceStep, bind_eq_ok, ok.injEq] at h
    obtain ⟨u, -, u', -, rfl⟩ := h
    exact hs.clear
  | routerClearVotedWeights sender =>
    simp only [governanceStep, bind_eq_ok, ok.injEq] at h
    obtain ⟨u, -, rfl⟩ := h
    exact hs.clear
  | routerSetWeights sender vaults bps | releaseReceipt sender receiptId =>
    simp only [governanceStep, bind_eq_ok] at h
    obtain ⟨u, hrole, -⟩ := h
    exact (onlyRole_governance hrole).elim

end GovernanceState

open GovernanceState in
/-- In every reachable state: no receipt was applied twice, the receipts were applied in the order they were recorded
in, and the voted vector is that of the last one unless it was cleared since.  From there, an application that succeeds
finds its receipt recorded and unreleased and makes it the last one, and one that fails changes nothing. -/
theorem receipts_applied_once_in_order {σ : Type} (d : RouterDeployment) (env : RoutedVaults σ) (governance : Address)
    {s₀ s : GovernanceState} (h₀ : s₀.Fresh) (h : Reachable (governanceStep d env governance) s₀ s) :
    (s.applied.map (·.receiptId)).Nodup ∧
      s.applied.Pairwise (fun later earlier => earlier.recordedAt < later.recordedAt) ∧
      (∀ a ∈ s.applied, ∃ r, s.register.lookup a.receiptId = some r ∧ r.released = true ∧
        r.recordedAt = a.recordedAt) ∧
      (s.router.weights, s.router.votedWeightsActive) = votedWeights s.history ∧
      ∀ (w : GovernanceWorld σ) (sender : Address) (receiptId payloadDigest : Bytes32) (vaults : List Address)
        (bps : List Nat),
        (∀ s', applyReceipt d env s w sender receiptId payloadDigest vaults bps = .ok s' →
          ∃ r, s.register.lookup receiptId = some r ∧ r.released = false ∧
            s'.history = .applied ⟨receiptId, r.recordedAt, zipWith Leg.mk vaults bps⟩ :: s.history) ∧
        (∀ e, applyReceipt d env s w sender receiptId payloadDigest vaults bps = .error e →
          exec (governanceStep d env governance) s
            (w, .applyReceipt sender receiptId payloadDigest vaults bps) = s) := by
  have hs : s.Sound := h.invariant h₀.sound fun _ _ _ hs hx => hs.step hx
  refine ⟨?_, hs.order.imp fun h => h.1, hs.released, hs.voted, ?_⟩
  · refine pairwise_map.2 (hs.order.imp ?_)
    intro later earlier hne
    exact hne.2.symm
  · intro w sender receiptId payloadDigest vaults bps
    constructor
    · intro s' hx
      obtain ⟨r, register, hr, hreleased, -, -, -, rfl⟩ := applyReceipt_ok hx
      exact ⟨r, hr, hreleased, rfl⟩
    · intro e hx
      exact exec_of_error hx

/-- Every account holds every role, and every vault answers with the asset 2 and is registered, active and eligible. -/
def sampleWorld : GovernanceWorld Unit where
  submitter _ := true
  weightSetter _ := true
  governanceAdmin _ := true
  routerAdmin _ := true
  now := Block.sample.timestamp
  world := ⟨⟨fun _ => true, fun _ => .active, fun _ => true⟩, ⟨fun _ => 0, fun _ _ => 0⟩, ()⟩

def sampleVaults : RoutedVaults Unit where
  hasCode _ _ := true
  asset _ _ := .returned 2
  maxDeposit _ _ _ := .reverted
  previewDeposit _ _ _ := .reverted
  deposit _ _ _ _ := .reverted

def GovernanceState.sample : GovernanceState := ⟨⟨[], fun _ => 0⟩, ⟨0, fun _ => 0, [], false, []⟩, 0, []⟩

private theorem GovernanceState.sample_fresh : GovernanceState.sample.Fresh :=
  ⟨rfl, fun _ => rfl, ⟨rfl, rfl⟩, rfl, rfl⟩

def sampleApplications : List (GovernanceWorld Unit × GovernanceCall 9) :=
  [(sampleWorld, .recordReceipt 1 5 6 "uri"), (sampleWorld, .applyReceipt 1 5 6 [4] [10000]),
    (sampleWorld, .applyReceipt 1 5 6 [4] [10000])]

theorem receipts_applied_once_in_order_replayed :
    let s := run (governanceStep ⟨3, 2⟩ sampleVaults 9) .sample sampleApplications
    s.history = [.applied ⟨5, 1, [⟨4, 10000⟩]⟩] ∧ (s.applied.map (·.receiptId)).Nodup := by
  intro s
  refine ⟨by decide +kernel, ?_⟩
  exact (receipts_applied_once_in_order ⟨3, 2⟩ sampleVaults 9 GovernanceState.sample_fresh
    ⟨sampleApplications, rfl⟩).1

/-- Only the release of a receipt is to come, and it is final. -/
def Receipt.Continues (r r' : Receipt) : Prop :=
  { r' with releasedAt := r.releasedAt, released := r.released } = r ∧ (r.released = true → r' = r)

section Log

variable {σ : Type} {d : RouterDeployment} {env : RoutedVaults σ} {governance : Address} {s s' : GovernanceState}

private theorem continues_step (hs : s.Sound) {c : GovernanceWorld σ × GovernanceCall governance}
    (h : governanceStep d env governance s c = .ok s') {id : Bytes32} {r : Receipt}
    (hr : s.register.lookup id = some r) :
    ∃ r', s'.register.lookup id = some r' ∧ r.Continues r' := by
  have hsame : r.Continues r := ⟨rfl, fun _ => rfl⟩
  obtain ⟨w, c⟩ := c
  cases c with
  | recordReceipt sender receiptId payloadDigest payloadUri =>
    simp only [governanceStep, bind_eq_ok, ok.injEq] at h
    obtain ⟨register, hrecord, rfl⟩ := h
    obtain ⟨hnone, -, receipt, -, hlookup⟩ := Register.recordReceipt_spec hs.wellFormed hrecord
    have hne : id ≠ receiptId := by
      rintro rfl
      rw [hnone] at hr
      cases hr
    exact ⟨r, by rw [hlookup, if_neg hne]; exact hr, hsame⟩
  | applyReceipt sender receiptId payloadDigest vaults bps =>
    obtain ⟨-, register, -, -, -, -, hrelease, rfl⟩ := GovernanceState.applyReceipt_ok h
    obtain ⟨receipt, hreceipt, hreleased, -, hlookup⟩ := Register.releaseReceipt_spec hs.wellFormed hrelease
    by_cases hid : id = receiptId
    · subst hid
      obtain rfl := Option.some.inj (hr.symm.trans hreceipt)
      exact ⟨_, (hlookup id).trans (if_pos rfl), rfl, fun hdone => by rw [hdone] at hreleased; cases hreleased⟩
    · exact ⟨r, by rw [hlookup, if_neg hid]; exact hr, hsame⟩
  | clearVotedWeights sender =>
    simp only [governanceStep, bind_eq_ok, ok.injEq] at h
    obtain ⟨-, -, -, -, rfl⟩ := h
    exact ⟨r, hr, hsame⟩
  | routerClearVotedWeights sender =>
    simp only [governanceStep, bind_eq_ok, ok.injEq] at h
    obtain ⟨-, -, rfl⟩ := h
    exact ⟨r, hr, hsame⟩
  | routerSetWeights sender vaults bps | releaseReceipt sender receiptId =>
    simp only [governanceStep, bind_eq_ok] at h
    obtain ⟨u, hrole, -⟩ := h
    exact (GovernanceState.onlyRole_governance hrole).elim

/-- A receipt that can be read in some reachable state can be read in every later one, with the id, the digest, the
address of the payload, the submitter and the time that it had; once it is released, nothing of it changes any more. -/
theorem receipts_append_only {s₀ s t : GovernanceState} (h₀ : s₀.Fresh)
    (h : Reachable (governanceStep d env governance) s₀ s) (ht : Reachable (governanceStep d env governance) s t)
    {id : Bytes32} {r : Receipt} (hr : s.register.getReceiptById id = .ok r) :
    ∃ r', t.register.getReceiptById id = .ok r' ∧ r.Continues r' := by
  simp only [Register.getReceiptById_eq_ok] at hr ⊢
  have hs : s.Sound := h.invariant h₀.sound fun _ _ _ hs hx => hs.step hx
  have hkept : t.Sound ∧ ∃ r', t.register.lookup id = some r' ∧ r.Continues r' := by
    refine ht.invariant (P := fun t => t.Sound ∧ ∃ r', t.register.lookup id = some r' ∧ r.Continues r')
      ⟨hs, r, hr, rfl, fun _ => rfl⟩ ?_
    rintro u c u' ⟨hu, r', hr', hcontinues, hfinal⟩ hc
    obtain ⟨r'', hr'', hcontinues', hfinal'⟩ := continues_step hu hc hr'
    refine ⟨hu.step hc, r'', hr'', ?_, ?_⟩
    · rw [← hcontinues, ← hcontinues']
    · intro hdone
      obtain rfl := hfinal hdone
      exact hfinal' hdone
  exact hkept.2

theorem receipts_append_only_released :
    ∃ r', (run (governanceStep ⟨3, 2⟩ sampleVaults 9) .sample sampleApplications).register.getReceiptById 5 = .ok r' ∧
      Receipt.Continues ⟨5, 6, "uri", 1, 1, 0, false⟩ r' :=
  receipts_append_only (s := run (governanceStep ⟨3, 2⟩ sampleVaults 9) .sample (sampleApplications.take 1))
    GovernanceState.sample_fresh ⟨_, rfl⟩ ⟨sampleApplications.drop 1, rfl⟩ rfl

end Log

end RobotMoney.Governance
