import RobotMoney.Evm.Chain
import RobotMoney.Evm.Machine

/-!
# Governed upgrades and the freeze

Storage and entry points of `GovernedUUPS` and the linked library `GovernedUpgrade` behind an ERC-1967 proxy, with the
modifiers of the `Initializable` base (version 5).  The functions of an implementation are arbitrary, so a call is
given by what it does to these slots (`Act`): it may run under an initializer or a reinitializer, record the upgrade
authority, upgrade with calldata attached, freeze, call the proxy again from any account, and change the code at other
addresses, in any order and nesting.  Every implementation inherits `GovernedUUPS`, whose slots live in a namespace of
their own, so nothing else writes them.

The record `history` is not in the contract: it lists the initializers that started and the writes of the slots, the
newest first.
-/

namespace RobotMoney.Upgrade

open Evm

/-- The slot `ERC1967Utils.IMPLEMENTATION_SLOT`, which is also the answer of `proxiableUUID()`. -/
def implementationSlot : BitVec 256 := 0x360894a13ba1a3210667c828492db98dca3e2076cc3735a920a3ca505d382bbc

/-- `type(uint64).max`. -/
def maxVersion : UInt64 := 0xffffffffffffffff

/-- The release mode. -/
inductive UpgradeMode where
  | undeclared
  | upgradeable
  | frozenAtDeploy
  deriving DecidableEq, Repr

/-- What the chain says about the code at each address.  `proxiableUUID` is `none` where the call fails. -/
structure Codes where
  hasCode : Address → Bool
  codehash : Address → BitVec 256
  proxiableUUID : Address → Option (BitVec 256)

/-- The account of a call; no call comes from the zero address. -/
structure Caller where
  account : Address
  ne_zero : account ≠ 0

/-- Initializers started and slots written. -/
inductive UpgradeEvent where
  | initializer (version : UInt64)
  | timelock (timelock : Address)
  | upgraded (sender newImplementation : Address)
  | frozenAtDeploy
  | frozen (sender expectedImplementation : Address) (expectedCodeHash : BitVec 256) (implementation : Address)
      (codeHash : BitVec 256)
  deriving DecidableEq

/-- The slots of a proxy.  `hasCode` is false while the proxy's constructor runs. -/
structure ProxyState where
  implementation : Address
  upgradeTimelock : Address
  upgradesFrozen : Bool
  initialized : UInt64
  initializing : Bool
  hasCode : Bool
  codes : Codes
  history : List UpgradeEvent

inductive UpgradeError where
  | notUpgradeTimelock (caller : Address)
  | upgradesAreFrozen
  | freezeTargetMismatch (liveImplementation : Address) (liveCodeHash : BitVec 256)
  | invalidUpgradeTimelock (timelock : Address)
  | upgradeModeUndeclared
  | invalidInitialization
  | notInitializing
  | invalidImplementation (implementation : Address)
  | unauthorizedCallContext
  | constructed
  | reverted
  deriving DecidableEq

namespace ProxyState

def disableInitializers (s : ProxyState) : ProxyState := { s with initialized := maxVersion }

def init (s : ProxyState) (timelock : Address) (mode : UpgradeMode) : Except UpgradeError ProxyState := do
  revertIf (s.upgradeTimelock ≠ 0) .invalidInitialization
  revertIf (timelock = 0) (.invalidUpgradeTimelock timelock)
  revertIf (mode ≠ .upgradeable ∧ mode ≠ .frozenAtDeploy) .upgradeModeUndeclared
  let s' := { s with upgradeTimelock := timelock, history := .timelock timelock :: s.history }
  if mode = .frozenAtDeploy then
    .ok (disableInitializers { s' with upgradesFrozen := true, history := .frozenAtDeploy :: s'.history })
  else
    .ok s'

def authorize (s : ProxyState) (sender : Caller) : Except UpgradeError Unit := do
  revertIf (sender.account ≠ s.upgradeTimelock) (.notUpgradeTimelock sender.account)
  revertIf (s.upgradesFrozen = true) .upgradesAreFrozen

/-- `upgradeToAndCall` up to the attached call. -/
def upgradeTo (s : ProxyState) (sender : Caller) (newImplementation : Address) : Except UpgradeError ProxyState := do
  s.authorize sender
  revertIf (s.codes.hasCode newImplementation = false) (.invalidImplementation newImplementation)
  revertIf (s.codes.proxiableUUID newImplementation ≠ some implementationSlot)
    (.invalidImplementation newImplementation)
  .ok { s with
    implementation := newImplementation
    history := .upgraded sender.account newImplementation :: s.history }

def freezeUpgrades (s : ProxyState) (sender : Caller) (expectedImplementation : Address)
    (expectedCodeHash : BitVec 256) : Except UpgradeError ProxyState := do
  s.authorize sender
  let codeHash := s.codes.codehash s.implementation
  revertIf (s.implementation ≠ expectedImplementation ∨ codeHash ≠ expectedCodeHash)
    (.freezeTargetMismatch s.implementation codeHash)
  revertIf (s.initializing = true) .invalidInitialization
  .ok (disableInitializers { s with
    upgradesFrozen := true
    history := .frozen sender.account expectedImplementation expectedCodeHash s.implementation codeHash
      :: s.history })

/-- The head of the modifier `initializer`. -/
def startInitializer (s : ProxyState) : Except UpgradeError ProxyState := do
  let initialSetup := s.initialized = 0 ∧ s.initializing = false
  let construction := s.initialized = 1 ∧ s.hasCode = false
  revertIf (¬ initialSetup ∧ ¬ construction) .invalidInitialization
  .ok { s with initialized := 1, initializing := true, history := .initializer 1 :: s.history }

/-- The head of the modifier `reinitializer`. -/
def startReinitializer (s : ProxyState) (version : UInt64) : Except UpgradeError ProxyState := do
  revertIf (s.initializing = true ∨ version ≤ s.initialized) .invalidInitialization
  .ok { s with initialized := version, initializing := true, history := .initializer version :: s.history }

/-- The tail of both modifiers: a call inside another initializer leaves the flag to it. -/
def finishInitializer (s : ProxyState) (isTopLevelCall : Bool) : ProxyState :=
  if isTopLevelCall then { s with initializing := false } else s

/-- `_forwardToGovernedUpgrade`: the proxy points at the implementation `self` whose code runs. -/
def checkProxy (s : ProxyState) (self : Address) : Except UpgradeError Unit :=
  revertIf (s.implementation ≠ self) .unauthorizedCallContext

end ProxyState

/-- What the code of an implementation does. -/
inductive Act where
  | skip
  | revert
  | seq (first second : Act)
  | outside (codes : Codes)
  | initializer (body : Act)
  | reinitializer (version : UInt64) (body : Act)
  | governedInit (timelock : Address) (mode : UpgradeMode)
  | upgradeToAndCall (newImplementation : Address) (data : Act)
  | freezeUpgrades (expectedImplementation : Address) (expectedCodeHash : BitVec 256)
  | reenter (sender : Caller) (call : Act)

open ProxyState in
/-- Run code of the implementation `self` on the proxy, called by `sender`. -/
def perform : Act → Address → Caller → ProxyState → Except UpgradeError ProxyState
  | .skip, _, _, s => .ok s
  | .revert, _, _, _ => .error .reverted
  | .seq first second, self, sender, s => do
    let s ← perform first self sender s
    perform second self sender s
  | .outside codes, _, _, s => .ok { s with codes := codes }
  | .initializer body, self, sender, s => do
    let s' ← s.startInitializer
    let s' ← perform body self sender s'
    .ok (s'.finishInitializer (!s.initializing))
  | .reinitializer version body, self, sender, s => do
    let s' ← s.startReinitializer version
    let s' ← perform body self sender s'
    .ok (s'.finishInitializer true)
  | .governedInit timelock mode, _, _, s => do
    revertIf (s.initializing = false) .notInitializing
    s.init timelock mode
  | .upgradeToAndCall newImplementation data, self, sender, s => do
    s.checkProxy self
    let s' ← s.upgradeTo sender newImplementation
    -- a delegate call: the new implementation's code, the same sender
    perform data newImplementation sender s'
  | .freezeUpgrades expectedImplementation expectedCodeHash, self, sender, s => do
    s.checkProxy self
    s.freezeUpgrades sender expectedImplementation expectedCodeHash
  | .reenter caller call, _, _, s =>
    -- an address without code answers every call, and does nothing
    if s.hasCode then
      match perform call s.implementation caller s with
      | .ok s' => .ok s'
      | .error _ => .ok s
    else .ok s

/-- A transaction that reaches the proxy: its constructor, with the attached initializer call, or a call. -/
inductive ProxyCall where
  | construct (sender : Caller) (data : Act)
  | call (sender : Caller) (act : Act)

def proxyStep (s : ProxyState) : ProxyCall → Except UpgradeError ProxyState
  | .construct sender data => do
    revertIf (s.hasCode = true) .constructed
    let s' ← perform data s.implementation sender s
    .ok { s' with hasCode := true }
  | .call sender act => if s.hasCode then perform act s.implementation sender s else .ok s

/-- A proxy whose constructor has written the implementation slot and nothing else. -/
structure ProxyState.Deployed (s : ProxyState) : Prop where
  upgradeTimelock : s.upgradeTimelock = 0
  upgradesFrozen : s.upgradesFrozen = false
  history : s.history = []

def implementationOf (initial : Address) : List UpgradeEvent → Address
  | [] => initial
  | .upgraded _ newImplementation :: _ => newImplementation
  | _ :: earlier => implementationOf initial earlier

def timelockOf : List UpgradeEvent → Address
  | [] => 0
  | .timelock timelock :: _ => timelock
  | _ :: earlier => timelockOf earlier

def frozenIn : List UpgradeEvent → Bool
  | [] => false
  | .frozenAtDeploy :: _ => true
  | .frozen .. :: _ => true
  | _ :: earlier => frozenIn earlier

/-- What may be recorded after `earlier`. -/
def UpgradeEvent.Allowed (initial : Address) (earlier : List UpgradeEvent) : UpgradeEvent → Prop
  | .initializer _ => True
  | .frozenAtDeploy => True
  | .timelock account => timelockOf earlier = 0 ∧ account ≠ 0
  | .upgraded sender _ => sender = timelockOf earlier ∧ sender ≠ 0
  | .frozen sender expectedImplementation expectedCodeHash implementation codeHash =>
    sender = timelockOf earlier ∧ implementation = implementationOf initial earlier ∧
      expectedImplementation = implementation ∧ expectedCodeHash = codeHash

def Ordered (initial : Address) : List UpgradeEvent → Prop
  | [] => True
  | e :: earlier => frozenIn earlier = false ∧ e.Allowed initial earlier ∧ Ordered initial earlier

private theorem Ordered.entry {initial : Address} {history : List UpgradeEvent} (h : Ordered initial history)
    {later earlier : List UpgradeEvent} {e : UpgradeEvent} (he : history = later ++ e :: earlier) :
    frozenIn earlier = false ∧ e.Allowed initial earlier := by
  subst he
  induction later with
  | nil => exact ⟨h.1, h.2.1⟩
  | cons x later ih => exact ih h.2.2

private theorem Ordered.eq_of_suffix {initial : Address} {old new : List UpgradeEvent} (h : Ordered initial new)
    (hsuffix : old <:+ new) (hfrozen : frozenIn old = true) : new = old := by
  obtain ⟨later, rfl⟩ := hsuffix
  have hnone : later = [] := by
    induction later with
    | nil => rfl
    | cons x later ih =>
      obtain ⟨hx, -, hrest⟩ := h
      obtain rfl := ih hrest
      change frozenIn old = false at hx
      rw [hfrozen] at hx
      cases hx
  rw [hnone, List.nil_append]

namespace ProxyState

open List Except

/-- The slots are the ones the record gives, the record is in order, and a frozen proxy has its initializers
disabled. -/
structure Sound (initial : Address) (s : ProxyState) : Prop where
  implementation : s.implementation = implementationOf initial s.history
  upgradeTimelock : s.upgradeTimelock = timelockOf s.history
  upgradesFrozen : s.upgradesFrozen = frozenIn s.history
  disabled : s.upgradesFrozen = true → s.initialized = maxVersion ∧ s.upgradeTimelock ≠ 0
  ordered : Ordered initial s.history

/-- `s'` is sound and its record continues that of `s`. -/
def Continues (initial : Address) (s s' : ProxyState) : Prop := s'.Sound initial ∧ s.history <:+ s'.history

variable {initial : Address} {s s' s'' : ProxyState}

private theorem Deployed.sound (h : s.Deployed) : s.Sound s.implementation where
  implementation := by rw [h.history]; rfl
  upgradeTimelock := by rw [h.history, h.upgradeTimelock]; rfl
  upgradesFrozen := by rw [h.history, h.upgradesFrozen]; rfl
  disabled hf := by rw [h.upgradesFrozen] at hf; cases hf
  ordered := by rw [h.history]; trivial

private theorem Sound.refl (hs : s.Sound initial) : Continues initial s s := ⟨hs, suffix_refl _⟩

theorem Continues.trans (h : Continues initial s s') (h' : Continues initial s' s'') : Continues initial s s'' :=
  ⟨h'.1, h.2.trans h'.2⟩

private theorem Sound.of_same (hs : s.Sound initial) (hi : s'.implementation = s.implementation)
    (ht : s'.upgradeTimelock = s.upgradeTimelock) (hf : s'.upgradesFrozen = s.upgradesFrozen)
    (hv : s'.initialized = s.initialized) (hh : s'.history = s.history) : Continues initial s s' := by
  refine ⟨⟨?_, ?_, ?_, ?_, ?_⟩, by rw [hh]⟩
  · rw [hi, hh, hs.implementation]
  · rw [ht, hh, hs.upgradeTimelock]
  · rw [hf, hh, hs.upgradesFrozen]
  · rw [hf, hv, ht]
    exact hs.disabled
  · rw [hh]
    exact hs.ordered

theorem Sound.not_frozen (hs : s.Sound initial) (h : s.initialized ≠ maxVersion) : s.upgradesFrozen = false := by
  by_contra hf
  exact h (hs.disabled (by simpa using hf)).1

private theorem lt_maxVersion {v w : UInt64} (h : ¬ w ≤ v) : v ≠ maxVersion := by
  rintro rfl
  apply h
  rw [UInt64.le_iff_toNat_le]
  have := w.toNat_lt
  have hmax : maxVersion.toNat = 2 ^ 64 - 1 := rfl
  omega

section

variable (hs : s.Sound initial)

include hs

theorem Sound.initializer (hv : s.initialized ≠ maxVersion) (version : UInt64) : Continues initial s
      { s with initialized := version, initializing := true, history := .initializer version :: s.history } := by
  have hf := hs.not_frozen hv
  refine ⟨⟨hs.implementation, hs.upgradeTimelock, hs.upgradesFrozen, ?_, ?_⟩, suffix_cons _ _⟩
  · intro hf'
    rw [hf] at hf'
    cases hf'
  · exact ⟨by rw [← hs.upgradesFrozen, hf], trivial, hs.ordered⟩

private theorem Sound.startInitializer (h : s.startInitializer = .ok s') : Continues initial s s' := by
  simp only [ProxyState.startInitializer, bind_eq_ok, revertIf_eq_ok, ok.injEq] at h
  obtain ⟨-, hguard, rfl⟩ := h
  apply hs.initializer
  rintro hmax
  apply hguard
  constructor
  · rintro ⟨h0, -⟩
    rw [hmax] at h0
    exact absurd h0 (by decide)
  · rintro ⟨h1, -⟩
    rw [hmax] at h1
    exact absurd h1 (by decide)

private theorem Sound.startReinitializer {version : UInt64}
    (h : s.startReinitializer version = .ok s') : Continues initial s s' := by
  simp only [ProxyState.startReinitializer, bind_eq_ok, revertIf_eq_ok, ok.injEq] at h
  obtain ⟨-, hguard, rfl⟩ := h
  apply hs.initializer
  apply lt_maxVersion
  intro hle
  exact hguard (.inr hle)

theorem Sound.finishInitializer (isTopLevelCall : Bool) : Continues initial s (s.finishInitializer isTopLevelCall) := by
  unfold ProxyState.finishInitializer
  split
  · exact hs.of_same rfl rfl rfl rfl rfl
  · exact hs.refl

private theorem Sound.init {timelock : Address} {mode : UpgradeMode}
    (h : s.init timelock mode = .ok s') : Continues initial s s' := by
  simp only [ProxyState.init, bind_eq_ok, revertIf_eq_ok] at h
  obtain ⟨-, hunset, -, hzero, -, -, h⟩ := h
  have hunset : s.upgradeTimelock = 0 := by simpa using hunset
  have hf : s.upgradesFrozen = false := by
    by_contra hf
    exact (hs.disabled (by simpa using hf)).2 hunset
  have hfrozen : frozenIn s.history = false := by rw [← hs.upgradesFrozen, hf]
  have hallowed : Ordered initial (.timelock timelock :: s.history) :=
    ⟨hfrozen, ⟨by rw [← hs.upgradeTimelock, hunset], hzero⟩, hs.ordered⟩
  split at h
  · cases h
    refine ⟨⟨hs.implementation, rfl, rfl, fun _ => ⟨rfl, hzero⟩, ⟨hfrozen, trivial, hallowed⟩⟩, ?_⟩
    exact (suffix_cons _ _).trans (suffix_cons _ _)
  cases h
  refine ⟨⟨hs.implementation, rfl, hs.upgradesFrozen, ?_, hallowed⟩, suffix_cons _ _⟩
  intro hf'
  exact ⟨(hs.disabled hf').1, hzero⟩

end

private theorem authorize_ok {sender : Caller} {u : Unit} (h : s.authorize sender = .ok u) :
    sender.account = s.upgradeTimelock ∧ s.upgradesFrozen = false := by
  simp only [authorize, bind_eq_ok, revertIf_eq_ok] at h
  obtain ⟨-, hsender, hf⟩ := h
  exact ⟨by simpa using hsender, by simpa using hf⟩

private theorem Sound.upgradeTo (hs : s.Sound initial) {sender : Caller} {newImplementation : Address}
    (h : s.upgradeTo sender newImplementation = .ok s') : Continues initial s s' := by
  simp only [ProxyState.upgradeTo, bind_eq_ok, revertIf_eq_ok, ok.injEq] at h
  obtain ⟨u, hauth, -, -, -, -, rfl⟩ := h
  obtain ⟨hsender, hf⟩ := authorize_ok hauth
  refine ⟨⟨rfl, hs.upgradeTimelock, hs.upgradesFrozen, hs.disabled, ?_⟩, suffix_cons _ _⟩
  refine ⟨by rw [← hs.upgradesFrozen, hf], ⟨?_, sender.ne_zero⟩, hs.ordered⟩
  rw [hsender, hs.upgradeTimelock]

private theorem Sound.freezeUpgrades (hs : s.Sound initial) {sender : Caller} {expectedImplementation : Address}
    {expectedCodeHash : BitVec 256}
    (h : s.freezeUpgrades sender expectedImplementation expectedCodeHash = .ok s') : Continues initial s s' := by
  simp only [ProxyState.freezeUpgrades, bind_eq_ok, revertIf_eq_ok, ok.injEq] at h
  obtain ⟨u, hauth, -, hmatch, -, -, rfl⟩ := h
  obtain ⟨hsender, hf⟩ := authorize_ok hauth
  obtain ⟨himplementation, hcodehash⟩ := not_or.1 hmatch
  refine ⟨⟨hs.implementation, hs.upgradeTimelock, rfl, fun _ => ⟨rfl, ?_⟩, ?_⟩, suffix_cons _ _⟩
  · rw [disableInitializers, ← hsender]
    exact sender.ne_zero
  · refine ⟨by rw [← hs.upgradesFrozen, hf], ⟨?_, hs.implementation, ?_, ?_⟩, hs.ordered⟩
    · rw [hsender, hs.upgradeTimelock]
    · exact (not_not.1 himplementation).symm
    · exact (not_not.1 hcodehash).symm

/-- Whatever an implementation does, the record goes on in order. -/
theorem Sound.perform {act : Act} {self : Address} {sender : Caller} (hs : s.Sound initial)
    (h : perform act self sender s = .ok s') : Continues initial s s' := by
  induction act generalizing self sender s s' with
  | skip =>
    cases h
    exact hs.refl
  | revert => cases h
  | seq first second ihf ihs =>
    simp only [Upgrade.perform, bind_eq_ok] at h
    obtain ⟨mid, hmid, h⟩ := h
    have hc := ihf hs hmid
    exact hc.trans (ihs hc.1 h)
  | outside codes =>
    cases h
    exact hs.of_same rfl rfl rfl rfl rfl
  | initializer body ih =>
    simp only [Upgrade.perform, bind_eq_ok, ok.injEq] at h
    obtain ⟨started, hstart, done, hbody, rfl⟩ := h
    have hc := hs.startInitializer hstart
    have hd := ih hc.1 hbody
    exact (hc.trans hd).trans (hd.1.finishInitializer _)
  | reinitializer version body ih =>
    simp only [Upgrade.perform, bind_eq_ok, ok.injEq] at h
    obtain ⟨started, hstart, done, hbody, rfl⟩ := h
    have hc := hs.startReinitializer hstart
    have hd := ih hc.1 hbody
    exact (hc.trans hd).trans (hd.1.finishInitializer _)
  | governedInit timelock mode =>
    simp only [Upgrade.perform, bind_eq_ok] at h
    obtain ⟨u, -, h⟩ := h
    exact hs.init h
  | upgradeToAndCall newImplementation data ih =>
    simp only [Upgrade.perform, bind_eq_ok] at h
    obtain ⟨u, -, upgraded, hupgraded, h⟩ := h
    have hc := hs.upgradeTo hupgraded
    exact hc.trans (ih hc.1 h)
  | freezeUpgrades expectedImplementation expectedCodeHash =>
    simp only [Upgrade.perform, bind_eq_ok] at h
    obtain ⟨u, -, h⟩ := h
    exact hs.freezeUpgrades h
  | reenter caller call ih =>
    simp only [Upgrade.perform] at h
    split at h
    · split at h
      · rename_i hcall
        cases h
        exact ih hs hcall
      cases h
      exact hs.refl
    cases h
    exact hs.refl

private theorem Sound.proxyStep {c : ProxyCall} (hs : s.Sound initial) (h : proxyStep s c = .ok s') :
    Continues initial s s' := by
  cases c with
  | construct sender data =>
    simp only [Upgrade.proxyStep, bind_eq_ok, ok.injEq] at h
    obtain ⟨u, -, done, hdone, rfl⟩ := h
    have hc := hs.perform hdone
    exact hc.trans (hc.1.of_same rfl rfl rfl rfl rfl)
  | call sender act =>
    simp only [Upgrade.proxyStep] at h
    split at h
    · exact hs.perform h
    cases h
    exact hs.refl

theorem Sound.continues (hs : s.Sound initial) (h : Reachable Upgrade.proxyStep s s') : Continues initial s s' :=
  h.invariant hs.refl fun _ _ _ hc hx => hc.trans (hc.1.proxyStep hx)

end ProxyState

/-- In every run of a proxy: the slots are those of its record, where no entry follows a freeze, an upgrade is the
timelock's and a freeze named the live implementation and its code hash; and once frozen, the implementation, the
timelock and the record of initializers stay. -/
theorem freeze_one_way {s₀ s s' : ProxyState} (h₀ : s₀.Deployed) (h : Reachable proxyStep s₀ s)
    (h' : Reachable proxyStep s s') :
    (s.upgradesFrozen = true →
      s'.upgradesFrozen = true ∧ s'.implementation = s.implementation ∧ s'.upgradeTimelock = s.upgradeTimelock ∧
        s'.history = s.history) ∧
      s.implementation = implementationOf s₀.implementation s.history ∧
      s.upgradeTimelock = timelockOf s.history ∧ s.upgradesFrozen = frozenIn s.history ∧
      ∀ later e earlier, s.history = later ++ e :: earlier →
        frozenIn earlier = false ∧ e.Allowed s₀.implementation earlier := by
  have hs := (h₀.sound.continues h).1
  refine ⟨?_, hs.implementation, hs.upgradeTimelock, hs.upgradesFrozen, fun _ _ _ he => hs.ordered.entry he⟩
  intro hf
  obtain ⟨hs', hsuffix⟩ := hs.continues h'
  have hh : s'.history = s.history := hs'.ordered.eq_of_suffix hsuffix (by rw [← hs.upgradesFrozen, hf])
  refine ⟨?_, ?_, ?_, hh⟩
  · rw [hs'.upgradesFrozen, hh, ← hs.upgradesFrozen, hf]
  · rw [hs'.implementation, hh, ← hs.implementation]
  · rw [hs'.upgradeTimelock, hh, ← hs.upgradeTimelock]

def Codes.sample : Codes := ⟨fun _ => true, fun _ => 7, fun _ => some implementationSlot⟩

def ProxyState.sample : ProxyState := ⟨1, 0, false, 0, false, false, .sample, []⟩

private theorem nine_ne_zero : (9 : Address) ≠ 0 := by decide

/-- The proxy is initialised with the timelock 9, upgraded by it with a reinitializer attached, and frozen. -/
def sampleFreeze : List ProxyCall :=
  [.construct ⟨5, by decide⟩ (.initializer (.governedInit 9 .upgradeable)),
    .call ⟨9, nine_ne_zero⟩ (.upgradeToAndCall 2 (.reinitializer 2 .skip)),
    .call ⟨9, nine_ne_zero⟩ (.freezeUpgrades 2 7)]

def sampleAfterFreeze : List ProxyCall :=
  [.call ⟨9, nine_ne_zero⟩ (.upgradeToAndCall 3 .skip), .call ⟨5, by decide⟩ (.reinitializer 3 .skip),
    .call ⟨9, nine_ne_zero⟩ (.reenter ⟨9, nine_ne_zero⟩ (.freezeUpgrades 2 7))]

theorem freeze_one_way_after_upgrade :
    let s := run proxyStep .sample sampleFreeze
    s.history = [.frozen 9 2 7 2 7, .initializer 2, .upgraded 9 2, .timelock 9, .initializer 1] ∧
      (run proxyStep s sampleAfterFreeze).implementation = s.implementation := by
  intro s
  refine ⟨by decide +kernel, ?_⟩
  exact ((freeze_one_way ⟨rfl, rfl, rfl⟩ ⟨sampleFreeze, rfl⟩ ⟨sampleAfterFreeze, rfl⟩).1 (by decide +kernel)).2.1

end RobotMoney.Upgrade
