import RobotMoney.Evm.Checked
import RobotMoney.Evm.HexText
import RobotMoney.Text.Search

/-!
# The runtime code gate (`runtimeCodeProblems`)

The code of a new implementation is compared with its build artifact outside the ranges that the artifact leaves open,
and so is every library that the code links, at the addresses found in the code.

The text of an artifact has hexadecimal digits and placeholders; a range counts its characters, two to a byte.
-/

namespace RobotMoney.Publish

open Evm HexText List Finset

/-- A range of characters. -/
structure Ref where
  start : Nat
  length : Nat
  deriving DecidableEq, Repr

structure LinkReference where
  library : String
  start : Nat
  length : Nat
  deriving DecidableEq, Repr

/-- The runtime code of an artifact after its `0x`, with its references in bytes, each in the order of its listing. -/
structure DeployedBytecode where
  object : List Char
  alphabet : ∀ c ∈ object, isHexDigit c = true ∨ c = '_' ∨ c = '$'
  immutableReferences : List (Nat × Nat)
  linkReferences : List LinkReference

/-- The artifacts of a build that have a runtime code, if only `0x`, by name. -/
abbrev BuildOutput := List (String × DeployedBytecode)

/-- `parseInt(text, 16)` of such a text: the digits it starts with. -/
def parseHexInt (cs : List Char) : Option Nat :=
  if cs.takeWhile isHexDigit = [] then none else some (toNat (cs.takeWhile isHexDigit))

/-- The metadata trailer: a map that starts as far before the last two bytes as these say. -/
def metadataTrailer (hex : List Char) : Option Ref := do
  let cborLen ← parseHexInt (hex.drop (hex.length - 4))
  let start := hex.length - 4 - 2 * cborLen
  let first ← parseHexInt ((hex.drop start).take 2)
  if 4 < hex.length ∧ 0 < cborLen ∧ 2 * cborLen + 4 < hex.length ∧ 0xa0 ≤ first ∧ first ≤ 0xbf then
    some ⟨start, 2 * cborLen⟩
  else none

def implicitRefs (hex : List Char) : List Ref :=
  (if hex.take 42 = '7' :: '3' :: replicate 40 '0' then [⟨2, 40⟩] else []) ++ (metadataTrailer hex).toList

def DeployedBytecode.refs (d : DeployedBytecode) : List Ref :=
  d.immutableReferences.map (fun r => ⟨2 * r.1, 2 * r.2⟩) ++
    d.linkReferences.map (fun r => ⟨2 * r.start, 2 * r.length⟩) ++ implicitRefs d.object

def Ref.covers (r : Ref) (i : Nat) : Bool := r.start ≤ i && i < r.start + r.length

def maskHex (cs : List Char) (refs : List Ref) : List Char :=
  cs.zipIdx.map fun (c, i) => if refs.any (·.covers i) then '0' else c.toLower

inductive WalkError where
  | noArtifact (name : String)
  | invalidHex
  | invalidAddress
  | outOfTurns
  deriving DecidableEq, Repr

inductive CodeDetail (H : Type) where
  | noCode
  | runtimeLength (onChain build : Nat)
  | maskedHash (hash : H)
  | hashDiffers (onChain build : H)

structure CodeHashResult (H : Type) where
  ok : Bool
  detail : CodeDetail H

/-- A problem of the implementation, or of a library at an address. -/
structure CodeProblem (H : Type) where
  name : String
  at_ : List UInt8
  detail : CodeDetail H

/-- The libraries compared so far, and the problems. -/
structure CodeWalk (H : Type) where
  seen : List (String × List UInt8)
  bad : List (CodeProblem H)

section Gate

variable {H : Type} [DecidableEq H] (keccak256 : List UInt8 → H) (build : BuildOutput) (code : List UInt8 → List UInt8)

/-- The hash of the bytes that a text stands for. -/
def hashText (cs : List Char) : Except WalkError H :=
  if cs.all isHexDigit then .ok (keccak256 (bytes (if cs.length % 2 = 0 then cs else '0' :: cs))) else .error
    .invalidHex

def compareCode (onChain : List UInt8) (d : DeployedBytecode) : Except WalkError (CodeHashResult H) :=
  if onChain = [] then .ok ⟨false, .noCode⟩
  else
    let a := maskHex d.object d.refs
    let b := maskHex (ofBytes onChain) d.refs
    if a.length ≠ b.length then .ok ⟨false, .runtimeLength (b.length / 2) (a.length / 2)⟩
    else do
      let ha ← hashText keccak256 a
      let hb ← hashText keccak256 b
      .ok ⟨ha = hb, if ha = hb then .maskedHash ha else .hashDiffers hb ha⟩

def loadArtifact (name : String) : Except WalkError DeployedBytecode :=
  match build.lookup name with
  | some d => .ok d
  | none => .error (.noArtifact name)

/-- `getCode`; what is no address is refused. -/
def getCode (address : List UInt8) : Except WalkError (List UInt8) :=
  if address.length = 20 then .ok (code address) else .error .invalidAddress

/-- The address in a link slot. -/
def linkSlot (c : List UInt8) (start : Nat) : List UInt8 := (c.drop start).take 20

/-- One library: `visit` follows it if it is new and its code is that of the build. -/
def visitLink (visit : List UInt8 → String → CodeWalk H → Except WalkError (CodeWalk H)) (c : List UInt8)
    (w : CodeWalk H) (l : LinkReference) : Except WalkError (CodeWalk H) :=
  let address := linkSlot c l.start
  if (l.library, address) ∈ w.seen then .ok w
  else do
    let libCode ← getCode code address
    let d ← loadArtifact build l.library
    let r ← compareCode keccak256 libCode d
    if r.ok then visit libCode l.library ⟨(l.library, address) :: w.seen, w.bad⟩
    else .ok ⟨(l.library, address) :: w.seen, w.bad ++ [⟨l.library, address, r.detail⟩]⟩

/-- The walk over the libraries, with a bound on its depth. -/
def visit : Nat → List UInt8 → String → CodeWalk H → Except WalkError (CodeWalk H)
  | 0, _, _, _ => .error .outOfTurns
  | turns + 1, c, artifact, w => do
    let d ← loadArtifact build artifact
    d.linkReferences.foldlM (visitLink keccak256 build code (visit turns) c) w

def runtimeCodeProblems (implementation : List UInt8) (contract : String) :
    Except WalkError (List (CodeProblem H)) := do
  let c ← getCode code implementation
  if c = [] then .ok [⟨contract, implementation, .noCode⟩]
  else do
    let d ← loadArtifact build contract
    let r ← compareCode keccak256 c d
    if r.ok then do
      let w ← visit keccak256 build code (build.length + 1) c contract ⟨[], []⟩
      .ok w.bad
    else .ok [⟨contract, implementation, r.detail⟩]

end Gate

/-- The artifact of one name links a library of another. -/
def Links (build : BuildOutput) (name library : String) : Prop :=
  ∃ d, build.lookup name = some d ∧ ∃ l ∈ d.linkReferences, l.library = library

/-- A name and an address that the walk from the implementation comes to. -/
inductive Reached (build : BuildOutput) (code : List UInt8 → List UInt8) (implementation : List UInt8)
    (contract : String) : String → List UInt8 → Prop where
  | root : Reached build code implementation contract contract implementation
  | link {name : String} {address : List UInt8} {d : DeployedBytecode} {l : LinkReference}
      (h : Reached build code implementation contract name address) (hd : build.lookup name = some d)
      (hl : l ∈ d.linkReferences) :
      Reached build code implementation contract l.library (linkSlot (code address) l.start)

/-- The code is that of the artifact outside the ranges that the artifact leaves open. -/
def DeployedBytecode.Matches (d : DeployedBytecode) (c : List UInt8) : Prop :=
  c ≠ [] ∧ d.object.length = 2 * c.length ∧ ∀ i, (∀ r ∈ d.refs, r.covers i = false) →
    (d.object.map Char.toLower)[i]? = (ofBytes c)[i]?

/-- The code at an address is the reviewed build of a name. -/
def Reviewed (build : BuildOutput) (code : List UInt8 → List UInt8) (name : String) (address : List UInt8) : Prop :=
  address.length = 20 ∧ ∃ d, build.lookup name = some d ∧ d.Matches (code address)

section Compare

variable {H : Type} {keccak256 : List UInt8 → H} {c : List UInt8} {d : DeployedBytecode}

private theorem getElem?_maskHex (cs : List Char) (refs : List Ref) (i : Nat) :
    (maskHex cs refs)[i]? = cs[i]?.map fun x => if refs.any (·.covers i) then '0' else x.toLower := by
  rw [maskHex, getElem?_map, getElem?_zipIdx, Option.map_map]
  simp [Function.comp_def]

@[simp] theorem length_maskHex (cs : List Char) (refs : List Ref) : (maskHex cs refs).length = cs.length := by
  simp [maskHex]

@[simp] theorem length_ofBytes (bs : List UInt8) : (ofBytes bs).length = 2 * bs.length := by
  induction bs with
  | nil => rfl
  | cons b bs ih =>
    rw [ofBytes, flatMap_cons, ← ofBytes, length_append, ih, length_digits, length_cons]
    omega

private theorem lowered (y : Char) : y.toLower.toLower = y.toLower := by
  simpa only [TextSearch.lower, List.map_cons, List.map_nil, List.cons.injEq, and_true] using TextSearch.lower_lower [y]

/-- Two masked texts of one length are the same when the texts are outside the ranges. -/
theorem maskHex_eq_iff {cs cs' : List Char} {refs : List Ref} (hlen : cs.length = cs'.length) :
    maskHex cs refs = maskHex cs' refs ↔ ∀ i, (∀ r ∈ refs, r.covers i = false) →
      (cs.map Char.toLower)[i]? = (cs'.map Char.toLower)[i]? := by
  constructor
  · intro h i hi
    have hnone : refs.any (·.covers i) = false := by simpa using hi
    have hat := congrArg (·[i]?) h
    simpa [getElem?_maskHex, hnone] using hat
  · intro h
    refine ext_getElem? fun i => ?_
    rw [getElem?_maskHex, getElem?_maskHex]
    by_cases hcover : refs.any (·.covers i) = true
    · rcases Nat.lt_or_ge i cs.length with hi | hi
      · simp [hcover, hi, hlen ▸ hi]
      · simp [hi, hlen ▸ hi]
    have hi := h i (by simpa using hcover)
    simpa [hcover] using hi

/-- The hash tells masked texts of one even length apart. -/
private theorem hashText_eq (hinj : Function.Injective keccak256) {a b : List Char}
    (ha : ∀ x ∈ a, isHexDigit x = true → x.toLower = x) (hb : ∀ x ∈ b, isHexDigit x = true ∧ x.toLower = x)
    (hlen : a.length = b.length) (heven : b.length % 2 = 0) :
    (∃ h, hashText keccak256 a = .ok h ∧ hashText keccak256 b = .ok h) ↔ a = b := by
  have hall : b.all isHexDigit = true := all_eq_true.2 fun x hx => (hb x hx).1
  have hright : hashText keccak256 b = .ok (keccak256 (bytes b)) := by rw [hashText, if_pos hall, if_pos heven]
  constructor
  · rintro ⟨h, hha, hhb⟩
    have hdigits : ∀ x ∈ a, isHexDigit x = true := by
      by_contra hno
      have hnone : hashText keccak256 a = .error .invalidHex := if_neg fun hyes => hno (all_eq_true.1 hyes)
      rw [hnone] at hha
      cases hha
    rw [hashText, if_pos (all_eq_true.2 hdigits), if_pos (hlen ▸ heven)] at hha
    rw [hright] at hhb
    have hbytes : bytes a = bytes b := hinj (Except.ok.inj (hha.trans hhb.symm))
    have hback : ofBytes (bytes a) = a :=
      ofBytes_bytes (fun x hx => ⟨hdigits x hx, ha x hx (hdigits x hx)⟩) (hlen ▸ heven)
    rw [← hback, hbytes, ofBytes_bytes hb heven]
  · rintro rfl
    exact ⟨_, hright, hright⟩

variable [DecidableEq H]

private theorem compareCode_spec (hinj : Function.Injective keccak256) :
    (∃ r, compareCode keccak256 c d = .ok r ∧ r.ok = true) ↔ d.Matches c := by
  unfold compareCode DeployedBytecode.Matches
  by_cases hc : c = []
  · simp [hc]
  rw [if_neg hc]
  simp only [length_maskHex, length_ofBytes, ne_eq, hc, not_false_eq_true, true_and]
  by_cases hlen : d.object.length = 2 * c.length
  · rw [if_neg (by simpa using hlen)]
    have hchars : ∀ x ∈ maskHex (ofBytes c) d.refs, isHexDigit x = true ∧ x.toLower = x := by
      intro x hx
      obtain ⟨⟨y, i⟩, hy, rfl⟩ := mem_map.1 hx
      have hy := mem_of_getElem? (mem_zipIdx_iff_getElem?.1 hy)
      dsimp only
      split
      · decide
      · exact ⟨by rw [isHexDigit_toLower]; exact isHexDigit_of_mem_ofBytes hy, lowered y⟩
    have hlowered : ∀ x ∈ maskHex d.object d.refs, isHexDigit x = true → x.toLower = x := by
      intro x hx _
      obtain ⟨⟨y, i⟩, -, rfl⟩ := mem_map.1 hx
      dsimp only
      split
      · rfl
      · exact lowered y
    have hsame := hashText_eq hinj hlowered hchars (by simp [hlen]) (by simp)
    rw [maskHex_eq_iff (by simp [hlen]), show (ofBytes c).map Char.toLower = ofBytes c from lower_ofBytes c] at hsame
    rw [← hsame]
    simp only [hlen, true_and, bind_eq_ok, Except.ok.injEq]
    constructor
    · rintro ⟨r, ⟨ha, hha, hb, hhb, rfl⟩, hok⟩
      obtain rfl : ha = hb := of_decide_eq_true hok
      exact ⟨ha, hha, hhb⟩
    · rintro ⟨h, hha, hhb⟩
      exact ⟨_, ⟨h, hha, h, hhb, rfl⟩, by simp⟩
  rw [if_pos (by simpa using hlen)]
  simp [hlen]

end Compare

section Walk

variable {H : Type} {keccak256 : List UInt8 → H} {build : BuildOutput}
  {code : List UInt8 → List UInt8}

variable {name : String}

private theorem loadArtifact_eq_ok {d : DeployedBytecode} :
    (loadArtifact build name : Except WalkError _) = .ok d ↔ build.lookup name = some d := by
  unfold loadArtifact
  cases build.lookup name <;> simp

variable {address : List UInt8}

theorem getCode_eq_ok {c : List UInt8} : getCode code address = .ok c ↔ address.length = 20 ∧ code address = c := by
  unfold getCode
  split <;> simp [*]

/-- The libraries that the code at an address links are seen. -/
def Expanded (build : BuildOutput) (code : List UInt8 → List UInt8) (seen : List (String × List UInt8))
    (name : String) (address : List UInt8) : Prop :=
  ∀ d, build.lookup name = some d → ∀ l ∈ d.linkReferences, (l.library, linkSlot (code address) l.start) ∈ seen

/-- What a walk without a new problem leaves behind: every library seen since is reviewed, with what it links. -/
structure Walked (build : BuildOutput) (code : List UInt8 → List UInt8) (w w' : CodeWalk H) : Prop where
  seen : w.seen ⊆ w'.seen
  bad : w.bad <+: w'.bad
  clean : w'.bad = w.bad → ∀ p ∈ w'.seen, p ∈ w.seen ∨
    Reviewed build code p.1 p.2 ∧ Expanded build code w'.seen p.1 p.2

private theorem Expanded.mono {seen seen' : List (String × List UInt8)}
    (h : Expanded build code seen name address) (hsub : seen ⊆ seen') : Expanded build code seen' name address :=
  fun d hd l hl => hsub (h d hd l hl)

private theorem Walked.refl (w : CodeWalk H) : Walked build code w w :=
  ⟨List.Subset.refl _, prefix_rfl, fun _ _ h => .inl h⟩

variable {w w' : CodeWalk H}

private theorem Walked.trans {w'' : CodeWalk H} (h : Walked build code w w') (h' : Walked build code w' w'') :
    Walked build code w w'' := by
  refine ⟨List.Subset.trans h.seen h'.seen, h.bad.trans h'.bad, ?_⟩
  intro hbad p hp
  have hmid : w'.bad = w.bad := (hbad ▸ h'.bad).eq_of_length_le h.bad.length_le
  rcases h'.clean (hbad.trans hmid.symm) p hp with hp | hp
  · rcases h.clean hmid p hp with hp | ⟨hreviewed, hexpanded⟩
    · exact .inl hp
    · exact .inr ⟨hreviewed, hexpanded.mono h'.seen⟩
  · exact .inr hp

variable [DecidableEq H]

/-- The code of a library is compared with its artifact. -/
theorem reviewed_iff (hinj : Function.Injective keccak256) :
    Reviewed build code name address ↔ ∃ libCode d r, getCode code address = .ok libCode ∧
      (loadArtifact build name : Except WalkError _) = .ok d ∧ compareCode keccak256 libCode d = .ok r ∧
          r.ok = true := by
  constructor
  · rintro ⟨hlen, d, hd, hm⟩
    obtain ⟨r, hr, hok⟩ := (compareCode_spec hinj).2 hm
    exact ⟨code address, d, r, getCode_eq_ok.2 ⟨hlen, rfl⟩, loadArtifact_eq_ok.2 hd, hr, hok⟩
  · rintro ⟨libCode, d, r, hcode, hd, hr, hok⟩
    obtain ⟨hlen, rfl⟩ := getCode_eq_ok.1 hcode
    exact ⟨hlen, d, loadArtifact_eq_ok.1 hd, (compareCode_spec hinj).1 ⟨r, hr, hok⟩⟩

/-- What a visit of the code at an address does. -/
private def Visits (build : BuildOutput) (code : List UInt8 → List UInt8)
    (visit : List UInt8 → String → CodeWalk H → Except WalkError (CodeWalk H)) : Prop :=
  ∀ address name w w', visit (code address) name w = .ok w' →
    Walked build code w w' ∧ (w'.bad = w.bad → Expanded build code w'.seen name address)

section

variable (hinj : Function.Injective keccak256)

include hinj

private theorem visitLink_walked
    {visit : List UInt8 → String → CodeWalk H → Except WalkError (CodeWalk H)} (hvisit : Visits build code visit)
    {c : List UInt8} {l : LinkReference} (h : visitLink keccak256 build code visit c w l = .ok w') :
    Walked build code w w' ∧ (l.library, linkSlot c l.start) ∈ w'.seen := by
  unfold visitLink at h
  dsimp only at h
  split at h
  · rename_i hseen
    cases h
    exact ⟨.refl w, hseen⟩
  simp only [bind_eq_ok] at h
  obtain ⟨libCode, hcode, d, hd, r, hr, h⟩ := h
  split at h
  · rename_i hok
    have hreviewed : Reviewed build code l.library (linkSlot c l.start) :=
      (reviewed_iff hinj).2 ⟨libCode, d, r, hcode, hd, hr, hok⟩
    obtain ⟨-, rfl⟩ := getCode_eq_ok.1 hcode
    obtain ⟨hwalked, hexpanded⟩ := hvisit _ _ _ _ h
    refine ⟨⟨List.Subset.trans (subset_cons_self _ _) hwalked.seen, hwalked.bad, ?_⟩, hwalked.seen (mem_cons_self ..)⟩
    intro hbad p hp
    rcases hwalked.clean hbad p hp with hp | hp
    · rcases mem_cons.1 hp with rfl | hp
      · exact .inr ⟨hreviewed, hexpanded hbad⟩
      · exact .inl hp
    · exact .inr hp
  cases h
  refine ⟨⟨subset_cons_self _ _, prefix_append .., ?_⟩, mem_cons_self ..⟩
  intro hbad
  simp at hbad

private theorem visitLinks_walked
    {visit : List UInt8 → String → CodeWalk H → Except WalkError (CodeWalk H)} (hvisit : Visits build code visit)
    {c : List UInt8} {ls : List LinkReference} (h : ls.foldlM (visitLink keccak256 build code visit c) w = .ok w') :
    Walked build code w w' ∧ ∀ l ∈ ls, (l.library, linkSlot c l.start) ∈ w'.seen := by
  induction ls generalizing w with
  | nil =>
    obtain rfl : w = w' := Except.ok.inj h
    exact ⟨.refl w, by simp⟩
  | cons l ls ih =>
    rw [foldlM_cons, bind_eq_ok] at h
    obtain ⟨v, hl, hls⟩ := h
    obtain ⟨hfirst, hmem⟩ := visitLink_walked hinj hvisit hl
    obtain ⟨hrest, hall⟩ := ih hls
    refine ⟨hfirst.trans hrest, ?_⟩
    intro l' hl'
    rcases mem_cons.1 hl' with rfl | hl'
    · exact hrest.seen hmem
    · exact hall l' hl'

theorem visit_walked (turns : Nat) : Visits build code (visit keccak256 build code turns) := by
  induction turns with
  | zero =>
    intro address name w w' h
    cases h
  | succ turns ih =>
    intro address name w w' h
    rw [visit, bind_eq_ok] at h
    obtain ⟨d, hd, h⟩ := h
    obtain ⟨hwalked, hall⟩ := visitLinks_walked hinj ih h
    refine ⟨hwalked, ?_⟩
    intro _ d' hd'
    obtain rfl := Option.some.inj ((loadArtifact_eq_ok.1 hd).symm.trans hd')
    exact hall

end

private theorem exists_of_foldlM_error {ε σ α : Type} {f : σ → α → Except ε σ} {l : List α} {s : σ} {e : ε}
    (h : l.foldlM f s = .error e) : ∃ x ∈ l, ∃ s', f s' x = .error e := by
  induction l generalizing s with
  | nil => cases h
  | cons x l ih =>
    rw [foldlM_cons, bind_eq_error] at h
    rcases h with h | ⟨s', -, h⟩
    · exact ⟨x, by simp, s, h⟩
    obtain ⟨y, hy, hx⟩ := ih h
    exact ⟨y, by simp [hy], hx⟩

/-- Where all that is reached is reviewed, a walk that ends has no new problem. -/
private theorem visit_clean (hinj : Function.Injective keccak256) {implementation : List UInt8} {contract : String}
    (hall : ∀ name address, Reached build code implementation contract name address → Reviewed build code name address)
    (turns : Nat) (hreached : Reached build code implementation contract name address) (w : CodeWalk H) :
    (∀ w', visit keccak256 build code turns (code address) name w = .ok w' → w'.bad = w.bad) ∧
      ∀ e, visit keccak256 build code turns (code address) name w = .error e → e = .outOfTurns := by
  induction turns generalizing name address w with
  | zero =>
    constructor
    · intro w' h
      cases h
    · intro e h
      cases h
      rfl
  | succ turns ih =>
    obtain ⟨-, d, hd, -⟩ := hall name address hreached
    have hload : (loadArtifact build name : Except WalkError _) = .ok d := loadArtifact_eq_ok.2 hd
    rw [visit, hload, ok_bind]
    have hlink : ∀ l ∈ d.linkReferences, ∀ v,
        (∀ v', visitLink keccak256 build code (visit keccak256 build code turns) (code address) v l = .ok v' →
          v'.bad = v.bad) ∧
        ∀ e, visitLink keccak256 build code (visit keccak256 build code turns) (code address) v l = .error e →
          e = .outOfTurns := by
      intro l hl v
      have hnext := Reached.link hreached hd hl
      obtain ⟨libCode, d', r, hcode, hd', hr, hok⟩ := (reviewed_iff hinj).1 (hall _ _ hnext)
      obtain ⟨-, rfl⟩ := getCode_eq_ok.1 hcode
      unfold visitLink
      dsimp only
      split
      · simp
      rw [hcode, ok_bind, hd', ok_bind, hr, ok_bind, if_pos hok]
      exact ih hnext _
    constructor
    · intro w' h
      exact foldlM_invariant (fun v => v.bad = w.bad)
        (fun v l v' hl hv h => ((hlink l hl v).1 v' h).trans hv) rfl h
    · intro e h
      obtain ⟨l, hl, v, h⟩ := exists_of_foldlM_error h
      exact (hlink l hl v).2 e h

open Classical in
/-- How many artifacts a name links, directly or not. -/
noncomputable def linkDepth (build : BuildOutput) (name : String) : Nat :=
  ((build.map Prod.fst).toFinset.filter (Relation.TransGen (Links build) name)).card

private theorem linkDepth_le (name : String) : linkDepth build name ≤ build.length := by
  classical
  exact (card_filter_le _ _).trans ((toFinset_card_le _).trans (by simp))

private theorem linkDepth_lt (hacyclic : ∀ n, ¬ Relation.TransGen (Links build) n n) {library : String}
    {d : DeployedBytecode} (h : Links build name library) (hd : build.lookup library = some d) :
    linkDepth build library < linkDepth build name := by
  classical
  refine card_lt_card ?_
  rw [ssubset_iff_of_subset]
  · refine ⟨library, ?_, by simp [hacyclic]⟩
    have hmem : library ∈ build.map Prod.fst := by
      obtain ⟨l₁, l₂, hsplit, -⟩ := lookup_eq_some_iff.1 hd
      simp [hsplit]
    simp only [Finset.mem_filter, mem_toFinset]
    exact ⟨hmem, .single h⟩
  · intro n hn
    simp only [Finset.mem_filter] at hn ⊢
    exact ⟨hn.1, .head h hn.2⟩

private theorem loadArtifact_ne_outOfTurns : (loadArtifact build name : Except WalkError _) ≠ .error .outOfTurns := by
  unfold loadArtifact
  split <;> simp

private theorem getCode_ne_outOfTurns : getCode code address ≠ .error .outOfTurns := by
  unfold getCode
  split <;> simp

omit [DecidableEq H] in
private theorem hashText_ne_outOfTurns {cs : List Char} : hashText keccak256 cs ≠ .error .outOfTurns := by
  unfold hashText
  split <;> simp

private theorem compareCode_ne_outOfTurns {c : List UInt8} {d : DeployedBytecode} :
    compareCode keccak256 c d ≠ .error .outOfTurns := by
  intro h
  unfold compareCode at h
  dsimp only at h
  split at h
  · cases h
  split at h
  · cases h
  simp only [bind_eq_error] at h
  rcases h with h | ⟨ha, -, h | ⟨hb, -, h⟩⟩
  · exact hashText_ne_outOfTurns h
  · exact hashText_ne_outOfTurns h
  · cases h

private theorem visit_ne_outOfTurns (hacyclic : ∀ n, ¬ Relation.TransGen (Links build) n n) (turns : Nat)
    (h : linkDepth build name < turns) (c : List UInt8) (w : CodeWalk H) :
    visit keccak256 build code turns c name w ≠ .error .outOfTurns := by
  induction turns generalizing name c w with
  | zero => omega
  | succ turns ih =>
    intro hvisit
    rw [visit, bind_eq_error] at hvisit
    rcases hvisit with hload | ⟨d, hd, hlinks⟩
    · exact loadArtifact_ne_outOfTurns hload
    obtain ⟨l, hl, v, hlink⟩ := exists_of_foldlM_error hlinks
    unfold visitLink at hlink
    dsimp only at hlink
    split at hlink
    · cases hlink
    simp only [bind_eq_error] at hlink
    rcases hlink with hcode | ⟨libCode, -, hload | ⟨d', hd', hcompare | ⟨r, -, hlink⟩⟩⟩
    · exact getCode_ne_outOfTurns hcode
    · exact loadArtifact_ne_outOfTurns hload
    · exact compareCode_ne_outOfTurns hcompare
    split at hlink
    · have hlt := linkDepth_lt hacyclic ⟨d, loadArtifact_eq_ok.1 hd, l, hl, rfl⟩ (loadArtifact_eq_ok.1 hd')
      exact ih (by omega) _ _ hlink
    · cases hlink

end Walk

private theorem runtimeCodeProblems_eq_nil {H : Type} [DecidableEq H] {keccak256 : List UInt8 → H}
    (hinj : Function.Injective keccak256) {build : BuildOutput} {code : List UInt8 → List UInt8}
    {implementation : List UInt8} {contract : String}
    (h : runtimeCodeProblems keccak256 build code implementation contract = .ok []) :
    ∃ w, Reviewed build code contract implementation ∧
      visit keccak256 build code (build.length + 1) (code implementation) contract ⟨[], []⟩ = .ok w ∧ w.bad = [] := by
  rw [runtimeCodeProblems, bind_eq_ok] at h
  obtain ⟨c, hcode, h⟩ := h
  split at h
  · cases h
  simp only [bind_eq_ok] at h
  obtain ⟨d, hd, r, hr, h⟩ := h
  split at h
  · rename_i hok
    rw [bind_eq_ok] at h
    obtain ⟨w, hvisit, hbad⟩ := h
    have hreviewed := (reviewed_iff hinj).2 ⟨c, d, r, hcode, hd, hr, hok⟩
    obtain ⟨-, rfl⟩ := getCode_eq_ok.1 hcode
    exact ⟨w, hreviewed, hvisit, Except.ok.inj hbad⟩
  · cases h

/-- The gate ends, and lets an implementation through exactly when all code reached is the reviewed build's outside the
ranges of the artifacts; what it masks does not depend on the code. -/
theorem runtime_code_gate {H : Type} [DecidableEq H] {keccak256 : List UInt8 → H}
    (hinj : Function.Injective keccak256) {build : BuildOutput}
    (hacyclic : ∀ name, ¬ Relation.TransGen (Links build) name name) (code : List UInt8 → List UInt8)
    (implementation : List UInt8) (contract : String) :
    runtimeCodeProblems keccak256 build code implementation contract ≠ .error .outOfTurns ∧
      (runtimeCodeProblems keccak256 build code implementation contract = .ok [] ↔
        ∀ name address, Reached build code implementation contract name address → Reviewed build code name address) ∧
      ∀ (d : DeployedBytecode) (c c' : List UInt8), c.length = c'.length →
        (∀ i, (∀ r ∈ d.refs, r.covers i = false) → (ofBytes c)[i]? = (ofBytes c')[i]?) →
        compareCode keccak256 c d = compareCode keccak256 c' d := by
  have hroot : Reached build code implementation contract contract implementation := .root
  refine ⟨?_, ?_, ?_⟩
  · intro h
    simp only [runtimeCodeProblems, bind_eq_error] at h
    rcases h with h | ⟨c, -, h⟩
    · exact getCode_ne_outOfTurns h
    split at h
    · cases h
    simp only [bind_eq_error] at h
    rcases h with h | ⟨d, -, h | ⟨r, -, h⟩⟩
    · exact loadArtifact_ne_outOfTurns h
    · exact compareCode_ne_outOfTurns h
    split at h
    · rw [bind_eq_error] at h
      rcases h with h | ⟨w, -, h⟩
      · exact visit_ne_outOfTurns hacyclic _ (Nat.lt_succ_of_le (linkDepth_le contract)) _ _ h
      · cases h
    · cases h
  · constructor
    · intro h
      obtain ⟨w, hreviewed, hvisit, hbad⟩ := runtimeCodeProblems_eq_nil hinj h
      obtain ⟨hwalked, hexpanded⟩ := visit_walked hinj _ _ _ _ _ hvisit
      have hseen : ∀ name address, Reached build code implementation contract name address →
          Reviewed build code name address ∧ Expanded build code w.seen name address := by
        intro name address h
        induction h with
        | root => exact ⟨hreviewed, hexpanded hbad⟩
        | link h hd hl ih =>
          rcases hwalked.clean hbad _ (ih.2 _ hd _ hl) with hno | hgood
          · cases hno
          · exact hgood
      exact fun name address h => (hseen name address h).1
    · intro hall
      obtain ⟨c, d, r, hcode, hd, hr, hok⟩ := (reviewed_iff hinj).1 (hall _ _ hroot)
      obtain ⟨-, rfl⟩ := getCode_eq_ok.1 hcode
      have hc : code implementation ≠ [] := by
        intro hnil
        rw [compareCode, if_pos hnil] at hr
        cases hr
        cases hok
      obtain ⟨hclean, herror⟩ := visit_clean hinj hall (build.length + 1) hroot (⟨[], []⟩ : CodeWalk H)
      rw [runtimeCodeProblems, hcode, ok_bind, if_neg hc, hd, ok_bind, hr, ok_bind, if_pos hok]
      cases hvisit : visit keccak256 build code (build.length + 1) (code implementation) contract ⟨[], []⟩ with
      | error e =>
        rw [herror e hvisit] at hvisit
        exact absurd hvisit (visit_ne_outOfTurns hacyclic _ (Nat.lt_succ_of_le (linkDepth_le contract)) _ _)
      | ok w => rw [ok_bind, hclean w hvisit]
  · intro d c c' hlen hsame
    have hnil : c = [] ↔ c' = [] := by rw [← length_eq_zero_iff, hlen, length_eq_zero_iff]
    have hmask : maskHex (ofBytes c) d.refs = maskHex (ofBytes c') d.refs := by
      refine (maskHex_eq_iff (by simp [hlen])).2 ?_
      intro i hi
      rw [getElem?_map, getElem?_map, hsame i hi]
    simp only [compareCode, hmask, hnil]

private def sampleLibrary : List UInt8 := replicate 20 0x11
private def sampleImplementation : List UInt8 := replicate 20 0x22

private def sampleContractObject : List Char := '5' :: 'b' :: "__$8f1bd2a5c6d7e8f90a1b2c3d4e5f607182$__".toList
private def sampleLibraryObject : List Char := '7' :: '3' :: replicate 40 '0' ++ ['5', 'B']

theorem sampleContractObject_alphabet : ∀ c ∈ sampleContractObject, isHexDigit c = true ∨ c = '_' ∨ c = '$' := by
  have hall : (sampleContractObject.all fun c => isHexDigit c = true ∨ c = '_' ∨ c = '$') = true := by decide
  exact fun c hc => of_decide_eq_true (all_eq_true.1 hall c hc)

private theorem sampleLibraryObject_alphabet : ∀ c ∈ sampleLibraryObject, isHexDigit c = true ∨ c = '_' ∨ c = '$' := by
  have hall : (sampleLibraryObject.all fun c => isHexDigit c = true ∨ c = '_' ∨ c = '$') = true := by decide
  exact fun c hc => of_decide_eq_true (all_eq_true.1 hall c hc)

private def sampleBuild : BuildOutput :=
  [("RobotMoneyVault",
    ⟨sampleContractObject, sampleContractObject_alphabet, [], [⟨"TickMath", 1, 20⟩]⟩),
    ("TickMath", ⟨sampleLibraryObject, sampleLibraryObject_alphabet, [], []⟩)]

private def sampleCode (address : List UInt8) : List UInt8 :=
  if address = sampleImplementation then 0x5b :: sampleLibrary
  else if address = sampleLibrary then 0x73 :: sampleLibrary ++ [0x5b]
  else []

private theorem sampleLinks {name library : String} (h : Links sampleBuild name library) :
    name = "RobotMoneyVault" ∧ library = "TickMath" := by
  obtain ⟨d, hd, l, hl, rfl⟩ := h
  simp only [sampleBuild, lookup_cons, lookup_nil] at hd
  split at hd
  · rename_i hname
    cases hd
    simp only [List.mem_singleton] at hl
    exact ⟨eq_of_beq hname, by rw [hl]⟩
  split at hd
  · cases hd
    cases hl
  · cases hd

private theorem sampleBuild_acyclic (name : String) : ¬ Relation.TransGen (Links sampleBuild) name name := by
  intro h
  obtain ⟨_, hfirst, -⟩ := Relation.TransGen.head'_iff.1 h
  obtain ⟨_, -, hlast⟩ := Relation.TransGen.tail'_iff.1 h
  have hne := (sampleLinks hfirst).1.symm.trans (sampleLinks hlast).2
  simp at hne

theorem runtime_code_gate_linked :
    runtimeCodeProblems id sampleBuild sampleCode sampleImplementation "RobotMoneyVault" = .ok [] ∧
      Reviewed sampleBuild sampleCode "TickMath" sampleLibrary := by
  have hpass : runtimeCodeProblems id sampleBuild sampleCode sampleImplementation "RobotMoneyVault" = .ok [] := by rfl
  refine ⟨hpass, ?_⟩
  obtain ⟨-, hiff, -⟩ := runtime_code_gate Function.injective_id sampleBuild_acyclic sampleCode sampleImplementation
    "RobotMoneyVault"
  have hlink : Reached sampleBuild sampleCode sampleImplementation "RobotMoneyVault" "TickMath"
      (linkSlot (sampleCode sampleImplementation) 1) :=
    Reached.link (l := ⟨"TickMath", 1, 20⟩) .root rfl (List.mem_singleton.2 rfl)
  exact hiff.1 hpass _ _ hlink

end RobotMoney.Publish
