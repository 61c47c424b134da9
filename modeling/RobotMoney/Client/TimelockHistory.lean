import Mathlib.Tactic.Positivity

/-!
# The scan of the timelock's history (`timelockApi.ts`)

The panel searches the block of the deployment and reads all events since then, in pages.  A probe that fails counts as
no code; the search then may start too late, and says so (`findDeploymentBlock_spec`).  The pages tile the range
(`flatMap_pages`).
-/

namespace RobotMoney.Client

open List

def logPageBlocks : Nat := 500

def logPageConcurrency : Nat := 8

structure ScanRange where
  fromBlock : Nat
  toBlock : Nat
  incomplete : Bool
  deriving DecidableEq, Repr

/-- What the probes have done: their number, and whether one of them failed. -/
structure Probing where
  probes : Nat
  incomplete : Bool

section Search

-- the answer to a probe, by its number and its block: whether there is code, or none if it fails
variable (probe : Nat → Nat → Option Bool)

def Probing.hasCode (p : Probing) (block : Nat) : Bool × Probing :=
  match probe p.probes block with
  | some code => (code, ⟨p.probes + 1, p.incomplete⟩)
  | none => (false, ⟨p.probes + 1, true⟩)

/-- The search back from the head, with its step doubled so many times: a block with code and one without below it, none
if there is code at block 0. -/
def searchBack (doublings present : Nat) (p : Probing) : Nat × Option Nat × Probing :=
  if present ≤ 64 * 2 ^ doublings then
    let (code, p) := p.hasCode probe 0
    (present, if code then none else some 0, p)
  else
    let (code, p) := p.hasCode probe (present - 64 * 2 ^ doublings)
    if code then searchBack (doublings + 1) (present - 64 * 2 ^ doublings) p
    else (present, some (present - 64 * 2 ^ doublings), p)
termination_by present
decreasing_by
  have : 0 < 64 * 2 ^ doublings := by positivity
  omega

/-- The binary search between a block without code and one with code. -/
def bisect (present absent : Nat) (p : Probing) : Nat × Probing :=
  if 1 < present - absent then
    let (code, p) := p.hasCode probe ((present + absent) / 2)
    if code then bisect ((present + absent) / 2) absent p else bisect present ((present + absent) / 2) p
  else (present, p)
termination_by present - absent

def findDeploymentBlock (latest : Nat) : ScanRange :=
  let (code, p) := Probing.hasCode probe ⟨0, false⟩ latest
  if code then
    match searchBack probe 0 latest p with
    | (_, none, p) => ⟨0, latest, p.incomplete⟩
    | (present, some absent, p) =>
        ⟨(bisect probe present absent p).1, latest, (bisect probe present absent p).2.incomplete⟩
  else ⟨latest, latest, p.incomplete⟩

end Search

/-- The pages of a range. -/
def pages (start stop : Nat) : List (Nat × Nat) :=
  if start ≤ stop then (start, min (start + logPageBlocks - 1) stop) :: pages (start + logPageBlocks) stop else []
termination_by stop + 1 - start
decreasing_by
  unfold logPageBlocks
  omega

def batches {α : Type} : List α → List (List α)
  | [] => []
  | x :: xs => (x :: xs).take logPageConcurrency :: batches ((x :: xs).drop logPageConcurrency)
termination_by xs => xs.length
decreasing_by
  simp only [logPageConcurrency, length_drop, length_cons]
  omega

/-- The scan of a range; a page that cannot be read ends it with an error. -/
def scanInPages {T : Type} (fetchPage : Nat → Nat → Option (List T)) (start stop : Nat) : Option (List T) :=
  (batches (pages start stop)).foldlM (fun out batch => do
    let logs ← batch.mapM fun page => fetchPage page.1 page.2
    pure (out ++ logs.flatten)) []

variable {probe : Nat → Nat → Option Bool} {code : Nat → Bool} {p : Probing} {block present absent : Nat}

/-- Every answer is the truth. -/
def Truthful (probe : Nat → Nat → Option Bool) (code : Nat → Bool) : Prop :=
  ∀ n block, probe n block = none ∨ probe n block = some (code block)

/-- The marks that a part of the search leaves. -/
structure Probing.Leads (probe : Nat → Nat → Option Bool) (p p' : Probing) : Prop where
  kept : p.incomplete = true → p'.incomplete = true
  failed : p'.incomplete = true → p.incomplete = true ∨ ∃ n block, probe n block = none

private theorem Probing.Leads.trans {p' p'' : Probing} (h : p.Leads probe p') (h' : p'.Leads probe p'') :
    p.Leads probe p'' where
  kept hp := h'.kept (h.kept hp)
  failed hp := (h'.failed hp).elim h.failed .inr

/-- A probe tells the truth, or fails and leaves its mark. -/
private theorem hasCode_spec (htrue : Truthful probe code) (p : Probing) (block : Nat) :
    p.Leads probe (p.hasCode probe block).2 ∧ ((p.hasCode probe block).1 = true → code block = true) ∧
      ((p.hasCode probe block).1 = false → code block = false ∨ (p.hasCode probe block).2.incomplete = true) := by
  unfold Probing.hasCode
  rcases htrue p.probes block with hread | hread
  · simp only [hread]
    exact ⟨⟨fun _ => rfl, fun _ => .inr ⟨_, _, hread⟩⟩, by simp, fun _ => .inr trivial⟩
  simp only [hread]
  exact ⟨⟨id, .inl⟩, id, .inl⟩

/-- The search back ends between a block without code, as far as the probes can tell, and one with code. -/
private theorem searchBack_spec (htrue : Truthful probe code) (doublings : Nat) (hpresent : code present = true) :
    p.Leads probe (searchBack probe doublings present p).2.2 ∧ code (searchBack probe doublings present p).1 = true ∧
      ((searchBack probe doublings present p).2.1 = none → code 0 = true) ∧
      ∀ absent, (searchBack probe doublings present p).2.1 = some absent →
        code absent = false ∨ (searchBack probe doublings present p).2.2.incomplete = true := by
  induction doublings, present, p using searchBack.induct probe with
  | case1 doublings present p hle =>
    obtain ⟨hleads, hyes, hno⟩ := hasCode_spec htrue p 0
    rw [searchBack, if_pos hle]
    rcases hread : (p.hasCode probe 0).1 with _ | _
    · refine ⟨hleads, hpresent, by simp [hread], fun absent habsent => ?_⟩
      obtain rfl : 0 = absent := by simpa [hread] using habsent
      exact hno hread
    · exact ⟨hleads, hpresent, fun _ => hyes hread, fun absent habsent => by simp [hread] at habsent⟩
  | case2 doublings present p hle p' hread ih =>
    obtain ⟨hleads, hyes, -⟩ := hasCode_spec htrue p (present - 64 * 2 ^ doublings)
    rw [hread] at hleads hyes
    rw [searchBack, if_neg hle, hread]
    obtain ⟨hthen, hrest⟩ := ih (hyes rfl)
    exact ⟨hleads.trans hthen, hrest⟩
  | case3 doublings present p hle code' p' hread hcode =>
    obtain ⟨hleads, -, hno⟩ := hasCode_spec htrue p (present - 64 * 2 ^ doublings)
    rw [hread] at hleads hno
    rw [searchBack, if_neg hle, hread]
    simp only [hcode]
    refine ⟨hleads, hpresent, by simp, fun absent habsent => ?_⟩
    obtain rfl : present - 64 * 2 ^ doublings = absent := by simpa using habsent
    exact hno (by simpa using hcode)

/-- The binary search ends at a block with code whose predecessor has none, as far as the probes can tell. -/
private theorem bisect_spec (htrue : Truthful probe code) (hpresent : code present = true)
    (habsent : code absent = false ∨ p.incomplete = true) :
    p.Leads probe (bisect probe present absent p).2 ∧ code (bisect probe present absent p).1 = true ∧
      ((bisect probe present absent p).2.incomplete = true ∨
        ∃ last, code last = false ∧ (bisect probe present absent p).1 ≤ last + 1) := by
  induction present, absent, p using bisect.induct probe with
  | case1 present absent p hgap p' hread ih =>
    obtain ⟨hleads, hyes, -⟩ := hasCode_spec htrue p ((present + absent) / 2)
    rw [hread] at hleads hyes
    rw [bisect, if_pos hgap, hread]
    obtain ⟨hthen, hrest⟩ := ih (hyes rfl) (habsent.imp_right hleads.kept)
    exact ⟨hleads.trans hthen, hrest⟩
  | case2 present absent p hgap code' p' hread hcode ih =>
    obtain ⟨hleads, -, hno⟩ := hasCode_spec htrue p ((present + absent) / 2)
    rw [hread] at hleads hno
    rw [bisect, if_pos hgap, hread]
    simp only [hcode]
    obtain ⟨hthen, hrest⟩ := ih hpresent (hno (by simpa using hcode))
    exact ⟨hleads.trans hthen, hrest⟩
  | case3 present absent p hgap =>
    rw [bisect, if_neg hgap]
    refine ⟨⟨id, .inl⟩, hpresent, ?_⟩
    rcases habsent with habsent | hmark
    · exact .inr ⟨absent, habsent, by omega⟩
    · exact .inl hmark

/-- The search starts the scan at the deployment, or says that it may not; it says so only after a failure. -/
theorem findDeploymentBlock_spec (htrue : Truthful probe code)
    (hmono : ∀ a b, a ≤ b → code a = true → code b = true) {latest : Nat} (hlatest : code latest = true) :
    (findDeploymentBlock probe latest).toBlock = latest ∧ ((findDeploymentBlock probe latest).incomplete = true ∨
        IsLeast {block | code block = true} (findDeploymentBlock probe latest).fromBlock) ∧
      ((findDeploymentBlock probe latest).incomplete = true → ∃ n block, probe n block = none) := by
  obtain ⟨hfirst, -, hno⟩ := hasCode_spec htrue ⟨0, false⟩ latest
  have hfailed : ∀ p', Probing.Leads probe ⟨0, false⟩ p' → p'.incomplete = true → ∃ n block, probe n block = none :=
    fun p' h hp => (h.failed hp).elim (by simp) id
  unfold findDeploymentBlock
  rcases hread : Probing.hasCode probe ⟨0, false⟩ latest with ⟨_ | _, p⟩
  · rw [hread] at hfirst hno
    have hmark : p.incomplete = true := (hno rfl).resolve_left (by simp [hlatest])
    exact ⟨rfl, .inl hmark, hfailed p hfirst⟩
  rw [hread] at hfirst
  simp only [if_true]
  obtain ⟨hback, hpresent, hzero, habsent⟩ := searchBack_spec (p := p) htrue 0 hlatest
  have hback := hfirst.trans hback
  rcases hsearch : searchBack probe 0 latest p with ⟨present, _ | absent, p'⟩
  · rw [hsearch] at hback hzero
    exact ⟨rfl, .inr ⟨hzero rfl, fun _ _ => Nat.zero_le _⟩, hfailed p' hback⟩
  rw [hsearch] at hback hpresent habsent
  obtain ⟨hbisect, hcode, hleast⟩ := bisect_spec htrue hpresent (habsent absent rfl)
  refine ⟨rfl, hleast.imp_right ?_, hfailed _ (hback.trans hbisect)⟩
  rintro ⟨last, hlast, hle⟩
  refine ⟨hcode, fun block hblock => hle.trans ?_⟩
  -- a deployment at `last` or before it would put code at `last`
  by_contra hlt
  have := hmono block last (by omega) hblock
  simp [hlast] at this

/-- The pages tile the range, in block order. -/
theorem flatMap_pages (start stop : Nat) :
    (pages start stop).flatMap (fun page => range' page.1 (page.2 + 1 - page.1)) = range' start (stop + 1 - start) := by
  induction start using pages.induct stop with
  | case1 start hle ih =>
    rw [pages, if_pos hle, flatMap_cons, ih]
    unfold logPageBlocks
    rcases Nat.lt_or_ge stop (start + 500) with hlast | hmore
    · rw [min_eq_right (by omega), show stop + 1 - (start + 500) = 0 by omega]
      simp
    rw [min_eq_left (by omega),
      show stop + 1 - start = start + 500 - 1 + 1 - start + (stop + 1 - (start + 500)) by omega,
      ← range'_append_1, show start + (start + 500 - 1 + 1 - start) = start + 500 by omega]
  | case2 start hle =>
    rw [pages, if_neg hle, show stop + 1 - start = 0 by omega]
    rfl

private theorem pages_le (start stop : Nat) {page : Nat × Nat} (hpage : page ∈ pages start stop) :
    page.1 ≤ page.2 ∧ page.2 < page.1 + logPageBlocks := by
  induction start using pages.induct stop with
  | case1 start hle ih =>
    rw [pages, if_pos hle, mem_cons] at hpage
    rcases hpage with rfl | hpage
    · simp only [logPageBlocks]
      omega
    · exact ih hpage
  | case2 start hle =>
    rw [pages, if_neg hle] at hpage
    simp at hpage

/-- The batches read the pages one after the other. -/
private theorem foldlM_batches {α T : Type} (read : α → Option (List T)) (xs : List α) (out : List T) :
    (batches xs).foldlM (fun out batch => do
      let logs ← batch.mapM read
      pure (out ++ logs.flatten)) out = (xs.mapM read).map fun logs => out ++ logs.flatten := by
  induction xs using batches.induct generalizing out with
  | case1 => simp [batches]
  | case2 x xs ih =>
    rw [batches, foldlM_cons]
    conv_rhs => rw [← take_append_drop logPageConcurrency (x :: xs), mapM_append]
    rcases hread : ((x :: xs).take logPageConcurrency).mapM read with _ | logs
    · simp
    refine (ih (out ++ logs.flatten)).trans ?_
    rcases ((x :: xs).drop logPageConcurrency).mapM read with _ | rest <;> simp

private theorem scanInPages_eq {T : Type} (fetchPage : Nat → Nat → Option (List T)) (start stop : Nat) :
    scanInPages fetchPage start stop = ((pages start stop).mapM fun page => fetchPage page.1 page.2).map flatten := by
  unfold scanInPages
  rw [foldlM_batches]
  simp

private theorem mapM_truthful {α β : Type} {read : α → Option β} {answer : α → β}
    (htrue : ∀ x, read x = none ∨ read x = some (answer x)) (xs : List α) :
    xs.mapM read = none ∨ xs.mapM read = some (xs.map answer) := by
  induction xs with
  | nil => simp
  | cons x xs ih =>
    rw [mapM_cons]
    rcases htrue x with hread | hread
    · simp [hread]
    · rcases ih with hrest | hrest <;> simp [hread, hrest]

/-- The scan misses nothing: every event since the deployment is read, unless a page fails or the range is marked. -/
theorem timelock_history_complete {probe : Nat → Nat → Option Bool} {code : Nat → Bool} {latest : Nat}
    (htrue : Truthful probe code) (hmono : ∀ a b, a ≤ b → code a = true → code b = true)
    (hlatest : code latest = true) :
    ((∀ n block, probe n block ≠ none) → (findDeploymentBlock probe latest).incomplete = false ∧
        IsLeast {block | code block = true} (findDeploymentBlock probe latest).fromBlock) ∧
      ((findDeploymentBlock probe latest).incomplete = true ∨
        ∀ block, code block = true → (findDeploymentBlock probe latest).fromBlock ≤ block) ∧
      ∀ (T : Type) (fetchPage : Nat → Nat → Option (List T)),
        (∀ start stop,
          scanInPages fetchPage start stop =
              ((pages start stop).mapM fun page => fetchPage page.1 page.2).map flatten ∧
            (pages start stop).flatMap (fun page => range' page.1 (page.2 + 1 - page.1)) =
              range' start (stop + 1 - start) ∧
            ∀ page ∈ pages start stop, page.1 ≤ page.2 ∧ page.2 < page.1 + logPageBlocks) ∧
        ∀ events : Nat → List T, (∀ block, code block = false → events block = []) →
          (∀ start stop, fetchPage start stop = none ∨
            fetchPage start stop = some ((range' start (stop + 1 - start)).flatMap events)) →
          scanInPages fetchPage (findDeploymentBlock probe latest).fromBlock
              (findDeploymentBlock probe latest).toBlock = none ∨
            (findDeploymentBlock probe latest).incomplete = true ∨
            scanInPages fetchPage (findDeploymentBlock probe latest).fromBlock
              (findDeploymentBlock probe latest).toBlock = some ((range (latest + 1)).flatMap events) := by
  obtain ⟨hto, hleast, hfailed⟩ := findDeploymentBlock_spec htrue hmono hlatest
  refine ⟨fun hall => ?_, hleast.imp_right fun h block hblock => h.2 hblock, fun T fetchPage =>
    ⟨fun start stop => ⟨scanInPages_eq fetchPage start stop, flatMap_pages start stop, fun _ =>
      pages_le start stop⟩, ?_⟩⟩
  · have hmark : (findDeploymentBlock probe latest).incomplete = false := by
      by_contra hmark
      obtain ⟨n, block, hnone⟩ := hfailed (by simpa using hmark)
      exact hall n block hnone
    exact ⟨hmark, hleast.resolve_left (by simp [hmark])⟩
  · intro events hevents hfetch
    rcases hleast with hmark | hleast
    · exact .inr (.inl hmark)
    rw [scanInPages_eq, hto]
    rcases mapM_truthful (fun page : Nat × Nat => hfetch page.1 page.2)
      (pages (findDeploymentBlock probe latest).fromBlock latest) with hread | hread
    · exact .inl (by rw [hread]; rfl)
    · refine .inr (.inr ?_)
      have hle : (findDeploymentBlock probe latest).fromBlock ≤ latest := hleast.2 hlatest
      generalize (findDeploymentBlock probe latest).fromBlock = start at hread hle hleast
      have hbefore : (range' 0 start).flatMap events = [] := by
        rw [flatMap_eq_nil_iff]
        intro block hblock
        have hlt : block < start := by simpa using hblock
        refine hevents block ?_
        by_contra hcode
        exact absurd (hleast.2 (show code block = true by simpa using hcode)) (by omega)
      have hsplit : range (latest + 1) = range' 0 start ++ range' start (latest + 1 - start) := by
        rw [range_eq_range', show range' start (latest + 1 - start) =
          range' (0 + start) (latest + 1 - start) by rw [Nat.zero_add], range'_append_1,
          show start + (latest + 1 - start) = latest + 1 by omega]
      rw [hread, Option.map_some, ← flatMap_def, ← flatMap_assoc, flatMap_pages, hsplit,
        flatMap_append, hbefore, nil_append]

theorem timelock_history_complete_since :
    (findDeploymentBlock (fun _ block => some (decide (700 ≤ block))) 2000).incomplete = false ∧
      IsLeast {block | decide (700 ≤ block) = true}
        (findDeploymentBlock (fun _ block => some (decide (700 ≤ block))) 2000).fromBlock :=
  (timelock_history_complete (fun _ _ => .inr rfl) (by intro a b hab; simp; omega) (by decide)).1 (by simp)

end RobotMoney.Client
