import RobotMoney.Evm.Chain

/-!
# The run manifest

`publish-run.json` is the record that the commands of `publish-contracts` share: the deploy stages, the govern rows and
the pauses of a run.  Several processes rewrite it, each from a copy of its own, so a save merges what is on disk into
what it writes.  Here are the record and the functions that the saves are made of.
-/

namespace RobotMoney.Publish

open Evm List

inductive StageStatus where
  | started
  | done
  deriving DecidableEq, Repr

/-- `PauseEntry`: one pause-all, numbered by `seq`.  The results of the vaults are texts here. -/
structure PauseEntry where
  seq : Nat
  date : String
  trigger : String
  reason : String
  status : StageStatus
  allPaused : Option Bool
  vaults : List String
  deriving DecidableEq, Repr

/-- `PhaseRecord`: a phase of a govern round, with the number reserved for it and the operation it is about. -/
structure PhaseRecord where
  seq : Option Nat
  operationId : Option Nat
  deriving DecidableEq, Repr

/-- The rows of `govern`, with the values that their record keys are made of. -/
inductive RowName where
  | unpause (vault : String)
  | redeployVault (key : String) (ordinal : Nat)
  | registerSubmitter (submitter : Address)
  | retireVault (vault : Address)
  | freezeUpgrades
  | upgradeProxy (proxy : String) (implementation : Address) (migration : Option String)
  | other (name : String)
  deriving DecidableEq, Repr

/-- The keys of the records: `name`, `name:round-n`, `name:round-n:cancelled-k` and `name:cancelled-k`. -/
inductive RecordKey where
  | row (name : RowName)
  | round (name : RowName) (n : Nat)
  | cancelledRound (name : RowName) (n k : Nat)
  | cancelled (name : RowName) (k : Nat)
  deriving DecidableEq, Repr

structure FreezeTarget where
  proxy : Address
  implementation : Address
  implementationCodeHash : Nat
  deriving DecidableEq, Repr

/-- What a round was planned with, kept in its record so that a resume names the same calls. -/
inductive RowPlan where
  | redeploy (vaults : List Address) (bps : List Nat) (routerVaultCap : Nat)
  | freeze (targets : List FreezeTarget)
  | upgrade (proxy fromImplementation toImplementation : Address)
  deriving DecidableEq, Repr

/-- `RowRecord`: what the manifest keeps of a govern row. -/
structure RowRecord where
  round : Option Nat := none
  plan : Option RowPlan := none
  skipped : Bool := false
  scheduled : Option PhaseRecord := none
  executed : Option PhaseRecord := none
  cancelled : Option PhaseRecord := none
  deriving DecidableEq, Repr

/-- `RunManifest`, with the fields that the saves read. -/
structure RunManifest where
  govern : List (RecordKey × RowRecord) := []
  pauses : Option (List PauseEntry) := none
  seqHigh : Option Nat := none
  deriving DecidableEq, Repr

/-- `state[key]`. -/
def RunManifest.record (m : RunManifest) (key : RecordKey) : Option RowRecord := m.govern.lookup key

/-- `state[key] = r`. -/
def RunManifest.setRecord (m : RunManifest) (key : RecordKey) (r : RowRecord) : RunManifest :=
  { m with govern := (key, r) :: m.govern.filter (·.1 ≠ key) }

/-- `governScheduled`, with the numbers of the records. -/
def governScheduled (m : RunManifest) : List Nat :=
  m.govern.filterMap fun r => r.2.scheduled.map fun x => x.seq.getD 0

def highestSeq (m : RunManifest) : Nat :=
  ((m.seqHigh.getD 0 :: (m.pauses.getD []).map (·.seq)) ++ governScheduled m).foldr max 0

theorem record_setRecord_self (m : RunManifest) (key : RecordKey) (r : RowRecord) :
    (m.setRecord key r).record key = some r := by
  simp [RunManifest.record, RunManifest.setRecord]

theorem record_setRecord_of_ne (m : RunManifest) (r : RowRecord) {key k : RecordKey} (h : k ≠ key) :
    (m.setRecord key r).record k = m.record k := by
  have hfilter : ∀ l : List (RecordKey × RowRecord), (l.filter (·.1 ≠ key)).lookup k = l.lookup k := by
    intro l
    induction l with
    | nil => rfl
    | cons x l ih =>
      by_cases hx : x.1 = key
      · rw [filter_cons_of_neg (by simpa using hx), ih, lookup_cons, hx, beq_false_of_ne h]
      · rw [filter_cons_of_pos (by simpa using hx), lookup_cons, lookup_cons, ih]
  rw [RunManifest.record, RunManifest.setRecord, lookup_cons, beq_false_of_ne h]
  exact hfilter m.govern

def nextManifestSeq (m : RunManifest) : Nat := 1 + highestSeq m

/-- `bySeq.set(e.seq, e)`: an entry of the same number is replaced where it stands. -/
def setBySeq (l : List PauseEntry) (e : PauseEntry) : List PauseEntry :=
  if l.any (·.seq = e.seq) then l.map fun x => if x.seq = e.seq then e else x else l ++ [e]

def bySeq (mine disk : List PauseEntry) : List PauseEntry := disk.foldl setBySeq (mine.foldl setBySeq [])

def sortBySeq (l : List PauseEntry) : List PauseEntry := l.insertionSort fun a b => a.seq ≤ b.seq

def mergeDisk (m : RunManifest) (disk : Option RunManifest) : RunManifest :=
  let entries := bySeq (m.pauses.getD []) ((disk.bind (·.pauses)).getD [])
  let high := max (m.seqHigh.getD 0) ((disk.bind (·.seqHigh)).getD 0)
  { m with
    pauses := if entries = [] then m.pauses else some (sortBySeq entries)
    seqHigh := if 0 < high then some high else m.seqHigh }

/-- What a pause-all says of itself when it begins. -/
structure PauseFields where
  date : String
  trigger : String
  reason : String
  deriving DecidableEq, Repr

/-- The calls that take the lock, each with the manifest or the entry that the caller has in memory. -/
inductive ManifestCall where
  | saveRunManifest (m : RunManifest)
  | reserveManifestSeq (m : RunManifest)
  | beginPauseEntry (e : PauseFields)
  | updatePauseEntry (entry : PauseEntry)
  deriving DecidableEq, Repr

/-- What a write does: it begins an entry, replaces one, or hands out a number. -/
inductive ManifestEvent where
  | began (e : PauseEntry)
  | updated (e : PauseEntry)
  | reserved (seq : Nat)
  | saved
  deriving DecidableEq, Repr

/-- The entry that `beginPauseEntry` opens in a manifest. -/
def openEntry (disk : RunManifest) (e : PauseFields) : PauseEntry :=
  ⟨nextManifestSeq disk, e.date, e.trigger, e.reason, .started, none, []⟩

/-- The body of a call under the lock: from the file it reads to the file it writes, if any. -/
def ManifestCall.body : ManifestCall → Option RunManifest → Option (RunManifest × ManifestEvent)
  | .saveRunManifest m, disk => some (mergeDisk m disk, .saved)
  | .reserveManifestSeq m, disk =>
    let m := mergeDisk m disk
    some ({ m with seqHigh := some (nextManifestSeq m) }, .reserved (nextManifestSeq m))
  | .beginPauseEntry e, disk => disk.map fun disk =>
    let entry := openEntry disk e
    ({ disk with pauses := some (disk.pauses.getD [] ++ [entry]), seqHigh := some entry.seq }, .began entry)
  | .updatePauseEntry entry, disk => disk.map fun disk =>
    ({ disk with pauses := some ((disk.pauses.getD []).map fun p => if p.seq = entry.seq then entry else p) },
      .updated entry)

/-- The newest content of the entry with a number that was begun; the log has the newest write first. -/
def newest : List ManifestEvent → Nat → Option PauseEntry
  | [], _ => none
  | .began e :: older, seq => if e.seq = seq then some e else newest older seq
  | .updated e :: older, seq => if e.seq = seq ∧ (newest older seq).isSome then some e else newest older seq
  | .reserved _ :: older, seq => newest older seq
  | .saved :: older, seq => newest older seq

def ManifestEvent.number : ManifestEvent → Option Nat
  | .began e => some e.seq
  | .reserved seq => some seq
  | .updated _ => none
  | .saved => none

def handedOut (events : List ManifestEvent) : List Nat := events.filterMap (·.number)

def entriesOf (disk : Option RunManifest) : List PauseEntry := (disk.bind (·.pauses)).getD []

def highOf (disk : Option RunManifest) : Nat := (disk.bind (·.seqHigh)).getD 0

def Only (l : List PauseEntry) (e : PauseEntry) : Prop := e ∈ l ∧ ∀ x ∈ l, x.seq = e.seq → x = e

/-- The file has the newest content of every entry that was begun, and the numbers handed out increase up to its
`seqHigh`. -/
structure Recorded (disk : Option RunManifest) (events : List ManifestEvent) : Prop where
  present : ∀ seq e, newest events seq = some e → Only (entriesOf disk) e
  bounded : ∀ n ∈ handedOut events, n ≤ highOf disk
  increasing : (handedOut events).Pairwise (· > ·)

section Merge

variable {l mine disk : List PauseEntry} {e d x : PauseEntry}

private theorem mem_setBySeq : x ∈ setBySeq l e ↔ x = e ∨ x ∈ l ∧ x.seq ≠ e.seq := by
  unfold setBySeq
  by_cases hany : l.any (·.seq = e.seq)
  · rw [if_pos hany]
    obtain ⟨y, hy, hseq⟩ := any_eq_true.1 hany
    constructor
    · intro hx
      obtain ⟨z, hz, rfl⟩ := mem_map.1 hx
      by_cases hzs : z.seq = e.seq
      · exact .inl (if_pos hzs)
      rw [if_neg hzs]
      exact .inr ⟨hz, hzs⟩
    · rintro (rfl | ⟨hx, hne⟩)
      · exact mem_map.2 ⟨y, hy, if_pos (by simpa using hseq)⟩
      · exact mem_map.2 ⟨x, hx, if_neg hne⟩
  rw [if_neg hany, mem_append, mem_singleton]
  have hne : ∀ y ∈ l, y.seq ≠ e.seq := by
    intro y hy hseq
    exact hany (any_eq_true.2 ⟨y, hy, by simpa using hseq⟩)
  constructor
  · rintro (hx | rfl)
    · exact .inr ⟨hx, hne x hx⟩
    · exact .inl rfl
  · rintro (rfl | ⟨hx, -⟩)
    · exact .inr rfl
    · exact .inl hx

private theorem only_setBySeq_self (l : List PauseEntry) (e : PauseEntry) : Only (setBySeq l e) e := by
  refine ⟨mem_setBySeq.2 (.inl rfl), fun x hx hseq => ?_⟩
  rcases mem_setBySeq.1 hx with rfl | ⟨-, hne⟩
  · rfl
  · exact absurd hseq hne

private theorem Only.setBySeq (h : Only l e) (hd : d.seq = e.seq → d = e) : Only (setBySeq l d) e := by
  by_cases hseq : d.seq = e.seq
  · rw [hd hseq]
    exact only_setBySeq_self l e
  refine ⟨mem_setBySeq.2 (.inr ⟨h.1, Ne.symm hseq⟩), fun x hx hxs => ?_⟩
  rcases mem_setBySeq.1 hx with rfl | ⟨hx, -⟩
  · exact absurd hxs hseq
  · exact h.2 x hx hxs

private theorem Only.foldl_setBySeq (h : Only l e) (hd : ∀ d ∈ disk, d.seq = e.seq → d = e) :
    Only (disk.foldl Publish.setBySeq l) e := by
  induction disk generalizing l with
  | nil => exact h
  | cons d disk ih =>
    exact ih (h.setBySeq (hd d mem_cons_self)) fun d' hd' => hd d' (mem_cons_of_mem _ hd')

theorem Only.bySeq (h : Only disk e) (mine : List PauseEntry) : Only (bySeq mine disk) e := by
  unfold Publish.bySeq
  generalize mine.foldl Publish.setBySeq [] = l
  obtain ⟨hmem, hunique⟩ := h
  induction disk generalizing l with
  | nil => exact absurd hmem not_mem_nil
  | cons d disk ih =>
    have htail : ∀ x ∈ disk, x.seq = e.seq → x = e := fun x hx => hunique x (mem_cons_of_mem _ hx)
    rw [foldl_cons]
    rcases mem_cons.1 hmem with rfl | hmem
    · exact (only_setBySeq_self l e).foldl_setBySeq htail
    · exact ih _ hmem htail

theorem Only.sortBySeq (h : Only l e) : Only (sortBySeq l) e := by
  have hperm : ∀ x, x ∈ Publish.sortBySeq l ↔ x ∈ l := fun x => (perm_insertionSort _ l).mem_iff
  exact ⟨(hperm e).2 h.1, fun x hx => h.2 x ((hperm x).1 hx)⟩

private theorem Only.mergeDisk {disk : Option RunManifest} (h : Only (entriesOf disk) e) (m : RunManifest) :
    Only (entriesOf (some (mergeDisk m disk))) e := by
  have hmerged := h.bySeq (m.pauses.getD [])
  have hne : Publish.bySeq (m.pauses.getD []) (entriesOf disk) ≠ [] := ne_nil_of_mem hmerged.1
  have hentries : entriesOf (some (Publish.mergeDisk m disk)) =
      Publish.sortBySeq (Publish.bySeq (m.pauses.getD []) (entriesOf disk)) := by
    simp only [entriesOf, Publish.mergeDisk, Option.bind_some] at hne ⊢
    rw [if_neg hne]
    rfl
  rw [hentries]
  exact hmerged.sortBySeq

private theorem highOf_mergeDisk (m : RunManifest) (disk : Option RunManifest) :
    highOf (some (mergeDisk m disk)) = max (m.seqHigh.getD 0) (highOf disk) := by
  simp only [highOf, mergeDisk, Option.bind_some]
  split_ifs with h
  · rfl
  · omega

end Merge

private theorem le_foldr_max {l : List Nat} {n : Nat} (h : n ∈ l) : n ≤ l.foldr max 0 := by
  induction l with
  | nil => cases h
  | cons a l ih =>
    rw [foldr_cons]
    rcases mem_cons.1 h with rfl | h
    · exact le_max_left _ _
    · exact (ih h).trans (le_max_right _ _)

private theorem seqHigh_lt_nextManifestSeq (m : RunManifest) : highOf (some m) < nextManifestSeq m := by
  have hle : highOf (some m) ≤ highestSeq m := le_foldr_max (by simp [highOf])
  unfold nextManifestSeq
  omega

private theorem seq_lt_nextManifestSeq {m : RunManifest} {e : PauseEntry} (h : e ∈ entriesOf (some m)) :
    e.seq < nextManifestSeq m := by
  have hmem : e.seq ∈ (m.pauses.getD []).map (·.seq) := mem_map_of_mem h
  have hle : e.seq ≤ highestSeq m := le_foldr_max (by simp [hmem])
  unfold nextManifestSeq
  omega

theorem seq_newest {events : List ManifestEvent} {seq : Nat} {e : PauseEntry} (h : newest events seq = some e) :
    e.seq = seq := by
  induction events with
  | nil => cases h
  | cons ev older ih =>
    cases ev with
    | began e' =>
      rw [newest] at h
      split_ifs at h with hseq
      · cases h
        exact hseq
      · exact ih h
    | updated e' =>
      rw [newest] at h
      split_ifs at h with hseq
      · cases h
        exact hseq.1
      · exact ih h
    | reserved n => exact ih h
    | saved => exact ih h

theorem isSome_newest {events : List ManifestEvent} {e : PauseEntry} (h : ManifestEvent.began e ∈ events) :
    (newest events e.seq).isSome := by
  induction events with
  | nil => cases h
  | cons ev older ih =>
    cases ev with
    | began e' =>
      rw [newest]
      split_ifs with hseq
      · rfl
      · rcases mem_cons.1 h with heq | h
        · cases heq
          exact absurd rfl hseq
        · exact ih h
    | updated e' =>
      have hold := ih ((mem_cons.1 h).resolve_left fun heq => nomatch heq)
      rw [newest]
      split_ifs
      · rfl
      · exact hold
    | reserved n => exact ih ((mem_cons.1 h).resolve_left fun heq => nomatch heq)
    | saved => exact ih ((mem_cons.1 h).resolve_left fun heq => nomatch heq)

section Body

variable {disk : Option RunManifest} {events : List ManifestEvent}

private theorem Recorded.increasing_cons (h : Recorded disk events) {n : Nat} (hn : highOf disk < n) :
    (n :: handedOut events).Pairwise (· > ·) :=
  pairwise_cons.2 ⟨fun k hk => (h.bounded k hk).trans_lt hn, h.increasing⟩

private theorem Recorded.save (h : Recorded disk events) (m : RunManifest) :
    Recorded (some (mergeDisk m disk)) (.saved :: events) where
  present seq e he := (h.present seq e he).mergeDisk m
  bounded n hn := by
    rw [highOf_mergeDisk]
    exact (h.bounded n hn).trans (le_max_right _ _)
  increasing := h.increasing

private theorem Recorded.reserve (h : Recorded disk events) (m : RunManifest) :
    Recorded (some { mergeDisk m disk with seqHigh := some (nextManifestSeq (mergeDisk m disk)) })
      (.reserved (nextManifestSeq (mergeDisk m disk)) :: events) := by
  have hhigh : highOf disk < nextManifestSeq (mergeDisk m disk) := by
    have hlt := seqHigh_lt_nextManifestSeq (mergeDisk m disk)
    rw [highOf_mergeDisk] at hlt
    omega
  constructor
  · exact fun seq e he => (h.present seq e he).mergeDisk m
  · intro n hn
    rcases mem_cons.1 hn with rfl | hn
    · exact le_rfl
    · exact (h.bounded n hn).trans hhigh.le
  · exact h.increasing_cons hhigh

private theorem Recorded.begin {disk : RunManifest} (h : Recorded (some disk) events) (f : PauseFields) :
    Recorded (some { disk with
        pauses := some (disk.pauses.getD [] ++ [openEntry disk f]), seqHigh := some (openEntry disk f).seq })
      (.began (openEntry disk f) :: events) := by
  have hfresh : ∀ x ∈ disk.pauses.getD [], x.seq < (openEntry disk f).seq := fun x hx => seq_lt_nextManifestSeq hx
  have hhigh : highOf (some disk) < (openEntry disk f).seq := seqHigh_lt_nextManifestSeq disk
  constructor
  · intro seq e he
    rw [newest] at he
    split_ifs at he with hseq
    · cases he
      refine ⟨mem_append_right _ (mem_singleton_self _), fun x hx hxs => ?_⟩
      rcases mem_append.1 hx with hx | hx
      · exact absurd hxs (hfresh x hx).ne
      · exact mem_singleton.1 hx
    · obtain ⟨hmem, hunique⟩ := h.present seq e he
      refine ⟨mem_append_left _ hmem, fun x hx hxs => ?_⟩
      rcases mem_append.1 hx with hx | hx
      · exact hunique x hx hxs
      rw [mem_singleton.1 hx] at hxs
      exact absurd (hxs.trans (seq_newest he)) hseq
  · intro n hn
    rcases mem_cons.1 hn with rfl | hn
    · exact le_rfl
    · exact (h.bounded n hn).trans hhigh.le
  · exact h.increasing_cons hhigh

private theorem Recorded.update {disk : RunManifest} (h : Recorded (some disk) events) (entry : PauseEntry) :
    Recorded (some { disk with
        pauses := some ((disk.pauses.getD []).map fun p => if p.seq = entry.seq then entry else p) })
      (.updated entry :: events) := by
  refine ⟨fun seq e he => ?_, h.bounded, h.increasing⟩
  -- the entry that was there is replaced, the others stay
  have hother : ∀ e, newest events seq = some e → entry.seq ≠ seq →
      Only ((disk.pauses.getD []).map fun p => if p.seq = entry.seq then entry else p) e := by
    intro e he hne
    obtain ⟨hmem, hunique⟩ := h.present seq e he
    have hes := seq_newest he
    refine ⟨mem_map.2 ⟨e, hmem, if_neg fun heq => hne (heq.symm.trans hes)⟩, fun x hx hxs => ?_⟩
    obtain ⟨y, hy, rfl⟩ := mem_map.1 hx
    by_cases hys : y.seq = entry.seq
    · rw [if_pos hys] at hxs
      exact absurd (hxs.trans hes) hne
    rw [if_neg hys] at hxs ⊢
    exact hunique y hy hxs
  rw [newest] at he
  split_ifs at he with hseq
  · cases he
    obtain ⟨old, hold⟩ := Option.isSome_iff_exists.1 hseq.2
    obtain ⟨hmem, -⟩ := h.present seq old hold
    refine ⟨mem_map.2 ⟨old, hmem, if_pos ((seq_newest hold).trans hseq.1.symm)⟩, fun x hx hxs => ?_⟩
    obtain ⟨y, hy, rfl⟩ := mem_map.1 hx
    by_cases hys : y.seq = entry.seq
    · exact if_pos hys
    rw [if_neg hys] at hxs
    exact absurd hxs hys
  · exact hother e he fun heq => hseq ⟨heq, Option.isSome_iff_exists.2 ⟨e, he⟩⟩

theorem Recorded.body (h : Recorded disk events) {call : ManifestCall} {file : RunManifest} {event : ManifestEvent}
    (hbody : call.body disk = some (file, event)) : Recorded (some file) (event :: events) := by
  cases call with
  | saveRunManifest m =>
    cases hbody
    exact h.save m
  | reserveManifestSeq m =>
    cases hbody
    exact h.reserve m
  | beginPauseEntry f =>
    cases disk with
    | none => cases hbody
    | some disk =>
      cases hbody
      exact h.begin f
  | updatePauseEntry entry =>
    cases disk with
    | none => cases hbody
    | some disk =>
      cases hbody
      exact h.update entry

theorem highOf_body {call : ManifestCall} {file : RunManifest} {event : ManifestEvent}
    (hbody : call.body disk = some (file, event)) :
    highOf disk ≤ highOf (some file) ∧ ∀ e, event = .began e → highOf disk < e.seq := by
  cases call with
  | saveRunManifest m =>
    cases hbody
    refine ⟨?_, fun e he => nomatch he⟩
    rw [highOf_mergeDisk]
    exact le_max_right _ _
  | reserveManifestSeq m =>
    cases hbody
    refine ⟨?_, fun e he => nomatch he⟩
    have hlt := seqHigh_lt_nextManifestSeq (mergeDisk m disk)
    rw [highOf_mergeDisk] at hlt
    have hle : highOf disk ≤ nextManifestSeq (mergeDisk m disk) := by omega
    exact hle
  | beginPauseEntry f =>
    cases disk with
    | none => cases hbody
    | some disk =>
      cases hbody
      have hlt : highOf (some disk) < (openEntry disk f).seq := seqHigh_lt_nextManifestSeq disk
      refine ⟨hlt.le, ?_⟩
      rintro e ⟨⟩
      exact hlt
  | updatePauseEntry entry =>
    cases disk with
    | none => cases hbody
    | some disk =>
      cases hbody
      exact ⟨le_rfl, fun e he => nomatch he⟩

end Body

end RobotMoney.Publish
