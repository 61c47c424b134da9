import RobotMoney.Sort.PerKey
import RobotMoney.Text.Search

/-!
# Reading the logs of a block range (`verify/logs.ts`)

`walk` reads a range in windows of blocks and an address list in groups.  A refusal that names a limit shrinks the group
or the window, and what was read of the window by then is read again.  A turn of its loops is `walkStep`, and `walk`
ends because a turn that reads nothing new shrinks something (`walkStep_lt`).  What is read agrees with the logs of the
chain (`Scanned`, `walkStep_scanned`), so a scan that succeeds is exact, and so is one that is served from the shared
pass (`log_scan_exact`).
-/

namespace RobotMoney.Publish

open TextSearch PerKey List Option

abbrev LogText := List Char

/-- An error of a read: its own fields, and the message and status of each of its causes. -/
structure RpcError where
  message : LogText
  status : Option Nat
  details : LogText
  causes : List (LogText × Option Nat)
  deriving DecidableEq, Repr

def appendedLabels : List LogText := ["URL:".toList, "Request body:".toList, "Raw Call Arguments:".toList]

def own : LogText → LogText
  | [] => []
  | ch :: rest =>
    if ch = '\n' ∧ appendedLabels.any (·.isPrefixOf (rest.dropWhile (whiteSpace.contains ·))) then []
    else ch :: own rest

def errText (e : RpcError) : LogText :=
  own e.message ++ ' ' :: own ((e.causes.head?.map (·.1)).getD []) ++ ' ' :: e.details

def statusOf (e : RpcError) : Option Nat := ((e.status :: e.causes.map (·.2)).take 6).findSome? id

def isWordCharacter (ch : Char) : Bool := ch.isAlphanum || ch = '_'

/-- `\b429\b`. -/
def hasStatusWord : Option Char → LogText → Bool
  | _, [] => false
  | previous, ch :: rest =>
    (!previous.any isWordCharacter && ['4', '2', '9'].isPrefixOf (ch :: rest) &&
        !(rest.drop 2).head?.any isWordCharacter) ||
      hasStatusWord (some ch) rest

/-- What `.` matches. -/
def isNoLineEnd (ch : Char) : Bool := ch ≠ '\n' && ch ≠ '\r' && ch ≠ '\u2028' && ch ≠ '\u2029'

/-- `rate.?limit`, in any case. -/
def hasRateLimitWord (text : LogText) : Bool :=
  (lower text).tails.any fun rest => "rate".toList.isPrefixOf rest &&
    ("limit".toList.isPrefixOf (rest.drop 4) ||
      ((rest.drop 4).head?.any isNoLineEnd &&
        "limit".toList.isPrefixOf (rest.drop 5)))

def isRateLimit (e : RpcError) : Bool :=
  statusOf e = some 429 || hasStatusWord none (errText e) || hasRateLimitWord (errText e) ||
    hasWord "too many requests".toList (errText e)

def maxLogAddresses : Nat := 10

def addressLimit (e : RpcError) : Option Nat :=
  numberBetween "maximum of ".toList false " addresses".toList (errText e)

def rangeLimit (e : RpcError) : Option Nat :=
  match (numberBetween "exceed maximum block range:".toList true [] (errText e)).or
    (numberBetween "ranges over ".toList false " blocks are not supported".toList (errText e)) with
  | some n => some n
  | none => if hasWord "block range too large".toList (errText e) then some 0 else none

example : addressLimit ⟨"A maximum of 10 addresses is allowed".toList, none, [], []⟩ = some 10 := by decide +kernel

def rpcRefusedDetail : LogText := "RPC_REFUSED".toList

abbrev HexDigits := List Char

structure LogEntry where
  address : HexDigits
  topics : List HexDigits
  data : HexDigits
  blockNumber : Nat
  transactionHash : Option HexDigits
  deriving DecidableEq, Repr

/-- An element of `topics`: `null`, a topic, or a list of topics. -/
inductive TopicFilter where
  | any
  | one (topic : HexDigits)
  | oneOf (topics : List HexDigits)
  deriving DecidableEq, Repr

/-- What a filter asks of the address: nothing, an address, or a list of addresses. -/
inductive AddressFilter where
  | any
  | one (address : HexDigits)
  | list (addresses : List HexDigits)
  deriving DecidableEq, Repr

/-- The parameters of `getLogs`. -/
structure LogQuery where
  address : AddressFilter
  topics : List TopicFilter
  fromBlock : Nat
  toBlock : Nat
  deriving DecidableEq, Repr

def TopicFilter.accepts : TopicFilter → HexDigits → Bool
  | .any, _ => true
  | .one t, got => lower t = lower got
  | .oneOf ts, got => ts.isEmpty || ts.any fun t => lower t = lower got

def AddressFilter.accepts : AddressFilter → HexDigits → Bool
  | .any, _ => true
  | .one a, got => lower a = lower got
  | .list as, got => as.any fun a => lower a = lower got

def topicsMatch (filter : List TopicFilter) (topics : List HexDigits) : Bool :=
  decide (filter.length ≤ topics.length) && (filter.zip topics).all fun p => p.1.accepts p.2

def LogQuery.selects (q : LogQuery) (l : LogEntry) : Bool :=
  decide (q.fromBlock ≤ l.blockNumber ∧ l.blockNumber < q.toBlock + 1) &&
    (q.address.accepts l.address && topicsMatch q.topics l.topics)

variable {l : LogEntry} {g : Nat} {p : HexDigits → Bool} {logs : List LogEntry} {plan : SharedScanPlan}

private theorem LogQuery.selects_iff {q : LogQuery} :
    q.selects l = true ↔ (q.fromBlock ≤ l.blockNumber ∧ l.blockNumber < q.toBlock + 1) ∧
      q.address.accepts l.address = true ∧ topicsMatch q.topics l.topics = true := by
  rw [LogQuery.selects, Bool.and_eq_true, Bool.and_eq_true, decide_eq_true_eq]

/-- `chain.getLogs`, by the number of the call. -/
abbrev GetLogs := Nat → LogQuery → Except RpcError (List LogEntry)

def AddressFilter.count : AddressFilter → Nat
  | .list as => as.length
  | _ => 1

def AddressFilter.slice (f : AddressFilter) (g group : Nat) : AddressFilter :=
  match f with
  | .list as => .list ((as.drop g).take group)
  | f => f

def AddressFilter.isList : AddressFilter → Bool
  | .list _ => true
  | _ => false

/-- The variables of the loops, and the number of calls. -/
structure WalkState where
  out : List LogEntry
  group : Nat
  step : Nat
  lo : Nat
  hi : Nat
  g : Nat
  attempt : Nat
  calls : Nat
  deriving DecidableEq, Repr

/-- What a turn of the loops comes to. -/
inductive Turn where
  | next (w : WalkState)
  | done (out : List LogEntry)
  | fail (error : LogText)
  deriving DecidableEq, Repr

/-- The index of the first log at or after block `lo`, from the end. -/
def chunkStart (out : List LogEntry) (lo : Nat) : Nat → Nat
  | 0 => 0
  | i + 1 => if out[i]?.any (fun l => lo ≤ l.blockNumber) then chunkStart out lo i else i + 1

def WalkState.again (w : WalkState) : WalkState :=
  { w with out := w.out.take (chunkStart w.out w.lo w.out.length), g := 0, attempt := 0, calls := w.calls + 1 }

def refusedText (lo hi : Nat) (e : RpcError) : LogText :=
  rpcRefusedDetail ++ ": getLogs ".toList ++ Nat.toDigits 10 lo ++ '-' :: Nat.toDigits 10 hi ++ " failed: ".toList ++
    (own e.message).take 200

/-- The window after a range limit: the count that the RPC names, or half of the size. -/
def shrunkStep (lim size : Nat) : Nat := if 0 < lim ∧ lim < size then lim else size / 2

def refused (f : AddressFilter) (toBlock maxRetries : Nat) (w : WalkState) (e : RpcError) : Turn :=
  let lim := rangeLimit e
  let size := w.hi - w.lo + 1
  let alim := addressLimit e
  if f.isList ∧ alim.any (fun n => 1 ≤ n ∧ n < w.group) then .next { w.again with group := alim.getD 0 }
  else if lim.isSome ∧ 1 < size then
    let step := shrunkStep (lim.getD 0) size
    let hi := min (w.lo + step - 1) toBlock
    -- The groups already read covered the wider window.
    if 0 < w.g then .next { w.again with step := step, hi := hi }
    else .next { w with step := step, hi := hi, calls := w.calls + 1 }
  else if !isRateLimit e ∨ maxRetries ≤ w.attempt then .fail (refusedText w.lo w.hi e)
  else .next { w with attempt := w.attempt + 1, calls := w.calls + 1 }

/-- A turn: the range is read, or a group of the chunk is asked for, or the next chunk starts. -/
def walkStep (getLogs : GetLogs) (f : AddressFilter) (topics : List TopicFilter) (toBlock maxRetries : Nat)
    (w : WalkState) : Turn :=
  if toBlock < w.lo then .done w.out
  else if w.g < f.count then
    match getLogs w.calls ⟨f.slice w.g w.group, topics, w.lo, w.hi⟩ with
    | .ok logs => .next { w with out := w.out ++ logs, g := w.g + w.group, attempt := 0, calls := w.calls + 1 }
    | .error e => refused f toBlock maxRetries w e
  else .next { w with lo := w.hi + 1, hi := min (w.hi + 1 + w.step - 1) toBlock, g := 0, attempt := 0 }

/-- What holds before each turn of a walk that started at `fromBlock`. -/
structure WalkState.Sound (f : AddressFilter) (fromBlock toBlock : Nat) (w : WalkState) : Prop where
  step_pos : 0 < w.step
  group_pos : 0 < f.count → 0 < w.group
  lo_le_hi : w.lo ≤ toBlock → w.lo ≤ w.hi ∧ w.hi ≤ toBlock
  from_le_lo : fromBlock ≤ w.lo
  lo_le : w.lo ≤ toBlock + 1 ∨ w.lo = fromBlock
  g_eq_zero : toBlock < w.lo → w.g = 0

variable {getLogs : GetLogs} {f : AddressFilter} {topics : List TopicFilter} {fromBlock toBlock maxRetries : Nat}
  {w w' : WalkState} {e : RpcError}

private theorem shrunkStep_pos (lim : Nat) {size : Nat} (h : 1 < size) :
    0 < shrunkStep lim size ∧ shrunkStep lim size < size := by
  unfold shrunkStep
  split
  · assumption
  · omega

private theorem refused_cases (h : refused f toBlock maxRetries w e = .next w') :
    (∃ alim, f.isList = true ∧ 1 ≤ alim ∧ alim < w.group ∧ w' = { w.again with group := alim }) ∨
    (∃ step, 0 < step ∧ step < w.hi - w.lo + 1 ∧ 0 < w.g ∧
      w' = { w.again with step := step, hi := min (w.lo + step - 1) toBlock }) ∨
    (∃ step, 0 < step ∧ step < w.hi - w.lo + 1 ∧ w.g = 0 ∧
      w' = { w with step := step, hi := min (w.lo + step - 1) toBlock, calls := w.calls + 1 }) ∨
    (w.attempt < maxRetries ∧ w' = { w with attempt := w.attempt + 1, calls := w.calls + 1 }) := by
  simp only [refused] at h
  split at h
  · rename_i haddress
    obtain ⟨hlist, halim⟩ := haddress
    obtain ⟨alim, hsome⟩ : ∃ alim, addressLimit e = some alim := by
      cases halim' : addressLimit e with
      | none =>
        rw [halim'] at halim
        cases halim
      | some alim => exact ⟨alim, rfl⟩
    simp only [hsome, any_some, decide_eq_true_eq] at halim
    simp only [hsome, getD_some, Turn.next.injEq] at h
    exact .inl ⟨alim, hlist, halim.1, halim.2, h.symm⟩
  split at h
  · rename_i hrange
    obtain ⟨hpos, hlt⟩ := shrunkStep_pos ((rangeLimit e).getD 0) hrange.2
    split at h
    · rename_i hg
      exact .inr (.inl ⟨_, hpos, hlt, hg, (Turn.next.inj h).symm⟩)
    rename_i hg
    exact .inr (.inr (.inl ⟨_, hpos, hlt, by omega, (Turn.next.inj h).symm⟩))
  split at h
  · cases h
  rename_i hretry
  simp only [not_or, not_le] at hretry
  exact .inr (.inr (.inr ⟨hretry.2, (Turn.next.inj h).symm⟩))

theorem walkStep_cases (h : walkStep getLogs f topics toBlock maxRetries w = .next w') : w.lo ≤ toBlock ∧
    ((w.g < f.count ∧ ∃ logs, getLogs w.calls ⟨f.slice w.g w.group, topics, w.lo, w.hi⟩ = .ok logs ∧
      w' = { w with out := w.out ++ logs, g := w.g + w.group, attempt := 0, calls := w.calls + 1 }) ∨
    (w.g < f.count ∧ ∃ e, refused f toBlock maxRetries w e = .next w') ∨
    (f.count ≤ w.g ∧
      w' = { w with lo := w.hi + 1, hi := min (w.hi + 1 + w.step - 1) toBlock, g := 0, attempt := 0 })) := by
  unfold walkStep at h
  split at h
  · cases h
  rename_i hlo
  refine ⟨by omega, ?_⟩
  split at h
  · rename_i hg
    split at h
    · rename_i logs hlogs
      exact .inl ⟨hg, logs, hlogs, (Turn.next.inj h).symm⟩
    · exact .inr (.inl ⟨hg, _, h⟩)
  rename_i hg
  exact .inr (.inr ⟨by omega, (Turn.next.inj h).symm⟩)

private theorem walkStep_sound (h : w.Sound f fromBlock toBlock)
    (hstep : walkStep getLogs f topics toBlock maxRetries w = .next w') :
    w'.Sound f fromBlock toBlock := by
  obtain ⟨hlo, ⟨hg, logs, -, rfl⟩ | ⟨hg, e, hrefused⟩ | ⟨hg, rfl⟩⟩ := walkStep_cases hstep
  · exact ⟨h.step_pos, h.group_pos, h.lo_le_hi, h.from_le_lo, h.lo_le, fun hlt => absurd hlt (by simpa using hlo)⟩
  · have hwindow := h.lo_le_hi hlo
    obtain ⟨alim, -, hpos, -, rfl⟩ | ⟨step, hpos, hlt, -, rfl⟩ | ⟨step, hpos, hlt, hg0, rfl⟩ | ⟨-, rfl⟩ :=
      refused_cases hrefused
    · exact ⟨h.step_pos, fun _ => hpos, h.lo_le_hi, h.from_le_lo, h.lo_le, fun _ => rfl⟩
    · exact ⟨hpos, h.group_pos, fun _ => ⟨by simp only [WalkState.again]; omega, min_le_right _ _⟩, h.from_le_lo,
        h.lo_le, fun _ => rfl⟩
    · exact ⟨hpos, h.group_pos, fun _ => ⟨by simp only; omega, min_le_right _ _⟩, h.from_le_lo, h.lo_le,
        fun _ => hg0⟩
    · exact ⟨h.step_pos, h.group_pos, h.lo_le_hi, h.from_le_lo, h.lo_le, h.g_eq_zero⟩
  have hwindow := h.lo_le_hi hlo
  have hpos := h.step_pos
  have hfrom := h.from_le_lo
  refine ⟨hpos, h.group_pos, ?_, ?_, ?_, fun _ => rfl⟩
  · intro hle
    simp only at hle ⊢
    omega
  · simp only
    omega
  · left
    simp only
    omega

/-- What is left to read, then the window, the group, the addresses and the attempts that are left. -/
def WalkState.left (f : AddressFilter) (toBlock maxRetries : Nat) (w : WalkState) : Nat × Nat × Nat × Nat × Nat :=
  (toBlock + 1 - w.lo, w.hi + 1 - w.lo, w.group, f.count - w.g, maxRetries - w.attempt)

def Less : Nat × Nat × Nat × Nat × Nat → Nat × Nat × Nat × Nat × Nat → Prop :=
  Prod.Lex (· < ·) (Prod.Lex (· < ·) (Prod.Lex (· < ·) (Prod.Lex (· < ·) (· < ·))))

private theorem walkStep_lt (h : w.Sound f fromBlock toBlock)
    (hstep : walkStep getLogs f topics toBlock maxRetries w = .next w') :
    Less (w'.left f toBlock maxRetries) (w.left f toBlock maxRetries) := by
  obtain ⟨hlo, ⟨hg, logs, -, rfl⟩ | ⟨hg, e, hrefused⟩ | ⟨hg, rfl⟩⟩ := walkStep_cases hstep
  · have hgroup := h.group_pos (by omega)
    have hless : f.count - (w.g + w.group) < f.count - w.g := by omega
    exact .right _ (.right _ (.right _ (.left _ _ hless)))
  · have hwindow := h.lo_le_hi hlo
    obtain ⟨alim, -, -, hlt, rfl⟩ | ⟨step, hpos, hlt, -, rfl⟩ | ⟨step, hpos, hlt, hg0, rfl⟩ | ⟨hlt, rfl⟩ :=
      refused_cases hrefused
    · exact .right _ (.right _ (.left _ _ hlt))
    · have hless : min (w.lo + step - 1) toBlock + 1 - w.lo < w.hi + 1 - w.lo := by omega
      exact .right _ (.left _ _ hless)
    · have hless : min (w.lo + step - 1) toBlock + 1 - w.lo < w.hi + 1 - w.lo := by omega
      exact .right _ (.left _ _ hless)
    have hless : maxRetries - (w.attempt + 1) < maxRetries - w.attempt := by omega
    exact .right _ (.right _ (.right _ (.right _ hless)))
  have hwindow := h.lo_le_hi hlo
  have hless : toBlock + 1 - (w.hi + 1) < toBlock + 1 - w.lo := by omega
  exact .left _ _ hless

def walkFrom (getLogs : GetLogs) (f : AddressFilter) (topics : List TopicFilter) (fromBlock toBlock maxRetries : Nat)
    (w : WalkState) (h : w.Sound f fromBlock toBlock) : Except LogText (List LogEntry) :=
  match hstep : walkStep getLogs f topics toBlock maxRetries w with
  | .done out => .ok out
  | .fail error => .error error
  | .next w' => walkFrom getLogs f topics fromBlock toBlock maxRetries w' (walkStep_sound h hstep)
termination_by w.left f toBlock maxRetries
decreasing_by exact walkStep_lt h hstep

private theorem start_sound {chunk : Nat} (h : ¬ chunk < 1) (f : AddressFilter) (fromBlock toBlock : Nat) :
    WalkState.Sound f fromBlock toBlock
      ⟨[], min f.count maxLogAddresses, chunk, fromBlock, min (fromBlock + chunk - 1) toBlock, 0, 0, 0⟩ := by
  refine ⟨by simp only; omega, ?_, ?_, le_rfl, .inr rfl, fun _ => rfl⟩
  · intro hcount
    simp only [maxLogAddresses]
    omega
  · intro hle
    simp only at hle ⊢
    omega

def walk (getLogs : GetLogs) (f : AddressFilter) (topics : List TopicFilter)
    (fromBlock toBlock chunk maxRetries : Nat) :
    Except LogText (List LogEntry) :=
  if h : chunk < 1 then .error "logChunk must be at least 1".toList
  else walkFrom getLogs f topics fromBlock toBlock maxRetries
    ⟨[], min f.count maxLogAddresses, chunk, fromBlock, min (fromBlock + chunk - 1) toBlock, 0, 0, 0⟩
    (start_sound h f fromBlock toBlock)

def Serves (chain : List LogEntry) (getLogs : GetLogs) : Prop :=
  ∀ n q logs, getLogs n q = .ok logs → logs = chain.filter q.selects

def AddressFilter.Distinct : AddressFilter → Prop
  | .list as => (as.map lower).Nodup
  | _ => True

def AddressFilter.key (f : AddressFilter) (l : LogEntry) : Option HexDigits :=
  if f.isList then some (lower l.address) else none

/-- The addresses of the groups before `g`. -/
def AddressFilter.first (f : AddressFilter) (g : Nat) (got : HexDigits) : Bool :=
  match f with
  | .list as => (as.take g).any fun a => lower a = lower got
  | f => decide (0 < g) && f.accepts got

open AddressFilter

/-- The logs of blocks from `lo` up to `hi` from some addresses. -/
def between (chain : List LogEntry) (topics : List TopicFilter) (p : HexDigits → Bool) (lo hi : Nat) : List LogEntry :=
  chain.filter fun l => decide (lo ≤ l.blockNumber ∧ l.blockNumber < hi) && (p l.address && topicsMatch topics l.topics)

/-- What has been read: the blocks before the chunk, and of the chunk the groups before `g`. -/
def Scanned (chain : List LogEntry) (f : AddressFilter) (topics : List TopicFilter) (fromBlock : Nat) (w : WalkState) :
    Prop :=
  ∃ before current, w.out = before ++ current ∧
    SamePerKey f.key before (between chain topics f.accepts fromBlock w.lo) ∧
    SamePerKey f.key current (between chain topics (f.first w.g) w.lo (w.hi + 1))

variable {chain : List LogEntry}

@[simp] theorem first_zero (f : AddressFilter) (got : HexDigits) : f.first 0 got = false := by
  cases f <;> rfl

private theorem first_of_count_le (h : f.count ≤ g) (got : HexDigits) : f.first g got = f.accepts got := by
  cases f with
  | list as => rw [first, take_of_length_le h, accepts]
  | any =>
    have hpos : 0 < g := h
    simp [first, hpos]
  | one a =>
    have hpos : 0 < g := h
    simp [first, hpos]

private theorem first_add {g group : Nat} (hg : g < f.count) (hgroup : 0 < group) (got : HexDigits) :
    f.first (g + group) got = (f.first g got || (f.slice g group).accepts got) := by
  cases f with
  | list as => simp only [first, slice, accepts, take_add, any_append]
  | any | one a =>
    obtain rfl : g = 0 := Nat.lt_one_iff.1 hg
    simp [first, slice, hgroup]

private theorem first_disjoint (hf : f.Distinct) {g group : Nat} (hg : g < f.count) {l l' : LogEntry}
    (hl : f.first g l.address = true) (hl' : (f.slice g group).accepts l'.address = true) : f.key l ≠ f.key l' := by
  cases f with
  | list as =>
    simp only [first, List.any_eq_true, decide_eq_true_eq] at hl
    simp only [slice, accepts, List.any_eq_true, decide_eq_true_eq] at hl'
    obtain ⟨a, ha, hla⟩ := hl
    obtain ⟨b, hb, hlb⟩ := hl'
    simp only [key, isList, if_true, ne_eq, Option.some.injEq, ← hla, ← hlb]
    have hnodup : ((as.take g).map lower ++ (as.drop g).map lower).Nodup := by
      rw [← map_append, take_append_drop]
      exact hf
    have hdisj := (nodup_append.1 hnodup).2.2
    exact hdisj _ (mem_map_of_mem ha) _ (mem_map_of_mem (mem_of_mem_take hb))
  | any =>
    obtain rfl : g = 0 := Nat.lt_one_iff.1 hg
    simp at hl
  | one a =>
    obtain rfl : g = 0 := Nat.lt_one_iff.1 hg
    simp at hl

private theorem between_eq_nil (h : ∀ got, p got = false) (lo hi : Nat) : between chain topics p lo hi = [] := by
  rw [between, filter_eq_nil_iff]
  intro l _
  simp [h]

private theorem between_congr {p q : HexDigits → Bool} (h : ∀ got, p got = q got) (lo hi : Nat) :
    between chain topics p lo hi = between chain topics q lo hi := by
  rw [funext h]

private theorem block_of_mem_between {lo hi : Nat} (h : l ∈ between chain topics p lo hi) :
    lo ≤ l.blockNumber ∧ l.blockNumber < hi := by
  have hmem := (mem_filter.1 h).2
  simp only [Bool.and_eq_true, decide_eq_true_eq] at hmem
  exact hmem.1

theorem chunkStart_append {before current : List LogEntry} {lo : Nat} (hbefore : ∀ l ∈ before, l.blockNumber < lo)
    (hcurrent : ∀ l ∈ current, lo ≤ l.blockNumber) :
    chunkStart (before ++ current) lo (before ++ current).length = before.length := by
  have hfrom : ∀ n ≤ current.length, chunkStart (before ++ current) lo (before.length + n) = before.length := by
    intro n
    induction n with
    | zero =>
      intro _
      rw [add_zero]
      cases hlen : before.length with
      | zero => rfl
      | succ i =>
        have hi : i < before.length := by omega
        have hblock := hbefore before[i] (getElem_mem hi)
        have hget : (before ++ current)[i]? = some before[i] := by
          rw [getElem?_append_left hi, getElem?_eq_getElem hi]
        rw [chunkStart, hget, any_some, if_neg]
        simpa using hblock
    | succ n ih =>
      intro hn
      have hget : (before ++ current)[before.length + n]? = some current[n] := by
        rw [getElem?_append_right (by omega), Nat.add_sub_cancel_left, getElem?_eq_getElem (by omega)]
      have hblock := hcurrent current[n] (getElem_mem _)
      rw [← add_assoc, chunkStart, hget, any_some, if_pos (by simpa using hblock)]
      exact ih (by omega)
  rw [length_append]
  exact hfrom current.length le_rfl

private theorem Scanned.again (h : Scanned chain f topics fromBlock w) (group step hi : Nat) :
    Scanned chain f topics fromBlock { w.again with group := group, step := step, hi := hi } := by
  obtain ⟨before, current, hout, hbefore, hcurrent⟩ := h
  refine ⟨before, [], ?_, hbefore, ?_⟩
  · have hstart : chunkStart (before ++ current) w.lo (before ++ current).length = before.length :=
      chunkStart_append (fun l hl => (block_of_mem_between (hbefore.mem_iff.1 hl)).2)
        fun l hl => (block_of_mem_between (hcurrent.mem_iff.1 hl)).1
    simp only [WalkState.again, hout, hstart, take_left', append_nil]
  · simp only [WalkState.again]
    rw [between_eq_nil (first_zero f)]
    exact .refl _

variable (hchain : chain.Pairwise fun l l' => l.blockNumber ≤ l'.blockNumber)

include hchain in
/-- A turn keeps what has been read exact. -/
theorem walkStep_scanned (hserves : Serves chain getLogs) (hf : f.Distinct) (h : w.Sound f fromBlock toBlock)
    (hscanned : Scanned chain f topics fromBlock w)
    (hstep : walkStep getLogs f topics toBlock maxRetries w = .next w') : Scanned chain f topics fromBlock w' := by
  obtain ⟨hlo, ⟨hg, logs, hlogs, rfl⟩ | ⟨hg, e, hrefused⟩ | ⟨hg, rfl⟩⟩ := walkStep_cases hstep
  · obtain ⟨before, current, hout, hbefore, hcurrent⟩ := hscanned
    refine ⟨before, current ++ logs, ?_, hbefore, ?_⟩
    · simp only [hout, append_assoc]
    · rw [hserves _ _ _ hlogs]
      refine (hcurrent.append (.refl _)).trans ?_
      have hdisj : SamePerKey f.key
          (chain.filter (fun l => decide (w.lo ≤ l.blockNumber ∧ l.blockNumber < w.hi + 1) &&
              (f.first w.g l.address && topicsMatch topics l.topics)) ++
            chain.filter (LogQuery.selects ⟨f.slice w.g w.group, topics, w.lo, w.hi⟩))
          (chain.filter fun l => (decide (w.lo ≤ l.blockNumber ∧ l.blockNumber < w.hi + 1) &&
              (f.first w.g l.address && topicsMatch topics l.topics)) ||
            LogQuery.selects ⟨f.slice w.g w.group, topics, w.lo, w.hi⟩ l) := by
        apply samePerKey_filter_append
        intro l l' hl hl'
        simp only [LogQuery.selects, Bool.and_eq_true] at hl hl'
        exact first_disjoint hf hg hl.2.1 hl'.2.1
      have hsame : (fun l : LogEntry => decide (w.lo ≤ l.blockNumber ∧ l.blockNumber < w.hi + 1) &&
            (f.first (w.g + w.group) l.address && topicsMatch topics l.topics)) = fun l =>
          (decide (w.lo ≤ l.blockNumber ∧ l.blockNumber < w.hi + 1) &&
            (f.first w.g l.address && topicsMatch topics l.topics)) ||
          LogQuery.selects ⟨f.slice w.g w.group, topics, w.lo, w.hi⟩ l := by
        funext l
        rw [first_add hg (h.group_pos (by omega)), Bool.eq_iff_iff]
        simp only [LogQuery.selects, Bool.or_eq_true, Bool.and_eq_true]
        tauto
      simp only [between, hsame]
      exact hdisj
  · obtain ⟨alim, -, -, -, rfl⟩ | ⟨step, -, -, -, rfl⟩ | ⟨step, -, -, hg0, rfl⟩ | ⟨-, rfl⟩ := refused_cases hrefused
    · exact hscanned.again alim w.step w.hi
    · exact hscanned.again w.group step _
    · obtain ⟨before, current, hout, hbefore, hcurrent⟩ := hscanned
      refine ⟨before, current, hout, hbefore, ?_⟩
      simp only [hg0] at hcurrent ⊢
      rw [between_eq_nil (first_zero f)] at hcurrent ⊢
      exact hcurrent
    · exact hscanned
  obtain ⟨before, current, hout, hbefore, hcurrent⟩ := hscanned
  have hwindow := h.lo_le_hi hlo
  refine ⟨before ++ current, [], by simp only [hout, append_nil], ?_, ?_⟩
  · rw [between_congr (first_of_count_le hg)] at hcurrent
    refine (hbefore.append hcurrent).trans ?_
    rw [between, between, between, filter_range_append hchain _ h.from_le_lo (by omega)]
    exact .refl _
  · simp only
    rw [between_eq_nil (first_zero f)]
    exact .refl _

include hchain in
/-- From an exact state on, a walk that succeeds reads the logs of the range. -/
theorem walkFrom_samePerKey (hserves : Serves chain getLogs) (hf : f.Distinct) (w : WalkState)
    (h : w.Sound f fromBlock toBlock)
    (hscanned : Scanned chain f topics fromBlock w)
    (hlogs : walkFrom getLogs f topics fromBlock toBlock maxRetries w h = .ok logs) :
    SamePerKey f.key logs (between chain topics f.accepts fromBlock (toBlock + 1)) := by
  rw [walkFrom] at hlogs
  split at hlogs
  · rename_i out hstep
    have hdone : toBlock < w.lo ∧ w.out = out := by
      unfold walkStep at hstep
      split at hstep
      · rename_i hlo
        exact ⟨hlo, Turn.done.inj hstep⟩
      split at hstep
      · split at hstep
        · cases hstep
        unfold refused at hstep
        simp only at hstep
        repeat' split at hstep
        all_goals cases hstep
      · cases hstep
    obtain ⟨hlo, rfl⟩ := hdone
    obtain rfl := Except.ok.inj hlogs
    obtain ⟨before, current, hout, hbefore, hcurrent⟩ := hscanned
    rw [h.g_eq_zero hlo, between_eq_nil (first_zero f)] at hcurrent
    have hrange : between chain topics f.accepts fromBlock w.lo =
        between chain topics f.accepts fromBlock (toBlock + 1) := by
      rcases h.lo_le with hle | hfrom
      · rw [show w.lo = toBlock + 1 by omega]
      rw [between, between]
      apply filter_congr
      intro l _
      congr 1
      rw [decide_eq_decide]
      omega
    rw [hout, ← hrange, ← append_nil (between _ _ _ _ _)]
    exact hbefore.append hcurrent
  · cases hlogs
  rename_i w' hstep
  exact walkFrom_samePerKey hserves hf w' (walkStep_sound h hstep)
    (walkStep_scanned hchain hserves hf h hscanned hstep) hlogs
termination_by w.left f toBlock maxRetries
decreasing_by exact walkStep_lt h ‹_›

include hchain in
private theorem walk_samePerKey (hserves : Serves chain getLogs) (hf : f.Distinct) {chunk : Nat}
    (hlogs : walk getLogs f topics fromBlock toBlock chunk maxRetries = .ok logs) :
    SamePerKey f.key logs (chain.filter (LogQuery.selects ⟨f, topics, fromBlock, toBlock⟩)) := by
  unfold walk at hlogs
  split at hlogs
  · cases hlogs
  refine walkFrom_samePerKey hchain hserves hf _ _ ⟨[], [], rfl, ?_, ?_⟩ hlogs
  · have hnone : between chain topics f.accepts fromBlock fromBlock = [] := by
      rw [between, filter_eq_nil_iff]
      intro l _
      simp only [Bool.and_eq_true, decide_eq_true_eq]
      omega
    rw [hnone]
    exact .refl _
  · rw [between_eq_nil (first_zero f)]
    exact .refl _

structure ScanParams where
  topics : List TopicFilter
  address : Option HexDigits
  fromBlock : Nat
  toBlock : Nat
  chunk : Nat
  maxRetries : Option Nat
  deriving DecidableEq, Repr

structure SharedScanPlan where
  addresses : List HexDigits
  topic0s : List HexDigits
  fromBlock : Nat
  toBlock : Nat
  chunk : Nat
  maxRetries : Option Nat
  deriving DecidableEq, Repr

def logMatches (l : LogEntry) (p : ScanParams) : Bool :=
  if l.blockNumber < p.fromBlock ∨ p.toBlock < l.blockNumber then false
  else if p.address.any fun a => lower l.address ≠ lower a then false
  else if l.topics.length < p.topics.length then false
  else (p.topics.zip l.topics).all fun (t, got) =>
    match t with
    | .any => true
    | .oneOf [] => true
    | .oneOf ts => ts.any fun x => lower x = lower got
    | .one t => lower t = lower got

def SharedScanPlan.addrs (plan : SharedScanPlan) : List HexDigits := (plan.addresses.map lower).eraseDups

def SharedScanPlan.t0s (plan : SharedScanPlan) : List HexDigits := (plan.topic0s.map lower).eraseDups

def firstTopics (topics : List TopicFilter) : Option (List HexDigits) :=
  match topics.head? with
  | some (.one t) => some [t]
  | some (.oneOf []) => none
  | some (.oneOf ts) => some ts
  | _ => none

def SharedScanPlan.covers (plan : SharedScanPlan) (p : ScanParams) : Bool :=
  p.address.any (fun a => plan.addrs.contains (lower a)) &&
    (firstTopics p.topics).any (fun ts => ts.all fun t => plan.t0s.contains (lower t)) &&
    decide (plan.fromBlock ≤ p.fromBlock ∧ p.toBlock ≤ plan.toBlock)

abbrev Pass := Option (Except LogText (List LogEntry))

def SharedScanPlan.serves (plan : SharedScanPlan) (p : ScanParams) : Bool :=
  !plan.addrs.isEmpty && !plan.t0s.isEmpty && plan.covers p

def SharedScanPlan.pass (plan : SharedScanPlan) (getLogs : GetLogs) : Except LogText (List LogEntry) :=
  walk getLogs (.list plan.addrs) [.oneOf plan.t0s] plan.fromBlock plan.toBlock plan.chunk (plan.maxRetries.getD 6)

/-- `scanLogs` on a chain, or on one with a shared pass, and the pass after it. -/
def scanLogs (shared : Option SharedScanPlan) (all : Pass) (getLogs : GetLogs) (p : ScanParams) :
    Except LogText (List LogEntry) × Pass :=
  if p.chunk < 1 then (.error "logChunk must be at least 1".toList, all)
  else
    match shared.filter (·.serves p) with
    | some plan =>
      let pass := all.getD (plan.pass getLogs)
      (pass.map fun logs => logs.filter (logMatches · p), some pass)
    | none =>
      (walk getLogs ((p.address.map .one).getD .any) p.topics p.fromBlock p.toBlock p.chunk (p.maxRetries.getD 6), all)

def afterScans (plan : SharedScanPlan) (scans : List (GetLogs × ScanParams)) : Pass :=
  scans.foldl (fun all scan => (scanLogs (some plan) all scan.1 scan.2).2) none

def ScanParams.query (p : ScanParams) : LogQuery := ⟨(p.address.map .one).getD .any, p.topics, p.fromBlock, p.toBlock⟩

/-- The in-memory match is that of `getLogs`. -/
theorem logMatches_eq (l : LogEntry) (p : ScanParams) : logMatches l p = p.query.selects l := by
  have haddress : ((p.address.map one).getD .any).accepts l.address =
      !p.address.any fun a => lower l.address ≠ lower a := by
    cases p.address with
    | none => rfl
    | some a =>
      simp only [map_some, getD_some, accepts, any_some, ne_eq, decide_not,
        Bool.not_not, decide_eq_decide]
      exact eq_comm
  have htopics : (p.topics.zip l.topics).all (fun (t, got) =>
      match t with
      | .any => true
      | .oneOf [] => true
      | .oneOf ts => ts.any fun x => lower x = lower got
      | .one t => lower t = lower got) = (p.topics.zip l.topics).all fun q => q.1.accepts q.2 := by
    congr 1
    funext ⟨t, got⟩
    cases t with
    | any => rfl
    | one t => rfl
    | oneOf ts => cases ts <;> rfl
  change _ = (decide (p.fromBlock ≤ l.blockNumber ∧ l.blockNumber < p.toBlock + 1) &&
    (((p.address.map one).getD .any).accepts l.address &&
      (decide (p.topics.length ≤ l.topics.length) && (p.topics.zip l.topics).all fun q => q.1.accepts q.2)))
  rw [haddress, logMatches, htopics]
  split
  · rename_i hrange
    symm
    simp only [Bool.and_eq_false_iff, decide_eq_false_iff_not]
    omega
  rename_i hrange
  have hrange : p.fromBlock ≤ l.blockNumber ∧ l.blockNumber < p.toBlock + 1 := by omega
  simp only [hrange, and_self, decide_true, Bool.true_and]
  split
  · rename_i hno
    rw [hno]
    rfl
  rename_i hno
  rw [Bool.not_eq_true] at hno
  rw [hno, Bool.not_false, Bool.true_and]
  split
  · rename_i hlen
    rw [decide_eq_false (by omega), Bool.false_and]
  rename_i hlen
  rw [decide_eq_true (by omega), Bool.true_and]

private theorem nodup_eraseDups {α : Type} [BEq α] [LawfulBEq α] (l : List α) : l.eraseDups.Nodup := by
  induction hn : l.length using Nat.strong_induction_on generalizing l with
  | _ n ih =>
    cases l with
    | nil => simp
    | cons a l =>
      rw [eraseDups_cons, nodup_cons]
      refine ⟨?_, ih _ ?_ _ rfl⟩
      · simp [mem_eraseDups]
      · rw [← hn, length_cons]
        exact Nat.lt_succ_of_le (length_filter_le _ _)

def SharedScanPlan.query (plan : SharedScanPlan) : LogQuery :=
  ⟨.list plan.addrs, [.oneOf plan.t0s], plan.fromBlock, plan.toBlock⟩

/-- What the shared pass has read, if it has run and did not fail, are the logs of the plan. -/
def PassExact (chain : List LogEntry) (plan : SharedScanPlan) (all : Pass) : Prop :=
  ∀ logs, all = some (.ok logs) →
    SamePerKey (list plan.addrs).key logs (chain.filter plan.query.selects)

private theorem distinct_addrs (plan : SharedScanPlan) : (list plan.addrs).Distinct := by
  have hlower : plan.addrs.map lower = plan.addrs := by
    rw [List.map_congr_left (g := id), List.map_id]
    intro a ha
    obtain ⟨b, -, rfl⟩ := mem_map.1 (mem_eraseDups.1 ha)
    exact lower_lower b
  rw [AddressFilter.Distinct, hlower]
  exact nodup_eraseDups (plan.addresses.map lower)

include hchain in
private theorem scanLogs_pass (hserves : Serves chain getLogs) {all : Pass} (h : PassExact chain plan all)
    (p : ScanParams) :
    PassExact chain plan (scanLogs (some plan) all getLogs p).2 := by
  unfold scanLogs
  split
  · exact h
  split
  · rename_i plan' hplan
    obtain rfl : plan = plan' := (filter_eq_some_iff.1 hplan).1 |> some.inj
    intro logs hlogs
    cases all with
    | some pass => exact h logs hlogs
    | none => exact walk_samePerKey hchain hserves (distinct_addrs plan) (some.inj hlogs)
  · exact h

include hchain in
private theorem afterScans_exact (plan : SharedScanPlan) (scans : List (GetLogs × ScanParams))
    (hserves : ∀ scan ∈ scans, Serves chain scan.1) :
    PassExact chain plan (afterScans plan scans) := by
  have hfold : ∀ all, PassExact chain plan all →
      PassExact chain plan (scans.foldl (fun all scan => (scanLogs (some plan) all scan.1 scan.2).2) all) := by
    induction scans with
    | nil => exact fun _ h => h
    | cons scan scans ih =>
      intro all h
      exact ih (fun s hs => hserves s (mem_cons_of_mem scan hs)) _
        (scanLogs_pass hchain (hserves scan (by simp)) h scan.2)
  refine hfold none ?_
  intro logs hlogs
  cases hlogs

/-- A log of a covered filter is a log of the plan. -/
theorem selects_of_covers {p : ScanParams} (h : plan.covers p = true) (hl : p.query.selects l = true) :
    plan.query.selects l = true := by
  obtain ⟨topics, address, lo, hi, chunk, retries⟩ := p
  simp only [SharedScanPlan.covers, Bool.and_eq_true, decide_eq_true_eq] at h
  obtain ⟨⟨haddress, hfirst⟩, hrange⟩ := h
  rw [LogQuery.selects_iff] at hl ⊢
  obtain ⟨hblock, hfrom, htopics⟩ := hl
  simp only [topicsMatch, Bool.and_eq_true, decide_eq_true_eq] at htopics ⊢
  obtain ⟨hlen, htopics⟩ := htopics
  simp only [ScanParams.query] at hblock hfrom hlen htopics
  simp only [SharedScanPlan.query]
  refine ⟨by omega, ?_, ?_⟩
  · cases address with
    | none => cases haddress
    | some a =>
      simp only [Option.map_some, Option.getD_some, accepts, decide_eq_true_eq] at hfrom
      have hmem : lower a ∈ plan.addrs := by simpa using haddress
      simp only [accepts, List.any_eq_true, decide_eq_true_eq]
      exact ⟨lower a, hmem, (lower_lower a).trans hfrom⟩
  · cases topics with
    | nil => cases hfirst
    | cons t ts =>
      cases hgot : l.topics with
      | nil =>
        rw [hgot] at hlen
        simp at hlen
      | cons got gots =>
        rw [hgot] at htopics
        have haccepts : t.accepts got = true := by
          simp only [zip_cons_cons, all_cons, Bool.and_eq_true] at htopics
          exact htopics.1
        have hmem : lower got ∈ plan.t0s := by
          cases t with
          | any => cases hfirst
          | one t =>
            have ht : lower t ∈ plan.t0s := by simpa [firstTopics] using hfirst
            have heq : lower t = lower got := by simpa [TopicFilter.accepts] using haccepts
            rwa [← heq]
          | oneOf ts =>
            cases ts with
            | nil => cases hfirst
            | cons t ts =>
              have hall : ∀ t' ∈ t :: ts, lower t' ∈ plan.t0s := by simpa [firstTopics] using hfirst
              obtain ⟨t', ht', heq⟩ : ∃ t' ∈ t :: ts, lower t' = lower got := by
                simpa [TopicFilter.accepts] using haccepts
              rw [← heq]
              exact hall t' ht'
        refine ⟨by simp, ?_⟩
        simp only [zip_cons_cons, zip_nil_left, all_cons, all_nil, Bool.and_true,
          TopicFilter.accepts, Bool.or_eq_true, List.any_eq_true, decide_eq_true_eq]
        exact .inr ⟨lower got, hmem, lower_lower got⟩

include hchain in
/-- What a scan through the shared pass returns for a covered filter are the logs of the filter. -/
theorem shared_exact {all : Pass} (h : PassExact chain plan all) (hserves : Serves chain getLogs)
    {p : ScanParams} (hp : plan.serves p = true) (hlogs : (scanLogs (some plan) all getLogs p).1 = .ok logs) :
    logs = chain.filter p.query.selects := by
  have hcovers : plan.covers p = true := by
    simp only [SharedScanPlan.serves, Bool.and_eq_true] at hp
    exact hp.2
  have hfilter : (some plan).filter (·.serves p) = some plan := by simp [hp]
  unfold scanLogs at hlogs
  split at hlogs
  · cases hlogs
  rw [hfilter] at hlogs
  obtain ⟨read, hread, rfl⟩ : ∃ read, all.getD (plan.pass getLogs) = .ok read ∧
      read.filter (logMatches · p) = logs := by
    cases hpass : all.getD (plan.pass getLogs) with
    | error e =>
      simp only [hpass] at hlogs
      cases hlogs
    | ok read =>
      simp only [hpass] at hlogs
      exact ⟨read, rfl, Except.ok.inj hlogs⟩
  have hexact : SamePerKey (list plan.addrs).key read (chain.filter plan.query.selects) := by
    cases all with
    | some pass => exact h read (congrArg some hread)
    | none => exact walk_samePerKey hchain hserves (distinct_addrs plan) hread
  have hboth : (chain.filter plan.query.selects).filter (logMatches · p) = chain.filter p.query.selects := by
    rw [List.filter_filter]
    apply filter_congr
    intro l _
    rw [logMatches_eq]
    cases hsel : p.query.selects l with
    | false => rfl
    | true => rw [selects_of_covers hcovers hsel, Bool.and_self]
  have hsame := hexact.filter (logMatches · p)
  rw [hboth] at hsame
  -- All these logs are of the one address of the filter.
  obtain ⟨a, ha⟩ : ∃ a, p.address = some a := by
    cases haddress : p.address with
    | none => simp [SharedScanPlan.covers, haddress] at hcovers
    | some a => exact ⟨a, rfl⟩
  have hkey : ∀ l, p.query.selects l = true → (list plan.addrs).key l = some (lower a) := by
    intro l hl
    simp only [LogQuery.selects, ScanParams.query, ha, map_some, getD_some, accepts,
      Bool.and_eq_true, decide_eq_true_eq] at hl
    simp only [key, isList, if_true, hl.2.1]
  refine hsame.eq_of_forall (k := some (lower a)) ?_ ?_
  · intro l hl
    exact hkey l (by rw [← logMatches_eq]; exact (mem_filter.1 hl).2)
  · exact fun l hl => hkey l (mem_filter.1 hl).2

include hchain in
private theorem direct_exact (hserves : Serves chain getLogs) {p : ScanParams}
    (hlogs : (scanLogs none none getLogs p).1 = .ok logs) :
    logs = chain.filter p.query.selects := by
  unfold scanLogs at hlogs
  split at hlogs
  · cases hlogs
  have hlist : ((p.address.map one).getD .any).isList = false := by
    cases p.address <;> rfl
  have hdistinct : ((p.address.map one).getD .any).Distinct := by
    cases p.address <;> trivial
  have hsame := walk_samePerKey hchain hserves hdistinct hlogs
  have hkey : ∀ l, ((p.address.map one).getD .any).key l = none := by
    intro l
    rw [key, hlist]
    rfl
  exact hsame.eq_of_forall (fun l _ => hkey l) fun l _ => hkey l

/-- A walk over a list without a repeated address fails or has read the logs of its filter, those of each address in
chain order; and through the shared pass a covered filter is answered as by a scan of its own. -/
theorem log_scan_exact {chain : List LogEntry} (hchain : chain.Pairwise fun l l' => l.blockNumber ≤ l'.blockNumber) :
    (∀ (getLogs : GetLogs) (f : AddressFilter) (topics : List TopicFilter) (fromBlock toBlock chunk maxRetries : Nat),
      Serves chain getLogs → f.Distinct →
      (∃ error, walk getLogs f topics fromBlock toBlock chunk maxRetries = .error error) ∨
      ∃ logs, walk getLogs f topics fromBlock toBlock chunk maxRetries = .ok logs ∧
        logs.Perm (chain.filter (LogQuery.selects ⟨f, topics, fromBlock, toBlock⟩)) ∧
        (∀ a, logs.filter (fun l => lower l.address = lower a) =
          (chain.filter (LogQuery.selects ⟨f, topics, fromBlock, toBlock⟩)).filter
            fun l => lower l.address = lower a) ∧
        (f.isList = false → logs = chain.filter (LogQuery.selects ⟨f, topics, fromBlock, toBlock⟩))) ∧
    ∀ (plan : SharedScanPlan) (scans : List (GetLogs × ScanParams)) (getLogs direct : GetLogs) (p : ScanParams),
      (∀ scan ∈ scans, Serves chain scan.1) → Serves chain getLogs → Serves chain direct → plan.serves p = true →
      ∀ logs logs', (scanLogs (some plan) (afterScans plan scans) getLogs p).1 = .ok logs →
        (scanLogs none none direct p).1 = .ok logs' → logs = logs' := by
  constructor
  · intro getLogs f topics fromBlock toBlock chunk maxRetries hserves hf
    cases hwalk : walk getLogs f topics fromBlock toBlock chunk maxRetries with
    | error error => exact .inl ⟨error, rfl⟩
    | ok logs =>
      have hsame := walk_samePerKey hchain hserves hf hwalk
      refine .inr ⟨logs, rfl, hsame.perm, ?_, ?_⟩
      · intro a
        cases hlist : f.isList with
        | true =>
          have hkey := hsame (some (lower a))
          simpa only [key, hlist, if_true, some.injEq] using hkey
        | false =>
          have hkey : ∀ l, f.key l = none := fun l => by rw [key, hlist]; rfl
          rw [hsame.eq_of_forall (fun l _ => hkey l) fun l _ => hkey l]
      · intro hlist
        have hkey : ∀ l, f.key l = none := fun l => by rw [key, hlist]; rfl
        exact hsame.eq_of_forall (fun l _ => hkey l) fun l _ => hkey l
  · intro plan scans getLogs direct p hscans hserves hdirect hp logs logs' hlogs hlogs'
    rw [shared_exact hchain (afterScans_exact hchain plan scans hscans) hserves hp hlogs,
      direct_exact hchain hdirect hlogs']

/-- A log of the address `0xaa` in block 1. -/
def transferLog : LogEntry := ⟨"0xaa".toList, ["0x01".toList], "0x".toList, 1, none⟩

def oneAddressOnly : RpcError := ⟨"A maximum of 1 addresses is allowed".toList, none, [], []⟩

def refuseFirst (chain : List LogEntry) : GetLogs :=
  fun n q => if n = 0 then .error oneAddressOnly else .ok (chain.filter q.selects)

private theorem serves_refuseFirst (chain : List LogEntry) : Serves chain (refuseFirst chain) := by
  intro n q logs h
  unfold refuseFirst at h
  split at h
  · cases h
  · exact (Except.ok.inj h).symm

theorem log_scan_exact_of_refusal :
    (∃ error, walk (refuseFirst [transferLog]) (.list ["0xaa".toList, "0xbb".toList]) [] 1 1 1 6 = .error error) ∨
    ∃ logs, walk (refuseFirst [transferLog]) (.list ["0xaa".toList, "0xbb".toList]) [] 1 1 1 6 = .ok logs ∧
      logs.Perm [transferLog] := by
  have hdistinct : (list ["0xaa".toList, "0xbb".toList]).Distinct := by
    rw [AddressFilter.Distinct]
    decide
  obtain ⟨error, h⟩ | ⟨logs, h, hperm, -⟩ := (log_scan_exact (pairwise_singleton _ transferLog)).1
    (refuseFirst [transferLog]) (.list ["0xaa".toList, "0xbb".toList]) [] 1 1 1 6 (serves_refuseFirst _) hdistinct
  · exact .inl ⟨error, h⟩
  · exact .inr ⟨logs, h, hperm⟩

private theorem walkFrom_of_next (w' : WalkState) (h : w.Sound f fromBlock toBlock)
    (hstep : walkStep getLogs f topics toBlock maxRetries w = .next w') :
    walkFrom getLogs f topics fromBlock toBlock maxRetries w h =
      walkFrom getLogs f topics fromBlock toBlock maxRetries w' (walkStep_sound h hstep) := by
  rw [walkFrom]
  split
  · rename_i hdone
    cases hstep.symm.trans hdone
  · rename_i hfail
    cases hstep.symm.trans hfail
  rename_i hnext
  obtain rfl := Turn.next.inj (hstep.symm.trans hnext)
  rfl

private theorem walkFrom_of_done {out : List LogEntry} (h : w.Sound f fromBlock toBlock)
    (hstep : walkStep getLogs f topics toBlock maxRetries w = .done out) :
    walkFrom getLogs f topics fromBlock toBlock maxRetries w h = .ok out := by
  rw [walkFrom]
  split
  · rename_i hdone
    rw [Turn.done.inj (hstep.symm.trans hdone)]
  · rename_i hfail
    cases hstep.symm.trans hfail
  rename_i hnext
  cases hstep.symm.trans hnext

/-- An address that is in the list twice falls into two groups, and its log is read twice. -/
theorem not_exact_of_repeated_address :
    ¬ ∀ (getLogs : GetLogs) (f : AddressFilter), Serves [transferLog] getLogs →
      ∀ logs, walk getLogs f [] 1 1 1 6 = .ok logs →
        logs.Perm ([transferLog].filter (LogQuery.selects ⟨f, [], 1, 1⟩)) := by
  intro h
  have hwalk : walk (refuseFirst [transferLog]) (.list ["0xaa".toList, "0xaa".toList]) [] 1 1 1 6 =
      .ok [transferLog, transferLog] := by
    rw [walk, dif_neg (by decide)]
    rw [walkFrom_of_next ⟨[], 1, 1, 1, 1, 0, 0, 1⟩ _ (by decide +kernel)]
    rw [walkFrom_of_next ⟨[transferLog], 1, 1, 1, 1, 1, 0, 2⟩ _ (by decide +kernel)]
    rw [walkFrom_of_next ⟨[transferLog, transferLog], 1, 1, 1, 1, 2, 0, 3⟩ _ (by decide +kernel)]
    rw [walkFrom_of_next ⟨[transferLog, transferLog], 1, 1, 2, 1, 0, 0, 3⟩ _ (by decide +kernel)]
    exact walkFrom_of_done _ (by decide +kernel)
  have hperm := (h _ _ (serves_refuseFirst _) _ hwalk).length_eq
  exact absurd hperm (by decide +kernel)

end RobotMoney.Publish
