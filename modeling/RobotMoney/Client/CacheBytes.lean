import RobotMoney.Client.ReplayCache
import RobotMoney.Json.Layout

/-!
# The bytes of the replay cache

`replay_cache.rs` rewrites its file in place: it is truncated to nothing, and then the new text is written, in as many
partial writes as the system makes of it.  A reader takes a blank file for a cache without entries.  Here is the file as
the bytes on disk, with every state a rewrite passes through.

Reading a beginning of a text is an error, because no text of an object is the beginning of another; only the state
with no byte at all reads as something else than what was or will be stored.
-/

namespace RobotMoney.Client

open Evm JsonText List Option

/-- `Entry`. -/
structure ReplayEntry where
  paymentId : String
  orderId : String
  idempotencyKey : String
  deadline : UInt64
  txHash : String
  deriving DecidableEq, Repr

structure ReplayFile where
  version : UInt32
  entries : List ReplayEntry
  deriving DecidableEq, Repr

/-- `serde_json` for `ReplayFile`: what is written is read back, a text begins with a brace, and one that is cut off is
refused. -/
structure ReplayFormat where
  fromStr : String → Option ReplayFile
  toStringPretty : ReplayFile → String
  round_trip : ∀ f, fromStr (toStringPretty f) = some f
  brace : ∀ f, ∃ rest, (toStringPretty f).toList = '\x7b' :: rest
  cut_off : ∀ f (s : String) (more : List Char), s.toList ++ more = (toStringPretty f).toList → more ≠ [] →
    fromStr s = none

/-- The map of the entries by payment id, as the list of its values: no two of them have the same id. -/
abbrev ReplayMap := List ReplayEntry

namespace ReplayMap

def get (m : ReplayMap) (key : String) : Option ReplayEntry := m.find? fun e => e.paymentId = key

def remove (m : ReplayMap) (key : String) : ReplayMap := m.filter fun e => e.paymentId ≠ key

/-- `map.insert` of an entry under its payment id. -/
def insert (m : ReplayMap) (e : ReplayEntry) : ReplayMap := e :: m.remove e.paymentId

def ofEntries (entries : List ReplayEntry) : ReplayMap := entries.foldl insert []

def sorted (m : ReplayMap) : List ReplayEntry := m.mergeSort fun a b => decide (a.paymentId ≤ b.paymentId)

end ReplayMap

namespace ReplayMap

open List

variable {m m' : ReplayMap} {e : ReplayEntry} {key : String}

def Distinct (m : ReplayMap) : Prop := (m.map (·.paymentId)).Nodup

private theorem get_eq_some_iff (hm : m.Distinct) : m.get key = some e ↔ e ∈ m ∧ e.paymentId = key := by
  constructor
  · intro h
    exact ⟨mem_of_find?_eq_some h, by simpa using find?_some h⟩
  · rintro ⟨hmem, rfl⟩
    cases hget : m.get e.paymentId with
    | none => exact absurd (find?_eq_none.1 hget e hmem) (by simp)
    | some e' =>
      have hmem' : e' ∈ m := mem_of_find?_eq_some hget
      have hkey : e'.paymentId = e.paymentId := by simpa using find?_some hget
      rw [inj_on_of_nodup_map hm hmem' hmem hkey]

private theorem get_perm (hm : m.Distinct) (h : m.Perm m') (key : String) : m'.get key = m.get key := by
  have hm' : m'.Distinct := (h.map _).nodup_iff.1 hm
  apply ext
  intro e
  rw [get_eq_some_iff hm', get_eq_some_iff hm, h.mem_iff]

theorem get_remove (m : ReplayMap) (k key : String) : (m.remove k).get key = if key = k then none else m.get key := by
  induction m with
  | nil => simp [remove, get]
  | cons e m ih =>
    unfold remove get at ih ⊢
    by_cases he : e.paymentId = k
    · rw [filter_cons_of_neg (by simpa using he), ih]
      by_cases hk : key = k
      · rw [if_pos hk, if_pos hk]
      rw [if_neg hk, if_neg hk, find?_cons_of_neg]
      simpa [he] using Ne.symm hk
    rw [filter_cons_of_pos (by simpa using he)]
    by_cases hkey : e.paymentId = key
    · subst hkey
      rw [if_neg he, find?_cons_of_pos (by simp), find?_cons_of_pos (by simp)]
    · rw [find?_cons_of_neg (by simpa using hkey), find?_cons_of_neg (by simpa using hkey), ih]

private theorem get_insert (m : ReplayMap) (e : ReplayEntry) (key : String) :
    (m.insert e).get key = if e.paymentId = key then some e else m.get key := by
  have hremove := get_remove m e.paymentId key
  unfold insert get at *
  by_cases hkey : e.paymentId = key
  · rw [if_pos hkey, find?_cons_of_pos (by simpa using hkey)]
  · rw [if_neg hkey, find?_cons_of_neg (by simpa using hkey), hremove, if_neg (Ne.symm hkey)]

private theorem distinct_remove (hm : m.Distinct) (k : String) : (m.remove k).Distinct :=
  hm.sublist (filter_sublist.map _)

private theorem distinct_insert (hm : m.Distinct) (e : ReplayEntry) : (m.insert e).Distinct := by
  refine nodup_cons.2 ⟨?_, distinct_remove hm e.paymentId⟩
  intro hmem
  obtain ⟨e', he', hkey⟩ := mem_map.1 hmem
  exact absurd hkey (by simpa using (mem_filter.1 he').2)

private theorem distinct_foldl (hm : m.Distinct) (entries : List ReplayEntry) : (entries.foldl insert m).Distinct := by
  induction entries generalizing m with
  | nil => exact hm
  | cons e entries ih => exact ih (distinct_insert hm e)

private theorem get_foldl {entries : ReplayMap} (h : entries.Distinct) (m : ReplayMap) (key : String) :
    (entries.foldl insert m).get key = (entries.get key).or (m.get key) := by
  induction entries generalizing m with
  | nil => rfl
  | cons e entries ih =>
    obtain ⟨hnot, htail⟩ := nodup_cons.1 h
    rw [foldl_cons, ih htail, get_insert]
    by_cases hkey : e.paymentId = key
    · have hnone : ReplayMap.get entries key = none := by
        refine find?_eq_none.2 fun e' he' => ?_
        have hne : e'.paymentId ≠ key := fun heq => hnot (mem_map.2 ⟨e', he', heq.trans hkey.symm⟩)
        simpa using hne
      rw [hnone, if_pos hkey, get, find?_cons_of_pos (by simpa using hkey)]
      rfl
    rw [if_neg hkey]
    congr 1
    rw [get, get, find?_cons_of_neg (by simpa using hkey)]

private theorem get_ofEntries_sorted (hm : m.Distinct) (key : String) : (ofEntries m.sorted).get key = m.get key := by
  have hperm : m.Perm m.sorted := (mergeSort_perm m _).symm
  have hsorted : ReplayMap.Distinct m.sorted := (hperm.map _).nodup_iff.1 hm
  rw [ofEntries, get_foldl hsorted, get_perm hm hperm]
  exact or_none

end ReplayMap

inductive CacheError where
  | io
  | config
  deriving DecidableEq, Repr

/-- The white space `str::trim` removes. -/
def isWhitespace (c : Char) : Bool :=
  (9 ≤ c.toNat && c.toNat ≤ 13) || c.toNat = 32 || c.toNat = 133 || c.toNat = 160 || c.toNat = 5760 ||
    (8192 ≤ c.toNat && c.toNat ≤ 8202) || c.toNat = 8232 || c.toNat = 8233 || c.toNat = 8239 || c.toNat = 8287 ||
    c.toNat = 12288

/-- The operations that rewrite the file: `insert` and `insert_op`, `remove` and `remove_op`. -/
inductive CacheOp where
  | insert (e : ReplayEntry)
  | remove (key : String)
  deriving DecidableEq, Repr

def CacheOp.apply (op : CacheOp) (m : ReplayMap) : ReplayMap :=
  match op with
  | .insert e => m.insert e
  | .remove key => m.remove key

def CacheOp.removed : CacheOp → Option String
  | .insert _ => none
  | .remove key => some key

section File

variable (fmt : ReplayFormat)

def readMap (content : List UInt8) : Except CacheError ReplayMap :=
  match String.fromUTF8? ⟨content.toArray⟩ with
  | none => .error .io
  | some buf =>
    if buf.toList.all isWhitespace then .ok []
    else
      match fmt.fromStr buf with
      | none => .error .config
      | some parsed => .ok (ReplayMap.ofEntries parsed.entries)

/-- `read_locked`: there may be no file. -/
def readLocked : Option (List UInt8) → Except CacheError ReplayMap
  | none => .ok []
  | some content => readMap fmt content

/-- `lookup` and `lookup_op`. -/
def lookup (file : Option (List UInt8)) (key : String) : Except CacheError (Option String) := do
  let map ← readLocked fmt file
  .ok ((map.get key).map (·.txHash))

/-- The bytes `write_back` writes. -/
def payload (m : ReplayMap) : List UInt8 := (fmt.toStringPretty ⟨2, m.sorted⟩).toUTF8.data.toList

/-- What a rewrite does to the file.  `write n` is a system call that took `n` bytes of what is left. -/
inductive FileStep where
  | setLen
  | seekStart
  | write (n : Nat)
  | flush
  deriving DecidableEq, Repr

/-- The open file: its bytes, the position, and what is left to write. -/
structure OpenFile where
  content : List UInt8
  position : Nat
  pending : List UInt8
  deriving DecidableEq, Repr

def overwrite (content : List UInt8) (position : Nat) (bytes : List UInt8) : List UInt8 :=
  (content ++ replicate (position - content.length) 0).take position ++ bytes ++
    content.drop (position + bytes.length)

def fileStep (f : OpenFile) : FileStep → OpenFile
  | .setLen => { f with content := [] }
  | .seekStart => { f with position := 0 }
  | .write n => {
      content := overwrite f.content f.position (f.pending.take n)
      position := f.position + (f.pending.take n).length
      pending := f.pending.drop n }
  | .flush => f

/-- `write_back`, with the sizes of the partial writes `write_all` makes. -/
def writeBack (chunks : List Nat) : List FileStep := .setLen :: .seekStart :: (chunks.map .write ++ [.flush])

/-- The file after an operation that stopped after `done` steps of its rewrite; the file is created when there is none,
and one that cannot be read is left alone.  The position is at the end after the read. -/
def interrupted (file : Option (List UInt8)) (op : CacheOp) (chunks : List Nat) (done : Nat) : Option (List UInt8) :=
  let content := file.getD []
  match readMap fmt content with
  | .error _ => some content
  | .ok m =>
    some (((writeBack chunks).take done).foldl fileStep ⟨content, content.length, payload fmt (op.apply m)⟩).content

end File

theorem overwrite_end (content bytes : List UInt8) : overwrite content content.length bytes = content ++ bytes := by
  simp [overwrite]

private theorem foldl_write (text : List UInt8) (chunks : List Nat) (k : Nat) :
    (chunks.map FileStep.write).foldl fileStep ⟨text.take k, (text.take k).length, text.drop k⟩ =
      ⟨text.take (k + chunks.sum), (text.take (k + chunks.sum)).length, text.drop (k + chunks.sum)⟩ := by
  induction chunks generalizing k with
  | nil => simp
  | cons n chunks ih =>
    have hnext : text.take k ++ (text.drop k).take n = text.take (k + n) := (take_add ..).symm
    have hstep : fileStep ⟨text.take k, (text.take k).length, text.drop k⟩ (.write n) =
        ⟨text.take (k + n), (text.take (k + n)).length, text.drop (k + n)⟩ := by
      simp only [fileStep, overwrite_end, ← length_append, hnext, drop_drop]
    rw [map_cons, foldl_cons, hstep, ih, sum_cons, Nat.add_assoc]

/-- The bytes that `write_all` has written after `done` steps. -/
def writtenBytes (chunks : List Nat) (done : Nat) : Nat := (chunks.take (done - 2)).sum

private theorem content_after (content text : List UInt8) (position : Nat) (chunks : List Nat) (done : Nat) :
    (((writeBack chunks).take done).foldl fileStep ⟨content, position, text⟩).content =
      if done = 0 then content else text.take (writtenBytes chunks done) := by
  rcases done with _ | _ | done
  · rfl
  · rfl
  have hwrites : ∀ l : List Nat, (l.map FileStep.write).foldl fileStep ⟨[], 0, text⟩ =
      ⟨text.take l.sum, (text.take l.sum).length, text.drop l.sum⟩ := by
    intro l
    have h := foldl_write text l 0
    simpa using h
  have htake : (writeBack chunks).take (done + 1 + 1) =
      FileStep.setLen :: .seekStart :: (chunks.map FileStep.write ++ [FileStep.flush]).take done := rfl
  rw [htake, foldl_cons, foldl_cons, take_append, foldl_append, ← map_take,
    if_neg (Nat.succ_ne_zero _)]
  have hstart : fileStep (fileStep ⟨content, position, text⟩ .setLen) .seekStart = ⟨[], 0, text⟩ := rfl
  rw [hstart, hwrites]
  cases done - (chunks.map FileStep.write).length with
  | zero => rfl
  | succ k => cases k <;> rfl

private theorem fromUTF8?_eq_some {b : ByteArray} {s : String} : String.fromUTF8? b = some s ↔ s.toUTF8 = b := by
  unfold String.fromUTF8?
  constructor
  · intro h
    split at h
    · cases h
      rfl
    · cases h
  · rintro rfl
    rw [dif_pos (by simpa using s.isValidUTF8)]
    rfl

section Read

variable (fmt : ReplayFormat)

private theorem readMap_nil : readMap fmt [] = .ok [] := by
  have h : String.fromUTF8? ⟨([] : List UInt8).toArray⟩ = some "" := fromUTF8?_eq_some.2 rfl
  rw [readMap, h]
  rfl

private theorem not_blank_of_brace {s : String} {rest : List Char} (h : s.toList = '\x7b' :: rest) :
    s.toList.all isWhitespace = false := by
  rw [h, all_cons]
  rfl

private theorem readMap_payload (m : ReplayMap) : readMap fmt (payload fmt m) = .ok (ReplayMap.ofEntries m.sorted) := by
  have h : String.fromUTF8? ⟨(payload fmt m).toArray⟩ = some (fmt.toStringPretty ⟨2, m.sorted⟩) :=
    fromUTF8?_eq_some.2 rfl
  obtain ⟨rest, hbrace⟩ := fmt.brace ⟨2, m.sorted⟩
  rw [readMap, h]
  simp only [not_blank_of_brace hbrace, Bool.false_eq_true, if_false, fmt.round_trip]

/-- A proper beginning of the text, of at least one byte, is refused. -/
theorem readMap_cut_off {m : ReplayMap} {k : Nat} (hpos : 0 < k) (hlt : k < (payload fmt m).length) :
    ∃ e, readMap fmt ((payload fmt m).take k) = .error e := by
  cases hread : String.fromUTF8? ⟨((payload fmt m).take k).toArray⟩ with
  | none => exact ⟨.io, by rw [readMap, hread]⟩
  | some s =>
    have hbytes := fromUTF8?_eq_some.1 hread
    -- the bytes end at the end of a character, so the characters are a beginning of the text
    have hsplit : s.toUTF8 ++ ⟨((payload fmt m).drop k).toArray⟩ = (fmt.toStringPretty ⟨2, m.sorted⟩).toUTF8 := by
      rw [hbytes]
      apply ByteArray.ext
      apply Array.toList_inj.1
      simp [payload]
    have hlong : (payload fmt m).drop k ≠ [] := by
      intro hnil
      have := drop_eq_nil_iff.1 hnil
      omega
    obtain ⟨more, hmore⟩ : s.toList <+: (fmt.toStringPretty ⟨2, m.sorted⟩).toList := by
      apply isPrefix_of_utf8Encode_append_eq_utf8Encode ⟨((payload fmt m).drop k).toArray⟩
      simpa using hsplit
    have hne : more ≠ [] := by
      rintro rfl
      rw [append_nil] at hmore
      have hsame : s = fmt.toStringPretty ⟨2, m.sorted⟩ := String.toList_injective hmore
      rw [hsame] at hsplit
      have hsize := congrArg ByteArray.size hsplit
      rw [ByteArray.size_append] at hsize
      have hzero : ((payload fmt m).drop k).length = 0 := by
        have : (⟨((payload fmt m).drop k).toArray⟩ : ByteArray).size = ((payload fmt m).drop k).length := by
          simp [ByteArray.size]
        omega
      exact hlong (length_eq_zero_iff.1 hzero)
    obtain ⟨rest, hbrace⟩ := fmt.brace ⟨2, m.sorted⟩
    obtain ⟨tail, htail⟩ : ∃ tail, s.toList = '\x7b' :: tail := by
      cases hs : s.toList with
      | nil =>
        have hempty : s = "" := String.toList_injective hs
        rw [hempty] at hbytes
        have hsize := congrArg ByteArray.size hbytes
        have hlen : ((payload fmt m).take k).length = 0 := by
          simpa [ByteArray.size] using hsize.symm
        rw [length_take] at hlen
        omega
      | cons c tail =>
        rw [hs, hbrace, cons_append] at hmore
        exact ⟨tail, by rw [(cons.inj hmore).1]⟩
    refine ⟨.config, ?_⟩
    rw [readMap, hread]
    simp only [not_blank_of_brace htail, Bool.false_eq_true, if_false, fmt.cut_off _ s more hmore hne]

end Read

section Lost

variable (fmt : ReplayFormat) (file : Option (List UInt8)) (op : CacheOp) (chunks : List Nat) (done : Nat)

def Stored (key txHash : String) : Prop := lookup fmt file key = .ok (some txHash)

/-- After the interrupted operation, a lookup of a payment that was stored and is not the one removed fails, or finds
it; an insertion for the same payment leaves the old transaction or the new one. -/
def NothingLost : Prop :=
  ∀ key txHash, Stored fmt file key txHash → op.removed ≠ some key →
    (∃ e, lookup fmt (interrupted fmt file op chunks done) key = .error e) ∨
      Stored fmt (interrupted fmt file op chunks done) key txHash ∨
      ∃ e, op = .insert e ∧ e.paymentId = key ∧ Stored fmt (interrupted fmt file op chunks done) key e.txHash

variable {fmt file op chunks done}

theorem readMap_distinct {content : List UInt8} {m : ReplayMap} (h : readMap fmt content = .ok m) : m.Distinct := by
  unfold readMap at h
  split at h
  · cases h
  split at h
  · cases h
    exact nodup_nil
  split at h
  · cases h
  cases h
  exact ReplayMap.distinct_foldl (m := []) nodup_nil _

private theorem CacheOp.distinct_apply {m : ReplayMap} (hm : m.Distinct) (op : CacheOp) : (op.apply m).Distinct := by
  cases op with
  | insert e => exact ReplayMap.distinct_insert hm e
  | remove key => exact ReplayMap.distinct_remove hm key

private theorem stored_iff {key txHash : String} : Stored fmt file key txHash ↔
    ∃ m, readMap fmt (file.getD []) = .ok m ∧ ∃ e, m.get key = some e ∧ e.txHash = txHash := by
  have hread : readLocked fmt file = readMap fmt (file.getD []) := by
    cases file with
    | none => exact (readMap_nil fmt).symm
    | some content => rfl
  simp only [Stored, lookup, hread, bind_eq_ok, Except.ok.injEq, map_eq_some_iff]

variable (op chunks done) in
private theorem readMap_interrupted {m : ReplayMap} (hm : readMap fmt (file.getD []) = .ok m) :
    ∃ content, interrupted fmt file op chunks done = some content ∧ (done = 0 ∧ readMap fmt content = .ok m ∨
        done ≠ 0 ∧ writtenBytes chunks done = 0 ∧ readMap fmt content = .ok [] ∨
        done ≠ 0 ∧ 0 < writtenBytes chunks done ∧ ((∃ e, readMap fmt content = .error e) ∨
            readMap fmt content = .ok (ReplayMap.ofEntries (op.apply m).sorted))) := by
  simp only [interrupted, hm, content_after]
  refine ⟨_, rfl, ?_⟩
  by_cases hdone : done = 0
  · rw [if_pos hdone]
    exact .inl ⟨hdone, hm⟩
  rw [if_neg hdone]
  rcases Nat.eq_zero_or_pos (writtenBytes chunks done) with hzero | hpos
  · refine .inr (.inl ⟨hdone, hzero, ?_⟩)
    rw [hzero, take_zero]
    exact readMap_nil fmt
  refine .inr (.inr ⟨hdone, hpos, ?_⟩)
  by_cases hlt : writtenBytes chunks done < (payload fmt (op.apply m)).length
  · exact .inl (readMap_cut_off fmt hpos hlt)
  rw [take_of_length_le (not_lt.1 hlt)]
  exact .inr (readMap_payload fmt _)

end Lost

/-- Exactly one kind of interruption loses payments silently: after the truncation and before the first byte of the new
text, in a cache that stores a payment other than the one removed. -/
theorem replay_cache_crash_safe_iff (fmt : ReplayFormat) (file : Option (List UInt8)) (op : CacheOp) (chunks : List Nat)
    (done : Nat) :
    NothingLost fmt file op chunks done ↔
      done = 0 ∨ 0 < writtenBytes chunks done ∨ ∀ key txHash, Stored fmt file key txHash → op.removed = some key := by
  constructor
  · intro h
    by_contra hcon
    simp only [not_or, not_forall, Nat.not_lt, Nat.le_zero] at hcon
    obtain ⟨hdone, hzero, key, txHash, hstored, hkept⟩ := hcon
    obtain ⟨m, hm, -⟩ := stored_iff.1 hstored
    obtain ⟨content, hcontent, hcases⟩ := readMap_interrupted op chunks done hm
    have hempty : readMap fmt content = .ok [] := by
      rcases hcases with ⟨h0, -⟩ | ⟨-, -, hread⟩ | ⟨-, hpos, -⟩
      · exact absurd h0 hdone
      · exact hread
      · omega
    have hlookup : lookup fmt (interrupted fmt file op chunks done) key = .ok none := by
      rw [hcontent, lookup, readLocked, hempty]
      rfl
    rcases h key txHash hstored hkept with ⟨e, he⟩ | hfound | ⟨e, -, -, hfound⟩
    · rw [hlookup] at he
      cases he
    · rw [Stored, hlookup] at hfound
      cases hfound
    · rw [Stored, hlookup] at hfound
      cases hfound
  · intro hcond key txHash hstored hkept
    obtain ⟨m, hm, e, he, rfl⟩ := stored_iff.1 hstored
    obtain ⟨content, hcontent, hcases⟩ := readMap_interrupted op chunks done hm
    rw [hcontent]
    have hfound : ∀ m', readMap fmt content = .ok m' → m'.get key = some e → Stored fmt (some content) key e.txHash :=
      fun m' hm' hget => stored_iff.2 ⟨m', hm', e, hget, rfl⟩
    rcases hcases with ⟨-, hread⟩ | ⟨hdone, hzero, -⟩ | ⟨-, -, ⟨err, hread⟩ | hread⟩
    · exact .inr (.inl (hfound m hread he))
    · -- the state that loses everything
      rcases hcond with h0 | hpos | hnone
      · exact absurd h0 hdone
      · omega
      · exact absurd (hnone key e.txHash hstored) hkept
    · refine .inl ⟨err, ?_⟩
      rw [lookup, readLocked, hread]
      rfl
    · have hget := ReplayMap.get_ofEntries_sorted (CacheOp.distinct_apply (readMap_distinct hm) op) key
      cases op with
      | remove k =>
        have hne : key ≠ k := fun heq => hkept (by rw [CacheOp.removed, heq])
        rw [CacheOp.apply, ReplayMap.get_remove, if_neg hne, he] at hget
        exact .inr (.inl (hfound _ hread hget))
      | insert e' =>
        rw [CacheOp.apply, ReplayMap.get_insert] at hget
        by_cases hkey : e'.paymentId = key
        · rw [if_pos hkey] at hget
          exact .inr (.inr ⟨e', rfl, hkey, stored_iff.2 ⟨_, hread, e', hget, rfl⟩⟩)
        · rw [if_neg hkey, he] at hget
          exact .inr (.inl (hfound _ hread hget))

/-- A field of an object for a derived reader: it may be missing, but not come twice. -/
def uniqueField (fields : List (String × Value)) (name : String) : Option (Option Value) :=
  match fields.filter (·.1 = name) with
  | [] => some none
  | [(_, v)] => some (some v)
  | _ => none

/-- The fields of a derived record, in order; other keys of an object are passed over. -/
def recordFields (names : List String) : Value → Option (List (Option Value))
  | .object fields => names.mapM (uniqueField fields)
  | .array items => if items.length ≤ names.length then some (names.mapIdx fun i _ => items[i]?) else none
  | _ => none

namespace ReplayEntry

def fieldNames : List String := ["payment_id", "order_id", "idempotency_key", "deadline", "tx_hash"]

def toValue (e : ReplayEntry) : Value :=
  .object [("payment_id", .string e.paymentId), ("order_id", .string e.orderId),
    ("idempotency_key", .string e.idempotencyKey), ("deadline", Value.ofNat e.deadline.toNat),
      ("tx_hash", .string e.txHash)]

def ofValue (v : Value) : Option ReplayEntry :=
  match recordFields fieldNames v with
  | some [some paymentId, some orderId, some idempotencyKey, some deadline, some txHash] => do
    let paymentId ← paymentId.asString
    let orderId ← orderId.asString
    let idempotencyKey ← idempotencyKey.asString
    let deadline ← deadline.asU64
    let txHash ← txHash.asString
    some ⟨paymentId, orderId, idempotencyKey, deadline, txHash⟩
  | _ => none

private theorem ofValue_toValue (e : ReplayEntry) : ofValue e.toValue = some e := by
  have hfields : recordFields fieldNames e.toValue = some [some (.string e.paymentId), some (.string e.orderId),
      some (.string e.idempotencyKey), some (.ofNat e.deadline.toNat), some (.string e.txHash)] := rfl
  rw [ofValue, hfields]
  simp [Value.asString]

end ReplayEntry

namespace ReplayFile

def toValue (f : ReplayFile) : Value :=
  .object [("version", Value.ofNat f.version.toNat), ("entries", .array (f.entries.map ReplayEntry.toValue))]

/-- `version` is 2 unless given, and there are no entries unless given. -/
def ofValue (v : Value) : Option ReplayFile :=
  match recordFields ["version", "entries"] v with
  | some [version, entries] => do
    let version ← (version.map Value.asU32).getD (some 2)
    let entries ← (entries.map (Value.asList ReplayEntry.ofValue)).getD (some [])
    some ⟨version, entries⟩
  | _ => none

private theorem ofValue_toValue (f : ReplayFile) : ofValue f.toValue = some f := by
  have hfields : recordFields ["version", "entries"] f.toValue =
      some [some (.ofNat f.version.toNat), some (.array (f.entries.map ReplayEntry.toValue))] := rfl
  rw [ofValue, hfields]
  simp [Value.asList_map ReplayEntry.ofValue_toValue]

end ReplayFile

/-- The reader of the cache's own texts: what it reads must be the text of the file. -/
def jsonFormat : ReplayFormat where
  fromStr s := ((readText s.toList).bind ReplayFile.ofValue).filter fun f => stringify f.toValue = s.toList
  toStringPretty f := String.ofList (stringify f.toValue)
  round_trip f := by
    have h : readText (stringify f.toValue ++ []) = some f.toValue := readText_stringify f.toValue rfl trivial
    rw [append_nil] at h
    rw [String.toList_ofList, h, bind_some, ReplayFile.ofValue_toValue]
    simp
  brace f := by
    obtain ⟨l, hl⟩ := layout_object 0
      [("version", Value.ofNat f.version.toNat), ("entries", .array (f.entries.map ReplayEntry.toValue))]
    exact ⟨_, by rw [String.toList_ofList]; exact hl⟩
  cut_off f s more h hmore := by
    rw [String.toList_ofList] at h
    rw [filter_eq_none_iff]
    intro g _ hg
    rw [← of_decide_eq_true hg] at h
    exact hmore (prefix_stringify h)

private def sentPayment : ReplayEntry := ⟨"0xaa", "order-1", "key-1", 1900000000, "0x11"⟩

private def nextPayment : ReplayEntry := ⟨"0xbb", "order-2", "key-2", 1900000600, "0x22"⟩

/-- A process that stops after `set_len(0)`: the payment that was sent before is not found any more, and no error is
reported. -/
theorem replay_cache_loses_sent_payment :
    Stored jsonFormat (some (payload jsonFormat [sentPayment])) "0xaa" "0x11" ∧
      lookup jsonFormat (interrupted jsonFormat (some (payload jsonFormat [sentPayment])) (.insert nextPayment) [] 1)
        "0xaa" = .ok none ∧
      ¬ NothingLost jsonFormat (some (payload jsonFormat [sentPayment])) (.insert nextPayment) [] 1 := by
  have hmap : readMap jsonFormat ((some (payload jsonFormat [sentPayment])).getD []) = .ok [sentPayment] := by
    rw [getD_some, readMap_payload, ReplayMap.sorted, mergeSort_singleton]
    rfl
  have hstored : Stored jsonFormat (some (payload jsonFormat [sentPayment])) "0xaa" "0x11" :=
    stored_iff.2 ⟨_, hmap, sentPayment, rfl, rfl⟩
  obtain ⟨content, hcontent, ⟨hdone, -⟩ | ⟨-, -, hread⟩ | ⟨-, hwritten, -⟩⟩ :=
    readMap_interrupted (.insert nextPayment) [] 1 hmap
  · cases hdone
  · have hlookup : lookup jsonFormat (interrupted jsonFormat (some (payload jsonFormat [sentPayment]))
        (.insert nextPayment) [] 1) "0xaa" = .ok none := by
      rw [hcontent, lookup, readLocked, hread]
      rfl
    refine ⟨hstored, hlookup, fun h => ?_⟩
    rcases h "0xaa" "0x11" hstored (by decide) with ⟨e, he⟩ | hfound | ⟨e, he, hkey, -⟩
    · rw [hlookup] at he
      cases he
    · rw [Stored, hlookup] at hfound
      cases hfound
    · cases he
      exact absurd hkey (by decide)
  · exact absurd hwritten (by decide)

end RobotMoney.Client
