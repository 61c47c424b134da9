import Mathlib.Order.Interval.Finset.Nat
import RobotMoney.Evm.Chain
import RobotMoney.Gateway.Windows

/-!
# The ring buffer is a chronological list, and the cap holds over every window

The ring buffer of `GatewayWindows` represents a list of entries with strictly increasing timestamps.  On that list
pruning is dropping the expired prefix (`prune_spec`) and appending is recording at the current second
(`append_spec`), whatever wrap-arounds, growths and in-place reversals the slots go through.  The history of
accepted amounts then agrees with the list on every window that ends now or later, so the stored total is the
trailing sum and the cap bounds what was really accepted.
-/

namespace RobotMoney.GatewayWindows

open Evm List Except

def amountSum (es : List WindowEntry) : Nat := (es.map (·.amount)).sum

def Chronological (es : List WindowEntry) : Prop := es.Pairwise (·.timestamp < ·.timestamp)

/-- The sum of the amounts in the window of `windowSeconds` seconds that ends at `now`, the current second
included. -/
def trailing (es : List WindowEntry) (now : Nat) : Nat :=
  amountSum (es.filter (fun e => now < e.timestamp + windowSeconds))

/-- Recording `amount` at `now` in the list: merged into the last entry when that is of the same second. -/
def record (es : List WindowEntry) (now amount : Nat) : List WindowEntry :=
  match es.getLast? with
  | some e =>
    if e.timestamp = now then es.dropLast ++ [{ e with amount := e.amount + amount }]
    else es ++ [⟨now, amount⟩]
  | none => es ++ [⟨now, amount⟩]

/-- The list a window stands for. -/
structure RollingWindow.Represents (w : RollingWindow) (es : List WindowEntry) : Prop where
  count_le : w.count ≤ w.slots.length
  head_lt : w.head < w.slots.length ∨ w.head = 0
  entries : ringEntries w.slots w.head w.count = es
  total : w.total = amountSum es

@[simp] theorem amountSum_nil : amountSum [] = 0 := rfl

@[simp] theorem amountSum_cons (e : WindowEntry) (es : List WindowEntry) :
    amountSum (e :: es) = e.amount + amountSum es := rfl

@[simp] theorem amountSum_append (es fs : List WindowEntry) :
    amountSum (es ++ fs) = amountSum es + amountSum fs := by
  simp [amountSum]

@[simp] theorem trailing_append (es fs : List WindowEntry) (now : Nat) :
    trailing (es ++ fs) now = trailing es now + trailing fs now := by
  simp [trailing]

variable {w : RollingWindow} {es : List WindowEntry} {now : Nat}

private theorem RollingWindow.Represents.length (h : w.Represents es) : es.length = w.count := by
  rw [← h.entries, length_ringEntries h.count_le]

private theorem pruneLoop_spec (slots : List WindowEntry) (c : Nat) {count head total : Nat}
    (hc : count ≤ slots.length) (hh : head < slots.length ∨ head = 0)
    (ht : total = amountSum (ringEntries slots head count)) :
    ∃ head' count' total', pruneLoop slots c count head total = .ok (head', count', total') ∧
      count' ≤ slots.length ∧ (head' < slots.length ∨ head' = 0) ∧
      ringEntries slots head' count' = (ringEntries slots head count).dropWhile (fun e => e.timestamp ≤ c) ∧
      total' = amountSum (ringEntries slots head' count') := by
  induction count generalizing head total with
  | zero => exact ⟨head, 0, total, rfl, hc, hh, by simp, ht⟩
  | succ count ih =>
    have hlt : head < slots.length := by omega
    have hslot : slotAt slots head = .ok slots[head] := by simp [slotAt, hlt]
    have hcons := ringEntries_head hlt hc
    rw [hcons, amountSum_cons] at ht
    unfold pruneLoop
    rw [hslot, ok_bind, hcons]
    by_cases he : slots[head].timestamp ≤ c
    · have hsub : (sub total slots[head].amount : Except WindowError Nat) =
          .ok (amountSum (ringEntries slots (nextIndex slots.length head) count)) := by
        rw [sub_eq_ok]; omega
      obtain ⟨head', count', total', hrun, h1, h2, h3, h4⟩ :=
        ih (by omega) (.inl (nextIndex_lt hlt)) rfl
      refine ⟨head', count', total', ?_, h1, h2, ?_, h4⟩
      · rw [if_pos he, hsub, ok_bind, hrun]
      · rw [h3, dropWhile_cons_of_pos (by simpa using he)]
    refine ⟨head, count + 1, total, by rw [if_neg he], hc, hh, ?_, ?_⟩
    · rw [hcons, dropWhile_cons_of_neg (by simpa using he)]
    · rw [hcons, amountSum_cons, ht]

private theorem dropWhile_eq_filter (h : Chronological es) (c : Nat) :
    es.dropWhile (fun e => e.timestamp ≤ c) = es.filter (fun e => c < e.timestamp) := by
  induction es with
  | nil => rfl
  | cons e es ih =>
    unfold Chronological at h
    rw [pairwise_cons] at h
    by_cases he : e.timestamp ≤ c
    · rw [dropWhile_cons_of_pos (by simpa using he), filter_cons_of_neg (by simpa using he)]
      exact ih h.2
    rw [dropWhile_cons_of_neg (by simpa using he)]
    symm
    rw [filter_eq_self]
    intro f hf
    rcases mem_cons.1 hf with rfl | hf
    · simp; omega
    have := h.1 f hf
    simp; omega

private theorem prune_spec (h : w.Represents es) (hes : Chronological es) (now : Nat) :
    ∃ w', prune w now = .ok w' ∧ w'.Represents (es.filter (fun e => cutoff now < e.timestamp)) ∧
      effectiveTotal w now = .ok w'.total := by
  have ht := h.total
  rw [← h.entries] at ht
  obtain ⟨head', count', total', hrun, h1, h2, h3, h4⟩ :=
    pruneLoop_spec w.slots (cutoff now) h.count_le h.head_lt ht
  rw [h.entries, dropWhile_eq_filter hes] at h3
  refine ⟨{ w with head := if count' = 0 then 0 else head', count := count', total := total' }, ?_, ?_, ?_⟩
  · simp [prune, hrun]
  · constructor
    · exact h1
    · show (if count' = 0 then 0 else head') < w.slots.length ∨ (if count' = 0 then 0 else head') = 0
      split
      · exact .inr rfl
      · exact h2
    · rw [← h3]
      show ringEntries w.slots (if count' = 0 then 0 else head') count' = ringEntries w.slots head' count'
      by_cases hz : count' = 0
      · subst hz; simp
      · rw [if_neg hz]
    · rw [← h3]; exact h4
  · simp [effectiveTotal, hrun]

private theorem slotAt_ok {slots : List WindowEntry} {i : Nat} {e : WindowEntry} (h : slots[i]? = some e) :
    slotAt slots i = .ok e := by
  simp [slotAt, h]

private theorem reverseRange_spec (pre mid post : List WindowEntry) :
    reverseRange (pre ++ mid ++ post) pre.length (pre.length + mid.length) = .ok (pre ++ mid.reverse ++ post) := by
  induction mid using bidirectionalRec generalizing pre post with
  | nil => rw [reverseRange, if_neg (by simp)]; simp
  | singleton a => rw [reverseRange, if_neg (by simp)]; simp
  | cons_append a mid b ih =>
    have hlo : (pre ++ (a :: (mid ++ [b])) ++ post)[pre.length]? = some a := by simp
    have hhi : (pre ++ (a :: (mid ++ [b])) ++ post)[pre.length + (a :: (mid ++ [b])).length - 1]? = some b := by
      rw [show pre.length + (a :: (mid ++ [b])).length - 1 = (pre ++ a :: mid).length by simp,
        show pre ++ (a :: (mid ++ [b])) ++ post = (pre ++ a :: mid) ++ b :: post by simp]
      simp
    have hset : ((pre ++ (a :: (mid ++ [b])) ++ post).set pre.length b).set
        (pre.length + (a :: (mid ++ [b])).length - 1) a = (pre ++ [b]) ++ mid ++ (a :: post) := by
      rw [show pre.length + (a :: (mid ++ [b])).length - 1 = (pre ++ b :: mid).length by simp]
      rw [show (pre ++ (a :: (mid ++ [b])) ++ post).set pre.length b = (pre ++ b :: mid) ++ b :: post by
        simp [append_assoc]]
      simp
    rw [reverseRange, if_pos (by simp), slotAt_ok hlo, ok_bind, slotAt_ok hhi, ok_bind, hset]
    have := ih (pre ++ [b]) (a :: post)
    rw [show pre.length + (a :: (mid ++ [b])).length - 1 = (pre ++ [b]).length + mid.length by simp; omega,
      show pre.length + 1 = (pre ++ [b]).length by simp, this]
    simp

private theorem relinearize_spec (hh : w.head ≤ w.slots.length) :
    relinearize w = .ok { w with slots := w.slots.rotate w.head, head := 0 } := by
  unfold relinearize
  split
  · rename_i h0
    cases w
    simp_all
  have hA : (w.slots.take w.head).length = w.head := by simp [hh]
  have hB : (w.slots.drop w.head).length = w.slots.length - w.head := by simp
  have e1 := reverseRange_spec [] (w.slots.take w.head) (w.slots.drop w.head)
  have e2 := reverseRange_spec (w.slots.take w.head).reverse (w.slots.drop w.head) []
  have e3 := reverseRange_spec [] ((w.slots.take w.head).reverse ++ (w.slots.drop w.head).reverse) []
  simp only [nil_append, take_append_drop, length_nil, zero_add, hA] at e1
  simp only [append_nil, length_reverse, hA, hB, Nat.add_sub_cancel' hh] at e2
  simp only [nil_append, append_nil, length_nil, zero_add, length_append,
    length_reverse, hA, hB, Nat.add_sub_cancel' hh] at e3
  rw [e1, ok_bind, e2, ok_bind, e3, ok_bind, ← rotate_eq_reverse w.slots hh]

private theorem represents_grow (h : w.Represents es) (now amount : Nat) (hfull : w.count = w.slots.length)
    (hmax : w.count < maxWindowEntries) (hfit : w.total + amount < wordSize) :
    ∃ w', grow w now amount = .ok w' ∧ w'.Represents (es ++ [⟨toUint64 now, amount⟩]) := by
  have hh : w.head ≤ w.slots.length := by rcases h.head_lt with h | h <;> omega
  have hrot : w.slots.rotate w.head = es := by rw [← h.entries, hfull, ringEntries_full]
  refine ⟨⟨es ++ [⟨toUint64 now, amount⟩], 0, w.count + 1, w.total + amount⟩, ?_, ?_⟩
  · simp [grow, revertIf, Nat.not_le.2 hmax, relinearize_spec hh, add, hfit, hrot]
  constructor
  · simp [h.length]
  · exact .inr rfl
  · rw [show w.count + 1 = (es ++ [(⟨toUint64 now, amount⟩ : WindowEntry)]).length by simp [h.length]]
    exact ringEntries_linear _
  · simp [h.total]

private theorem represents_appendSlot (h : w.Represents es) (now amount : Nat) (hmax : w.count < maxWindowEntries)
    (hfit : w.total + amount < wordSize) :
    ∃ w', appendSlot w now amount = .ok w' ∧ w'.Represents (es ++ [⟨toUint64 now, amount⟩]) := by
  unfold appendSlot
  split
  · exact represents_grow h now amount ‹_› hmax hfit
  have hc : w.count < w.slots.length := by have := h.count_le; omega
  have hh : w.head < w.slots.length := by rcases h.head_lt with h | h <;> omega
  have hi := wrapIndex_lt hh hc
  refine ⟨{ w with
    slots := w.slots.set (wrapIndex w.slots.length (w.head + w.count)) ⟨toUint64 now, amount⟩
    count := w.count + 1
    total := w.total + amount }, ?_, ?_⟩
  · simp [slotAt, orPanic, hi, add, hfit]
  constructor
  · simp; omega
  · simp [hh]
  · show ringEntries (w.slots.set _ _) w.head (w.count + 1) = _
    rw [ringEntries_set_tail _ hh hc, h.entries]
  · simp [h.total]

/-- `_append` records the amount at the current second. -/
theorem append_spec (h : w.Represents es) (now amount : Nat) (hnow : now < 2 ^ 64)
    (hmax : (∀ e ∈ es.getLast?, e.timestamp ≠ now) → w.count < maxWindowEntries) (hfit : w.total + amount < wordSize) :
    ∃ w', append w now amount = .ok w' ∧ w'.Represents (record es now amount) := by
  have hu : toUint64 now = now := Nat.mod_eq_of_lt hnow
  unfold append record
  split
  · -- a live entry exists: the newest one is the last of the list
    rename_i hpos
    obtain ⟨n, hn⟩ : ∃ n, w.count = n + 1 := ⟨w.count - 1, by omega⟩
    have hcl := h.count_le
    have hh : w.head < w.slots.length := by rcases h.head_lt with h | h <;> omega
    have hi : wrapIndex w.slots.length (w.head + n) < w.slots.length := wrapIndex_lt hh (by omega)
    have hsplit := ringEntries_newest hh (by omega) hi
    rw [← hn, h.entries] at hsplit
    have hlast : es.getLast? = some (w.slots[wrapIndex w.slots.length (w.head + n)]) := by
      rw [hsplit]; simp
    have hslot : slotAt w.slots (wrapIndex w.slots.length (w.head + w.count - 1)) =
        .ok (w.slots[wrapIndex w.slots.length (w.head + n)]) := by
      rw [show w.head + w.count - 1 = w.head + n by omega]
      simp [slotAt, hi]
    have hinit : es.dropLast = ringEntries w.slots w.head n := by rw [hsplit]; simp
    dsimp only
    rw [hslot, ok_bind, hlast, hu]
    dsimp only
    split
    · rename_i hts
      have hle : w.slots[wrapIndex w.slots.length (w.head + n)].amount ≤ w.total := by
        rw [h.total, hsplit]; simp
      have hfit' : w.slots[wrapIndex w.slots.length (w.head + n)].amount + amount < wordSize := by omega
      refine ⟨{ w with
        slots := w.slots.set (wrapIndex w.slots.length (w.head + w.count - 1))
          ⟨w.slots[wrapIndex w.slots.length (w.head + n)].timestamp,
            w.slots[wrapIndex w.slots.length (w.head + n)].amount + amount⟩
        total := w.total + amount }, ?_, ?_⟩
      · simp [add, hfit, hfit']
      constructor
      · simpa using hcl
      · simp [hh]
      · show ringEntries (w.slots.set (wrapIndex w.slots.length (w.head + w.count - 1)) _) w.head w.count = _
        rw [show w.head + w.count - 1 = w.head + n by omega, hn, ringEntries_set_tail _ hh (by omega), hinit]
      · have ht := h.total
        rw [hsplit, ← hinit] at ht
        simp at ht ⊢
        omega
    rename_i hts
    have := represents_appendSlot h now amount (hmax (by simpa [hlast] using hts)) hfit
    rwa [hu] at this
  · rename_i hpos
    have hnil : es = [] := eq_nil_of_length_eq_zero (by rw [h.length]; omega)
    subst hnil
    have := represents_appendSlot h now amount (hmax (by simp)) hfit
    rwa [hu] at this

/-- One registration's window on the chain: the clock, the ring buffer, and the history of the amounts accepted since
the registration began. -/
structure WindowState where
  now : BlockTime
  window : RollingWindow
  accepted : List WindowEntry

/-- What can happen to the window of one agent: a later block, a deposit accrued against a cap, and the end of the
registration. -/
inductive WindowCall where
  | block (t : BlockTime)
  | accrue (amount cap : Nat)
  | endRegistration

def windowStep (s : WindowState) : WindowCall → Except WindowError WindowState
  | .block t => .ok { s with now := s.now.later t }
  | .accrue amount cap => do
    let (w, _, _) ← accrueRollingDeposit s.window s.now.val amount cap
    .ok { s with window := w, accepted := s.accepted ++ [⟨s.now.val, amount⟩] }
  | .endRegistration => .ok { s with window := endRegistrationWindow s.window, accepted := [] }

def WindowState.init (t : BlockTime) : WindowState := ⟨t, .empty, []⟩

/-- The window stands for a chronological list of live entries that agrees with the history of accepted amounts on
every window that ends now or later. -/
structure WindowState.Agrees (s : WindowState) (es : List WindowEntry) : Prop where
  represents : s.window.Represents es
  chronological : Chronological es
  stamped : ∀ e ∈ es, 0 < e.timestamp ∧ e.timestamp ≤ s.now.val
  trailing_eq : ∀ t, s.now.val ≤ t → trailing es t = trailing s.accepted t

private theorem filter_cutoff (h : ∀ e ∈ es, 0 < e.timestamp) :
    es.filter (fun e => cutoff now < e.timestamp) = es.filter (fun e => now < e.timestamp + windowSeconds) := by
  apply filter_congr
  intro e he
  have := h e he
  rw [Bool.eq_iff_iff, decide_eq_true_iff, decide_eq_true_iff]
  unfold cutoff
  split <;> omega

private theorem trailing_filter (es : List WindowEntry) {now t : Nat} (h : now ≤ t) :
    trailing (es.filter (fun e => now < e.timestamp + windowSeconds)) t = trailing es t := by
  unfold trailing
  rw [filter_filter]
  congr 1
  apply filter_congr
  intro e _
  rw [Bool.eq_iff_iff]
  simp only [Bool.and_eq_true, decide_eq_true_eq]
  omega

private theorem trailing_record (es : List WindowEntry) (now amount t : Nat) :
    trailing (record es now amount) t = trailing es t + trailing [⟨now, amount⟩] t := by
  unfold record
  split
  · rename_i e he
    split
    · rename_i hts
      obtain ⟨l, rfl⟩ := getLast?_eq_some_iff.1 he
      subst hts
      rw [dropLast_concat, trailing_append, trailing_append]
      by_cases ht : t < e.timestamp + windowSeconds
      · simp [trailing, ht]; omega
      · simp [trailing, ht]
    · rw [trailing_append]
  · rw [trailing_append]

private theorem mem_record {now amount : Nat} {e : WindowEntry} (h : e ∈ record es now amount) :
    (∃ f ∈ es, f.timestamp = e.timestamp) ∨ e.timestamp = now := by
  unfold record at h
  split at h
  · split at h
    · rcases mem_append.1 h with h | h
      · exact .inl ⟨e, mem_of_mem_dropLast h, rfl⟩
      · right; simp_all
    rcases mem_append.1 h with h | h
    · exact .inl ⟨e, h, rfl⟩
    · right; simp_all
  rcases mem_append.1 h with h | h
  · exact .inl ⟨e, h, rfl⟩
  · right; simp_all

private theorem chronological_record (h : Chronological es) (amount : Nat) (hle : ∀ e ∈ es, e.timestamp ≤ now) :
    Chronological (record es now amount) := by
  unfold record
  split
  · rename_i e he
    obtain ⟨l, rfl⟩ := getLast?_eq_some_iff.1 he
    unfold Chronological at h ⊢
    have h' := pairwise_append.1 h
    split
    · rw [dropLast_concat, pairwise_append]
      refine ⟨h'.1, pairwise_singleton .., ?_⟩
      intro a ha b hb
      rw [mem_singleton] at hb
      subst hb
      exact h'.2.2 a ha e (by simp)
    rename_i hne
    rw [pairwise_append]
    refine ⟨h, pairwise_singleton .., ?_⟩
    intro a ha b hb
    rw [mem_singleton] at hb
    subst hb
    -- the last entry is earlier than `now`, and every other entry is earlier than the last
    have hlast : e.timestamp < now := Nat.lt_of_le_of_ne (hle e (by simp)) hne
    rcases mem_append.1 ha with ha | ha
    · exact lt_trans (h'.2.2 a ha e (by simp)) hlast
    rw [mem_singleton] at ha
    exact ha ▸ hlast
  rename_i hnone
  rw [getLast?_eq_none_iff] at hnone
  subst hnone
  exact pairwise_singleton ..

private theorem length_le_of_chronological (h : Chronological es) {lo hi : Nat}
    (hb : ∀ e ∈ es, lo < e.timestamp ∧ e.timestamp < hi) : es.length ≤ hi - lo - 1 := by
  have hnd : (es.map (·.timestamp)).Nodup := by
    rw [List.Nodup, pairwise_map]
    exact h.imp (fun h => ne_of_lt h)
  have hsub : (es.map (·.timestamp)).toFinset ⊆ Finset.Ioo lo hi := by
    intro t ht
    simp only [mem_toFinset, mem_map] at ht
    obtain ⟨e, he, rfl⟩ := ht
    exact Finset.mem_Ioo.2 (hb e he)
  have := Finset.card_le_card hsub
  rwa [toFinset_card_of_nodup hnd, length_map, Nat.card_Ioo] at this

private theorem length_lt_of_pruned (h : Chronological es) (hnow : 0 < now)
    (hb : ∀ e ∈ es, cutoff now < e.timestamp ∧ e.timestamp ≤ now) (hlast : ∀ e ∈ es.getLast?, e.timestamp ≠ now) :
    es.length < maxWindowEntries := by
  have hlt : ∀ e ∈ es, cutoff now < e.timestamp ∧ e.timestamp < now := by
    intro e he
    refine ⟨(hb e he).1, ?_⟩
    obtain ⟨f, hf⟩ := getLast?_isSome.2 (ne_nil_of_mem he) |> Option.isSome_iff_exists.1
    obtain ⟨l, rfl⟩ := getLast?_eq_some_iff.1 hf
    have hfn : f.timestamp < now := Nat.lt_of_le_of_ne (hb f (by simp)).2 (hlast f hf)
    rcases mem_append.1 he with he | he
    · exact lt_trans ((pairwise_append.1 h).2.2 e he f (by simp)) hfn
    rw [mem_singleton] at he
    exact he ▸ hfn
  have := length_le_of_chronological h hlt
  unfold cutoff at this
  unfold maxWindowEntries windowSeconds at *
  split at this <;> omega

/-- What `accrue` does to a window that agrees with its history: it records the amount exactly when the trailing sum
stays within the cap, and otherwise reports a breach; it can fail only because the sum does not fit in a word. -/
private theorem accrueRollingDeposit_spec {s : WindowState} (h : s.Agrees es) (amount cap : Nat) :
    (∃ w oldest, accrueRollingDeposit s.window s.now.val amount cap =
        .ok (w, oldest, trailing s.accepted s.now.val + amount) ∧
      w.Represents (record (es.filter (fun e => s.now.val < e.timestamp + windowSeconds)) s.now.val amount) ∧
      trailing s.accepted s.now.val + amount ≤ cap) ∨
    (accrueRollingDeposit s.window s.now.val amount cap = .error .windowCapExceeded ∧
      cap < trailing s.accepted s.now.val + amount) ∨
    (accrueRollingDeposit s.window s.now.val amount cap = .error (.panic .arithmetic) ∧
      wordSize ≤ trailing s.accepted s.now.val + amount) := by
  obtain ⟨w, hprune, hrep, -⟩ := prune_spec h.represents h.chronological s.now.val
  rw [filter_cutoff (fun e he => (h.stamped e he).1)] at hrep
  have htotal : w.total = trailing s.accepted s.now.val := by
    rw [hrep.total, ← h.trailing_eq _ le_rfl]; rfl
  have hlive : ∀ e ∈ es.filter (fun e => s.now.val < e.timestamp + windowSeconds),
      cutoff s.now.val < e.timestamp ∧ e.timestamp ≤ s.now.val := by
    intro e he
    rw [← filter_cutoff (fun e he => (h.stamped e he).1), mem_filter] at he
    exact ⟨by simpa using he.2, (h.stamped e he.1).2⟩
  have hchr : Chronological (es.filter (fun e => s.now.val < e.timestamp + windowSeconds)) :=
    h.chronological.filter _
  unfold accrueRollingDeposit accrue
  rw [hprune, ok_bind, htotal]
  by_cases hfit : trailing s.accepted s.now.val + amount < wordSize
  · rw [show (add (trailing s.accepted s.now.val) amount : Except WindowError Nat) =
      .ok (trailing s.accepted s.now.val + amount) from add_eq_ok.2 ⟨hfit, rfl⟩, ok_bind]
    by_cases hcap : trailing s.accepted s.now.val + amount > cap
    · right; left
      simp [hcap, revertIf]
    left
    obtain ⟨w', happ, hrep'⟩ := append_spec hrep s.now.val amount s.now.lt
      (fun hlast => by rw [← hrep.length]; exact length_lt_of_pruned hchr s.now.pos hlive hlast)
      (by rw [htotal]; exact hfit)
    -- an entry was just recorded, so the slot at `head` is live
    have hpos : 0 < w'.count := by
      rw [← hrep'.length]
      unfold record
      split
      · split <;> simp
      · simp
    have hcl := hrep'.count_le
    have hhd : w'.head < w'.slots.length := by rcases hrep'.head_lt with h | h <;> omega
    have hsum : w'.total = trailing s.accepted s.now.val + amount := by
      have hself := trailing_filter es (le_refl s.now.val)
      have hall : ∀ fs : List WindowEntry, (∀ e ∈ fs, s.now.val < e.timestamp + windowSeconds) →
          trailing fs s.now.val = amountSum fs := by
        intro fs hfs
        unfold trailing
        rw [filter_eq_self.2 (by simpa using hfs)]
      rw [hrep'.total, ← hall, trailing_record, hself, h.trailing_eq _ le_rfl]
      · simp [trailing, windowSeconds]
      · intro e he
        rcases mem_record he with ⟨f, hf, hfe⟩ | he
        · have := (mem_filter.1 hf).2
          rw [← hfe]; simpa using this
        · rw [he]; unfold windowSeconds; omega
    refine ⟨w', w'.slots[w'.head].timestamp, ?_, hrep', by omega⟩
    simp [hcap, happ, slotAt, hhd, revertIf, hsum]
  right; right
  simp [add, hfit, Panics.panic]
  omega

private theorem agrees_step {s s' : WindowState} {c : WindowCall} (h : ∃ es, s.Agrees es)
    (hc : windowStep s c = .ok s') : ∃ es, s'.Agrees es := by
  obtain ⟨es, h⟩ := h
  cases c with
  | block t =>
    simp only [windowStep, ok.injEq] at hc
    subst hc
    have hle := BlockTime.le_later s.now t
    exact ⟨es, h.represents, h.chronological, fun e he => ⟨(h.stamped e he).1, le_trans (h.stamped e he).2 hle⟩,
      fun t' ht => h.trailing_eq t' (le_trans hle ht)⟩
  | endRegistration =>
    simp only [windowStep, ok.injEq] at hc
    subst hc
    exact ⟨[], ⟨Nat.zero_le _, .inr rfl, ringEntries_zero .., rfl⟩, List.Pairwise.nil, by simp, by simp⟩
  | accrue amount cap =>
    rcases accrueRollingDeposit_spec h amount cap with ⟨w, oldest, hok, hrep, -⟩ | ⟨herr, -⟩ | ⟨herr, -⟩
    · simp only [windowStep, hok, ok_bind, ok.injEq] at hc
      subst hc
      refine ⟨_, hrep, ?_, ?_, ?_⟩
      · exact chronological_record (h.chronological.filter _) amount
          (fun e he => (h.stamped e (mem_of_mem_filter he)).2)
      · intro e he
        rcases mem_record he with ⟨f, hf, hfe⟩ | he
        · rw [← hfe]; exact h.stamped f (mem_of_mem_filter hf)
        · rw [he]; exact ⟨s.now.pos, le_rfl⟩
      · intro t ht
        rw [trailing_record, trailing_filter es ht, h.trailing_eq t ht, trailing_append]
    · simp [windowStep, herr] at hc
    · simp [windowStep, herr] at hc

private theorem agrees_run (t₀ : BlockTime) (cs : List WindowCall) :
    ∃ es, (run windowStep (WindowState.init t₀) cs).Agrees es := by
  apply run_invariant (P := fun s => ∃ es, s.Agrees es) (fun s c s' h hc => agrees_step h hc)
  exact ⟨[], ⟨le_rfl, .inr rfl, ringEntries_zero .., rfl⟩, List.Pairwise.nil, by simp,
    by simp [WindowState.init]⟩

/-- The rolling deposit cap.  After every run of blocks, accruals and ends of registration, the ring buffer stands for
a chronological list whose amounts sum to its total; `effectiveTotal`, and the total a prune would leave, are the sum
of the accepted amounts in the trailing window; an accepted accrual keeps that sum within the cap it was given; and a
rejected one changes nothing and is never `WindowBufferFull`. -/
theorem rolling_window_refines_history (t₀ : BlockTime) (cs : List WindowCall) :
    let s := run windowStep (WindowState.init t₀) cs
    (∃ es, s.window.Represents es ∧ Chronological es ∧ amountSum es = s.window.total) ∧
    (∀ t : BlockTime, s.now.val ≤ t.val →
      effectiveTotal s.window t.val = .ok (trailing s.accepted t.val) ∧
      ∃ w, prune s.window t.val = .ok w ∧ w.total = trailing s.accepted t.val) ∧
    (∀ amount cap s', windowStep s (.accrue amount cap) = .ok s' →
      s'.accepted = s.accepted ++ [⟨s.now.val, amount⟩] ∧ trailing s'.accepted s.now.val ≤ cap) ∧
    (∀ amount cap e, windowStep s (.accrue amount cap) = .error e →
      exec windowStep s (.accrue amount cap) = s ∧ e ≠ .windowBufferFull) := by
  intro s
  obtain ⟨es, h⟩ : ∃ es, s.Agrees es := agrees_run t₀ cs
  clear_value s
  refine ⟨⟨es, h.represents, h.chronological, h.represents.total.symm⟩, ?_, ?_, ?_⟩
  · intro t ht
    obtain ⟨w, hprune, hrep, heff⟩ := prune_spec h.represents h.chronological t.val
    rw [filter_cutoff (fun e he => (h.stamped e he).1)] at hrep
    have htotal : w.total = trailing s.accepted t.val := by
      rw [hrep.total, ← h.trailing_eq t.val ht]; rfl
    exact ⟨by rw [heff, htotal], w, hprune, htotal⟩
  · intro amount cap s' hs'
    rcases accrueRollingDeposit_spec h amount cap with ⟨w, oldest, hok, -, hcap⟩ | ⟨herr, -⟩ | ⟨herr, -⟩
    · simp only [windowStep, hok, ok_bind, ok.injEq] at hs'
      subst hs'
      refine ⟨rfl, ?_⟩
      rw [trailing_append]
      simpa [trailing, windowSeconds] using hcap
    · simp [windowStep, herr] at hs'
    · simp [windowStep, herr] at hs'
  · intro amount cap e he
    refine ⟨exec_of_error he, ?_⟩
    rcases accrueRollingDeposit_spec h amount cap with ⟨w, oldest, hok, -⟩ | ⟨herr, -⟩ | ⟨herr, -⟩
    · simp [windowStep, hok] at he
    · simp only [windowStep, herr, error_bind, error.injEq] at he
      rw [← he]; decide
    · simp only [windowStep, herr, error_bind, error.injEq] at he
      rw [← he]; decide

end RobotMoney.GatewayWindows
