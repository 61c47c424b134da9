import RobotMoney.Evm.Machine
import RobotMoney.Evm.Ring

/-!
# The rolling deposit window (`GatewayWindows`)

The per-agent ring buffer behind the gateway's rolling 24-hour deposit cap, as `contracts/lib/GatewayWindows.sol`
computes it: expired entries are pruned from the oldest end, an amount of the same second is merged into the newest
entry, a freed slot is reused, and a full buffer is rotated in place and grown by one slot.
-/

namespace RobotMoney.GatewayWindows

open Evm

/-- Rolling window length in seconds (`WINDOW_SECONDS`). -/
def windowSeconds : Nat := 86400

/-- Hard cap on distinct live entries (`MAX_WINDOW_ENTRIES`). -/
def maxWindowEntries : Nat := windowSeconds

/-- Errors of the window accounting: the library's own, the gateway's refusal of a breach, and the panics. -/
inductive WindowError where
  | windowBufferFull
  | windowCapExceeded
  | panic (p : Panic)
  deriving DecidableEq, Repr

instance : Panics WindowError := ⟨.panic⟩

structure WindowEntry where
  timestamp : Nat
  amount : Nat
  deriving DecidableEq, Repr

/-- `slots` is the ring storage, `head` the index of the oldest live entry, `count` the number of live entries and
`total` the cumulative amount across them. -/
structure RollingWindow where
  slots : List WindowEntry
  head : Nat
  count : Nat
  total : Nat
  deriving DecidableEq, Repr

def RollingWindow.empty : RollingWindow := ⟨[], 0, 0, 0⟩

/-- Array read `slots[i]`, which panics out of bounds. -/
def slotAt (slots : List WindowEntry) (i : Nat) : Except WindowError WindowEntry :=
  orPanic .outOfBounds slots[i]?

/-- The oldest timestamp that is expired at `now`. -/
def cutoff (now : Nat) : Nat := if now > windowSeconds then now - windowSeconds else 0

/-- The loop shared by `_prune` and `effectiveTotal`: drop live entries up to the cutoff `c` from the oldest end.
Returns the new `head`, `count` and `total`. -/
def pruneLoop (slots : List WindowEntry) (c : Nat) :
    (count head total : Nat) → Except WindowError (Nat × Nat × Nat)
  | 0, head, total => .ok (head, 0, total)
  | count + 1, head, total => do
    let e ← slotAt slots head
    if e.timestamp ≤ c then
      let total ← sub total e.amount
      pruneLoop slots c count (nextIndex slots.length head) total
    else
      .ok (head, count + 1, total)

/-- `_prune`: drop every live entry that has aged past the window ending at `now`. -/
def prune (w : RollingWindow) (now : Nat) : Except WindowError RollingWindow := do
  let (head, count, total) ← pruneLoop w.slots (cutoff now) w.count w.head w.total
  .ok { w with head := if count = 0 then 0 else head, count := count, total := total }

/-- `effectiveTotal`: the live total after notionally pruning at `now`. -/
def effectiveTotal (w : RollingWindow) (now : Nat) : Except WindowError Nat := do
  let (_, _, total) ← pruneLoop w.slots (cutoff now) w.count w.head w.total
  .ok total

/-- `_reverseRange`: reverse `slots[lo:hi)` in place. -/
def reverseRange (slots : List WindowEntry) (lo hi : Nat) : Except WindowError (List WindowEntry) :=
  if lo + 1 < hi then do
    let tmp ← slotAt slots lo
    let other ← slotAt slots (hi - 1)
    reverseRange ((slots.set lo other).set (hi - 1) tmp) (lo + 1) (hi - 1)
  else .ok slots
termination_by hi - lo

/-- `_relinearize`: rotate a full ring so that the oldest entry sits at index `0`, with three reversals. -/
def relinearize (w : RollingWindow) : Except WindowError RollingWindow :=
  if w.head = 0 then .ok w
  else do
    let slots ← reverseRange w.slots 0 w.head
    let slots ← reverseRange slots w.head w.slots.length
    let slots ← reverseRange slots 0 w.slots.length
    .ok { w with slots := slots, head := 0 }

/-- The growth branch of `_append`: every slot is live, so rotate the live region to index `0` and push a slot. -/
def grow (w : RollingWindow) (now amount : Nat) : Except WindowError RollingWindow := do
  revertIf (w.count ≥ maxWindowEntries) .windowBufferFull
  let w' ← relinearize w
  let total ← add w.total amount
  .ok { slots := w'.slots ++ [⟨toUint64 now, amount⟩], head := 0, count := w.count + 1, total := total }

/-- The last branch of `_append`: write the slot after the newest entry, or grow a full ring. -/
def appendSlot (w : RollingWindow) (now amount : Nat) : Except WindowError RollingWindow :=
  if w.count = w.slots.length then grow w now amount
  else do
    let tail := wrapIndex w.slots.length (w.head + w.count)
    let _ ← slotAt w.slots tail
    let total ← add w.total amount
    .ok { w with
      slots := w.slots.set tail ⟨toUint64 now, amount⟩
      count := w.count + 1
      total := total }

/-- `_append`: record `amount` at `now`, merging it into the newest live entry of the same second. -/
def append (w : RollingWindow) (now amount : Nat) : Except WindowError RollingWindow :=
  if w.count > 0 then do
    let newest := wrapIndex w.slots.length (w.head + w.count - 1)
    let e ← slotAt w.slots newest
    if e.timestamp = toUint64 now then
      let merged ← add e.amount amount
      let total ← add w.total amount
      .ok { w with slots := w.slots.set newest { e with amount := merged }, total := total }
    else
      appendSlot w now amount
  else
    appendSlot w now amount

/-- `accrue`: prune, then record `amount` unless the live total would exceed `cap`.  Returns the window as the call
leaves it, whether the amount was within the cap, the oldest live timestamp and the live total. -/
def accrue (w : RollingWindow) (now amount cap : Nat) :
    Except WindowError (RollingWindow × Bool × Nat × Nat) := do
  let w ← prune w now
  let projected ← add w.total amount
  if projected > cap then .ok (w, false, 0, 0)
  else do
    let w ← append w now amount
    let oldest ← slotAt w.slots w.head
    .ok (w, true, oldest.timestamp, w.total)

/-- `_accrueRollingDeposit` of the gateway: `accrue` and revert on a breach, which also undoes the prune.  Returns
the window together with the stored `DepositWindow` (`windowStart`, `gross`). -/
def accrueRollingDeposit (w : RollingWindow) (now amount cap : Nat) :
    Except WindowError (RollingWindow × Nat × Nat) := do
  let (w, withinCap, oldest, total) ← accrue w now amount cap
  revertIf (withinCap = false) .windowCapExceeded
  .ok (w, oldest, total)

/-- The window part of `_endRegistration`: the slot array is kept. -/
def endRegistrationWindow (w : RollingWindow) : RollingWindow := { w with head := 0, count := 0, total := 0 }

end RobotMoney.GatewayWindows
