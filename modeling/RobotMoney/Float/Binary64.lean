import Mathlib.Algebra.Order.BigOperators.Group.List
import Mathlib.Algebra.Order.Field.Power
import Mathlib.Data.Rat.Floor
import Mathlib.Tactic.FieldSimp
import Mathlib.Tactic.Linarith
import Mathlib.Tactic.Positivity

/-!
# Binary64 arithmetic on rationals

A float is the rational it stands for, and every operation rounds its exact result to the nearest float, ties to even.
There is no overflow: the rationals here are those below the overflow threshold.

What is rounded is a float (`isFloat_round`), and a float is its own rounding (`IsFloat.round_eq`).  Addition of floats
is not associative, so a sum depends on the order of its addends; it does not where at most two of them are not zero, or
where the exact sums of the addends are floats (`sum_perm`).
-/

namespace Binary64

open List

/-- The power of two. -/
def pow2 (e : Int) : Rat := if 0 ≤ e then ((2 ^ e.toNat : Nat) : Rat) else mkRat 1 (2 ^ (-e).toNat)

/-- The exponent of the leading bit of a positive rational. -/
def leadingExponent (x : Rat) : Int :=
  let k : Int := (Nat.log2 x.num.toNat : Int) - (Nat.log2 x.den : Int)
  if pow2 k ≤ x then k else k - 1

/-- The nearest integer, ties to even. -/
def roundHalfEven (x : Rat) : Int :=
  let n := x.floor
  let rest := x - n
  if rest < 1 / 2 then n
  else if 1 / 2 < rest then n + 1
  else if n % 2 = 0 then n else n + 1

/-- The nearest float: 53 significant bits, or the spacing of the subnormal numbers. -/
def round (x : Rat) : Rat :=
  if x = 0 then 0
  else
    let unit := pow2 (max (leadingExponent |x| - 52) (-1074))
    let magnitude := roundHalfEven (|x| / unit) * unit
    if x < 0 then -magnitude else magnitude

def add (x y : Rat) : Rat := round (x + y)

def sub (x y : Rat) : Rat := round (x - y)

def mul (x y : Rat) : Rat := round (x * y)

def div (x y : Rat) : Rat := round (x / y)

/-- The sum from the left, as a loop over the addends accumulates it. -/
def sum (l : List Rat) : Rat := l.foldl add 0

/-- A multiple of a power of two that 53 bits hold. -/
def IsFloat (x : Rat) : Prop := ∃ m e : Int, x = m * 2 ^ e ∧ |m| ≤ 2 ^ 53 ∧ -1074 ≤ e

/-- The exact sums of the addends are floats: they are multiples of one power of two, and so is their sum within 53
bits. -/
def Exact (l : List Rat) : Prop :=
  ∃ e : Int, -1074 ≤ e ∧ (∀ x ∈ l, ∃ m : Nat, x = m * 2 ^ e) ∧ l.sum ≤ 2 ^ 53 * 2 ^ e

private theorem pow2_eq (e : Int) : pow2 e = 2 ^ e := by
  unfold pow2
  split_ifs with he
  · conv_rhs => rw [← Int.toNat_of_nonneg he]
    push_cast
    rw [zpow_natCast]
  · have hneg : e = -((-e).toNat : Int) := by omega
    conv_rhs => rw [hneg]
    rw [Rat.mkRat_eq_div, zpow_neg, zpow_natCast]
    push_cast
    rw [one_div]

/-- The leading bit is where the leading exponent says. -/
theorem leadingExponent_spec {x : Rat} (hx : 0 < x) : 2 ^ leadingExponent x ≤ x ∧ x < 2 ^ (leadingExponent x + 1) := by
  have hnum : x.num.toNat ≠ 0 := by
    have := Rat.num_pos.2 hx
    omega
  have hden := x.den_nz
  have hvalue : x = (x.num.toNat : Rat) / (x.den : Rat) := by
    conv_lhs => rw [← Rat.num_div_den x]
    congr 1
    have : (x.num.toNat : Int) = x.num := Int.toNat_of_nonneg (Rat.num_nonneg.2 hx.le)
    exact_mod_cast this.symm
  have hnumLow : (2 : Rat) ^ (Nat.log2 x.num.toNat : Int) ≤ x.num.toNat := by
    rw [zpow_natCast]
    exact_mod_cast Nat.log2_self_le hnum
  have hnumHigh : (x.num.toNat : Rat) < 2 ^ ((Nat.log2 x.num.toNat : Int) + 1) := by
    rw [← Nat.cast_succ, zpow_natCast]
    exact_mod_cast Nat.lt_log2_self
  have hdenLow : (2 : Rat) ^ (Nat.log2 x.den : Int) ≤ x.den := by
    rw [zpow_natCast]
    exact_mod_cast Nat.log2_self_le hden
  have hdenHigh : (x.den : Rat) < 2 ^ ((Nat.log2 x.den : Int) + 1) := by
    rw [← Nat.cast_succ, zpow_natCast]
    exact_mod_cast Nat.lt_log2_self
  have hdenPos : (0 : Rat) < x.den := by exact_mod_cast x.den_pos
  generalize ha : (Nat.log2 x.num.toNat : Int) = a at hnumLow hnumHigh
  generalize hb : (Nat.log2 x.den : Int) = b at hdenLow hdenHigh
  have hhigh : x < 2 ^ (a - b + 1) := by
    rw [hvalue, div_lt_iff₀ hdenPos]
    calc (x.num.toNat : Rat) < 2 ^ (a + 1) := hnumHigh
      _ = 2 ^ (a - b + 1) * 2 ^ b := by rw [← zpow_add₀ two_ne_zero]; congr 1; ring
      _ ≤ 2 ^ (a - b + 1) * x.den := mul_le_mul_of_nonneg_left hdenLow (by positivity)
  have hlow : 2 ^ (a - b - 1) ≤ x := by
    rw [hvalue, le_div_iff₀ hdenPos]
    calc (2 : Rat) ^ (a - b - 1) * x.den ≤ 2 ^ (a - b - 1) * 2 ^ (b + 1) :=
          mul_le_mul_of_nonneg_left hdenHigh.le (by positivity)
      _ = 2 ^ a := by rw [← zpow_add₀ two_ne_zero]; congr 1; ring
      _ ≤ x.num.toNat := hnumLow
  simp only [leadingExponent, ha, hb, pow2_eq]
  split_ifs with hk
  · exact ⟨hk, hhigh⟩
  · exact ⟨hlow, by simpa using lt_of_not_ge hk⟩

private theorem roundHalfEven_intCast (n : Int) : roundHalfEven n = n := by
  simp [roundHalfEven]

private theorem roundHalfEven_mem {x : Rat} {n : Int} (hx : 0 ≤ x) (hlt : x < n) :
    0 ≤ roundHalfEven x ∧ roundHalfEven x ≤ n := by
  have hfloor : 0 ≤ x.floor := Rat.le_floor_iff.2 (by simpa using hx)
  have hnext : x.floor < n := Rat.floor_lt_iff.2 hlt
  simp only [roundHalfEven]
  split_ifs <;> omega

theorem IsFloat.neg {x : Rat} (h : IsFloat x) : IsFloat (-x) := by
  obtain ⟨m, e, rfl, hm, he⟩ := h
  exact ⟨-m, e, by push_cast; ring, by rwa [abs_neg], he⟩

theorem isFloat_zero : IsFloat 0 := ⟨0, 0, by simp, by norm_num, by norm_num⟩

/-- The result of every operation is a float. -/
theorem isFloat_round (x : Rat) : IsFloat (round x) := by
  by_cases hzero : x = 0
  · rw [round, if_pos hzero]
    exact isFloat_zero
  rw [round, if_neg hzero]
  have hpos : 0 < |x| := abs_pos.2 hzero
  have hbits := (leadingExponent_spec hpos).2
  generalize leadingExponent |x| = k at hbits
  set e := max (k - 52) (-1074) with he
  have hunit : (0 : Rat) < 2 ^ e := by positivity
  have hlt : |x| / 2 ^ e < ((2 ^ 53 : Int) : Rat) := by
    rw [div_lt_iff₀ hunit]
    calc |x| < 2 ^ (k + 1) := hbits
      _ ≤ 2 ^ (53 + e) := zpow_le_zpow_right₀ one_le_two (by omega)
      _ = ((2 ^ 53 : Int) : Rat) * 2 ^ e := by rw [zpow_add₀ two_ne_zero]; norm_num
  obtain ⟨hnonneg, hle⟩ := roundHalfEven_mem (div_nonneg hpos.le hunit.le) hlt
  have hfloat : IsFloat (roundHalfEven (|x| / pow2 e) * pow2 e) := by
    rw [pow2_eq]
    exact ⟨_, e, rfl, by rwa [abs_of_nonneg hnonneg], le_max_right _ _⟩
  dsimp only
  split_ifs
  · exact hfloat.neg
  · exact hfloat

/-- The magnitude of a float is a multiple of the unit that `round` takes. -/
private theorem exists_multiple {x : Rat} (h : IsFloat x) (hzero : x ≠ 0) :
    ∃ n : Int, |x| / 2 ^ max (leadingExponent |x| - 52) (-1074) = n := by
  have hbits := (leadingExponent_spec (abs_pos.2 hzero)).1
  obtain ⟨m, e, hx, hm, he⟩ := h
  have habs : |x| = ((|m| : Int) : Rat) * 2 ^ e := by
    rw [hx, abs_mul, abs_of_pos (by positivity : (0 : Rat) < 2 ^ e), Int.cast_abs]
  have hm' : ((|m| : Int) : Rat) ≤ 2 ^ (53 : Int) := by exact_mod_cast hm
  generalize leadingExponent |x| = k at hbits ⊢
  rcases le_or_gt (max (k - 52) (-1074)) e with hle | hgt
  · -- The unit divides the power of two of the float.
    refine ⟨|m| * 2 ^ (e - max (k - 52) (-1074)).toNat, ?_⟩
    rw [habs, div_eq_iff (by positivity)]
    push_cast
    rw [mul_assoc, ← zpow_natCast, ← zpow_add₀ two_ne_zero, Int.toNat_of_nonneg (by omega), sub_add_cancel]
  · -- The unit is above it for the carry `2 ^ 53` alone.
    have hlow : (2 : Rat) ^ (k - e) ≤ ((|m| : Int) : Rat) := by
      rw [zpow_sub₀ two_ne_zero, div_le_iff₀ (by positivity), ← habs]
      exact hbits
    have hk : k - e ≤ 53 := (zpow_le_zpow_iff_right₀ one_lt_two).1 (hlow.trans hm')
    have hunit : max (k - 52) (-1074) = e + 1 := by omega
    have hke : k - e = 53 := by omega
    rw [hke] at hlow
    refine ⟨2 ^ 52, ?_⟩
    rw [habs, le_antisymm hm' hlow, hunit, div_eq_iff (by positivity), zpow_add₀ two_ne_zero]
    norm_num
    ring

/-- A float is its own rounding. -/
theorem IsFloat.round_eq {x : Rat} (h : IsFloat x) : round x = x := by
  by_cases hzero : x = 0
  · rw [round, if_pos hzero, hzero]
  rw [round, if_neg hzero]
  obtain ⟨n, hn⟩ := exists_multiple h hzero
  have hunit : (2 : Rat) ^ max (leadingExponent |x| - 52) (-1074) ≠ 0 := by positivity
  simp only [pow2_eq, hn, roundHalfEven_intCast]
  rw [← hn, div_mul_cancel₀ _ hunit]
  split_ifs with hneg
  · rw [abs_of_neg hneg, neg_neg]
  · exact abs_of_nonneg (not_lt.1 hneg)

private theorem add_zero_right {x : Rat} (h : IsFloat x) : add x 0 = x := by rw [add, add_zero, h.round_eq]

private theorem foldl_add_filter {l : List Rat} {s : Rat} (hs : IsFloat s) :
    (l.filter (· ≠ 0)).foldl add s = l.foldl add s := by
  induction l generalizing s with
  | nil => rfl
  | cons x l ih =>
    by_cases hx : x = 0
    · rw [filter_cons_of_neg (by simpa using hx), foldl_cons, hx, add_zero_right hs, ih hs]
    · rw [filter_cons_of_pos (by simpa using hx), foldl_cons, foldl_cons]
      exact ih (isFloat_round _)

/-- Zeros do not change a sum. -/
theorem sum_filter (l : List Rat) : sum (l.filter (· ≠ 0)) = sum l := foldl_add_filter isFloat_zero

/-- Two addends are rounded once. -/
theorem sum_eq_round {l : List Rat} (hfloat : ∀ x ∈ l, IsFloat x) (hlen : l.length ≤ 2) : sum l = round l.sum := by
  match l, hlen with
  | [], _ => exact isFloat_zero.round_eq.symm
  | [x], _ => simp [sum, add]
  | [x, y], _ => simp [sum, add, (hfloat x (by simp)).round_eq]

/-- Where the exact sums are floats, nothing is rounded. -/
theorem Exact.sum_eq {l : List Rat} (h : Exact l) : sum l = l.sum := by
  obtain ⟨e, he, hmul, hsum⟩ := h
  have hrun : ∀ (l : List Rat) (n : Nat), (∀ x ∈ l, ∃ m : Nat, x = m * 2 ^ e) →
      n * 2 ^ e + l.sum ≤ 2 ^ 53 * 2 ^ e → l.foldl add (n * 2 ^ e) = n * 2 ^ e + l.sum := by
    intro l
    induction l with
    | nil => intro n _ _; simp
    | cons x l ih =>
      intro n hmul hsum
      obtain ⟨m, hx⟩ := hmul x mem_cons_self
      have hstep : (n : Rat) * 2 ^ e + x = (n + m : Nat) * 2 ^ e := by rw [hx]; push_cast; ring
      have hrest : 0 ≤ l.sum := by
        refine sum_nonneg fun y hy => ?_
        obtain ⟨k, rfl⟩ := hmul y (mem_cons_of_mem _ hy)
        positivity
      rw [sum_cons, ← add_assoc, hstep] at hsum ⊢
      have hbits : ((n + m : Nat) : Rat) ≤ 2 ^ 53 :=
        le_of_mul_le_mul_right (by linarith) (by positivity : (0 : Rat) < 2 ^ e)
      have hfloat : IsFloat ((n + m : Nat) * 2 ^ e) := by
        refine ⟨(n + m : Nat), e, by push_cast; rfl, ?_, he⟩
        rw [Nat.abs_cast]
        exact_mod_cast hbits
      rw [foldl_cons, add, hstep, hfloat.round_eq]
      exact ih (n + m) (fun y hy => hmul y (mem_cons_of_mem _ hy)) hsum
  simpa [sum] using hrun l 0 hmul (by simpa using hsum)

/-- Whether every partial sum is exact does not depend on the order. -/
theorem Exact.perm {l l' : List Rat} (h : Exact l) (hperm : l.Perm l') : Exact l' := by
  obtain ⟨e, he, hmul, hsum⟩ := h
  exact ⟨e, he, fun x hx => hmul x (hperm.mem_iff.2 hx), hperm.sum_eq ▸ hsum⟩

/-- A sum does not depend on the order of its addends where at most two of them are not zero, or nothing is rounded. -/
theorem sum_perm {l l' : List Rat} (hfloat : ∀ x ∈ l, IsFloat x) (hperm : l.Perm l')
    (h : (l.filter (· ≠ 0)).length ≤ 2 ∨ Exact l) : sum l = sum l' := by
  rcases h with hlen | hexact
  · have hfilter := hperm.filter (· ≠ 0)
    rw [← sum_filter l, ← sum_filter l', sum_eq_round (fun x hx => hfloat x (mem_of_mem_filter hx)) hlen,
      sum_eq_round (fun x hx => hfloat x (hperm.mem_iff.2 (mem_of_mem_filter hx)))
        (hfilter.length_eq ▸ hlen), hfilter.sum_eq]
  · rw [hexact.sum_eq, (hexact.perm hperm).sum_eq, hperm.sum_eq]

end Binary64
