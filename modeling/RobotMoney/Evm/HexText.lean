import RobotMoney.Json.Text
import Mathlib.Tactic.Ring

/-!
# Hexadecimal text

Numbers as hexadecimal digits of a fixed width, the number and the bytes that digits stand for, and letter case: the
order of two texts of one width is the order of their numbers (`digits_lt_digits`), and neither the number nor the bytes
depend on the case of the letters.
-/

namespace HexText

open JsonText List

def isHexDigit (c : Char) : Bool := (hexValue c).isSome

def lower (cs : List Char) : List Char := cs.map Char.toLower

/-- The lowest `width` hexadecimal digits of a number, the highest one first. -/
def digits : Nat → Nat → List Char
  | 0, _ => []
  | width + 1, n => Nat.digitChar (n / 16 ^ width % 16) :: digits width n

/-- The number that digits stand for, after the digits of `n`. -/
def extend (n : Nat) (cs : List Char) : Nat := cs.foldl (fun n c => 16 * n + (hexValue c).getD 0) n

def toNat (cs : List Char) : Nat := extend 0 cs

def bytes : List Char → List UInt8
  | high :: low :: rest => UInt8.ofNat (toNat [high, low]) :: bytes rest
  | _ => []

def ofBytes (bs : List UInt8) : List Char := bs.flatMap fun b => digits 2 b.toNat

private theorem hexValue_toLower (c : Char) : hexValue c.toLower = hexValue c := by
  by_cases h : c.toNat ≤ 90
  · have hall : ∀ n < 91, hexValue (Char.ofNat n).toLower = hexValue (Char.ofNat n) := by decide
    have := hall c.toNat (by omega)
    rwa [Char.ofNat_toNat] at this
  have hlower : c.toLower = c := by
    unfold Char.toLower
    rw [dif_neg]
    rintro ⟨-, hle⟩
    exact h (by simpa [Char.le_def, UInt32.le_iff_toNat_le] using hle)
  rw [hlower]

@[simp] theorem isHexDigit_toLower (c : Char) : isHexDigit c.toLower = isHexDigit c := by
  simp [isHexDigit, hexValue_toLower]

theorem toNat_lower (cs : List Char) : toNat (lower cs) = toNat cs := by
  simp [toNat, extend, lower, foldl_map, hexValue_toLower]

private theorem bytes_lower : ∀ cs : List Char, bytes (lower cs) = bytes cs
  | [] => rfl
  | [_] => rfl
  | a :: b :: cs => by
    have hpair : toNat (lower [a, b]) = toNat [a, b] := toNat_lower [a, b]
    have hrest := bytes_lower cs
    simp only [lower, map_cons, map_nil, bytes] at hpair hrest ⊢
    rw [hpair, hrest]

theorem bytes_eq_of_lower {cs cs' : List Char} (h : lower cs = lower cs') : bytes cs = bytes cs' := by
  rw [← bytes_lower cs, h, bytes_lower]

@[simp] theorem length_digits (width n : Nat) : (digits width n).length = width := by
  induction width with
  | zero => rfl
  | succ width ih => simp [digits, ih]

variable {width n : Nat} {c : Char}

theorem mem_digits (h : c ∈ digits width n) : ∃ d < 16, c = Nat.digitChar d := by
  induction width with
  | zero => cases h
  | succ width ih =>
    rcases mem_cons.1 h with rfl | h
    · exact ⟨_, Nat.mod_lt _ (by decide), rfl⟩
    · exact ih h

theorem isHexDigit_of_mem_digits (h : c ∈ digits width n) : isHexDigit c = true := by
  obtain ⟨d, hd, rfl⟩ := mem_digits h
  simp [isHexDigit, hexValue_digitChar d hd]

private theorem toLower_of_mem_digits (h : c ∈ digits width n) : c.toLower = c := by
  obtain ⟨d, hd, rfl⟩ := mem_digits h
  exact (by decide : ∀ d < 16, (Nat.digitChar d).toLower = Nat.digitChar d) d hd

@[simp] theorem lower_digits (width n : Nat) : lower (digits width n) = digits width n :=
  (map_congr_left fun _ hc => toLower_of_mem_digits hc).trans (map_id _)

@[simp] theorem lower_ofBytes (bs : List UInt8) : lower (ofBytes bs) = ofBytes bs := by
  unfold lower ofBytes
  rw [map_flatMap]
  congr 1
  funext b
  exact lower_digits 2 b.toNat

theorem isHexDigit_of_mem_ofBytes {bs : List UInt8} (h : c ∈ ofBytes bs) : isHexDigit c = true := by
  obtain ⟨b, -, hc⟩ := mem_flatMap.1 h
  exact isHexDigit_of_mem_digits hc

theorem mod_pow_succ (width n : Nat) : n % 16 ^ (width + 1) = 16 ^ width * (n / 16 ^ width % 16) + n % 16 ^ width := by
  rw [pow_succ, Nat.mod_mul]
  omega

private theorem extend_digits (width n : Nat) : ∀ m, extend m (digits width n) = m * 16 ^ width + n % 16 ^ width := by
  induction width with
  | zero => simp [digits, extend, Nat.mod_one]
  | succ width ih =>
    intro m
    have hstep : extend m (digits (width + 1) n) = extend (16 * m + n / 16 ^ width % 16) (digits width n) := by
      simp [extend, digits, hexValue_digitChar _ (Nat.mod_lt _ (by decide : 0 < 16))]
    rw [hstep, ih, mod_pow_succ]
    ring

/-- A number that fits the width is read back. -/
theorem toNat_digits (h : n < 16 ^ width) : toNat (digits width n) = n := by
  rw [toNat, extend_digits, Nat.mod_eq_of_lt h]
  omega

private theorem lt_by_digit {base a b r s : Nat} (hr : r < base) (hs : s < base) :
    base * a + r < base * b + s ↔ a < b ∨ a = b ∧ r < s := by
  rcases Nat.lt_trichotomy a b with h | rfl | h
  · have hmul : base * (a + 1) ≤ base * b := Nat.mul_le_mul_left base h
    rw [Nat.mul_add_one] at hmul
    constructor
    · exact fun _ => .inl h
    · intro _
      omega
  · simp
  have hmul : base * (b + 1) ≤ base * a := Nat.mul_le_mul_left base h
  rw [Nat.mul_add_one] at hmul
  constructor
  · intro _
    omega
  · omega

theorem digits_lt_iff (width n m : Nat) : digits width n < digits width m ↔ n % 16 ^ width < m % 16 ^ width := by
  induction width with
  | zero => simp [digits, Nat.mod_one]
  | succ width ih =>
    have hchar : ∀ a < 16, ∀ b < 16, (Nat.digitChar a < Nat.digitChar b ↔ a < b) ∧
        (Nat.digitChar a = Nat.digitChar b ↔ a = b) := by decide
    have hpos : 0 < 16 ^ width := Nat.pow_pos (by decide)
    obtain ⟨hlt, heq⟩ := hchar (n / 16 ^ width % 16) (Nat.mod_lt _ (by decide)) (m / 16 ^ width % 16)
      (Nat.mod_lt _ (by decide))
    rw [mod_pow_succ, mod_pow_succ, lt_by_digit (Nat.mod_lt _ hpos) (Nat.mod_lt _ hpos), digits, digits,
      cons_lt_cons_iff, hlt, heq, ih]

variable {m : Nat}

/-- Padded hex texts are ordered as their numbers. -/
theorem digits_lt_digits (hn : n < 16 ^ width) (hm : m < 16 ^ width) : digits width n < digits width m ↔ n < m := by
  rw [digits_lt_iff, Nat.mod_eq_of_lt hn, Nat.mod_eq_of_lt hm]

theorem digits_injective (hn : n < 16 ^ width) (hm : m < 16 ^ width) (h : digits width n = digits width m) : n = m := by
  rw [← toNat_digits hn, h, toNat_digits hm]

private theorem digitChar_hexValue (h : isHexDigit c = true) (hlower : c.toLower = c) :
    ∃ v < 16, hexValue c = some v ∧ Nat.digitChar v = c := by
  have hle : c.toNat < 103 := by
    by_contra hgt
    have hnone : hexValue c = none := by
      simp only [hexValue, Char.isDigit, Char.le_def, UInt32.le_iff_toNat_le, Bool.and_eq_true, decide_eq_true_eq]
      rw [if_neg, if_neg, if_neg]
      all_goals
        rintro ⟨-, hle⟩
        exact absurd (show c.toNat ≤ _ from hle) (by simp; omega)
    simp [isHexDigit, hnone] at h
  have hall : ∀ n < 103, isHexDigit (Char.ofNat n) = true → (Char.ofNat n).toLower = Char.ofNat n →
      ∃ v < 16, hexValue (Char.ofNat n) = some v ∧ Nat.digitChar v = Char.ofNat n := by decide
  have := hall c.toNat hle
  rw [Char.ofNat_toNat] at this
  exact this h hlower

/-- Bytes written as hex are the text that was read. -/
theorem ofBytes_bytes : ∀ {cs : List Char}, (∀ c ∈ cs, isHexDigit c = true ∧ c.toLower = c) → cs.length % 2 = 0 →
    ofBytes (bytes cs) = cs
  | [], _, _ => rfl
  | [_], _, heven => by simp at heven
  | a :: b :: cs, hcs, heven => by
    obtain ⟨va, hva, hvalueA, hcharA⟩ := digitChar_hexValue (hcs a (by simp)).1 (hcs a (by simp)).2
    obtain ⟨vb, hvb, hvalueB, hcharB⟩ := digitChar_hexValue (hcs b (by simp)).1 (hcs b (by simp)).2
    have hpair : toNat [a, b] = 16 * va + vb := by simp [toNat, extend, hvalueA, hvalueB]
    have hlen : cs.length % 2 = 0 := by
      simp only [length_cons] at heven
      omega
    have hrest := ofBytes_bytes (fun c hc => hcs c (by simp [hc])) hlen
    have hbyte : (UInt8.ofNat (16 * va + vb)).toNat = 16 * va + vb := by
      rw [UInt8.toNat_ofNat', Nat.mod_eq_of_lt]
      simp only [Nat.reducePow]
      omega
    rw [bytes, ofBytes, flatMap_cons, ← ofBytes, hrest, hpair, hbyte, digits, digits, digits,
      show (16 * va + vb) / 16 ^ 1 % 16 = va by omega, show (16 * va + vb) / 16 ^ 0 % 16 = vb by omega, hcharA, hcharB]
    rfl

end HexText
