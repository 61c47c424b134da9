import RobotMoney.Text.Search

/-!
# Token amounts (`format.ts`)

`formatInputAmount` writes an amount to fill an input with, `bigintToDecimalString` to display it, and
`parseTokenAmount` reads what was typed.  A written amount is read back (`parseTokenAmount_formatInputAmount`), a
displayed one is read as the amount rounded down to the digits shown (`parseTokenAmount_bigintToDecimalString`), and
what is read are the decimal numbers up to the largest word (`amounts_exact`).
-/

namespace RobotMoney.Client

open DecimalText TextSearch List RegularExpression

def trim (input : List Char) : List Char :=
  (input.dropWhile (whiteSpace.contains ·)).rdropWhile (whiteSpace.contains ·)

/-- `BigInt.prototype.toString`. -/
def bigintText (n : Int) : List Char :=
  if n < 0 then '-' :: Nat.toDigits 10 n.natAbs else Nat.toDigits 10 n.natAbs

def uint256Max : Nat := 2 ^ 256 - 1

def bigintToDecimalString (raw : Int) (decimals maxFrac minFrac : Nat) : List Char :=
  let negative := raw < 0
  let abs := raw.natAbs
  let scale := 10 ^ decimals
  let whole := abs / scale
  let fracRaw := abs % scale
  let cap := min maxFrac decimals
  let floor := min minFrac cap
  let fracFull := (Nat.toDigits 10 fracRaw).leftpad decimals '0'
  let fracCut := fracFull.take cap
  let stripped := strip fracCut
  let frac := if stripped.length < floor then stripped.rightpad floor '0' else stripped
  let wholeStr := grouped (Nat.toDigits 10 whole)
  if abs ≠ 0 ∧ whole = 0 ∧ (RegularExpression.char '0').star.rmatch fracCut then
    let tiny := ['<', '0', '.'] ++ List.replicate (cap - 1) '0' ++ ['1']
    if negative then '−' :: tiny else tiny
  else
    let formatted := if 0 < frac.length then wholeStr ++ '.' :: frac else wholeStr
    if negative then '−' :: formatted else formatted

def formatInputAmount (raw : Int) (decimals : Nat) : List Char :=
  let scale : Int := 10 ^ decimals
  let frac := strip ((bigintText (raw.tmod scale)).leftpad decimals '0')
  let whole := bigintText (raw.tdiv scale)
  if 0 < frac.length then whole ++ '.' :: frac else whole

def ungrouped (t : List Char) : List Char := if (groups * fraction).rmatch t then t.filter (· ≠ ',') else t

def parseTokenAmount (input : List Char) (decimals : Nat) : Option Nat :=
  let t := trim input
  if t = [] then none
  else
    let t := ungrouped t
    if !(digits * fraction).rmatch t then none
    else
      let parts := t.splitOn '.'
      let whole := parts.headD []
      let frac := parts.tail.headD []
      if decimals < frac.length then none
      else
        let padded := frac.rightpad decimals '0'
        let value := value whole * 10 ^ decimals + value (if padded = [] then ['0'] else padded)
        if value = 0 ∨ uint256Max < value then none else some value

/-- A text is a number with up to `d` decimals, in digits or well-grouped digits, and denotes `v` base units. -/
def Denotes (d : Nat) (text : List Char) (v : Nat) : Prop :=
  ∃ whole digits tail frac, Whole whole digits ∧ Fraction tail frac ∧ text = whole ++ tail ∧ frac.length ≤ d ∧
    v = value digits * 10 ^ d + value frac * 10 ^ (d - frac.length)

/-- An amount without what lies beyond `m` of its `d` decimals. -/
def roundedDown (x d m : Nat) : Nat := x / 10 ^ (d - min m d) * 10 ^ (d - min m d)

private theorem roundedDown_le (x d m : Nat) : roundedDown x d m ≤ x := Nat.div_mul_le_self _ _

private theorem not_whiteSpace_of_isDigit {ch : Char} (h : ch.isDigit = true) : whiteSpace.contains ch = false := by
  have hmem := (isDigit_iff ch).1 h
  fin_cases hmem <;> decide

private theorem trim_eq_self {l : List Char} (h : ∀ ch ∈ l, whiteSpace.contains ch = false) : trim l = l := by
  have hdrop : l.dropWhile (whiteSpace.contains ·) = l := by
    rw [dropWhile_eq_self_iff]
    intro hlen
    rw [h _ (getElem_mem hlen)]
    decide
  rw [trim, hdrop, rdropWhile_eq_self_iff]
  intro hne
  rw [h _ (getLast_mem hne)]
  decide

variable {whole digits tail frac : List Char} {d n : Nat}

theorem trim_number (hw : Whole whole digits) (hf : Fraction tail frac) : trim (whole ++ tail) = whole ++ tail := by
  apply trim_eq_self
  intro ch hch
  rcases mem_append.1 hch with hch | hch
  · rcases hw.mem hch with hdigit | rfl
    · exact not_whiteSpace_of_isDigit hdigit
    · decide
  rcases hf.mem hch with hdigit | rfl
  · exact not_whiteSpace_of_isDigit hdigit
  · decide

private theorem filter_comma_eq_self {l : List Char} (h : ',' ∉ l) : l.filter (· ≠ ',') = l := by
  rw [filter_eq_self]
  intro ch hch
  simp only [ne_eq, decide_not, Bool.not_eq_eq_eq_not, Bool.not_true, decide_eq_false_iff_not]
  rintro rfl
  exact h hch

private theorem comma_not_mem_fraction (hf : Fraction tail frac) : ',' ∉ tail := by
  intro hmem
  rcases hf.mem hmem with h | h
  · exact absurd h (by decide)
  · exact absurd h (by decide)

private theorem ungrouped_number (hw : Whole whole digits) (hf : Fraction tail frac) :
    ungrouped (whole ++ tail) = digits ++ tail := by
  have htail := comma_not_mem_fraction hf
  unfold ungrouped
  rcases hw with ⟨rfl, -, hdigits⟩ | ⟨head, gs, hne, hg⟩
  · split
    · apply filter_comma_eq_self
      rw [mem_append, not_or]
      exact ⟨hdigits.not_mem rfl, htail⟩
    · rfl
  have hmatch : (groups * fraction).rmatch (whole ++ tail) :=
    (mul_rmatch_iff _ _ _).2 ⟨whole, tail, rfl, (groups_rmatch_iff whole).2 ⟨digits, head, gs, hne, hg⟩,
      (fraction_rmatch_iff tail).2 ⟨frac, hf⟩⟩
  rw [if_pos hmatch, filter_append, hg.filter_comma, filter_comma_eq_self htail]

private theorem splitOn_number (hd : IsDigits digits) (hf : Fraction tail frac) :
    (digits ++ tail).splitOn '.' = if tail = [] then [digits] else [digits, frac] := by
  have hpoint : '.' ∉ digits := hd.not_mem rfl
  rcases hf with ⟨rfl, rfl⟩ | ⟨rfl, -, hdigits⟩
  · rw [append_nil, if_pos rfl, splitOn_eq_singleton hpoint]
  rw [if_neg (by simp), splitOn_append_cons_self_of_not_mem hpoint,
    splitOn_eq_singleton (hdigits.not_mem rfl)]

private theorem value_zero_or (l : List Char) : value (if l = [] then ['0'] else l) = value l := by
  split
  · rename_i h
    rw [h]
    rfl
  · rfl

private theorem parseTokenAmount_number {input whole digits tail frac : List Char} (hw : Whole whole digits)
    (hf : Fraction tail frac) (h : trim input = whole ++ tail) (d : Nat) : parseTokenAmount input d =
      if d < frac.length then none
      else if value digits * 10 ^ d + value (frac.rightpad d '0') = 0 ∨
          uint256Max < value digits * 10 ^ d + value (frac.rightpad d '0') then none
      else some (value digits * 10 ^ d + value (frac.rightpad d '0')) := by
  have hdigits := hw.isDigits
  have hne : digits ++ tail ≠ [] := by
    rw [ne_eq, append_eq_nil_iff, not_and_or]
    exact .inl hw.ne_nil
  have hmatch : (DecimalText.digits * fraction).rmatch (digits ++ tail) :=
    (mul_rmatch_iff _ _ _).2 ⟨digits, tail, rfl, (digits_rmatch_iff digits).2 ⟨hw.ne_nil, hdigits⟩,
      (fraction_rmatch_iff tail).2 ⟨frac, hf⟩⟩
  have htext : whole ++ tail ≠ [] := by
    intro hnil
    have hun := ungrouped_number hw hf
    rw [hnil] at hun
    exact hne (hun.symm.trans rfl)
  have hsplit := splitOn_number hdigits hf
  have hparts : ((digits ++ tail).splitOn '.').headD [] = digits ∧
      ((digits ++ tail).splitOn '.').tail.headD [] = frac := by
    rw [hsplit]
    rcases hf with ⟨rfl, rfl⟩ | ⟨rfl, -, -⟩
    · exact ⟨rfl, rfl⟩
    · exact ⟨rfl, rfl⟩
  simp only [parseTokenAmount, h, if_neg htext, ungrouped_number hw hf, hmatch, hparts.1, hparts.2, value_zero_or,
    Bool.not_true, Bool.false_eq_true, if_false]

private theorem exists_number_of_parse {input : List Char} {d v : Nat} (h : parseTokenAmount input d = some v) :
    ∃ whole digits tail frac, Whole whole digits ∧ Fraction tail frac ∧ trim input = whole ++ tail := by
  have hmatch : (digits * fraction).rmatch (ungrouped (trim input)) := by
    by_contra hno
    simp only [parseTokenAmount, Bool.not_eq_true] at h hno
    rw [hno] at h
    split at h <;> simp at h
  unfold ungrouped at hmatch
  split at hmatch
  · rename_i hgroups
    obtain ⟨whole, tail, htrim, hg, hf⟩ := (mul_rmatch_iff _ _ _).1 hgroups
    obtain ⟨digits, head, gs, hne, hg⟩ := (groups_rmatch_iff whole).1 hg
    obtain ⟨frac, hf⟩ := (fraction_rmatch_iff tail).1 hf
    exact ⟨whole, digits, tail, frac, .inr ⟨head, gs, hne, hg⟩, hf, htrim⟩
  obtain ⟨whole, tail, htrim, hw, hf⟩ := (mul_rmatch_iff _ _ _).1 hmatch
  obtain ⟨hne, hdigits⟩ := (digits_rmatch_iff whole).1 hw
  obtain ⟨frac, hf⟩ := (fraction_rmatch_iff tail).1 hf
  exact ⟨whole, whole, tail, frac, .inl ⟨rfl, hne, hdigits⟩, hf, htrim⟩

private theorem parseTokenAmount_eq_some_iff (input : List Char) (d v : Nat) :
    parseTokenAmount input d = some v ↔ Denotes d (trim input) v ∧ 0 < v ∧ v ≤ uint256Max := by
  constructor
  · intro h
    obtain ⟨whole, digits, tail, frac, hw, hf, htrim⟩ := exists_number_of_parse h
    rw [parseTokenAmount_number hw hf htrim] at h
    split at h
    · cases h
    split at h
    · cases h
    rename_i hlen hrange
    rw [value_rightpad] at h hrange
    obtain rfl := Option.some.inj h
    exact ⟨⟨whole, digits, tail, frac, hw, hf, htrim, by omega, rfl⟩, by omega, by omega⟩
  · rintro ⟨⟨whole, digits, tail, frac, hw, hf, htrim, hlen, rfl⟩, hpos, hmax⟩
    rw [parseTokenAmount_number hw hf htrim, if_neg (by omega), value_rightpad, if_neg (by omega)]

theorem fraction_of_digits (h : IsDigits frac) : Fraction (if 0 < frac.length then '.' :: frac else []) frac := by
  split
  · rename_i hlen
    exact .inr ⟨rfl, length_pos_iff.1 hlen, h⟩
  rename_i hlen
  exact .inl ⟨rfl, length_eq_zero_iff.1 (by omega)⟩

private theorem append_fraction (whole frac : List Char) : (if 0 < frac.length then whole ++ '.' :: frac else whole) =
      whole ++ if 0 < frac.length then '.' :: frac else [] := by
  split
  · rfl
  · rw [append_nil]

private theorem parseTokenAmount_written (hw : Whole whole digits) (hfrac : IsDigits frac) (hlen : frac.length ≤ d) :
    parseTokenAmount (if 0 < frac.length then whole ++ '.' :: frac else whole) d =
      if value digits * 10 ^ d + value (frac.rightpad d '0') = 0 ∨
          uint256Max < value digits * 10 ^ d + value (frac.rightpad d '0') then none
      else some (value digits * 10 ^ d + value (frac.rightpad d '0')) := by
  have hf := fraction_of_digits hfrac
  rw [append_fraction, parseTokenAmount_number hw hf (trim_number hw hf), if_neg (by omega)]

private theorem length_fracFull (hd : 0 < d) (hn : n < 10 ^ d) : ((Nat.toDigits 10 n).leftpad d '0').length = d := by
  have hle := (Nat.length_toDigits_le_iff (b := 10) (by decide) hd).2 hn
  rw [length_leftpad]
  omega

private theorem value_strip_fracFull (hn : n < 10 ^ d) : (strip ((Nat.toDigits 10 n).leftpad d '0')).length ≤ d ∧
      value ((strip ((Nat.toDigits 10 n).leftpad d '0')).rightpad d '0') = n := by
  rcases Nat.eq_zero_or_pos d with rfl | hd
  · obtain rfl : n = 0 := by simpa using hn
    exact ⟨by decide, by decide⟩
  have hlen := length_fracFull hd hn
  refine ⟨(length_strip_le _).trans hlen.le, ?_⟩
  rw [rightpad_strip hlen.le, rightpad_of_le hlen.ge, value_leftpad, value_toDigits]

private theorem bigintText_natCast (n : Nat) : bigintText n = Nat.toDigits 10 n := by
  simp [bigintText]

private theorem parseTokenAmount_formatInputAmount {x : Nat} (hpos : 0 < x) (hmax : x ≤ uint256Max) (d : Nat) :
    parseTokenAmount (formatInputAmount x d) d = some x := by
  have hscale : (10 : Int) ^ d = ((10 ^ d : Nat) : Int) := by push_cast; rfl
  have hfrac : IsDigits (strip ((Nat.toDigits 10 (x % 10 ^ d)).leftpad d '0')) :=
    ((isDigits_toDigits _).leftpad d).strip
  have hwhole : Whole (Nat.toDigits 10 (x / 10 ^ d)) (Nat.toDigits 10 (x / 10 ^ d)) :=
    .inl ⟨rfl, Nat.toDigits_ne_nil, isDigits_toDigits _⟩
  obtain ⟨hlen, hvalue⟩ := value_strip_fracFull (Nat.mod_lt x (y := 10 ^ d) (by positivity))
  have hsum : x / 10 ^ d * 10 ^ d + x % 10 ^ d = x := Nat.div_add_mod' x (10 ^ d)
  rw [formatInputAmount]
  simp only [hscale, ← Int.ofNat_tmod, ← Int.ofNat_tdiv, bigintText_natCast]
  rw [parseTokenAmount_written hwhole hfrac hlen, hvalue, value_toDigits, hsum, if_neg (by omega)]

private theorem zeros_rmatch_iff (l : List Char) : (RegularExpression.char '0').star.rmatch l ↔ ∀ ch ∈ l, ch = '0' := by
  rw [star_rmatch_iff]
  constructor
  · rintro ⟨S, rfl, hS⟩ ch hch
    obtain ⟨t, ht, hmem⟩ := mem_flatten.1 hch
    rw [(char_rmatch_iff '0' t).1 (hS t ht).2] at hmem
    exact mem_singleton.1 hmem
  · intro h
    refine ⟨l.map ([·]), ?_, ?_⟩
    · rw [← flatMap_def, flatMap_singleton']
    · intro t ht
      obtain ⟨ch, hch, rfl⟩ := mem_map.1 ht
      rw [h ch hch]
      exact ⟨by simp, rfl⟩

private theorem value_fracCut {d cap n : Nat} (hn : n < 10 ^ d) (hcap : cap ≤ d) :
    value (((Nat.toDigits 10 n).leftpad d '0').take cap |>.rightpad d '0') = n / 10 ^ (d - cap) * 10 ^ (d - cap) := by
  rcases Nat.eq_zero_or_pos d with rfl | hd
  · obtain rfl : n = 0 := by simpa using hn
    obtain rfl : cap = 0 := by omega
    decide
  have hlen := length_fracFull hd hn
  rw [value_rightpad, value_take ((isDigits_toDigits n).leftpad d), value_leftpad, value_toDigits, length_take,
    hlen, min_eq_left hcap]

private theorem roundedDown_eq (x d m : Nat) :
    roundedDown x d m = x / 10 ^ d * 10 ^ d + x % 10 ^ d / 10 ^ (d - min m d) * 10 ^ (d - min m d) := by
  have hpow : 10 ^ d = 10 ^ min m d * 10 ^ (d - min m d) := by
    rw [← pow_add]
    congr 1
    omega
  have hdiv : x / 10 ^ (d - min m d) = x / 10 ^ d * 10 ^ min m d + x % 10 ^ d / 10 ^ (d - min m d) := by
    calc x / 10 ^ (d - min m d)
        = (x % 10 ^ d + x / 10 ^ d * 10 ^ min m d * 10 ^ (d - min m d)) / 10 ^ (d - min m d) := by
          rw [mul_assoc, ← hpow, Nat.mod_add_div']
      _ = x / 10 ^ d * 10 ^ min m d + x % 10 ^ d / 10 ^ (d - min m d) := by
          rw [Nat.add_mul_div_right _ _ (by positivity), add_comm]
  rw [roundedDown, hdiv, add_mul, mul_assoc, ← hpow]

/-- The display of an amount, unless it says that the amount is too small for the digits shown, is read as the amount
rounded down to them. -/
theorem parseTokenAmount_bigintToDecimalString {x : Nat} (hpos : 0 < x) (d m minFrac : Nat)
    (h : (bigintToDecimalString x d m minFrac).head? ≠ some '<') :
    parseTokenAmount (bigintToDecimalString x d m minFrac) d =
      if roundedDown x d m ≤ uint256Max then some (roundedDown x d m) else none := by
  have hcap : min m d ≤ d := min_le_right m d
  have hfloor : min minFrac (min m d) ≤ min m d := min_le_right _ _
  have hmod : x % 10 ^ d < 10 ^ d := Nat.mod_lt x (by positivity)
  have hround := roundedDown_eq x d m
  have hcut := value_fracCut hmod hcap
  have hneg : ¬ ((x : Int) < 0) := by omega
  simp only [bigintToDecimalString, hneg, if_false, Int.natAbs_natCast] at h ⊢
  generalize hc : ((Nat.toDigits 10 (x % 10 ^ d)).leftpad d '0').take (min m d) = cut at h hcut ⊢
  have hdigits : IsDigits cut := by
    rw [← hc]
    exact ((isDigits_toDigits _).leftpad d).of_subset (take_subset _ _)
  have hlen : cut.length ≤ min m d := by
    rw [← hc]
    exact length_take_le _ _
  split at h
  · exact absurd rfl h
  rename_i htiny
  rw [if_neg htiny]
  -- Cutting, stripping and filling up leave the same digits before the last zeros.
  have hshown : ∀ frac, frac = (if (strip cut).length < min minFrac (min m d) then
      (strip cut).rightpad (min minFrac (min m d)) '0' else strip cut) →
      IsDigits frac ∧ frac.length ≤ d ∧ frac.rightpad d '0' = cut.rightpad d '0' := by
    rintro frac rfl
    have hstrip := length_strip_le cut
    split
    · refine ⟨hdigits.strip.rightpad _, ?_, ?_⟩
      · rw [length_rightpad]
        omega
      · rw [rightpad_rightpad (by omega), rightpad_strip (by omega)]
    · exact ⟨hdigits.strip, by omega, rightpad_strip (by omega)⟩
  obtain ⟨hfrac, hfraclen, hpad⟩ := hshown _ rfl
  have hwhole : Whole (grouped (Nat.toDigits 10 (x / 10 ^ d))) (Nat.toDigits 10 (x / 10 ^ d)) :=
    whole_grouped (isDigits_toDigits _) Nat.toDigits_ne_nil
  rw [parseTokenAmount_written hwhole hfrac hfraclen, hpad, hcut, value_toDigits, ← hround]
  -- A display without the sign of a tiny amount has a digit that is not zero.
  have hne : roundedDown x d m ≠ 0 := by
    intro hzero
    apply htiny
    have hw : x / 10 ^ d * 10 ^ d = 0 := by omega
    have hv : value (cut.rightpad d '0') = 0 := by omega
    refine ⟨by omega, ?_, (zeros_rmatch_iff cut).2 ?_⟩
    · rcases Nat.mul_eq_zero.1 hw with hw | hw
      · exact hw
      · exact absurd hw (by positivity)
    · exact fun ch hch => eq_zeros_of_value_eq_zero (hdigits.rightpad d) hv ch (mem_append_left _ hch)
  by_cases hmax : roundedDown x d m ≤ uint256Max
  · rw [if_neg (by omega), if_pos hmax]
  · rw [if_pos (by omega), if_neg hmax]

/-- Written amounts are read back, what is read are the numbers that denote an amount, and a display is read as an
amount not above the one displayed, where that fits a word. -/
theorem amounts_exact (d : Nat) :
    (∀ x : Nat, 0 < x → x ≤ uint256Max → parseTokenAmount (formatInputAmount x d) d = some x) ∧
      (∀ input v, parseTokenAmount input d = some v ↔ Denotes d (trim input) v ∧ 0 < v ∧ v ≤ uint256Max) ∧
      ∀ x m minFrac : Nat, 0 < x → (bigintToDecimalString x d m minFrac).head? ≠ some '<' →
        parseTokenAmount (bigintToDecimalString x d m minFrac) d =
            (if roundedDown x d m ≤ uint256Max then some (roundedDown x d m) else none) ∧
          roundedDown x d m ≤ x := by
  refine ⟨?_, ?_, ?_⟩
  · intro x hpos hmax
    exact parseTokenAmount_formatInputAmount hpos hmax d
  · intro input v
    exact parseTokenAmount_eq_some_iff input d v
  · intro x m minFrac hpos h
    exact ⟨parseTokenAmount_bigintToDecimalString hpos d m minFrac h, roundedDown_le x d m⟩

example : parseTokenAmount " 1,000.25 ".toList 6 = some 1000250000 := by decide +kernel

example : bigintToDecimalString 1234567890 6 6 2 = "1,234.56789".toList := by decide +kernel

/-- A display above the largest word is not read back. -/
theorem not_read_of_too_large :
    ¬ ∀ x d m minFrac : Nat, 0 < x → (bigintToDecimalString x d m minFrac).head? ≠ some '<' →
      parseTokenAmount (bigintToDecimalString x d m minFrac) d = some (roundedDown x d m) := by
  intro h
  have hpos : 0 < 2 ^ 256 := by positivity
  have hhead : (bigintToDecimalString (2 ^ 256) 0 0 2).head? ≠ some '<' := by decide +kernel
  have hread := h (2 ^ 256) 0 0 2 hpos hhead
  rw [parseTokenAmount_bigintToDecimalString hpos 0 0 2 hhead, if_neg (by decide)] at hread
  cases hread

end RobotMoney.Client
