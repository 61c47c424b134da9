import RobotMoney.Text.Decimal

/-!
# Searching a text

Words in a text, in any case, and the numbers beside them.
-/

namespace TextSearch

/-- White space and line ends, as `trim` and `\s` take them. -/
def whiteSpace : List Char :=
  ['\t', '\n', '\u000b', '\u000c', '\r', ' ', '\u00a0', '\u1680', '\u2000', '\u2001', '\u2002', '\u2003', '\u2004',
    '\u2005', '\u2006', '\u2007', '\u2008', '\u2009', '\u200a', '\u2028', '\u2029', '\u202f', '\u205f', '\u3000',
    '\ufeff']

def lower (text : List Char) : List Char := text.map Char.toLower

private theorem toLower_toLower (ch : Char) : ch.toLower.toLower = ch.toLower := by
  by_cases h : ch.val ≥ 'A'.val ∧ ch.val ≤ 'Z'.val
  · have hval : ch.toLower.val = ch.val + ('a'.val - 'A'.val) := by
      unfold Char.toLower
      rw [dif_pos h]
    have hno : ¬ (ch.toLower.val ≥ 'A'.val ∧ ch.toLower.val ≤ 'Z'.val) := by
      rw [hval]
      obtain ⟨hge, hle⟩ := h
      rw [ge_iff_le, UInt32.le_iff_toNat_le] at hge
      rw [UInt32.le_iff_toNat_le] at hle
      rintro ⟨-, hz⟩
      rw [UInt32.le_iff_toNat_le, UInt32.toNat_add] at hz
      have h1 : ('A'.val).toNat = 65 := rfl
      have h2 : ('Z'.val).toNat = 90 := rfl
      have h3 : ('a'.val - 'A'.val).toNat = 32 := rfl
      omega
    generalize ch.toLower = low at hno
    unfold Char.toLower
    rw [dif_neg hno]
  have hsame : ch.toLower = ch := by
    unfold Char.toLower
    rw [dif_neg h]
  rw [hsame, hsame]

theorem lower_lower (text : List Char) : lower (lower text) = lower text := by
  rw [lower, lower, List.map_map]
  exact List.map_congr_left fun ch _ => toLower_toLower ch

def hasWord (word text : List Char) : Bool := (lower text).tails.any fun rest => word.isPrefixOf rest

def after? (word : List Char) (space : Bool) (text : List Char) : Option (List Char) :=
  if word.isPrefixOf text then
    let rest := text.drop word.length
    some (if space then rest.dropWhile (whiteSpace.contains ·) else rest)
  else none

def numberThen? (word text : List Char) : Option Nat :=
  let digits := text.takeWhile (·.isDigit)
  if digits ≠ [] ∧ word.isPrefixOf (text.dropWhile (·.isDigit)) then some (DecimalText.value digits) else none

/-- The first number between the two words, given in lower case; with `space` white space may stand before it. -/
def numberBetween (before : List Char) (space : Bool) (behind text : List Char) : Option Nat :=
  (lower text).tails.findSome? fun rest => (after? before space rest).bind (numberThen? behind)

end TextSearch
