import Mathlib.Computability.RegularExpressions
import Mathlib.Data.List.DropRight
import Mathlib.Tactic.Ring
import Mathlib.Tactic.IntervalCases
import Mathlib.Tactic.FinCases
import Mathlib.Tactic.Positivity

/-!
# Decimal text

Runs of digits and their value: digits cut off from the end divide the value (`value_take`), and a run filled up with
zeros has one value however many of its trailing zeros were stripped (`rightpad_strip`).  Numbers with a comma between
each three digits: what `grouped` writes is well grouped (`whole_grouped`).  The patterns `digits` and `groups` match
just such runs (`digits_rmatch_iff`, `groups_rmatch_iff`).
-/

namespace DecimalText

open List

def value (l : List Char) : Nat := Nat.ofDigitChars 10 l 0

def IsDigits (l : List Char) : Prop := ∀ ch ∈ l, ch.isDigit = true

variable {a b l : List Char} {ch : Char} {n : Nat}

private theorem IsDigits.append (ha : IsDigits a) (hb : IsDigits b) : IsDigits (a ++ b) := by
  intro ch hch
  rcases mem_append.1 hch with hch | hch
  · exact ha ch hch
  · exact hb ch hch

private theorem IsDigits.of_append_left (h : IsDigits (a ++ b)) : IsDigits a :=
  fun ch hch => h ch (mem_append_left b hch)

private theorem IsDigits.of_append_right (h : IsDigits (a ++ b)) : IsDigits b :=
  fun ch hch => h ch (mem_append_right a hch)

theorem IsDigits.of_subset (h : IsDigits a) (hsub : b ⊆ a) : IsDigits b :=
  fun ch hch => h ch (hsub hch)

theorem isDigits_toDigits (n : Nat) : IsDigits (Nat.toDigits 10 n) :=
  fun _ hch => Nat.isDigit_of_mem_toDigits (by decide) (by decide) hch

private theorem isDigits_replicate_zero (n : Nat) : IsDigits (replicate n '0') := by
  intro ch hch
  rw [eq_of_mem_replicate hch]
  rfl

theorem IsDigits.not_mem (h : IsDigits l) (hch : ch.isDigit = false) : ch ∉ l := by
  intro hmem
  rw [h ch hmem] at hch
  exact absurd hch (by decide)

@[simp] theorem value_nil : value [] = 0 := rfl

@[simp] theorem value_toDigits (n : Nat) : value (Nat.toDigits 10 n) = n := Nat.ofDigitChars_ten_toDigits

private theorem value_append (a b : List Char) : value (a ++ b) = value a * 10 ^ b.length + value b := by
  unfold value
  rw [Nat.ofDigitChars_append, Nat.ofDigitChars_eq_ofDigitChars_zero, mul_comm]

@[simp] theorem value_replicate_zero (n : Nat) : value (replicate n '0') = 0 := by
  simp [value, Nat.ofDigitChars_replicate_zero]

private theorem value_lt (h : IsDigits l) : value l < 10 ^ l.length := by
  induction l using reverseRecOn with
  | nil => simp
  | append_singleton l ch ih =>
    have hlast : value [ch] < 10 := by
      have hdigit := h ch (by simp)
      simp only [Char.isDigit, Bool.and_eq_true, decide_eq_true_eq, ge_iff_le] at hdigit
      have hle : ch.toNat ≤ 57 := by
        have := hdigit.2
        exact this
      simp [value, Nat.ofDigitChars_cons]
      omega
    have hinit := ih h.of_append_left
    rw [value_append, length_append, length_singleton, pow_one, pow_succ]
    omega

theorem value_take (h : IsDigits l) (k : Nat) : value (l.take k) = value l / 10 ^ (l.length - k) := by
  have hdrop : value (l.drop k) < 10 ^ (l.drop k).length := value_lt fun ch hch => h ch (drop_subset k l hch)
  have hvalue : value l = value (l.take k) * 10 ^ (l.drop k).length + value (l.drop k) := by
    rw [← value_append, take_append_drop]
  rw [hvalue, ← length_drop, add_comm, Nat.add_mul_div_right _ _ (by positivity), Nat.div_eq_of_lt hdrop,
    zero_add]

theorem eq_zeros_of_value_eq_zero (h : IsDigits l) (hv : value l = 0) : ∀ ch ∈ l, ch = '0' := by
  induction l with
  | nil => simp
  | cons a l ih =>
    have happ : value (a :: l) = value [a] * 10 ^ l.length + value l := value_append [a] l
    have hpos : 0 < 10 ^ l.length := by positivity
    have hmul : value [a] * 10 ^ l.length = 0 := by omega
    have hhead : value [a] = 0 := by
      rcases Nat.mul_eq_zero.1 hmul with h | h
      · exact h
      · omega
    have htail : value l = 0 := by omega
    intro ch hch
    rcases mem_cons.1 hch with rfl | hch
    · have hdigit := h ch (by simp)
      simp only [Char.isDigit, Bool.and_eq_true, decide_eq_true_eq, ge_iff_le] at hdigit
      have hge : 48 ≤ ch.toNat := hdigit.1
      simp [value, Nat.ofDigitChars_cons] at hhead
      apply Char.ext
      apply UInt32.toNat_inj.1
      show ch.toNat = 48
      omega
    · exact ih (fun ch hch => h ch (mem_cons_of_mem a hch)) htail ch hch

@[simp] theorem value_leftpad (n : Nat) (l : List Char) : value (l.leftpad n '0') = value l := by
  rw [leftpad, value_append, value_replicate_zero, zero_mul, zero_add]

theorem IsDigits.leftpad (h : IsDigits l) (n : Nat) : IsDigits (l.leftpad n '0') :=
  (isDigits_replicate_zero _).append h

theorem IsDigits.rightpad (h : IsDigits l) (n : Nat) : IsDigits (l.rightpad n '0') :=
  h.append (isDigits_replicate_zero _)

/-- Zeros on the right multiply by ten. -/
theorem value_rightpad (n : Nat) (l : List Char) : value (l.rightpad n '0') = value l * 10 ^ (n - l.length) := by
  rw [rightpad, value_append, value_replicate_zero, length_replicate, add_zero]

theorem rightpad_rightpad {k n : Nat} (h : k ≤ n) (l : List Char) :
    (l.rightpad k '0').rightpad n '0' = l.rightpad n '0' := by
  simp only [rightpad, append_assoc, length_append, length_replicate, append_cancel_left_eq, replicate_append_replicate]
  congr 1
  omega

theorem rightpad_of_le (h : n ≤ l.length) : l.rightpad n '0' = l := by
  simp [rightpad, Nat.sub_eq_zero_of_le h]

def strip (l : List Char) : List Char := l.rdropWhile (· = '0')

private theorem strip_initial (l : List Char) : strip l <+: l := rdropWhile_prefix _ l

theorem length_strip_le (l : List Char) : (strip l).length ≤ l.length := (strip_initial l).length_le

theorem IsDigits.strip (h : IsDigits l) : IsDigits (strip l) := h.of_subset (strip_initial l).subset

/-- Zeros that were cut off on the right are padded again. -/
theorem rightpad_strip (h : l.length ≤ n) : (strip l).rightpad n '0' = l.rightpad n '0' := by
  induction l using reverseRecOn with
  | nil => rfl
  | append_singleton l ch ih =>
    rw [length_append, length_singleton] at h
    by_cases hch : ch = '0'
    · subst hch
      have hstrip : strip (l ++ ['0']) = strip l := rdropWhile_concat_pos _ _ _ (by simp)
      rw [hstrip, ih (by omega)]
      have hone : n - l.length = n - (l.length + 1) + 1 := by omega
      simp only [rightpad, length_append, length_singleton, append_assoc, hone, replicate_succ, singleton_append]
    have hstrip : strip (l ++ [ch]) = l ++ [ch] := rdropWhile_concat_neg _ _ _ (by simpa using hch)
    rw [hstrip]

def groupReversed : List Char → List Char
  | a :: b :: g :: d :: rest => a :: b :: g :: ',' :: groupReversed (d :: rest)
  | short => short

/-- `toLocaleString("en-US")` of an integer, from its digits. -/
def grouped (digits : List Char) : List Char := (groupReversed digits.reverse).reverse

/-- A head of one to three digits and groups of three digits, each after a comma. -/
structure Groups (text digits : List Char) (head : List Char) (groups : List (List Char)) : Prop where
  text_eq : text = head ++ groups.flatMap (',' :: ·)
  digits_eq : digits = head ++ groups.flatten
  isDigits : IsDigits digits
  head_pos : 1 ≤ head.length
  head_le : head.length ≤ 3
  three : ∀ g ∈ groups, g.length = 3

def Whole (text digits : List Char) : Prop :=
  (text = digits ∧ digits ≠ [] ∧ IsDigits digits) ∨ ∃ head groups, groups ≠ [] ∧ Groups text digits head groups

theorem Whole.isDigits {text digits : List Char} (h : Whole text digits) : IsDigits digits := by
  rcases h with ⟨-, -, h⟩ | ⟨_, _, -, h⟩
  · exact h
  · exact h.isDigits

theorem Whole.ne_nil {text digits : List Char} (h : Whole text digits) : digits ≠ [] := by
  rcases h with ⟨-, h, -⟩ | ⟨_, _, -, h⟩
  · exact h
  intro hnil
  have hlen := congrArg length (h.digits_eq.symm.trans hnil)
  have := h.head_pos
  rw [length_append, length_nil] at hlen
  omega

theorem Whole.mem {text digits : List Char} (h : Whole text digits) (hch : ch ∈ text) :
    ch.isDigit = true ∨ ch = ',' := by
  rcases h with ⟨rfl, -, hdigits⟩ | ⟨head, gs, -, hg⟩
  · exact .inl (hdigits ch hch)
  have hdigits := hg.isDigits
  rw [hg.digits_eq] at hdigits
  rw [hg.text_eq] at hch
  rcases mem_append.1 hch with hch | hch
  · exact .inl (hdigits.of_append_left ch hch)
  obtain ⟨g, hmem, hch⟩ := mem_flatMap.1 hch
  rcases mem_cons.1 hch with rfl | hch
  · exact .inr rfl
  · exact .inl (hdigits.of_append_right ch (mem_flatten.2 ⟨g, hmem, hch⟩))

private theorem groups_groupReversed (l : List Char) (h : IsDigits l) (hl : l ≠ []) :
    ∃ head groups, Groups (groupReversed l).reverse l.reverse head groups := by
  induction l using groupReversed.induct with
  | case1 a b g d rest ih =>
    have hrest : IsDigits (d :: rest) := h.of_subset fun ch hch => by simp at hch ⊢; tauto
    obtain ⟨head, groups, hg⟩ := ih hrest (by simp)
    refine ⟨head, groups ++ [[g, b, a]], ?_, ?_, ?_, hg.head_pos, hg.head_le, ?_⟩
    · rw [groupReversed]
      simp only [reverse_cons, flatMap_append, flatMap_cons, flatMap_nil]
      simp [hg.text_eq]
    · have hdigits := hg.digits_eq
      simp only [reverse_cons] at hdigits
      simp [hdigits]
    · exact h.of_subset (reverse_subset.2 fun _ => id)
    · intro t ht
      rcases mem_append.1 ht with ht | ht
      · exact hg.three t ht
      rw [mem_singleton.1 ht]
      rfl
  | case2 short hshort =>
    have hlen : short.length ≤ 3 := by
      by_contra hlt
      obtain ⟨a, b, g, d, rest, rfl⟩ : ∃ a b g d rest, short = a :: b :: g :: d :: rest := by
        rcases short with _ | ⟨a, _ | ⟨b, _ | ⟨g, _ | ⟨d, rest⟩⟩⟩⟩ <;> simp at hlt ⊢
      exact hshort a b g d rest rfl
    have hself : groupReversed short = short := by
      rw [groupReversed]
      exact hshort
    refine ⟨short.reverse, [], ?_, ?_, ?_, ?_, ?_, ?_⟩
    · simp [hself]
    · simp
    · exact h.of_subset (reverse_subset.2 fun _ => id)
    · rw [length_reverse]
      exact length_pos_iff.2 hl
    · rwa [length_reverse]
    · simp

/-- A whole number written in groups of three is one that the pattern takes. -/
theorem whole_grouped (h : IsDigits l) (hl : l ≠ []) : Whole (grouped l) l := by
  obtain ⟨head, groups, hg⟩ := groups_groupReversed l.reverse (h.of_subset (reverse_subset.2 fun _ => id))
    (by simpa using hl)
  rw [reverse_reverse] at hg
  rcases groups with _ | ⟨g, groups⟩
  · left
    have htext := hg.text_eq
    have hdigits := hg.digits_eq
    simp only [flatMap_nil, flatten_nil, append_nil] at htext hdigits
    exact ⟨htext.trans hdigits.symm, hl, h⟩
  · exact .inr ⟨head, g :: groups, by simp, hg⟩

theorem Groups.filter_comma {text digits head : List Char} {groups : List (List Char)}
    (h : Groups text digits head groups) :
    text.filter (· ≠ ',') = digits := by
  have hfilter : ∀ l : List Char, IsDigits l → l.filter (· ≠ ',') = l := by
    intro l hl
    rw [filter_eq_self]
    intro ch hch
    simp only [ne_eq, decide_not, Bool.not_eq_eq_eq_not, Bool.not_true, decide_eq_false_iff_not]
    rintro rfl
    exact hl.not_mem rfl hch
  have hdigits := h.isDigits
  rw [h.digits_eq] at hdigits
  rw [h.text_eq, h.digits_eq, filter_append, hfilter head hdigits.of_append_left]
  congr 1
  have hgroups := hdigits.of_append_right
  clear hdigits h
  induction groups with
  | nil => rfl
  | cons g groups ih =>
    rw [flatten_cons] at hgroups
    rw [flatMap_cons, flatten_cons, filter_append, filter_cons_of_neg (by simp),
      hfilter g hgroups.of_append_left, ih hgroups.of_append_right]

open RegularExpression

def oneOf (l : List Char) : RegularExpression Char := l.foldr (fun a P => char a + P) 0

/-- `\d`. -/
def digit : RegularExpression Char := oneOf ['0', '1', '2', '3', '4', '5', '6', '7', '8', '9']

/-- `P+`. -/
def many (P : RegularExpression Char) : RegularExpression Char := P * P.star

/-- `P?`. -/
def optional (P : RegularExpression Char) : RegularExpression Char := P + 1

/-- `\d+`. -/
def digits : RegularExpression Char := many digit

/-- `\d{1,3}(,\d{3})+`. -/
def groups : RegularExpression Char :=
  digit * optional digit * optional digit * many (char ',' * (digit * digit * digit))

/-- `(\.\d+)?`. -/
def fraction : RegularExpression Char := optional (char '.' * digits)

private theorem oneOf_rmatch_iff (l x : List Char) : (oneOf l).rmatch x ↔ ∃ a ∈ l, x = [a] := by
  induction l with
  | nil => simp [oneOf, zero_rmatch]
  | cons a l ih =>
    have hcons : oneOf (a :: l) = char a + oneOf l := rfl
    rw [hcons, add_rmatch_iff, char_rmatch_iff, ih]
    simp

theorem isDigit_iff (ch : Char) : ch.isDigit = true ↔ ch ∈ ['0', '1', '2', '3', '4', '5', '6', '7', '8', '9'] := by
  constructor
  · intro h
    simp only [Char.isDigit, Bool.and_eq_true, decide_eq_true_eq, ge_iff_le] at h
    have hge : 48 ≤ ch.toNat := h.1
    have hle : ch.toNat ≤ 57 := h.2
    rw [← Char.ofNat_toNat ch]
    generalize ch.toNat = n at hge hle
    interval_cases n <;> decide
  · intro h
    fin_cases h <;> rfl

private theorem digit_rmatch_iff (x : List Char) : digit.rmatch x ↔ ∃ ch : Char, ch.isDigit = true ∧ x = [ch] := by
  rw [digit, oneOf_rmatch_iff]
  exact exists_congr fun ch => and_congr_left fun _ => (isDigit_iff ch).symm

private theorem many_rmatch_iff {P : RegularExpression Char} (h : P.rmatch [] = false) (x : List Char) :
    (many P).rmatch x ↔ ∃ S : List (List Char), S ≠ [] ∧ x = S.flatten ∧ ∀ t ∈ S, P.rmatch t := by
  rw [many, mul_rmatch_iff]
  constructor
  · rintro ⟨t, u, rfl, ht, hu⟩
    obtain ⟨S, rfl, hS⟩ := (star_rmatch_iff P u).1 hu
    refine ⟨t :: S, by simp, rfl, ?_⟩
    intro s hs
    rcases mem_cons.1 hs with rfl | hs
    · exact ht
    · exact (hS s hs).2
  · rintro ⟨S, hne, rfl, hS⟩
    obtain ⟨t, S, rfl⟩ := exists_cons_of_ne_nil hne
    refine ⟨t, S.flatten, rfl, hS t (by simp), (star_rmatch_iff P _).2 ⟨S, rfl, ?_⟩⟩
    intro s hs
    have hmatch := hS s (by simp [hs])
    refine ⟨?_, hmatch⟩
    rintro rfl
    rw [h] at hmatch
    exact absurd hmatch (by decide)

private theorem optional_rmatch_iff (P : RegularExpression Char) (x : List Char) :
    (optional P).rmatch x ↔ P.rmatch x ∨ x = [] := by
  rw [optional, add_rmatch_iff, one_rmatch_iff]

theorem digits_rmatch_iff (x : List Char) : digits.rmatch x ↔ x ≠ [] ∧ IsDigits x := by
  rw [digits, many_rmatch_iff rfl]
  constructor
  · rintro ⟨S, hne, rfl, hS⟩
    have hone : ∀ t ∈ S, ∃ ch : Char, ch.isDigit = true ∧ t = [ch] := fun t ht => (digit_rmatch_iff t).1 (hS t ht)
    constructor
    · obtain ⟨t, S, rfl⟩ := exists_cons_of_ne_nil hne
      obtain ⟨ch, -, rfl⟩ := hone t (by simp)
      simp
    · intro ch hch
      obtain ⟨t, ht, hmem⟩ := mem_flatten.1 hch
      obtain ⟨ch', hdigit, rfl⟩ := hone t ht
      rw [mem_singleton.1 hmem]
      exact hdigit
  · rintro ⟨hne, hdigits⟩
    refine ⟨x.map ([·]), by simpa using hne, ?_, ?_⟩
    · rw [← flatMap_def, flatMap_singleton']
    · intro t ht
      obtain ⟨ch, hch, rfl⟩ := mem_map.1 ht
      exact (digit_rmatch_iff _).2 ⟨ch, hdigits ch hch, rfl⟩

theorem digit_digit_digit_iff (x : List Char) : (digit * digit * digit).rmatch x ↔ x.length = 3 ∧ IsDigits x := by
  simp only [mul_rmatch_iff, digit_rmatch_iff]
  constructor
  · rintro ⟨_, _, rfl, ⟨_, _, rfl, ⟨a, ha, rfl⟩, b, hb, rfl⟩, e, he, rfl⟩
    refine ⟨rfl, ?_⟩
    intro ch hch
    simp only [cons_append, nil_append, mem_cons, not_mem_nil, or_false] at hch
    rcases hch with rfl | rfl | rfl
    · exact ha
    · exact hb
    · exact he
  · rintro ⟨hlen, hdigits⟩
    obtain ⟨a, b, e, rfl⟩ := length_eq_three.1 hlen
    exact ⟨[a, b], [e], rfl, ⟨[a], [b], rfl, ⟨a, hdigits a (by simp), rfl⟩, b, hdigits b (by simp), rfl⟩, e,
      hdigits e (by simp), rfl⟩

private theorem head_rmatch_iff (x : List Char) :
    (digit * optional digit * optional digit).rmatch x ↔ 1 ≤ x.length ∧ x.length ≤ 3 ∧ IsDigits x := by
  simp only [mul_rmatch_iff, optional_rmatch_iff, digit_rmatch_iff]
  constructor
  · rintro ⟨_, _, rfl, ⟨_, _, rfl, ⟨a, ha, rfl⟩, hb⟩, he⟩
    have hsmall : ∀ t : List Char, (∃ ch : Char, ch.isDigit = true ∧ t = [ch]) ∨ t = [] →
        t.length ≤ 1 ∧ IsDigits t := by
      rintro t (⟨ch, hch, rfl⟩ | rfl)
      · exact ⟨le_rfl, by simpa [IsDigits] using hch⟩
      · exact ⟨by simp, by simp [IsDigits]⟩
    obtain ⟨hblen, hbdigits⟩ := hsmall _ hb
    obtain ⟨helen, hedigits⟩ := hsmall _ he
    have hadigits : IsDigits [a] := by simpa [IsDigits] using ha
    simp only [length_append, length_singleton]
    exact ⟨by omega, by omega, (hadigits.append hbdigits).append hedigits⟩
  · rintro ⟨hpos, hle, hdigits⟩
    rcases x with _ | ⟨a, _ | ⟨b, _ | ⟨e, _ | ⟨f, rest⟩⟩⟩⟩
    · simp at hpos
    · exact ⟨[a], [], rfl, ⟨[a], [], rfl, ⟨a, hdigits a (by simp), rfl⟩, .inr rfl⟩, .inr rfl⟩
    · exact ⟨[a, b], [], rfl, ⟨[a], [b], rfl, ⟨a, hdigits a (by simp), rfl⟩,
        .inl ⟨b, hdigits b (by simp), rfl⟩⟩, .inr rfl⟩
    · exact ⟨[a, b], [e], rfl, ⟨[a], [b], rfl, ⟨a, hdigits a (by simp), rfl⟩,
        .inl ⟨b, hdigits b (by simp), rfl⟩⟩, .inl ⟨e, hdigits e (by simp), rfl⟩⟩
    simp only [length_cons] at hle
    omega

private theorem comma_group_iff (x : List Char) :
    (char ',' * (digit * digit * digit)).rmatch x ↔ ∃ g : List Char, g.length = 3 ∧ IsDigits g ∧ x = ',' :: g := by
  rw [mul_rmatch_iff]
  constructor
  · rintro ⟨t, u, rfl, ht, hu⟩
    obtain ⟨hlen, hdigits⟩ := (digit_digit_digit_iff u).1 hu
    rw [(char_rmatch_iff ',' t).1 ht]
    exact ⟨u, hlen, hdigits, rfl⟩
  · rintro ⟨g, hlen, hdigits, rfl⟩
    exact ⟨[','], g, rfl, (char_rmatch_iff ',' _).2 rfl, (digit_digit_digit_iff g).2 ⟨hlen, hdigits⟩⟩

/-- The regular expression matches exactly the grouped texts. -/
theorem groups_rmatch_iff (x : List Char) : groups.rmatch x ↔ ∃ digits head gs, gs ≠ [] ∧ Groups x digits head gs := by
  rw [groups, mul_rmatch_iff]
  constructor
  · rintro ⟨head, u, rfl, hhead, hu⟩
    obtain ⟨hpos, hle, hdigits⟩ := (head_rmatch_iff head).1 hhead
    obtain ⟨S, hne, rfl, hS⟩ := (many_rmatch_iff rfl u).1 hu
    have hgroups : ∃ gs : List (List Char), S = gs.map (',' :: ·) ∧ ∀ g ∈ gs, g.length = 3 ∧ IsDigits g := by
      clear hu hne
      induction S with
      | nil => exact ⟨[], rfl, by simp⟩
      | cons t S ih =>
        obtain ⟨gs, rfl, hgs⟩ := ih fun s hs => hS s (mem_cons_of_mem t hs)
        obtain ⟨g, hlen, hg, rfl⟩ := (comma_group_iff t).1 (hS t (by simp))
        refine ⟨g :: gs, rfl, ?_⟩
        intro g' hg'
        rcases mem_cons.1 hg' with rfl | hg'
        · exact ⟨hlen, hg⟩
        · exact hgs g' hg'
    obtain ⟨gs, rfl, hgs⟩ := hgroups
    refine ⟨head ++ gs.flatten, head, gs, by simpa using hne, ⟨?_, rfl, ?_, hpos, hle, fun g hg => (hgs g hg).1⟩⟩
    · rw [flatMap_def]
    · refine hdigits.append ?_
      intro ch hch
      obtain ⟨g, hg, hmem⟩ := mem_flatten.1 hch
      exact (hgs g hg).2 ch hmem
  · rintro ⟨_, head, gs, hne, hg⟩
    have hdigits := hg.isDigits
    rw [hg.digits_eq] at hdigits
    refine ⟨head, gs.flatMap (',' :: ·), hg.text_eq,
      (head_rmatch_iff head).2 ⟨hg.head_pos, hg.head_le, hdigits.of_append_left⟩, ?_⟩
    refine (many_rmatch_iff rfl _).2 ⟨gs.map (',' :: ·), by simpa using hne, flatMap_def .., ?_⟩
    intro t ht
    obtain ⟨g, hmem, rfl⟩ := mem_map.1 ht
    refine (comma_group_iff _).2 ⟨g, hg.three g hmem, ?_, rfl⟩
    exact hdigits.of_append_right.of_subset fun ch hch => mem_flatten.2 ⟨g, hmem, hch⟩

def Fraction (tail frac : List Char) : Prop :=
  (tail = [] ∧ frac = []) ∨ (tail = '.' :: frac ∧ frac ≠ [] ∧ IsDigits frac)

theorem Fraction.mem {tail frac : List Char} (h : Fraction tail frac) (hch : ch ∈ tail) :
    ch.isDigit = true ∨ ch = '.' := by
  rcases h with ⟨rfl, -⟩ | ⟨rfl, -, hdigits⟩
  · cases hch
  rcases mem_cons.1 hch with rfl | hch
  · exact .inr rfl
  · exact .inl (hdigits ch hch)

theorem fraction_rmatch_iff (x : List Char) : fraction.rmatch x ↔ ∃ frac, Fraction x frac := by
  rw [fraction, optional_rmatch_iff, mul_rmatch_iff]
  constructor
  · rintro (⟨t, u, rfl, ht, hu⟩ | rfl)
    · obtain ⟨hne, hdigits⟩ := (digits_rmatch_iff u).1 hu
      rw [(char_rmatch_iff '.' t).1 ht]
      exact ⟨u, .inr ⟨rfl, hne, hdigits⟩⟩
    · exact ⟨[], .inl ⟨rfl, rfl⟩⟩
  · rintro ⟨frac, ⟨rfl, -⟩ | ⟨rfl, hne, hdigits⟩⟩
    · exact .inr rfl
    · exact .inl ⟨['.'], frac, rfl, (char_rmatch_iff '.' _).2 rfl, (digits_rmatch_iff frac).2 ⟨hne, hdigits⟩⟩

end DecimalText
