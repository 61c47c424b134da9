import Mathlib.Data.Nat.Digits.Lemmas

/-!
# Recursive length prefix encoding

Byte strings and lists with a length prefix, as nodes read them: the shortest form of every length, a byte below 128 as
itself, and numbers without leading zero bytes.

* An item is read back from its encoding, whatever follows it (`readItem_encodeItem`).
* Nothing else is read as that item (`encodeItem_of_readItem`), and no two scalars have one value (`scalar_inj`).
-/

namespace Rlp

open List Option

/-- The lowest `width` bytes of a number, the highest one first. -/
def bigEndian : Nat → Nat → List UInt8
  | 0, _ => []
  | width + 1, n => UInt8.ofNat (n / 256 ^ width) :: bigEndian width n

def value (bs : List UInt8) : Nat := bs.foldl (fun n b => 256 * n + b.toNat) 0

/-- The bytes of a number of at most `width` bytes, without leading zero bytes. -/
def minimal (width n : Nat) : List UInt8 := (bigEndian width n).dropWhile (· == 0)

def scalar (bs : List UInt8) : Option Nat := if bs.head? = some 0 then none else some (value bs)

@[simp] theorem length_bigEndian (width n : Nat) : (bigEndian width n).length = width := by
  induction width with
  | zero => rfl
  | succ width ih => simp [bigEndian, ih]

private theorem foldl_value (n : Nat) (bs : List UInt8) :
    bs.foldl (fun n b => 256 * n + b.toNat) n = n * 256 ^ bs.length + value bs := by
  induction bs generalizing n with
  | nil => simp [value]
  | cons b bs ih =>
    unfold value
    simp only [foldl_cons, length_cons]
    rw [ih, ih (256 * 0 + b.toNat)]
    ring

private theorem value_cons (b : UInt8) (bs : List UInt8) : value (b :: bs) = b.toNat * 256 ^ bs.length + value bs := by
  have h := foldl_value b.toNat bs
  have hstart : 256 * 0 + b.toNat = b.toNat := by omega
  rw [value, foldl_cons, hstart, h]

theorem value_bigEndian (width n : Nat) : value (bigEndian width n) = n % 256 ^ width := by
  induction width with
  | zero => simp [bigEndian, value, Nat.mod_one]
  | succ width ih =>
    have hsplit : n % 256 ^ (width + 1) = n % 256 ^ width + 256 ^ width * (n / 256 ^ width % 256) := by
      rw [Nat.pow_succ]
      exact Nat.mod_mul
    rw [bigEndian, value_cons, ih, length_bigEndian, UInt8.toNat_ofNat', hsplit, Nat.add_comm, Nat.mul_comm]

private theorem value_eq_ofDigits (bs : List UInt8) : value bs = Nat.ofDigits 256 (bs.map UInt8.toNat).reverse := by
  induction bs with
  | nil => rfl
  | cons b bs ih =>
    rw [value_cons, ih, map_cons, reverse_cons, Nat.ofDigits_append, Nat.ofDigits_singleton, length_reverse, length_map]
    ring

private theorem value_lt (bs : List UInt8) : value bs < 256 ^ bs.length := by
  rw [value_eq_ofDigits]
  have h := Nat.ofDigits_lt_base_pow_length (b := 256) (l := (bs.map UInt8.toNat).reverse) (by decide) (by
    intro x hx
    obtain ⟨b, -, rfl⟩ := mem_map.1 (mem_reverse.1 hx)
    exact b.toNat_lt)
  rwa [length_reverse, length_map] at h

variable {xs ys : List UInt8}

private theorem value_inj (hx : xs.head? ≠ some 0) (hy : ys.head? ≠ some 0) (h : value xs = value ys) : xs = ys := by
  have hdigits : ∀ {bs : List UInt8}, bs.head? ≠ some 0 →
      Nat.digits 256 (value bs) = (bs.map UInt8.toNat).reverse := by
    intro bs hbs
    rw [value_eq_ofDigits]
    refine Nat.digits_ofDigits 256 (by decide) _ ?_ ?_
    · intro x hx
      obtain ⟨b, -, rfl⟩ := mem_map.1 (mem_reverse.1 hx)
      exact b.toNat_lt
    · intro hne
      cases bs with
      | nil => exact absurd rfl hne
      | cons b bs =>
        simp only [map_cons, reverse_cons, getLast_append_singleton]
        intro hzero
        exact hbs (congrArg some (UInt8.toNat_inj.1 hzero))
  have heq := (hdigits hx).symm.trans ((congrArg _ h).trans (hdigits hy))
  exact map_injective_iff.2 (fun _ _ => UInt8.toNat_inj.1) (reverse_injective heq)

theorem value_inj_of_length (hlength : xs.length = ys.length) (h : value xs = value ys) : xs = ys := by
  have hdigit : ∀ (bs : List UInt8), ∀ x ∈ (bs.map UInt8.toNat).reverse, x < 256 := by
    intro bs x hx
    obtain ⟨b, -, rfl⟩ := mem_map.1 (mem_reverse.1 hx)
    exact b.toNat_lt
  rw [value_eq_ofDigits, value_eq_ofDigits] at h
  have heq := Nat.ofDigits_inj_of_len_eq (b := 256) (by decide) (by simpa using hlength) (hdigit xs) (hdigit ys) h
  exact map_injective_iff.2 (fun _ _ => UInt8.toNat_inj.1) (reverse_injective heq)

theorem value_dropWhile (bs : List UInt8) : value (bs.dropWhile (· == 0)) = value bs := by
  induction bs with
  | nil => rfl
  | cons b bs ih =>
    by_cases hb : b = 0
    · subst hb
      rw [dropWhile_cons_of_pos (by rfl), ih, value_cons]
      simp
    · rw [dropWhile_cons_of_neg (by simpa using hb)]

private theorem head?_dropWhile_ne (bs : List UInt8) : (bs.dropWhile (· == 0)).head? ≠ some 0 := by
  induction bs with
  | nil => simp
  | cons b bs ih =>
    by_cases hb : b = 0
    · rwa [dropWhile_cons_of_pos (by simpa using hb)]
    rw [dropWhile_cons_of_neg (by simpa using hb)]
    simpa using hb

/-- The shortest big-endian text of a number that fits has its value. -/
theorem value_minimal {width n : Nat} (h : n < 256 ^ width) : value (minimal width n) = n := by
  rw [minimal, value_dropWhile, value_bigEndian, Nat.mod_eq_of_lt h]

private theorem head?_minimal_ne (width n : Nat) : (minimal width n).head? ≠ some 0 := head?_dropWhile_ne _

theorem length_minimal_le (width n : Nat) : (minimal width n).length ≤ width :=
  (dropWhile_sublist _).length_le.trans (length_bigEndian width n).le

variable {bs : List UInt8}

private theorem minimal_value {width : Nat} (hhead : bs.head? ≠ some 0) (hlength : bs.length ≤ width) :
    minimal width (value bs) = bs := by
  have hlt : value bs < 256 ^ width := (value_lt bs).trans_le (Nat.pow_le_pow_right (by decide) hlength)
  exact value_inj (head?_minimal_ne _ _) hhead (value_minimal hlt)

@[simp] theorem scalar_minimal {width n : Nat} (h : n < 256 ^ width) : scalar (minimal width n) = some n := by
  rw [scalar, if_neg (head?_minimal_ne _ _), value_minimal h]

variable {n : Nat}

private theorem scalar_eq_some : scalar bs = some n ↔ bs.head? ≠ some 0 ∧ value bs = n := by
  unfold scalar
  split
  · rename_i h
    simp [h]
  rename_i h
  simp [h]

theorem scalar_inj (hx : scalar xs = some n) (hy : scalar ys = some n) : xs = ys := by
  obtain ⟨hx, hvx⟩ := scalar_eq_some.1 hx
  obtain ⟨hy, hvy⟩ := scalar_eq_some.1 hy
  exact value_inj hx hy (hvx.trans hvy.symm)

inductive Kind where
  | string
  | list
  deriving DecidableEq, Repr

def Kind.offset : Kind → Nat
  | .string => 0x80
  | .list => 0xc0

/-- The prefix of an item with `length` bytes of content. -/
def header (k : Kind) (length : Nat) : List UInt8 :=
  if length ≤ 55 then [UInt8.ofNat (k.offset + length)]
  else UInt8.ofNat (k.offset + 55 + (minimal 8 length).length) :: minimal 8 length

def IsByte (k : Kind) (content : List UInt8) : Prop := k = .string ∧ content.length = 1 ∧ value content < 128

instance (k : Kind) (content : List UInt8) : Decidable (IsByte k content) :=
  inferInstanceAs (Decidable (_ ∧ _ ∧ _))

def encodeItem (k : Kind) (content : List UInt8) : List UInt8 :=
  if IsByte k content then content else header k content.length ++ content

/-- The first `length` bytes and the rest. -/
def split (length : Nat) (bs : List UInt8) : Option (List UInt8 × List UInt8) :=
  if bs.length < length then none else some (bs.take length, bs.drop length)

/-- The content and the rest, after a length of `n` bytes, which must need them all. -/
def readLong (n : Nat) (bs : List UInt8) : Option (List UInt8 × List UInt8) := do
  let (lengthBytes, rest) ← split n bs
  let length ← scalar lengthBytes
  if length ≤ 55 then none else split length rest

/-- The content and the rest: of `n` bytes, or after a length of `n - 55` bytes. -/
def readSized (n : Nat) (bs : List UInt8) : Option (List UInt8 × List UInt8) :=
  if n ≤ 55 then split n bs else readLong (n - 55) bs

/-- The item and the rest, after the prefix byte `k.offset + n`. -/
def readContent (k : Kind) (n : Nat) (bs : List UInt8) : Option (Kind × List UInt8 × List UInt8) := do
  let (content, rest) ← readSized n bs
  if IsByte k content then none else some (k, content, rest)

def readItem : List UInt8 → Option (Kind × List UInt8 × List UInt8)
  | [] => none
  | b :: bs =>
    if b.toNat < 0x80 then some (.string, [b], bs)
    else if b.toNat < 0xc0 then readContent .string (b.toNat - 0x80) bs
    else readContent .list (b.toNat - 0xc0) bs

private theorem split_append (xs ys : List UInt8) : split xs.length (xs ++ ys) = some (xs, ys) := by
  rw [split, if_neg (by simp), take_left, drop_left]

private theorem split_eq_some (h : split n bs = some (xs, ys)) : bs = xs ++ ys ∧ xs.length = n := by
  unfold split at h
  split at h
  · cases h
  rename_i hlong
  obtain ⟨rfl, rfl⟩ := Prod.mk.inj (some.inj h)
  exact ⟨(take_append_drop n bs).symm, by rw [length_take]; omega⟩

theorem minimal_pos {length : Nat} (h : 55 < length) (hword : length < 2 ^ 64) : 0 < (minimal 8 length).length := by
  refine length_pos_iff.2 fun hnil => ?_
  have hvalue := @value_minimal 8 length hword
  rw [hnil] at hvalue
  exact absurd hvalue (by simp [value]; omega)

private theorem readContent_header {k : Kind} {content rest : List UInt8} (hbyte : ¬ IsByte k content)
    (hlength : content.length < 2 ^ 64) :
    ∃ n bs, header k content.length ++ content ++ rest = UInt8.ofNat (k.offset + n) :: bs ∧ n < 64 ∧
      readContent k n bs = some (k, content, rest) := by
  unfold header
  by_cases hshort : content.length ≤ 55
  · refine ⟨content.length, content ++ rest, by rw [if_pos hshort]; rfl, by omega, ?_⟩
    rw [readContent, readSized, if_pos hshort, split_append]
    exact if_neg hbyte
  have hpos := minimal_pos (by omega) hlength
  have hle := length_minimal_le 8 content.length
  refine ⟨55 + (minimal 8 content.length).length, minimal 8 content.length ++ content ++ rest, ?_, by omega, ?_⟩
  · rw [if_neg hshort, Nat.add_assoc]
    rfl
  · have hlong : readLong (minimal 8 content.length).length (minimal 8 content.length ++ content ++ rest) =
        some (content, rest) := by
      simp only [readLong, append_assoc, split_append, bind_eq_bind, bind_some,
        @scalar_minimal 8 content.length hlength, if_neg hshort]
    rw [readContent, readSized, if_neg (by omega), Nat.add_sub_cancel_left, hlong]
    exact if_neg hbyte

variable {content : List UInt8}

private theorem readItem_encodeItem (k : Kind) (rest : List UInt8) (hlength : content.length < 2 ^ 64) :
    readItem (encodeItem k content ++ rest) = some (k, content, rest) := by
  unfold encodeItem
  by_cases hbyte : IsByte k content
  · obtain ⟨rfl, hone, hsmall⟩ := hbyte
    obtain ⟨b, rfl⟩ := length_eq_one_iff.1 hone
    rw [if_pos ⟨rfl, hone, hsmall⟩]
    have hb : b.toNat < 0x80 := by simpa [value] using hsmall
    exact if_pos hb
  rw [if_neg hbyte]
  obtain ⟨n, bs, hheader, hn, hread⟩ := @readContent_header _ _ rest hbyte hlength
  have htoNat : (UInt8.ofNat (k.offset + n)).toNat = k.offset + n := by
    refine UInt8.toNat_ofNat_of_lt ?_
    cases k <;> simp only [Kind.offset, UInt8.size] <;> omega
  rw [hheader, readItem, htoNat]
  cases k with
  | string =>
    have hoffset : Kind.string.offset = 0x80 := rfl
    have hn' : Kind.string.offset + n - 0x80 = n := by omega
    rw [if_neg (by omega), if_pos (by omega), hn']
    exact hread
  | list =>
    have hoffset : Kind.list.offset = 0xc0 := rfl
    have hn' : Kind.list.offset + n - 0xc0 = n := by omega
    rw [if_neg (by omega), if_neg (by omega), hn']
    exact hread

variable {rest : List UInt8}

theorem encodeItem_of_readContent {k k' : Kind} (hn : n < 64) (h : readContent k n bs = some (k', content, rest)) :
    k' = k ∧ UInt8.ofNat (k.offset + n) :: bs = encodeItem k content ++ rest := by
  simp only [readContent, bind_eq_bind, bind_eq_some_iff, Prod.exists] at h
  obtain ⟨content', rest', hcontent, h⟩ := h
  by_cases hbyte : IsByte k content'
  · rw [if_pos hbyte] at h
    cases h
  rw [if_neg hbyte] at h
  cases h
  refine ⟨rfl, ?_⟩
  unfold encodeItem header
  rw [if_neg hbyte]
  unfold readSized at hcontent
  split at hcontent
  · rename_i hshort
    obtain ⟨rfl, rfl⟩ := split_eq_some hcontent
    rw [if_pos hshort]
    rfl
  rename_i hlong
  simp only [readLong, bind_eq_bind, bind_eq_some_iff, Prod.exists] at hcontent
  obtain ⟨lengthBytes, body, hsplit, length, hscalar, hcontent⟩ := hcontent
  obtain ⟨rfl, hsize⟩ := split_eq_some hsplit
  obtain ⟨hhead, rfl⟩ := scalar_eq_some.1 hscalar
  split at hcontent
  · cases hcontent
  rename_i hbig
  obtain ⟨rfl, hcontentLength⟩ := split_eq_some hcontent
  rw [hcontentLength, if_neg hbig, minimal_value hhead (by omega), hsize]
  have hsum : k.offset + 55 + (n - 55) = k.offset + n := by omega
  rw [hsum]
  simp

private theorem encodeItem_of_readItem {k : Kind} (h : readItem bs = some (k, content, rest)) :
    bs = encodeItem k content ++ rest := by
  cases bs with
  | nil => cases h
  | cons b bs =>
    rw [readItem] at h
    have hb := b.toNat_lt
    split at h
    · rename_i hsmall
      cases h
      have hbyte : IsByte .string [b] := ⟨rfl, rfl, by simpa [value] using hsmall⟩
      rw [encodeItem, if_pos hbyte]
      rfl
    rename_i hlarge
    split at h
    · obtain ⟨rfl, hencode⟩ := encodeItem_of_readContent (by omega) h
      rw [← hencode, Kind.offset, Nat.add_sub_cancel' (by omega), UInt8.ofNat_toNat]
    obtain ⟨rfl, hencode⟩ := encodeItem_of_readContent (by omega) h
    rw [← hencode, Kind.offset, Nat.add_sub_cancel' (by omega), UInt8.ofNat_toNat]

def encodeStrings (fields : List (List UInt8)) : List UInt8 :=
  encodeItem .list (fields.flatMap (encodeItem .string))

/-- Exactly `n` byte strings. -/
def readFields : Nat → List UInt8 → Option (List (List UInt8))
  | 0, bs => if bs = [] then some [] else none
  | n + 1, bs => do
    let (k, content, rest) ← readItem bs
    if k = .list then none
    else do
      let fields ← readFields n rest
      some (content :: fields)

/-- A list of exactly `n` byte strings, and nothing after it. -/
def readStrings (n : Nat) (bs : List UInt8) : Option (List (List UInt8)) := do
  let (k, content, rest) ← readItem bs
  if k = .string ∨ rest ≠ [] then none else readFields n content

variable {fields : List (List UInt8)}

private theorem readFields_flatMap (h : ∀ f ∈ fields, f.length < 2 ^ 64) :
    readFields fields.length (fields.flatMap (encodeItem .string)) = some fields := by
  induction fields with
  | nil => rfl
  | cons f fields ih =>
    have hf := readItem_encodeItem .string (fields.flatMap (encodeItem .string)) (h f mem_cons_self)
    rw [flatMap_cons, length_cons, readFields, hf]
    simp [ih fun g hg => h g (mem_cons_of_mem _ hg)]

/-- A list of strings is read back as it was written. -/
theorem readStrings_encodeStrings (h : ∀ f ∈ fields, f.length < 2 ^ 64)
    (htotal : (fields.flatMap (encodeItem .string)).length < 2 ^ 64) :
    readStrings fields.length (encodeStrings fields) = some fields := by
  have hlist := readItem_encodeItem .list [] htotal
  rw [append_nil] at hlist
  rw [readStrings, encodeStrings, hlist]
  simp [readFields_flatMap h]

theorem flatMap_of_readFields (h : readFields n bs = some fields) : bs = fields.flatMap (encodeItem .string) := by
  induction n generalizing bs fields with
  | zero =>
    unfold readFields at h
    split at h
    · rename_i hnil
      cases h
      exact hnil
    · cases h
  | succ n ih =>
    simp only [readFields, bind_eq_bind, bind_eq_some_iff, Prod.exists] at h
    obtain ⟨k, content, rest, hitem, h⟩ := h
    split at h
    · cases h
    rename_i hk
    simp only [bind_eq_some_iff, some.injEq] at h
    obtain ⟨fields', hfields, rfl⟩ := h
    have hstring : k = .string := by
      cases k with
      | string => rfl
      | list => exact absurd rfl hk
    subst hstring
    rw [encodeItem_of_readItem hitem, ih hfields, flatMap_cons]

theorem encodeStrings_of_readStrings (h : readStrings n bs = some fields) : bs = encodeStrings fields := by
  simp only [readStrings, bind_eq_bind, bind_eq_some_iff, Prod.exists] at h
  obtain ⟨k, content, rest, hitem, h⟩ := h
  split at h
  · cases h
  rename_i hshape
  obtain ⟨hk, hrest⟩ := not_or.1 hshape
  rw [not_not] at hrest
  subst hrest
  have hlist : k = .list := by
    cases k with
    | string => exact absurd rfl hk
    | list => rfl
  subst hlist
  rw [encodeItem_of_readItem hitem, flatMap_of_readFields h, append_nil, encodeStrings]

end Rlp
