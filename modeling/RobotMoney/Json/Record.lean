import RobotMoney.Json.Text

/-!
# Reading records out of JSON values

How a derived deserializer reads a value: numbers, strings and sequences by type, and a record either from an object,
where a key that is no field is refused and a field may be missing, or from an array in the order of its fields.  A
record printed field by field is read back.
-/

namespace JsonText

namespace Number

private theorem isNumberChar_of_isDigit {c : Char} (h : c.isDigit = true) : isNumberChar c = true := by
  simp [isNumberChar, h]

def ofNat (n : Nat) : Number where
  text := Nat.toDigits 10 n
  ne_nil := Nat.toDigits_ne_nil
  valid _ hc := isNumberChar_of_isDigit (Nat.isDigit_of_mem_toDigits (by decide) (by decide) hc)

/-- The natural number that the digits stand for; a sign, a point or an exponent makes it something else. -/
def toNat? (n : Number) : Option Nat := if n.text.all (·.isDigit) then some (Nat.ofDigitChars 10 n.text 0) else none

@[simp] theorem toNat?_ofNat (n : Nat) : (ofNat n).toNat? = some n := by
  have hall : (Nat.toDigits 10 n).all (·.isDigit) = true :=
    List.all_eq_true.2 fun _ hc => Nat.isDigit_of_mem_toDigits (by decide) (by decide) hc
  simp [toNat?, ofNat, hall]

end Number

namespace Value

open List

def get? : Value → String → Option Value
  | .object fields, key => fields.lookup key
  | _, _ => none

def asString : Value → Option String
  | .string s => some s
  | _ => none

def asBool : Value → Option Bool
  | .bool b => some b
  | _ => none

def asArray : Value → Option (List Value)
  | .array items => some items
  | _ => none

def asNat (bound : Nat) : Value → Option Nat
  | .number n => n.toNat?.filter (· < bound)
  | _ => none

def ofNat (n : Nat) : Value := .number (.ofNat n)

private theorem asNat_ofNat {bound n : Nat} (h : n < bound) : (ofNat n).asNat bound = some n := by
  simp [ofNat, asNat, h]

/-- A `u64`. -/
def asU64 (v : Value) : Option UInt64 := (v.asNat (2 ^ 64)).map UInt64.ofNat

/-- A `u32`. -/
def asU32 (v : Value) : Option UInt32 := (v.asNat (2 ^ 32)).map UInt32.ofNat

@[simp] theorem asU64_ofNat (n : UInt64) : (ofNat n.toNat).asU64 = some n := by
  simp [asU64, asNat_ofNat n.toNat_lt]

@[simp] theorem asU32_ofNat (n : UInt32) : (ofNat n.toNat).asU32 = some n := by
  simp [asU32, asNat_ofNat n.toNat_lt]

def asList {α : Type} (read : Value → Option α) (v : Value) : Option (List α) := v.asArray.bind (·.mapM read)

theorem asList_map {α : Type} {read : Value → Option α} {write : α → Value} (h : ∀ a, read (write a) = some a)
    (l : List α) : asList read (.array (l.map write)) = some l := by
  unfold asList asArray
  simp only [Option.bind_some]
  induction l with
  | nil => rfl
  | cons a l ih => simp [mapM_cons, h a, ih]

/-- The values of the fields `names`, in their order. -/
def record (names : List String) : Value → Option (List (Option Value))
  | .object fields =>
    if fields.all (fun f => names.contains f.1) then some (names.map fun name => fields.lookup name) else none
  | .array items =>
    if items.length ≤ names.length then some (names.mapIdx fun i _ => items[i]?) else none
  | _ => none

theorem record_eq_none {names : List String} {fields : List (String × Value)} {key : String} {v : Value}
    (hkey : key ∉ names) (hmem : fields.lookup key = some v) : record names (.object fields) = none := by
  simp only [record]
  rw [if_neg]
  intro hall
  obtain ⟨l₁, l₂, rfl, -⟩ := lookup_eq_some_iff.1 hmem
  have h := all_eq_true.1 hall (key, v) (by simp)
  exact hkey (by simpa using h)

private theorem lookup_zip {names : List String} (hnames : names.Nodup) {values : List Value}
    (hlen : values.length = names.length) : (names.map fun name =>
    (names.zip values).lookup name) = values.map some := by
  induction names generalizing values with
  | nil =>
    obtain rfl := length_eq_zero_iff.1 hlen
    rfl
  | cons name names ih =>
    obtain ⟨v, values, rfl⟩ := exists_cons_of_length_eq_add_one hlen
    obtain ⟨hname, hnames⟩ := nodup_cons.1 hnames
    rw [map_cons, map_cons, zip_cons_cons, lookup_cons_self]
    congr 1
    rw [← ih hnames (by simpa using hlen)]
    apply map_congr_left
    intro key hkey
    have hne : (key == name) = false := by
      rw [beq_eq_false_iff_ne]
      rintro rfl
      exact hname hkey
    rw [lookup_cons, hne]

private theorem lookup_zip_of_notMem {names : List String} {values : List Value} {key : String} (h : key ∉ names) :
    (names.zip values).lookup key = none := by
  rw [lookup_eq_none_iff]
  intro p hp
  rw [bne_iff_ne]
  rintro rfl
  exact h (of_mem_zip hp).1

theorem record_zip {names more : List String} (hnames : (names ++ more).Nodup) {values : List Value}
    (hlen : values.length = names.length) :
    record (names ++ more) (.object (names.zip values)) = some (values.map some ++ more.map fun _ => none) := by
  simp only [record]
  rw [if_pos, map_append, lookup_zip (nodup_append.1 hnames).1 hlen]
  · congr 2
    apply map_congr_left
    intro key hkey
    apply lookup_zip_of_notMem
    intro hmem
    exact (nodup_append.1 hnames).2.2 key hmem key hkey rfl
  · rw [all_eq_true]
    intro p hp
    have := (of_mem_zip hp).1
    simp [this]

end Value

end JsonText
