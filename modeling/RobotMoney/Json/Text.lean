import Mathlib.Data.List.Basic
import Mathlib.Data.List.TakeWhile
import Mathlib.Tactic.IntervalCases

/-!
# JSON values and their compact text

Values, the compact text a serializer writes for them (no white space, fields in the order they are given, and exactly
the quotation mark, the backslash and the control characters escaped), and a parser of compact text with
`parse (print v) = some v`.  A number is kept as its text, so its value is whatever a reader makes of it.
-/

namespace JsonText

open List Option

def isNumberChar (c : Char) : Bool := c.isDigit || c = '-' || c = '+' || c = '.' || c = 'e' || c = 'E'

/-- A number, as the characters it is written with. -/
structure Number where
  text : List Char
  ne_nil : text ≠ []
  valid : ∀ c ∈ text, isNumberChar c = true

inductive Value where
  | null
  | bool (b : Bool)
  | number (n : Number)
  | string (s : String)
  | array (items : List Value)
  | object (fields : List (String × Value))

def escapeChar (c : Char) : List Char :=
  if c = '"' then ['\\', '"']
  else if c = '\\' then ['\\', '\\']
  else if c.toNat = 8 then ['\\', 'b']
  else if c.toNat = 9 then ['\\', 't']
  else if c.toNat = 10 then ['\\', 'n']
  else if c.toNat = 12 then ['\\', 'f']
  else if c.toNat = 13 then ['\\', 'r']
  else if c.toNat < 32 then ['\\', 'u', '0', '0', Nat.digitChar (c.toNat / 16), Nat.digitChar (c.toNat % 16)]
  else [c]

def printString (s : String) : List Char := '"' :: (s.toList.flatMap escapeChar ++ ['"'])

mutual

def print : Value → List Char
  | .null => ['n', 'u', 'l', 'l']
  | .bool true => ['t', 'r', 'u', 'e']
  | .bool false => ['f', 'a', 'l', 's', 'e']
  | .number n => n.text
  | .string s => printString s
  | .array [] => ['[', ']']
  | .array (v :: items) => '[' :: (print v ++ printItems items)
  | .object [] => ['\x7b', '\x7d']
  | .object ((key, v) :: fields) => '\x7b' :: (printString key ++ ':' :: (print v ++ printFields fields))

def printItems : List Value → List Char
  | [] => [']']
  | v :: items => ',' :: (print v ++ printItems items)

def printFields : List (String × Value) → List Char
  | [] => ['\x7d']
  | (key, v) :: fields => ',' :: (printString key ++ ':' :: (print v ++ printFields fields))

end

def hexValue (c : Char) : Option Nat :=
  if c.isDigit then some (c.toNat - 48)
  else if 'a' ≤ c ∧ c ≤ 'f' then some (c.toNat - 87)
  else if 'A' ≤ c ∧ c ≤ 'F' then some (c.toNat - 55)
  else none

def unescape : Char → Option Char
  | '"' => some '"'
  | '\\' => some '\\'
  | '/' => some '/'
  | 'b' => some (Char.ofNat 8)
  | 't' => some (Char.ofNat 9)
  | 'n' => some (Char.ofNat 10)
  | 'f' => some (Char.ofNat 12)
  | 'r' => some (Char.ofNat 13)
  | _ => none

def parseChars : List Char → Option (List Char × List Char)
  | [] => none
  | '"' :: rest => some ([], rest)
  | '\\' :: 'u' :: a :: b :: c :: d :: rest => do
    let x ← hexValue a
    let y ← hexValue b
    let z ← hexValue c
    let w ← hexValue d
    let (s, rest) ← parseChars rest
    some (Char.ofNat (((x * 16 + y) * 16 + z) * 16 + w) :: s, rest)
  | '\\' :: e :: rest => do
    let c ← unescape e
    let (s, rest) ← parseChars rest
    some (c :: s, rest)
  | c :: rest =>
    if c.toNat < 32 then none
    else do
      let (s, rest) ← parseChars rest
      some (c :: s, rest)

def parseString : List Char → Option (String × List Char)
  | '"' :: rest => (parseChars rest).map fun r => (String.ofList r.1, r.2)
  | _ => none

def parseNumber (cs : List Char) : Option (Value × List Char) :=
  if h : cs.takeWhile isNumberChar = [] then none
  else some (.number ⟨cs.takeWhile isNumberChar, h, fun _ hc => List.mem_takeWhile_imp hc⟩, cs.dropWhile isNumberChar)

mutual

/-- A value at the head of a text, and the rest; the first argument bounds the recursion. -/
def parseValue : Nat → List Char → Option (Value × List Char)
  | 0, _ => none
  | _ + 1, 'n' :: 'u' :: 'l' :: 'l' :: rest => some (.null, rest)
  | _ + 1, 't' :: 'r' :: 'u' :: 'e' :: rest => some (.bool true, rest)
  | _ + 1, 'f' :: 'a' :: 'l' :: 's' :: 'e' :: rest => some (.bool false, rest)
  | n + 1, '[' :: rest =>
    if rest.head? = some ']' then some (.array [], rest.tail)
    else do
      let (v, rest) ← parseValue n rest
      let (items, rest) ← parseItems n rest
      some (.array (v :: items), rest)
  | n + 1, '\x7b' :: rest =>
    if rest.head? = some '\x7d' then some (.object [], rest.tail)
    else do
      let (field, rest) ← parseField n rest
      let (fields, rest) ← parseFields n rest
      some (.object (field :: fields), rest)
  | _ + 1, '"' :: rest => (parseString ('"' :: rest)).map fun r => (.string r.1, r.2)
  | _ + 1, cs => parseNumber cs

def parseItems : Nat → List Char → Option (List Value × List Char)
  | 0, _ => none
  | _ + 1, ']' :: rest => some ([], rest)
  | n + 1, ',' :: rest => do
    let (v, rest) ← parseValue n rest
    let (items, rest) ← parseItems n rest
    some (v :: items, rest)
  | _ + 1, _ => none

def parseField : Nat → List Char → Option ((String × Value) × List Char)
  | 0, _ => none
  | n + 1, cs => do
    let (key, rest) ← parseString cs
    match rest with
    | ':' :: rest => do
      let (v, rest) ← parseValue n rest
      some ((key, v), rest)
    | _ => none

def parseFields : Nat → List Char → Option (List (String × Value) × List Char)
  | 0, _ => none
  | _ + 1, '\x7d' :: rest => some ([], rest)
  | n + 1, ',' :: rest => do
    let (field, rest) ← parseField n rest
    let (fields, rest) ← parseFields n rest
    some (field :: fields, rest)
  | _ + 1, _ => none

end

def parse (cs : List Char) : Option Value :=
  match parseValue (cs.length + 1) cs with
  | some (v, []) => some v
  | _ => none

def Stops : List Char → Prop
  | [] => True
  | c :: _ => isNumberChar c = false

theorem parseChars_plain {c : Char} (h₁ : c ≠ '"') (h₂ : c ≠ '\\') (h₃ : ¬ c.toNat < 32) (rest : List Char) :
    parseChars (c :: rest) = (parseChars rest).map fun r => (c :: r.1, r.2) := by
  rw [parseChars]
  · rw [if_neg h₃]
    cases parseChars rest <;> rfl
  · exact h₁
  · intro a b d e rest' h _
    exact h₂ h
  · intro e rest' h _
    exact h₂ h

theorem hexValue_digitChar : ∀ n < 16, hexValue (Nat.digitChar n) = some n := by decide

private theorem parseChars_hex {n : Nat} (hn : n < 32) (rest : List Char) :
    parseChars ('\\' :: 'u' :: '0' :: '0' :: Nat.digitChar (n / 16) :: Nat.digitChar (n % 16) :: rest) =
      (parseChars rest).map fun r => (Char.ofNat n :: r.1, r.2) := by
  have hzero : hexValue '0' = some 0 := hexValue_digitChar 0 (by omega)
  have hsum : (0 * 16 + n / 16) * 16 + n % 16 = n := by omega
  rw [parseChars, hzero, hexValue_digitChar _ (by omega), hexValue_digitChar _ (by omega)]
  cases h : parseChars rest with
  | none => rfl
  | some r => simp [Nat.div_add_mod' n 16]

theorem parseChars_short {e c : Char} (he : e ≠ 'u') (h : unescape e = some c) (rest : List Char) :
    parseChars ('\\' :: e :: rest) = (parseChars rest).map fun r => (c :: r.1, r.2) := by
  rw [parseChars, h]
  · cases parseChars rest <;> rfl
  · intro a b c' d rest' hu
    exact fun _ => he hu

private theorem parseChars_escapeChar (c : Char) (rest : List Char) :
    parseChars (escapeChar c ++ rest) = (parseChars rest).map fun r => (c :: r.1, r.2) := by
  have hchar : ∀ {n : Nat}, c.toNat = n → Char.ofNat n = c := fun h => by rw [← h, Char.ofNat_toNat]
  unfold escapeChar
  split
  · rename_i h
    rw [h]
    exact parseChars_short (by decide) rfl rest
  rename_i hquote
  split
  · rename_i h
    rw [h]
    exact parseChars_short (by decide) rfl rest
  rename_i hslash
  -- the control characters with an escape of their own
  iterate 5
    split
    · rename_i h
      exact parseChars_short (by decide) (by rw [← hchar h]; rfl) rest
  split
  · rename_i h
    have hhex := parseChars_hex h rest
    rw [Char.ofNat_toNat] at hhex
    exact hhex
  rename_i h
  exact parseChars_plain hquote hslash h rest

/-- A string is read back as it was printed. -/
theorem parseString_printString (s : String) (rest : List Char) :
    parseString (printString s ++ rest) = some (s, rest) := by
  have hchars : ∀ l : List Char, parseChars (l.flatMap escapeChar ++ '"' :: rest) = some (l, rest) := by
    intro l
    induction l with
    | nil => rfl
    | cons c l ih =>
      rw [flatMap_cons, append_assoc, parseChars_escapeChar, ih]
      rfl
  simp [printString, parseString, hchars]

theorem parseNumber_text (n : Number) {rest : List Char} (h : Stops rest) :
    parseNumber (n.text ++ rest) = some (.number n, rest) := by
  have hrest : rest.takeWhile isNumberChar = [] ∧ rest.dropWhile isNumberChar = rest := by
    cases rest with
    | nil => exact ⟨rfl, rfl⟩
    | cons c rest =>
      have hc : isNumberChar c = false := h
      constructor
      · rw [takeWhile_cons, hc]
        rfl
      · rw [dropWhile_cons, hc]
        rfl
  have htake : (n.text ++ rest).takeWhile isNumberChar = n.text := by
    rw [takeWhile_append_of_pos n.valid, hrest.1, append_nil]
  have hdrop : (n.text ++ rest).dropWhile isNumberChar = rest := by
    rw [dropWhile_append_of_pos n.valid, hrest.2]
  unfold parseNumber
  rw [dif_neg (by rw [htake]; exact n.ne_nil)]
  simp only [htake, hdrop]

private theorem parseValue_number (n : Number) (k : Nat) {rest : List Char} (h : Stops rest) :
    parseValue (k + 1) (n.text ++ rest) = some (.number n, rest) := by
  rw [← parseNumber_text n h]
  obtain ⟨c, text, htext⟩ := exists_cons_of_ne_nil n.ne_nil
  have hc : isNumberChar c = true := n.valid c (by rw [htext]; exact mem_cons_self ..)
  rw [htext, cons_append]
  have hne : ∀ d, isNumberChar d = false → c ≠ d := by
    rintro d hd rfl
    rw [hc] at hd
    cases hd
  rw [parseValue]
  all_goals
    intro _ heq
    exact hne _ (by decide) (cons.inj heq).1

private theorem exists_print_eq_cons (v : Value) : ∃ c l, print v = c :: l ∧ c ≠ ']' := by
  cases v with
  | null => exact ⟨_, _, rfl, by decide⟩
  | bool b => cases b <;> exact ⟨_, _, rfl, by decide⟩
  | number n =>
    obtain ⟨c, text, htext⟩ := List.exists_cons_of_ne_nil n.ne_nil
    refine ⟨c, text, htext, ?_⟩
    rintro rfl
    have := n.valid ']' (by rw [htext]; exact List.mem_cons_self ..)
    exact absurd this (by decide)
  | string s => exact ⟨_, _, rfl, by decide⟩
  | array items => cases items <;> exact ⟨_, _, rfl, by decide⟩
  | object fields => cases fields <;> exact ⟨_, _, rfl, by decide⟩

private theorem stops_printItems (items : List Value) (rest : List Char) : Stops (printItems items ++ rest) := by
  cases items with
  | nil => exact (by decide : isNumberChar ']' = false)
  | cons v items => exact (by decide : isNumberChar ',' = false)

theorem stops_printFields (fields : List (String × Value)) (rest : List Char) : Stops (printFields fields ++ rest) := by
  cases fields with
  | nil => exact (by decide : isNumberChar '\x7d' = false)
  | cons field fields => exact (by decide : isNumberChar ',' = false)

mutual

private theorem parseValue_print (v : Value) (n : Nat) (rest : List Char) (hn : (print v).length ≤ n) (h : Stops rest) :
    parseValue n (print v ++ rest) = some (v, rest) := by
  obtain ⟨c, l, hprint, -⟩ := exists_print_eq_cons v
  obtain ⟨k, rfl⟩ : ∃ k, n = k + 1 := ⟨n - 1, by rw [hprint, length_cons] at hn; omega⟩
  cases v with
  | null => rfl
  | bool b => cases b <;> rfl
  | number m => exact parseValue_number m k h
  | string s =>
    have hs := parseString_printString s rest
    simp only [print, printString, cons_append] at hs ⊢
    rw [parseValue, hs]
    rfl
  | array items =>
    cases items with
    | nil => rfl
    | cons v items =>
      obtain ⟨c, l, hv, hc⟩ := exists_print_eq_cons v
      have hhead : (print v ++ (printItems items ++ rest)).head? ≠ some ']' := by
        rw [hv]
        simpa using hc
      simp only [print, cons_append, append_assoc, length_cons, length_append] at hn ⊢
      rw [parseValue, if_neg hhead, parseValue_print v k _ (by omega) (stops_printItems items rest)]
      simp only [bind_eq_bind, bind_some]
      rw [parseItems_print items k rest (by omega)]
      rfl
  | object fields =>
    cases fields with
    | nil => rfl
    | cons field fields =>
      obtain ⟨key, v⟩ := field
      have hhead : (printString key ++ ':' :: (print v ++ (printFields fields ++ rest))).head? ≠ some '\x7d' := by
        simp [printString]
      simp only [print, cons_append, append_assoc, length_cons, length_append] at hn ⊢
      rw [parseValue, if_neg hhead, parseField_print key v k _ (by omega) (stops_printFields fields rest)]
      simp only [bind_eq_bind, bind_some]
      rw [parseFields_print fields k rest (by omega)]
      rfl
termination_by n

theorem parseItems_print (items : List Value) (n : Nat) (rest : List Char) (hn : (printItems items).length ≤ n) :
    parseItems n (printItems items ++ rest) = some (items, rest) := by
  cases items with
  | nil =>
    obtain ⟨k, rfl⟩ : ∃ k, n = k + 1 := ⟨n - 1, by simp [printItems] at hn; omega⟩
    rfl
  | cons v items =>
    simp only [printItems, cons_append, append_assoc, length_cons, length_append] at hn ⊢
    obtain ⟨k, rfl⟩ : ∃ k, n = k + 1 := ⟨n - 1, by omega⟩
    rw [parseItems, parseValue_print v k _ (by omega) (stops_printItems items rest)]
    simp only [bind_eq_bind, bind_some]
    rw [parseItems_print items k rest (by omega)]
    rfl
termination_by n

private theorem parseField_print (key : String) (v : Value) (n : Nat) (rest : List Char)
    (hn : (printString key).length + (print v).length < n) (h : Stops rest) :
    parseField n (printString key ++ ':' :: (print v ++ rest)) = some ((key, v), rest) := by
  obtain ⟨k, rfl⟩ : ∃ k, n = k + 1 := ⟨n - 1, by omega⟩
  rw [parseField, parseString_printString]
  simp only [bind_eq_bind, bind_some]
  rw [parseValue_print v k rest (by omega) h]
  rfl
termination_by n

private theorem parseFields_print (fields : List (String × Value)) (n : Nat) (rest : List Char)
    (hn : (printFields fields).length ≤ n) : parseFields n (printFields fields ++ rest) = some (fields, rest) := by
  cases fields with
  | nil =>
    obtain ⟨k, rfl⟩ : ∃ k, n = k + 1 := ⟨n - 1, by simp [printFields] at hn; omega⟩
    rfl
  | cons field fields =>
    obtain ⟨key, v⟩ := field
    simp only [printFields, cons_append, append_assoc, length_cons, length_append] at hn ⊢
    obtain ⟨k, rfl⟩ : ∃ k, n = k + 1 := ⟨n - 1, by omega⟩
    rw [parseFields, parseField_print key v k _ (by omega) (stops_printFields fields rest)]
    simp only [bind_eq_bind, bind_some]
    rw [parseFields_print fields k rest (by omega)]
    rfl
termination_by n

end

/-- A value is read back as it was printed. -/
theorem parse_print (v : Value) : parse (print v) = some v := by
  have h := parseValue_print v ((print v).length + 1) [] (by omega) trivial
  rw [append_nil] at h
  rw [parse, h]

end JsonText
