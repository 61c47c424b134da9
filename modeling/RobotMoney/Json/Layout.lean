import RobotMoney.Json.Record

/-!
# Indented JSON text

The text a serializer writes with an indentation of two blanks, and a reader that passes over white space between
tokens, with `readText (stringify v) = some v`.  Two entries of an object may have one key: the last one counts.
-/

namespace JsonText

open List Option Prod

def newline (level : Nat) : List Char := '\n' :: List.replicate (2 * level) ' '

mutual

def layout (level : Nat) : Value → List Char
  | .array (v :: items) => '[' :: (newline (level + 1) ++ (layout (level + 1) v ++ layoutItems level items))
  | .object ((key, v) :: fields) =>
    '\x7b' :: (newline (level + 1) ++
    (printString key ++ ':' :: ' ' :: (layout (level + 1) v ++ layoutFields level fields)))
  | .array [] => ['[', ']']
  | .object [] => ['\x7b', '\x7d']
  | .null => ['n', 'u', 'l', 'l']
  | .bool true => ['t', 'r', 'u', 'e']
  | .bool false => ['f', 'a', 'l', 's', 'e']
  | .number n => n.text
  | .string s => printString s

def layoutItems (level : Nat) : List Value → List Char
  | [] => newline level ++ [']']
  | v :: items => ',' :: (newline (level + 1) ++ (layout (level + 1) v ++ layoutItems level items))

def layoutFields (level : Nat) : List (String × Value) → List Char
  | [] => newline level ++ ['\x7d']
  | (key, v) :: fields =>
    ',' :: (newline (level + 1) ++
    (printString key ++ ':' :: ' ' :: (layout (level + 1) v ++ layoutFields level fields)))

end

def stringify (v : Value) : List Char := layout 0 v

def isSpace (c : Char) : Bool := c = ' ' || c = '\n' || c = '\t' || c = '\r'

def skip (cs : List Char) : List Char := cs.dropWhile isSpace

mutual

/-- A value at the head of a text, and the rest; the first argument bounds the recursion. -/
def readValue : Nat → List Char → Option (Value × List Char)
  | 0, _ => none
  | n + 1, cs =>
    match skip cs with
    | 'n' :: 'u' :: 'l' :: 'l' :: rest => some (.null, rest)
    | 't' :: 'r' :: 'u' :: 'e' :: rest => some (.bool true, rest)
    | 'f' :: 'a' :: 'l' :: 's' :: 'e' :: rest => some (.bool false, rest)
    | '[' :: rest =>
      if (skip rest).head? = some ']' then some (.array [], (skip rest).tail)
      else do
        let (v, rest) ← readValue n rest
        let (items, rest) ← readItems n rest
        some (.array (v :: items), rest)
    | '\x7b' :: rest =>
      if (skip rest).head? = some '\x7d' then some (.object [], (skip rest).tail)
      else do
        let (field, rest) ← readField n rest
        let (fields, rest) ← readFields n rest
        some (.object (field :: fields), rest)
    | '"' :: rest => (parseString ('"' :: rest)).map fun r => (.string r.1, r.2)
    | cs => parseNumber cs

def readItems : Nat → List Char → Option (List Value × List Char)
  | 0, _ => none
  | n + 1, cs =>
    match skip cs with
    | ']' :: rest => some ([], rest)
    | ',' :: rest => do
      let (v, rest) ← readValue n rest
      let (items, rest) ← readItems n rest
      some (v :: items, rest)
    | _ => none

def readField : Nat → List Char → Option ((String × Value) × List Char)
  | 0, _ => none
  | n + 1, cs => do
    let (key, rest) ← parseString (skip cs)
    match skip rest with
    | ':' :: rest => do
      let (v, rest) ← readValue n rest
      some ((key, v), rest)
    | _ => none

def readFields : Nat → List Char → Option (List (String × Value) × List Char)
  | 0, _ => none
  | n + 1, cs =>
    match skip cs with
    | '\x7d' :: rest => some ([], rest)
    | ',' :: rest => do
      let (field, rest) ← readField n rest
      let (fields, rest) ← readFields n rest
      some (field :: fields, rest)
    | _ => none

end

def readText (cs : List Char) : Option Value :=
  match readValue (cs.length + 1) cs with
  | some (v, rest) => if skip rest = [] then some v else none
  | none => none

def Value.property? : Value → String → Option Value
  | .object fields, key => fields.reverse.lookup key
  | _, _ => none

def present : List (String × Option Value) → List (String × Value)
  | [] => []
  | (key, some v) :: entries => (key, v) :: present entries
  | (_, none) :: entries => present entries

def Value.ofEntries (entries : List (String × Option Value)) : Value := .object (present entries)

private theorem keys_present_sublist (entries : List (String × Option Value)) :
    ((present entries).map fst).Sublist (entries.map fst) := by
  induction entries with
  | nil => exact List.Sublist.slnil
  | cons e entries ih =>
    obtain ⟨key, v⟩ := e
    cases v with
    | none => exact ih.cons key
    | some v => exact ih.cons_cons key

theorem lookup_eq_none_of_notMem {fields : List (String × Value)} {key : String} (h : key ∉ fields.map fst) :
    fields.lookup key = none := by
  rw [lookup_eq_none_iff]
  intro p hp
  rw [bne_iff_ne]
  intro heq
  exact h (heq ▸ mem_map_of_mem hp)

private theorem lookup_reverse {fields : List (String × Value)} (h : (fields.map fst).Nodup) (key : String) :
    fields.reverse.lookup key = fields.lookup key := by
  cases hv : fields.lookup key with
  | none =>
    rw [lookup_eq_none_iff] at hv ⊢
    exact fun p hp => hv p (mem_reverse.1 hp)
  | some v =>
    obtain ⟨l₁, l₂, rfl, -⟩ := lookup_eq_some_iff.1 hv
    rw [map_append, map_cons, nodup_append] at h
    rw [reverse_append, reverse_cons, append_assoc, lookup_append, lookup_eq_none_of_notMem]
    · simp
    · rw [map_reverse, mem_reverse]
      exact (nodup_cons.1 h.2.1).1

theorem lookup_present {entries : List (String × Option Value)} (h : (entries.map fst).Nodup) {key : String}
    {v : Option Value} (hmem : (key, v) ∈ entries) : (present entries).lookup key = v := by
  induction entries with
  | nil => cases hmem
  | cons e entries ih =>
    obtain ⟨name, w⟩ := e
    obtain ⟨he, hentries⟩ := nodup_cons.1 h
    rcases mem_cons.1 hmem with heq | htail
    · obtain ⟨rfl, rfl⟩ := mk.inj heq
      cases v with
      | none => exact lookup_eq_none_of_notMem fun hkey => he ((keys_present_sublist entries).subset hkey)
      | some v => exact lookup_cons_self
    have hne : key ≠ name := by
      rintro rfl
      exact he (mem_map.2 ⟨_, htail, rfl⟩)
    cases w with
    | none => exact ih hentries htail
    | some w => rw [present, lookup_cons, beq_false_of_ne hne, ih hentries htail]

/-- A property of an object built from entries with distinct keys is that of its key. -/
theorem Value.property?_ofEntries {entries : List (String × Option Value)} (h : (entries.map fst).Nodup)
    (key : String) :
    (ofEntries entries).property? key = (entries.lookup key).join := by
  rw [ofEntries, property?, lookup_reverse (h.sublist (keys_present_sublist entries))]
  cases hv : entries.lookup key with
  | none =>
    apply lookup_eq_none_of_notMem
    intro hkey
    obtain ⟨e, he, rfl⟩ := mem_map.1 ((keys_present_sublist entries).subset hkey)
    simpa using lookup_eq_none_iff.1 hv e he
  | some v =>
    obtain ⟨l₁, l₂, rfl, -⟩ := lookup_eq_some_iff.1 hv
    exact lookup_present h (by simp)

@[simp] theorem skip_newline (level : Nat) (cs : List Char) : skip (newline level ++ cs) = skip cs := by
  apply dropWhile_append_of_pos
  intro c hc
  rcases mem_cons.1 hc with rfl | hc
  · rfl
  rw [eq_of_mem_replicate hc]
  rfl

theorem skip_cons {c : Char} (h : isSpace c = false) (cs : List Char) : skip (c :: cs) = c :: cs :=
  dropWhile_cons_of_neg (by simp [h])

@[simp] theorem skip_blank (cs : List Char) : skip (' ' :: cs) = skip cs := rfl

@[simp] theorem skip_printString (s : String) (cs : List Char) :
    skip (printString s ++ cs) = printString s ++ cs :=
  skip_cons rfl _

theorem readValue_skip (n : Nat) {cs cs' : List Char} (h : skip cs = skip cs') : readValue n cs = readValue n cs' := by
  cases n with
  | zero => rfl
  | succ n => rw [readValue, readValue, h]

theorem readField_skip (n : Nat) {cs cs' : List Char} (h : skip cs = skip cs') : readField n cs = readField n cs' := by
  cases n with
  | zero => rfl
  | succ n => rw [readField, readField, h]

private theorem stops_newline (level : Nat) (cs : List Char) : Stops (newline level ++ cs) :=
  (by decide : isNumberChar '\n' = false)

private theorem stops_layoutItems (level : Nat) (items : List Value) (rest : List Char) :
    Stops (layoutItems level items ++ rest) := by
  cases items with
  | nil =>
    rw [layoutItems, append_assoc]
    exact stops_newline level _
  | cons v items => exact (by decide : isNumberChar ',' = false)

private theorem stops_layoutFields (level : Nat) (fields : List (String × Value)) (rest : List Char) :
    Stops (layoutFields level fields ++ rest) := by
  cases fields with
  | nil =>
    rw [layoutFields, append_assoc]
    exact stops_newline level _
  | cons field fields => exact (by decide : isNumberChar ',' = false)

private theorem isSpace_of_isNumberChar {c : Char} (h : isNumberChar c = true) : isSpace c = false := by
  unfold isSpace
  simp only [Bool.or_eq_false_iff, decide_eq_false_iff_not]
  refine ⟨⟨⟨?_, ?_⟩, ?_⟩, ?_⟩ <;> rintro rfl <;> exact absurd h (by decide)

private theorem exists_layout_eq_cons (level : Nat) (v : Value) :
    ∃ c l, layout level v = c :: l ∧ isSpace c = false ∧ c ≠ ']' := by
  cases v with
  | null => exact ⟨_, _, rfl, rfl, by decide⟩
  | bool b => cases b <;> exact ⟨_, _, rfl, rfl, by decide⟩
  | number n =>
    obtain ⟨c, text, htext⟩ := List.exists_cons_of_ne_nil n.ne_nil
    have hc : isNumberChar c = true := n.valid c (by rw [htext]; exact List.mem_cons_self ..)
    refine ⟨c, text, htext, isSpace_of_isNumberChar hc, ?_⟩
    rintro rfl
    exact absurd hc (by decide)
  | string s => exact ⟨_, _, rfl, rfl, by decide⟩
  | array items => cases items <;> exact ⟨_, _, rfl, rfl, by decide⟩
  | object fields =>
    rcases fields with _ | ⟨⟨key, v⟩, fields⟩
    · exact ⟨_, _, rfl, rfl, by decide⟩
    · exact ⟨_, _, rfl, rfl, by decide⟩

private theorem skip_layout (level : Nat) (v : Value) (rest : List Char) :
    skip (layout level v ++ rest) = layout level v ++ rest := by
  obtain ⟨c, l, hv, hc, -⟩ := exists_layout_eq_cons level v
  rw [hv]
  exact skip_cons hc _

private theorem readValue_number (n : Number) (k : Nat) {rest : List Char} (h : Stops rest) :
    readValue (k + 1) (n.text ++ rest) = some (.number n, rest) := by
  rw [← parseNumber_text n h]
  have hskip : skip (n.text ++ rest) = n.text ++ rest := skip_layout 0 (.number n) rest
  obtain ⟨c, text, htext⟩ := exists_cons_of_ne_nil n.ne_nil
  have hc : isNumberChar c = true := n.valid c (by rw [htext]; exact mem_cons_self ..)
  have hne : ∀ d, isNumberChar d = false → c ≠ d := by
    rintro d hd rfl
    rw [hc] at hd
    cases hd
  rw [readValue, hskip, htext, cons_append]
  split
  all_goals
    first
      | rfl
      | exact absurd (cons.inj ‹c :: _ = _›).1 (hne _ (by decide))

mutual

/-- A printed value is read back, whatever follows it; a number must end there. -/
theorem readValue_layout (v : Value) (level n : Nat) (rest : List Char) (hn : (layout level v).length ≤ n)
    (h : ∀ m, v = .number m → Stops rest) : readValue n (layout level v ++ rest) = some (v, rest) := by
  obtain ⟨c, l, hprint, -⟩ := exists_layout_eq_cons level v
  obtain ⟨k, rfl⟩ : ∃ k, n = k + 1 := ⟨n - 1, by rw [hprint, length_cons] at hn; omega⟩
  cases v with
  | null => rfl
  | bool b => cases b <;> rfl
  | number m => exact readValue_number m k (h m rfl)
  | string s =>
    have hs := parseString_printString s rest
    rw [readValue, skip_layout]
    simp only [layout, printString, cons_append] at hs ⊢
    rw [hs]
    rfl
  | array items =>
    cases items with
    | nil => rfl
    | cons v items =>
      obtain ⟨c, l, hv, -, hc⟩ := exists_layout_eq_cons (level + 1) v
      have hskip := skip_layout (level + 1) v (layoutItems level items ++ rest)
      have hhead : (skip (newline (level + 1) ++ (layout (level + 1) v ++ (layoutItems level items ++ rest)))).head? ≠
          some ']' := by
        rw [skip_newline, hskip, hv]
        simpa using hc
      rw [readValue, skip_layout]
      simp only [layout, cons_append, append_assoc, length_cons, length_append] at hn ⊢
      rw [if_neg hhead, readValue_skip k (skip_newline (level + 1) _),
        readValue_layout v (level + 1) k _ (by omega) fun _ _ => stops_layoutItems level items rest]
      simp only [bind_eq_bind, bind_some]
      rw [readItems_layout items level k rest (by omega)]
      rfl
  | object fields =>
    cases fields with
    | nil => rfl
    | cons field fields =>
      obtain ⟨key, v⟩ := field
      have hhead : (skip (newline (level + 1) ++
          (printString key ++ ':' :: ' ' :: (layout (level + 1) v ++ (layoutFields level fields ++ rest))))).head? ≠
            some '\x7d' := by
        rw [skip_newline, skip_printString]
        simp [printString]
      rw [readValue, skip_layout]
      simp only [layout, cons_append, append_assoc, length_cons, length_append] at hn ⊢
      rw [if_neg hhead, readField_skip k (skip_newline (level + 1) _),
        readField_layout key v (level + 1) k _ (by omega) (stops_layoutFields level fields rest)]
      simp only [bind_eq_bind, bind_some]
      rw [readFields_layout fields level k rest (by omega)]
      rfl
termination_by n

private theorem readItems_layout (items : List Value) (level n : Nat) (rest : List Char)
    (hn : (layoutItems level items).length ≤ n) : readItems n (layoutItems level items ++ rest) =
      some (items, rest) := by
  cases items with
  | nil =>
    obtain ⟨k, rfl⟩ : ∃ k, n = k + 1 := ⟨n - 1, by simp [layoutItems] at hn; omega⟩
    rw [readItems, layoutItems, append_assoc, skip_newline]
    rfl
  | cons v items =>
    simp only [layoutItems, cons_append, append_assoc, length_cons, length_append] at hn ⊢
    obtain ⟨k, rfl⟩ : ∃ k, n = k + 1 := ⟨n - 1, by omega⟩
    rw [readItems, skip_cons rfl]
    simp only
    rw [readValue_skip k (skip_newline (level + 1) _),
      readValue_layout v (level + 1) k _ (by omega) fun _ _ => stops_layoutItems level items rest]
    simp only [bind_eq_bind, bind_some]
    rw [readItems_layout items level k rest (by omega)]
    rfl
termination_by n

private theorem readField_layout (key : String) (v : Value) (level n : Nat) (rest : List Char)
    (hn : (printString key).length + (layout level v).length < n) (h : Stops rest) :
    readField n (printString key ++ ':' :: ' ' :: (layout level v ++ rest)) = some ((key, v), rest) := by
  obtain ⟨k, rfl⟩ : ∃ k, n = k + 1 := ⟨n - 1, by omega⟩
  rw [readField, skip_printString, parseString_printString]
  simp only [bind_eq_bind, bind_some]
  rw [skip_cons rfl]
  simp only
  rw [readValue_skip k (skip_blank _), readValue_layout v level k rest (by omega) fun _ _ => h]
  rfl
termination_by n

private theorem readFields_layout (fields : List (String × Value)) (level n : Nat) (rest : List Char)
    (hn : (layoutFields level fields).length ≤ n) :
    readFields n (layoutFields level fields ++ rest) = some (fields, rest) := by
  cases fields with
  | nil =>
    obtain ⟨k, rfl⟩ : ∃ k, n = k + 1 := ⟨n - 1, by simp [layoutFields] at hn; omega⟩
    rw [readFields, layoutFields, append_assoc, skip_newline]
    rfl
  | cons field fields =>
    obtain ⟨key, v⟩ := field
    simp only [layoutFields, cons_append, append_assoc, length_cons, length_append] at hn ⊢
    obtain ⟨k, rfl⟩ : ∃ k, n = k + 1 := ⟨n - 1, by omega⟩
    rw [readFields, skip_cons rfl]
    simp only
    rw [readField_skip k (skip_newline (level + 1) _),
      readField_layout key v (level + 1) k _ (by omega) (stops_layoutFields level fields rest)]
    simp only [bind_eq_bind, bind_some]
    rw [readFields_layout fields level k rest (by omega)]
    rfl
termination_by n

end

theorem layout_object (level : Nat) (fields : List (String × Value)) :
    ∃ l, layout level (.object fields) = '\x7b' :: (l ++ ['\x7d']) := by
  have hend : ∀ fields : List (String × Value), ∃ l, layoutFields level fields = l ++ ['\x7d'] := by
    intro fields
    induction fields with
    | nil => exact ⟨_, rfl⟩
    | cons field fields ih =>
      obtain ⟨l, hl⟩ := ih
      obtain ⟨key, v⟩ := field
      refine ⟨',' :: (newline (level + 1) ++ (printString key ++ ':' :: ' ' :: (layout (level + 1) v ++ l))), ?_⟩
      simp [layoutFields, hl]
  rcases fields with _ | ⟨⟨key, v⟩, fields⟩
  · exact ⟨[], rfl⟩
  obtain ⟨l, hl⟩ := hend fields
  refine ⟨newline (level + 1) ++ (printString key ++ ':' :: ' ' :: (layout (level + 1) v ++ l)), ?_⟩
  simp [layout, hl]

/-- The text of an object does not begin with that of another. -/
theorem prefix_stringify {fields fields' : List (String × Value)} {more : List Char}
    (h : stringify (.object fields) ++ more = stringify (.object fields')) : more = [] := by
  have hread : ∀ (fields : List (String × Value)) (n : Nat) (rest : List Char),
      (stringify (.object fields)).length ≤ n →
        readValue n (stringify (.object fields) ++ rest) = some (.object fields, rest) :=
    fun fields n rest hn => readValue_layout (.object fields) 0 n rest hn fun _ hm => by cases hm
  have hle : (stringify (.object fields)).length ≤ (stringify (.object fields')).length := by
    rw [← h, length_append]
    omega
  have hbegin := hread fields _ more hle
  have hwhole := hread fields' _ [] (Nat.le_refl _)
  rw [h] at hbegin
  rw [append_nil, hbegin] at hwhole
  exact (mk.inj (some.inj hwhole)).2

/-- `JSON.parse` reads back what `JSON.stringify` has written with indentation. -/
theorem readText_stringify (v : Value) {rest : List Char} (hrest : skip rest = []) (h : Stops rest) :
    readText (stringify v ++ rest) = some v := by
  unfold readText stringify
  rw [readValue_layout v 0 _ rest (by simp only [length_append]; omega) fun _ _ => h]
  simp only
  rw [if_pos hrest]

end JsonText
