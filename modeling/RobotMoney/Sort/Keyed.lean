import Mathlib.Data.Finset.Sort

/-!
# Lists with one entry per key

Sorting with a comparison function, and lists in ascending order of a key.  An entry is put into such a list in place of
the entry with its key (`mem_put`, `mem_putAll`), and ascending lists with the same members are equal (`eq_of_mem_iff`).
So what a hash set gives in any order is sorted into one list (`HashOrder.sortByKey_iter`).
-/

namespace Keyed

open List Finset

variable {α κ : Type} [LinearOrder κ] (key : α → κ)

/-- `Array.prototype.sort`: the comparison is negative when its first argument comes first. -/
def sort (cmp : α → α → Int) (l : List α) : List α := l.insertionSort fun a b => cmp a b ≤ 0

def Ascending (l : List α) : Prop := l.Pairwise fun a b => key a < key b

def Follows (cmp : α → α → Int) : Prop := ∀ a b, key a ≠ key b → (cmp a b ≤ 0 ↔ key a < key b)

variable {key} {cmp : α → α → Int} {l : List α}

private theorem mem_sort {a : α} : a ∈ sort cmp l ↔ a ∈ l := (perm_insertionSort _ l).mem_iff

private theorem ascending_orderedInsert (hcmp : Follows key cmp) {a : α} (hl : Ascending key l)
    (ha : ∀ b ∈ l, key b ≠ key a) : Ascending key (l.orderedInsert (fun a b => cmp a b ≤ 0) a) := by
  induction l with
  | nil => exact pairwise_singleton _ a
  | cons b l ih =>
    obtain ⟨hb, hl⟩ := pairwise_cons.1 hl
    have hab : key a ≠ key b := fun h => ha b (by simp) h.symm
    rw [orderedInsert_cons]
    split
    · rename_i hle
      have hlt := (hcmp a b hab).1 hle
      refine pairwise_cons.2 ⟨?_, pairwise_cons.2 ⟨hb, hl⟩⟩
      intro x hx
      rcases mem_cons.1 hx with rfl | hx
      · exact hlt
      · exact hlt.trans (hb x hx)
    rename_i hle
    have hlt : key b < key a := lt_of_le_of_ne (not_lt.1 fun h => hle ((hcmp a b hab).2 h)) hab.symm
    refine pairwise_cons.2 ⟨?_, ih hl fun x hx => ha x (mem_cons_of_mem b hx)⟩
    intro x hx
    rcases (mem_orderedInsert _).1 hx with rfl | hx
    · exact hlt
    · exact hb x hx

private theorem ascending_sort (hcmp : Follows key cmp) (hl : (l.map key).Nodup) : Ascending key (sort cmp l) := by
  induction l with
  | nil => exact List.Pairwise.nil
  | cons a l ih =>
    obtain ⟨ha, hl⟩ := nodup_cons.1 hl
    apply ascending_orderedInsert hcmp (ih hl)
    intro b hb h
    exact ha (h ▸ mem_map_of_mem (mem_sort.1 hb))

theorem nodup_of_ascending (hl : Ascending key l) : (l.map key).Nodup :=
  (pairwise_map.2 hl).imp fun h => h.ne

variable {l' : List α}

/-- An ascending list is determined by its members. -/
theorem eq_of_mem_iff (hl : Ascending key l) (hl' : Ascending key l') (hmem : ∀ a, a ∈ l ↔ a ∈ l') : l = l' := by
  have hnodup : l.Nodup := (nodup_of_ascending hl).of_map
  have hnodup' : l'.Nodup := (nodup_of_ascending hl').of_map
  have hperm : l.Perm l' := (perm_ext_iff_of_nodup hnodup hnodup').2 hmem
  exact hperm.eq_of_pairwise (fun a b _ _ hab hba => absurd hba (lt_asymm hab)) hl hl'

/-- Sorting leaves an ascending list as it is. -/
theorem sort_eq_self (hcmp : Follows key cmp) (hl : Ascending key l) : sort cmp l = l :=
  eq_of_mem_iff (ascending_sort hcmp (nodup_of_ascending hl)) hl fun _ => mem_sort

/-- Replace the entry with the key of `a`, or add one. -/
def put (key : α → κ) (cmp : α → α → Int) (l : List α) (a : α) : List α :=
  sort cmp (l.filter (fun b => key b ≠ key a) ++ [a])

variable {b : α}

theorem mem_put {a : α} : b ∈ put key cmp l a ↔ b = a ∨ b ∈ l ∧ key b ≠ key a := by
  unfold put
  rw [mem_sort, List.mem_append, List.mem_filter, List.mem_singleton, decide_eq_true_iff]
  exact or_comm

/-- Putting an entry into an ascending list keeps it ascending. -/
theorem ascending_put (hcmp : Follows key cmp) (hl : Ascending key l) (a : α) : Ascending key (put key cmp l a) := by
  apply ascending_sort hcmp
  rw [map_append, nodup_append]
  refine ⟨((nodup_of_ascending hl).sublist (filter_sublist.map key)), by simp, ?_⟩
  rintro x hx y hy rfl
  obtain ⟨b, hb, rfl⟩ := mem_map.1 hx
  have hne : key b ≠ key a := by simpa using (mem_filter.1 hb).2
  exact hne (by simpa using hy)

def putAll (key : α → κ) (cmp : α → α → Int) (l : List α) (entries : List α) : List α := entries.foldl (put key cmp) l

theorem ascending_putAll (hcmp : Follows key cmp) (hl : Ascending key l) (entries : List α) :
    Ascending key (putAll key cmp l entries) := by
  induction entries generalizing l with
  | nil => exact hl
  | cons a entries ih => exact ih (ascending_put hcmp hl a)

/-- New entries replace those of the same keys, and only those. -/
theorem mem_putAll {entries : List α} (hentries : (entries.map key).Nodup) :
    b ∈ putAll key cmp l entries ↔ b ∈ entries ∨ b ∈ l ∧ ∀ a ∈ entries, key b ≠ key a := by
  induction entries generalizing l with
  | nil => simp [putAll]
  | cons a entries ih =>
    obtain ⟨ha, hentries⟩ := nodup_cons.1 hentries
    rw [putAll, foldl_cons, ← putAll, ih hentries, mem_put]
    have hne : b = a → ∀ x ∈ entries, key b ≠ key x := by
      rintro rfl x hx h
      exact ha (h ▸ mem_map_of_mem hx)
    rw [List.forall_mem_cons, List.mem_cons]
    constructor
    · rintro (hb | ⟨rfl | ⟨hb, hba⟩, hall⟩)
      · exact .inl (.inr hb)
      · exact .inl (.inl rfl)
      · exact .inr ⟨hb, hba, hall⟩
    · rintro ((rfl | hb) | ⟨hb, hba, hall⟩)
      · exact .inr ⟨.inl rfl, hne rfl⟩
      · exact .inl hb
      · exact .inr ⟨.inr ⟨hb, hba⟩, hall⟩

def Agree (key : α → κ) (S : α → Prop) : Prop := ∀ a b, S a → S b → key a = key b → a = b

/-- `sort_by_key`, which is stable. -/
def sortByKey (key : α → κ) (l : List α) : List α := l.insertionSort fun a b => key a ≤ key b

theorem sortByKey_perm (l : List α) : (sortByKey key l).Perm l := perm_insertionSort _ l

theorem mem_sortByKey {a : α} : a ∈ sortByKey key l ↔ a ∈ l := (sortByKey_perm l).mem_iff

theorem pairwise_sortByKey (l : List α) : (sortByKey key l).Pairwise fun a b => key a ≤ key b := by
  have htotal : Std.Total fun a b : α => key a ≤ key b := ⟨fun a b => le_total (key a) (key b)⟩
  have htrans : IsTrans α fun a b => key a ≤ key b := ⟨fun _ _ _ => le_trans⟩
  exact pairwise_insertionSort _ l

private theorem ascending_sortByKey (hl : (l.map key).Nodup) : Ascending key (sortByKey key l) := by
  have hnodup : ((sortByKey key l).map key).Nodup := ((sortByKey_perm l).map key).nodup_iff.2 hl
  rw [List.Nodup, pairwise_map] at hnodup
  exact (pairwise_sortByKey l).imp₂ (fun _ _ hle hne => lt_of_le_of_ne hle hne) hnodup

theorem head?_sortByKey {a : α} (h : (sortByKey key l).head? = some a) : a ∈ l ∧ ∀ b ∈ l, key a ≤ key b := by
  have hsorted := (pairwise_sortByKey l : (sortByKey key l).Pairwise _)
  cases hl : sortByKey key l with
  | nil =>
    rw [hl] at h
    cases h
  | cons x rest =>
    rw [hl] at h hsorted
    cases h
    have hmem : ∀ b, b ∈ l ↔ b ∈ a :: rest := fun b => by rw [← hl, mem_sortByKey]
    refine ⟨(hmem a).2 mem_cons_self, fun b hb => ?_⟩
    rcases mem_cons.1 ((hmem b).1 hb) with rfl | hb
    · exact le_refl _
    · exact (pairwise_cons.1 hsorted).1 b hb

theorem head?_sortByKey_eq_none : (sortByKey key l).head? = none ↔ l = [] := by
  rw [head?_eq_none_iff, ← length_eq_zero_iff, (sortByKey_perm l).length_eq, length_eq_zero_iff]

theorem sublist_sortByKey {c : List α} (hc : c.Pairwise fun a b => key a ≤ key b) (h : c.Sublist l) :
    c.Sublist (sortByKey key l) := sublist_insertionSort hc h

theorem sortByKey_map {β : Type} (f : β → α) (l : List β) :
    sortByKey key (l.map f) = (sortByKey (fun b => key (f b)) l).map f :=
  (map_insertionSort _ _ f l fun _ _ _ _ => Iff.rfl).symm

/-- Sorting finds the one ascending order. -/
theorem sortByKey_eq (hl' : Ascending key l') (h : l.Perm l') : sortByKey key l = l' := by
  have hkeys : (l.map key).Nodup := (h.map key).nodup_iff.2 (nodup_of_ascending hl')
  exact eq_of_mem_iff (ascending_sortByKey hkeys) hl' fun a => mem_sortByKey.trans h.mem_iff

end Keyed

/-- The order in which a hash set is iterated: it may be any, and another one for each set. -/
structure HashOrder (α : Type) where
  iter : Finset α → List α
  nodup_iter : ∀ s, (iter s).Nodup
  mem_iter : ∀ s a, a ∈ iter s ↔ a ∈ s

namespace HashOrder

variable {α : Type}

section DecidableEq

variable [DecidableEq α] (a : α)

private theorem nodup_startingWith (s : Finset α) : (if a ∈ s then a :: (s.erase a).toList else s.toList).Nodup := by
  split
  · refine List.nodup_cons.2 ⟨fun h => ?_, Finset.nodup_toList _⟩
    rw [Finset.mem_toList] at h
    exact Finset.notMem_erase a s h
  · exact Finset.nodup_toList _

private theorem mem_startingWith (s : Finset α) (b : α) :
    b ∈ (if a ∈ s then a :: (s.erase a).toList else s.toList) ↔ b ∈ s := by
  split
  · rename_i ha
    rw [List.mem_cons, Finset.mem_toList, Finset.mem_erase]
    constructor
    · rintro (rfl | h)
      · exact ha
      · exact h.2
    · intro hb
      exact (eq_or_ne b a).imp_right fun hne => ⟨hne, hb⟩
  · exact Finset.mem_toList

noncomputable def startingWith : HashOrder α where
  iter s := if a ∈ s then a :: (s.erase a).toList else s.toList
  nodup_iter := nodup_startingWith a
  mem_iter := mem_startingWith a

end DecidableEq

variable [LinearOrder α]

def ascending : HashOrder α where
  iter s := s.sort
  nodup_iter s := s.sort_nodup (· ≤ ·)
  mem_iter _ _ := Finset.mem_sort _

/-- Sorting undoes the random order of a hash map. -/
theorem sortByKey_iter (order : HashOrder α) (s : Finset α) : Keyed.sortByKey id (order.iter s) = s.sort := by
  have hsorted : Keyed.Ascending id s.sort := s.sortedLT_sort.pairwise
  refine Keyed.sortByKey_eq hsorted
    ((List.perm_ext_iff_of_nodup (order.nodup_iter s) (s.sort_nodup (· ≤ ·))).2 fun a => ?_)
  rw [order.mem_iter, Finset.mem_sort]

end HashOrder
