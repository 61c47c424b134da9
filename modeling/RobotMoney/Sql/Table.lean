import Mathlib.Data.List.MinMax

/-!
# Tables with a primary key

A table is the list of its rows in the order of their insertion.  `INSERT … ON CONFLICT DO NOTHING` keeps the row that
is there, so inserting a row again changes nothing, and a row that a `DELETE` would take leaves no trace in what the
`DELETE` keeps.  `ORDER BY … DESC LIMIT 1` is `List.argmax`.
-/

namespace SqlTable

open List

variable {ρ κ : Type} [DecidableEq κ] {key : ρ → κ} {r r' : ρ} {t : List ρ}

/-- `INSERT … ON CONFLICT (key) DO NOTHING`. -/
def insertNew (key : ρ → κ) (r : ρ) (t : List ρ) : List ρ :=
  if t.any (fun x => decide (key x = key r)) then t else t ++ [r]

theorem insertNew_of_mem (h : r' ∈ t) (hkey : key r' = key r) : insertNew key r t = t := by
  have hany : t.any (fun x => decide (key x = key r)) = true := by
    rw [any_eq_true]
    exact ⟨r', h, by simpa using hkey⟩
  rw [insertNew, if_pos hany]

theorem insertNew_of_fresh (h : ∀ x ∈ t, key x ≠ key r) : insertNew key r t = t ++ [r] := by
  have hany : t.any (fun x => decide (key x = key r)) = false := by
    rw [any_eq_false]
    intro x hx
    simpa using h x hx
  rw [insertNew, hany]
  rfl

/-- `ON CONFLICT DO NOTHING` either keeps the table or appends the row. -/
theorem insertNew_cases (key : ρ → κ) (r : ρ) (t : List ρ) : (insertNew key r t = t ∧ ∃ x ∈ t, key x = key r) ∨
      (insertNew key r t = t ++ [r] ∧ ∀ x ∈ t, key x ≠ key r) := by
  by_cases h : ∃ x ∈ t, key x = key r
  · obtain ⟨x, hx, hkey⟩ := h
    exact .inl ⟨insertNew_of_mem hx hkey, x, hx, hkey⟩
  have hfresh : ∀ x ∈ t, key x ≠ key r := fun x hx hkey => h ⟨x, hx, hkey⟩
  exact .inr ⟨insertNew_of_fresh hfresh, hfresh⟩

theorem mem_of_mem_insertNew {x : ρ} (h : x ∈ insertNew key r t) : x ∈ t ∨ x = r := by
  obtain ⟨heq, -⟩ | ⟨heq, -⟩ := insertNew_cases key r t
  · rw [heq] at h
    exact .inl h
  rw [heq, mem_append, mem_singleton] at h
  exact h

theorem mem_insertNew_of_mem {x : ρ} (h : x ∈ t) : x ∈ insertNew key r t := by
  obtain ⟨heq, -⟩ | ⟨heq, -⟩ := insertNew_cases key r t
  · rwa [heq]
  rw [heq]
  exact mem_append_left _ h

theorem exists_mem_insertNew (key : ρ → κ) (r : ρ) (t : List ρ) : ∃ x ∈ insertNew key r t, key x = key r := by
  obtain ⟨heq, x, hx, hkey⟩ | ⟨heq, -⟩ := insertNew_cases key r t
  · exact ⟨x, by rwa [heq], hkey⟩
  · exact ⟨r, by rw [heq]; simp, rfl⟩

theorem mem_of_mem_foldl_insertNew {new : List ρ} {x : ρ} (h : x ∈ new.foldl (fun t r => insertNew key r t) t) :
    x ∈ t ∨ x ∈ new := by
  induction new using reverseRecOn with
  | nil => exact .inl h
  | append_singleton new r ih =>
    rw [foldl_append] at h
    obtain h | rfl := mem_of_mem_insertNew h
    · exact (ih h).imp_right (mem_append_left _)
    · exact .inr (by simp)

theorem mem_foldl_insertNew_of_mem {x : ρ} (h : x ∈ t) (new : List ρ) :
    x ∈ new.foldl (fun t r => insertNew key r t) t := by
  induction new using reverseRecOn with
  | nil => exact h
  | append_singleton new r ih =>
    rw [foldl_append]
    exact mem_insertNew_of_mem ih

theorem exists_mem_foldl_insertNew {new : List ρ} (hr : r ∈ new) :
    ∃ x ∈ new.foldl (fun t r => insertNew key r t) t, key x = key r := by
  induction new using reverseRecOn with
  | nil => cases hr
  | append_singleton new last ih =>
    rw [foldl_append]
    rcases mem_append.1 hr with hr | hr
    · obtain ⟨x, hx, hkey⟩ := ih hr
      exact ⟨x, mem_insertNew_of_mem hx, hkey⟩
    obtain rfl := mem_singleton.1 hr
    exact exists_mem_insertNew ..

/-- The key stays unique. -/
theorem nodup_insertNew (h : (t.map key).Nodup) : ((insertNew key r t).map key).Nodup := by
  obtain ⟨heq, -⟩ | ⟨heq, hfresh⟩ := insertNew_cases key r t
  · rwa [heq]
  rw [heq, map_append, nodup_append]
  refine ⟨h, by simp, ?_⟩
  intro k hk k' hk' hkk'
  obtain ⟨x, hx, rfl⟩ := mem_map.1 hk
  exact hfresh x hx (hkk'.trans (mem_singleton.1 hk'))

theorem filter_key_of_nodup (h : (t.map key).Nodup) (hr : r ∈ t) :
    t.filter (fun x => decide (key x = key r)) = [r] := by
  obtain ⟨pre, post, rfl⟩ := append_of_mem hr
  rw [(perm_middle.map key).nodup_iff, map_cons, nodup_cons] at h
  have hother : ∀ x ∈ pre ++ post, key x ≠ key r := fun x hx hkey => h.1 (hkey ▸ mem_map_of_mem hx)
  have hpre : pre.filter (fun x => decide (key x = key r)) = [] :=
    filter_eq_nil_iff.2 fun x hx => by simpa using hother x (mem_append_left _ hx)
  have hpost : post.filter (fun x => decide (key x = key r)) = [] :=
    filter_eq_nil_iff.2 fun x hx => by simpa using hother x (mem_append_right _ hx)
  rw [filter_append, filter_cons, hpre, hpost]
  simp

theorem filter_insertNew {p : ρ → Bool} (h : p r = false) : (insertNew key r t).filter p = t.filter p := by
  obtain ⟨heq, -⟩ | ⟨heq, -⟩ := insertNew_cases key r t
  · rw [heq]
  rw [heq, filter_append, filter_cons, h]
  simp

theorem argmax_append_of_newest {β : Type} [LinearOrder β] {f : ρ → β} (h : ∀ x ∈ t, f x < f r) :
    (t ++ [r]).argmax f = some r := by
  rw [argmax_concat]
  cases hmax : t.argmax f with
  | none => rfl
  | some x => exact if_pos (h x (argmax_mem hmax))

theorem argmax_eq_of_newest {β : Type} [LinearOrder β] {f : ρ → β} (hr : r ∈ t) (h : ∀ x ∈ t, x ≠ r → f x < f r) :
    t.argmax f = some r := by
  cases hmax : t.argmax f with
  | none =>
    rw [argmax_eq_none.1 hmax] at hr
    cases hr
  | some x =>
    by_contra hne
    have hlt := h x (argmax_mem hmax) fun heq => hne (by rw [heq])
    exact absurd hlt (le_of_mem_argmax hr hmax).not_gt

end SqlTable
