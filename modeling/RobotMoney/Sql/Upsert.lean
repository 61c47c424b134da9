import Mathlib.Data.List.Induction
import Mathlib.Data.List.Nodup

/-!
# Tables with a conflict arm

`INSERT … ON CONFLICT DO UPDATE` merges what is inserted into the row that is there.  A script of such insertions leaves
in each row the merge of all values of its key (`exists_of_mem_upserts`), and where all keys are there it only merges
(`upserts_of_present`).  A run that is cut and started again leaves what one run leaves, up to what merging the values
of the first part once more does to its rows (`upserts_retry`).
-/

namespace SqlTable

open List

variable {κ σ ν : Type} [DecidableEq κ] (merge : σ → ν → σ) (blank : σ)

/-- `INSERT … ON CONFLICT (key) DO UPDATE`; a row that is not there is the merge into a blank one. -/
def upsert (t : List (κ × σ)) (c : κ × ν) : List (κ × σ) :=
  if t.any (fun x => decide (x.1 = c.1)) then t.map fun x => if x.1 = c.1 then (x.1, merge x.2 c.2) else x
  else t ++ [(c.1, merge blank c.2)]

def upserts (t : List (κ × σ)) (script : List (κ × ν)) : List (κ × σ) := script.foldl (upsert merge blank) t

def valuesOf (script : List (κ × ν)) (k : κ) : List ν := (script.filter fun c => decide (c.1 = k)).map Prod.snd

variable {merge} {blank} {t : List (κ × σ)} {c : κ × ν} {script p q : List (κ × ν)}

private theorem valuesOf_append_singleton_self (script : List (κ × ν)) (c : κ × ν) :
    valuesOf (script ++ [c]) c.1 = valuesOf script c.1 ++ [c.2] := by
  simp [valuesOf]

theorem valuesOf_append_singleton_of_ne {k : κ} (h : c.1 ≠ k) : valuesOf (script ++ [c]) k = valuesOf script k := by
  simp [valuesOf, h]

theorem valuesOf_eq_nil {k : κ} (h : ∀ c ∈ script, c.1 ≠ k) : valuesOf script k = [] := by
  rw [valuesOf, map_eq_nil_iff, filter_eq_nil_iff]
  intro c hc hk
  exact h c hc (of_decide_eq_true hk)

private theorem upsert_cases (merge : σ → ν → σ) (blank : σ) (t : List (κ × σ)) (c : κ × ν) :
    (upsert merge blank t c = t.map (fun x => if x.1 = c.1 then (x.1, merge x.2 c.2) else x) ∧ ∃ x ∈ t, x.1 = c.1) ∨
      (upsert merge blank t c = t ++ [(c.1, merge blank c.2)] ∧ ∀ x ∈ t, x.1 ≠ c.1) := by
  unfold upsert
  split
  · rename_i hany
    obtain ⟨x, hx, hkey⟩ := any_eq_true.1 hany
    exact .inl ⟨rfl, x, hx, of_decide_eq_true hkey⟩
  rename_i hany
  exact .inr ⟨rfl, fun x hx hkey => hany (any_eq_true.2 ⟨x, hx, decide_eq_true hkey⟩)⟩

@[simp] theorem upserts_append (t : List (κ × σ)) (p q : List (κ × ν)) :
    upserts merge blank t (p ++ q) = upserts merge blank (upserts merge blank t p) q := foldl_append

private theorem upserts_append_singleton (t : List (κ × σ)) (p : List (κ × ν)) (c : κ × ν) :
    upserts merge blank t (p ++ [c]) = upsert merge blank (upserts merge blank t p) c := by
  rw [upserts, foldl_append]
  rfl

private theorem exists_key_upsert {k : κ} (h : ∃ x ∈ t, x.1 = k) : ∃ x ∈ upsert merge blank t c, x.1 = k := by
  obtain ⟨x, hx, hk⟩ := h
  rcases upsert_cases merge blank t c with ⟨heq, -⟩ | ⟨heq, -⟩
  · rw [heq]
    refine ⟨_, mem_map_of_mem hx, ?_⟩
    split <;> exact hk
  rw [heq]
  exact ⟨x, mem_append_left _ hx, hk⟩

private theorem exists_key_upserts {k : κ} (h : ∃ x ∈ t, x.1 = k) : ∃ x ∈ upserts merge blank t script, x.1 = k := by
  induction script generalizing t with
  | nil => exact h
  | cons c script ih => exact ih (exists_key_upsert h)

theorem exists_key_of_mem_script (h : c ∈ script) : ∃ x ∈ upserts merge blank t script, x.1 = c.1 := by
  obtain ⟨pre, post, rfl⟩ := append_of_mem h
  rw [upserts_append, upserts, foldl_cons, ← upserts]
  apply exists_key_upserts
  rcases upsert_cases merge blank (upserts merge blank t pre) c with ⟨heq, x, hx, hk⟩ | ⟨heq, -⟩
  · exact exists_key_upsert ⟨x, hx, hk⟩
  · exact ⟨(c.1, merge blank c.2), by rw [heq]; simp, rfl⟩

/-- A row has merged the values of its key in the order of the script. -/
theorem exists_of_mem_upserts {x : κ × σ} (h : x ∈ upserts merge blank t script) :
    ∃ s₀, x.2 = (valuesOf script x.1).foldl merge s₀ := by
  induction script using reverseRecOn generalizing x with
  | nil => exact ⟨x.2, rfl⟩
  | append_singleton script c ih =>
    have hkeep : x ∈ upserts merge blank t script → c.1 ≠ x.1 →
        ∃ s₀, x.2 = (valuesOf (script ++ [c]) x.1).foldl merge s₀ := by
      intro hx hk
      rw [valuesOf_append_singleton_of_ne hk]
      exact ih hx
    rw [upserts_append_singleton] at h
    rcases upsert_cases merge blank (upserts merge blank t script) c with ⟨heq, -⟩ | ⟨heq, hfresh⟩
    · rw [heq] at h
      obtain ⟨y, hy, rfl⟩ := mem_map.1 h
      by_cases hk : y.1 = c.1
      · obtain ⟨s₀, hs₀⟩ := ih hy
        refine ⟨s₀, ?_⟩
        rw [if_pos hk]
        simp only
        rw [hk, valuesOf_append_singleton_self, foldl_append, ← hk, ← hs₀]
        rfl
      rw [if_neg hk] at hkeep ⊢
      exact hkeep hy (Ne.symm hk)
    rw [heq, mem_append, mem_singleton] at h
    rcases h with hx | rfl
    · exact hkeep hx (fun hk => hfresh x hx hk.symm)
    refine ⟨blank, ?_⟩
    have hnone : valuesOf script c.1 = [] := by
      apply valuesOf_eq_nil
      intro c' hc' hk
      obtain ⟨y, hy, hy'⟩ : ∃ y ∈ upserts merge blank t script, _ := exists_key_of_mem_script hc'
      exact hfresh y hy (hy'.trans hk)
    rw [valuesOf_append_singleton_self, hnone]
    rfl

private theorem upserts_of_present (h : ∀ c ∈ script, ∃ x ∈ t, x.1 = c.1) :
    upserts merge blank t script = t.map fun x => (x.1, (valuesOf script x.1).foldl merge x.2) := by
  induction script using reverseRecOn with
  | nil => exact (map_id t).symm
  | append_singleton script c ih =>
    have ih := ih fun c' hc' => h c' (mem_append_left _ hc')
    obtain ⟨y, hy, hk⟩ := h c (by simp)
    rw [upserts_append_singleton]
    rcases upsert_cases merge blank (upserts merge blank t script) c with ⟨heq, -⟩ | ⟨-, hfresh⟩
    · rw [heq, ih, map_map]
      apply map_congr_left
      intro x _
      simp only [Function.comp_apply]
      by_cases hx : x.1 = c.1
      · rw [if_pos hx, hx, valuesOf_append_singleton_self, foldl_append]
        rfl
      · rw [if_neg hx, valuesOf_append_singleton_of_ne (Ne.symm hx)]
    obtain ⟨z, hz, hzk⟩ : ∃ z ∈ upserts merge blank t script, _ := exists_key_upserts ⟨y, hy, hk⟩
    exact (hfresh z hz hzk).elim

private theorem upserts_map {g : κ → σ → σ} (hmerge : ∀ k s v, merge (g k s) v = g k (merge s v))
    (hfresh : ∀ k, (∀ x ∈ t, x.1 ≠ k) → ∀ s, g k s = s) : upserts merge blank (t.map fun x => (x.1, g x.1 x.2)) script =
      (upserts merge blank t script).map fun x => (x.1, g x.1 x.2) := by
  induction script generalizing t with
  | nil => rfl
  | cons c script ih =>
    have hstep : upsert merge blank (t.map fun x => (x.1, g x.1 x.2)) c =
        (upsert merge blank t c).map fun x => (x.1, g x.1 x.2) := by
      have hany : (t.map fun x => (x.1, g x.1 x.2)).any (fun x => decide (x.1 = c.1)) =
          t.any fun x => decide (x.1 = c.1) := by
        rw [any_map]
        rfl
      rw [upsert, upsert, hany]
      split
      · rw [map_map, map_map]
        apply map_congr_left
        intro x _
        simp only [Function.comp_apply]
        split
        · rw [hmerge]
        · rfl
      rename_i hno
      have hkey : ∀ x ∈ t, x.1 ≠ c.1 := fun x hx hk => hno (any_eq_true.2 ⟨x, hx, decide_eq_true hk⟩)
      rw [map_append, map_singleton, hfresh c.1 hkey]
    have hrest : ∀ k, (∀ x ∈ upsert merge blank t c, x.1 ≠ k) → ∀ s, g k s = s := by
      intro k hk
      apply hfresh k
      intro x hx hxk
      obtain ⟨y, hy, hyk⟩ : ∃ y ∈ upsert merge blank t c, _ := exists_key_upsert ⟨x, hx, hxk⟩
      exact hk y hy hyk
    rw [upserts, foldl_cons, hstep]
    exact ih hrest

/-- A script of upserts that starts again ends as if it had run once. -/
theorem upserts_retry {g : κ → σ → σ} (hmerge : ∀ k s v, merge (g k s) v = g k (merge s v))
    (hfresh : ∀ k, (∀ x ∈ upserts merge blank t p, x.1 ≠ k) → ∀ s, g k s = s)
    (htwice : ∀ x ∈ upserts merge blank t p, (valuesOf p x.1).foldl merge x.2 = g x.1 x.2) :
    upserts merge blank (upserts merge blank t p) (p ++ q) =
      (upserts merge blank t (p ++ q)).map fun x => (x.1, g x.1 x.2) := by
  rw [upserts_append, upserts_append, upserts_of_present fun c hc => exists_key_of_mem_script hc,
    ← upserts_map hmerge hfresh]
  congr 1
  apply map_congr_left
  intro x hx
  rw [htwice x hx]

end SqlTable
