import Mathlib.Data.List.Forall2
import RobotMoney.Sql.Replay
import RobotMoney.Sql.Table

/-!
# Tables with updates in place

A script of insertions with `ON CONFLICT DO NOTHING` and of updates of a row in place.  A second run of the script finds
the rows of the first, so an update may reach a row that was not there the first time; a later update of the same row
hides that.  A run that is cut and started again leaves what one run leaves (`foldl_retry_update`), if each row that is
updated before it is inserted is updated after that, too (`Settled`).
-/

namespace SqlTable

open List

variable {ι ρ κ σ : Type}

def Settled (inserts updates : ι → Option κ) (present : κ → Prop) (script : List ι) : Prop :=
  ∀ pre c post k, script = pre ++ c :: post → inserts c = some k → ¬ present k → (∀ c' ∈ pre, inserts c' ≠ some k) →
    (∃ c' ∈ pre, updates c' = some k) → ∃ c' ∈ post, updates c' = some k

theorem Settled.of_pairwise {inserts updates : ι → Option κ} {present : κ → Prop} {script : List ι}
    (h : script.Pairwise fun c' c => ∀ k, inserts c = some k → updates c' ≠ some k) :
    Settled inserts updates present script := by
  rintro pre c post k rfl hc - - ⟨c', hc', hk⟩
  rw [pairwise_append] at h
  exact (h.2.2 c' hc' c mem_cons_self k hc hk).elim

theorem Settled.flatMap {α : Type} {inserts' updates' : α → Option κ} {inserts updates : ι → Option κ}
    {present : κ → Prop} {f : α → List ι} {l : List α} (h : Settled inserts' updates' present l)
    (hinserts : ∀ a k, inserts' a = some k ↔ ∃ c ∈ f a, inserts c = some k)
    (hupdates : ∀ a k, updates' a = some k ↔ ∃ c ∈ f a, updates c = some k)
    (hone : ∀ a k, inserts' a = some k → updates' a ≠ some k) : Settled inserts updates present (l.flatMap f) := by
  intro pre c post k hscript hc hpresent hfirst hbefore
  obtain ⟨l₁, a, l₂, pre', post', rfl, ha, rfl, rfl⟩ := Replay.flatMap_eq_append_cons hscript
  have hmem : c ∈ f a := by simp [ha]
  have hinsert : inserts' a = some k := (hinserts a k).2 ⟨c, hmem, hc⟩
  have hfirst' : ∀ b ∈ l₁, inserts' b ≠ some k := by
    intro b hb hk
    obtain ⟨c', hc', hk'⟩ := (hinserts b k).1 hk
    exact hfirst c' (mem_append_left _ (mem_flatMap.2 ⟨b, hb, hc'⟩)) hk'
  have hbefore' : ∃ b ∈ l₁, updates' b = some k := by
    obtain ⟨c', hc', hk⟩ := hbefore
    rcases mem_append.1 hc' with hc' | hc'
    · obtain ⟨b, hb, hc'⟩ := mem_flatMap.1 hc'
      exact ⟨b, hb, (hupdates b k).2 ⟨c', hc', hk⟩⟩
    · exact (hone a k hinsert ((hupdates a k).2 ⟨c', by simp [ha, hc'], hk⟩)).elim
  obtain ⟨b, hb, hk⟩ := h l₁ a l₂ k rfl hinsert hpresent hfirst' hbefore'
  obtain ⟨c', hc', hk⟩ := (hupdates b k).1 hk
  exact ⟨c', mem_append_right _ (mem_flatMap.2 ⟨b, hb, hc'⟩), hk⟩

inductive Change (ρ κ σ : Type) where
  /-- `INSERT … ON CONFLICT DO NOTHING`. -/
  | insert (row : ρ)
  /-- `UPDATE … SET … WHERE key = k`. -/
  | update (k : κ) (x : σ)
  /-- Another table. -/
  | skip

def Change.inserts (key : ρ → κ) : Change ρ κ σ → Option κ
  | .insert row => some (key row)
  | _ => none

def Change.updates : Change ρ κ σ → Option κ
  | .update k _ => some k
  | _ => none

variable {key : ρ → κ} {put : σ → ρ → ρ} {t t' : List ρ} {p q : List (Change ρ κ σ)} {c : Change ρ κ σ}

/-- An update keeps the key, and the last one counts. -/
structure LawfulPut (key : ρ → κ) (put : σ → ρ → ρ) : Prop where
  key_put : ∀ x r, key (put x r) = key r
  put_put : ∀ x y r, put x (put y r) = put x r

def SameAfter (key : ρ → κ) (put : σ → ρ → ρ) (q : List (Change ρ κ σ)) (r r' : ρ) : Prop :=
  r' = r ∨ (∃ x, r' = put x r) ∧ ∃ c ∈ q, Change.updates c = some (key r)

theorem SameAfter.key_eq (hput : LawfulPut key put) {r r' : ρ} (h : SameAfter key put q r r') : key r' = key r := by
  rcases h with rfl | ⟨⟨x, rfl⟩, -⟩
  · rfl
  · exact hput.key_put ..

theorem SameAfter.of_cons {r r' : ρ} (h : SameAfter key put (c :: q) r r') (hc : Change.updates c ≠ some (key r)) :
    SameAfter key put q r r' := by
  rcases h with h | ⟨hput, c', hc', hk⟩
  · exact .inl h
  rcases mem_cons.1 hc' with rfl | hc'
  · exact (hc hk).elim
  · exact .inr ⟨hput, c', hc', hk⟩

variable [DecidableEq κ]

def Change.exec (key : ρ → κ) (put : σ → ρ → ρ) (t : List ρ) : Change ρ κ σ → List ρ
  | .insert row => insertNew key row t
  | .update k x => t.map fun r => if key r = k then put x r else r
  | .skip => t

def lastUpdate (p : List (Change ρ κ σ)) (k : κ) : Option σ :=
  p.foldl (fun last c => match c with | .update k' x => if k' = k then some x else last | _ => last) none

def updated (key : ρ → κ) (put : σ → ρ → ρ) (p : List (Change ρ κ σ)) (r : ρ) : ρ :=
  match lastUpdate p (key r) with
  | some x => put x r
  | none => r

private theorem key_updated (hput : LawfulPut key put) (r : ρ) : key (updated key put p r) = key r := by
  rw [updated]
  split
  · exact hput.key_put ..
  · rfl

@[simp] theorem lastUpdate_append (p : List (Change ρ κ σ)) (c : Change ρ κ σ) (k : κ) :
    lastUpdate (p ++ [c]) k = match c with
    | .update k' x => if k' = k then some x else lastUpdate p k
    | _ => lastUpdate p k := by
  rw [lastUpdate, foldl_append, foldl_cons, foldl_nil]
  cases c <;> rfl

private theorem exists_update_of_lastUpdate {k : κ} {x : σ} (h : lastUpdate p k = some x) :
    ∃ c ∈ p, Change.updates c = some k := by
  induction p using reverseRecOn with
  | nil => cases h
  | append_singleton p c ih =>
    rw [lastUpdate_append] at h
    have hinit : lastUpdate p k = some x → ∃ c' ∈ p ++ [c], Change.updates c' = some k := by
      intro h
      obtain ⟨c', hc', hk⟩ := ih h
      exact ⟨c', mem_append_left _ hc', hk⟩
    cases c with
    | insert row => exact hinit h
    | skip => exact hinit h
    | update k' x' =>
      by_cases hk : k' = k
      · exact ⟨.update k' x', by simp, by rw [hk]; rfl⟩
      simp only [if_neg hk] at h
      exact hinit h

private theorem exists_key_exec {k : κ} (h : ∃ r ∈ t, key r = k) (hput : LawfulPut key put) :
    ∃ r ∈ c.exec key put t, key r = k := by
  obtain ⟨r, hr, hk⟩ := h
  cases c with
  | insert row => exact ⟨r, mem_insertNew_of_mem hr, hk⟩
  | skip => exact ⟨r, hr, hk⟩
  | update k' x =>
    refine ⟨_, mem_map_of_mem hr, ?_⟩
    split
    · rw [hput.key_put, hk]
    · exact hk

private theorem exists_key_foldl {k : κ} (h : ∃ r ∈ t, key r = k) (hput : LawfulPut key put) :
    ∃ r ∈ p.foldl (Change.exec key put) t, key r = k := by
  induction p generalizing t with
  | nil => exact h
  | cons c p ih => exact ih (exists_key_exec h hput)

private theorem exists_key_of_mem (hput : LawfulPut key put) {row : ρ} (h : .insert row ∈ p) :
    ∃ r ∈ p.foldl (Change.exec key put) t, key r = key row := by
  obtain ⟨pre, post, rfl⟩ := append_of_mem h
  rw [foldl_append, foldl_cons]
  exact exists_key_foldl (exists_mem_insertNew key row _) hput

private theorem foldl_of_present (hput : LawfulPut key put) (h : ∀ row, .insert row ∈ p → ∃ r ∈ t, key r = key row) :
    p.foldl (Change.exec key put) t = t.map (updated key put p) := by
  induction p using reverseRecOn with
  | nil =>
    have hid : updated key put ([] : List (Change ρ κ σ)) = id := rfl
    rw [foldl_nil, hid, map_id]
  | append_singleton p c ih =>
    have ih := ih fun row hrow => h row (mem_append_left _ hrow)
    rw [foldl_append, foldl_cons, foldl_nil, ih]
    cases c with
    | skip =>
      have hsame : updated key put (p ++ [.skip]) = updated key put p := by
        funext r
        rw [updated, lastUpdate_append, updated]
      rw [hsame]
      rfl
    | insert row =>
      have hsame : updated key put (p ++ [.insert row]) = updated key put p := by
        funext r
        rw [updated, lastUpdate_append, updated]
      obtain ⟨r, hr, hk⟩ := h row (by simp)
      rw [hsame]
      refine insertNew_of_mem (mem_map_of_mem hr) ?_
      rw [key_updated hput, hk]
    | update k x =>
      rw [Change.exec, map_map]
      refine map_congr_left fun r _ => ?_
      rw [Function.comp_apply, key_updated hput]
      by_cases hk : key r = k
      · rw [if_pos hk, updated, updated, lastUpdate_append]
        simp only [if_pos hk.symm]
        split
        · exact hput.put_put ..
        · rfl
      rw [if_neg hk, updated, updated, lastUpdate_append]
      simp only [if_neg (Ne.symm hk)]

/-- A row shows the last update of its key, unless that came before the row. -/
theorem updated_of_mem_foldl (hput : LawfulPut key put) {r : ρ} (hr : r ∈ p.foldl (Change.exec key put) t) :
    updated key put p r = r ∨ ∃ pre row post, p = pre ++ .insert row :: post ∧ key row = key r ∧
      (∀ r' ∈ t, key r' ≠ key r) ∧ (∀ c ∈ pre, Change.inserts key c ≠ some (key r)) ∧
      (∃ c ∈ pre, Change.updates c = some (key r)) ∧ ∀ c ∈ post, Change.updates c ≠ some (key r) := by
  induction p using reverseRecOn generalizing r with
  | nil => exact .inl rfl
  | append_singleton p c ih =>
    rw [foldl_append, foldl_cons, foldl_nil] at hr
    -- A row that the last command does not touch.
    have hkeep : r ∈ p.foldl (Change.exec key put) t → Change.updates c ≠ some (key r) →
        updated key put (p ++ [c]) r = r ∨ ∃ pre row post, p ++ [c] = pre ++ .insert row :: post ∧ key row = key r ∧
          (∀ r' ∈ t, key r' ≠ key r) ∧ (∀ c ∈ pre, Change.inserts key c ≠ some (key r)) ∧
          (∃ c ∈ pre, Change.updates c = some (key r)) ∧ ∀ c ∈ post, Change.updates c ≠ some (key r) := by
      intro hr hc
      have hlast : lastUpdate (p ++ [c]) (key r) = lastUpdate p (key r) := by
        rw [lastUpdate_append]
        cases c with
        | update k x => exact if_neg fun hk => hc (congrArg some hk)
        | _ => rfl
      rcases ih hr with hsame | ⟨pre, row, post, rfl, hk, hfresh, hfirst, hbefore, hafter⟩
      · left
        rw [updated, hlast]
        exact hsame
      refine .inr ⟨pre, row, post ++ [c], by simp, hk, hfresh, hfirst, hbefore, ?_⟩
      intro c' hc'
      rw [mem_append, mem_singleton] at hc'
      rcases hc' with hc' | rfl
      · exact hafter c' hc'
      · exact hc
    cases c with
    | skip => exact hkeep hr fun h => by cases h
    | insert row =>
      rcases insertNew_cases key row (p.foldl (Change.exec key put) t) with ⟨heq, -⟩ | ⟨heq, hfresh⟩
      · rw [Change.exec, heq] at hr
        exact hkeep hr fun h => by cases h
      rw [Change.exec, heq, mem_append, mem_singleton] at hr
      rcases hr with hr | rfl
      · exact hkeep hr fun h => by cases h
      cases hlast : lastUpdate p (key r) with
      | none =>
        left
        rw [updated, lastUpdate_append, hlast]
      | some x =>
        refine .inr ⟨p, r, [], rfl, rfl, ?_, ?_, exists_update_of_lastUpdate hlast, by simp⟩
        · intro r' hr' hk
          obtain ⟨r'', hr'', hk'⟩ := exists_key_foldl (p := p) ⟨r', hr', hk⟩ hput
          exact hfresh r'' hr'' hk'
        · intro c hc hk
          cases c with
          | insert row' =>
            obtain ⟨r'', hr'', hk'⟩ := exists_key_of_mem (t := t) hput hc
            exact hfresh r'' hr'' (hk'.trans (Option.some.inj hk))
          | update k x' => cases hk
          | skip => cases hk
    | update k x =>
      obtain ⟨r', hr', rfl⟩ := mem_map.1 hr
      by_cases hk : key r' = k
      · left
        have hlast : lastUpdate (p ++ [.update k x]) (key r') = some x := by
          rw [lastUpdate_append]
          exact if_pos hk.symm
        rw [if_pos hk, updated, hput.key_put, hlast]
        exact hput.put_put ..
      rw [if_neg hk] at hkeep ⊢
      exact hkeep hr' fun h => hk (Option.some.inj h).symm

private theorem foldl_eq_of_sameAfter (hput : LawfulPut key put) (h : List.Forall₂ (SameAfter key put q) t t') :
    q.foldl (Change.exec key put) t' = q.foldl (Change.exec key put) t := by
  induction q generalizing t t' with
  | nil =>
    induction h with
    | nil => rfl
    | cons hsame _ ih =>
      rcases hsame with rfl | ⟨-, c, hc, -⟩
      · exact congrArg (_ :: ·) ih
      · cases hc
  | cons c q ih =>
    refine ih ?_
    cases c with
    | skip => exact h.imp fun r r' hsame => hsame.of_cons fun h => by cases h
    | insert row =>
      have hrest : List.Forall₂ (SameAfter key put q) t t' := h.imp fun r r' hsame => hsame.of_cons fun h => by cases h
      have hany : t'.any (fun x => decide (key x = key row)) = t.any fun x => decide (key x = key row) := by
        clear ih hrest
        induction h with
        | nil => rfl
        | cons hsame _ ih => rw [any_cons, any_cons, hsame.key_eq hput, ih]
      change List.Forall₂ (SameAfter key put q) (insertNew key row t) (insertNew key row t')
      rw [insertNew, insertNew, hany]
      split
      · exact hrest
      · exact rel_append hrest (.cons (.inl rfl) .nil)
    | update k x =>
      rw [Change.exec, Change.exec, forall₂_map_left_iff, forall₂_map_right_iff]
      refine h.imp fun r r' hsame => ?_
      rw [hsame.key_eq hput]
      split
      · rcases hsame with rfl | ⟨⟨y, rfl⟩, -⟩
        · exact .inl rfl
        · exact .inl (hput.put_put ..)
      rename_i hk
      exact hsame.of_cons fun h => hk (Option.some.inj h).symm

/-- A script that was cut off and starts again ends as if it had run once. -/
theorem foldl_retry_update (hput : LawfulPut key put)
    (hsettled : Settled (Change.inserts key) Change.updates (fun k => ∃ r ∈ t, key r = k) (p ++ q)) :
    (p ++ q).foldl (Change.exec key put) (p.foldl (Change.exec key put) t) =
      (p ++ q).foldl (Change.exec key put) t := by
  rw [foldl_append, foldl_append, foldl_of_present (p := p) hput fun row => exists_key_of_mem hput]
  refine foldl_eq_of_sameAfter hput ?_
  rw [forall₂_map_right_iff, forall₂_same]
  intro r hr
  rcases updated_of_mem_foldl hput hr with hsame | ⟨pre, row, post, rfl, hk, hfresh, hfirst, hbefore, hafter⟩
  · exact .inl hsame
  obtain ⟨c, hc, hupdate⟩ := hsettled pre (.insert row) (post ++ q) (key r) (by simp) (congrArg some hk)
    (fun ⟨r', hr', hk'⟩ => hfresh r' hr' hk') hfirst hbefore
  have hcq : c ∈ q := by
    rcases mem_append.1 hc with hc | hc
    · exact (hafter c hc hupdate).elim
    · exact hc
  unfold updated
  split
  · exact .inr ⟨⟨_, rfl⟩, c, hcq, hupdate⟩
  · exact .inl rfl

end SqlTable
