import Mathlib.Data.List.Basic

/-!
# Replaying a script

A script is a list of commands.  A run that fails leaves the state after a prefix of the script; the next run starts the
script again.  Where a command that has run before changes nothing, running a prefix again and again is running the
longest of the prefixes once.
-/

namespace Replay

open List

variable {S C : Type} {exec : S → C → S}

/-- Statements without effect may be repeated. -/
theorem foldl_absorbed {s : S} {cs : List C} (h : ∀ c ∈ cs, exec s c = s) : cs.foldl exec s = s := by
  induction cs with
  | nil => rfl
  | cons c cs ih =>
    rw [foldl_cons, h c mem_cons_self]
    exact ih fun c' hc' => h c' (mem_cons_of_mem _ hc')

/-- A script may start again when what was done is absorbed. -/
theorem foldl_again {s : S} {p q : List C} (h : ∀ c ∈ p, exec (p.foldl exec s) c = p.foldl exec s) :
    (p ++ q).foldl exec (p.foldl exec s) = (p ++ q).foldl exec s := by
  rw [foldl_append, foldl_absorbed h, foldl_append]

/-- A second attempt leaves what a longer first one would have left. -/
theorem foldl_retry {s : S} {script q p : List C} (hq : q <+: script) (hp : p <+: script)
    (habsorbed : ∀ c ∈ q, exec (q.foldl exec s) c = q.foldl exec s) :
    ∃ q', q' <+: script ∧ q <+: q' ∧ p <+: q' ∧ p.foldl exec (q.foldl exec s) = q'.foldl exec s := by
  obtain hle | hle := Nat.le_total p.length q.length
  · have hpq : p <+: q := prefix_of_prefix_length_le hp hq hle
    exact ⟨q, hq, prefix_refl q, hpq, foldl_absorbed fun c hc => habsorbed c (hpq.subset hc)⟩
  obtain ⟨rest, rfl⟩ := prefix_of_prefix_length_le hq hp hle
  refine ⟨q ++ rest, hp, prefix_append q rest, prefix_refl _, ?_⟩
  rw [foldl_append, foldl_absorbed habsorbed, foldl_append]

theorem flatMap_eq_append_cons {α β : Type} {f : α → List β} {xs : List α} {pre post : List β} {y : β}
    (h : xs.flatMap f = pre ++ y :: post) :
    ∃ xs₁ x xs₂ pre' post', xs = xs₁ ++ x :: xs₂ ∧ f x = pre' ++ y :: post' ∧ pre = xs₁.flatMap f ++ pre' ∧
      post = post' ++ xs₂.flatMap f := by
  induction xs generalizing pre with
  | nil => simp at h
  | cons x xs ih =>
    rw [flatMap_cons, append_eq_append_iff] at h
    obtain ⟨pre', rfl, hrest⟩ | ⟨suffix, hx, hrest⟩ := h
    · obtain ⟨xs₁, x', xs₂, pre'', post', rfl, hx', rfl, rfl⟩ := ih hrest
      exact ⟨x :: xs₁, x', xs₂, pre'', post', rfl, hx', by simp, rfl⟩
    cases suffix with
    | nil =>
      obtain ⟨xs₁, x', xs₂, pre'', post', rfl, hx', hpre, rfl⟩ := @ih [] hrest.symm
      refine ⟨x :: xs₁, x', xs₂, pre'', post', rfl, hx', ?_, rfl⟩
      rw [append_nil] at hx
      simp [← hx, append_assoc, ← hpre]
    | cons y' suffix =>
      rw [cons_append, cons.injEq] at hrest
      obtain ⟨rfl, rfl⟩ := hrest
      exact ⟨[], x, xs, pre, suffix, rfl, hx, rfl, rfl⟩

end Replay
