import RobotMoney.Evm.Checked

/-!
# Runs of a contract

A contract is a machine: a call takes a state to a new state or reverts, and a reverted call leaves the state as it
was.  A run is a list of calls.  The rules here turn a fact about one successful call into a fact about every run.
-/

namespace Evm

section Machine

variable {S C ε : Type} (step : S → C → Except ε S)

def exec (s : S) (c : C) : S :=
  match step s c with
  | .ok s' => s'
  | .error _ => s

def run (s : S) (cs : List C) : S := cs.foldl (exec step) s

/-- The states some run reaches from `s₀`. -/
def Reachable (s₀ s : S) : Prop := ∃ cs, run step s₀ cs = s

variable {step} {s s' : S}

theorem exec_of_ok {c : C} (h : step s c = .ok s') : exec step s c = s' := by
  simp [exec, h]

theorem exec_of_error {c : C} {e : ε} (h : step s c = .error e) : exec step s c = s := by
  simp [exec, h]

@[simp] theorem run_nil (s : S) : run step s [] = s := rfl

@[simp] theorem run_cons (s : S) (c : C) (cs : List C) :
    run step s (c :: cs) = run step (exec step s c) cs := rfl

theorem run_append (s : S) (cs ds : List C) : run step s (cs ++ ds) = run step (run step s cs) ds :=
  List.foldl_append ..

theorem Reachable.refl (s : S) : Reachable step s s := ⟨[], rfl⟩

variable {s₀ : S}

/-- A run leads from a reachable state to a reachable one. -/
theorem Reachable.run (h : Reachable step s₀ s) (cs : List C) : Reachable step s₀ (run step s cs) := by
  obtain ⟨ds, rfl⟩ := h
  exact ⟨ds ++ cs, run_append ..⟩

theorem Reachable.call {c : C} (h : Reachable step s₀ s) (hc : step s c = .ok s') : Reachable step s₀ s' := by
  have := h.run [c]
  rwa [run_cons, exec_of_ok hc, run_nil] at this

variable {P : S → Prop}

/-- A call that fails changes nothing, so only those that return matter. -/
theorem exec_invariant (hstep : ∀ s c s', P s → step s c = .ok s' → P s') (hs : P s) (c : C) : P (exec step s c) := by
  cases h : step s c with
  | ok s' =>
    rw [exec_of_ok h]
    exact hstep s c s' hs h
  | error e =>
    rw [exec_of_error h]
    exact hs

/-- What every successful call preserves holds after any run. -/
theorem run_invariant {P : S → Prop} (hstep : ∀ s c s', P s → step s c = .ok s' → P s') {s : S} (hs : P s)
    (cs : List C) : P (run step s cs) := by
  induction cs generalizing s with
  | nil => exact hs
  | cons c cs ih => exact ih (exec_invariant hstep hs c)

/-- What holds at the start and every successful call preserves holds of every reachable state. -/
theorem Reachable.invariant (h : Reachable step s₀ s) (h₀ : P s₀)
    (hstep : ∀ s c s', P s → step s c = .ok s' → P s') : P s := by
  obtain ⟨cs, rfl⟩ := h
  exact run_invariant hstep h₀ cs

/-- Every call of the run meets `ok` in the state it is made in. -/
def Along (step : S → C → Except ε S) (ok : S → C → Prop) : S → List C → Prop
  | _, [] => True
  | s, c :: cs => ok s c ∧ Along step ok (exec step s c) cs

instance decidableAlong {ok : S → C → Prop} [∀ s c, Decidable (ok s c)] :
    (s : S) → (cs : List C) → Decidable (Along step ok s cs)
  | _, [] => isTrue trivial
  | s, c :: cs => @instDecidableAnd _ _ _ (decidableAlong (exec step s c) cs)

variable {ok : S → C → Prop} {cs : List C}

theorem along_congr {ok' : S → C → Prop} (h : ∀ s c, ok s c ↔ ok' s c) : Along step ok s cs ↔ Along step ok' s cs := by
  induction cs generalizing s with
  | nil => exact Iff.rfl
  | cons c cs ih => exact and_congr (h s c) ih

theorem along_append {ds : List C} :
    Along step ok s (cs ++ ds) ↔ Along step ok s cs ∧ Along step ok (run step s cs) ds := by
  induction cs generalizing s with
  | nil => simp [Along]
  | cons c cs ih => simp [Along, ih, and_assoc]

theorem along_and {ok' : S → C → Prop} :
    Along step (fun s c => ok s c ∧ ok' s c) s cs ↔ Along step ok s cs ∧ Along step ok' s cs := by
  induction cs generalizing s with
  | nil => simp [Along]
  | cons c cs ih => simp only [Along, ih]; tauto

/-- Along a run whose calls meet a condition, each step may use it. -/
theorem Along.invariant (hstep : ∀ s c s', P s → ok s c → step s c = .ok s' → P s') (hs : P s)
    (h : Along step ok s cs) : P (run step s cs) := by
  induction cs generalizing s with
  | nil => exact hs
  | cons c cs ih =>
    obtain ⟨hc, hcs⟩ := h
    refine ih ?_ hcs
    cases hx : step s c with
    | ok s' =>
      rw [exec_of_ok hx]
      exact hstep s c s' hs hc hx
    | error e =>
      rw [exec_of_error hx]
      exact hs

/-- If one step keeps the property exactly when it meets the condition, so does a run at every prefix. -/
theorem forall_prefix_iff_along (hstep : ∀ s c, P s → (P (exec step s c) ↔ ok s c)) (hs : P s) :
    (∀ ds, ds <+: cs → P (run step s ds)) ↔ Along step ok s cs := by
  induction cs generalizing s with
  | nil => simp [Along, hs]
  | cons c cs ih =>
    constructor
    · intro h
      have hc : P (exec step s c) := h [c] (List.cons_prefix_cons.2 ⟨rfl, List.nil_prefix⟩)
      refine ⟨(hstep s c hs).1 hc, (ih hc).1 ?_⟩
      intro ds hds
      exact h (c :: ds) (List.cons_prefix_cons.2 ⟨rfl, hds⟩)
    · rintro ⟨hc, hcs⟩ ds hds
      cases ds with
      | nil => exact hs
      | cons c' ds =>
        obtain ⟨rfl, hrest⟩ := List.cons_prefix_cons.1 hds
        exact (ih ((hstep s c' hs).2 hc)).2 hcs ds hrest

end Machine

end Evm
