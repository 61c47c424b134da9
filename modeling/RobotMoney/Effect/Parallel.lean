import RobotMoney.Effect.Program

/-!
# Programs side by side

Processes run their programs on one world.  A turn performs the next request of one process, starts or kills a process,
or is an event of the world; the turns come in any order.

The rule (`crew_run`) is that of rely and guarantee for many processes: a program is safe for a process when each of its
requests keeps the invariant and the guarantee of the process, whatever the others do before it within theirs.  If every
program that may be started is safe, every request along every run meets its specification.
-/

namespace Effect

open Evm Function

section Crew

variable (Q : Type) (A : Q → Type) (W R E I : Type)

/-- The world and the program that each process has still to run. -/
structure Crew where
  world : W
  code : Nat → Program Q A Unit

/-- The programs that may be started, and what requests and events do. -/
structure Shared where
  main : I → Program Q A Unit
  perform : W → Nat → (q : Q) → R → W × A q
  interfere : W → E → W

inductive Turn where
  | start (p : Nat) (i : I)
  | reply (p : Nat) (r : R)
  | crash (p : Nat)
  | event (e : E)

/-- The invariant, what a step of a process and an event may change, and what a request must meet. -/
structure Rules where
  inv : W → Prop
  guar : Nat → W → W → Prop
  env : W → W → Prop
  spec : Nat → Q → W → Prop

end Crew

section Parallel

variable {Q : Type} {A : Q → Type} {W R E I α β ε : Type} (h : Shared Q A W R E I) (ru : Rules Q W)

def Shared.step (c : Crew Q A W) : Turn R E I → Crew Q A W
  | .start p i =>
    match c.code p with
    | .done _ => ⟨c.world, update c.code p (h.main i)⟩
    | .ask _ _ => c
  | .reply p r =>
    match c.code p with
    | .done _ => c
    | .ask q next =>
      ⟨(h.perform c.world p q r).1, update c.code p (next (h.perform c.world p q r).2)⟩
  | .crash p => ⟨c.world, update c.code p (.done ())⟩
  | .event e => ⟨h.interfere c.world e, c.code⟩

def Shared.machine (c : Crew Q A W) (t : Turn R E I) : Except Empty (Crew Q A W) := .ok (h.step c t)

def Crew.start (w : W) : Crew Q A W := ⟨w, fun _ => .done ()⟩

def Rules.Other (p : Nat) (w w' : W) : Prop := ru.env w w' ∨ ∃ q, q ≠ p ∧ ru.guar q w w'

def Rules.Others (p : Nat) : W → W → Prop := Relation.ReflTransGen (ru.Other p)

/-- Each request meets its specification and keeps the invariant and the guarantee, whatever the others do before it,
and the result meets `post`. -/
def Program.SafeAs (p : Nat) (post : α → W → Prop) : Program Q A α → W → Prop
  | .done a, w => post a w
  | .ask q next, w => ∀ w', ru.Others p w w' → ru.inv w' → ru.spec p q w' ∧ ∀ r,
      ru.inv (h.perform w' p q r).1 ∧ ru.guar p w' (h.perform w' p q r).1 ∧
        Program.SafeAs p post (next (h.perform w' p q r).2) (h.perform w' p q r).1

variable {h ru} {p : Nat} {w w' : W} {mid : α → W → Prop} {x : Program Q A α}

/-- The sequence rule for one of many processes. -/
theorem Program.SafeAs.bind {post : β → W → Prop} {f : α → Program Q A β}
    (hx : x.SafeAs h ru p mid w) (hf : ∀ a w, mid a w →
    (f a).SafeAs h ru p post w) : (x >>= f).SafeAs h ru p post w := by
  induction x generalizing w with
  | done a => exact hf a w hx
  | ask q next ih =>
    intro w' hothers hinv
    obtain ⟨hspec, hnext⟩ := hx w' hothers hinv
    exact ⟨hspec, fun r => ⟨(hnext r).1, (hnext r).2.1, ih _ (hnext r).2.2⟩⟩

variable {post post' : α → W → Prop}

private theorem Program.SafeAs.mono (hx : x.SafeAs h ru p post w)
    (hpost : ∀ a w, post a w → post' a w) : x.SafeAs h ru p post' w := by
  rw [← x.bind_done]
  exact hx.bind hpost

/-- A fact that no step of another process breaks survives any number of them. -/
theorem Rules.Others.stable {F : W → Prop} (hothers : ru.Others p w w') (hF : ∀ w w', ru.Other p w w' → F w → F w')
    (hw : F w) : F w' := by
  induction hothers with
  | refl => exact hw
  | tail _ hstep ih => exact hF _ _ hstep ih

/-- The invariant of the runs: the program of each process was safe before what the others have done since. -/
def Crew.Ok (h : Shared Q A W R E I) (ru : Rules Q W) (c : Crew Q A W) : Prop :=
  ru.inv c.world ∧ ∀ p, ∃ w, ru.Others p w c.world ∧ (c.code p).SafeAs h ru p (fun _ _ => True) w

variable {c : Crew Q A W}

theorem Crew.Ok.spec (hc : c.Ok h ru) {q : Q} {next : A q → Program Q A Unit}
    (hcode : c.code p = .ask q next) : ru.spec p q c.world := by
  obtain ⟨hinv, hall⟩ := hc
  obtain ⟨w, hothers, hsafe⟩ := hall p
  rw [hcode] at hsafe
  exact (hsafe c.world hothers hinv).1

private theorem ok_update {x : Program Q A Unit} (hinv : ru.inv w) (hx : x.SafeAs h ru p (fun _ _ => True) w)
    (hothers : ∀ o, o ≠ p → ∃ v, ru.Others o v w ∧ (c.code o).SafeAs h ru o (fun _ _ => True) v) :
    Crew.Ok h ru ⟨w, update c.code p x⟩ := by
  refine ⟨hinv, fun o => ?_⟩
  by_cases ho : o = p
  · subst ho
    refine ⟨w, Relation.ReflTransGen.refl, ?_⟩
    rw [show (Crew.mk w (update c.code o x)).code o = x from update_self ..]
    exact hx
  obtain ⟨v, hv, hsafe⟩ := hothers o ho
  refine ⟨v, hv, ?_⟩
  rw [show (Crew.mk w (update c.code p x)).code o = c.code o from update_of_ne ho ..]
  exact hsafe

private theorem Crew.Ok.step (hc : c.Ok h ru) (hmain : ∀ i p w, ru.inv w → (h.main i).SafeAs h ru p (fun _ _ => True) w)
    (hevent : ∀ w e, ru.inv w → ru.inv (h.interfere w e) ∧ ru.env w (h.interfere w e)) (t : Turn R E I) :
    (h.step c t).Ok h ru := by
  cases t with
  | start p i =>
    rw [Shared.step]
    cases c.code p with
    | done a => exact ok_update hc.1 (hmain i p _ hc.1) fun o _ => hc.2 o
    | ask q next => exact hc
  | crash p => exact ok_update hc.1 trivial fun o _ => hc.2 o
  | event e =>
    obtain ⟨hinv, henv⟩ := hevent c.world e hc.1
    refine ⟨hinv, fun p => ?_⟩
    obtain ⟨w, hothers, hsafe⟩ := hc.2 p
    exact ⟨w, hothers.tail (.inl henv), hsafe⟩
  | reply p r =>
    rw [Shared.step]
    cases hcode : c.code p with
    | done a => exact hc
    | ask q next =>
      obtain ⟨w, hothers, hsafe⟩ := hc.2 p
      rw [hcode] at hsafe
      obtain ⟨hinv, hguar, hnext⟩ := (hsafe c.world hothers hc.1).2 r
      refine ok_update hinv hnext fun o ho => ?_
      obtain ⟨v, hv, hsafe⟩ := hc.2 o
      exact ⟨v, hv.tail (.inr ⟨p, Ne.symm ho, hguar⟩), hsafe⟩

private theorem crew_start (hinv : ru.inv w) : (Crew.start w : Crew Q A W).Ok h ru :=
  ⟨hinv, fun _ => ⟨w, Relation.ReflTransGen.refl, trivial⟩⟩

/-- When each process keeps the rules, so does the crew in every interleaving. -/
theorem crew_run (hmain : ∀ i p w, ru.inv w → (h.main i).SafeAs h ru p (fun _ _ => True) w)
    (hevent : ∀ w e, ru.inv w → ru.inv (h.interfere w e) ∧ ru.env w (h.interfere w e)) (hinv : ru.inv w)
    (turns : List (Turn R E I)) : (run h.machine (Crew.start w) turns).Ok h ru := by
  refine run_invariant ?_ (crew_start hinv) turns
  rintro c t c' hc ⟨⟩
  exact hc.step hmain hevent t

/-- The program is safe, and what it returns meets `post`. -/
def SafeTry (h : Shared Q A W R E I) (ru : Rules Q W) (p : Nat) (post : α → W → Prop) (x : ExceptT ε (Program Q A) α)
    (w : W) : Prop :=
  x.run.SafeAs h ru p (fun r w => ∀ a, r = .ok a → post a w) w

theorem SafeTry.pure {a : α} (hpost : post a w) : SafeTry h ru p post (Pure.pure a : ExceptT ε (Program Q A) α) w := by
  rintro b ⟨⟩
  exact hpost

theorem SafeTry.throw {e : ε} : SafeTry h ru p post (throw e : ExceptT ε (Program Q A) α) w := by
  rintro b hb
  cases hb

variable {f : α → ExceptT ε (Program Q A) β}

/-- The sequence rule for a process that may throw. -/
theorem SafeTry.bind {post : β → W → Prop} {x : ExceptT ε (Program Q A) α} (hx : SafeTry h ru p mid x w)
    (hf : ∀ a w, mid a w → SafeTry h ru p post (f a) w) : SafeTry h ru p post (x >>= f) w := by
  refine Program.SafeAs.bind hx fun r w hr => ?_
  cases r with
  | ok a => exact hf a w (hr a rfl)
  | error e =>
    rintro b hb
    cases hb

theorem SafeTry.throw_bind {post : β → W → Prop} {e : ε} :
    SafeTry h ru p post ((MonadExcept.throw e : ExceptT ε (Program Q A) α) >>= f) w := by
  rintro b hb
  cases hb

theorem SafeTry.mono {x : ExceptT ε (Program Q A) α} (hx : SafeTry h ru p post x w)
    (hpost : ∀ a w, post a w → post' a w) : SafeTry h ru p post' x w :=
  Program.SafeAs.mono hx fun _ w hr a ha => hpost a w (hr a ha)

end Parallel

end Effect
