import RobotMoney.Evm.Machine

/-!
# Programs with effects

A program asks its host for something, gets an answer and goes on.  The host performs each request on a world, with a
reply that the environment chooses (a request may fail, or take place and still be reported as failed), and other
parties change the world between two requests.  A process that is restarted starts its program again on the world it
left.

The rule (`safe_run`) is that of rely and guarantee: a program is safe in a world when each of its requests keeps the
guarantee, whatever events happened before it, and a safe program that is run again and again, with restarts at any
point, keeps the guarantee along every run.
-/

namespace Effect

open Evm

/-- A program over the requests `Q`; the request `q` is answered by an `A q`. -/
inductive Program (Q : Type) (A : Q → Type) (α : Type) where
  | done (a : α)
  | ask (q : Q) (next : A q → Program Q A α)

namespace Program

variable {Q : Type} {A : Q → Type} {α β : Type}

def bind : Program Q A α → (α → Program Q A β) → Program Q A β
  | .done a, f => f a
  | .ask q next, f => .ask q fun x => (next x).bind f

instance : Monad (Program Q A) where
  pure := .done
  bind := bind

def request (q : Q) : Program Q A (A q) := .ask q .done

@[simp] theorem pure_eq (a : α) : (pure a : Program Q A α) = .done a := rfl

@[simp] theorem done_bind (a : α) (f : α → Program Q A β) : (Program.done a >>= f) = f a := rfl

@[simp] theorem ask_bind (q : Q) (next : A q → Program Q A α) (f : α → Program Q A β) :
    (Program.ask q next >>= f) = .ask q fun x => next x >>= f := rfl

theorem bind_done (p : Program Q A α) : (p >>= done) = p := by
  induction p with
  | done a => rfl
  | ask q next ih => exact congrArg (ask q) (funext ih)

@[simp] theorem request_bind (q : Q) (f : A q → Program Q A α) : (request q >>= f) = .ask q f := rfl

end Program

/-- What requests, events and a restart do to a world. -/
structure Host (Q : Type) (A : Q → Type) (W R E : Type) where
  perform : W → (q : Q) → R → W × A q
  interfere : W → E → W
  restart : W → W

inductive Action (R E : Type) where
  /-- The next request of the program is performed, with this reply; a program that is done is started again. -/
  | reply (r : R)
  /-- The process stops and is started again. -/
  | restart
  | event (e : E)

structure Process (Q : Type) (A : Q → Type) (W : Type) where
  world : W
  code : Program Q A Unit

section Host

variable {Q : Type} {A : Q → Type} {W R E α β : Type} (h : Host Q A W R E)

def Host.step (main : Program Q A Unit) (s : Process Q A W) : Action R E → Process Q A W
  | .reply r =>
    match s.code with
    | .done _ => ⟨s.world, main⟩
    | .ask q next => ⟨(h.perform s.world q r).1, next (h.perform s.world q r).2⟩
  | .restart => ⟨h.restart s.world, main⟩
  | .event e => ⟨h.interfere s.world e, s.code⟩

def Host.machine (main : Program Q A Unit) (s : Process Q A W) (a : Action R E) : Except Empty (Process Q A W) :=
  .ok (h.step main s a)

/-- What a run may rely on: which events happen in a world, and which replies a request gets. -/
structure Rely (Q W R E : Type) where
  event : W → E → Prop
  reply : W → Q → R → Prop

def Action.Meets (rely : Rely Q W R E) (s : Process Q A W) : Action R E → Prop
  | .event e => rely.event s.world e
  | .reply r =>
    match s.code with
    | .done _ => True
    | .ask q _ => rely.reply s.world q r
  | .restart => True

instance decidableMeets (rely : Rely Q W R E) [∀ w e, Decidable (rely.event w e)]
    [∀ w q r, Decidable (rely.reply w q r)]
    (s : Process Q A W) : (a : Action R E) → Decidable (a.Meets rely s)
  | .event e => inferInstanceAs (Decidable (rely.event s.world e))
  | .restart => isTrue trivial
  | .reply r =>
    match s with
    | ⟨_, .done _⟩ => isTrue trivial
    | ⟨w, .ask q _⟩ => inferInstanceAs (Decidable (rely.reply w q r))

def Host.Reach (rely : Rely Q W R E) : W → W → Prop :=
  Relation.ReflTransGen fun w w' => ∃ e, rely.event w e ∧ w' = h.interfere w e

/-- Each request keeps the guarantee, whatever events come before it, and the result meets `post`. -/
def Program.Safe (rely : Rely Q W R E) (guar : W → W → Prop) (post : α → W → Prop) : Program Q A α → W → Prop
  | .done a, w => post a w
  | .ask q next, w => ∀ w', h.Reach rely w w' → ∀ r, rely.reply w' q r →
      guar w' (h.perform w' q r).1 ∧ Program.Safe rely guar post (next (h.perform w' q r).2) (h.perform w' q r).1

variable {h} {rely : Rely Q W R E} {guar : W → W → Prop} {inv : W → Prop} {w w' : W}

/-- What every event of the others preserves holds wherever they lead. -/
theorem Host.Reach.invariant (hreach : h.Reach rely w w')
    (hevent : ∀ w e, inv w → rely.event w e → inv (h.interfere w e))
    (hw : inv w) : inv w' := by
  induction hreach with
  | refl => exact hw
  | tail _ hstep ih =>
    obtain ⟨e, hok, rfl⟩ := hstep
    exact hevent _ e ih hok

private theorem Host.Reach.refl (w : W) : h.Reach rely w w := Relation.ReflTransGen.refl

variable {post : α → W → Prop}

@[simp] theorem safe_done {a : α} : (Program.done a : Program Q A α).Safe h rely guar post w ↔ post a w :=
  Iff.rfl

variable {p : Program Q A α}

/-- The sequence rule. -/
theorem Program.Safe.bind {post : β → W → Prop} {mid : α → W → Prop} {f : α → Program Q A β}
    (hp : p.Safe h rely guar mid w) (hf : ∀ a w, mid a w → (f a).Safe h rely guar post w) :
    (p >>= f).Safe h rely guar post w := by
  induction p generalizing w with
  | done a => exact hf a w hp
  | ask q next ih =>
    intro w' hreach r hr
    obtain ⟨hguar, hnext⟩ := hp w' hreach r hr
    exact ⟨hguar, ih _ hnext⟩

/-- The rule of consequence. -/
theorem Program.Safe.mono {post' : α → W → Prop} (hp : p.Safe h rely guar post w)
    (hpost : ∀ a w, post a w → post' a w) : p.Safe h rely guar post' w := by
  rw [← p.bind_done]
  exact hp.bind hpost

theorem Program.Safe.guarantee_mono {guar' : W → W → Prop}
    (hp : p.Safe h rely guar post w) (hguar : ∀ w w', guar w w' → guar' w w') : p.Safe h rely guar' post w := by
  induction p generalizing w with
  | done a => exact hp
  | ask q next ih =>
    intro w' hreach r hr
    obtain ⟨hstep, hnext⟩ := hp w' hreach r hr
    exact ⟨hguar _ _ hstep, ih _ hnext⟩

def Process.Ok (h : Host Q A W R E) (rely : Rely Q W R E) (guar : W → W → Prop) (inv : W → Prop)
    (s : Process Q A W) : Prop :=
  inv s.world ∧ ∃ w, h.Reach rely w s.world ∧ s.code.Safe h rely guar (fun _ _ => True) w

variable {main : Program Q A Unit} {s : Process Q A W}

private theorem ok_of_main (hmain : ∀ w, inv w → main.Safe h rely guar (fun _ _ => True) w) (hinv : inv s.world)
    (hcode : s.code = main) : s.Ok h rely guar inv :=
  ⟨hinv, s.world, Host.Reach.refl _, hcode ▸ hmain _ hinv⟩

theorem Process.Ok.step (hs : s.Ok h rely guar inv) (hmain : ∀ w, inv w → main.Safe h rely guar (fun _ _ => True) w)
    (hevent : ∀ w e, inv w → rely.event w e → inv (h.interfere w e)) (hrestart : ∀ w, inv w → inv (h.restart w))
    (hguar : ∀ w w', inv w → guar w w' →
      inv w') {a : Action R E} (ha : a.Meets rely s) : (h.step main s a).Ok h rely guar inv := by
  obtain ⟨hinv, w, hreach, hsafe⟩ := hs
  cases a with
  | restart => exact ok_of_main hmain (hrestart _ hinv) rfl
  | event e => exact ⟨hevent _ e hinv ha, w, hreach.tail ⟨e, ha, rfl⟩, hsafe⟩
  | reply r =>
    obtain ⟨world, code⟩ := s
    cases code with
    | done a => exact ok_of_main hmain hinv rfl
    | ask q next =>
      obtain ⟨hstep, hnext⟩ := hsafe _ hreach r ha
      exact ⟨hguar _ _ hinv hstep, _, Host.Reach.refl _, hnext⟩

variable {actions : List (Action R E)}

/-- An invariant of the main program, the events and the restarts holds after every run of the process. -/
theorem safe_run (hmain : ∀ w, inv w → main.Safe h rely guar (fun _ _ => True) w)
    (hevent : ∀ w e, inv w → rely.event w e → inv (h.interfere w e)) (hrestart : ∀ w, inv w → inv (h.restart w))
    (hguar : ∀ w w', inv w → guar w w' → inv w') {w₀ : W} (h₀ : inv w₀)
    (hrun : Along (h.machine main) (fun s a => a.Meets rely s) ⟨w₀, main⟩ actions) :
    (run (h.machine main) ⟨w₀, main⟩ actions).Ok h rely guar inv := by
  refine Along.invariant ?_ (ok_of_main hmain h₀ rfl) hrun
  rintro s a s' hs ha ⟨⟩
  exact hs.step hmain hevent hrestart hguar ha

theorem meets_reply (hreply : ∀ w q r, rely.reply w q r) (s : Process Q A W) (r : R) :
    (Action.reply r : Action R E).Meets rely s := by
  obtain ⟨world, code⟩ := s
  cases code with
  | done a => trivial
  | ask q next => exact hreply _ _ _

theorem along_of_meets (hmeets : ∀ a ∈ actions, ∀ s : Process Q A W, a.Meets rely s) :
    Along (h.machine main) (fun s a => a.Meets rely s) s actions := by
  induction actions generalizing s with
  | nil => trivial
  | cons a rest ih => exact ⟨hmeets a List.mem_cons_self s, ih fun b hb => hmeets b (List.mem_cons_of_mem _ hb)⟩

/-- The run of a program in which every request gets the reply `r` and nothing else happens. -/
def Host.play (h : Host Q A W R E) (r : R) : Program Q A α → W → α × W
  | .done a, w => (a, w)
  | .ask q next, w => Host.play h r (next (h.perform w q r).2) (h.perform w q r).1

/-- Playing a sequence plays its parts one after the other. -/
theorem play_bind (h : Host Q A W R E) (r : R) (p : Program Q A α) (f : α → Program Q A β) (w : W) :
    h.play r (p >>= f) w = h.play r (f (h.play r p w).1) (h.play r p w).2 := by
  induction p generalizing w with
  | done a => rfl
  | ask q next ih => exact ih _ _

/-- The program is safe, what it returns meets `post`, and where it throws, `err` holds. -/
def SafeOr {ε : Type} (h : Host Q A W R E) (rely : Rely Q W R E) (guar : W → W → Prop) (err : W → Prop)
    (post : α → W → Prop)
    (x : ExceptT ε (Program Q A) α) (w : W) : Prop :=
  x.run.Safe h rely guar (fun
    | .ok a, w => post a w
    | .error _, w => err w) w

section SafeOr

variable {ε : Type} {err : W → Prop} {post : α → W → Prop}

theorem SafeOr.pure {a : α} (hpost : post a w) :
    SafeOr h rely guar err post (Pure.pure a : ExceptT ε (Program Q A) α) w := hpost

theorem SafeOr.throw {e : ε} (herr : err w) :
    SafeOr h rely guar err post (MonadExcept.throw e : ExceptT ε (Program Q A) α) w := herr

/-- The sequence rule for programs that may throw. -/
theorem SafeOr.bind {post : β → W → Prop} {mid : α → W → Prop} {f : α → ExceptT ε (Program Q A) β}
    {x : ExceptT ε (Program Q A) α} (hx : SafeOr h rely guar err mid x w)
    (hf : ∀ a w, mid a w → SafeOr h rely guar err post (f a) w) : SafeOr h rely guar err post (x >>= f) w := by
  refine Program.Safe.bind hx fun r w hr => ?_
  cases r with
  | ok a => exact hf a w hr
  | error e => exact hr

theorem SafeOr.mono {post' : α → W → Prop} {x : ExceptT ε (Program Q A) α} (hx : SafeOr h rely guar err post x w)
    (hpost : ∀ a w, post a w → post' a w) : SafeOr h rely guar err post' x w := by
  refine Program.Safe.mono hx fun r w hr => ?_
  cases r with
  | ok a => exact hpost a w hr
  | error e => exact hr

end SafeOr

/-- The run of a program that may throw, in which every request gets the reply `r`. -/
def Host.attempt {ε : Type} (h : Host Q A W R E) (r : R) (x : ExceptT ε (Program Q A) α) (w : W) : Except ε α × W :=
  h.play r x.run w

section Attempt

variable {ε : Type} {x : ExceptT ε (Program Q A) α} {f : α → ExceptT ε (Program Q A) β} {a : α} {e : ε} {r : R}

theorem attempt_bind (hx : h.attempt r x w = (.ok a, w')) : h.attempt r (x >>= f) w = h.attempt r (f a) w' := by
  have hbind := play_bind h r x.run (ExceptT.bindCont f) w
  rw [show h.play r x.run w = (.ok a, w') from hx] at hbind
  exact hbind

theorem attempt_bind_error (hx : h.attempt r x w = (.error e, w')) : h.attempt r (x >>= f) w = (.error e, w') := by
  have hbind := play_bind h r x.run (ExceptT.bindCont f) w
  rw [show h.play r x.run w = (.error e, w') from hx] at hbind
  exact hbind

end Attempt

end Host

section Log

variable {X : Type}

/-- Every entry of a log is as `P` says, given those before it. -/
def Logged (P : X → List X → Prop) : List X → Prop
  | [] => True
  | x :: older => P x older ∧ Logged P older

variable {P : X → List X → Prop} {newer older log : List X} {x : X}

/-- An exchange in the log met the property when it was made. -/
theorem Logged.of_append (h : Logged P (newer ++ x :: older)) : P x older := by
  induction newer with
  | nil => exact h.1
  | cons y newer ih => exact ih h.2

theorem Logged.tail (h : Logged P (newer ++ x :: older)) : Logged P older := by
  induction newer with
  | nil => exact h.2
  | cons y newer ih => exact ih h.2

theorem Logged.of_mem (h : Logged P log) (hx : x ∈ log) : ∃ older, older ⊆ log ∧ P x older := by
  obtain ⟨newer, older, rfl⟩ := List.append_of_mem hx
  refine ⟨older, ?_, h.of_append⟩
  intro y hy
  exact List.mem_append_right _ (List.mem_cons_of_mem _ hy)

end Log

end Effect
