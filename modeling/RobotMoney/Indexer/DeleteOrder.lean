import Mathlib.Data.Finset.Sort
import Mathlib.Data.Fintype.Order
import Mathlib.Data.String.Basic

/-!
# The order in which a rollback clears the tables (`fk_child_first_order`)

The tables are emitted as soon as all tables that reference them are.  The walk counts for each table the children that
are still to come (`Emitting.pending`), and a table is ready when there are none.  A walk that is out of ready tables
has emitted all of them, or a cycle is left (`emitted_of_acyclic`).
-/

namespace RobotMoney.Indexer

open List Finset Function

/-- What the edges say: the parents of a table, and the number of children of a table. -/
structure ForeignKeys where
  parentsOf : String → Finset String
  pendingChildren : String → Nat

/-- The state of the walk. -/
structure Emitting where
  ready : Finset String
  pendingChildren : String → Nat
  ordered : List String

section Order

variable (tables : List String) (edges : List (String × String))

def ForeignKeys.add (keys : ForeignKeys) (edge : String × String) : ForeignKeys :=
  if edge.1 = edge.2 ∨ edge.1 ∉ tables ∨ edge.2 ∉ tables then keys
  else if edge.2 ∈ keys.parentsOf edge.1 then keys
  else
    ⟨update keys.parentsOf edge.1 (insert edge.2 (keys.parentsOf edge.1)),
      update keys.pendingChildren edge.2 (keys.pendingChildren edge.2 + 1)⟩

def foreignKeys : ForeignKeys := edges.foldl (ForeignKeys.add tables) ⟨fun _ => ∅, fun _ => 0⟩

/-- One child less of a parent. -/
def Emitting.release (w : Emitting) (parent : String) : Emitting where
  ready := if w.pendingChildren parent - 1 = 0 then insert parent w.ready else w.ready
  pendingChildren := update w.pendingChildren parent (w.pendingChildren parent - 1)
  ordered := w.ordered

/-- A turn of the loop. -/
def Emitting.emit (keys : ForeignKeys) (w : Emitting) (next : String) : Emitting :=
  ((keys.parentsOf next).sort (· ≤ ·)).foldl Emitting.release
    ⟨w.ready.erase next, w.pendingChildren, w.ordered ++ [next]⟩

/-- The loop, with a bound on its turns. -/
def Emitting.walk (keys : ForeignKeys) : Nat → Emitting → Emitting
  | 0, w => w
  | turns + 1, w => if h : w.ready.Nonempty then walk keys turns (w.emit keys (w.ready.min' h)) else w

def firstReady (keys : ForeignKeys) : Emitting :=
  ⟨tables.toFinset.filter fun t => keys.pendingChildren t = 0, keys.pendingChildren, []⟩

def emitted : Emitting := (firstReady tables (foreignKeys tables edges)).walk (foreignKeys tables edges) tables.length

def fkChildFirstOrder : List String :=
  (emitted tables edges).ordered ++ tables.filter (· ∉ (emitted tables edges).ordered)

end Order

/-- A table references another one. -/
def References (tables : List String) (edges : List (String × String)) (child parent : String) : Prop :=
  (child, parent) ∈ edges ∧ child ≠ parent ∧ child ∈ tables ∧ parent ∈ tables

variable {tables : List String} {edges : List (String × String)} {keys : ForeignKeys} {w : Emitting}

/-- What is read off the edges. -/
structure ForeignKeys.Of (tables : List String) (edges : List (String × String)) (keys : ForeignKeys) : Prop where
  parentsOf : ∀ c p, p ∈ keys.parentsOf c ↔ References tables edges c p
  pending : ∀ p, keys.pendingChildren p = (tables.toFinset.filter fun c => p ∈ keys.parentsOf c).card

private theorem References.snoc {edge : String × String} {c p : String} : References tables (edges ++ [edge]) c p ↔
      References tables edges c p ∨ ((c, p) = edge ∧ References tables [edge] c p) := by
  simp only [References, List.mem_append, List.mem_singleton]
  tauto

private theorem ForeignKeys.Of.add (h : keys.Of tables edges) (edge : String × String) :
    (keys.add tables edge).Of tables (edges ++ [edge]) := by
  obtain ⟨child, parent⟩ := edge
  unfold ForeignKeys.add
  split
  · rename_i hskip
    refine ⟨?_, h.pending⟩
    intro c p
    rw [h.parentsOf, References.snoc]
    refine (or_iff_left ?_).symm
    rintro ⟨heq, -, hne, hc, hp⟩
    obtain ⟨rfl, rfl⟩ := Prod.mk.inj heq
    tauto
  rename_i hedge
  simp only [not_or, not_not] at hedge
  have hnew : References tables [(child, parent)] child parent := ⟨by simp, hedge.1, hedge.2.1, hedge.2.2⟩
  split
  · rename_i hold
    refine ⟨?_, h.pending⟩
    intro c p
    rw [h.parentsOf, References.snoc]
    refine (or_iff_left_of_imp ?_).symm
    rintro ⟨heq, -⟩
    obtain ⟨rfl, rfl⟩ := Prod.mk.inj heq
    exact (h.parentsOf _ _).1 hold
  rename_i hfresh
  have hparents : ∀ c p, p ∈ update keys.parentsOf child (insert parent (keys.parentsOf child)) c ↔
      p ∈ keys.parentsOf c ∨ (c = child ∧ p = parent) := by
    intro c p
    by_cases hc : c = child
    · subst hc
      simp [or_comm]
    · simp [hc]
  constructor
  · intro c p
    rw [hparents, h.parentsOf, References.snoc]
    refine or_congr_right ?_
    constructor
    · rintro ⟨rfl, rfl⟩
      exact ⟨rfl, hnew⟩
    · rintro ⟨heq, -⟩
      exact Prod.mk.inj heq
  · intro p
    simp only [hparents]
    by_cases hp : p = parent
    · subst hp
      have hinsert : (tables.toFinset.filter fun c => p ∈ keys.parentsOf c ∨ (c = child ∧ p = p)) =
          insert child (tables.toFinset.filter fun c => p ∈ keys.parentsOf c) := by
        ext c
        simp only [Finset.mem_filter, Finset.mem_insert, mem_toFinset]
        constructor
        · tauto
        · rintro (rfl | hc)
          · exact ⟨hedge.2.1, by simp⟩
          · tauto
      rw [update_self, hinsert, card_insert_of_notMem, h.pending]
      simp [hfresh]
    · simp [hp, h.pending]

private theorem foreignKeys_of (tables : List String) (edges : List (String × String)) :
    (foreignKeys tables edges).Of tables edges := by
  induction edges using reverseRecOn with
  | nil => exact ⟨by simp [foreignKeys, References], by simp [foreignKeys]⟩
  | append_singleton edges edge ih =>
    rw [foreignKeys, foldl_append]
    exact ih.add edge

/-- What holds between two turns. -/
structure Emitting.Ok (tables : List String) (keys : ForeignKeys) (w : Emitting) : Prop where
  nodup : w.ordered.Nodup
  known : w.ordered ⊆ tables
  pending : ∀ p, w.pendingChildren p = (tables.toFinset.filter fun c => p ∈ keys.parentsOf c ∧ c ∉ w.ordered).card
  ready : ∀ t, t ∈ w.ready ↔ t ∈ tables ∧ w.pendingChildren t = 0 ∧ t ∉ w.ordered
  /-- The children of a table are emitted before it. -/
  before : ∀ pre p post, w.ordered = pre ++ p :: post → ∀ c ∈ tables, p ∈ keys.parentsOf c → c ∈ pre

private theorem ok_firstReady (h : keys.Of tables edges) : (firstReady tables keys).Ok tables keys where
  nodup := nodup_nil
  known := nil_subset _
  pending := by simp [firstReady, h.pending]
  ready := by simp [firstReady]
  before := by simp [firstReady]

private theorem release_foldl {parents : List String} (hnodup : parents.Nodup) (w : Emitting) :
    (parents.foldl Emitting.release w).ordered = w.ordered ∧
      (∀ p, (parents.foldl Emitting.release w).pendingChildren p =
        if p ∈ parents then w.pendingChildren p - 1 else w.pendingChildren p) ∧
      ∀ t, t ∈ (parents.foldl Emitting.release w).ready ↔
        t ∈ w.ready ∨ (t ∈ parents ∧ w.pendingChildren t - 1 = 0) := by
  induction parents generalizing w with
  | nil => simp
  | cons parent parents ih =>
    rw [nodup_cons] at hnodup
    obtain ⟨hordered, hpending, hready⟩ := ih hnodup.2 (w.release parent)
    refine ⟨hordered, ?_, ?_⟩
    · intro p
      rw [foldl_cons, hpending]
      by_cases hp : p = parent
      · subst hp
        simp [Emitting.release, hnodup.1]
      · simp [Emitting.release, hp]
    · intro t
      rw [foldl_cons, hready]
      by_cases ht : t = parent
      · subst ht
        simp only [Emitting.release, hnodup.1, false_and, or_false, List.mem_cons, true_and]
        split <;> simp_all
      have hmem : t ∈ (w.release parent).ready ↔ t ∈ w.ready := by
        simp only [Emitting.release]
        split <;> simp [ht]
      rw [hmem]
      simp [Emitting.release, ht]

/-- Step lemma: emitting a ready table. -/
theorem Emitting.Ok.emit (hkeys : keys.Of tables edges) (h : w.Ok tables keys) {next : String}
    (hnext : next ∈ w.ready) :
    (w.emit keys next).Ok tables keys := by
  obtain ⟨hmem, hzero, hnew⟩ := (h.ready next).1 hnext
  obtain ⟨hordered, hpending, hready⟩ := release_foldl ((keys.parentsOf next).sort_nodup (· ≤ ·))
    ⟨w.ready.erase next, w.pendingChildren, w.ordered ++ [next]⟩
  simp only [mem_sort] at hpending hready
  have hself : next ∉ keys.parentsOf next := fun hp => ((hkeys.parentsOf _ _).1 hp).2.1 rfl
  -- The children of `p` that are still to come, with and without `next`.
  have hcount : ∀ p, (w.emit keys next).pendingChildren p =
      (tables.toFinset.filter fun c => p ∈ keys.parentsOf c ∧ c ∉ w.ordered ++ [next]).card := by
    intro p
    have hsplit : (tables.toFinset.filter fun c => p ∈ keys.parentsOf c ∧ c ∉ w.ordered ++ [next]) =
        (tables.toFinset.filter fun c => p ∈ keys.parentsOf c ∧ c ∉ w.ordered).erase next := by
      ext c
      simp only [Finset.mem_filter, Finset.mem_erase, List.mem_append, List.mem_singleton, not_or]
      tauto
    rw [Emitting.emit, hpending, hsplit, h.pending]
    split
    · rename_i hp
      rw [card_erase_of_mem]
      simp [hp, hmem, hnew]
    rename_i hp
    rw [erase_eq_of_notMem]
    simp [hp]
  refine ⟨?_, ?_, ?_, ?_, ?_⟩
  · rw [Emitting.emit, hordered]
    refine nodup_append.2 ⟨h.nodup, by simp, ?_⟩
    rintro a ha b hb rfl
    exact hnew (List.mem_singleton.1 hb ▸ ha)
  · rw [Emitting.emit, hordered]
    exact append_subset.2 ⟨h.known, by simpa using hmem⟩
  · intro p
    rw [hcount, Emitting.emit, hordered]
  · intro t
    have hle : ∀ t, t ∈ keys.parentsOf next → w.pendingChildren t ≠ 0 := by
      intro t ht
      rw [h.pending, ne_eq, card_eq_zero]
      exact ne_empty_of_mem (mem_filter.2 ⟨mem_toFinset.2 hmem, ht, hnew⟩)
    rw [Emitting.emit, hready, hpending, hordered]
    simp only [mem_erase, h.ready, List.mem_append, List.mem_singleton, not_or]
    by_cases ht : t ∈ keys.parentsOf next
    · have htables := ((hkeys.parentsOf _ _).1 ht).2.2.2
      have hne : t ≠ next := fun heq => hself (heq ▸ ht)
      have hpend := hle t ht
      have hout : t ∉ w.ordered := by
        intro hin
        obtain ⟨pre, post, hsplit⟩ := append_of_mem hin
        have hbefore := h.before pre t post hsplit next hmem ht
        exact hnew (hsplit ▸ mem_append_left _ hbefore)
      simp [ht, htables, hne, hpend, hout]
    simp only [ht, false_and, or_false, if_false]
    tauto
  · intro pre p post hsplit c hc hp
    rw [Emitting.emit, hordered] at hsplit
    rcases eq_nil_or_concat post with rfl | ⟨post, last, rfl⟩
    · obtain ⟨rfl, hlast⟩ := append_inj' hsplit rfl
      obtain rfl := head_eq_of_cons_eq hlast
      by_contra hnot
      rw [h.pending, card_eq_zero] at hzero
      have hin : c ∈ tables.toFinset.filter fun c => next ∈ keys.parentsOf c ∧ c ∉ w.ordered :=
        mem_filter.2 ⟨mem_toFinset.2 hc, hp, hnot⟩
      rw [hzero] at hin
      exact absurd hin (notMem_empty c)
    rw [concat_eq_append, ← cons_append, ← append_assoc] at hsplit
    exact h.before pre p post (append_inj' hsplit rfl).1 c hc hp

private theorem Emitting.Ok.walk (hkeys : keys.Of tables edges) (h : w.Ok tables keys) (turns : Nat) :
    (w.walk keys turns).Ok tables keys := by
  induction turns generalizing w with
  | zero => exact h
  | succ turns ih =>
    unfold Emitting.walk
    split
    · rename_i hne
      exact ih (h.emit hkeys (w.ready.min'_mem hne))
    · exact h

/-- The loop ends: it has no more turns than tables. -/
theorem ready_walk (hkeys : keys.Of tables edges) (h : w.Ok tables keys) {turns : Nat}
    (hturns : tables.length ≤ w.ordered.length + turns) : (w.walk keys turns).ready = ∅ := by
  induction turns generalizing w with
  | zero =>
    have hall : ∀ t ∈ tables, t ∈ w.ordered := fun t ht =>
      (h.nodup.subperm h.known).perm_of_length_le (by omega) |>.symm.subset ht
    rw [Emitting.walk, eq_empty_iff_forall_notMem]
    intro t ht
    obtain ⟨hmem, -, hnew⟩ := (h.ready t).1 ht
    exact hnew (hall t hmem)
  | succ turns ih =>
    unfold Emitting.walk
    split
    · rename_i hne
      refine ih (h.emit hkeys (w.ready.min'_mem hne)) ?_
      have hordered := (release_foldl ((keys.parentsOf (w.ready.min' hne)).sort_nodup (· ≤ ·))
        ⟨w.ready.erase (w.ready.min' hne), w.pendingChildren, w.ordered ++ [w.ready.min' hne]⟩).1
      rw [Emitting.emit, hordered, length_append, length_singleton]
      omega
    rename_i hempty
    exact not_nonempty_iff_eq_empty.1 hempty

/-- A walk that is out of ready tables has emitted all, unless there is a cycle. -/
theorem emitted_of_acyclic (hkeys : keys.Of tables edges) (h : w.Ok tables keys) (hready : w.ready = ∅)
    (hacyclic : ∀ t, ¬ Relation.TransGen (References tables edges) t t) : tables ⊆ w.ordered := by
  let below : {t // t ∈ tables} → {t // t ∈ tables} → Prop := fun a b => References tables edges a.1 b.1
  have hwf : WellFounded (Relation.TransGen below) := by
    have hirrefl : Std.Irrefl (Relation.TransGen below) := by
      exact ⟨fun a ha => hacyclic a.1 (ha.lift Subtype.val fun _ _ hab => hab)⟩
    exact Finite.wellFounded_of_trans_of_irrefl _
  intro t ht
  refine hwf.induction (C := fun t => t.1 ∈ w.ordered) ⟨t, ht⟩ ?_
  rintro ⟨t, ht⟩ ih
  by_contra hnew
  have hnone : w.pendingChildren t = 0 := by
    rw [h.pending, card_eq_zero, filter_eq_empty_iff]
    rintro c hc ⟨hp, hout⟩
    rw [mem_toFinset] at hc
    exact hout (ih ⟨c, hc⟩ (.single ((hkeys.parentsOf _ _).1 hp)))
  have hin : t ∈ w.ready := (h.ready t).2 ⟨ht, hnone, hnew⟩
  rw [hready] at hin
  exact absurd hin (notMem_empty t)

/-- The order is one of all tables, and if the foreign keys have no cycle, every table comes after those that reference
it. -/
theorem fk_child_first_order_sound (tables : List String) (edges : List (String × String)) (hnodup : tables.Nodup) :
    (emitted tables edges).ready = ∅ ∧ (fkChildFirstOrder tables edges).Perm tables ∧
      ((∀ t, ¬ Relation.TransGen (References tables edges) t t) →
        ∀ pre parent post, fkChildFirstOrder tables edges = pre ++ parent :: post →
          ∀ child, References tables edges child parent → child ∈ pre) := by
  have hkeys := foreignKeys_of tables edges
  have hok := (ok_firstReady hkeys).walk hkeys tables.length
  have hready : (emitted tables edges).ready = ∅ := ready_walk hkeys (ok_firstReady hkeys) (Nat.le_add_left _ _)
  refine ⟨hready, ?_, ?_⟩
  · rw [fkChildFirstOrder, perm_ext_iff_of_nodup _ hnodup]
    · intro t
      simp only [mem_append, mem_filter, decide_eq_true_eq]
      constructor
      · rintro (ht | ht)
        · exact hok.known ht
        · exact ht.1
      · intro ht
        by_cases hin : t ∈ (emitted tables edges).ordered
        · exact .inl hin
        · exact .inr ⟨ht, hin⟩
    · refine nodup_append.2 ⟨hok.nodup, hnodup.filter _, ?_⟩
      rintro a ha b hb rfl
      exact of_decide_eq_true (mem_filter.1 hb).2 ha
  · intro hacyclic pre parent post hsplit child hreference
    have hall := emitted_of_acyclic hkeys hok hready hacyclic
    have hrest : tables.filter (· ∉ (emitted tables edges).ordered) = [] := by
      rw [filter_eq_nil_iff]
      intro t ht hout
      exact of_decide_eq_true hout (hall ht)
    rw [fkChildFirstOrder, hrest, append_nil] at hsplit
    exact hok.before pre parent post hsplit child hreference.2.2.1 ((hkeys.parentsOf _ _).2 hreference)

theorem fk_child_first_order_sound_votes :
    (emitted ["governance_proposals", "governance_votes"] [("governance_votes", "governance_proposals")]).ready = ∅ ∧
    ∀ pre parent post, fkChildFirstOrder ["governance_proposals", "governance_votes"]
        [("governance_votes", "governance_proposals")] = pre ++ parent :: post →
      ∀ child, References ["governance_proposals", "governance_votes"]
        [("governance_votes", "governance_proposals")] child parent → child ∈ pre := by
  obtain ⟨hready, -, horder⟩ := fk_child_first_order_sound ["governance_proposals", "governance_votes"]
    [("governance_votes", "governance_proposals")] (by decide)
  refine ⟨hready, horder ?_⟩
  have hpath : ∀ a b, Relation.TransGen (References ["governance_proposals", "governance_votes"]
      [("governance_votes", "governance_proposals")]) a b → a = "governance_votes" ∧ b = "governance_proposals" := by
    intro a b hab
    induction hab with
    | single hstep => simpa using hstep.1
    | tail _ hstep ih => exact ⟨ih.1, (by simpa using hstep.1 : _ ∧ _).2⟩
  intro t ht
  obtain ⟨rfl, hcontra⟩ := hpath t t ht
  exact absurd hcontra (by decide)

end RobotMoney.Indexer
