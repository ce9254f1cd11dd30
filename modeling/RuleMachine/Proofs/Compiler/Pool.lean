import RuleMachine.Proofs.Compiler.Lowered
/-!
What lowering takes from its pool. A pool hands out the labels from zero on, also after labels have
come back, so that the answer of lowering and the labels it uses depend only on how many labels are
in use. Between two rules none is.
-/

set_option autoImplicit false

namespace RuleMachine

theorem insertAscending_of_lt {n : Nat} {l : List Nat} (h : ∀ m ∈ l, m < n) :
    insertAscending n l = l ++ [n] := by
  induction l with
  | nil => rfl
  | cons m l ih =>
    obtain ⟨hm, hl⟩ := List.forall_mem_cons.1 h
    have hlt : ¬ n < m := by omega
    have hne : ¬ n = m := by omega
    simp [insertAscending, hlt, hne, ih hl]

namespace LabelPool

/-- The labels in use are the first ones, and the next ones come in order. -/
structure Drawn (count : Nat) (pool : LabelPool) : Prop where
  inUse : pool.inUse = List.range count
  returned : pool.returned = List.range' count (pool.issued - count)
  le : count ≤ pool.issued

variable {count : Nat} {pool : LabelPool}

theorem drawn_empty : Drawn 0 empty := ⟨rfl, rfl, Nat.le_refl 0⟩

theorem Drawn.insertAscending (h : Drawn count pool) :
    insertAscending count pool.inUse = List.range (count + 1) := by
  have hlt : ∀ m ∈ pool.inUse, m < count := by
    intro m hm
    rwa [h.inUse, List.mem_range] at hm
  rw [insertAscending_of_lt hlt, h.inUse, List.range_succ]

theorem Drawn.allocate (h : Drawn count pool) :
    ∃ next, pool.allocate = (⟨count⟩, next) ∧ Drawn (count + 1) next := by
  have hreturned := h.returned
  have hle := h.le
  unfold LabelPool.allocate
  cases hr : pool.returned with
  | nil =>
    have hissued : pool.issued = count := by
      rw [hr, eq_comm, List.range'_eq_nil_iff] at hreturned
      omega
    refine ⟨_, by rw [hissued], ?_, ?_, ?_⟩
    · simp [use, h.insertAscending]
    · simp [use]
    · simp [use]
  | cons n rest =>
    obtain ⟨k, hk⟩ : ∃ k, pool.issued - count = k + 1 := by
      refine ⟨pool.issued - count - 1, ?_⟩
      cases hd : pool.issued - count with
      | zero => simp [hr, hd] at hreturned
      | succ k => omega
    rw [hr, hk, List.range'_succ, List.cons.injEq] at hreturned
    obtain ⟨rfl, rfl⟩ := hreturned
    refine ⟨_, rfl, ?_, ?_, ?_⟩
    · simp [use, h.insertAscending]
    · have hkk : pool.issued - (n + 1) = k := by omega
      simp [use, hkk]
    · simp only [use]
      omega

theorem Drawn.releaseAll (h : Drawn count pool) : Drawn 0 pool.releaseAll := by
  have hle := h.le
  have hall : List.range count ++ List.range' count (pool.issued - count) =
      List.range' 0 pool.issued := by
    rw [List.range_eq_range', ← Nat.add_sub_cancel' hle, Nat.add_sub_cancel_left,
      ← List.range'_append_1, Nat.zero_add]
  refine ⟨rfl, ?_, Nat.zero_le _⟩
  simp [LabelPool.releaseAll, h.inUse, h.returned, hall]

end LabelPool

namespace Lowering

open LabelPool

variable {α β : Type}

def result (pool : LabelPool) : Except CompileError α → EStateM.Result CompileError LabelPool α
  | .ok a => .ok a pool
  | .error e => .error e pool

/-- From any pool with `count` labels in use the work gives one answer, after which there are
`after` in use. -/
def Gives (work : Lowering α) (count : Nat) (answer : Except CompileError α) (after : Nat) : Prop :=
  ∀ pool, Drawn count pool → ∃ next, Drawn after next ∧ work pool = result next answer

/-- The answer is decided by the number of labels in use. -/
def Uniform (work : Lowering α) : Prop := ∀ count, ∃ answer after, work.Gives count answer after

variable {work : Lowering α} {next : α → Lowering β} {count middle after : Nat} {a : α}
  {e : CompileError} {answer other : Except CompileError α} {reply : Except CompileError β}

theorem gives_pure (a : α) (count : Nat) : Gives (pure a) count (.ok a) count :=
  fun pool h => ⟨pool, h, rfl⟩

theorem gives_ofExcept (answer : Except CompileError α) (count : Nat) :
    Gives (ofExcept answer) count answer count := by
  intro pool h
  refine ⟨pool, h, ?_⟩
  cases answer <;> rfl

theorem gives_ofCause (x : Except CompileCause α) (count : Nat) :
    Gives (ofCause x) count (x.mapError .ofCause) count :=
  gives_ofExcept _ count

theorem gives_allocate (count : Nat) : Gives allocate count (.ok ⟨count⟩) (count + 1) := by
  intro pool h
  obtain ⟨next, hnext, hdrawn⟩ := h.allocate
  refine ⟨next, hdrawn, ?_⟩
  simp only [allocate, hnext, result]

theorem Gives.bind_ok (h : work.Gives count (.ok a) middle)
    (hnext : (next a).Gives middle reply after) : (work >>= next).Gives count reply after := by
  intro pool hpool
  obtain ⟨pool₁, h₁, hwork⟩ := h pool hpool
  obtain ⟨pool₂, h₂, hrest⟩ := hnext pool₁ h₁
  refine ⟨pool₂, h₂, ?_⟩
  change EStateM.bind work next pool = _
  rw [EStateM.bind, hwork]
  exact hrest

theorem Gives.bind_error (h : work.Gives count (.error e) after) :
    (work >>= next).Gives count (.error e) after := by
  intro pool hpool
  obtain ⟨pool₁, h₁, hwork⟩ := h pool hpool
  refine ⟨pool₁, h₁, ?_⟩
  change EStateM.bind work next pool = _
  rw [EStateM.bind, hwork]
  rfl

theorem uniform_pure (a : α) : Uniform (pure a) := fun count => ⟨_, _, gives_pure a count⟩

theorem uniform_ofExcept (answer : Except CompileError α) : Uniform (ofExcept answer) :=
  fun count => ⟨_, _, gives_ofExcept answer count⟩

theorem uniform_ofCause (x : Except CompileCause α) : Uniform (ofCause x) :=
  uniform_ofExcept _

theorem uniform_allocate : Uniform allocate := fun count => ⟨_, _, gives_allocate count⟩

theorem Uniform.bind (h : work.Uniform) (hnext : ∀ a, (next a).Uniform) :
    (work >>= next).Uniform := by
  intro count
  obtain ⟨answer, middle, hwork⟩ := h count
  cases answer with
  | ok a =>
    obtain ⟨reply, after, hrest⟩ := hnext a middle
    exact ⟨reply, after, hwork.bind_ok hrest⟩
  | error e => exact ⟨.error e, middle, hwork.bind_error⟩

theorem uniform_mapM {f : α → Lowering β} (h : ∀ a, (f a).Uniform) (l : List α) :
    (l.mapM f).Uniform := by
  induction l with
  | nil => exact uniform_pure []
  | cons a l ih =>
    rw [List.mapM_cons]
    exact (h a).bind fun _ => ih.bind fun _ => uniform_pure _

theorem uniform_cut {first second : Label → Lowering Assembly} (hfirst : ∀ l, (first l).Uniform)
    (hsecond : ∀ l, (second l).Uniform) : Uniform (do
      let next ← allocate
      let front ← first next
      let mark ← ofCause next.mark
      let back ← second next
      return front ++ .instruction mark :: back) :=
  uniform_allocate.bind fun next => (hfirst next).bind fun _ =>
    (uniform_ofCause _).bind fun _ => (hsecond next).bind fun _ => uniform_pure _

end Lowering

open Lowering

mutual

theorem Condition.uniform_lower (success failure : Label) (c : Condition) :
    (c.lower success failure).Uniform := by
  cases c with
  | leaf fact operator value =>
    rw [Condition.lower]
    exact (uniform_ofExcept _).bind fun _ => (uniform_ofCause _).bind fun _ => uniform_pure _
  | group all any =>
    rw [Condition.lower.eq_def]
    cases all with
    | nil =>
      cases any with
      | nil => exact uniform_ofExcept (.error _)
      | cons b any => exact uniform_lowerAny success failure (b :: any)
    | cons a all =>
      cases any with
      | nil => exact uniform_lowerAll success failure (a :: all)
      | cons b any =>
        exact uniform_cut (fun middle => uniform_lowerAll middle failure (a :: all))
          fun _ => uniform_lowerAny success failure (b :: any)

theorem uniform_lowerAll (success failure : Label) (cs : List Condition) :
    (lowerAll success failure cs).Uniform := by
  cases cs with
  | nil => exact uniform_ofExcept (.error _)
  | cons c rest =>
    rw [lowerAll]
    cases rest with
    | nil => exact c.uniform_lower success failure
    | cons d rest =>
      exact uniform_cut (fun next => c.uniform_lower next failure)
        fun _ => uniform_lowerAll success failure (d :: rest)

theorem uniform_lowerAny (success failure : Label) (cs : List Condition) :
    (lowerAny success failure cs).Uniform := by
  cases cs with
  | nil => exact uniform_ofExcept (.error _)
  | cons c rest =>
    rw [lowerAny]
    cases rest with
    | nil => exact c.uniform_lower success failure
    | cons d rest =>
      exact uniform_cut (fun next => c.uniform_lower success next)
        fun _ => uniform_lowerAny success failure (d :: rest)

end

theorem Rule.uniform_lower (r : Rule) : r.lower.Uniform := by
  unfold Rule.lower
  refine (uniform_ofCause _).bind fun start => (uniform_ofCause _).bind fun priority => ?_
  refine (uniform_mapM (fun _ => uniform_ofCause _) _).bind fun scripts => ?_
  refine uniform_allocate.bind fun body => uniform_allocate.bind fun skip => ?_
  refine (r.conditions.uniform_lower body skip).bind fun condition => ?_
  refine (uniform_ofCause _).bind fun bodyMark => ?_
  refine (uniform_mapM (fun _ => uniform_ofCause _) _).bind fun actions => ?_
  exact (uniform_ofCause _).bind fun skipMark => uniform_pure _

/-- Whatever became of a rule, no label is in use after it. -/
theorem Rule.gives_compile (r : Rule) : ∃ answer, r.compile.Gives 0 answer 0 := by
  have hassemble : r.assemble.Uniform :=
    r.uniform_lower.bind fun code => uniform_ofCause code.resolve
  obtain ⟨answer, after, h⟩ := hassemble 0
  refine ⟨answer, fun pool hpool => ?_⟩
  obtain ⟨next, hnext, hresult⟩ := h pool hpool
  refine ⟨next.releaseAll, hnext.releaseAll, ?_⟩
  rw [Rule.compile, hresult]
  cases answer <;> rfl

end RuleMachine
