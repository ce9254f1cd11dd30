import Mathlib.Data.List.DropRight
import Mathlib.Data.List.Nodup
import Mathlib.Order.Bounds.Basic
import RuleMachine.Proofs.Compiler.Pool

set_option autoImplicit false

namespace RuleMachine

namespace LabelPool

variable {top count : Nat} {pool : LabelPool}

/-- The first labels are in use, and there were `top` of them at most, which are all that the pool
has handed out. -/
structure Grown (top count : Nat) (pool : LabelPool) : Prop extends Drawn count pool where
  issued : pool.issued = top
  peak : pool.peak = top

theorem grown_empty : Grown 0 0 empty := ⟨drawn_empty, rfl, rfl⟩

theorem Grown.le_top (h : Grown top count pool) : count ≤ top := h.issued ▸ h.le

theorem peak_allocate (pool : LabelPool) :
    pool.allocate.2.peak = max pool.peak pool.allocate.2.inUse.length := by
  unfold allocate
  split <;> rfl

theorem Drawn.returned_eq_nil_iff (h : Drawn count pool) :
    pool.returned = [] ↔ pool.issued = count := by
  have hle := h.le
  rw [h.returned, List.range'_eq_nil_iff]
  omega

theorem Drawn.issued_allocate (h : Drawn count pool) :
    pool.allocate.2.issued = max pool.issued (count + 1) := by
  have hle := h.le
  have hnil := h.returned_eq_nil_iff
  unfold LabelPool.allocate
  cases hr : pool.returned with
  | nil =>
    have hissued := hnil.1 hr
    simp only [use]
    omega
  | cons n rest =>
    have hissued : ¬ pool.issued = count := by simp [← hnil, hr]
    simp only [use]
    omega

theorem Grown.allocate (h : Grown top count pool) :
    ∃ next, pool.allocate = (⟨count⟩, next) ∧ Grown (max top (count + 1)) (count + 1) next := by
  obtain ⟨next, hnext, hdrawn⟩ := h.toDrawn.allocate
  have hissued := h.toDrawn.issued_allocate
  have hpeak := pool.peak_allocate
  rw [hnext, h.issued] at hissued
  rw [hnext, h.peak, hdrawn.inUse, List.length_range] at hpeak
  exact ⟨next, hnext, hdrawn, hissued, hpeak⟩

theorem Grown.releaseAll (h : Grown top count pool) : Grown top 0 pool.releaseAll :=
  ⟨h.toDrawn.releaseAll, h.issued, h.peak⟩

theorem Drawn.inUse_append_returned (h : Drawn count pool) :
    pool.inUse ++ pool.returned = List.range pool.issued := by
  have hall := h.releaseAll.returned
  rwa [LabelPool.releaseAll, Nat.sub_zero, ← List.range_eq_range'] at hall

theorem Drawn.isLeast_allocate (h : Drawn count pool) :
    IsLeast {n | n ∉ pool.inUse} pool.allocate.1.id := by
  obtain ⟨next, hnext, _⟩ := h.allocate
  rw [hnext, h.inUse]
  refine ⟨by simp, fun n hn => ?_⟩
  rwa [Set.mem_ofPred_eq, List.mem_range, Nat.not_lt] at hn

end LabelPool

inductive PoolStep where
  | allocate
  | releaseAll
  deriving DecidableEq, Repr

namespace PoolStep

def outstanding (steps : List PoolStep) : Nat := (steps.rtakeWhile (· = .allocate)).length

def reached (steps : List PoolStep) : Set Nat :=
  {k | ∃ front, front <+: steps ∧ outstanding front = k}

theorem outstanding_allocate (steps : List PoolStep) :
    outstanding (steps ++ [.allocate]) = outstanding steps + 1 := by
  rw [outstanding, List.rtakeWhile_concat_pos _ _ _ rfl, List.length_append]
  rfl

theorem outstanding_releaseAll (steps : List PoolStep) :
    outstanding (steps ++ [.releaseAll]) = 0 := by
  rw [outstanding, List.rtakeWhile_concat_neg _ _ _ (by decide)]
  rfl

theorem reached_nil : reached [] = {0} := by
  ext k
  simp [reached, outstanding, eq_comm]

theorem reached_concat (steps : List PoolStep) (step : PoolStep) :
    reached (steps ++ [step]) = insert (outstanding (steps ++ [step])) (reached steps) := by
  ext k
  simp only [reached, List.prefix_concat_iff, or_and_right, exists_or, exists_eq_left,
    Set.mem_ofPred_eq, Set.mem_insert_iff, eq_comm (a := k)]

end PoolStep

namespace LabelPool

open PoolStep

def step (pool : LabelPool) : PoolStep → LabelPool
  | .allocate => pool.allocate.2
  | .releaseAll => pool.releaseAll

/-- A new pool with which some steps were done. -/
def after (steps : List PoolStep) : LabelPool := steps.foldl step empty

theorem after_concat (steps : List PoolStep) (s : PoolStep) :
    after (steps ++ [s]) = (after steps).step s := by
  rw [after, List.foldl_append]
  rfl

theorem exists_grown_after (steps : List PoolStep) : ∃ top,
    IsGreatest (reached steps) top ∧ Grown top (outstanding steps) (after steps) := by
  -- on the last step: what was reached before it stays reached
  induction steps using List.reverseRecOn with
  | nil =>
    rw [reached_nil]
    exact ⟨0, isGreatest_singleton, grown_empty⟩
  | append_singleton steps s ih =>
    obtain ⟨top, htop, hgrown⟩ := ih
    rw [after_concat, reached_concat]
    cases s with
    | allocate =>
      obtain ⟨next, hnext, hgrown'⟩ := hgrown.allocate
      have htop' := htop.insert (outstanding steps + 1)
      rw [max_comm] at htop'
      rw [outstanding_allocate, step, hnext]
      exact ⟨_, htop', hgrown'⟩
    | releaseAll =>
      rw [outstanding_releaseAll]
      exact ⟨_, htop.insert 0, (Nat.zero_max top).symm ▸ hgrown.releaseAll⟩

/-- After any steps the labels in use are the first ones, as many as were allocated since the last
release, and the next one allocated is the smallest of the others. Those in use and those that are
free are different, and together all that were ever handed out, which are as many as were in use
at once at the time when these were most. So while fewer than `2 ^ 32` are in use at once, no number
of a label reaches that. -/
theorem after_exact (steps : List PoolStep) :
    (after steps).inUse = List.range (outstanding steps) ∧
    IsLeast {n | n ∉ (after steps).inUse} (after steps).allocate.1.id ∧
    (after steps).inUse.Disjoint (after steps).returned ∧
    ((after steps).inUse ++ (after steps).returned).Nodup ∧
    (after steps).inUse ++ (after steps).returned = List.range (after steps).issued ∧
    (after steps).issued = (after steps).peak ∧
    IsGreatest (reached steps) (after steps).peak := by
  obtain ⟨top, htop, hgrown⟩ := exists_grown_after steps
  have hall := hgrown.toDrawn.inUse_append_returned
  have hnodup : ((after steps).inUse ++ (after steps).returned).Nodup := by
    rw [hall]
    exact List.nodup_range
  refine ⟨hgrown.inUse, hgrown.toDrawn.isLeast_allocate, List.disjoint_of_nodup_append hnodup,
    hnodup, hall, hgrown.issued.trans hgrown.peak.symm, ?_⟩
  rw [hgrown.peak]
  exact htop

example : empty.allocate.2.allocate.2.releaseAll.allocate = (⟨0⟩, ⟨[0], [1], 2, 2⟩) := rfl

end LabelPool

end RuleMachine
