import Mathlib.Algebra.Order.Field.Rat
import Mathlib.Order.Monotone.Basic
import Mathlib.Tactic.FieldSimp
import Mathlib.Tactic.Linarith
import Mathlib.Tactic.Positivity
import Mathlib.Tactic.Ring
import RuleMachine.Number.BinaryFormat

set_option autoImplicit false

namespace RuleMachine

namespace BinaryFormat

variable (F : BinaryFormat)

def shift (p : Nat) : Nat := p / 2 ^ F.fractionBits - 1

/-- The number of a pattern, without sign. -/
def value (p : Nat) : ℚ := F.units p / 2 ^ F.scale

/-- The number halfway between a pattern and the next. -/
def boundary (p : Nat) : ℚ := (F.value p + F.value (p + 1)) / 2

variable {F} {p q s m : Nat}

theorem units_add (hm : m ≤ 2 * 2 ^ F.fractionBits) (h : s = 0 ∨ 2 ^ F.fractionBits ≤ m) :
    F.units (s * 2 ^ F.fractionBits + m) = m * 2 ^ s := by
  have hpos : 0 < 2 ^ F.fractionBits := Nat.two_pow_pos _
  unfold units
  simp only [Nat.pow_eq]
  generalize 2 ^ F.fractionBits = P at *
  rw [Nat.add_comm, Nat.add_mul_div_right _ _ hpos, Nat.add_mul_mod_self_right]
  rcases Nat.lt_trichotomy m P with hlow | rfl | hhigh
  · obtain rfl : s = 0 := by omega
    rw [Nat.div_eq_of_lt hlow, Nat.mod_eq_of_lt hlow, if_pos rfl, Nat.pow_zero, Nat.mul_one]
  · rw [Nat.div_self hpos, Nat.mod_self, if_neg (by omega), Nat.add_zero, Nat.add_sub_cancel_left]
  · rcases Nat.lt_or_ge m (2 * P) with hin | hout
    · have hdiv : m / P = 1 := Nat.div_eq_of_lt_le (by omega) (by omega)
      have hmod : m % P = m - P := by rw [Nat.mod_eq_sub, hdiv, Nat.mul_one]
      rw [hdiv, hmod, if_neg (by omega), Nat.add_sub_cancel_left, Nat.add_sub_cancel' hhigh.le]
    · obtain rfl : m = 2 * P := Nat.le_antisymm hm hout
      rw [Nat.mul_div_cancel _ hpos, Nat.mul_mod_left, if_neg (by omega), Nat.add_zero,
        show 2 + s - 1 = s + 1 by omega, Nat.pow_succ]
      ring

theorem exists_units (F : BinaryFormat) (s : Nat) : ∀ {m : Nat}, m ≤ 2 * 2 ^ F.fractionBits →
    ∃ p ≤ s * 2 ^ F.fractionBits + m, F.units p = m * 2 ^ s := by
  induction s with
  | zero => exact fun {m} hm => ⟨0 * 2 ^ F.fractionBits + m, Nat.le_refl _, units_add hm (.inl rfl)⟩
  | succ s ih =>
    intro m hm
    by_cases hfull : 2 ^ F.fractionBits ≤ m
    · exact ⟨_, Nat.le_refl _, units_add hm (.inr hfull)⟩
    · obtain ⟨p, hp, hunits⟩ := ih (m := 2 * m) (by omega)
      refine ⟨p, ?_, by rw [hunits, Nat.pow_succ]; ring⟩
      rw [Nat.succ_mul]
      omega

theorem exists_significand (F : BinaryFormat) (p : Nat) : ∃ m < 2 * 2 ^ F.fractionBits,
    (F.shift p = 0 ∨ 2 ^ F.fractionBits ≤ m) ∧ p = F.shift p * 2 ^ F.fractionBits + m := by
  have hpos : 0 < 2 ^ F.fractionBits := Nat.two_pow_pos _
  unfold shift
  generalize 2 ^ F.fractionBits = P at *
  have hp := Nat.div_add_mod p P
  have hlt := Nat.mod_lt p hpos
  rcases hfield : p / P with _ | field
  · rw [hfield] at hp
    exact ⟨p, by omega, .inl rfl, by rw [Nat.zero_sub, Nat.zero_mul, Nat.zero_add]⟩
  · refine ⟨P + p % P, by omega, .inr (by omega), ?_⟩
    rw [hfield] at hp
    rw [Nat.add_sub_cancel, ← Nat.add_assoc, ← Nat.succ_mul, Nat.mul_comm]
    exact hp.symm

theorem units_succ (F : BinaryFormat) (p : Nat) :
    F.units (p + 1) = F.units p + 2 ^ F.shift p := by
  obtain ⟨m, hm, hfull, hp⟩ := F.exists_significand p
  generalize F.shift p = s at *
  rw [hp, Nat.add_assoc, units_add hm.le hfull, units_add hm (by omega), Nat.succ_mul]

theorem units_strictMono (F : BinaryFormat) : StrictMono F.units :=
  strictMono_nat_of_lt_succ fun p => by
    rw [units_succ]
    exact Nat.lt_add_of_pos_right (Nat.two_pow_pos _)

@[simp] theorem units_zero (F : BinaryFormat) : F.units 0 = 0 := by
  simp [units]

theorem two_pow_shift_le_units (F : BinaryFormat) (hp : 0 < p) : 2 ^ F.shift p ≤ F.units p := by
  obtain ⟨m, hm, hfull, heq⟩ := F.exists_significand p
  have hpos : 0 < m := by
    rcases hfull with h0 | hge
    · rw [h0] at heq
      omega
    · exact (Nat.two_pow_pos _).trans_le hge
  have hunits := units_add hm.le hfull
  rw [← heq] at hunits
  rw [hunits]
  exact Nat.le_mul_of_pos_left _ hpos

theorem shift_mono (F : BinaryFormat) (h : p ≤ q) : F.shift p ≤ F.shift q :=
  Nat.sub_le_sub_right (Nat.div_le_div_right h) 1

theorem scale_pos (F : BinaryFormat) : (0 : ℚ) < 2 ^ F.scale := by positivity

theorem value_strictMono (F : BinaryFormat) : StrictMono F.value := fun _ _ h =>
  div_lt_div_of_pos_right (Nat.cast_lt.2 (F.units_strictMono h)) F.scale_pos

@[simp] theorem value_zero (F : BinaryFormat) : F.value 0 = 0 := by
  simp [value]

theorem value_nonneg (F : BinaryFormat) (p : Nat) : 0 ≤ F.value p := by
  rw [← F.value_zero]
  exact F.value_strictMono.monotone p.zero_le

theorem value_succ (F : BinaryFormat) (p : Nat) :
    F.value (p + 1) = F.value p + 2 ^ F.shift p / 2 ^ F.scale := by
  rw [value, value, units_succ, Nat.cast_add, add_div]
  push_cast
  rfl

theorem value_of_units {n : Nat} (h : F.units p = n * 2 ^ F.scale) : F.value p = n := by
  rw [value, h, Nat.cast_mul, Nat.cast_pow, Nat.cast_ofNat,
    mul_div_cancel_right₀ _ F.scale_pos.ne']

theorem value_binade (F : BinaryFormat) (s : Nat) :
    F.value (s * 2 ^ F.fractionBits + 2 ^ F.fractionBits) =
      2 ^ (F.fractionBits + s) / 2 ^ F.scale := by
  rw [value, units_add (by omega) (.inr le_rfl), Nat.cast_mul, Nat.cast_pow, Nat.cast_pow,
    Nat.cast_ofNat, pow_add]

theorem value_binade_eq {k : Nat} (h : F.fractionBits + s = k + F.scale) :
    F.value (s * 2 ^ F.fractionBits + 2 ^ F.fractionBits) = 2 ^ k := by
  rw [value_binade, h, pow_add, mul_div_cancel_right₀ _ (by positivity)]

theorem boundary_zero (F : BinaryFormat) : F.boundary 0 = 1 / 2 ^ (F.scale + 1) := by
  have hshift : F.shift 0 = 0 := by simp [shift]
  rw [boundary, value_succ, value_zero, zero_add, zero_add, hshift, pow_zero, div_div, pow_succ]

theorem value_lt_boundary (F : BinaryFormat) (p : Nat) : F.value p < F.boundary p := by
  have h := F.value_strictMono p.lt_succ_self
  rw [boundary]
  linarith

theorem boundary_lt_value (F : BinaryFormat) (p : Nat) : F.boundary p < F.value (p + 1) := by
  have h := F.value_strictMono p.lt_succ_self
  rw [boundary]
  linarith

theorem boundary_strictMono (F : BinaryFormat) : StrictMono F.boundary :=
  strictMono_nat_of_lt_succ fun p => (F.boundary_lt_value p).trans (F.value_lt_boundary (p + 1))

/-- A boundary is an odd number of half steps. -/
theorem exists_boundary (F : BinaryFormat) (p : Nat) : ∃ m < 2 * 2 ^ F.fractionBits,
    (F.shift p = 0 ∨ 2 ^ F.fractionBits ≤ m) ∧ p = F.shift p * 2 ^ F.fractionBits + m ∧
    F.boundary p = ((2 * m + 1) * 2 ^ F.shift p : Nat) / 2 ^ (F.scale + 1) := by
  obtain ⟨m, hm, hfull, hp⟩ := F.exists_significand p
  refine ⟨m, hm, hfull, hp, ?_⟩
  have hunits := units_add hm.le hfull
  rw [← hp] at hunits
  rw [boundary, value_succ, value, hunits, pow_succ]
  push_cast
  field_simp
  ring

theorem step_le (h : 2 ^ F.fractionBits ≤ p) :
    F.value (p + 1) - F.value p ≤ F.value p / 2 ^ F.fractionBits := by
  obtain ⟨m, hm, hfull, hp⟩ := F.exists_significand p
  have hge : 2 ^ F.fractionBits ≤ m := by
    rcases hfull with h0 | hge
    · rw [h0] at hp
      omega
    · exact hge
  have hunits : F.units p = m * 2 ^ F.shift p := by
    have := units_add hm.le hfull
    rwa [← hp] at this
  rw [value_succ, add_sub_cancel_left, value, hunits, div_right_comm]
  refine div_le_div_of_nonneg_right ?_ F.scale_pos.le
  rw [le_div_iff₀ (by positivity), mul_comm]
  push_cast
  exact mul_le_mul_of_nonneg_right (by exact_mod_cast hge) (by positivity)

end BinaryFormat

end RuleMachine
