import Mathlib.Algebra.Order.Ring.Abs
import RuleMachine.Proofs.Number.Literal

set_option autoImplicit false

namespace RuleMachine

open BinaryFormat

namespace BinaryFormat

variable {F : BinaryFormat} {p q : Nat} {u v : ℚ}

theorem nearest_eq_nearest_iff :
    F.nearest u = F.nearest v ↔ ∀ q < F.infinity, (q < F.nearest u ↔ q < F.nearest v) := by
  refine ⟨fun h q _ => by rw [h], fun h => Nat.le_antisymm ?_ ?_⟩
  · refine Nat.le_of_not_lt fun hlt => ?_
    exact Nat.lt_irrefl _ ((h _ (hlt.trans_le (F.nearest_le_infinity u))).1 hlt)
  · refine Nat.le_of_not_lt fun hlt => ?_
    exact Nat.lt_irrefl _ ((h _ (hlt.trans_le (F.nearest_le_infinity v))).2 hlt)

theorem abs_value_nearest_sub_le [Fact (0 < F.fractionBits)] (hv : F.value (2 ^ F.fractionBits) ≤ v)
    (h : F.nearest v < F.infinity) :
    |F.value (F.nearest v) - v| ≤ v / 2 ^ (F.fractionBits + 1) := by
  have hv0 : 0 ≤ v := (F.value_nonneg _).trans hv
  have hstep : ∀ {p : Nat}, 2 ^ F.fractionBits ≤ p → F.value p ≤ v →
      (F.value (p + 1) - F.value p) / 2 ≤ v / 2 ^ (F.fractionBits + 1) := fun hp hle => by
    rw [pow_succ, ← div_div]
    exact div_le_div_of_nonneg_right
      ((step_le hp).trans (div_le_div_of_nonneg_right hle (by positivity))) (by norm_num)
  have hmin : 2 ^ F.fractionBits ≤ F.infinity := by
    refine Nat.le_of_not_lt fun hlt => ?_
    exact h.ne (nearest_eq_infinity ((F.value_strictMono.monotone hlt.le).trans hv))
  have hnormal : 2 ^ F.fractionBits ≤ F.nearest v := le_nearest hmin hv
  rcases le_or_gt (F.value (F.nearest v)) v with hle | hgt
  · have hboundary := le_boundary_nearest hv0 h
    have hsmall := hstep hnormal hle
    rw [boundary] at hboundary
    rw [abs_of_nonpos (by linarith)]
    linarith
  · obtain ⟨p, hp⟩ := Nat.exists_eq_add_of_lt (F.value_strictMono.lt_iff_lt.1 (hv.trans_lt hgt))
    have hbelow : p + 2 ^ F.fractionBits < F.nearest v := by omega
    have hboundary := boundary_le_of_lt_nearest hv0 hbelow
    have hsmall := hstep (Nat.le_add_left _ p) ((F.value_lt_boundary _).le.trans hboundary)
    rw [Nat.add_comm p] at hboundary hsmall
    rw [boundary] at hboundary
    rw [abs_of_pos (by linarith), hp]
    linarith

theorem infinity_double : double.infinity = 0x7ff0000000000000 := by decide

theorem le_single_boundary (p : Nat) : 1 / 10 ^ 100 ≤ single.boundary p := by
  refine le_trans ?_ (single.boundary_strictMono.monotone (Nat.zero_le p))
  rw [boundary_zero, scale_single]
  norm_num

theorem single_boundary_le (hp : p ≤ single.infinity) : single.boundary p ≤ 10 ^ 100 := by
  have hvalue : single.value (300 * 2 ^ 23 + 2 ^ 23) = 2 ^ 174 := value_binade_eq (by decide)
  have hnext : p + 1 ≤ 300 * 2 ^ 23 + 2 ^ 23 := by
    rw [infinity_single] at hp
    omega
  refine (single.boundary_lt_value p).le.trans ((single.value_strictMono.monotone hnext).trans ?_)
  rw [hvalue]
  norm_num

theorem ten_pow_le_two_pow : (10 : ℚ) ^ 100 ≤ 2 ^ 400 :=
  calc (10 : ℚ) ^ 100 ≤ (2 ^ 4) ^ 100 := pow_le_pow_left₀ (by norm_num) (by norm_num) 100
    _ = 2 ^ 400 := (pow_mul ..).symm

theorem double_nearest_lt_infinity (hv : 0 ≤ v) (h : v ≤ 10 ^ 100) :
    double.nearest v < double.infinity := by
  have hvalue : double.value (1422 * 2 ^ 52 + 2 ^ 52) = 2 ^ 400 := value_binade_eq (by decide)
  have hlt : 1422 * 2 ^ 52 + 2 ^ 52 < double.infinity := by
    rw [infinity_double]
    decide
  refine (nearest_mono hv (h.trans (ten_pow_le_two_pow.trans_eq hvalue.symm))).trans_lt ?_
  rwa [nearest_value hlt.le]

theorem double_value_le : double.value (2 ^ double.fractionBits) ≤ 1 / 10 ^ 100 := by
  have hvalue := double.value_binade 0
  rw [Nat.zero_mul, Nat.zero_add] at hvalue
  rw [hvalue, div_le_div_iff₀ (by positivity) (by positivity), one_mul]
  calc (2 : ℚ) ^ (double.fractionBits + 0) * 10 ^ 100
      ≤ 2 ^ (double.fractionBits + 0) * 2 ^ 400 :=
        mul_le_mul_of_nonneg_left ten_pow_le_two_pow (by positivity)
    _ = 2 ^ (double.fractionBits + 0 + 400) := (pow_add ..).symm
    _ ≤ 2 ^ double.scale := pow_le_pow_right₀ (by norm_num) (by decide)

/-- The error of one rounding, far from the ends of the range. -/
theorem abs_double_error (hlow : 1 / 10 ^ 100 ≤ v) (hhigh : v ≤ 10 ^ 100) :
    |double.value (double.nearest v) - v| ≤ v / 2 ^ 53 := by
  have hv : 0 ≤ v := le_trans (by positivity) hlow
  exact abs_value_nearest_sub_le (double_value_le.trans hlow) (double_nearest_lt_infinity hv hhigh)

/-- A boundary between four-byte numbers is an eight-byte number. -/
theorem exists_double_boundary (hq : q < single.infinity) :
    ∃ p ≤ double.infinity, double.value p = single.boundary q := by
  obtain ⟨m, hm, -, hq', hboundary⟩ := single.exists_boundary q
  change m < 2 * 2 ^ 23 at hm
  change q = single.shift q * 2 ^ 23 + m at hq'
  obtain ⟨p, hp, hunits⟩ := double.exists_units (single.shift q + 924) (m := 2 * m + 1) (by
    change 2 * m + 1 ≤ 2 * 2 ^ 52
    omega)
  refine ⟨p, ?_, ?_⟩
  · change p ≤ (single.shift q + 924) * 2 ^ 52 + (2 * m + 1) at hp
    rw [infinity_single] at hq
    rw [infinity_double]
    omega
  · have hscale : (2 : ℚ) ^ double.scale = 2 ^ 924 * 2 ^ (single.scale + 1) := by
      rw [← pow_add]
      rfl
    rw [hboundary, value, hunits, hscale]
    push_cast
    rw [pow_add, ← mul_assoc, mul_comm (2 ^ 924 : ℚ), mul_div_mul_right _ _ (by positivity)]

/-- Rounding to eight bytes moves no number across a boundary between four-byte numbers. -/
theorem value_nearest_le_boundary (hq : q < single.infinity) (hv : 0 ≤ v)
    (h : v ≤ single.boundary q) : double.value (double.nearest v) ≤ single.boundary q := by
  obtain ⟨p, hp, heq⟩ := exists_double_boundary hq
  rw [← heq] at h ⊢
  exact double.value_strictMono.monotone (nearest_le hv hp h)

theorem boundary_le_value_nearest (hq : q < single.infinity) (h : single.boundary q ≤ v) :
    single.boundary q ≤ double.value (double.nearest v) := by
  obtain ⟨p, hp, heq⟩ := exists_double_boundary hq
  rw [← heq] at h ⊢
  exact double.value_strictMono.monotone (le_nearest hp h)

/-- Rounded twice, through eight bytes, a number becomes the nearest four-byte number unless the
first rounding moves it onto a boundary, and the even pattern is on the other side. -/
theorem nearest_value_nearest_iff (hv : 0 ≤ v) :
    single.nearest (double.value (double.nearest v)) = single.nearest v ↔
      ∀ q < single.infinity, double.value (double.nearest v) = single.boundary q →
        if q % 2 = 1 then single.boundary q ≤ v else v ≤ single.boundary q := by
  have hw : 0 ≤ double.value (double.nearest v) := double.value_nonneg _
  rw [nearest_eq_nearest_iff]
  refine forall₂_congr fun q hq => ?_
  have hlow := value_nearest_le_boundary hq hv
  have hhigh := boundary_le_value_nearest (v := v) hq
  rw [lt_nearest_iff hq hw, lt_nearest_iff hq hv]
  generalize double.value (double.nearest v) = w at *
  rcases lt_trichotomy w (single.boundary q) with hlt | heq | hgt
  · have hvlt : v < single.boundary q := lt_of_not_ge fun hge => (hhigh hge).not_gt hlt
    have hleft : ¬(single.boundary q < w ∨ single.boundary q = w ∧ q % 2 = 1) := by
      rintro (h | ⟨h, -⟩) <;> linarith
    have hright : ¬(single.boundary q < v ∨ single.boundary q = v ∧ q % 2 = 1) := by
      rintro (h | ⟨h, -⟩) <;> linarith
    exact iff_of_true (iff_of_false hleft hright) fun h => absurd h hlt.ne
  · rw [heq]
    split_ifs with hodd
    · simp only [hodd, and_true, lt_irrefl, false_or, true_iff, forall_const, le_iff_lt_or_eq]
    · simp only [hodd, and_false, or_false, lt_irrefl, false_iff, forall_const, not_lt]
  · have hvgt : single.boundary q < v := lt_of_not_ge fun hle => (hlow hle).not_gt hgt
    exact iff_of_true (iff_of_true (.inl hgt) (.inl hvgt)) fun h => absurd h hgt.ne'

theorem round_units_double (p : Nat) :
    single.round (double.units p) (Nat.pow 2 double.scale) = single.nearest (double.value p) := by
  rw [Nat.pow_eq, round_eq_nearest (Nat.two_pow_pos _), value]
  push_cast
  rfl

end BinaryFormat

namespace Double

variable {negative : Bool} {p : Nat}

@[simp] theorem pattern_ofPattern (hp : p ≤ double.infinity) :
    (ofPattern negative p).pattern = p := by
  rw [infinity_double] at hp
  unfold ofPattern pattern
  rw [UInt64.toNat_ofNat']
  cases negative <;> simp <;> omega

@[simp] theorem isNegative_ofPattern (hp : p ≤ double.infinity) :
    (ofPattern negative p).isNegative = negative := by
  rw [infinity_double] at hp
  unfold ofPattern isNegative
  rw [UInt64.toNat_ofNat']
  cases negative <;> simp <;> omega

theorem toSingle_ofPattern (hp : p ≤ double.infinity) :
    (ofPattern negative p).toSingle =
      .ofPattern negative (single.nearest (double.value p)) := by
  have hnan : (ofPattern negative p).isNaN = false := by
    rw [isNaN, pattern_ofPattern hp]
    exact decide_eq_false (Nat.not_lt.2 hp)
  rw [toSingle, hnan, isNegative_ofPattern hp, isFinite, pattern_ofPattern hp]
  simp only [Bool.false_eq_true, if_false, decide_eq_true_eq]
  congr 1
  split_ifs with hlt
  · exact round_units_double p
  · obtain rfl : p = double.infinity := Nat.le_antisymm hp (Nat.not_lt.1 hlt)
    have hinfinity : double.infinity = 2046 * 2 ^ 52 + 2 ^ 52 := by decide
    have hvalue : double.value (2046 * 2 ^ 52 + 2 ^ 52) = 2 ^ 1024 := value_binade_eq (by decide)
    have hle : single.value single.infinity ≤ double.value double.infinity := by
      rw [value_infinity_single, hinfinity, hvalue]
      exact pow_le_pow_right₀ (by norm_num) (by norm_num)
    exact (nearest_eq_infinity hle).symm

end Double

end RuleMachine
