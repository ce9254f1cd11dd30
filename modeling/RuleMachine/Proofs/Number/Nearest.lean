import Mathlib.Algebra.Order.Field.Basic
import Mathlib.Data.Rat.Lemmas
import RuleMachine.Proofs.Number.Pattern
/-!
Rounding to the nearest pattern. A pattern is left behind exactly when the number lies beyond the
boundary to the next pattern, or on it with the next pattern even. All that is used of rounding
follows from this: it depends on the number alone, keeps the order, and finds every number that has
a pattern.
-/

set_option autoImplicit false

namespace RuleMachine

theorem lt_roundQuotient_iff {j num den : Nat} (hden : 0 < den) :
    j < roundQuotient num den ↔
      (2 * j + 1) * den < 2 * num ∨ (2 * j + 1) * den = 2 * num ∧ j % 2 = 1 := by
  have hnum := Nat.div_add_mod num den
  have hleft := Nat.mod_lt num hden
  unfold roundQuotient
  dsimp only
  generalize num / den = w at *
  generalize num % den = l at *
  have hscale : (2 * j + 1) * den = 2 * (den * j) + den := by ring
  rw [← hnum, hscale]
  rcases Nat.lt_trichotomy j w with hj | rfl | hj
  · have hstep : den * (j + 1) ≤ den * w := Nat.mul_le_mul_left den hj
    rw [Nat.mul_succ] at hstep
    split_ifs <;> omega
  · split_ifs <;> omega
  · have hstep : den * (w + 1) ≤ den * j := Nat.mul_le_mul_left den hj
    rw [Nat.mul_succ] at hstep
    split_ifs <;> omega

theorem roundQuotient_le {m num den : Nat} (hden : 0 < den) (h : num ≤ m * den) :
    roundQuotient num den ≤ m := by
  refine Nat.le_of_not_lt fun hlt => ?_
  rw [lt_roundQuotient_iff hden, Nat.succ_mul, Nat.mul_assoc] at hlt
  omega

theorem le_roundQuotient {m num den : Nat} (hden : 0 < den) (h : m * den ≤ num) :
    m ≤ roundQuotient num den := by
  cases m with
  | zero => exact Nat.zero_le _
  | succ m =>
    rw [Nat.succ_le_iff, lt_roundQuotient_iff hden, Nat.succ_mul, Nat.mul_assoc]
    rw [Nat.succ_mul] at h
    omega

namespace BinaryFormat

variable {F : BinaryFormat} [hF : Fact (0 < F.fractionBits)] {p q s num den : Nat} {v w : ℚ}

instance : Fact (0 < single.fractionBits) := ⟨by decide⟩

instance : Fact (0 < double.fractionBits) := ⟨by decide⟩

theorem round_le_infinity (F : BinaryFormat) (num den : Nat) : F.round num den ≤ F.infinity :=
  Nat.min_le_left _ _

theorem significand_bounds {n b : Nat} :
    n < 2 * 2 ^ b * 2 ^ (n.log2 - b) ∧ (n.log2 - b = 0 ∨ 2 ^ b * 2 ^ (n.log2 - b) ≤ n) := by
  have hupper : n < 2 ^ (n.log2 + 1) := Nat.lt_log2_self
  rcases Nat.le_total n.log2 b with hle | hge
  · rw [Nat.sub_eq_zero_of_le hle, Nat.pow_zero, Nat.mul_one]
    refine ⟨hupper.trans_le ?_, .inl rfl⟩
    rw [← Nat.pow_succ']
    exact Nat.pow_le_pow_right (by omega) (by omega)
  · obtain ⟨k, hk⟩ := Nat.exists_eq_add_of_le hge
    have hn : n ≠ 0 ∨ k = 0 := by
      by_cases hn : n = 0
      · subst hn
        exact .inr (by simp at hk; omega)
      · exact .inl hn
    rw [hk, Nat.add_sub_cancel_left]
    rw [hk, Nat.pow_succ, Nat.pow_add] at hupper
    refine ⟨by rw [Nat.mul_comm 2, Nat.mul_right_comm]; exact hupper, ?_⟩
    rcases hn with hn | rfl
    · have hlower := Nat.log2_self_le hn
      rw [hk, Nat.pow_add] at hlower
      exact .inr hlower
    · exact .inl rfl

theorem exists_binade (F : BinaryFormat) (num : Nat) (hden : 0 < den) : ∃ s,
    F.round num den = min F.infinity (s * 2 ^ F.fractionBits +
      roundQuotient (num * 2 ^ F.scale) (den * 2 ^ s)) ∧
    num * 2 ^ F.scale < 2 * 2 ^ F.fractionBits * (den * 2 ^ s) ∧
    (s = 0 ∨ 2 ^ F.fractionBits * (den * 2 ^ s) ≤ num * 2 ^ F.scale) := by
  obtain ⟨hupper, hlower⟩ :=
    significand_bounds (n := num * 2 ^ F.scale / den) (b := F.fractionBits)
  refine ⟨_, rfl, ?_, hlower.imp_right fun hlower => ?_⟩
  · rw [Nat.div_lt_iff_lt_mul hden] at hupper
    rwa [Nat.mul_comm den, ← Nat.mul_assoc]
  · rw [Nat.le_div_iff_mul_le hden] at hlower
    rwa [Nat.mul_comm den, ← Nat.mul_assoc]

theorem binade_cases (F : BinaryFormat) (s p : Nat) :
    (0 < s ∧ p < s * 2 ^ F.fractionBits + 2 ^ F.fractionBits) ∨
      (∃ m, p = s * 2 ^ F.fractionBits + m ∧ m < 2 * 2 ^ F.fractionBits ∧
        (s = 0 ∨ 2 ^ F.fractionBits ≤ m)) ∨
      s * 2 ^ F.fractionBits + 2 * 2 ^ F.fractionBits ≤ p := by
  generalize 2 ^ F.fractionBits = P
  by_cases habove : s * P + 2 * P ≤ p
  · exact .inr (.inr habove)
  by_cases hbelow : 0 < s ∧ p < s * P + P
  · exact .inl hbelow
  have hs : s = 0 ∨ 0 < s := Nat.eq_zero_or_pos s
  refine .inr (.inl ⟨p - s * P, ?_, ?_, ?_⟩) <;> rcases hs with rfl | hs <;> omega

theorem units_add_units_lt (F : BinaryFormat)
    (h : p < s * 2 ^ F.fractionBits + 2 ^ F.fractionBits) :
    F.units p + F.units (p + 1) < 2 * (2 ^ F.fractionBits * 2 ^ s) := by
  have hstep : F.units p < F.units (p + 1) := F.units_strictMono p.lt_succ_self
  have hnext : F.units (p + 1) ≤ _ := F.units_strictMono.monotone (Nat.succ_le_of_lt h)
  rw [units_add (by omega) (.inr (Nat.le_refl _))] at hnext
  omega

theorem lt_units_add_units (F : BinaryFormat)
    (h : s * 2 ^ F.fractionBits + 2 * 2 ^ F.fractionBits ≤ p) :
    2 * (2 * 2 ^ F.fractionBits * 2 ^ s) < F.units p + F.units (p + 1) := by
  have hstep : F.units p < F.units (p + 1) := F.units_strictMono p.lt_succ_self
  have hge := F.units_strictMono.monotone h
  rw [units_add (Nat.le_refl _) (.inr (by omega))] at hge
  omega

/-- In counts of smallest positive numbers: the pattern is left behind when the number lies beyond
the boundary to the next one. -/
theorem lt_round_iff_units (hp : p < F.infinity) (hden : 0 < den) : p < F.round num den ↔
    (F.units p + F.units (p + 1)) * den < 2 * (num * 2 ^ F.scale) ∨
      (F.units p + F.units (p + 1)) * den = 2 * (num * 2 ^ F.scale) ∧ p % 2 = 1 := by
  obtain ⟨s, hround, hupper, hlower⟩ := F.exists_binade num hden
  rw [hround, Nat.lt_min, and_iff_right hp]
  generalize num * 2 ^ F.scale = scaled at *
  have hunit : 0 < den * 2 ^ s := Nat.mul_pos hden (Nat.two_pow_pos _)
  rcases F.binade_cases s p with ⟨hs, hbelow⟩ | ⟨m, rfl, hm, hfull⟩ | habove
  · -- the pattern lies below the binade of the number
    have hlow := hlower.resolve_left hs.ne'
    have hleast := le_roundQuotient hunit hlow
    refine iff_of_true (by omega) (.inl ?_)
    calc (F.units p + F.units (p + 1)) * den
        < 2 * (2 ^ F.fractionBits * 2 ^ s) * den :=
          Nat.mul_lt_mul_of_pos_right (F.units_add_units_lt hbelow) hden
      _ = 2 * (2 ^ F.fractionBits * (den * 2 ^ s)) := by ring
      _ ≤ 2 * scaled := Nat.mul_le_mul_left 2 hlow
  · -- it lies in the binade of the number
    have hparity : (s * 2 ^ F.fractionBits + m) % 2 = m % 2 := by
      obtain ⟨b, hb⟩ := Nat.exists_eq_succ_of_ne_zero hF.out.ne'
      rw [hb, Nat.pow_succ, ← Nat.mul_assoc]
      omega
    have hsum : (m * 2 ^ s + (m + 1) * 2 ^ s) * den = (2 * m + 1) * (den * 2 ^ s) := by ring
    rw [Nat.add_lt_add_iff_left, lt_roundQuotient_iff hunit, hparity, units_add hm.le hfull,
      Nat.add_assoc, units_add (by omega) (by omega), hsum]
  · -- it lies above the binade of the number
    have hmost := roundQuotient_le hunit hupper.le
    have hbound : 2 * scaled < (F.units p + F.units (p + 1)) * den := by
      calc 2 * scaled < 2 * (2 * 2 ^ F.fractionBits * (den * 2 ^ s)) := by omega
        _ = 2 * (2 * 2 ^ F.fractionBits * 2 ^ s) * den := by ring
        _ ≤ (F.units p + F.units (p + 1)) * den :=
          Nat.mul_le_mul_right _ (F.lt_units_add_units habove).le
    exact iff_of_false (by omega) (by omega)

/-- The pattern nearest to a number that is not negative. -/
def nearest (F : BinaryFormat) (v : ℚ) : Nat := F.round v.num.natAbs v.den

theorem lt_round_iff (hp : p < F.infinity) (hden : 0 < den) : p < F.round num den ↔
    F.boundary p < num / den ∨ F.boundary p = num / den ∧ p % 2 = 1 := by
  have hd : (0 : ℚ) < den := by exact_mod_cast hden
  have hs := F.scale_pos
  have hboundary : F.boundary p = (F.units p + F.units (p + 1)) / (2 * 2 ^ F.scale) := by
    rw [boundary, value, value, ← add_div, div_div, mul_comm]
  rw [lt_round_iff_units hp hden, hboundary, div_lt_div_iff₀ (by positivity) hd,
    div_eq_div_iff (by positivity) hd.ne']
  have hright : (num : ℚ) * (2 * 2 ^ F.scale) = 2 * (num * 2 ^ F.scale) := by ring
  rw [hright]
  exact or_congr (by exact_mod_cast Iff.rfl) (and_congr_left' (by exact_mod_cast Iff.rfl))

theorem lt_nearest_iff (hp : p < F.infinity) (hv : 0 ≤ v) :
    p < F.nearest v ↔ F.boundary p < v ∨ F.boundary p = v ∧ p % 2 = 1 := by
  have hnum : ((v.num.natAbs : ℚ)) / v.den = v := by
    rw [← Int.cast_natCast, Int.natAbs_of_nonneg (Rat.num_nonneg.2 hv), Rat.num_div_den]
  rw [nearest, lt_round_iff hp v.den_pos, hnum]

theorem nearest_le_infinity (F : BinaryFormat) (v : ℚ) : F.nearest v ≤ F.infinity :=
  F.round_le_infinity _ _

theorem nearest_eq (hv : 0 ≤ v) (hp : p ≤ F.infinity)
    (hlow : ∀ q < p, F.boundary q < v ∨ F.boundary q = v ∧ q % 2 = 1)
    (hhigh : p < F.infinity → v < F.boundary p ∨ v = F.boundary p ∧ p % 2 = 0) :
    F.nearest v = p := by
  refine Nat.le_antisymm (Nat.le_of_not_lt fun h => ?_) (Nat.le_of_not_lt fun h => ?_)
  · have hpi := h.trans_le (F.nearest_le_infinity v)
    rcases (lt_nearest_iff hpi hv).1 h with hlt | ⟨heq, hodd⟩
    · rcases hhigh hpi with h' | ⟨h', -⟩
      · exact absurd hlt h'.not_gt
      · exact absurd h'.symm hlt.ne
    · rcases hhigh hpi with h' | ⟨-, heven⟩
      · exact absurd heq.symm h'.ne
      · omega
  · exact Nat.lt_irrefl _ ((lt_nearest_iff (h.trans_le hp) hv).2 (hlow _ h))

theorem round_eq_nearest (hden : 0 < den) : F.round num den = F.nearest (num / den) := by
  have hv : (0 : ℚ) ≤ num / den := by positivity
  refine (nearest_eq hv (F.round_le_infinity _ _) (fun q hq => ?_) fun hp => ?_).symm
  · exact (lt_round_iff (hq.trans_le (F.round_le_infinity _ _)) hden).1 hq
  · have hnot := mt (lt_round_iff hp hden).2 (Nat.lt_irrefl _)
    rw [not_or, not_lt] at hnot
    rcases hnot.1.lt_or_eq with h | h
    · exact .inl h
    · refine .inr ⟨h, ?_⟩
      have hodd : F.round num den % 2 ≠ 1 := fun hodd => hnot.2 ⟨h.symm, hodd⟩
      omega

theorem round_over_one (n : Nat) : F.round n 1 = F.nearest n := by
  rw [round_eq_nearest Nat.one_pos, Nat.cast_one, div_one]

theorem nearest_mono (hv : 0 ≤ v) (h : v ≤ w) : F.nearest v ≤ F.nearest w := by
  refine Nat.le_of_not_lt fun hlt => ?_
  have hpi := hlt.trans_le (F.nearest_le_infinity v)
  refine Nat.lt_irrefl _ ((lt_nearest_iff hpi (hv.trans h)).2 ?_)
  rcases (lt_nearest_iff hpi hv).1 hlt with hb | ⟨hb, hodd⟩
  · exact .inl (hb.trans_le h)
  · rcases h.lt_or_eq with h | rfl
    · exact .inl (hb.trans_lt h)
    · exact .inr ⟨hb, hodd⟩

/-- The number of a pattern is rounded to the pattern. -/
@[simp] theorem nearest_value (hp : p ≤ F.infinity) : F.nearest (F.value p) = p :=
  nearest_eq (F.value_nonneg p) hp
    (fun q hq => .inl
      ((F.boundary_lt_value q).trans_le (F.value_strictMono.monotone (Nat.succ_le_of_lt hq))))
    fun _ => .inl (F.value_lt_boundary p)

@[simp] theorem nearest_zero : F.nearest 0 = 0 := by
  have h := nearest_value (F := F) (p := 0) F.infinity.zero_le
  rwa [value_zero] at h

theorem le_nearest (hp : p ≤ F.infinity) (h : F.value p ≤ v) : p ≤ F.nearest v := by
  have hmono := nearest_mono (F := F) (F.value_nonneg p) h
  rwa [nearest_value hp] at hmono

theorem nearest_le (hv : 0 ≤ v) (hp : p ≤ F.infinity) (h : v ≤ F.value p) : F.nearest v ≤ p := by
  have hmono := nearest_mono (F := F) hv h
  rwa [nearest_value hp] at hmono

theorem nearest_eq_infinity (h : F.value F.infinity ≤ v) : F.nearest v = F.infinity :=
  Nat.le_antisymm (F.nearest_le_infinity v) (le_nearest (Nat.le_refl _) h)

theorem nearest_le_iff (hv : 0 ≤ v) (hp : p < F.infinity) :
    F.nearest v ≤ p ↔ v < F.boundary p ∨ v = F.boundary p ∧ p % 2 = 0 := by
  rw [← not_lt, lt_nearest_iff hp hv, not_or, not_lt, not_and, le_iff_lt_or_eq]
  constructor
  · rintro ⟨h | h, hodd⟩
    · exact .inl h
    · exact .inr ⟨h, by have := hodd h.symm; omega⟩
  · rintro (h | ⟨h, heven⟩)
    · exact ⟨.inl h, fun h' => absurd h'.symm h.ne⟩
    · exact ⟨.inr h, fun _ => by omega⟩

theorem le_boundary_nearest (hv : 0 ≤ v) (h : F.nearest v < F.infinity) :
    v ≤ F.boundary (F.nearest v) := by
  rcases (nearest_le_iff hv h).1 (Nat.le_refl _) with h | ⟨h, -⟩
  · exact h.le
  · exact h.le

theorem nearest_eq_zero (hv : 0 ≤ v) (h : v < F.boundary 0) : F.nearest v = 0 := by
  by_contra hne
  have hpos := Nat.pos_of_ne_zero hne
  rcases (lt_nearest_iff (hpos.trans_le (F.nearest_le_infinity v)) hv).1 hpos with hlt | ⟨heq, -⟩
  · exact hlt.not_gt h
  · exact h.ne' heq

theorem boundary_le_of_lt_nearest (hv : 0 ≤ v) (h : p < F.nearest v) : F.boundary p ≤ v := by
  rcases (lt_nearest_iff (h.trans_le (F.nearest_le_infinity v)) hv).1 h with h | ⟨h, -⟩
  · exact h.le
  · exact h.le

end BinaryFormat

end RuleMachine
