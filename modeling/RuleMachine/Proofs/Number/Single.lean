import RuleMachine.Number.Single
import RuleMachine.Proofs.Number.Nearest

set_option autoImplicit false

namespace RuleMachine

open BinaryFormat

theorem infinity_single : single.infinity = 0x7f800000 := by decide

theorem scale_single : single.scale = 149 := by decide

namespace Single

variable {x y : Single} {negative : Bool} {p q : Nat}

/-- The number of a pattern with its sign. Infinity has the power of two behind the finite ones. -/
def value (x : Single) : ℚ := x.units / 2 ^ single.scale

@[simp] theorem pattern_ofPattern (hp : p < 0x80000000) : (ofPattern negative p).pattern = p := by
  unfold ofPattern pattern
  rw [UInt32.toNat_ofNat']
  cases negative <;> simp <;> omega

@[simp] theorem isNegative_ofPattern (hp : p < 0x80000000) :
    (ofPattern negative p).isNegative = negative := by
  unfold ofPattern isNegative
  rw [UInt32.toNat_ofNat']
  cases negative <;> simp <;> omega

theorem ofPattern_pattern (x : Single) : ofPattern x.isNegative x.pattern = x := by
  have hbits := x.bits.toNat_lt
  unfold ofPattern isNegative pattern
  congr 1
  refine UInt32.toNat_inj.1 ?_
  rw [UInt32.toNat_ofNat']
  by_cases h : 0x80000000 ≤ x.bits.toNat <;> simp [h] <;> omega

theorem isNaN_ofPattern (hp : p ≤ single.infinity) : (ofPattern negative p).isNaN = false := by
  rw [infinity_single] at hp
  rw [isNaN, pattern_ofPattern (by omega), infinity_single, decide_eq_false_iff_not]
  omega

theorem units_ofPattern (hp : p < 0x80000000) : (ofPattern negative p).units =
    if negative then -(single.units p : Int) else single.units p := by
  rw [units, pattern_ofPattern hp, isNegative_ofPattern hp]

theorem value_ofPattern (hp : p ≤ single.infinity) :
    (ofPattern negative p).value = if negative then -single.value p else single.value p := by
  rw [infinity_single] at hp
  rw [value, units_ofPattern (by omega), BinaryFormat.value]
  cases negative <;> simp [neg_div]

theorem value_ofPattern_eq_iff (hp : p ≤ single.infinity) (hq : q ≤ single.infinity) :
    (ofPattern negative p).value = (ofPattern negative q).value ↔ p = q := by
  rw [value_ofPattern hp, value_ofPattern hq, ← single.value_strictMono.injective.eq_iff]
  cases negative <;> simp

theorem pattern_le (hx : x.isNaN = false) : x.pattern ≤ single.infinity :=
  Nat.le_of_not_lt (of_decide_eq_false hx)

theorem less_iff (hx : x.isNaN = false) (hy : y.isNaN = false) :
    x.less y = true ↔ x.value < y.value := by
  rw [less, hx, hy, value, value, div_lt_div_iff_of_pos_right single.scale_pos, Int.cast_lt]
  simp

theorem same_iff (hx : x.isNaN = false) (hy : y.isNaN = false) :
    x.same y = true ↔ x.value = y.value := by
  rw [same, hx, hy, value, value, div_left_inj' single.scale_pos.ne', Int.cast_inj]
  simp

theorem ofInt_eq (n : Int) : ofInt n = ofPattern (n < 0) (single.nearest n.natAbs) := by
  rw [ofInt, round_over_one]

theorem isNaN_ofInt (n : Int) : (ofInt n).isNaN = false := by
  rw [ofInt_eq]
  exact isNaN_ofPattern (nearest_le_infinity _ _)

theorem value_ofInt_signed (negative : Bool) (k : Nat) :
    (ofInt (if negative then -(k : Int) else k)).value =
      (ofPattern negative (single.nearest k)).value := by
  rw [ofInt_eq]
  cases negative with
  | false => rw [if_neg Bool.false_ne_true, decide_eq_false (by omega), Int.natAbs_natCast]
  | true =>
    rcases Nat.eq_zero_or_pos k with rfl | hk
    · simp [value_ofPattern]
    · rw [if_pos rfl, decide_eq_true (by omega), Int.natAbs_neg, Int.natAbs_natCast]

end Single

end RuleMachine
