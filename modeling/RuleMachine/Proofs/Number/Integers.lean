import Mathlib.Algebra.Order.Ring.Abs
import RuleMachine.Proofs.Compiler.Intents
import RuleMachine.Proofs.Compiler.Violations
import RuleMachine.Proofs.Number.Single

set_option autoImplicit false

namespace RuleMachine

open BinaryFormat

namespace BinaryFormat

variable {F : BinaryFormat} [Fact (0 < F.fractionBits)] {q : Nat} {v : ℚ}

theorem abs_nearest_sub_le (hv : 0 ≤ v) (hq : q < F.infinity) (h : v ≤ F.value (q + 1)) :
    |F.value (F.nearest v) - v| ≤ 2 ^ F.shift q / 2 ^ F.scale / 2 := by
  have hstep : ∀ p ≤ q, F.value (p + 1) - F.value p ≤ 2 ^ F.shift q / 2 ^ F.scale := by
    intro p hp
    rw [value_succ, add_sub_cancel_left, div_le_div_iff_of_pos_right F.scale_pos]
    exact pow_le_pow_right₀ one_le_two (F.shift_mono hp)
  have hle : F.nearest v ≤ q + 1 := nearest_le hv hq h
  refine abs_le.2 ⟨?_, ?_⟩
  · rcases hle.lt_or_eq with hlt | heq
    · have hboundary := le_boundary_nearest hv (by omega : F.nearest v < F.infinity)
      have hgap := hstep _ (by omega : F.nearest v ≤ q)
      rw [boundary] at hboundary
      linarith
    · rw [heq]
      have hpos : (0 : ℚ) ≤ 2 ^ F.shift q / 2 ^ F.scale := by positivity
      linarith
  · rcases Nat.eq_zero_or_pos (F.nearest v) with h0 | hpos
    · rw [h0, value_zero]
      have hpos : (0 : ℚ) ≤ 2 ^ F.shift q / 2 ^ F.scale := by positivity
      linarith
    · obtain ⟨p, hp⟩ := Nat.exists_eq_add_of_lt hpos
      rw [Nat.zero_add] at hp
      have hboundary := boundary_le_of_lt_nearest hv (by omega : p < F.nearest v)
      have hgap := hstep p (by omega)
      rw [boundary] at hboundary
      rw [hp]
      linarith

end BinaryFormat

namespace Single

variable {n k : Int}

theorem value_ofInt (n : Int) : (ofInt n).value =
    if n < 0 then -single.value (single.nearest (-n : Int))
    else single.value (single.nearest n) := by
  rw [ofInt_eq, value_ofPattern (nearest_le_infinity _ _)]
  have habs : ((n.natAbs : ℕ) : ℚ) = (|n| : Int) := by rw [← Int.natCast_natAbs, Int.cast_natCast]
  rw [habs]
  by_cases h : n < 0
  · rw [decide_eq_true h, if_pos rfl, if_pos h, abs_of_neg h]
  · rw [decide_eq_false h, if_neg (by simp), if_neg h, abs_of_nonneg (not_lt.1 h)]

theorem value_ofInt_mono (h : n ≤ k) : (ofInt n).value ≤ (ofInt k).value := by
  have hmono : ∀ {a b : Int}, 0 ≤ a → a ≤ b →
      single.value (single.nearest a) ≤ single.value (single.nearest b) := fun ha hab =>
    single.value_strictMono.monotone
      (nearest_mono (by exact_mod_cast ha) (by exact_mod_cast hab))
  rw [value_ofInt, value_ofInt]
  by_cases hn : n < 0 <;> by_cases hk : k < 0
  · rw [if_pos hn, if_pos hk]
    exact neg_le_neg (hmono (by omega) (by omega))
  · rw [if_pos hn, if_neg hk]
    have hleft := single.value_nonneg (single.nearest (-n : Int))
    have hright := single.value_nonneg (single.nearest k)
    linarith
  · omega
  · rw [if_neg hn, if_neg hk]
    exact hmono (by omega) h

theorem value_ofInt_of_abs_le (h : |n| ≤ 2 ^ 24) : (ofInt n).value = n := by
  have hexact : ∀ {a : Int}, 0 ≤ a → a ≤ 2 ^ 24 → single.value (single.nearest a) = a := by
    intro a ha hle
    obtain ⟨p, hp, hunits⟩ := single.exists_units 149 (m := a.toNat) (by
      change a.toNat ≤ 2 * 2 ^ 23
      omega)
    have hvalue : single.value p = a := by
      rw [value_of_units (n := a.toNat) hunits, ← Int.cast_natCast, Int.toNat_of_nonneg ha]
    rw [← hvalue, nearest_value]
    rw [infinity_single]
    change p ≤ 149 * 2 ^ 23 + a.toNat at hp
    omega
  rw [abs_le] at h
  rw [value_ofInt]
  split_ifs with hneg
  · rw [hexact (by omega) (by omega), Int.cast_neg, neg_neg]
  · exact hexact (by omega) h.2

theorem abs_value_ofInt_sub_le (h : |n| ≤ 2 ^ 31) : |(ofInt n).value - n| ≤ 64 := by
  have herror : ∀ {a : Int}, 0 ≤ a → a ≤ 2 ^ 31 → |single.value (single.nearest a) - a| ≤ 64 := by
    intro a ha hle
    have hunits : single.units (0x4effffff + 1) = 2 ^ 31 * 2 ^ single.scale := by decide
    have hvalue : (a : ℚ) ≤ single.value (0x4effffff + 1) := by
      rw [value_of_units hunits]
      exact_mod_cast hle
    have hshift : single.shift 0x4effffff = 156 := by decide
    have hbound := abs_nearest_sub_le (F := single) (by exact_mod_cast ha) (by decide) hvalue
    rw [hshift, scale_single] at hbound
    refine hbound.trans (le_of_eq ?_)
    norm_num
  rw [abs_le] at h
  rw [value_ofInt]
  split_ifs with hneg
  · have := herror (a := -n) (by omega) (by omega)
    rw [Int.cast_neg, ← abs_neg] at this
    rwa [Int.cast_neg, show (-single.value (single.nearest (-n : ℚ)) - (n : ℚ)) =
      -(single.value (single.nearest (-n : ℚ)) - -n) by ring]
  · exact herror (by omega) h.2

/-- Where the rounded numbers are as far apart as the numbers themselves need, the order of the
rounded ones is that of the numbers. -/
theorem value_ofInt_lt_iff (h : |n| ≤ 2 ^ 24 ∧ |k| ≤ 2 ^ 24 ∨
      |n| ≤ 2 ^ 31 ∧ |k| ≤ 2 ^ 31 ∧ 128 < |n - k|) :
    (ofInt n).value < (ofInt k).value ↔ n < k := by
  refine ⟨fun hlt => ?_, fun hlt => ?_⟩
  · by_contra hle
    exact (value_ofInt_mono (not_lt.1 hle)).not_gt hlt
  rcases h with ⟨hn, hk⟩ | ⟨hn, hk, hfar⟩
  · rw [value_ofInt_of_abs_le hn, value_ofInt_of_abs_le hk]
    exact_mod_cast hlt
  · rw [abs_sub_comm, abs_of_pos (by omega)] at hfar
    have hfar' : (n : ℚ) + 128 < k := by exact_mod_cast (by omega : n + 128 < k)
    have hn' := (abs_le.1 (abs_value_ofInt_sub_le hn)).2
    have hk' := (abs_le.1 (abs_value_ofInt_sub_le hk)).1
    linarith

end Single

namespace Opcode

variable {op : Opcode} {x y : Single}

def compareIntegers : Opcode → Int → Int → Bool
  | .floatGt, n, k => k < n
  | .floatLt, n, k => n < k
  | .floatGte, n, k => k ≤ n
  | .floatLte, n, k => n ≤ k
  | .floatEq, n, k => n = k
  | _, n, k => n ≠ k

theorem compareNumbers_eq (hop : op.comparisonKind? = some .number) (hx : x.isNaN = false)
    (hy : y.isNaN = false) : op.compareNumbers x y = match op with
      | .floatGt => decide (y.value < x.value)
      | .floatLt => decide (x.value < y.value)
      | .floatGte => decide (y.value ≤ x.value)
      | .floatLte => decide (x.value ≤ y.value)
      | .floatEq => decide (x.value = y.value)
      | _ => decide (x.value ≠ y.value) := by
  have hless : ∀ {a b : Single}, a.isNaN = false → b.isNaN = false →
      a.less b = decide (a.value < b.value) := fun ha hb => by
    rw [Bool.eq_iff_iff, Single.less_iff ha hb, decide_eq_true_iff]
  have hsame : x.same y = decide (x.value = y.value) := by
    rw [Bool.eq_iff_iff, Single.same_iff hx hy, decide_eq_true_iff]
  have hxy := hless hx hy
  have hyx := hless hy hx
  cases op <;> cases hop <;> simp only [compareNumbers, hxy, hyx, hsame, decide_not,
    ← Bool.decide_or, le_iff_lt_or_eq (a := x.value),
    le_iff_lt_or_eq (a := y.value), eq_comm (a := y.value)]

theorem compareNumbers_ofInt {a b : Int} (hop : op.comparisonKind? = some .number)
    (h : |a| ≤ 2 ^ 24 ∧ |b| ≤ 2 ^ 24 ∨ |a| ≤ 2 ^ 31 ∧ |b| ≤ 2 ^ 31 ∧ 128 < |a - b|) :
    op.compareNumbers (.ofInt a) (.ofInt b) = op.compareIntegers a b := by
  have hlt := Single.value_ofInt_lt_iff h
  have hgt : (Single.ofInt b).value < (Single.ofInt a).value ↔ b < a :=
    Single.value_ofInt_lt_iff
      (h.imp And.symm fun ⟨ha, hb, hfar⟩ => ⟨hb, ha, by rwa [abs_sub_comm]⟩)
  have heq : (Single.ofInt a).value = (Single.ofInt b).value ↔ a = b := by
    constructor
    · intro h
      rw [h] at hlt hgt
      have := mt hlt.2 (lt_irrefl _)
      have := mt hgt.2 (lt_irrefl _)
      omega
    · rintro rfl
      rfl
  rw [compareNumbers_eq hop (Single.isNaN_ofInt _) (Single.isNaN_ofInt _)]
  cases op <;> cases hop <;>
    simp only [compareIntegers, hlt, hgt, heq, ← not_lt, ne_eq, decide_not]

end Opcode

/-- The comparison of a whole number with a whole number takes the flag from the rounded numbers. -/
theorem Machine.intent_of_integers {m : Machine} {fact : String} {n k : Int32} {op : Opcode}
    {i : Instruction} {r : Registers} (hop : op.comparisonKind? = some .number)
    (hfact : m.facts.find? fact = some (.int n))
    (built : Instruction.comparison op fact (.int k) = .ok i) :
    m.intent i r = .ok ⟨none, { r with
      address := r.address + 1
      flag := op.compareNumbers (.ofInt n.toInt) (.ofInt k.toInt)
      report.factsRead := r.report.factsRead ++ [fact] }⟩ := by
  obtain ⟨o, hopcode⟩ : ∃ o, ScalarKind.number.opcode? o = some op := by
    cases op <;> cases hop
    exacts [⟨.gt, rfl⟩, ⟨.lt, rfl⟩, ⟨.gte, rfl⟩, ⟨.lte, rfl⟩, ⟨.eq, rfl⟩, ⟨.neq, rfl⟩]
  have hselect : Opcode.select o.symbol (.int k) = .ok op :=
    Opcode.select_eq_ok_iff.2 ⟨o, o.ofSymbol?_symbol, hopcode⟩
  rw [intent_of_comparison hselect built, compareNumbers_of_opcode? hopcode, compareFact,
    o.ofSymbol?_symbol]
  simp only [Scalar.kind, hopcode, hfact]
  rfl

/-- A whole number as a fact, compared with a whole number as a literal. The comparison takes the
flag from the rounded numbers: where it says more, less or different the numbers are so, where the
numbers are more, less or the same it says at least so, and of numbers of at most 24 bits and of
numbers more than 128 apart it says what holds of the numbers. -/
theorem Machine.integers_compared {m : Machine} {fact : String} {n k : Int32} {op : Opcode}
    {i : Instruction} {r : Registers} (hop : op.comparisonKind? = some .number)
    (hfact : m.facts.find? fact = some (.int n))
    (built : Instruction.comparison op fact (.int k) = .ok i) :
    ∃ holds : Bool,
      m.intent i r = .ok ⟨none, { r with
        address := r.address + 1
        flag := holds
        report.factsRead := r.report.factsRead ++ [fact] }⟩ ∧
      (op = .floatGt → holds = true → k.toInt < n.toInt) ∧
      (op = .floatGte → k.toInt < n.toInt → holds = true) ∧
      (op = .floatLt → holds = true → n.toInt < k.toInt) ∧
      (op = .floatLte → n.toInt < k.toInt → holds = true) ∧
      (op = .floatEq → n.toInt = k.toInt → holds = true) ∧
      (op = .floatNeq → holds = true → n.toInt ≠ k.toInt) ∧
      (|n.toInt| ≤ 2 ^ 24 ∧ |k.toInt| ≤ 2 ^ 24 ∨ 128 < |n.toInt - k.toInt| →
        holds = op.compareIntegers n.toInt k.toInt) := by
  refine ⟨_, intent_of_integers hop hfact built, ?_⟩
  have hn := n.toInt_lt
  have hn' := n.le_toInt
  have hk := k.toInt_lt
  have hk' := k.le_toInt
  generalize n.toInt = a at *
  generalize k.toInt = b at *
  have hab : a ≤ b → (Single.ofInt a).value ≤ (Single.ofInt b).value := Single.value_ofInt_mono
  have hba : b ≤ a → (Single.ofInt b).value ≤ (Single.ofInt a).value := Single.value_ofInt_mono
  have hexact := fun h => Opcode.compareNumbers_ofInt (a := a) (b := b) hop h
  rw [Opcode.compareNumbers_eq hop (Single.isNaN_ofInt _) (Single.isNaN_ofInt _)] at hexact ⊢
  refine ⟨?_, ?_, ?_, ?_, ?_, ?_, fun hclear => ?_⟩
  · rintro rfl hholds
    by_contra hle
    exact (hab (not_lt.1 hle)).not_gt (of_decide_eq_true hholds)
  · rintro rfl hlt
    exact decide_eq_true (hba hlt.le)
  · rintro rfl hholds
    by_contra hle
    exact (hba (not_lt.1 hle)).not_gt (of_decide_eq_true hholds)
  · rintro rfl hlt
    exact decide_eq_true (hab hlt.le)
  · rintro rfl rfl
    exact decide_eq_true rfl
  · rintro rfl hholds rfl
    exact of_decide_eq_true hholds rfl
  · have ha : |a| ≤ 2 ^ 31 := abs_le.2 ⟨by omega, by omega⟩
    have hb : |b| ≤ 2 ^ 31 := abs_le.2 ⟨by omega, by omega⟩
    exact hexact (hclear.imp_right fun h => ⟨ha, hb, h⟩)

theorem Machine.integers_compared_apart :
    Instruction.comparison .floatGt "a" (.int 2147483500) =
      .ok ⟨.floatGt, [1, 0, 97, 0xff, 0xff, 0xff, 0x4e]⟩ ∧
    Machine.intent ⟨#[], .ofList [("a", .int 2147483647)], {}⟩
      ⟨.floatGt, [1, 0, 97, 0xff, 0xff, 0xff, 0x4e]⟩ {} =
        .ok ⟨none, { address := 1, flag := true, report := { factsRead := ["a"] } }⟩ := by
  have built : Instruction.comparison .floatGt "a" (.int 2147483500) =
      .ok ⟨.floatGt, [1, 0, 97, 0xff, 0xff, 0xff, 0x4e]⟩ := rfl
  obtain ⟨holds, hintent, _, _, _, _, _, _, hexact⟩ := integers_compared
    (m := ⟨#[], .ofList [("a", .int 2147483647)], {}⟩) (n := 2147483647)
    (r := {}) rfl (by decide) built
  refine ⟨built, hintent.trans ?_⟩
  rw [hexact (.inr (by decide))]
  rfl

end RuleMachine
