import Mathlib.Algebra.Order.Field.Power
import Mathlib.Data.Rat.Floor
import Mathlib.Tactic.NormNum
import RuleMachine.Number.Shortest
import RuleMachine.Proofs.Number.Nearest
/-!
The shortest decimal of a pattern. It lies between the boundaries of the pattern, so that rounding
it gives the pattern back, and it has no more decimals than a grid that is fine enough to have a
point between them.
-/

set_option autoImplicit false

namespace RuleMachine

namespace Decimal

variable {d : Decimal}

def value (d : Decimal) : ℚ := d.significand * 10 ^ d.exponent

@[simp] theorem value_trim (fuel : Nat) (d : Decimal) : (d.trim fuel).value = d.value := by
  induction fuel generalizing d with
  | zero => rfl
  | succ fuel ih =>
    rw [trim]
    split_ifs with h
    · rw [ih, value, value, zpow_add₀ (by norm_num), zpow_one]
      have hten : ((d.significand / 10 : Nat) : ℚ) * 10 = d.significand := by
        exact_mod_cast Nat.div_mul_cancel (Nat.dvd_of_mod_eq_zero h.2)
      rw [← hten]
      ring
    · rfl

theorem significand_ne_zero (h : d.value ≠ 0) : d.significand ≠ 0 := by
  rintro h0
  exact h (by rw [value, h0, Nat.cast_zero, zero_mul])

end Decimal

theorem ten_zpow (e : Int) : (10 : ℚ) ^ e = 10 ^ e.toNat / 10 ^ (-e).toNat := by
  rw [← zpow_natCast, ← zpow_natCast, ← zpow_sub₀ (by norm_num)]
  congr 1
  omega

namespace floorLog10

theorem sub_le_down {den : Nat} (fuel : Nat) {n j : Nat} (e : Int) (h : den ≤ n * 10 ^ j) :
    e - j ≤ down den fuel n e := by
  induction fuel generalizing n j e with
  | zero => exact Int.sub_le_self _ (Int.natCast_nonneg _)
  | succ fuel ih =>
    rw [down]
    split_ifs with hn
    · omega
    · cases j with
      | zero => exact absurd (by simpa using h) hn
      | succ j =>
        rw [Nat.pow_succ', ← Nat.mul_assoc, Nat.mul_comm n] at h
        have := ih (e - 1) h
        omega

theorem down_le (den fuel n : Nat) (e : Int) : down den fuel n e ≤ e := by
  induction fuel generalizing n e with
  | zero => exact le_rfl
  | succ fuel ih =>
    rw [down]
    split_ifs
    · exact le_rfl
    · exact (ih _ _).trans (by omega)

end floorLog10

theorem le_floorLog10 {num den : Nat} (fuel : Nat) {e : Int} (hden : 0 < den)
    (h : (10 : ℚ) ^ e ≤ num / den) : e ≤ floorLog10 num den fuel := by
  have hd : (0 : ℚ) < den := by exact_mod_cast hden
  rw [le_div_iff₀ hd] at h
  unfold floorLog10
  split_ifs with hone
  · rcases Int.lt_or_le e 1 with hsmall | hlarge
    · have := Nat.length_toDigits_pos (b := 10) (n := num / den)
      omega
    · obtain ⟨n, rfl⟩ := Int.eq_ofNat_of_zero_le (by omega : 0 ≤ e)
      have hfloor : 10 ^ n ≤ num / den := by
        rw [Nat.le_div_iff_mul_le hden]
        rw [zpow_natCast] at h
        exact_mod_cast h
      have hlength := mt (Nat.length_toDigits_le_iff (by decide) (by omega : 0 < n)).1
        (Nat.not_lt.2 hfloor)
      omega
  · rcases Int.lt_or_le 0 e with hpos | hneg
    · have hten : (1 : ℚ) ≤ 10 ^ e := one_le_zpow₀ (by norm_num) hpos.le
      have hge : (den : ℚ) ≤ num := (le_mul_of_one_le_left hd.le hten).trans h
      exact absurd (by exact_mod_cast hge) hone
    · obtain ⟨j, hj⟩ : ∃ j : Nat, e = -j := ⟨(-e).toNat, by omega⟩
      rw [hj, zpow_neg, zpow_natCast, inv_mul_eq_div, div_le_iff₀ (by positivity)] at h
      have := floorLog10.sub_le_down fuel 0 (by exact_mod_cast h : den ≤ num * 10 ^ j)
      omega

theorem floorLog10_lt {num den n : Nat} (fuel : Nat) (hn : 0 < n) (h : num < 10 ^ n * den) :
    floorLog10 num den fuel < n := by
  have hden : 0 < den := Nat.pos_of_mul_pos_left (Nat.zero_lt_of_lt h)
  unfold floorLog10
  split_ifs
  · have := (Nat.length_toDigits_le_iff (b := 10) (by decide) hn).2
      ((Nat.div_lt_iff_lt_mul hden).2 h)
    omega
  · have := floorLog10.down_le den fuel num 0
    omega

namespace BinaryFormat

variable {F : BinaryFormat} {tie : TieRule} {p k : Nat} {e : Int} {v w : ℚ}

/-- A number between the boundaries of a pattern. The even pattern has them. -/
def Covers (F : BinaryFormat) (p : Nat) (v : ℚ) : Prop :=
  if p % 2 = 0 then F.boundary (p - 1) ≤ v ∧ v ≤ F.boundary p
  else F.boundary (p - 1) < v ∧ v < F.boundary p

theorem Covers.bounds (h : F.Covers p v) : F.boundary (p - 1) ≤ v ∧ v ≤ F.boundary p := by
  unfold Covers at h
  split_ifs at h
  · exact h
  · exact ⟨h.1.le, h.2.le⟩

theorem covers_of_lt (hlow : F.boundary (p - 1) < v) (hhigh : v < F.boundary p) : F.Covers p v := by
  unfold Covers
  split_ifs
  · exact ⟨hlow.le, hhigh.le⟩
  · exact ⟨hlow, hhigh⟩

theorem covers_value (hp : 0 < p) : F.Covers p (F.value p) := by
  have hlow := F.boundary_lt_value (p - 1)
  rw [Nat.sub_add_cancel hp] at hlow
  exact covers_of_lt hlow (F.value_lt_boundary p)

theorem Covers.convex {u : ℚ} (hu : F.Covers p u) (hw : F.Covers p w) (huv : u ≤ v)
    (hvw : v ≤ w) : F.Covers p v := by
  unfold Covers at *
  split_ifs at *
  · exact ⟨hu.1.trans huv, hvw.trans hw.2⟩
  · exact ⟨hu.1.trans_le huv, hvw.trans_lt hw.2⟩

theorem boundary_nonneg (F : BinaryFormat) (p : Nat) : 0 ≤ F.boundary p :=
  (F.value_nonneg p).trans (F.value_lt_boundary p).le

theorem nearest_of_covers [Fact (0 < F.fractionBits)] (hp : 0 < p) (hpi : p ≤ F.infinity)
    (h : F.Covers p v) : F.nearest v = p := by
  have hv : 0 ≤ v := (F.boundary_nonneg _).trans h.bounds.1
  refine nearest_eq hv hpi (fun q hq => ?_) fun _ => ?_
  · rcases (Nat.le_sub_one_of_lt hq).lt_or_eq with hlt | rfl
    · exact .inl ((F.boundary_strictMono hlt).trans_le h.bounds.1)
    · unfold Covers at h
      split_ifs at h with heven
      · exact h.1.lt_or_eq.imp_right fun heq => ⟨heq, by omega⟩
      · exact .inl h.1
  · unfold Covers at h
    split_ifs at h with heven
    · exact h.2.lt_or_eq.imp_right fun heq => ⟨heq, heven⟩
    · exact .inl h.2

theorem grid_compare (F : BinaryFormat) (n k : Nat) (e : Int) :
    (n * 10 ^ (-e).toNat ≤ k * (2 ^ (F.scale + 1) * 10 ^ e.toNat) ↔
      (n : ℚ) / 2 ^ (F.scale + 1) ≤ k * 10 ^ e) ∧
    (k * (2 ^ (F.scale + 1) * 10 ^ e.toNat) ≤ n * 10 ^ (-e).toNat ↔
      (k : ℚ) * 10 ^ e ≤ n / 2 ^ (F.scale + 1)) := by
  have hgrid : (k : ℚ) * 10 ^ e = k * 10 ^ e.toNat / 10 ^ (-e).toNat := by
    rw [ten_zpow, mul_div_assoc]
  rw [hgrid, div_le_div_iff₀ (by positivity) (by positivity),
    div_le_div_iff₀ (by positivity) (by positivity), mul_assoc (k : ℚ), mul_comm (10 ^ e.toNat : ℚ)]
  exact ⟨by exact_mod_cast Iff.rfl, by exact_mod_cast Iff.rfl⟩

theorem units_add_units (F : BinaryFormat) (p : Nat) :
    ((F.units p + F.units (p + 1) : Nat) : ℚ) / 2 ^ (F.scale + 1) = F.boundary p := by
  rw [boundary, value, value, ← add_div, div_div, pow_succ, Nat.cast_add]

/-- If a point of a grid is covered, one of the two neighbours of the number is. -/
theorem Covers.neighbour {b : Nat} (hk : F.Covers p (k * 10 ^ e)) (hp : 0 < p)
    (hbelow : (b : ℚ) * 10 ^ e ≤ F.value p) (habove : F.value p ≤ ((b + 1 : Nat) : ℚ) * 10 ^ e) :
    F.Covers p (b * 10 ^ e) ∨ F.Covers p ((b + 1 : Nat) * 10 ^ e) := by
  have hten : (0 : ℚ) ≤ 10 ^ e := by positivity
  rcases Nat.lt_or_ge b k with hlt | hge
  · refine .inr ((covers_value hp).convex hk habove ?_)
    exact mul_le_mul_of_nonneg_right (by exact_mod_cast hlt) hten
  · refine .inl (hk.convex (covers_value hp) ?_ hbelow)
    exact mul_le_mul_of_nonneg_right (by exact_mod_cast hge) hten

/-- The choice between two points next to each other, of which each lies inside or not. Of two
inside it is the nearer one, told by where the middle between them is. -/
def choice (tie : TieRule) (inside : Nat → Bool) (below doubled middle : Nat) : Option Nat :=
  match inside below, inside (below + 1) with
  | false, false => none
  | true, false => some below
  | false, true => some (below + 1)
  | true, true =>
    if doubled < middle then some below
    else if middle < doubled then some (below + 1)
    else match tie with
      | .upward => some (below + 1)
      | .toEven => some (below + below % 2)

theorem inside_of_choice {inside : Nat → Bool} {below doubled middle : Nat}
    (h : choice tie inside below doubled middle = some k) : inside k = true := by
  unfold choice at h
  split at h
  · cases h
  · cases h
    assumption
  · cases h
    assumption
  · rename_i htrue hnext
    split_ifs at h
    · cases h
      exact htrue
    · cases h
      exact hnext
    · cases tie with
      | upward =>
        cases h
        exact hnext
      | toEven =>
        rcases Nat.mod_two_eq_zero_or_one below with h0 | h1
        · cases h
          rwa [h0, Nat.add_zero]
        · cases h
          rwa [h1]

theorem le_of_choice {inside : Nat → Bool} {below doubled middle : Nat}
    (h : choice tie inside below doubled middle = some k) : k ≤ below + 1 := by
  have hparity := Nat.mod_lt below (by decide : 0 < 2)
  unfold choice at h
  split at h
  · cases h
  · cases h
    omega
  · cases h
    omega
  · split_ifs at h
    · cases h
      omega
    · cases h
      omega
    · cases tie <;> cases h <;> omega

theorem exists_choice {inside : Nat → Bool} {below : Nat} (tie : TieRule) (doubled middle : Nat)
    (h : inside below = true ∨ inside (below + 1) = true) :
    ∃ k, choice tie inside below doubled middle = some k := by
  unfold choice
  split
  · simp_all
  · exact ⟨_, rfl⟩
  · exact ⟨_, rfl⟩
  · split_ifs
    · exact ⟨_, rfl⟩
    · exact ⟨_, rfl⟩
    · cases tie <;> exact ⟨_, rfl⟩

theorem onGrid?_eq_choice (tie : TieRule) (hp : 0 < p) (e : Int) :
    ∃ (inside : Nat → Bool) (below doubled middle : Nat),
      F.onGrid? tie p e = choice tie inside below doubled middle ∧
      (∀ k, inside k = true ↔ F.Covers p (k * 10 ^ e)) ∧
      (below : ℚ) * 10 ^ e ≤ F.value p ∧ F.value p ≤ ((below + 1 : Nat) : ℚ) * 10 ^ e := by
  unfold onGrid?
  extract_lets twice low high step stretch inside below doubled middle
  have hgrid (n k : Nat) : (n * stretch ≤ k * step ↔ (n : ℚ) / 2 ^ (F.scale + 1) ≤ k * 10 ^ e) ∧
      (k * step ≤ n * stretch ↔ (k : ℚ) * 10 ^ e ≤ n / 2 ^ (F.scale + 1)) := F.grid_compare n k e
  have hvalue : (twice : ℚ) / 2 ^ (F.scale + 1) = F.value p := by
    rw [value, pow_succ']
    push_cast [twice]
    exact mul_div_mul_left _ _ (by norm_num)
  have hlow : (low : ℚ) / 2 ^ (F.scale + 1) = F.boundary (p - 1) := by
    rw [← units_add_units, Nat.sub_add_cancel hp]
  have hhigh : (high : ℚ) / 2 ^ (F.scale + 1) = F.boundary p := F.units_add_units p
  refine ⟨inside, below, doubled, middle, rfl, fun k => ?_, ?_, ?_⟩
  · have hl := hgrid low k
    have hh := hgrid high k
    rw [hlow] at hl
    rw [hhigh] at hh
    unfold Covers
    change (if p % 2 = 0 then _ else _ : Bool) = true ↔ _
    split_ifs
    · rw [decide_eq_true_iff, hl.1, hh.2]
    · rw [decide_eq_true_iff, ← not_le, ← not_le, hl.2, hh.1, not_le, not_le]
  · rw [← hvalue]
    exact (hgrid twice below).2.1 (Nat.div_mul_le_self _ _)
  · have hstep : 0 < step := Nat.mul_pos (Nat.two_pow_pos _) (Nat.pow_pos (by decide))
    rw [← hvalue]
    exact (hgrid twice (below + 1)).1.1 (Nat.lt_mul_of_div_lt (Nat.lt_succ_self below) hstep).le

theorem covers_of_onGrid? (hp : 0 < p) (h : F.onGrid? tie p e = some k) :
    F.Covers p (k * 10 ^ e) := by
  obtain ⟨inside, below, doubled, middle, heq, hinside, -, -⟩ := F.onGrid?_eq_choice tie hp e
  rw [heq] at h
  exact (hinside k).1 (inside_of_choice h)

theorem exists_onGrid? (tie : TieRule) (hp : 0 < p) (h : ∃ k : Nat, F.Covers p (k * 10 ^ e)) :
    ∃ k, F.onGrid? tie p e = some k := by
  obtain ⟨inside, below, doubled, middle, heq, hinside, hbelow, habove⟩ :=
    F.onGrid?_eq_choice tie hp e
  obtain ⟨k, hk⟩ := h
  have hhit := hk.neighbour hp hbelow habove
  rw [← hinside, ← hinside] at hhit
  rw [heq]
  exact exists_choice tie doubled middle hhit

/-- A grid whose points are at most half a step apart has a covered point. -/
theorem exists_covers (hp : 0 < p) (h : 10 ^ e ≤ F.boundary p - F.value p) :
    ∃ k : Nat, F.Covers p (k * 10 ^ e) := by
  have hten : (0 : ℚ) < 10 ^ e := by positivity
  have hfloor := Nat.floor_le (div_nonneg (F.value_nonneg p) hten.le)
  have hceil := Nat.lt_floor_add_one (F.value p / 10 ^ e)
  generalize ⌊F.value p / 10 ^ e⌋₊ = b at hfloor hceil
  rw [le_div_iff₀ hten] at hfloor
  rw [div_lt_iff₀ hten] at hceil
  rcases hfloor.lt_or_eq with hlt | heq
  · refine ⟨b + 1, covers_of_lt ?_ ?_⟩
    · have hlow := F.boundary_lt_value (p - 1)
      rw [Nat.sub_add_cancel hp] at hlow
      push_cast
      exact hlow.trans hceil
    · push_cast
      linarith
  · exact ⟨b, heq ▸ covers_value hp⟩

theorem value_firstGrid_zero : (F.firstGrid tie p 0 e).value = F.value p := by
  have hten : (10 : ℚ) ^ F.scale = 5 ^ F.scale * 2 ^ F.scale := by
    rw [← mul_pow]
    norm_num
  rw [firstGrid, Decimal.value, value, zpow_neg, zpow_natCast, hten]
  push_cast [Nat.pow_eq]
  field_simp

theorem covers_firstGrid (hp : 0 < p) (fuel : Nat) :
    F.Covers p (F.firstGrid tie p fuel e).value := by
  induction fuel generalizing e with
  | zero => exact value_firstGrid_zero (F := F) ▸ covers_value hp
  | succ fuel ih =>
    rw [firstGrid]
    split
    · rename_i k hk
      exact covers_of_onGrid? hp hk
    · exact ih

theorem le_exponent_firstGrid {g : Int} (hp : 0 < p) (hg : ∃ k : Nat, F.Covers p (k * 10 ^ g))
    (fuel : Nat) (hge : g ≤ e) (hfuel : e < g + fuel) :
    g ≤ (F.firstGrid tie p fuel e).exponent := by
  induction fuel generalizing e with
  | zero => omega
  | succ fuel ih =>
    rw [firstGrid]
    split
    · exact hge
    · rename_i hnone
      have hne : g ≠ e := by
        rintro rfl
        obtain ⟨k, hk⟩ := exists_onGrid? tie hp hg
        rw [hnone] at hk
        cases hk
      exact ih (by omega) (by omega)

def leading (F : BinaryFormat) (p : Nat) : Int :=
  floorLog10 (F.units p) (Nat.pow 2 F.scale) (F.scale + 1)

theorem le_leading (h : 10 ^ e ≤ F.value p) : e ≤ F.leading p := by
  refine le_floorLog10 _ (Nat.two_pow_pos _) ?_
  rw [Nat.pow_eq]
  push_cast
  exact h

theorem value_shortest (tie : TieRule) (hp : 0 < p) : (F.shortest tie p).value =
    (F.firstGrid tie p (F.scale + 1) (F.leading p)).value := by
  rw [shortest, if_neg hp.ne', Decimal.value_trim, leading]

theorem covers_shortest (tie : TieRule) (hp : 0 < p) : F.Covers p (F.shortest tie p).value :=
  value_shortest (F := F) tie hp ▸ covers_firstGrid hp _

theorem boundary_sub_value (F : BinaryFormat) (p : Nat) :
    F.boundary p - F.value p = 2 ^ F.shift p / 2 ^ F.scale / 2 := by
  rw [boundary, value_succ]
  ring

theorem covers_of_nearest [Fact (0 < F.fractionBits)] (hp : 0 < p) (hpi : p < F.infinity)
    (hv : 0 ≤ v) (h : F.nearest v = p) : F.Covers p v := by
  have hlow : p - 1 < F.nearest v := by
    rw [h]
    exact Nat.sub_one_lt hp.ne'
  rw [lt_nearest_iff ((Nat.sub_le p 1).trans_lt hpi) hv] at hlow
  have hhigh := (nearest_le_iff hv hpi).1 h.le
  unfold Covers
  split_ifs with heven
  · exact ⟨hlow.elim le_of_lt fun h => h.1.le, hhigh.elim le_of_lt fun h => h.1.le⟩
  · exact ⟨hlow.resolve_right fun h => by omega, hhigh.resolve_right fun h => heven h.2⟩

/-- The shortest decimal reads back. -/
theorem nearest_shortest [Fact (0 < F.fractionBits)] (tie : TieRule) (hpi : p ≤ F.infinity) :
    F.nearest (F.shortest tie p).value = p := by
  rcases Nat.eq_zero_or_pos p with rfl | hp
  · simp [shortest, Decimal.value]
  · exact nearest_of_covers hp hpi (covers_shortest tie hp)

theorem significand_shortest_ne_zero (tie : TieRule) (hp : 0 < p) :
    (F.shortest tie p).significand ≠ 0 := by
  have hpos : 0 < F.boundary (p - 1) := (F.value_nonneg _).trans_lt (F.value_lt_boundary _)
  exact Decimal.significand_ne_zero (hpos.trans_le (covers_shortest tie hp).bounds.1).ne'

end BinaryFormat

end RuleMachine
