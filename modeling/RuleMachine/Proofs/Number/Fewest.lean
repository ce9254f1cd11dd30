import RuleMachine.Proofs.Number.Shortest

set_option autoImplicit false

namespace RuleMachine

/-- A number of at most so many digits, and zeros behind them or in front. -/
def HasDigits (k : Nat) (v : ℚ) : Prop := ∃ n : Nat, n < 10 ^ k ∧ ∃ e : Int, v = n * 10 ^ e

theorem HasDigits.nonneg {k : Nat} {v : ℚ} (h : HasDigits k v) : 0 ≤ v := by
  obtain ⟨n, -, e, rfl⟩ := h
  positivity

theorem hasDigits_of_le {k n : Nat} (hk : 0 < k) (hn : n ≤ 10 ^ k) (e : Int) :
    HasDigits k (n * 10 ^ e) := by
  rcases hn.lt_or_eq with hlt | rfl
  · exact ⟨n, hlt, e, rfl⟩
  · refine ⟨1, Nat.one_lt_pow hk.ne' (by decide), k + e, ?_⟩
    rw [zpow_add₀ (by norm_num), zpow_natCast]
    push_cast
    ring

namespace BinaryFormat

variable {F : BinaryFormat} {tie : TieRule} {p k : Nat} {e : Int} {w : ℚ}

theorem sub_one_le_of_onGrid? (hp : 0 < p) (h : F.onGrid? tie p e = some k) :
    ((k : ℚ) - 1) * 10 ^ e ≤ F.value p := by
  obtain ⟨inside, below, doubled, middle, heq, -, hbelow, -⟩ := F.onGrid?_eq_choice tie hp e
  rw [heq] at h
  have hk : (k : ℚ) ≤ below + 1 := by exact_mod_cast le_of_choice h
  exact (mul_le_mul_of_nonneg_right (by linarith) (by positivity)).trans hbelow

theorem sub_one_le_firstGrid (hp : 0 < p) (fuel : Nat) :
    (((F.firstGrid tie p fuel e).significand : ℚ) - 1) *
      10 ^ (F.firstGrid tie p fuel e).exponent ≤ F.value p := by
  induction fuel generalizing e with
  | zero =>
    have hexact : (F.firstGrid tie p 0 e).value = F.value p := value_firstGrid_zero
    rw [← hexact, Decimal.value]
    exact mul_le_mul_of_nonneg_right (by linarith) (by positivity)
  | succ fuel ih =>
    rw [firstGrid]
    split
    · rename_i k hk
      exact sub_one_le_of_onGrid? hp hk
    · exact ih

/-- A number that rounds to a pattern, and has no more digits than any other that does. -/
def IsShortest (F : BinaryFormat) (p : Nat) (v : ℚ) : Prop :=
  F.nearest v = p ∧ ∀ k w, HasDigits k w → F.nearest w = p → HasDigits k v

theorem exists_searched {g : Int} {n : Nat} (hp : 0 < p)
    (hg : 10 ^ g ≤ F.boundary p - F.value p) (hn : 0 < n) (hvalue : F.value p < 10 ^ n)
    (hrange : n ≤ g + F.scale + 1) :
    g ≤ F.leading p ∧ F.leading p < g + (F.scale + 1 : Nat) := by
  constructor
  · refine le_leading (hg.trans ?_)
    have hunits : (2 ^ F.shift p : ℚ) ≤ F.units p := by exact_mod_cast F.two_pow_shift_le_units hp
    rw [boundary_sub_value]
    exact (half_le_self (by positivity)).trans (div_le_div_of_nonneg_right hunits F.scale_pos.le)
  · have hlt : F.units p < 10 ^ n * 2 ^ F.scale := by
      rw [value, div_lt_iff₀ F.scale_pos] at hvalue
      exact_mod_cast hvalue
    have := floorLog10_lt (F.scale + 1) hn hlt
    rw [leading, Nat.pow_eq]
    push_cast
    omega

/-- With more digits than a covered number on no coarser a grid, a power of ten would lie between the
two, and that is on a coarser grid. -/
theorem significand_firstGrid_le {m fuel : Nat} (hp : 0 < p) (hk : 0 < k) (hm : m ≤ 10 ^ k)
    (hcovers : F.Covers p (m * 10 ^ e))
    (he : e ≤ (F.firstGrid tie p fuel (F.leading p)).exponent)
    (hfuel : F.leading p < (F.firstGrid tie p fuel (F.leading p)).exponent + fuel) :
    (F.firstGrid tie p fuel (F.leading p)).significand ≤ 10 ^ k := by
  refine Nat.le_of_not_lt fun hlarge => ?_
  have hbelow : (((F.firstGrid tie p fuel (F.leading p)).significand : ℚ) - 1) *
      10 ^ (F.firstGrid tie p fuel (F.leading p)).exponent ≤ F.value p := sub_one_le_firstGrid hp _
  generalize hd : F.firstGrid tie p fuel (F.leading p) = d at *
  have hsplit : (10 : ℚ) ^ (k + d.exponent) = 10 ^ k * 10 ^ d.exponent := by
    rw [zpow_add₀ (by norm_num), zpow_natCast]
  have hten : (10 : ℚ) ^ (k + d.exponent) ≤ F.value p := by
    have hdigits : (10 ^ k : ℚ) ≤ d.significand - 1 := by
      have : (10 ^ k + 1 : ℚ) ≤ d.significand := by exact_mod_cast hlarge
      linarith
    rw [hsplit]
    exact (mul_le_mul_of_nonneg_right hdigits (by positivity)).trans hbelow
  have hfront : (m : ℚ) * 10 ^ e ≤ 10 ^ (k + d.exponent) := by
    rw [hsplit]
    refine mul_le_mul (by exact_mod_cast hm) ?_ (by positivity) (by positivity)
    exact zpow_le_zpow_right₀ (by norm_num) he
  have hpoint := hcovers.convex (covers_value hp) hfront hten
  have hcoarse : k + d.exponent ≤ (F.firstGrid tie p fuel (F.leading p)).exponent :=
    le_exponent_firstGrid hp ⟨1, by rwa [Nat.cast_one, one_mul]⟩ _ (le_leading hten) (by omega)
  rw [hd] at hcoarse
  omega

/-- If a number on a coarser grid than the first is covered, so is the power of ten behind the number
of the pattern, and the first grid has it. -/
theorem significand_firstGrid_le_ten {m : Nat} (hp : 0 < p) (hm : 0 < m)
    (hcovers : F.Covers p (m * 10 ^ e)) (he : F.leading p < e) (fuel : Nat) :
    (F.firstGrid tie p (fuel + 1) (F.leading p)).significand ≤ 10 := by
  have hone : (1 : ℚ) ≤ m := by exact_mod_cast hm
  have hlt : F.value p < 10 ^ (F.leading p + 1) := lt_of_not_ge fun h => by
    have := le_leading h
    omega
  have hsplit : (10 : ℚ) ^ (F.leading p + 1) = 10 * 10 ^ F.leading p := by
    rw [zpow_add₀ (by norm_num), zpow_one, mul_comm]
  have hfront : (10 : ℚ) ^ (F.leading p + 1) ≤ m * 10 ^ e :=
    (zpow_le_zpow_right₀ (by norm_num) he).trans (le_mul_of_one_le_left (by positivity) hone)
  have hpoint := (covers_value hp).convex hcovers hlt.le hfront
  rw [hsplit] at hpoint hlt
  have hbelow : (((F.firstGrid tie p (fuel + 1) (F.leading p)).significand : ℚ) - 1) *
      10 ^ (F.firstGrid tie p (fuel + 1) (F.leading p)).exponent ≤ F.value p :=
    sub_one_le_firstGrid hp _
  rw [firstGrid] at hbelow ⊢
  obtain ⟨j, hj⟩ := exists_onGrid? tie hp ⟨10, by exact_mod_cast hpoint⟩
  rw [hj] at hbelow ⊢
  dsimp only at hbelow ⊢
  have hj10 : (j : ℚ) - 1 < 10 := lt_of_mul_lt_mul_right (hbelow.trans_lt hlt) (by positivity)
  have hsmall : (j : ℚ) < (11 : Nat) := by
    push_cast
    linarith
  exact Nat.lt_succ_iff.1 (by exact_mod_cast hsmall)

/-- The shortest decimal has no more digits than any number that rounds to the pattern. -/
theorem hasDigits_shortest [Fact (0 < F.fractionBits)] {g : Int} {n : Nat} (tie : TieRule)
    (hp : 0 < p) (hpi : p < F.infinity) (hg : 10 ^ g ≤ F.boundary p - F.value p) (hn : 0 < n)
    (hvalue : F.value p < 10 ^ n) (hrange : n ≤ g + F.scale + 1) (hw : HasDigits k w)
    (hnearest : F.nearest w = p) : HasDigits k (F.shortest tie p).value := by
  have hcovers := covers_of_nearest hp hpi hw.nonneg hnearest
  obtain ⟨hstart, hend⟩ := exists_searched hp hg hn hvalue hrange
  have hleast : g ≤ (F.firstGrid tie p (F.scale + 1) (F.leading p)).exponent :=
    le_exponent_firstGrid hp (exists_covers hp hg) _ hstart hend
  obtain ⟨m, hm, e, rfl⟩ := hw
  have hm0 : 0 < m := Nat.pos_of_ne_zero fun h0 => by
    rw [h0, Nat.cast_zero, zero_mul, nearest_zero] at hnearest
    exact hp.ne hnearest
  have hk : 0 < k := Nat.pos_of_ne_zero fun h0 => by
    rw [h0, Nat.pow_zero] at hm
    omega
  rw [value_shortest tie hp, Decimal.value]
  refine hasDigits_of_le hk ?_ _
  rcases le_or_gt e (F.leading p) with hle | hgt
  · refine significand_firstGrid_le hp hk hm.le hcovers ?_ (by omega)
    rcases le_or_gt g e with hge | hlt
    · exact le_exponent_firstGrid hp ⟨m, hcovers⟩ _ hle (by omega)
    · exact hlt.le.trans hleast
  · have hpower : 10 ^ 1 ≤ 10 ^ k := Nat.pow_le_pow_right (by decide) hk
    exact (significand_firstGrid_le_ten hp hm0 hcovers hgt _).trans hpower

end BinaryFormat

end RuleMachine
