import Mathlib.Tactic.IntervalCases
import RuleMachine.Proofs.Json.NearMisses
import RuleMachine.Proofs.Number.Fewest
import RuleMachine.Proofs.Number.Written
/-!
Shortest decimals rounded to eight bytes first. The error of the double is too small to matter for a
decimal that is not close to a boundary. The shortest decimals that are close have been tried, and
all but a few become the pattern again.
-/

set_option autoImplicit false

namespace RuleMachine

open BinaryFormat

namespace NearMiss

variable {s k t p r m : Nat} {v w : ℚ} {g : Int} {d : Decimal}

set_option maxRecDepth 4000 in
theorem grid_le_halfStep (h : s < 254) : grid s ≤ halfStep s := by
  have hall : ∀ s < 254, grid s ≤ halfStep s := by decide
  exact hall s h

theorem gridPower_mono (h : s ≤ t) : gridPower s ≤ gridPower t :=
  Nat.div_le_div_right (Nat.add_le_add_left (Nat.mul_le_mul_left _ h) _)

theorem shift_lt (h : p < single.infinity) : single.shift p < 254 := by
  rw [infinity_single] at h
  change p / 2 ^ 23 - 1 < 254
  omega

theorem grid_div (s k : Nat) :
    ((k * grid s : Nat) : ℚ) / (10 ^ 46 * 2 ^ 150) = k * 10 ^ (gridPower s - 46 : Int) := by
  have h46 : (10 : ℚ) ^ (46 : Int) = 10 ^ 46 := zpow_natCast 10 46
  rw [grid, Nat.pow_eq, Nat.pow_eq, Nat.cast_mul, Nat.cast_mul, Nat.cast_pow, Nat.cast_pow,
    Nat.cast_ofNat, Nat.cast_ofNat, zpow_sub₀ (by norm_num), zpow_natCast, h46, ← mul_assoc,
    mul_div_mul_right _ _ (by positivity), mul_div_assoc]

theorem halfStep_div (s t : Nat) :
    ((t * halfStep s : Nat) : ℚ) / (10 ^ 46 * 2 ^ 150) = (t * 2 ^ s : Nat) / 2 ^ 150 := by
  rw [halfStep, Nat.pow_eq, Nat.pow_eq, ← Nat.mul_assoc, Nat.cast_mul, Nat.cast_pow (10 : Nat),
    Nat.cast_ofNat, mul_comm (10 ^ 46 : ℚ), mul_div_mul_right _ _ (by positivity)]

theorem isClose_of_abs_le
    (h : |((t * 2 ^ s : Nat) : ℚ) / 2 ^ 150 - k * (10 : ℚ) ^ (gridPower s - 46 : Int)| ≤
      k * (10 : ℚ) ^ (gridPower s - 46 : Int) / 2 ^ 53) : isClose s k t = true := by
  have hpos : (0 : ℚ) < 10 ^ 46 * 2 ^ 150 := by positivity
  rw [← grid_div, ← halfStep_div, ← sub_div, abs_div, abs_of_pos hpos, div_right_comm,
    div_le_div_iff_of_pos_right hpos, le_div_iff₀ (by positivity)] at h
  rw [isClose_iff]
  generalize k * grid s = a at *
  generalize t * halfStep s = b at *
  have hbound : ∀ {x y : Nat}, |(y : ℚ) - x| * 2 ^ 53 ≤ a → (x - y) * 2 ^ 53 ≤ a := by
    intro x y hxy
    rcases Nat.le_total x y with hle | hle
    · rw [Nat.sub_eq_zero_of_le hle, Nat.zero_mul]
      exact Nat.zero_le _
    · rw [abs_sub_comm, ← Nat.cast_sub hle, Nat.abs_cast] at hxy
      exact_mod_cast hxy
  exact ⟨hbound h, hbound (by rwa [abs_sub_comm])⟩

theorem exists_halfSteps (p : Nat) : ∃ t, t % 2 = 1 ∧ t < 2 ^ 25 ∧
    single.boundary p = ((t * 2 ^ single.shift p : Nat) : ℚ) / 2 ^ 150 := by
  obtain ⟨m, hm, -, -, hboundary⟩ := single.exists_boundary p
  change m < 2 * 2 ^ 23 at hm
  exact ⟨2 * m + 1, by omega, by omega, hboundary⟩

/-- If the double lies on the wrong side of a boundary, the decimal is close to the boundary. -/
theorem exists_close_boundary {v w : ℚ} (hpi : p < single.infinity)
    (hcovers : single.Covers p v) (hw : 0 ≤ w) (herror : |w - v| ≤ v / 2 ^ 53)
    (hne : single.nearest w ≠ p) :
    ∃ r ≤ p, |single.boundary r - v| ≤ v / 2 ^ 53 := by
  have hbounds := hcovers.bounds
  have hdistance := abs_le.1 herror
  rcases Nat.lt_or_gt_of_ne hne with hlt | hgt
  · have hboundary := le_boundary_nearest hw (hlt.trans hpi)
    have hmono := single.boundary_strictMono.monotone (Nat.le_sub_one_of_lt hlt)
    refine ⟨p - 1, Nat.sub_le _ _, abs_le.2 ⟨?_, ?_⟩⟩
    · linarith
    · linarith
  · have hboundary := boundary_le_of_lt_nearest hw hgt
    refine ⟨p, Nat.le_refl _, abs_le.2 ⟨?_, ?_⟩⟩
    · linarith
    · linarith

/-! Shortest decimals on the grid -/

theorem ten_zpow_gridPower_le (hpi : p < single.infinity) :
    10 ^ (gridPower (single.shift p) - 46 : Int) ≤ single.boundary p - single.value p := by
  have hgrid : ((1 * grid (single.shift p) : Nat) : ℚ) / (10 ^ 46 * 2 ^ 150) ≤
      (1 * halfStep (single.shift p) : Nat) / (10 ^ 46 * 2 ^ 150) := by
    rw [div_le_div_iff_of_pos_right (by positivity), Nat.one_mul, Nat.one_mul]
    exact_mod_cast grid_le_halfStep (shift_lt hpi)
  rw [grid_div, halfStep_div, Nat.one_mul, Nat.cast_one, one_mul] at hgrid
  rw [boundary_sub_value, scale_single, div_div, ← pow_succ]
  exact_mod_cast hgrid

theorem isShortest_shortest (tie : TieRule) (hpi : p < single.infinity) :
    single.IsShortest p (single.shortest tie p).value := by
  refine ⟨nearest_shortest tie hpi.le, fun k w hw hnearest => ?_⟩
  rcases Nat.eq_zero_or_pos p with rfl | hp
  · exact ⟨0, Nat.pow_pos (by decide), 0, rfl⟩
  · refine hasDigits_shortest (n := 39) tie hp hpi (ten_zpow_gridPower_le hpi) (by decide) ?_ ?_ hw
      hnearest
    · refine (single.value_strictMono hpi).trans_le ?_
      rw [value_infinity_single]
      norm_num
    · rw [scale_single]
      omega

theorem exists_covers_near (hp : 0 < p) (hv : single.Covers p v) (hv0 : 0 ≤ v)
    (hg : 10 ^ g ≤ single.boundary p - single.value p) : ∃ j : Nat,
      single.Covers p (j * 10 ^ g) ∧ j ≤ ⌊v / 10 ^ g⌋₊ + 1 := by
  have hten : (0 : ℚ) < 10 ^ g := by positivity
  obtain ⟨i, hi⟩ := exists_covers hp hg
  have hfloor := Nat.floor_le (div_nonneg hv0 hten.le)
  have hceil := Nat.lt_floor_add_one (v / 10 ^ g)
  generalize ⌊v / 10 ^ g⌋₊ = b at hfloor hceil ⊢
  rw [le_div_iff₀ hten] at hfloor
  rw [div_lt_iff₀ hten] at hceil
  rcases Nat.lt_or_ge b i with hlt | hge
  · refine ⟨b + 1, hv.convex hi (by exact_mod_cast hceil.le) ?_, Nat.le_refl _⟩
    exact mul_le_mul_of_nonneg_right (by exact_mod_cast hlt) hten.le
  · refine ⟨b, hi.convex hv ?_ hfloor, Nat.le_succ _⟩
    exact mul_le_mul_of_nonneg_right (by exact_mod_cast hge) hten.le

theorem half_step_le (hp : 0 < p) : single.boundary p - single.value p ≤ single.boundary (p - 1) := by
  have hunits : (2 ^ single.shift p : ℚ) ≤ single.units p := by
    exact_mod_cast single.two_pow_shift_le_units hp
  have hvalue : 2 ^ single.shift p / 2 ^ single.scale ≤ single.value p :=
    div_le_div_of_nonneg_right hunits single.scale_pos.le
  have hnonneg := single.value_nonneg (p - 1)
  rw [boundary_sub_value, boundary, Nat.sub_add_cancel hp]
  linarith

theorem lt_of_ten_zpow_le {n : Nat} {c e : Int} (hn : n < 10 ^ k) (h : (10 : ℚ) ^ c ≤ n * 10 ^ e) :
    c < k + e := by
  have hlt : (n : ℚ) < 10 ^ (k : Int) := by exact_mod_cast hn
  rw [← zpow_lt_zpow_iff_right₀ (show (1 : ℚ) < 10 by norm_num), zpow_add₀ (by norm_num)]
  exact h.trans_lt (mul_lt_mul_of_pos_right hlt (by positivity))

theorem pow_length_le (hk : 0 < k) : 10 ^ ((Nat.toDigits 10 k).length - 1) ≤ k := by
  rcases Nat.eq_zero_or_pos ((Nat.toDigits 10 k).length - 1) with h0 | hpos
  · rw [h0]
    exact hk
  · refine Nat.le_of_not_lt fun hlt => ?_
    have := (Nat.length_toDigits_le_iff (b := 10) (by decide) hpos).2 hlt
    omega

theorem lt_pow_length (k : Nat) : k < 10 ^ (Nat.toDigits 10 k).length :=
  (Nat.length_toDigits_le_iff (by decide) Nat.length_toDigits_pos).1 (Nat.le_refl _)

theorem exists_mul_zpow {e g : Int} (n : Nat) (h : g ≤ e) :
    ∃ j : Nat, (n : ℚ) * 10 ^ e = (n * 10 ^ j : Nat) * 10 ^ g ∧ e = g + j := by
  obtain ⟨j, rfl⟩ := Int.le.dest h
  refine ⟨j, ?_, rfl⟩
  rw [zpow_add₀ (by norm_num), zpow_natCast]
  push_cast
  ring

theorem hasDigits_value (d : Decimal) : HasDigits d.digits.length d.value :=
  ⟨d.significand, lt_pow_length _, d.exponent, rfl⟩

/-- With more decimals than the grid has, a number would not be the shortest: the point of the grid
next to it has no more digits than the part in front of these decimals. -/
theorem exists_grid (hp : 0 < p) (hpi : p < single.infinity) (hv : single.IsShortest p v) :
    ∃ k : Nat, v = k * 10 ^ (gridPower (single.shift p) - 46 : Int) := by
  have hg := ten_zpow_gridPower_le hpi
  generalize (gridPower (single.shift p) - 46 : Int) = g at hg ⊢
  have hv0 : 0 ≤ v := (hv.2 _ _ (hasDigits_value _) (nearest_shortest .toEven hpi.le)).nonneg
  have hten : (0 : ℚ) < 10 ^ g := by positivity
  have hcovers := covers_of_nearest hp hpi hv0 hv.1
  have hge : 1 ≤ v / 10 ^ g := by
    rw [one_le_div₀ hten]
    exact (hg.trans (half_step_le hp)).trans hcovers.bounds.1
  obtain ⟨j, hj, hjb⟩ := exists_covers_near hp hcovers hv0 hg
  have hfloor := Nat.floor_le (div_nonneg hv0 hten.le)
  have hb : 0 < ⌊v / 10 ^ g⌋₊ := Nat.floor_pos.2 hge
  generalize ⌊v / 10 ^ g⌋₊ = b at hjb hfloor hb
  rw [le_div_iff₀ hten] at hfloor
  -- the digits of the point are those of the part in front, or one and zeros
  have hjlength : j ≤ 10 ^ (Nat.toDigits 10 b).length := hjb.trans (lt_pow_length b)
  obtain ⟨n, hn, e, rfl⟩ := hv.2 _ _ (hasDigits_of_le Nat.length_toDigits_pos hjlength g)
    (nearest_of_covers hp hpi.le hj)
  have hfront : (10 : ℚ) ^ (((Nat.toDigits 10 b).length - 1 : Nat) + g) ≤ n * 10 ^ e := by
    rw [zpow_add₀ (by norm_num), zpow_natCast]
    refine (mul_le_mul_of_nonneg_right ?_ hten.le).trans hfloor
    exact_mod_cast pow_length_le hb
  have hlt := lt_of_ten_zpow_le hn hfront
  have hlength := Nat.length_toDigits_pos (b := 10) (n := b)
  obtain ⟨i, hi, -⟩ := exists_mul_zpow n (by omega : g ≤ e)
  exact ⟨_, hi⟩

theorem not_hasDigits_of_isLonger (h : isLonger k d = true) :
    ¬HasDigits d.digits.length (k * 10 ^ g) := by
  have hzero : k % 10 ^ ((Nat.toDigits 10 k).length - d.digits.length) ≠ 0 := fun h0 => by
    rw [isLonger, Nat.pow_eq, h0] at h
    cases h
  rintro ⟨n, hn, e, heq⟩
  have hk : 0 < k := Nat.pos_of_ne_zero fun h0 => hzero (by rw [h0, Nat.zero_mod])
  have hlength : d.digits.length < (Nat.toDigits 10 k).length :=
    Nat.lt_of_not_le fun hle => hzero (by rw [Nat.sub_eq_zero_of_le hle, Nat.pow_zero, Nat.mod_one])
  have hfront : (10 : ℚ) ^ (((Nat.toDigits 10 k).length - 1 : Nat) + g) ≤ n * 10 ^ e := by
    rw [← heq, zpow_add₀ (by norm_num), zpow_natCast]
    exact mul_le_mul_of_nonneg_right (by exact_mod_cast pow_length_le hk) (by positivity)
  have hlt := lt_of_ten_zpow_le hn hfront
  obtain ⟨j, hj, hej⟩ := exists_mul_zpow n (by omega : g ≤ e)
  rw [hj] at heq
  have hkn : k = n * 10 ^ j := by
    exact_mod_cast mul_right_cancel₀ (zpow_ne_zero g (by norm_num : (10 : ℚ) ≠ 0)) heq
  have hdvd : 10 ^ ((Nat.toDigits 10 k).length - d.digits.length) ∣ k :=
    (Nat.pow_dvd_pow 10 (by omega)).trans (hkn ▸ Nat.dvd_mul_left _ _)
  exact hzero (Nat.mod_eq_zero_of_dvd hdvd)

/-! What was tried -/

theorem round_grid {F : BinaryFormat} [Fact (0 < F.fractionBits)] (s k : Nat) :
    F.round (k * Nat.pow 10 (gridPower s)) (Nat.pow 10 46) =
      F.nearest (k * 10 ^ (gridPower s - 46 : Int)) := by
  have h46 : (10 : ℚ) ^ (46 : Int) = 10 ^ 46 := zpow_natCast 10 46
  rw [Nat.pow_eq, Nat.pow_eq, round_eq_nearest (by positivity), zpow_sub₀ (by norm_num),
    zpow_natCast, h46, ← mul_div_assoc]
  push_cast
  rfl

theorem value_eq_grid (hd : d ∈ lostDecimals)
    (h : d.significand * Nat.pow 10 (d.exponent + 46).toNat = k * Nat.pow 10 (gridPower s)) :
    (k : ℚ) * 10 ^ (gridPower s - 46 : Int) = d.value := by
  have hrange : ∀ d ∈ lostDecimals, 0 ≤ d.exponent + 46 := by decide
  obtain ⟨n, hn⟩ := Int.eq_ofNat_of_zero_le (hrange d hd)
  rw [hn, Int.toNat_natCast, Nat.pow_eq, Nat.pow_eq] at h
  rw [Decimal.value, show d.exponent = n - 46 by omega, zpow_sub₀ (by norm_num),
    zpow_sub₀ (by norm_num), zpow_natCast, zpow_natCast, ← mul_div_assoc, ← mul_div_assoc]
  congr 1
  exact_mod_cast h.symm

theorem cases_of_isHarmless (h : isHarmless s k t = true) (ht : t % 2 = 1)
    (hclose : isClose s k t = true) (hv : v = k * 10 ^ (gridPower s - 46 : Int)) :
    single.nearest (double.value (double.nearest v)) = single.nearest v ∨
      (∃ d ∈ lostDecimals, v = d.value) ∨
      isLonger k (single.shortest .toEven (single.nearest v)) = true := by
  subst hv
  have hodd : Nat.beq (t % 2) 1 = true := by rw [Nat.beq_eq, ht]
  rw [isHarmless, hodd, hclose, Bool.and_self, Bool.not_true, Bool.false_or] at h
  simp only [evaluated_eq, Bool.or_eq_true, round_grid, round_units_double, Nat.beq_eq,
    List.any_eq_true] at h
  rcases h with (hsame | ⟨d, hd, heq⟩) | hlonger
  · exact .inl hsame
  · exact .inr (.inl ⟨d, hd, value_eq_grid hd heq⟩)
  · exact .inr (.inr hlonger)

/-- The pattern that has no other shortest decimal than a lost one. -/
def lostPattern : Nat := 0x15ae43fd

/-- All of the lost decimals are lost, and all but one have a shortest decimal beside them that is
nearer to the pattern. -/
theorem forall_lostDecimals : ∀ d ∈ lostDecimals,
    single.nearest (double.value (double.nearest d.value)) ≠ single.nearest d.value ∧
    (single.nearest d.value = lostPattern →
      single.nearest (double.value (double.nearest d.value)) = lostPattern + 1) ∧
    (single.nearest d.value ≠ lostPattern →
      |(single.shortest .toEven (single.nearest d.value)).value -
          single.value (single.nearest d.value)| <
        |d.value - single.value (single.nearest d.value)|) := by
  decide +kernel

theorem eq_of_isShortest_lostPattern (hv : single.IsShortest lostPattern v) :
    v = (⟨7038531, -32⟩ : Decimal).value := by
  have hcovers : single.Covers lostPattern (7038531 * 10 ^ (-32 : Int)) := by
    rw [Covers, if_neg (by decide)]
    norm_num [boundary, value, units, lostPattern, single, scale]
  have hlow : 7038530 * (10 : ℚ) ^ (-32 : Int) < single.boundary (lostPattern - 1) := by
    norm_num [boundary, value, units, lostPattern, single, scale]
  have hhigh : single.boundary lostPattern < 7038532 * (10 : ℚ) ^ (-32 : Int) := by
    norm_num [boundary, value, units, lostPattern, single, scale]
  have hfewer : HasDigits 7 v := hv.2 7 _ ⟨7038531, by decide, -32, rfl⟩
    (nearest_of_covers (by decide) (by decide) hcovers)
  have hbounds := (covers_of_nearest (by decide) (by decide) hfewer.nonneg hv.1).bounds
  obtain ⟨n, hn, e, rfl⟩ := hfewer
  have hfront : (10 : ℚ) ^ (-26 : Int) ≤ n * 10 ^ e :=
    (show (10 : ℚ) ^ (-26 : Int) ≤ 7038530 * 10 ^ (-32 : Int) by norm_num).trans
      (hlow.le.trans hbounds.1)
  have hlt := lt_of_ten_zpow_le hn hfront
  obtain ⟨j, hj, -⟩ := exists_mul_zpow n (by omega : -32 ≤ e)
  rw [hj] at hbounds ⊢
  generalize n * 10 ^ j = m at hbounds ⊢
  have hten : (0 : ℚ) < 10 ^ (-32 : Int) := by positivity
  have hmlow : (7038530 : ℚ) < m := lt_of_mul_lt_mul_right (hlow.trans_le hbounds.1) hten.le
  have hmhigh : (m : ℚ) < 7038532 := lt_of_mul_lt_mul_right (hbounds.2.trans_lt hhigh) hten.le
  have hm : m = 7038531 := by
    have : 7038530 < m := by exact_mod_cast hmlow
    have : m < 7038532 := by exact_mod_cast hmhigh
    omega
  rw [hm]
  rfl

theorem nearest_double_lostPattern (hv : single.IsShortest lostPattern v) :
    single.nearest (double.value (double.nearest v)) = lostPattern + 1 := by
  obtain rfl := eq_of_isShortest_lostPattern hv
  exact (forall_lostDecimals _ (by decide)).2.1 hv.1

theorem isExact_or_isCertificate {s : Nat} (h : s < 254) :
    (isExact s || isCertificate s (pair s)) = true := by
  have hblock : ∀ n < 64, ∀ i < 4, 4 * n + i < 254 →
      (isExact (4 * n + i) || isCertificate (4 * n + i) (pair (4 * n + i))) = true := by
    intro n hn
    interval_cases n <;> decide +kernel
  have := hblock (s / 4) (by omega) (s % 4) (by omega)
  rw [Nat.div_add_mod] at this
  exact this h

/-- Rounded to eight bytes first, every shortest decimal that is not lost becomes the pattern. -/
theorem nearest_double_of_isShortest (hpi : p < single.infinity) (hv : single.IsShortest p v)
    (hlost : ∀ d ∈ lostDecimals, v ≠ d.value) :
    single.nearest (double.value (double.nearest v)) = p := by
  rcases Nat.eq_zero_or_pos p with rfl | hp
  · obtain ⟨n, hn, e, rfl⟩ := hv.2 0 0 ⟨0, Nat.one_pos, 0, by simp⟩ nearest_zero
    rw [Nat.lt_one_iff.1 hn, Nat.cast_zero, zero_mul, nearest_zero, value_zero, nearest_zero]
  by_contra hne
  obtain ⟨k, hk⟩ := exists_grid hp hpi hv
  have hv0 : 0 ≤ v := by rw [hk]; positivity
  have hcovers := covers_of_nearest hp hpi hv0 hv.1
  have hlow : 1 / 10 ^ 100 ≤ v := (le_single_boundary (p - 1)).trans hcovers.bounds.1
  have hhigh : v ≤ 10 ^ 100 := hcovers.bounds.2.trans (single_boundary_le hpi.le)
  obtain ⟨r, hrp, hr⟩ := exists_close_boundary hpi hcovers (double.value_nonneg _)
    (abs_double_error hlow hhigh) hne
  have hri : r < single.infinity := hrp.trans_lt hpi
  -- the grid of the binade of the boundary is not coarser
  obtain ⟨j, hj, -⟩ : ∃ j : Nat, v = _ ∧ _ := hk ▸ exists_mul_zpow k
    (sub_le_sub_right (by exact_mod_cast gridPower_mono (single.shift_mono hrp)) 46 :
      (gridPower (single.shift r) - 46 : Int) ≤ gridPower (single.shift p) - 46)
  obtain ⟨t, hodd, htlt, hboundary⟩ := exists_halfSteps r
  have hclose : isClose (single.shift r) (k * 10 ^ j) t = true :=
    isClose_of_abs_le (by rwa [← hj, ← hboundary])
  rcases Bool.or_eq_true_iff.1 (isExact_or_isCertificate (shift_lt hri)) with hexact | hcertificate
  · have heq := eq_of_isExact hexact htlt hclose
    have hvr : v = single.boundary r := by
      rw [hj, hboundary, ← grid_div, heq, halfStep_div]
    obtain ⟨q, hq, hvalue⟩ := exists_double_boundary hri
    rw [hvr, ← hvalue, nearest_value hq, hvalue, ← hvr] at hne
    exact hne hv.1
  · have hharmless := isHarmless_of_isCertificate hcertificate (by omega) htlt hclose
    rcases cases_of_isHarmless hharmless hodd hclose hj with hsame | ⟨d, hd, heq⟩ | hlonger
    · exact hne (hsame.trans hv.1)
    · exact hlost d hd heq
    · rw [hv.1] at hlonger
      refine not_hasDigits_of_isLonger hlonger (g := gridPower (single.shift r) - 46) ?_
      rw [← hj]
      exact hv.2 _ _ (hasDigits_value _) (nearest_shortest .toEven hpi.le)

/-- Exactly the listed ones of the shortest decimals do not become the pattern again when they are
rounded to eight bytes first. -/
theorem nearest_double_iff (hpi : p < single.infinity) (hv : single.IsShortest p v) :
    single.nearest (double.value (double.nearest v)) = p ↔ ∀ d ∈ lostDecimals, v ≠ d.value := by
  refine ⟨?_, nearest_double_of_isShortest hpi hv⟩
  rintro hsame d hd rfl
  exact (forall_lostDecimals d hd).1 (hsame.trans hv.1.symm)

/-- Of the shortest decimals that are nearest to their patterns, one is lost. -/
theorem nearest_double_iff_of_nearest (hpi : p < single.infinity) (hv : single.IsShortest p v)
    (hnearest : ∀ u, single.IsShortest p u → |v - single.value p| ≤ |u - single.value p|) :
    single.nearest (double.value (double.nearest v)) = p ↔ p ≠ lostPattern := by
  rw [nearest_double_iff hpi hv]
  constructor
  · rintro hkept rfl
    exact hkept _ (by decide) (eq_of_isShortest_lostPattern hv)
  · rintro hne d hd rfl
    obtain rfl := hv.1
    exact ((forall_lostDecimals d hd).2.2 hne).not_ge (hnearest _ (isShortest_shortest .toEven hpi))

end NearMiss

end RuleMachine
