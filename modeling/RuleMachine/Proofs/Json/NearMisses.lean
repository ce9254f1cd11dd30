import Mathlib.Tactic.LinearCombination
import RuleMachine.Proofs.Number.Doubles
import RuleMachine.Proofs.Number.Shortest
/-!
Decimals close to a boundary between four-byte numbers.

The double next to a decimal can be a boundary only if the decimal is closer to the boundary than the
error of the double. In each binade the boundaries are the odd multiples `t` of a power of two, and
the decimals that matter are multiples `k` of a power of ten; that the two are close says that
`k / t` is a good approximation of one quotient. Two neighbouring fractions on either side of the
quotient show how all the good ones are combined from them. These are few, and each of them is
tried.
-/

set_option autoImplicit false

namespace RuleMachine

open BinaryFormat

namespace NearMiss

/-- The decimals that are the shortest of a pattern, and that become another one when they are rounded
to eight bytes first. -/
def lostDecimals : List Decimal :=
  [⟨93137999, -40⟩, ⟨35192655, -33⟩, ⟨7038531, -32⟩, ⟨14077062, -32⟩, ⟨28154124, -32⟩,
    ⟨56308248, -32⟩, ⟨41358803, 27⟩, ⟨82717606, 27⟩]

/-! Neighbouring fractions -/

structure FractionPair where
  k₁ : Nat
  t₁ : Nat
  k₂ : Nat
  t₂ : Nat

/-- The fractions are neighbours, and the quotient `b / a` is between them. -/
structure FractionPair.Encloses (f : FractionPair) (a b : Nat) : Prop where
  neighbours : f.k₁ * f.t₂ = f.t₁ * f.k₂ + 1
  above : f.t₁ * b ≤ f.k₁ * a
  below : f.k₂ * a ≤ f.t₂ * b

namespace FractionPair

variable {f : FractionPair} {a b k t slack : Nat}

instance : Decidable (f.Encloses a b) :=
  decidable_of_iff (f.k₁ * f.t₂ = f.t₁ * f.k₂ + 1 ∧ f.t₁ * b ≤ f.k₁ * a ∧ f.k₂ * a ≤ f.t₂ * b)
    ⟨fun h => ⟨h.1, h.2.1, h.2.2⟩, fun h => ⟨h.1, h.2, h.3⟩⟩

theorem nonneg_of_residue {x y : Int} {t₁ t₂ r₁ r₂ : Nat} (ht : 0 < x * t₁ + y * t₂)
    (hslack : slack < r₁ + r₂) (h : -(slack : Int) ≤ x * r₁ - y * r₂) : 0 ≤ x := by
  by_contra hx
  rcases le_or_gt y 0 with hy | hy
  · have h₁ : x * t₁ ≤ 0 := mul_nonpos_of_nonpos_of_nonneg (by omega) (Int.natCast_nonneg _)
    have h₂ : y * t₂ ≤ 0 := mul_nonpos_of_nonpos_of_nonneg hy (Int.natCast_nonneg _)
    omega
  · have h₁ : x * r₁ ≤ -1 * r₁ := mul_le_mul_of_nonneg_right (by omega) (Int.natCast_nonneg _)
    have h₂ : 1 * (r₂ : Int) ≤ y * r₂ := mul_le_mul_of_nonneg_right hy (Int.natCast_nonneg _)
    omega

theorem Encloses.eq_combination (h : f.Encloses a b) (k t : Int) :
    ∃ x y : Int, k = x * f.k₁ + y * f.k₂ ∧ t = x * f.t₁ + y * f.t₂ := by
  have hdet : (f.k₁ * f.t₂ : Int) = f.t₁ * f.k₂ + 1 := by exact_mod_cast h.neighbours
  refine ⟨k * f.t₂ - t * f.k₂, t * f.k₁ - k * f.t₁, ?_, ?_⟩
  · linear_combination -k * hdet
  · linear_combination -t * hdet

theorem Encloses.residue (h : f.Encloses a b) (x y : Int) :
    (x * f.k₁ + y * f.k₂) * a + y * (f.t₂ * b - f.k₂ * a : Nat) =
      (x * f.t₁ + y * f.t₂) * b + x * (f.k₁ * a - f.t₁ * b : Nat) := by
  rw [Nat.cast_sub h.above, Nat.cast_sub h.below]
  push_cast
  ring

theorem Encloses.exists_combination (h : f.Encloses a b) (ht : 0 < t)
    (hslack : slack < (f.k₁ * a - f.t₁ * b) + (f.t₂ * b - f.k₂ * a))
    (hlow : k * a ≤ t * b + slack) (hhigh : t * b ≤ k * a + slack) :
    ∃ x y, k = x * f.k₁ + y * f.k₂ ∧ t = x * f.t₁ + y * f.t₂ := by
  obtain ⟨x, y, hk, ht'⟩ := h.eq_combination k t
  have hresidue := h.residue x y
  rw [← hk, ← ht'] at hresidue
  have htpos : (0 : Int) < x * f.t₁ + y * f.t₂ := by omega
  have hx0 : 0 ≤ x := nonneg_of_residue htpos hslack (by zify at hlow hhigh; omega)
  have hy0 : 0 ≤ y :=
    nonneg_of_residue (add_comm (x * f.t₁ : Int) _ ▸ htpos) (Nat.add_comm _ _ ▸ hslack)
      (by zify at hlow hhigh; omega)
  refine ⟨x.toNat, y.toNat, ?_, ?_⟩
  · zify
    rwa [Int.toNat_of_nonneg hx0, Int.toNat_of_nonneg hy0]
  · zify
    rwa [Int.toNat_of_nonneg hx0, Int.toNat_of_nonneg hy0]

end FractionPair

/-! The search for a pair, which need not be trusted -/

/-- The function of a number that is computed first; by itself the kernel would put the term for it
in every place of its use. -/
def evaluated {α : Type} (n : Nat) (f : Nat → α) : α :=
  match n with
  | 0 => f 0
  | n + 1 => f (n + 1)

def search (slack : Nat) : Nat → (k₁ t₁ r₁ k₂ t₂ r₂ : Nat) → FractionPair
  | 0, k₁, t₁, _, k₂, t₂, _ => ⟨k₁, t₁, k₂, t₂⟩
  | fuel + 1, k₁, t₁, r₁, k₂, t₂, r₂ =>
    if r₂ ≤ r₁ then
      evaluated (if slack < r₂ then r₁ / r₂ else (r₁ + r₂ - slack - 1) / r₂) fun n =>
        if n = 0 then ⟨k₁, t₁, k₂, t₂⟩
        else
          evaluated (k₁ + n * k₂) fun k₁ => evaluated (t₁ + n * t₂) fun t₁ =>
            evaluated (r₁ - n * r₂) fun r₁ => search slack fuel k₁ t₁ r₁ k₂ t₂ r₂
    else
      evaluated (if slack < r₁ then r₂ / r₁ else (r₁ + r₂ - slack - 1) / r₁) fun n =>
        if n = 0 then ⟨k₁, t₁, k₂, t₂⟩
        else
          evaluated (k₂ + n * k₁) fun k₂ => evaluated (t₂ + n * t₁) fun t₂ =>
            evaluated (r₂ - n * r₁) fun r₂ => search slack fuel k₁ t₁ r₁ k₂ t₂ r₂

/-! Grids and boundaries -/

def gridPower (s : Nat) : Nat := (84500 + 30103 * s) / 100000

def grid (s : Nat) : Nat := Nat.pow 10 (gridPower s) * Nat.pow 2 150

def halfStep (s : Nat) : Nat := Nat.pow 2 s * Nat.pow 10 46

def slack (s : Nat) : Nat := halfStep s / 0x8000000

def pair (s : Nat) : FractionPair :=
  evaluated (grid s) fun a => evaluated (halfStep s) fun b => search (slack s) 40 1 0 a 0 1 b

/-- Whether a decimal differs from a boundary by no more than the error of a double. -/
def isClose (s k t : Nat) : Bool :=
  Nat.ble ((k * grid s - t * halfStep s) * 0x20000000000000) (k * grid s) &&
    Nat.ble ((t * halfStep s - k * grid s) * 0x20000000000000) (k * grid s)

def isLonger (k : Nat) (d : Decimal) : Bool :=
  !Nat.beq (k % Nat.pow 10 ((Nat.toDigits 10 k).length - d.digits.length)) 0

/-- Whether a decimal that is close to a boundary is rounded twice to the pattern that it is rounded
to once, or is known to be lost, or is not the shortest of that pattern. -/
def isHarmless (s k t : Nat) : Bool :=
  !(Nat.beq (t % 2) 1 && isClose s k t) ||
    evaluated (k * Nat.pow 10 (gridPower s)) fun n =>
      evaluated (single.round n (Nat.pow 10 46)) fun p =>
        Nat.beq (single.round (double.units (double.round n (Nat.pow 10 46)))
          (Nat.pow 2 double.scale)) p ||
        lostDecimals.any (fun d => Nat.beq (d.significand * Nat.pow 10 (d.exponent + 46).toNat) n) ||
        isLonger k (single.shortest .toEven p)

def triesAll (s : Nat) (f : FractionPair) (r₁ r₂ slack : Nat) : Bool :=
  (List.range (0x2000000 / f.t₁ + 1)).all fun x =>
    (List.range ((0x2000000 - x * f.t₁) / f.t₂ + 1)).all fun y =>
      !(Nat.ble (x * r₁) (y * r₂ + slack) && Nat.ble (y * r₂) (x * r₁ + slack)) ||
        isHarmless s (x * f.k₁ + y * f.k₂) (x * f.t₁ + y * f.t₂)

/-- Whether a pair shows that nothing is close to a boundary that does not read back. -/
def isCertificate (s : Nat) : FractionPair → Bool
  | ⟨k₁, t₁, k₂, t₂⟩ =>
    evaluated (k₁ * grid s - t₁ * halfStep s) fun r₁ =>
      evaluated (t₂ * halfStep s - k₂ * grid s) fun r₂ =>
        evaluated (slack s) fun slack =>
          decide (FractionPair.Encloses ⟨k₁, t₁, k₂, t₂⟩ (grid s) (halfStep s)) &&
            decide (0 < t₁ ∧ 0 < t₂ ∧ slack < r₁ + r₂) &&
            triesAll s ⟨k₁, t₁, k₂, t₂⟩ r₁ r₂ slack

/-- In the middle of the range a decimal is close to a boundary only if it is the boundary, because
the grid and the half step have a common divisor. -/
def isExact (s : Nat) : Bool := decide (slack s < Nat.gcd (grid s) (halfStep s))

@[simp] theorem evaluated_eq {α : Type} (n : Nat) (f : Nat → α) : evaluated n f = f n := by
  cases n <;> rfl

variable {s k t : Nat}

theorem isClose_iff : isClose s k t = true ↔
    (k * grid s - t * halfStep s) * 2 ^ 53 ≤ k * grid s ∧
    (t * halfStep s - k * grid s) * 2 ^ 53 ≤ k * grid s := by
  rw [isClose, Bool.and_eq_true, Nat.ble_eq, Nat.ble_eq]
  norm_num

theorem le_slack (ht : t < 2 ^ 25) (h : isClose s k t = true) :
    k * grid s ≤ t * halfStep s + slack s ∧ t * halfStep s ≤ k * grid s + slack s := by
  rw [isClose_iff] at h
  have hmost : t * halfStep s ≤ 2 ^ 25 * halfStep s := Nat.mul_le_mul_right _ ht.le
  have hsmall : ∀ n, n * 2 ^ 27 ≤ halfStep s → n ≤ slack s := fun n hn => by
    rwa [slack, Nat.le_div_iff_mul_le (by decide)]
  have hlow := hsmall (k * grid s - t * halfStep s) (by omega)
  have hhigh := hsmall (t * halfStep s - k * grid s) (by omega)
  omega

theorem eq_of_isExact (hexact : isExact s = true) (ht : t < 2 ^ 25) (h : isClose s k t = true) :
    k * grid s = t * halfStep s := by
  have hlt := of_decide_eq_true hexact
  have hclose := le_slack ht h
  have hgrid := (Nat.gcd_dvd_left (grid s) (halfStep s)).mul_left k
  have hstep := (Nat.gcd_dvd_right (grid s) (halfStep s)).mul_left t
  have hlow := Nat.eq_zero_of_dvd_of_lt (Nat.dvd_sub hgrid hstep) (by omega)
  have hhigh := Nat.eq_zero_of_dvd_of_lt (Nat.dvd_sub hstep hgrid) (by omega)
  omega

theorem isHarmless_of_triesAll {f : FractionPair} {r₁ r₂ slack x y : Nat}
    (htries : triesAll s f r₁ r₂ slack = true) (ht₁ : 0 < f.t₁) (ht₂ : 0 < f.t₂)
    (ht : x * f.t₁ + y * f.t₂ < 2 ^ 25) (hlow : x * r₁ ≤ y * r₂ + slack)
    (hhigh : y * r₂ ≤ x * r₁ + slack) :
    isHarmless s (x * f.k₁ + y * f.k₂) (x * f.t₁ + y * f.t₂) = true := by
  simp only [triesAll, List.all_eq_true, List.mem_range, Nat.lt_succ_iff] at htries
  have hx : x ≤ 0x2000000 / f.t₁ := by
    rw [Nat.le_div_iff_mul_le ht₁]
    omega
  have hy : y ≤ (0x2000000 - x * f.t₁) / f.t₂ := by
    rw [Nat.le_div_iff_mul_le ht₂]
    omega
  have htried := htries x hx y hy
  have hlow' : Nat.ble (x * r₁) (y * r₂ + slack) = true := by rwa [Nat.ble_eq]
  have hhigh' : Nat.ble (y * r₂) (x * r₁ + slack) = true := by rwa [Nat.ble_eq]
  rwa [hlow', hhigh', Bool.and_self, Bool.not_true, Bool.false_or] at htried

/-- What was tried covers all decimals that are close. -/
theorem isHarmless_of_isCertificate {f : FractionPair} (hf : isCertificate s f = true) (ht0 : 0 < t)
    (ht : t < 2 ^ 25) (h : isClose s k t = true) : isHarmless s k t = true := by
  obtain ⟨k₁, t₁, k₂, t₂⟩ := f
  simp only [isCertificate, evaluated_eq, Bool.and_eq_true, decide_eq_true_eq] at hf
  obtain ⟨⟨hencloses, ht₁, ht₂, hslack⟩, htries⟩ := hf
  obtain ⟨hlow, hhigh⟩ := le_slack ht h
  obtain ⟨x, y, rfl, rfl⟩ := hencloses.exists_combination ht0 hslack hlow hhigh
  have hresidue : (x * k₁ + y * k₂) * grid s + y * (t₂ * halfStep s - k₂ * grid s) =
      (x * t₁ + y * t₂) * halfStep s + x * (k₁ * grid s - t₁ * halfStep s) := by
    exact_mod_cast hencloses.residue x y
  dsimp only at hlow hhigh
  exact isHarmless_of_triesAll htries ht₁ ht₂ ht (by omega) (by omega)

end NearMiss

end RuleMachine
