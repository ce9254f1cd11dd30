import RuleMachine.Proofs.Json.Numbers
import RuleMachine.Proofs.Number.Fewest

set_option autoImplicit false

namespace RuleMachine

open BinaryFormat

namespace JsonNumbers

/-- Whole numbers of 64 bits are read exactly, where minus zero may be a double, which has a sign.
Other numbers are read as the nearest doubles, and refused only if these are infinite. -/
structure ReadsNearest (lib : JsonNumbers) : Prop where
  whole : ∀ ℓ : NumberLiteral, ℓ.FitsWord → lib.number ℓ = .ok (.whole ℓ.integer) ∨
    ℓ.negative = true ∧ ℓ.integer = 0 ∧ lib.number ℓ = .ok (.real (.ofPattern true 0))
  real : ∀ (ℓ : NumberLiteral) (n : JsonNumber), ¬ℓ.FitsWord → lib.number ℓ = .ok n →
    n = .real (.ofPattern ℓ.negative (double.nearest ℓ.magnitude))
  accepts : ∀ ℓ : NumberLiteral, ¬ℓ.FitsWord → double.nearest ℓ.magnitude < double.infinity →
    ∃ n, lib.number ℓ = .ok n

/-- A literal with a fraction or an exponent is written for a float, and stands for a shortest
decimal that rounds to the float. -/
structure Writes (lib : JsonNumbers) (x : Single) (ℓ : NumberLiteral) : Prop where
  text : lib.float x = ℓ.text
  not_isWhole : ¬ℓ.IsWhole
  negative : ℓ.negative = x.isNegative
  isShortest : single.IsShortest x.pattern ℓ.magnitude

def WritesShortest (lib : JsonNumbers) : Prop :=
  ∀ x : Single, x.isFinite = true → ∃ ℓ, lib.Writes x ℓ

def exact : JsonNumbers where
  number ℓ :=
    if ℓ.FitsWord then
      if ℓ.negative = true ∧ ℓ.integer = 0 then .ok (.real (.ofPattern true 0))
      else .ok (.whole ℓ.integer)
    else if double.nearest ℓ.magnitude < double.infinity then
      .ok (.real (.ofPattern ℓ.negative (double.nearest ℓ.magnitude)))
    else .error .syntaxError
  float x := x.write .data

theorem exact_readsNearest : exact.ReadsNearest where
  whole ℓ hfits := by
    by_cases hzero : ℓ.negative = true ∧ ℓ.integer = 0
    · exact .inr ⟨hzero.1, hzero.2, (if_pos hfits).trans (if_pos hzero)⟩
    · exact .inl ((if_pos hfits).trans (if_neg hzero))
  real ℓ n hfits h := by
    simp only [exact, if_neg hfits] at h
    split_ifs at h
    exact (Except.ok.inj h).symm
  accepts ℓ hfits hfinite := ⟨_, (if_neg hfits).trans (if_pos hfinite)⟩

end JsonNumbers

end RuleMachine
