import RuleMachine.Proofs.Json.Library
import RuleMachine.Proofs.Number.Doubles
import RuleMachine.Proofs.Number.Written
/-!
Literals read in two ways. As JSON a literal that is not a whole number of 64 bits becomes a double
first and a float after that; as a bare text it becomes a float at once. The two floats are the same
unless the double lies halfway between two floats and the literal does not.
-/

set_option autoImplicit false

namespace RuleMachine

open BinaryFormat

theorem Scalar.asSingle?_ofInt (n : Int) : (Scalar.ofInt n).asSingle? = some (.ofInt n) := by
  unfold Scalar.ofInt
  split_ifs with h
  · rw [asSingle?, Int32.toInt_ofInt_of_le (by omega) (by omega)]
  · rfl

namespace JsonNumbers

open Json

variable {lib : JsonNumbers} {ℓ : NumberLiteral} {s : Scalar} {negative : Bool} {p : Nat}

theorem scalar_ofPattern (hp : p ≤ double.infinity) :
    scalar (.number (.real (.ofPattern negative p))) =
      .ok (.float (.ofPattern negative (single.nearest (double.value p)))) := by
  rw [scalar, Double.toSingle_ofPattern hp]

/-- A whole number of 64 bits is rounded once. -/
theorem ReadsNearest.scalar_whole (hlib : lib.ReadsNearest) (hfits : ℓ.FitsWord)
    (h : lib.readText scalar ℓ.text = .ok s) : ∃ x, s.asSingle? = some x ∧ x.isNaN = false ∧
      x.value = (Single.ofPattern ℓ.negative (single.nearest ℓ.magnitude)).value := by
  have hinteger : ℓ.integer =
      if ℓ.negative then -(digitsValue ℓ.whole : Int) else digitsValue ℓ.whole := rfl
  rw [hfits.1.magnitude_eq]
  rw [readText_scalar_text] at h
  rcases hlib.whole ℓ hfits with hnumber | ⟨hnegative, hzero, hnumber⟩
  · rw [hnumber] at h
    obtain rfl := Except.ok.inj h
    refine ⟨_, Scalar.asSingle?_ofInt _, Single.isNaN_ofInt _, ?_⟩
    rw [hinteger, Single.value_ofInt_signed]
  · rw [hnumber] at h
    obtain rfl := Except.ok.inj ((scalar_ofPattern (Nat.zero_le _)).symm.trans h)
    have hdigits : digitsValue ℓ.whole = 0 := by
      rw [hnegative, if_pos rfl] at hinteger
      omega
    refine ⟨_, rfl, Single.isNaN_ofPattern (nearest_le_infinity _ _), ?_⟩
    rw [value_zero, hnegative, hdigits, Nat.cast_zero]

/-- Any other number is rounded twice, through eight bytes. -/
theorem ReadsNearest.scalar_real (hlib : lib.ReadsNearest) (hfits : ¬ℓ.FitsWord)
    (h : lib.readText scalar ℓ.text = .ok s) : s = .float (.ofPattern ℓ.negative
      (single.nearest (double.value (double.nearest ℓ.magnitude)))) := by
  rw [readText_scalar_text] at h
  cases hnumber : lib.number ℓ with
  | error f =>
    rw [hnumber] at h
    cases h
  | ok n =>
    rw [hnumber, hlib.real ℓ n hfits hnumber] at h
    exact Except.ok.inj (h.symm.trans (scalar_ofPattern (nearest_le_infinity _ _)))

end JsonNumbers

namespace Json

open JsonNumbers

/-- A literal as a JSON text and as a bare text, where the library reads nearest numbers and the
bare text is read as the nearest float. Both are numbers. They are equal for a whole number of 64
bits; any other literal gives equal ones exactly if its double does not lie halfway between two
floats, or the literal is on the side of the even one of these or halfway as well. -/
theorem number_same_iff {lib : JsonNumbers} {parse : List Char → Option Single} {ℓ : NumberLiteral}
    {s : Scalar} (hlib : lib.ReadsNearest) (hjson : lib.readText scalar ℓ.text = .ok s)
    (hsingle : parse ℓ.chars = some (.ofPattern ℓ.negative (single.nearest ℓ.magnitude))) :
    ∃ x y, s.asSingle? = some x ∧ (Scalar.ofLiteralBy parse ℓ.text).asSingle? = some y ∧
      (x.same y = true ↔ ℓ.FitsWord ∨ ∀ q < single.infinity,
        double.value (double.nearest ℓ.magnitude) = single.boundary q →
          if q % 2 = 1 then single.boundary q ≤ ℓ.magnitude
          else ℓ.magnitude ≤ single.boundary q) := by
  obtain ⟨y, hy, hynan, hyvalue⟩ := Scalar.ofLiteralBy_text hsingle
  by_cases hfits : ℓ.FitsWord
  · obtain ⟨x, hx, hxnan, hxvalue⟩ := hlib.scalar_whole hfits hjson
    exact ⟨x, y, hx, hy, iff_of_true
      ((Single.same_iff hxnan hynan).2 (hxvalue.trans hyvalue.symm)) (.inl hfits)⟩
  · obtain rfl := hlib.scalar_real hfits hjson
    refine ⟨_, y, rfl, hy, ?_⟩
    rw [Single.same_iff (Single.isNaN_ofPattern (nearest_le_infinity _ _)) hynan, hyvalue,
      Single.value_ofPattern_eq_iff (nearest_le_infinity _ _) (nearest_le_infinity _ _),
      or_iff_right hfits]
    exact nearest_value_nearest_iff NumberLiteral.magnitude_nonneg

theorem number_same_iff_below_halfway :
    let ℓ := Decimal.splitLiteral false (d := ⟨100000005960464477, -17⟩) (by decide)
    double.value (double.nearest ℓ.magnitude) = single.boundary 0x3f800000 ∧
    readText scalar ℓ.text = exact.readText scalar ℓ.text ∧
    ∃ x y, (Scalar.float ⟨0x3f800000⟩).asSingle? = some x ∧
      (Scalar.ofLiteralBy Single.read? ℓ.text).asSingle? = some y ∧
      (x.same y = true ↔ ℓ.FitsWord ∨ ∀ q < single.infinity,
        double.value (double.nearest ℓ.magnitude) = single.boundary q →
          if q % 2 = 1 then single.boundary q ≤ ℓ.magnitude
          else ℓ.magnitude ≤ single.boundary q) := by
  intro ℓ
  exact ⟨by decide +kernel, by decide +kernel,
    number_same_iff exact_readsNearest (by decide +kernel) (by decide +kernel)⟩

/-- Just above this point the double is the same, and JSON gives one, but the bare text the float
after it. -/
theorem number_not_same_above_halfway :
    let ℓ := Decimal.splitLiteral false (d := ⟨100000005960464478, -17⟩) (by decide)
    ℓ.text = "1.00000005960464478" ∧ exact.ReadsNearest ∧
    Single.read? ℓ.chars = some (.ofPattern ℓ.negative (single.nearest ℓ.magnitude)) ∧
    exact.readText scalar ℓ.text = .ok (.float ⟨0x3f800000⟩) ∧
    readText scalar ℓ.text = .ok (.float ⟨0x3f800000⟩) ∧
    Scalar.ofLiteral ℓ.text = .float ⟨0x3f800001⟩ ∧
    Single.same ⟨0x3f800000⟩ ⟨0x3f800001⟩ = false :=
  ⟨by decide +kernel, exact_readsNearest, by decide +kernel, by decide +kernel, by decide +kernel,
    by decide +kernel, by decide +kernel⟩

end Json

end RuleMachine
