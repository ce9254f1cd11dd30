import RuleMachine.Proofs.Json.Literals
import RuleMachine.Proofs.Json.ReadBack
import RuleMachine.Proofs.Json.Strings

set_option autoImplicit false

namespace RuleMachine

open BinaryFormat

namespace JsonNumbers

open Json JsonText NearMiss

variable {lib : JsonNumbers} {x : Single} {ℓ : NumberLiteral}

theorem exact_writesShortest : exact.WritesShortest := fun x hx => by
  obtain ⟨ℓ, htext, hnegative, -, hwrites⟩ := Single.exists_literal .data hx (.inr rfl)
  refine ⟨ℓ, htext.symm, fun h => absurd (hwrites.whole h) (by decide), hnegative, ?_⟩
  rw [hwrites.magnitude]
  exact isShortest_shortest _ (of_decide_eq_true hx)

theorem ReadsNearest.readText_int (hlib : lib.ReadsNearest) (n : Int32) :
    lib.readText scalar (lib.scalarText (.int n)) = .ok (.int n) := by
  have hn := n.toInt_lt
  have hn' := n.le_toInt
  have hinteger := NumberLiteral.integer_ofInt n.toInt
  have hfits : (NumberLiteral.ofInt n.toInt).FitsWord :=
    ⟨NumberLiteral.isWhole_ofInt _, by rw [hinteger]; omega, by rw [hinteger]; omega⟩
  rw [scalarText, ← NumberLiteral.text_ofInt, readText_scalar_text]
  rcases hlib.whole _ hfits with hnumber | ⟨hnegative, hzero, -⟩
  · rw [hnumber, hinteger]
    simp only [scalar, Scalar.ofInt]
    rw [if_pos (by omega), Int32.ofInt_toInt]
  · -- zero is written without a sign
    have := of_decide_eq_true hnegative
    omega

theorem readText_bool (lib : JsonNumbers) (b : Bool) :
    lib.readText scalar (lib.scalarText (.bool b)) = .ok (.bool b) := by
  cases b with
  | false =>
    have htext : "false".toList = 'f' :: "alse".toList := rfl
    rw [scalarText, if_neg Bool.false_ne_true, readText, ofText, htext]
    simp only [readValue]
    rfl
  | true =>
    have htext : "true".toList = 't' :: "rue".toList := rfl
    rw [scalarText, if_pos rfl, readText, ofText, htext]
    simp only [readValue]
    rfl

theorem readText_string (lib : JsonNumbers) (s : String) :
    lib.readText scalar (lib.scalarText (.string s)) = .ok (.string s) := by
  have hread := readString_flatMap [] s.toList []
  rw [List.reverse_nil, List.nil_append, String.ofList_toList] at hread
  have htext : (lib.scalarText (.string s)).toList =
      '"' :: (s.toList.flatMap jsonChar ++ ['"']) := String.toList_ofList
  have hblank : ∀ cs, skipBlank ('"' :: cs) = '"' :: cs := fun _ =>
    List.dropWhile_cons_of_neg (by decide)
  rw [readText, ofText, htext]
  simp only [readValue, hblank, hread]
  rfl

/-- A finite float is written as a decimal in the range of the doubles, and is rounded twice when it
is read. -/
theorem ReadsNearest.readText_float (hlib : lib.ReadsNearest) (hx : x.isFinite = true)
    (hℓ : lib.Writes x ℓ) : lib.readText scalar (lib.scalarText (.float x)) =
      .ok (.float (.ofPattern x.isNegative
        (single.nearest (double.value (double.nearest ℓ.magnitude))))) := by
  have hlt : x.pattern < single.infinity := of_decide_eq_true hx
  have hfits : ¬ℓ.FitsWord := fun h => hℓ.not_isWhole h.1
  have hfinite : double.nearest ℓ.magnitude < double.infinity := by
    have hboundary := (nearest_le_iff NumberLiteral.magnitude_nonneg hlt).1 hℓ.isShortest.1.le
    refine double_nearest_lt_infinity NumberLiteral.magnitude_nonneg
      (le_trans ?_ (single_boundary_le hlt.le))
    exact hboundary.elim le_of_lt fun h => h.1.le
  obtain ⟨n, hn⟩ := hlib.accepts ℓ hfits hfinite
  rw [scalarText, hℓ.text, readText_scalar_text, hn, hlib.real ℓ n hfits hn, ← hℓ.negative]
  exact scalar_ofPattern (nearest_le_infinity _ _)

end JsonNumbers

namespace Json

open JsonNumbers NearMiss

end Json

end RuleMachine
