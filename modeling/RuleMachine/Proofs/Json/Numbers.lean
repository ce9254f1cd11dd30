import RuleMachine.Proofs.Number.Literal
import RuleMachine.Source.Json.Decode

set_option autoImplicit false

namespace RuleMachine

theorem ExponentPart.scanSign_chars (e : ExponentPart) :
    NumberLiteral.scanSign (e.signChars ++ e.digits) = (e.minus?, e.digits) := by
  obtain ⟨c, cs, hdigits, hc⟩ := e.exists_digit
  have hminus : c ≠ '-' := by rintro rfl; exact absurd hc (by decide)
  have hplus : c ≠ '+' := by rintro rfl; exact absurd hc (by decide)
  unfold signChars NumberLiteral.scanSign
  rcases e.minus? with _ | _ | _
  · rw [hdigits, List.nil_append]
    split <;> simp_all
  · rfl
  · rfl

namespace NumberLiteral

variable (ℓ : NumberLiteral)

theorem scanExponent_exponentChars : scanExponent ℓ.exponentChars = .ok (ℓ.exponent, []) := by
  unfold exponentChars
  cases ℓ.exponent with
  | none => rfl
  | some e =>
    have htake : (e.digits ++ []).takeWhile isDigit = e.digits :=
      takeWhile_digits e.isDigit_of_mem (by simp)
    have hdrop : (e.digits ++ []).dropWhile isDigit = [] :=
      dropWhile_digits e.isDigit_of_mem (by simp)
    rw [List.append_nil] at htake hdrop
    have hcapital : decide ((if e.capital then 'E' else 'e') = 'E') = e.capital := by
      cases e.capital <;> rfl
    simp only [ExponentPart.chars, scanExponent, if_pos e.letter_cases, e.scanSign_chars, htake,
      hdrop, dif_neg e.digits_ne_nil, hcapital]

theorem scanFraction_rest : scanFraction (ℓ.fractionChars ++ ℓ.exponentChars) =
    .ok (⟨ℓ.fraction, ℓ.isDigit_of_mem_fraction⟩, ℓ.exponentChars) := by
  unfold fractionChars scanFraction
  by_cases hfraction : ℓ.fraction = []
  · rw [if_pos hfraction, List.nil_append]
    split
    · rename_i cs heq
      rcases ℓ.letter_of_exponentChars heq with h | h <;> cases h
    · simp only [hfraction]
  · rw [if_neg hfraction, List.cons_append]
    simp only [takeWhile_fraction, dropWhile_fraction, if_neg hfraction]

theorem scanBody_body (negative : Bool) :
    scanBody negative ℓ.body = .ok ({ ℓ with negative }, []) := by
  unfold scanBody
  simp only [takeWhile_body, dropWhile_body, scanFraction_rest]
  rw [dif_pos ℓ.whole_first]
  simp only [bind, Except.bind, scanExponent_exponentChars]
  rfl

theorem scan_chars : scan ℓ.chars = .ok (ℓ, []) := by
  obtain ⟨c, cs, hbody, hc⟩ := ℓ.exists_body
  unfold chars
  cases hnegative : ℓ.negative with
  | true => exact (ℓ.scanBody_body true).trans (by rw [← hnegative])
  | false =>
    have hminus : c ≠ '-' := by
      rintro rfl
      cases hc
    have hscan : scan ℓ.body = scanBody false ℓ.body := by
      rw [hbody]
      unfold scan
      split
      · simp_all
      · rfl
    rw [if_neg Bool.false_ne_true, hscan, scanBody_body, ← hnegative]

end NumberLiteral

namespace JsonNumbers

open JsonText Json

variable (lib : JsonNumbers)

theorem readNumber_chars (ℓ : NumberLiteral) :
    lib.readNumber ℓ.chars = (lib.number ℓ).map (·, []) := by
  rw [readNumber, ℓ.scan_chars]
  simp only [bind, Except.bind]
  cases lib.number ℓ <;> rfl

theorem readValue_number {c : Char} {cs : List Char} (fuel depth : Nat)
    (hc : c = '-' ∨ isDigit c = true) : lib.readValue (fuel + 1) depth (c :: cs) =
      match lib.readNumber (c :: cs) with
      | .ok (n, rest) => (.number n, some rest)
      | .error f => (.fault f, none) := by
  have hother : ∀ {other : Char}, ¬(other = '-' ∨ isDigit other = true) → c ≠ other := by
    rintro other hother rfl
    exact hother hc
  have hblank : skipBlank (c :: cs) = c :: cs := by
    refine List.dropWhile_cons_of_neg ?_
    have h1 : c ≠ ' ' := hother (by decide)
    have h2 : c ≠ '\n' := hother (by decide)
    have h3 : c ≠ '\t' := hother (by decide)
    have h4 : c ≠ '\r' := hother (by decide)
    simp [JsonText.isBlank, h1, h2, h3, h4]
  unfold readValue
  rw [hblank]
  split <;> rename_i heq
  · cases heq
  iterate 6 exact absurd (List.cons.inj heq).1 (hother (by decide))
  · obtain ⟨rfl, rfl⟩ := List.cons.inj heq
    exact if_pos hc

/-- A literal as a text of its own. -/
theorem readText_scalar_text (ℓ : NumberLiteral) : lib.readText scalar ℓ.text =
    match lib.number ℓ with
    | .ok n => scalar (.number n)
    | .error f => .error (.fault f) := by
  obtain ⟨c, cs, hchars, hc⟩ : ∃ c cs, ℓ.chars = c :: cs ∧ (c = '-' ∨ isDigit c = true) := by
    obtain ⟨c, cs, hbody, hc⟩ := ℓ.exists_body
    unfold NumberLiteral.chars
    cases ℓ.negative
    · exact ⟨c, cs, hbody, .inr hc⟩
    · exact ⟨'-', _, rfl, .inl rfl⟩
  rw [readText, ofText, NumberLiteral.toList_text, hchars]
  simp only [lib.readValue_number _ _ hc]
  rw [← hchars, readNumber_chars]
  cases lib.number ℓ with
  | error f => rfl
  | ok n =>
    simp only [Except.map, skipBlank, List.dropWhile_nil, List.isEmpty_nil]
    cases scalar (.number n) <;> rfl

end JsonNumbers

end RuleMachine
