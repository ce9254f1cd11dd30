import Mathlib.Algebra.Order.Field.Power
import Mathlib.Tactic.NormNum
import RuleMachine.Proofs.Number.Digits
import RuleMachine.Proofs.Number.Single
import RuleMachine.Scalar
import RuleMachine.Source.Json.Literal

set_option autoImplicit false

namespace RuleMachine

namespace ExponentPart

variable (e : ExponentPart)

theorem letter_cases : (if e.capital then 'E' else 'e') = 'e' ∨
    (if e.capital then 'E' else 'e') = 'E' := by
  cases e.capital <;> simp

theorem exists_digit : ∃ c cs, e.digits = c :: cs ∧ isDigit c = true := by
  obtain ⟨c, cs, h⟩ := List.exists_cons_of_ne_nil e.digits_ne_nil
  exact ⟨c, cs, h, e.isDigit_of_mem c (h ▸ List.mem_cons_self)⟩

end ExponentPart

theorem splitSign_of_isDigit {c : Char} {cs : List Char} (h : isDigit c = true) :
    splitSign (c :: cs) = (false, c :: cs) := by
  have hminus : c ≠ '-' := by rintro rfl; exact absurd h (by decide)
  have hplus : c ≠ '+' := by rintro rfl; exact absurd h (by decide)
  unfold splitSign
  split <;> simp_all

theorem ExponentPart.splitSign_chars (e : ExponentPart) :
    splitSign (e.signChars ++ e.digits) = (e.minus, e.digits) := by
  obtain ⟨c, cs, hdigits, hc⟩ := e.exists_digit
  unfold signChars minus
  rcases e.minus? with _ | _ | _
  · rw [hdigits]
    exact splitSign_of_isDigit hc
  · rfl
  · rfl

namespace NumberLiteral

variable (ℓ : NumberLiteral)

def magnitude : ℚ := ℓ.significand * 10 ^ ℓ.power

variable {ℓ}

theorem magnitude_nonneg : 0 ≤ ℓ.magnitude :=
  mul_nonneg (Nat.cast_nonneg _) (by positivity)

theorem IsWhole.magnitude_eq (h : ℓ.IsWhole) : ℓ.magnitude = digitsValue ℓ.whole := by
  rw [magnitude, significand, power, exponentValue, h.1, h.2]
  simp

variable (ℓ)

theorem exists_digit : ∃ c cs, ℓ.whole = c :: cs ∧ isDigit c = true := by
  obtain ⟨c, cs, h⟩ : ∃ c cs, ℓ.whole = c :: cs := by
    rcases ℓ.whole_first with h | ⟨c, cs, h, -⟩
    · exact ⟨_, _, h⟩
    · exact ⟨c, cs, h⟩
  exact ⟨c, cs, h, ℓ.isDigit_of_mem_whole c (h ▸ List.mem_cons_self)⟩

theorem whole_ne_nil : ℓ.whole ≠ [] := by
  obtain ⟨c, cs, h, -⟩ := ℓ.exists_digit
  rw [h]
  exact List.cons_ne_nil _ _

theorem exists_body : ∃ c cs, ℓ.body = c :: cs ∧ isDigit c = true := by
  obtain ⟨c, cs, h, hc⟩ := ℓ.exists_digit
  exact ⟨c, _, by rw [body, h, List.cons_append], hc⟩

theorem splitSign_chars : splitSign ℓ.chars = (ℓ.negative, ℓ.body) := by
  obtain ⟨c, cs, hbody, hc⟩ := ℓ.exists_body
  unfold chars
  cases ℓ.negative
  · rw [hbody]
    exact splitSign_of_isDigit hc
  · rfl

variable {ℓ} in
theorem isWhole_iff : ℓ.IsWhole ↔ ℓ.fractionChars ++ ℓ.exponentChars = [] := by
  unfold IsWhole fractionChars exponentChars
  cases ℓ.exponent <;> by_cases h : ℓ.fraction = [] <;> simp [h, ExponentPart.chars]

theorem letter_of_exponentChars {c : Char} {cs : List Char} (h : ℓ.exponentChars = c :: cs) :
    c = 'e' ∨ c = 'E' := by
  unfold exponentChars at h
  cases hexponent : ℓ.exponent with
  | none =>
    rw [hexponent] at h
    cases h
  | some e =>
    rw [hexponent] at h
    obtain ⟨rfl, -⟩ := List.cons.inj h
    exact e.letter_cases

theorem isDigit_head_exponentChars : ∀ c ∈ ℓ.exponentChars.head?, isDigit c = false := by
  intro c hc
  obtain ⟨cs, h⟩ := List.head?_eq_some_iff.1 hc
  rcases ℓ.letter_of_exponentChars h with rfl | rfl <;> rfl

theorem isDigit_head_rest :
    ∀ c ∈ (ℓ.fractionChars ++ ℓ.exponentChars).head?, isDigit c = false := by
  unfold fractionChars
  split_ifs
  · exact ℓ.isDigit_head_exponentChars
  · simp
    decide

theorem takeWhile_body : ℓ.body.takeWhile isDigit = ℓ.whole :=
  takeWhile_digits ℓ.isDigit_of_mem_whole ℓ.isDigit_head_rest

theorem dropWhile_body : ℓ.body.dropWhile isDigit = ℓ.fractionChars ++ ℓ.exponentChars :=
  dropWhile_digits ℓ.isDigit_of_mem_whole ℓ.isDigit_head_rest

theorem takeWhile_fraction :
    (ℓ.fraction ++ ℓ.exponentChars).takeWhile isDigit = ℓ.fraction :=
  takeWhile_digits ℓ.isDigit_of_mem_fraction ℓ.isDigit_head_exponentChars

theorem dropWhile_fraction :
    (ℓ.fraction ++ ℓ.exponentChars).dropWhile isDigit = ℓ.exponentChars :=
  dropWhile_digits ℓ.isDigit_of_mem_fraction ℓ.isDigit_head_exponentChars

def exponentRead : Int :=
  match ℓ.exponent with
  | none => 0
  | some e =>
    if e.minus then -(RuleMachine.exponentValue e.digits : Int)
    else RuleMachine.exponentValue e.digits

theorem readExponent?_exponentChars : readExponent? ℓ.exponentChars = some ℓ.exponentRead := by
  unfold exponentChars exponentRead
  rcases ℓ.exponent with _ | e
  · rfl
  · have hall : e.digits.all isDigit = true := List.all_eq_true.2 e.isDigit_of_mem
    simp only [ExponentPart.chars, readExponent?, if_pos e.letter_cases, e.splitSign_chars]
    rw [if_pos ⟨e.digits_ne_nil, hall⟩]

theorem decimalLiteral_read : DecimalLiteral.read? ℓ.chars =
    some ⟨ℓ.negative, ℓ.whole ++ ℓ.fraction, ℓ.exponentRead - ℓ.fraction.length⟩ := by
  have hne : ℓ.whole ++ ℓ.fraction ≠ [] := by simp [ℓ.whole_ne_nil]
  unfold DecimalLiteral.read?
  rw [splitSign_chars]
  simp only [takeWhile_body, dropWhile_body]
  by_cases hfraction : ℓ.fraction = []
  · have hexponent := ℓ.readExponent?_exponentChars
    rw [hfraction] at hne ⊢
    rw [fractionChars, if_pos hfraction, List.nil_append]
    cases hrest : ℓ.exponentChars with
    | nil =>
      rw [hrest] at hexponent
      simp only [if_neg hne, hexponent]
      rfl
    | cons c rest =>
      rw [hrest] at hexponent
      have hc : c ≠ '.' := by
        rcases ℓ.letter_of_exponentChars hrest with rfl | rfl <;> decide
      split
      · simp_all
      · simp only [if_neg hne, hexponent]
        rfl
  · rw [fractionChars, if_neg hfraction, List.cons_append]
    simp only [takeWhile_fraction, dropWhile_fraction, if_neg hne, readExponent?_exponentChars]
    rfl

def ReadExactly : Prop := ∀ e, ℓ.exponent = some e → digitsValue e.digits < 65536

end NumberLiteral

theorem exponentValue_eq {cs : List Char} (h : digitsValue cs < 65536) :
    exponentValue cs = digitsValue cs := by
  induction cs using List.reverseRec with
  | nil => rfl
  | append_singleton front c ih =>
    have hread : exponentValue (front ++ [c]) =
        if exponentValue front < 65536 then 10 * exponentValue front + digitValue c
        else exponentValue front := List.foldl_append
    have hvalue : digitsValue (front ++ [c]) = 10 * digitsValue front + digitValue c :=
      List.foldl_append
    rw [hvalue] at h ⊢
    rw [hread, ih (by omega), if_pos (by omega)]

namespace BinaryFormat

variable {F : BinaryFormat} [Fact (0 < F.fractionBits)]

/-- Rounding a decimal rounds its number; powers of ten that are not computed are out of range. -/
theorem roundDecimal_eq_nearest {significand digits : Nat} (exponent : Int)
    (hsignificand : significand < 10 ^ digits) (hrange : F.value F.infinity ≤ 10 ^ F.scale) :
    F.roundDecimal significand digits exponent = F.nearest (significand * 10 ^ exponent) := by
  have hv : (0 : ℚ) ≤ significand * 10 ^ exponent := by positivity
  unfold roundDecimal
  split_ifs with hzero hlarge hsmall hnonneg
  · rw [hzero, Nat.cast_zero, zero_mul, nearest_zero]
  · have hone : (1 : ℚ) ≤ significand := by exact_mod_cast Nat.one_le_iff_ne_zero.2 hzero
    have hle : F.value F.infinity ≤ significand * 10 ^ exponent :=
      calc F.value F.infinity ≤ 10 ^ (F.scale : Int) := by exact_mod_cast hrange
        _ ≤ 10 ^ exponent := zpow_le_zpow_right₀ (by norm_num) hlarge.le
        _ ≤ significand * 10 ^ exponent := le_mul_of_one_le_left (by positivity) hone
    exact (nearest_eq_infinity hle).symm
  · have hlt : (significand : ℚ) < 10 ^ (digits : Int) := by exact_mod_cast hsignificand
    have htiny : (significand : ℚ) * 10 ^ exponent < F.boundary 0 :=
      calc (significand : ℚ) * 10 ^ exponent < 10 ^ (digits : Int) * 10 ^ exponent :=
            mul_lt_mul_of_pos_right hlt (by positivity)
        _ = 10 ^ ((digits : Int) + exponent) := (zpow_add₀ (by norm_num) _ _).symm
        _ ≤ 10 ^ (-(F.scale + 1 : ℕ) : Int) := zpow_le_zpow_right₀ (by norm_num) (by omega)
        _ = 1 / 10 ^ (F.scale + 1) := by rw [zpow_neg, zpow_natCast, one_div]
        _ ≤ 1 / 2 ^ (F.scale + 1) :=
            one_div_le_one_div_of_le (by positivity)
              (pow_le_pow_left₀ (by norm_num) (by norm_num) _)
        _ = F.boundary 0 := F.boundary_zero.symm
    exact (nearest_eq_zero hv htiny).symm
  · obtain ⟨n, rfl⟩ := Int.eq_ofNat_of_zero_le hnonneg
    rw [round_over_one]
    simp
  · obtain ⟨n, hn⟩ : ∃ n : Nat, exponent = -n := ⟨(-exponent).toNat, by omega⟩
    rw [hn, neg_neg, Int.toNat_natCast, Nat.pow_eq, round_eq_nearest (by positivity), zpow_neg,
      zpow_natCast, div_eq_mul_inv]
    push_cast
    rfl

theorem value_infinity_single : single.value single.infinity = 2 ^ 128 := by
  have hunits : single.units single.infinity = 2 ^ 128 * 2 ^ single.scale := by decide
  rw [value_of_units hunits]
  norm_num

end BinaryFormat

open BinaryFormat

theorem readPattern?_of_isDigit {F : BinaryFormat} {cs body : List Char} {negative : Bool}
    {c : Char} {rest : List Char} (hsplit : splitSign cs = (negative, body))
    (hbody : body = c :: rest) (hc : isDigit c = true) : readPattern? F cs =
      (DecimalLiteral.read? cs).map fun d => (d.negative, d.pattern F) := by
  have hlower : c.toLower = c := by
    rw [isDigit_eq, Char.isDigit, Bool.and_eq_true, decide_eq_true_eq, decide_eq_true_eq] at hc
    unfold Char.toLower
    rw [dif_neg]
    rintro ⟨h, -⟩
    exact absurd (UInt32.le_trans h hc.2) (by decide)
  have hname : ∀ {first : Char} {more : List Char}, isDigit first = false →
      String.ofList (lowerAscii body) ≠ String.ofList (first :: more) := by
    intro first more hfirst h
    rw [String.ofList_inj, hbody, lowerAscii, List.map_cons, hlower] at h
    obtain ⟨rfl, -⟩ := List.cons.inj h
    rw [hc] at hfirst
    cases hfirst
  unfold readPattern?
  rw [hsplit]
  simp only
  rw [if_neg, if_neg]
  · exact hname (by decide)
  · rintro (h | h)
    · exact hname (by decide) h
    · exact hname (by decide) h

namespace NumberLiteral

variable {ℓ : NumberLiteral}

/-- Read as a bare text, a literal is the nearest float. -/
theorem single_read (h : ℓ.ReadExactly) :
    Single.read? ℓ.chars = some (.ofPattern ℓ.negative (single.nearest ℓ.magnitude)) := by
  obtain ⟨c, rest, hbody, hc⟩ := ℓ.exists_body
  have hpower : ℓ.exponentRead = ℓ.exponentValue := by
    unfold exponentRead exponentValue
    cases hexponent : ℓ.exponent with
    | none => rfl
    | some e =>
      simp only [ExponentPart.value]
      rw [exponentValue_eq (h e hexponent)]
  have hdigits : digitsValue (ℓ.whole ++ ℓ.fraction) < 10 ^ (ℓ.whole ++ ℓ.fraction).length :=
    digitsValue_lt (List.forall_mem_append.2 ⟨ℓ.isDigit_of_mem_whole, ℓ.isDigit_of_mem_fraction⟩)
  have hrange : single.value single.infinity ≤ 10 ^ single.scale := by
    rw [value_infinity_single, scale_single]
    norm_num
  rw [Single.read?, readPattern?_of_isDigit ℓ.splitSign_chars hbody hc, decimalLiteral_read,
    Option.map_some, Option.map_some, DecimalLiteral.pattern,
    roundDecimal_eq_nearest _ hdigits hrange, hpower]
  rfl

theorem readInteger?_chars :
    readInteger? ℓ.chars = if ℓ.IsWhole then some ℓ.integer else none := by
  unfold readInteger?
  rw [splitSign_chars]
  simp only
  by_cases hwhole : ℓ.IsWhole
  · have hbody : ℓ.body = ℓ.whole := by rw [body, isWhole_iff.1 hwhole, List.append_nil]
    rw [if_pos hwhole, hbody, if_pos ⟨ℓ.whole_ne_nil, List.all_eq_true.2 ℓ.isDigit_of_mem_whole⟩]
    rfl
  · rw [if_neg hwhole, if_neg]
    rintro ⟨-, hall⟩
    rw [body, List.all_append, Bool.and_eq_true] at hall
    -- what follows the first digits is not empty and starts with a point or a letter
    cases hrest : ℓ.fractionChars ++ ℓ.exponentChars with
    | nil => exact hwhole (isWhole_iff.2 hrest)
    | cons c rest =>
      have hc := ℓ.isDigit_head_rest c (by rw [hrest]; rfl)
      rw [hrest, List.all_cons, hc] at hall
      exact absurd hall.2 (by simp)

theorem text_ne {c : Char} {cs : List Char} (hdigit : isDigit c = false) (hminus : c ≠ '-') :
    ℓ.text ≠ String.ofList (c :: cs) := by
  intro h
  obtain ⟨first, rest, hbody, hfirst⟩ := ℓ.exists_body
  rw [text, String.ofList_inj, chars] at h
  cases hneg : ℓ.negative with
  | true =>
    rw [hneg, if_pos rfl] at h
    exact hminus (List.cons.inj h).1.symm
  | false =>
    rw [hneg, if_neg (by simp), hbody] at h
    rw [← (List.cons.inj h).1, hfirst] at hdigit
    cases hdigit

theorem toList_text : ℓ.text.toList = ℓ.chars := String.toList_ofList

end NumberLiteral

/-- A literal as a bare text is a number, and its float is the one nearest to the literal. -/
theorem Scalar.ofLiteralBy_text {parse : List Char → Option Single} {ℓ : NumberLiteral}
    (hread : parse ℓ.chars = some (.ofPattern ℓ.negative (single.nearest ℓ.magnitude))) :
    ∃ y, (ofLiteralBy parse ℓ.text).asSingle? = some y ∧ y.isNaN = false ∧
      y.value = (Single.ofPattern ℓ.negative (single.nearest ℓ.magnitude)).value := by
  have hfloat : ∃ y, (Scalar.float (.ofPattern ℓ.negative
        (single.nearest ℓ.magnitude))).asSingle? = some y ∧ y.isNaN = false ∧
      y.value = (Single.ofPattern ℓ.negative (single.nearest ℓ.magnitude)).value :=
    ⟨_, rfl, Single.isNaN_ofPattern (nearest_le_infinity _ _), rfl⟩
  have htrue : ℓ.text ≠ "true" := NumberLiteral.text_ne (by decide) (by decide)
  have hfalse : ℓ.text ≠ "false" := NumberLiteral.text_ne (by decide) (by decide)
  rw [ofLiteralBy, if_neg htrue, if_neg hfalse, NumberLiteral.toList_text, hread,
    NumberLiteral.readInteger?_chars]
  by_cases hwhole : ℓ.IsWhole
  · rw [if_pos hwhole]
    simp only
    split_ifs with hrange
    · refine ⟨_, rfl, Single.isNaN_ofInt _, ?_⟩
      rw [Int32.toInt_ofInt_of_le (by omega) (by omega), NumberLiteral.integer,
        Single.value_ofInt_signed, hwhole.magnitude_eq]
    · exact hfloat
  · rw [if_neg hwhole]
    exact hfloat

end RuleMachine
