import RuleMachine.Proofs.Number.Literal
import RuleMachine.Proofs.Number.Shortest

set_option autoImplicit false

namespace RuleMachine

open BinaryFormat

namespace Decimal

variable {d : Decimal} (negative : Bool)

theorem isDigit_of_mem_digits : ∀ c ∈ d.digits, isDigit c = true := fun _ =>
  isDigit_of_mem_toDigits

theorem digitsValue_digits (d : Decimal) : digitsValue d.digits = d.significand :=
  digitsValue_toDigits _

theorem length_digits_pos (d : Decimal) : 0 < d.digits.length := Nat.length_toDigits_pos

def wholeLiteral (h : d.significand = 0 → d.exponent = 0) (marked : Bool) : NumberLiteral where
  negative := negative
  whole := d.digits ++ List.replicate d.exponent.toNat '0'
  fraction := if marked then ['0'] else []
  exponent := none
  whole_first := by
    by_cases h0 : d.significand = 0
    · rw [h h0, digits, h0]
      exact .inl rfl
    · obtain ⟨c, cs, hdigits, hc⟩ := exists_first_digit h0
      exact .inr ⟨c, _, by rw [digits, hdigits, List.cons_append], hc⟩
  isDigit_of_mem_whole := List.forall_mem_append.2
    ⟨isDigit_of_mem_digits, fun _ => isDigit_of_mem_replicate_zero⟩
  isDigit_of_mem_fraction := by cases marked <;> simp; rfl

theorem significand_wholeLiteral (h : d.significand = 0 → d.exponent = 0) (marked : Bool) :
    (d.wholeLiteral negative h marked).significand =
      d.significand * 10 ^ (d.exponent.toNat + if marked then 1 else 0) := by
  have hzeros : d.digits ++ List.replicate d.exponent.toNat '0' ++ (if marked then ['0'] else []) =
      d.digits ++ List.replicate (d.exponent.toNat + if marked then 1 else 0) '0' := by
    rw [List.append_assoc, List.replicate_add]
    cases marked <;> rfl
  rw [NumberLiteral.significand, wholeLiteral, hzeros, digitsValue_append, digitsValue_digits,
    digitsValue_replicate_zero, List.length_replicate, Nat.add_zero]

theorem power_wholeLiteral (h : d.significand = 0 → d.exponent = 0) (marked : Bool) :
    (d.wholeLiteral negative h marked).power = if marked then -1 else 0 := by
  cases marked <;> rfl

theorem body_wholeLiteral (h : d.significand = 0 → d.exponent = 0) (marked : Bool) :
    (d.wholeLiteral negative h marked).body =
      d.digits ++ List.replicate d.exponent.toNat '0' ++ (if marked then ['.', '0'] else []) := by
  cases marked <;> simp [NumberLiteral.body, NumberLiteral.fractionChars,
    NumberLiteral.exponentChars, wholeLiteral]

def splitLiteral (h : d.significand ≠ 0) : NumberLiteral where
  negative := negative
  whole := d.digits.take (d.leadingExponent.toNat + 1)
  fraction := d.digits.drop (d.leadingExponent.toNat + 1)
  exponent := none
  whole_first := by
    obtain ⟨c, cs, hdigits, hc⟩ := exists_first_digit h
    exact .inr ⟨c, _, by rw [digits, hdigits, List.take_succ_cons], hc⟩
  isDigit_of_mem_whole := fun c hc => isDigit_of_mem_digits c (List.mem_of_mem_take hc)
  isDigit_of_mem_fraction := fun c hc => isDigit_of_mem_digits c (List.mem_of_mem_drop hc)

theorem significand_splitLiteral (h : d.significand ≠ 0) :
    (d.splitLiteral negative h).significand = d.significand := by
  rw [NumberLiteral.significand, splitLiteral, List.take_append_drop, digitsValue_digits]

theorem length_fraction_splitLiteral (h : d.significand ≠ 0) (hexponent : d.exponent < 0)
    (hlead : 0 ≤ d.leadingExponent) :
    ((d.splitLiteral negative h).fraction.length : Int) = -d.exponent := by
  rw [splitLiteral, List.length_drop]
  unfold leadingExponent at *
  omega

theorem power_splitLiteral (h : d.significand ≠ 0) (hexponent : d.exponent < 0)
    (hlead : 0 ≤ d.leadingExponent) : (d.splitLiteral negative h).power = d.exponent := by
  rw [NumberLiteral.power, length_fraction_splitLiteral negative h hexponent hlead]
  simp [NumberLiteral.exponentValue, splitLiteral]

theorem body_splitLiteral (h : d.significand ≠ 0)
    (hfraction : (d.splitLiteral negative h).fraction ≠ []) :
    (d.splitLiteral negative h).body = d.digits.take (d.leadingExponent.toNat + 1) ++
      '.' :: d.digits.drop (d.leadingExponent.toNat + 1) := by
  rw [NumberLiteral.body, NumberLiteral.fractionChars, if_neg hfraction]
  simp [NumberLiteral.exponentChars, splitLiteral]

def smallLiteral (d : Decimal) : NumberLiteral where
  negative := negative
  whole := ['0']
  fraction := List.replicate (-d.leadingExponent - 1).toNat '0' ++ d.digits
  exponent := none
  whole_first := .inl rfl
  isDigit_of_mem_whole := by simp; rfl
  isDigit_of_mem_fraction := List.forall_mem_append.2
    ⟨fun _ => isDigit_of_mem_replicate_zero, isDigit_of_mem_digits⟩

theorem significand_smallLiteral (d : Decimal) :
    (d.smallLiteral negative).significand = d.significand := by
  have hzero : digitsValue ['0'] = 0 := rfl
  rw [NumberLiteral.significand, smallLiteral, ← List.append_assoc, digitsValue_append,
    digitsValue_append, hzero, digitsValue_replicate_zero, digitsValue_digits]
  simp

theorem length_fraction_smallLiteral (hlead : d.leadingExponent < 0) :
    ((d.smallLiteral negative).fraction.length : Int) = -d.exponent := by
  rw [smallLiteral, List.length_append, List.length_replicate]
  unfold leadingExponent at *
  omega

theorem power_smallLiteral (hlead : d.leadingExponent < 0) :
    (d.smallLiteral negative).power = d.exponent := by
  rw [NumberLiteral.power, length_fraction_smallLiteral negative hlead]
  simp [NumberLiteral.exponentValue, smallLiteral]

theorem body_smallLiteral (hfraction : (d.smallLiteral negative).fraction ≠ []) :
    (d.smallLiteral negative).body =
      '0' :: '.' :: List.replicate (-d.leadingExponent - 1).toNat '0' ++ d.digits := by
  rw [NumberLiteral.body, NumberLiteral.fractionChars, if_neg hfraction]
  simp [NumberLiteral.exponentChars, smallLiteral]

def scientificLiteral (h : d.significand ≠ 0) : NumberLiteral where
  negative := negative
  whole := d.digits.take 1
  fraction := d.digits.drop 1
  exponent := some
    { capital := false
      minus? := some (d.leadingExponent < 0)
      digits := Nat.toDigits 10 d.leadingExponent.natAbs
      digits_ne_nil := Nat.toDigits_ne_nil
      isDigit_of_mem := fun _ => isDigit_of_mem_toDigits }
  whole_first := by
    obtain ⟨c, cs, hdigits, hc⟩ := exists_first_digit h
    exact .inr ⟨c, _, by rw [digits, hdigits, List.take_succ_cons], hc⟩
  isDigit_of_mem_whole := fun c hc => isDigit_of_mem_digits c (List.mem_of_mem_take hc)
  isDigit_of_mem_fraction := fun c hc => isDigit_of_mem_digits c (List.mem_of_mem_drop hc)

theorem significand_scientificLiteral (h : d.significand ≠ 0) :
    (d.scientificLiteral negative h).significand = d.significand := by
  rw [NumberLiteral.significand, scientificLiteral, List.take_append_drop, digitsValue_digits]

theorem power_scientificLiteral (h : d.significand ≠ 0) :
    (d.scientificLiteral negative h).power = d.exponent := by
  have hlength := d.length_digits_pos
  have hsign : (if d.leadingExponent < 0 then -(d.leadingExponent.natAbs : Int)
      else d.leadingExponent.natAbs) = d.leadingExponent := by split_ifs <;> omega
  rw [NumberLiteral.power, NumberLiteral.exponentValue, scientificLiteral]
  simp only [ExponentPart.value, ExponentPart.minus, Option.getD_some, digitsValue_toDigits,
    decide_eq_true_eq, hsign, List.length_drop]
  unfold leadingExponent
  omega

theorem body_scientificLiteral (h : d.significand ≠ 0) :
    String.ofList (d.scientificLiteral negative h).body = NumberStyle.scientific d := by
  obtain ⟨c, cs, hdigits, -⟩ := exists_first_digit h
  have hdigits : d.digits = c :: cs := hdigits
  unfold NumberStyle.scientific NumberLiteral.body NumberLiteral.fractionChars
    NumberLiteral.exponentChars scientificLiteral
  simp only [hdigits, ExponentPart.chars, ExponentPart.signChars]
  cases cs <;> simp

end Decimal

namespace NumberStyle

variable {style : NumberStyle} {d : Decimal}

def parts (style : NumberStyle) (d : Decimal) : Nat × Int :=
  if d.significand = 0 ∨ style.isPositional d = true then
    if 0 ≤ d.exponent then
      if style.wholeEnd = "" then (d.significand * 10 ^ d.exponent.toNat, 0)
      else (d.significand * 10 ^ (d.exponent.toNat + 1), -1)
    else (d.significand, d.exponent)
  else (d.significand, d.exponent)

/-- A literal is what a style writes for a decimal. It has an exponent only where the style asks for
one, and is whole only if the style does not mark whole numbers. -/
structure Writes (style : NumberStyle) (d : Decimal) (ℓ : NumberLiteral) : Prop where
  body : String.ofList ℓ.body = style.magnitude d
  parts : (ℓ.significand, ℓ.power) = style.parts d
  exponent : ∀ e, ℓ.exponent = some e →
    style.isPositional d = false ∧ digitsValue e.digits = d.leadingExponent.natAbs
  whole : ℓ.IsWhole → style.wholeEnd = ""

theorem magnitude_of_positional (h : d.significand = 0 ∨ style.isPositional d = true) :
    style.magnitude d = style.positional d :=
  if_pos (by simpa using h)

theorem magnitude_of_not_positional (h : ¬(d.significand = 0 ∨ style.isPositional d = true)) :
    style.magnitude d = scientific d :=
  if_neg (by simpa using h)

theorem writes_wholeLiteral (hend : style.wholeEnd = "" ∨ style.wholeEnd = ".0")
    (hpositional : d.significand = 0 ∨ style.isPositional d = true)
    (hd : d.significand = 0 → d.exponent = 0) (hexponent : 0 ≤ d.exponent) (negative : Bool) :
    style.Writes d (d.wholeLiteral negative hd (style.wholeEnd = ".0")) where
  body := by
    rw [magnitude_of_positional hpositional, positional, if_pos hexponent,
      Decimal.body_wholeLiteral]
    rcases hend with hend | hend <;> simp [hend, String.append_assoc]
  parts := by
    rw [Decimal.significand_wholeLiteral, Decimal.power_wholeLiteral, parts, if_pos hpositional,
      if_pos hexponent]
    rcases hend with hend | hend <;> simp [hend]
  exponent := by
    rintro e ⟨⟩
  whole := by
    rintro ⟨hfraction, -⟩
    rcases hend with hend | hend
    · exact hend
    · simp [Decimal.wholeLiteral, hend] at hfraction

theorem writes_splitLiteral (hpositional : d.significand = 0 ∨ style.isPositional d = true)
    (hd : d.significand ≠ 0) (hexponent : d.exponent < 0) (hlead : 0 ≤ d.leadingExponent)
    (negative : Bool) : style.Writes d (d.splitLiteral negative hd) := by
  have hlength := Decimal.length_fraction_splitLiteral negative hd hexponent hlead
  have hfraction : (d.splitLiteral negative hd).fraction ≠ [] := by
    rw [← List.length_pos_iff_ne_nil]
    omega
  exact {
    body := by
      rw [magnitude_of_positional hpositional, positional, if_neg hexponent.not_ge, if_pos hlead,
        Decimal.body_splitLiteral negative hd hfraction]
    parts := by
      rw [Decimal.significand_splitLiteral, Decimal.power_splitLiteral negative hd hexponent hlead,
        parts, if_pos hpositional, if_neg hexponent.not_ge]
    exponent := by
      rintro e ⟨⟩
    whole := fun h => absurd h.1 hfraction }

theorem writes_smallLiteral (hpositional : d.significand = 0 ∨ style.isPositional d = true)
    (hexponent : d.exponent < 0) (hlead : d.leadingExponent < 0) (negative : Bool) :
    style.Writes d (d.smallLiteral negative) := by
  have hlength := Decimal.length_fraction_smallLiteral negative hlead
  have hfraction : (d.smallLiteral negative).fraction ≠ [] := by
    rw [← List.length_pos_iff_ne_nil]
    omega
  exact {
    body := by
      rw [magnitude_of_positional hpositional, positional, if_neg hexponent.not_ge,
        if_neg hlead.not_ge, Decimal.body_smallLiteral negative hfraction]
    parts := by
      rw [Decimal.significand_smallLiteral, Decimal.power_smallLiteral negative hlead, parts,
        if_pos hpositional, if_neg hexponent.not_ge]
    exponent := by
      rintro e ⟨⟩
    whole := fun h => absurd h.1 hfraction }

theorem writes_scientificLiteral
    (hpositional : ¬(d.significand = 0 ∨ style.isPositional d = true)) (hd : d.significand ≠ 0)
    (negative : Bool) : style.Writes d (d.scientificLiteral negative hd) where
  body := by
    rw [magnitude_of_not_positional hpositional, Decimal.body_scientificLiteral negative hd]
  parts := by
    rw [Decimal.significand_scientificLiteral, Decimal.power_scientificLiteral, parts,
      if_neg hpositional]
  exponent := by
    rintro e ⟨⟩
    exact ⟨Bool.eq_false_of_not_eq_true (not_or.1 hpositional).2, digitsValue_toDigits _⟩
  whole := by
    rintro ⟨-, hnone⟩
    cases hnone

theorem exists_literal (hend : style.wholeEnd = "" ∨ style.wholeEnd = ".0")
    (hd : d.significand = 0 → d.exponent = 0) (negative : Bool) :
    ∃ ℓ : NumberLiteral, ℓ.negative = negative ∧ style.Writes d ℓ := by
  by_cases hpositional : d.significand = 0 ∨ style.isPositional d = true
  · by_cases hexponent : 0 ≤ d.exponent
    · exact ⟨_, rfl, writes_wholeLiteral hend hpositional hd hexponent negative⟩
    · have hne : d.significand ≠ 0 := fun h0 => hexponent (by rw [hd h0])
      have hnegative := Int.not_le.1 hexponent
      by_cases hlead : 0 ≤ d.leadingExponent
      · exact ⟨_, rfl, writes_splitLiteral hpositional hne hnegative hlead negative⟩
      · exact ⟨_, rfl, writes_smallLiteral hpositional hnegative (Int.not_le.1 hlead) negative⟩
  · exact ⟨_, rfl, writes_scientificLiteral hpositional (not_or.1 hpositional).1 negative⟩

theorem parts_value (style : NumberStyle) (d : Decimal) :
    ((style.parts d).1 : ℚ) * 10 ^ (style.parts d).2 = d.value := by
  have hten : ∀ n : Nat, (10 : ℚ) ^ (n + 1) * 10 ^ (-1 : Int) = 10 ^ n := fun n => by
    rw [pow_succ, zpow_neg_one, mul_assoc, mul_inv_cancel₀ (by norm_num), mul_one]
  unfold parts
  split_ifs with hpositional hexponent hend
  · obtain ⟨n, hn⟩ := Int.eq_ofNat_of_zero_le hexponent
    simp [Decimal.value, hn]
  · obtain ⟨n, hn⟩ := Int.eq_ofNat_of_zero_le hexponent
    rw [Decimal.value, hn, Int.toNat_natCast]
    push_cast
    rw [mul_assoc, hten, zpow_natCast]
  · rfl
  · rfl

namespace Writes

variable {ℓ : NumberLiteral} (h : style.Writes d ℓ)
include h

theorem significand : ℓ.significand = (style.parts d).1 := congrArg Prod.fst h.parts

theorem power : ℓ.power = (style.parts d).2 := congrArg Prod.snd h.parts

theorem magnitude : ℓ.magnitude = d.value := by
  rw [NumberLiteral.magnitude, h.significand, h.power, parts_value]

end Writes

end NumberStyle

/-- A finite number is written as a literal that stands for its shortest decimal, and that rounds
to the number. -/
theorem Single.exists_literal (style : NumberStyle) {x : Single} (hx : x.isFinite = true)
    (hend : style.wholeEnd = "" ∨ style.wholeEnd = ".0") : ∃ ℓ : NumberLiteral,
      ℓ.text = x.write style ∧ ℓ.negative = x.isNegative ∧
      single.nearest ℓ.magnitude = x.pattern ∧
      style.Writes (single.shortest style.tie x.pattern) ℓ := by
  have hlt : x.pattern < single.infinity := of_decide_eq_true hx
  have hzero : (single.shortest style.tie x.pattern).significand = 0 →
      (single.shortest style.tie x.pattern).exponent = 0 := by
    intro h
    rcases Nat.eq_zero_or_pos x.pattern with h0 | hpos
    · rw [h0]
      rfl
    · exact absurd h (significand_shortest_ne_zero _ hpos)
  obtain ⟨ℓ, hnegative, hwrites⟩ := NumberStyle.exists_literal hend hzero x.isNegative
  refine ⟨ℓ, ?_, hnegative, ?_, hwrites⟩
  · rw [write, NumberStyle.write, if_neg hlt.le.not_gt, if_neg hlt.ne, ← hwrites.body, ← hnegative,
      NumberLiteral.text, NumberLiteral.chars]
    cases ℓ.negative with
    | true => exact String.ofList_cons
    | false => rfl
  · rw [hwrites.magnitude]
    exact nearest_shortest _ hlt.le

namespace NumberLiteral

def ofInt (n : Int) : NumberLiteral where
  negative := n < 0
  whole := Nat.toDigits 10 n.natAbs
  fraction := []
  exponent := none
  whole_first := by
    by_cases h0 : n.natAbs = 0
    · exact .inl (by rw [h0]; rfl)
    · exact .inr (exists_first_digit h0)
  isDigit_of_mem_whole := fun _ => isDigit_of_mem_toDigits
  isDigit_of_mem_fraction := isDigit_of_mem_nil

theorem isWhole_ofInt (n : Int) : (ofInt n).IsWhole := ⟨rfl, rfl⟩

theorem text_ofInt (n : Int) : (ofInt n).text = toString n := by
  have hbody : (ofInt n).body = n.natAbs.repr.toList := by
    rw [Nat.toList_repr]
    exact List.append_nil _
  rw [text, chars, hbody]
  cases n with
  | ofNat m => exact String.ofList_toList
  | negSucc m =>
    have hnegative : (ofInt (.negSucc m)).negative = true := decide_eq_true (Int.negSucc_lt_zero m)
    rw [hnegative, if_pos rfl, String.ofList_cons, String.ofList_toList]
    rfl

@[simp] theorem integer_ofInt (n : Int) : (ofInt n).integer = n := by
  change (if decide (n < 0) then -(digitsValue (Nat.toDigits 10 n.natAbs) : Int) else
    digitsValue (Nat.toDigits 10 n.natAbs)) = n
  rw [digitsValue_toDigits]
  by_cases h : n < 0
  · rw [if_pos (decide_eq_true h)]
    omega
  · rw [if_neg (by simpa using h)]
    omega

end NumberLiteral

namespace Scalar

/-- A displayed number or truth value is read as a value that is equal to it: the same whole number,
the same truth value, and of a float a number with the same value. -/
theorem ofLiteral_display :
    (∀ n, ofLiteral (Scalar.int n).display = .int n) ∧
    (∀ b, ofLiteral (Scalar.bool b).display = .bool b) ∧
    ∀ x : Single, x.isNaN = false →
      ∃ y, (ofLiteral (Scalar.float x).display).asSingle? = some y ∧ y.same x = true := by
  refine ⟨fun n => ?_, fun b => ?_, fun x hx => ?_⟩
  · have htrue : (NumberLiteral.ofInt n.toInt).text ≠ "true" :=
      NumberLiteral.text_ne (by decide) (by decide)
    have hfalse : (NumberLiteral.ofInt n.toInt).text ≠ "false" :=
      NumberLiteral.text_ne (by decide) (by decide)
    have hn := n.toInt_lt
    have hn' := n.le_toInt
    rw [display, ← NumberLiteral.text_ofInt, ofLiteral, ofLiteralBy, if_neg htrue, if_neg hfalse,
      NumberLiteral.toList_text, NumberLiteral.readInteger?_chars,
      if_pos (NumberLiteral.isWhole_ofInt _), NumberLiteral.integer_ofInt]
    simp only
    rw [if_pos (by omega), Int32.ofInt_toInt]
  · cases b <;> rfl
  · rcases (Single.pattern_le hx).lt_or_eq with hlt | heq
    · obtain ⟨ℓ, htext, hnegative, hnearest, hwrites⟩ :=
        Single.exists_literal .plain (decide_eq_true hlt) (.inl rfl)
      have hread : ℓ.ReadExactly := fun e he => by cases (hwrites.exponent e he).1
      obtain ⟨y, hy, hynan, hvalue⟩ := ofLiteralBy_text (NumberLiteral.single_read hread)
      rw [hnegative, hnearest, Single.ofPattern_pattern] at hvalue
      refine ⟨y, ?_, (Single.same_iff hynan hx).2 hvalue⟩
      rw [display, ← htext, ofLiteral, hy]
    · have hx' := x.ofPattern_pattern
      rw [heq] at hx'
      rw [← hx']
      cases x.isNegative with
      | false => exact ⟨.ofPattern false single.infinity, by decide, by decide⟩
      | true => exact ⟨.ofPattern true single.infinity, by decide, by decide⟩

theorem ofLiteral_display_large :
    (Scalar.float ⟨0x4f000000⟩).display = "2147483600" ∧
    ofLiteral "2147483600" = .int 2147483600 ∧
    ∃ y, (ofLiteral (Scalar.float ⟨0x4f000000⟩).display).asSingle? = some y ∧
      y.same ⟨0x4f000000⟩ = true :=
  ⟨by decide +kernel, by decide +kernel, ofLiteral_display.2.2 ⟨0x4f000000⟩ (by decide)⟩

end Scalar

end RuleMachine
