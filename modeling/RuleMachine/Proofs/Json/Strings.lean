import Mathlib.Tactic.SplitIfs
import RuleMachine.Source.Json.Tree
import RuleMachine.Source.Json.Written

set_option autoImplicit false

namespace RuleMachine

namespace JsonText

variable {c e : Char} {done rest : List Char}

theorem jsonChar_cases (c : Char) :
    (∃ e, jsonChar c = ['\\', e] ∧ escapedChar? e = some c) ∨
    c < ' ' ∧ jsonChar c = "\\u00".toList ++ (hexByte (.ofNat c.toNat)).toList ∨
    (c ≠ '"' ∧ c ≠ '\\' ∧ ¬c < ' ') ∧ jsonChar c = [c] := by
  unfold jsonChar
  split_ifs with h1 h2 h3 h4 h5 h6 h7 h8
  · exact .inl ⟨'"', rfl, by rw [h1]; rfl⟩
  · exact .inl ⟨'\\', rfl, by rw [h2]; rfl⟩
  · exact .inl ⟨'b', rfl, by rw [h3]; rfl⟩
  · exact .inl ⟨'t', rfl, by rw [h4]; rfl⟩
  · exact .inl ⟨'n', rfl, by rw [h5]; rfl⟩
  · exact .inl ⟨'f', rfl, by rw [h6]; rfl⟩
  · exact .inl ⟨'r', rfl, by rw [h7]; rfl⟩
  · exact .inr (.inl ⟨h8, rfl⟩)
  · exact .inr (.inr ⟨⟨h1, h2, h8⟩, rfl⟩)

theorem readString_escape (h : escapedChar? e = some c) :
    readString done ('\\' :: e :: rest) = readString (c :: done) rest := by
  have hu : e ≠ 'u' := by
    rintro rfl
    cases h
  simp [readString, h, hu]

theorem readString_self (hquote : c ≠ '"') (hbackslash : c ≠ '\\') (hcontrol : ¬c < ' ') :
    readString done (c :: rest) = readString (c :: done) rest := by
  simp [readString, hbackslash, hcontrol]

theorem readString_control (h : c < ' ') :
    readString done ("\\u00".toList ++ (hexByte (.ofNat c.toNat)).toList ++ rest) =
      readString (c :: done) rest := by
  have hall : ∀ n < 32, hexValue4? '0' '0' (Nat.digitChar ((UInt8.ofNat n).toNat / 16))
      (Nat.digitChar ((UInt8.ofNat n).toNat % 16)) = some n := by decide
  have hsmall : c.toNat < 32 := h
  have hdigits : (hexByte (.ofNat c.toNat)).toList =
      [Nat.digitChar ((UInt8.ofNat c.toNat).toNat / 16),
        Nat.digitChar ((UInt8.ofNat c.toNat).toNat % 16)] := String.toList_ofList
  have hstart : "\\u00".toList = ['\\', 'u', '0', '0'] := rfl
  rw [hdigits, hstart]
  simp only [List.cons_append, List.nil_append]
  rw [readString, hall _ hsmall]
  simp only
  rw [if_neg (by omega), if_neg (by omega), Char.ofNat_toNat]

theorem readString_jsonChar (c : Char) :
    readString done (jsonChar c ++ rest) = readString (c :: done) rest := by
  rcases jsonChar_cases c with ⟨e, hwritten, he⟩ | ⟨hcontrol, hwritten⟩ | ⟨⟨h1, h2, h3⟩, hwritten⟩
  · rw [hwritten]
    exact readString_escape he
  · rw [hwritten]
    exact readString_control hcontrol
  · rw [hwritten]
    exact readString_self h1 h2 h3

/-- A written string is read to its end. -/
theorem readString_flatMap (done cs rest : List Char) :
    readString done (cs.flatMap jsonChar ++ '"' :: rest) =
      .ok (String.ofList (done.reverse ++ cs), rest) := by
  induction cs generalizing done with
  | nil =>
    rw [List.flatMap_nil, List.nil_append, List.append_nil, readString]
  | cons c cs ih =>
    rw [List.flatMap_cons, List.append_assoc, readString_jsonChar, ih, List.reverse_cons,
      List.append_assoc, List.singleton_append]

end JsonText

end RuleMachine
