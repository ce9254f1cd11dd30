import RuleMachine.Code.Instruction
import RuleMachine.Proofs.Codec.Reading

set_option autoImplicit false

namespace RuleMachine

theorem length_textBytes (s : String) : (textBytes s).length = s.utf8ByteSize := by
  simp [textBytes]

theorem utf8ByteSize_replicate (n : Nat) :
    (String.ofList (List.replicate n 'a')).utf8ByteSize = n := by
  induction n with
  | zero => rfl
  | succ n ih =>
    rw [List.replicate_succ, String.ofList_cons, String.utf8ByteSize_append, ih,
      String.utf8ByteSize_singleton, Nat.add_comm]
    rfl

namespace Operand

theorem short_length (n : Nat) : (short n).length = 2 := rfl

theorem word_length (n : UInt32) : (word n).length = 4 := rfl

theorem littleEndian_short {n : Nat} (h : n ≤ maxTextLength) :
    Read.littleEndian (short n) = n := by
  simp only [maxTextLength] at h
  simp only [short, Read.littleEndian, UInt8.toNat_ofNat']
  omega

theorem littleEndian_word (n : UInt32) : Read.littleEndian (word n) = n.toNat := by
  have h := n.toNat_lt
  simp only [word, Read.littleEndian, UInt8.toNat_ofNat']
  omega

theorem short_littleEndian {bytes : Bytes} (h : bytes.length = 2) :
    Read.littleEndian bytes ≤ maxTextLength ∧ short (Read.littleEndian bytes) = bytes := by
  match bytes, h with
  | [a, b], _ =>
    have ha := a.toNat_lt
    have hb := b.toNat_lt
    simp only [short, Read.littleEndian, maxTextLength, List.cons.injEq, and_true,
      ← UInt8.toNat_inj, UInt8.toNat_ofNat']
    omega

theorem word_littleEndian {bytes : Bytes} (h : bytes.length = 4) :
    word (.ofNat (Read.littleEndian bytes)) = bytes := by
  match bytes, h with
  | [a, b, c, d], _ =>
    have ha := a.toNat_lt
    have hb := b.toNat_lt
    have hc := c.toNat_lt
    have hd := d.toNat_lt
    simp only [word, Read.littleEndian, List.cons.injEq, and_true, ← UInt8.toNat_inj,
      UInt8.toNat_ofNat', UInt32.toNat_ofNat']
    omega

theorem reads_word (n : UInt32) : Reads Read.word (word n) n := by
  have h := (Read.reads_take (word_length n)).map fun bytes =>
    UInt32.ofNat (Read.littleEndian bytes)
  simp only [littleEndian_word, UInt32.ofNat_toNat] at h
  exact h

theorem reads_int (n : Int32) : Reads Read.int (int n) n :=
   (reads_word n.toUInt32).map UInt32.toInt32

theorem reads_single (x : Single) : Reads Read.single (single x) x :=
  (reads_word x.bits).map Single.mk

theorem reads_bool (b : Bool) : Reads Read.bool (bool b) b := by
  have h : Reads (Read.take 1) (bool b) (bool b) := Read.reads_take rfl
  rw [← List.append_nil (bool b)]
  refine h.bind ?_
  cases b
  · exact Reads.pure false
  · exact Reads.pure true

theorem text_eq_ok_iff {s : String} {bytes : Bytes} :
    text s = .ok bytes ↔ (textBytes s).length ≤ maxTextLength ∧
      bytes = short (textBytes s).length ++ textBytes s := by
  unfold text
  dsimp only
  split
  · rename_i h
    simp only [Except.ok.injEq, h, true_and]
    exact eq_comm
  · rename_i h
    simp [h]

theorem reads_length {n : Nat} (h : n ≤ maxTextLength) : Reads Read.length (short n) n := by
  have hr := (Read.reads_take (short_length n)).map Read.littleEndian
  rwa [littleEndian_short h] at hr

theorem reads_text {s : String} {bytes : Bytes} (h : text s = .ok bytes) :
    Reads Read.text bytes s := by
  obtain ⟨hl, rfl⟩ := text_eq_ok_iff.1 h
  intro rest offset
  refine Read.text_eq_ok_iff.2 ⟨(textBytes s).length, ⟨textBytes s ++ rest, offset + 2⟩,
    textBytes s, ?_, ?_, textOfBytes?_textBytes s⟩
  · rw [List.append_assoc]
    exact reads_length hl _ _
  · refine Read.take_eq_ok_iff.2 ⟨rfl, rfl, ?_⟩
    rw [List.length_append, short_length, Nat.add_assoc]

theorem reads_skipText {s : String} {bytes : Bytes} (h : text s = .ok bytes) :
    Reads Read.skipText bytes () :=
  fun rest offset => Read.skipText_of_text (reads_text h rest offset)

end Operand

theorem encodeText_eq_ok_iff {s : String} {bytes : Bytes} :
    encodeText s = .ok bytes ↔ Operand.text s = .ok bytes :=
  Except.mapError_eq_ok

theorem reads_text_of_encodeText {s : String} {bytes : Bytes} (h : encodeText s = .ok bytes) :
    Reads Read.text bytes s :=
  Operand.reads_text (encodeText_eq_ok_iff.1 h)

theorem reads_skipText_of_encodeText {s : String} {bytes : Bytes}
    (h : encodeText s = .ok bytes) : Reads Read.skipText bytes () :=
  Operand.reads_skipText (encodeText_eq_ok_iff.1 h)

theorem encodeTexts_cons_eq_ok_iff {s : String} {more : List String} {bytes : Bytes} :
    encodeTexts (s :: more) = .ok bytes ↔ ∃ first rest, encodeText s = .ok first ∧
      encodeTexts more = .ok rest ∧ bytes = first ++ rest := by
  simp only [encodeTexts, Except.bind_eq_ok]
  constructor
  · intro h
    obtain ⟨first, h₁, rest, h₂, h⟩ := h
    cases h
    exact ⟨first, rest, h₁, h₂, rfl⟩
  · intro h
    obtain ⟨first, rest, h₁, h₂, rfl⟩ := h
    exact ⟨first, h₁, rest, h₂, rfl⟩

theorem encodeTexts_append_eq_ok_iff {l m : List String} {bytes : Bytes} :
    encodeTexts (l ++ m) = .ok bytes ↔ ∃ front back, encodeTexts l = .ok front ∧
      encodeTexts m = .ok back ∧ bytes = front ++ back := by
  induction l generalizing bytes with
  | nil => simp [encodeTexts]
  | cons s l ih =>
    simp only [List.cons_append, encodeTexts_cons_eq_ok_iff]
    constructor
    · intro h
      obtain ⟨first, rest, h₁, h₂, rfl⟩ := h
      obtain ⟨front, back, hf, hb, rfl⟩ := ih.1 h₂
      exact ⟨first ++ front, back, ⟨first, front, h₁, hf, rfl⟩, hb, (List.append_assoc ..).symm⟩
    · intro h
      obtain ⟨_, back, ⟨first, front, h₁, hf, rfl⟩, hb, rfl⟩ := h
      exact ⟨first, front ++ back, h₁, ih.2 ⟨front, back, hf, hb, rfl⟩, List.append_assoc ..⟩

theorem reads_texts {l : List String} {bytes : Bytes} (h : encodeTexts l = .ok bytes) :
    Reads (Read.texts l.length) bytes l := by
  induction l generalizing bytes with
  | nil =>
    cases h
    exact Reads.pure _
  | cons s l ih =>
    obtain ⟨first, rest, h₁, h₂, rfl⟩ := encodeTexts_cons_eq_ok_iff.1 h
    exact (reads_text_of_encodeText h₁).bind ((ih h₂).map _)

theorem reads_skipTexts {l : List String} {bytes : Bytes} (h : encodeTexts l = .ok bytes) :
    Reads (Read.skipTexts l.length) bytes () := by
  induction l generalizing bytes with
  | nil =>
    cases h
    exact Reads.pure _
  | cons s l ih =>
    obtain ⟨first, rest, h₁, h₂, rfl⟩ := encodeTexts_cons_eq_ok_iff.1 h
    exact (reads_skipText_of_encodeText h₁).bind (ih h₂)

theorem toNat_count {n : Nat} (h : n < 0x80000000) : (Int32.ofNat n).toInt = n := by
  rw [Int32.toInt_ofNat_of_lt h]

namespace Instruction

variable {α : Type}

/-- Operands that a read takes as a whole are read to their end. -/
theorem read_of_reads {i : Instruction} {r : Read α} {a : α} (h : Reads r i.operands a) :
    i.read r = .ok a := by
  have hr := h [] 0
  rw [List.append_nil] at hr
  unfold read Cursor.start
  rw [hr]

end Instruction

end RuleMachine
