import RuleMachine.Code.Buffer
import RuleMachine.Proofs.Codec.Contents

set_option autoImplicit false

namespace RuleMachine

namespace OperandValue

/-- The bytes of an operand, if it can be written. -/
def bytes : OperandValue → Bytes
  | int n => Operand.int n
  | single x => Operand.single x
  | bool b => Operand.bool b
  | text s => Operand.short s.utf8ByteSize ++ textBytes s

/-- Only a text may be too long. -/
def Fits : OperandValue → Prop
  | text s => s.utf8ByteSize ≤ maxTextLength
  | _ => True

instance (v : OperandValue) : Decidable v.Fits := by
  unfold Fits
  split <;> infer_instance

end OperandValue

theorem Write.text_eq (s : String) : text s = match Operand.text s with
    | .ok bytes => append bytes
    | .error e => throw e := by
  funext buffer
  unfold text Operand.text
  dsimp only
  by_cases h : (textBytes s).length ≤ maxTextLength
  · rw [if_neg (Nat.not_lt.2 h), if_pos h]
    change EStateM.Result.ok () (buffer ++ _ ++ _) = .ok () (buffer ++ (_ ++ _))
    rw [List.append_assoc]
  · rw [if_pos (Nat.not_le.1 h), if_neg h]
    rfl

theorem Operand.text_of_le {s : String} (h : s.utf8ByteSize ≤ maxTextLength) :
    text s = .ok (OperandValue.text s).bytes := by
  rw [text_eq_ok_iff, length_textBytes]
  exact ⟨h, rfl⟩

theorem OperandValue.write_text_of_lt {s : String} (h : maxTextLength < s.utf8ByteSize)
    (buffer : Bytes) :
    (text s).write buffer = .error (.textTooLong s.utf8ByteSize) buffer := by
  have hrefused : Operand.text s = .error (.textTooLong s.utf8ByteSize) := by
    rw [← length_textBytes] at h ⊢
    exact if_neg (Nat.not_le.2 h)
  rw [write, Write.text_eq, hrefused]
  rfl

namespace OperandValue

theorem write_of_fits {v : OperandValue} (h : v.Fits) (buffer : Bytes) :
    v.write buffer = .ok () (buffer ++ v.bytes) := by
  cases v with
  | int | single | bool => rfl
  | text s =>
    rw [write, Write.text_eq, Operand.text_of_le h]
    rfl

theorem reads_of_fits {v : OperandValue} (h : v.Fits) : Reads v.kind.read v.bytes v := by
  cases v with
  | int n => exact (Operand.reads_int n).map int
  | single x => exact (Operand.reads_single x).map single
  | bool b => exact (Operand.reads_bool b).map bool
  | text s => exact (Operand.reads_text (Operand.text_of_le h)).map text

end OperandValue

theorem Read.passes_of_single {x : Single} {c c' : Cursor} (h : single c = .ok x c') :
    c.Passes (Operand.single x) c' := by
  obtain ⟨w, _, hword, hpure⟩ := EStateM.bind_eq_ok.1 h
  cases hpure
  exact passes_of_take (take_of_word hword)

theorem Read.passes_of_bool {b : Bool} {c c' : Cursor} (h : bool c = .ok b c') :
    c.Passes (Operand.bool b) c' := by
  obtain ⟨content, _, htake, hbyte⟩ := EStateM.bind_eq_ok.1 h
  have hpasses := passes_of_take htake
  split at hbyte
  · cases hbyte
    exact hpasses
  · cases hbyte
    exact hpasses
  · cases hbyte

/-- What is read for a kind is of that kind, can be written, and has just the bytes read. -/
theorem OperandKind.passes_of_read {kind : OperandKind} {v : OperandValue} {c c' : Cursor}
    (h : kind.read c = .ok v c') : v.kind = kind ∧ v.Fits ∧ c.Passes v.bytes c' := by
  cases kind with
  | int =>
    obtain ⟨n, _, hread, hpure⟩ := EStateM.bind_eq_ok.1 h
    cases hpure
    exact ⟨rfl, trivial, Read.passes_of_int hread⟩
  | single =>
    obtain ⟨x, _, hread, hpure⟩ := EStateM.bind_eq_ok.1 h
    cases hpure
    exact ⟨rfl, trivial, Read.passes_of_single hread⟩
  | bool =>
    obtain ⟨b, _, hread, hpure⟩ := EStateM.bind_eq_ok.1 h
    cases hpure
    exact ⟨rfl, trivial, Read.passes_of_bool hread⟩
  | text =>
    obtain ⟨s, _, hread, hpure⟩ := EStateM.bind_eq_ok.1 h
    cases hpure
    obtain ⟨hfits, hpasses⟩ := Read.passes_of_text hread
    rw [RawValue.bytes, length_textBytes] at hpasses
    rw [length_textBytes] at hfits
    exact ⟨rfl, hfits, hpasses⟩

def valueBytes (values : List OperandValue) : Bytes := values.flatMap OperandValue.bytes

theorem writeAll_of_fits {values : List OperandValue} (h : ∀ v ∈ values, v.Fits) (buffer : Bytes) :
    writeAll values buffer = .ok () (buffer ++ valueBytes values) := by
  induction values generalizing buffer with
  | nil => rw [valueBytes, List.flatMap_nil, List.append_nil]; rfl
  | cons v values ih =>
    obtain ⟨hv, hvalues⟩ := List.forall_mem_cons.1 h
    refine EStateM.bind_eq_ok.2 ⟨(), _, v.write_of_fits hv buffer, ?_⟩
    rw [ih hvalues, List.append_assoc]
    rfl

theorem readAll_of_fits {values : List OperandValue} (h : ∀ v ∈ values, v.Fits) :
    Reads (readAll (values.map OperandValue.kind)) (valueBytes values) values := by
  induction values with
  | nil => exact Reads.pure []
  | cons v values ih =>
    obtain ⟨hv, hvalues⟩ := List.forall_mem_cons.1 h
    exact (v.reads_of_fits hv).bind ((ih hvalues).map (v :: ·))

theorem passes_of_readAll {kinds : List OperandKind} {values : List OperandValue} {c c' : Cursor}
    (h : readAll kinds c = .ok values c') : values.map OperandValue.kind = kinds ∧
      (∀ v ∈ values, v.Fits) ∧ c.Passes (valueBytes values) c' := by
  induction kinds generalizing c values with
  | nil =>
    cases h
    exact ⟨rfl, nofun, rfl, rfl⟩
  | cons kind kinds ih =>
    obtain ⟨v, _, hfirst, h⟩ := EStateM.bind_eq_ok.1 h
    obtain ⟨more, _, hmore, hpure⟩ := EStateM.bind_eq_ok.1 h
    cases hpure
    obtain ⟨rfl, hv, hpasses⟩ := OperandKind.passes_of_read hfirst
    obtain ⟨rfl, hfits, hrest⟩ := ih hmore
    exact ⟨rfl, List.forall_mem_cons.2 ⟨hv, hfits⟩, hpasses.trans hrest⟩

theorem writeAll_append (front back : List OperandValue) :
    writeAll (front ++ back) = (do
      writeAll front
      writeAll back) := by
  induction front with
  | nil => rfl
  | cons v front ih =>
    rw [List.cons_append, writeAll, writeAll, ih, bind_assoc]

/-- Operands are coded exactly, whole sequences of them in both directions: what fits is written
behind the buffer and read back from the start to the end, and values that are read are written as
the bytes they were read from. A text that is too long is refused with its length, and the buffer
keeps what was written before it and nothing else. -/
theorem sequences_exact :
    (∀ values : List OperandValue, (∀ v ∈ values, v.Fits) → ∃ bytes,
      (∀ buffer, writeAll values buffer = .ok () (buffer ++ bytes)) ∧
      readAll (values.map OperandValue.kind) (Cursor.start bytes) =
        .ok values ⟨[], bytes.length⟩) ∧
    (∀ (kinds : List OperandKind) (bytes : Bytes) (values : List OperandValue) (c : Cursor),
      readAll kinds (Cursor.start bytes) = .ok values c →
        values.map OperandValue.kind = kinds ∧ ∃ consumed,
          bytes = consumed ++ c.rest ∧ c.offset = consumed.length ∧
            ∀ buffer, writeAll values buffer = .ok () (buffer ++ consumed)) ∧
    (∀ (s : String) (buffer : Bytes), 65535 < s.utf8ByteSize →
      (OperandValue.text s).write buffer = .error (.textTooLong s.utf8ByteSize) buffer ∧
      ∀ (values more : List OperandValue) (written : Bytes),
        writeAll values buffer = .ok () written →
          writeAll (values ++ .text s :: more) buffer =
            .error (.textTooLong s.utf8ByteSize) written) := by
  refine ⟨fun values h => ⟨valueBytes values, writeAll_of_fits h, ?_⟩, ?_, ?_⟩
  · have hread := readAll_of_fits h [] 0
    rw [List.append_nil, Nat.zero_add] at hread
    exact hread
  · intro kinds bytes values c h
    obtain ⟨hkinds, hfits, hrest, hoffset⟩ := passes_of_readAll h
    refine ⟨hkinds, valueBytes values, hrest, ?_, writeAll_of_fits hfits⟩
    rw [hoffset]
    exact Nat.zero_add _
  · intro s buffer hs
    refine ⟨OperandValue.write_text_of_lt hs buffer, fun values more written h => ?_⟩
    rw [writeAll_append]
    refine EStateM.bind_eq_error.2 (.inr ⟨(), written, h, ?_⟩)
    exact EStateM.bind_eq_error.2 (.inl (OperandValue.write_text_of_lt hs written))

def mixedOperands : List OperandValue :=
  [.text "é", .single ⟨0x7fc12345⟩, .bool true, .int (-2)]

def mixedBytes : Bytes := [2, 0, 0xc3, 0xa9, 0x45, 0x23, 0xc1, 0x7f, 1, 0xfe, 0xff, 0xff, 0xff]

theorem sequences_exact_mixed :
    (∃ bytes, (∀ buffer, writeAll mixedOperands buffer = .ok () (buffer ++ bytes)) ∧
      readAll (mixedOperands.map OperandValue.kind) (Cursor.start bytes) =
        .ok mixedOperands ⟨[], bytes.length⟩) ∧
    (∃ consumed, mixedBytes ++ [7] = consumed ++ [7] ∧ 13 = consumed.length ∧
      ∀ buffer, writeAll mixedOperands buffer = .ok () (buffer ++ consumed)) ∧
    ∃ s, s.utf8ByteSize = 65536 ∧
      writeAll (mixedOperands ++ [.text s]) [] = .error (.textTooLong 65536) mixedBytes := by
  have hfits : ∀ v ∈ mixedOperands, v.Fits := by decide
  have hread : readAll (mixedOperands.map OperandValue.kind) (Cursor.start (mixedBytes ++ [7])) =
      .ok mixedOperands ⟨[7], 13⟩ := rfl
  have hwritten : writeAll mixedOperands [] = .ok () mixedBytes := rfl
  refine ⟨sequences_exact.1 _ hfits, (sequences_exact.2.1 _ _ _ _ hread).2, ?_⟩
  have hlong := utf8ByteSize_replicate 65536
  refine ⟨_, hlong, ?_⟩
  rw [(sequences_exact.2.2 _ [] (by omega)).2 _ [] _ hwritten, hlong]

end RuleMachine
