import RuleMachine.Code.Listing
import RuleMachine.Proofs.Codec.FileForm

set_option autoImplicit false

namespace RuleMachine

inductive RawValue where
  | word (n : UInt32)
  | bool (byte : UInt8)
  | text (content : Bytes)
  deriving DecidableEq, Repr

namespace RawValue

def bytes : RawValue → Bytes
  | word n => Operand.word n
  | bool byte => [byte]
  | text content => Operand.short content.length ++ content

def Legible : RawValue → Prop
  | word _ => True
  | bool byte => byte = 0 ∨ byte = 1
  | text content => ∃ s, textBytes s = content

def allBytes (values : List RawValue) : Bytes := values.flatMap bytes

theorem allBytes_append (front back : List RawValue) :
    allBytes (front ++ back) = allBytes front ++ allBytes back := List.flatMap_append

theorem allLegible_or (values : List RawValue) :
    (∀ v ∈ values, v.Legible) ∨ ∃ v ∈ values, ¬ v.Legible := by
  by_cases h : ∃ v ∈ values, ¬ v.Legible
  · exact .inr h
  · exact .inl (by simpa using h)

end RawValue

open RawValue

/-- The values that stand in operands of a layout. A count of texts that is negative counts as
none. -/
inductive Fills : List OperandPart → List RawValue → Prop where
  | nil : Fills [] []
  | word {parts : List OperandPart} {values : List RawValue} (n : UInt32)
      (more : Fills parts values) : Fills (.word :: parts) (.word n :: values)
  | bool {parts : List OperandPart} {values : List RawValue} (byte : UInt8)
      (more : Fills parts values) : Fills (.bool :: parts) (.bool byte :: values)
  | text {parts : List OperandPart} {values : List RawValue} {content : Bytes}
      (fits : content.length ≤ maxTextLength) (more : Fills parts values) :
      Fills (.text :: parts) (.text content :: values)
  | texts {parts : List OperandPart} {values : List RawValue} {count : Int32}
      {contents : List Bytes} (counted : contents.length = count.toInt.toNat)
      (fit : ∀ content ∈ contents, content.length ≤ maxTextLength) (more : Fills parts values) :
      Fills (.texts :: parts) (.word count.toUInt32 :: (contents.map .text ++ values))

theorem Fills.noTexts {parts : List OperandPart} {values : List RawValue} {count : Int32}
    (h : count.toInt ≤ 0) (more : Fills parts values) :
    Fills (.texts :: parts) (.word count.toUInt32 :: values) :=
  @Fills.texts _ _ count [] (Int.toNat_of_nonpos h).symm nofun more

/-- The operands are these values, as the layout of the opcode has them. -/
def Instruction.Holds (i : Instruction) (values : List RawValue) : Prop :=
  Fills i.opcode.layout values ∧ i.operands = allBytes values

/-- A listing marks the instruction at the address as malformed. -/
def Instruction.Malformed (i : Instruction) (address : Nat) : Prop :=
  ∃ e, i.read (i.opcode.operandText address) = .error e

def OperandError.OfContents : OperandError → Prop
  | .invalidBool _ | .invalidText _ => True
  | _ => False

def checkParts : List OperandPart → Read Unit
  | [] => return ()
  | .word :: parts => do
    let _ ← Read.word
    checkParts parts
  | .bool :: parts => do
    let _ ← Read.bool
    checkParts parts
  | .text :: parts => do
    let _ ← Read.text
    checkParts parts
  | .texts :: parts => do
    let count ← Read.int
    let _ ← Read.texts count.toInt.toNat
    checkParts parts

section Listing

variable {op : Opcode} {index : Nat} {c c' : Cursor}

theorem Opcode.operandText_discard (op : Opcode) (index : Nat) :
    (do let _ ← op.operandText index) = checkParts op.layout := by
  cases op <;> simp [operandText, layout, checkParts, Read.int, Read.single]

theorem Opcode.exists_operandText_iff :
    (∃ text, op.operandText index c = .ok text c') ↔ checkParts op.layout c = .ok () c' := by
  rw [← operandText_discard op index, EStateM.bind_eq_ok]
  constructor
  · intro h
    obtain ⟨text, htext⟩ := h
    exact ⟨text, c', htext, rfl⟩
  · intro h
    obtain ⟨text, _, htext, hpure⟩ := h
    cases hpure
    exact ⟨text, htext⟩

theorem Opcode.operandText_eq_error_iff {e : OperandError} :
    op.operandText index c = .error e c' ↔ checkParts op.layout c = .error e c' := by
  rw [← operandText_discard op index, EStateM.bind_eq_error]
  constructor
  · exact .inl
  · intro h
    obtain herror | ⟨_, _, _, hpure⟩ := h
    · exact herror
    · cases hpure

end Listing

theorem textOfBytes?_eq_some_iff {content : Bytes} {s : String} :
    textOfBytes? content = some s ↔ textBytes s = content := by
  constructor
  · intro h
    rw [textOfBytes?, String.fromUTF8?] at h
    split at h
    · cases h
      simp [textBytes, String.fromUTF8]
    · cases h
  · rintro rfl
    exact textOfBytes?_textBytes s

section Cuts

variable {c c₁ c' : Cursor} {front back content : Bytes}

def Cursor.Passes (c : Cursor) (bytes : Bytes) (c' : Cursor) : Prop :=
  c.rest = bytes ++ c'.rest ∧ c'.offset = c.offset + bytes.length

theorem Cursor.Passes.trans (h : c.Passes front c₁) (h' : c₁.Passes back c') :
    c.Passes (front ++ back) c' := by
  constructor
  · rw [h.1, h'.1, List.append_assoc]
  · rw [h'.2, h.2, List.length_append, Nat.add_assoc]

theorem Reads.of_passes {α : Type} {read : Read α} {a : α} (h : Reads read front a)
    (hc : c.Passes front c') : read c = .ok a c' := by
  have hread := h c'.rest c.offset
  rw [← hc.1, ← hc.2] at hread
  exact hread

namespace Read

theorem take_of_word {n : UInt32} (h : word c = .ok n c') :
    take 4 c = .ok (Operand.word n) c' := by
  obtain ⟨content, _, htake, hpure⟩ := EStateM.bind_eq_ok.1 h
  cases hpure
  rw [Operand.word_littleEndian (take_eq_ok_iff.1 htake).2.1]
  exact htake

theorem passes_of_take {n : Nat} (h : take n c = .ok content c') : c.Passes content c' := by
  obtain ⟨hrest, hlength, hoffset⟩ := take_eq_ok_iff.1 h
  exact ⟨hrest, by rw [hlength, hoffset]⟩

theorem passes_of_int {n : Int32} (h : int c = .ok n c') : c.Passes (Operand.int n) c' := by
  obtain ⟨w, _, hword, hpure⟩ := EStateM.bind_eq_ok.1 h
  cases hpure
  exact passes_of_take (take_of_word hword)

theorem passes_of_content {n : Nat} (hn : length c = .ok n c₁)
    (h : take n c₁ = .ok content c') :
    content.length ≤ maxTextLength ∧ c.Passes (RawValue.text content).bytes c' := by
  obtain ⟨start, _, hstart, hpure⟩ := EStateM.bind_eq_ok.1 hn
  cases hpure
  have hlength := (take_eq_ok_iff.1 h).2.1
  obtain ⟨hle, hshort⟩ := Operand.short_littleEndian (take_eq_ok_iff.1 hstart).2.1
  rw [RawValue.bytes, hlength, hshort]
  exact ⟨hle, (passes_of_take hstart).trans (passes_of_take h)⟩

theorem passes_of_skipText (h : skipText c = .ok () c') : ∃ content,
    content.length ≤ maxTextLength ∧ c.Passes (RawValue.text content).bytes c' := by
  obtain ⟨n, c₁, content, hn, htake⟩ := skipText_eq_ok_iff.1 h
  exact ⟨content, passes_of_content hn htake⟩

theorem passes_of_text {s : String} (h : text c = .ok s c') :
    (textBytes s).length ≤ maxTextLength ∧ c.Passes (RawValue.text (textBytes s)).bytes c' := by
  obtain ⟨n, c₁, content, hn, htake, hs⟩ := text_eq_ok_iff.1 h
  rw [textOfBytes?_eq_some_iff.1 hs]
  exact passes_of_content hn htake

theorem passes_of_skipTexts {n : Nat} (h : skipTexts n c = .ok () c') : ∃ contents : List Bytes,
    contents.length = n ∧ (∀ content ∈ contents, content.length ≤ maxTextLength) ∧
      c.Passes (allBytes (contents.map .text)) c' := by
  induction n generalizing c with
  | zero =>
    cases h
    exact ⟨[], rfl, nofun, rfl, rfl⟩
  | succ n ih =>
    obtain ⟨_, c₁, hfirst, hmore⟩ := EStateM.bind_eq_ok.1 h
    obtain ⟨content, hfits, hpasses⟩ := passes_of_skipText hfirst
    obtain ⟨contents, rfl, hfit, hrest⟩ := ih hmore
    exact ⟨content :: contents, rfl, List.forall_mem_cons.2 ⟨hfits, hfit⟩, hpasses.trans hrest⟩

end Read

theorem exists_fills_of_skipParts {parts : List OperandPart} (h : skipParts parts c = .ok () c') :
    ∃ values, Fills parts values ∧ c.Passes (allBytes values) c' := by
  induction parts generalizing c with
  | nil =>
    cases h
    exact ⟨[], .nil, rfl, rfl⟩
  | cons part parts ih =>
    obtain ⟨_, c₁, hpart, hmore⟩ := EStateM.bind_eq_ok.1 h
    obtain ⟨values, hfills, hrest⟩ := ih hmore
    cases part with
    | word =>
      obtain ⟨content, _, htake, hpure⟩ := EStateM.bind_eq_ok.1 hpart
      cases hpure
      have hpasses := Read.passes_of_take htake
      rw [← Operand.word_littleEndian (Read.take_eq_ok_iff.1 htake).2.1] at hpasses
      exact ⟨_, .word _ hfills, hpasses.trans hrest⟩
    | bool =>
      obtain ⟨content, _, htake, hpure⟩ := EStateM.bind_eq_ok.1 hpart
      cases hpure
      obtain ⟨byte, rfl⟩ := List.length_eq_one_iff.1 (Read.take_eq_ok_iff.1 htake).2.1
      exact ⟨_, .bool byte hfills, (Read.passes_of_take htake).trans hrest⟩
    | text =>
      obtain ⟨content, hfits, hpasses⟩ := Read.passes_of_skipText hpart
      exact ⟨_, .text hfits hfills, hpasses.trans hrest⟩
    | texts =>
      obtain ⟨count, c₂, hcount, hskip⟩ := EStateM.bind_eq_ok.1 hpart
      obtain ⟨contents, hcounted, hfit, hpasses⟩ := Read.passes_of_skipTexts hskip
      refine ⟨_, .texts hcounted hfit hfills, ?_⟩
      have hall := (Read.passes_of_int hcount).trans (hpasses.trans hrest)
      rwa [← allBytes_append] at hall

theorem Instruction.Exact.exists_holds {i : Instruction} (h : i.Exact) :
    ∃ values, i.Holds values := by
  obtain ⟨c, hskip, hrest⟩ := h
  obtain ⟨values, hfills, hpasses⟩ := exists_fills_of_skipParts hskip
  have hoperands := hpasses.1
  rw [hrest, List.append_nil] at hoperands
  exact ⟨values, hfills, hoperands⟩

theorem skipParts_of_checkParts {parts : List OperandPart} (h : checkParts parts c = .ok () c') :
    skipParts parts c = .ok () c' := by
  induction parts generalizing c with
  | nil => exact h
  | cons part parts ih =>
    cases part with
    | word =>
      obtain ⟨n, c₁, hword, hmore⟩ := EStateM.bind_eq_ok.1 h
      refine EStateM.bind_eq_ok.2 ⟨(), c₁, ?_, ih hmore⟩
      exact EStateM.bind_eq_ok.2 ⟨_, c₁, Read.take_of_word hword, rfl⟩
    | bool =>
      obtain ⟨b, c₁, hbool, hmore⟩ := EStateM.bind_eq_ok.1 h
      obtain ⟨content, c₂, htake, hvalue⟩ := EStateM.bind_eq_ok.1 hbool
      refine EStateM.bind_eq_ok.2 ⟨(), c₁, ?_, ih hmore⟩
      refine EStateM.bind_eq_ok.2 ⟨content, c₂, htake, ?_⟩
      split at hvalue
      · cases hvalue
        rfl
      · cases hvalue
        rfl
      · cases hvalue
    | text =>
      obtain ⟨s, c₁, htext, hmore⟩ := EStateM.bind_eq_ok.1 h
      exact EStateM.bind_eq_ok.2 ⟨(), c₁, Read.skipText_of_text htext, ih hmore⟩
    | texts =>
      obtain ⟨count, c₁, hcount, hmore⟩ := EStateM.bind_eq_ok.1 h
      obtain ⟨l, c₂, htexts, hmore⟩ := EStateM.bind_eq_ok.1 hmore
      refine EStateM.bind_eq_ok.2 ⟨(), c₂, ?_, ih hmore⟩
      exact EStateM.bind_eq_ok.2 ⟨count, c₁, hcount, Read.skipTexts_of_texts htexts⟩

end Cuts

/-- The read takes the bytes of the values if all of them are legible. Otherwise it fails, over the
contents of a value. -/
structure Scans {α : Type} (read : Read α) (values : List RawValue) : Prop where
  reads (legible : ∀ v ∈ values, v.Legible) : ∃ a, Reads read (allBytes values) a
  fails (illegible : ∃ v ∈ values, ¬ v.Legible) (rest : Bytes) (offset : Nat) :
    ∃ e c, read ⟨allBytes values ++ rest, offset⟩ = .error e c ∧ e.OfContents

section

variable {α β : Type} {front back : List RawValue}

theorem Scans.pure (a : α) : Scans (pure a : Read α) [] := ⟨fun _ => ⟨a, Reads.pure a⟩, nofun⟩

theorem Scans.bind {read : Read α} {next : α → Read β} (hfront : Scans read front)
    (hback : ∀ a, Scans (next a) back) : Scans (read >>= next) (front ++ back) := by
  constructor
  · intro legible
    obtain ⟨hf, hb⟩ := List.forall_mem_append.1 legible
    obtain ⟨a, ha⟩ := hfront.reads hf
    obtain ⟨b, hb⟩ := (hback a).reads hb
    rw [allBytes_append]
    exact ⟨b, ha.bind hb⟩
  · intro illegible rest offset
    rw [allBytes_append, List.append_assoc]
    obtain hf | hbad := allLegible_or front
    · obtain ⟨a, ha⟩ := hfront.reads hf
      have hb : ∃ v ∈ back, ¬ v.Legible := by
        obtain ⟨v, hv, hbad⟩ := illegible
        exact ⟨v, (List.mem_append.1 hv).resolve_left fun hv => hbad (hf v hv), hbad⟩
      obtain ⟨e, c, herror, hkind⟩ := (hback a).fails hb rest (offset + (allBytes front).length)
      exact ⟨e, c, EStateM.bind_eq_error.2 (.inr ⟨a, _, ha _ _, herror⟩), hkind⟩
    · obtain ⟨e, c, herror, hkind⟩ := hfront.fails hbad (allBytes back ++ rest) offset
      exact ⟨e, c, EStateM.bind_eq_error.2 (.inl herror), hkind⟩

theorem Scans.map {read : Read α} (f : α → β) (h : Scans read front) :
    Scans (do return f (← read)) front := by
  rw [← List.append_nil front]
  exact h.bind fun a => .pure (f a)

/-- What is legible in any case is read, and may decide how the rest is read, as a count does. -/
theorem Scans.after {read : Read α} {next : α → Read β} {a : α} {v : RawValue}
    (legible : v.Legible) (h : Reads read v.bytes a) (hback : Scans (next a) back) :
    Scans (read >>= next) (v :: back) := by
  constructor
  · intro hall
    obtain ⟨b, hb⟩ := hback.reads (List.forall_mem_cons.1 hall).2
    exact ⟨b, h.bind hb⟩
  · intro illegible rest offset
    have hbad : ∃ w ∈ back, ¬ w.Legible := by
      obtain ⟨w, hw, hbad⟩ := illegible
      exact ⟨w, (List.mem_cons.1 hw).resolve_left fun hv => hbad (hv ▸ legible), hbad⟩
    obtain ⟨e, c, herror, hkind⟩ := hback.fails hbad rest (offset + v.bytes.length)
    refine ⟨e, c, EStateM.bind_eq_error.2 (.inr ⟨a, _, ?_, herror⟩), hkind⟩
    rw [allBytes, List.flatMap_cons, List.append_assoc]
    exact h _ _

theorem Scans.bool (byte : UInt8) : Scans Read.bool [.bool byte] := by
  have htake : Reads (Read.take 1) [byte] [byte] := Read.reads_take rfl
  constructor
  · intro legible
    obtain rfl | rfl := legible _ (List.mem_singleton_self _)
    · exact ⟨false, Operand.reads_bool false⟩
    · exact ⟨true, Operand.reads_bool true⟩
  · intro illegible rest offset
    obtain ⟨v, hv, hbad⟩ := illegible
    cases List.mem_singleton.1 hv
    refine ⟨.invalidBool byte, ⟨rest, offset + 1⟩, ?_, trivial⟩
    refine EStateM.bind_eq_error.2 (.inr ⟨[byte], ⟨rest, offset + 1⟩, htake rest offset, ?_⟩)
    generalize hbytes : [byte] = bytes
    split
    · cases hbytes
      exact absurd (.inl rfl) hbad
    · cases hbytes
      exact absurd (.inr rfl) hbad
    · cases hbytes
      rfl

theorem Scans.text {content : Bytes} (fits : content.length ≤ maxTextLength) :
    Scans Read.text [.text content] := by
  have hlength := Operand.reads_length fits
  have htake : Reads (Read.take content.length) content content := Read.reads_take rfl
  constructor
  · intro legible
    obtain ⟨s, rfl⟩ := legible _ (List.mem_singleton_self _)
    rw [allBytes, List.flatMap_singleton]
    exact ⟨s, Operand.reads_text (Operand.text_eq_ok_iff.2 ⟨fits, rfl⟩)⟩
  · intro illegible rest offset
    obtain ⟨v, hv, hbad⟩ := illegible
    cases List.mem_singleton.1 hv
    have hnone : textOfBytes? content = none := by
      rw [Option.eq_none_iff_forall_ne_some]
      intro s hs
      exact hbad ⟨s, textOfBytes?_eq_some_iff.1 hs⟩
    let start : Cursor := ⟨content ++ rest, offset + 2⟩
    let stop : Cursor := ⟨rest, offset + 2 + content.length⟩
    refine ⟨.invalidText (offset + 2), stop, ?_, trivial⟩
    refine EStateM.bind_eq_error.2 (.inr ⟨content.length, start, ?_, ?_⟩)
    · rw [allBytes, List.flatMap_singleton, RawValue.bytes, List.append_assoc]
      exact hlength _ _
    · refine EStateM.bind_eq_error.2 (.inr ⟨start, start, rfl, ?_⟩)
      refine EStateM.bind_eq_error.2 (.inr ⟨content, stop, htake _ _, ?_⟩)
      rw [hnone]
      rfl

theorem Scans.texts {contents : List Bytes}
    (fit : ∀ content ∈ contents, content.length ≤ maxTextLength) :
    Scans (Read.texts contents.length) (contents.map .text) := by
  induction contents with
  | nil => exact .pure _
  | cons content contents ih =>
    obtain ⟨fits, fit⟩ := List.forall_mem_cons.1 fit
    exact (Scans.text fits).bind fun _ => (ih fit).map _

end

theorem Fills.scans {parts : List OperandPart} {values : List RawValue} (h : Fills parts values) :
    Scans (checkParts parts) values := by
  induction h with
  | nil => exact .pure ()
  | word n more ih => exact .after trivial (Operand.reads_word n) ih
  | bool byte more ih => exact (Scans.bool byte).bind fun _ => ih
  | text fits more ih => exact (Scans.text fits).bind fun _ => ih
  | texts counted fit more ih =>
    refine .after trivial (Operand.reads_int _) ?_
    rw [← counted]
    exact (Scans.texts fit).bind fun _ => ih

section Agreement

variable {op : Opcode} {index : Nat} {c c' : Cursor} {i : Instruction}

theorem Opcode.skipOperands_of_operandText {text : String}
    (h : op.operandText index c = .ok text c') : op.skipOperands c = .ok () c' :=
  skipParts_of_checkParts (exists_operandText_iff.1 ⟨text, h⟩)

/-- Where operands can be passed over, a listing fails for nothing but their contents. -/
theorem Opcode.operandText_of_skipOperands (h : op.skipOperands c = .ok () c') (index : Nat) :
    (∃ text, op.operandText index c = .ok text c') ∨
      ∃ e c₁, op.operandText index c = .error e c₁ ∧ e.OfContents := by
  obtain ⟨values, hfills, hpasses⟩ := exists_fills_of_skipParts h
  obtain legible | illegible := allLegible_or values
  · obtain ⟨a, ha⟩ := hfills.scans.reads legible
    exact .inl (exists_operandText_iff.2 (ha.of_passes hpasses))
  · obtain ⟨e, c₁, herror, hkind⟩ := hfills.scans.fails illegible c'.rest c.offset
    rw [← hpasses.1] at herror
    exact .inr ⟨e, c₁, operandText_eq_error_iff.2 herror, hkind⟩

theorem Instruction.Exact.ofContents (h : i.Exact) {e : OperandError}
    (he : i.read (i.opcode.operandText index) = .error e) : e.OfContents := by
  obtain ⟨c', hskip, _⟩ := h
  unfold Instruction.read at he
  obtain ⟨text, hok⟩ | ⟨e₁, c₁, herror, hkind⟩ :=
    Opcode.operandText_of_skipOperands hskip index
  · rw [hok] at he
    cases he
  · rw [herror] at he
    cases he
    exact hkind

/-- A listing marks just the instructions with illegible values. -/
theorem Instruction.Holds.malformed_iff {values : List RawValue} (h : i.Holds values)
    (address : Nat) : i.Malformed address ↔ ∃ v ∈ values, ¬ v.Legible := by
  obtain ⟨hfills, hoperands⟩ := h
  unfold Malformed Instruction.read Cursor.start
  constructor
  · intro hmarked
    obtain ⟨e, he⟩ := hmarked
    refine (allLegible_or values).resolve_left fun legible => ?_
    obtain ⟨_, ha⟩ := hfills.scans.reads legible
    have hall := ha [] 0
    rw [List.append_nil, ← hoperands] at hall
    obtain ⟨text, htext⟩ := Opcode.exists_operandText_iff.2 hall
    rw [htext] at he
    cases he
  · intro illegible
    obtain ⟨e, c₁, herror, _⟩ := hfills.scans.fails illegible [] 0
    rw [List.append_nil, ← hoperands] at herror
    rw [Opcode.operandText_eq_error_iff.2 herror]
    exact ⟨e, rfl⟩

end Agreement

end RuleMachine
