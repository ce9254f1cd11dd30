import RuleMachine.Code.Label
import RuleMachine.Code.Assembly
import RuleMachine.Code.Operator
import RuleMachine.Proofs.Codec.FileForm

set_option autoImplicit false

namespace RuleMachine

namespace OperandPart

theorem reads_skip_word {bytes : Bytes} (h : bytes.length = 4) : Reads word.skip bytes () :=
  (Read.reads_take h).map fun _ => ()

theorem reads_skip_bool (b : Bool) : Reads OperandPart.bool.skip (Operand.bool b) () := by
  have h : Reads (Read.take 1) (Operand.bool b) (Operand.bool b) := Read.reads_take rfl
  exact h.map fun _ => ()

end OperandPart

def ScalarKind.part : ScalarKind → OperandPart
  | .number => .word
  | .string => .text
  | .bool => .bool

namespace Opcode

variable {op : Opcode}

theorem layout_of_comparisonKind? {kind : ScalarKind} (h : op.comparisonKind? = some kind) :
    op.layout = [.text, kind.part] := by
  cases op <;> cases h <;> rfl

theorem comparisonKind?_of_opcode? {kind : ScalarKind} {o : Operator}
    (h : kind.opcode? o = some op) : op.comparisonKind? = some kind := by
  cases kind <;> cases o <;> cases h <;> rfl

theorem select_eq_ok_iff {operator : String} {value : Scalar} :
    select operator value = .ok op ↔
      ∃ o, Operator.ofSymbol? operator = some o ∧ value.kind.opcode? o = some op := by
  unfold select
  rw [← Option.bind_eq_some_iff]
  cases (Operator.ofSymbol? operator).bind value.kind.opcode? <;> simp

theorem comparisonKind?_of_select {operator : String} {value : Scalar}
    (h : select operator value = .ok op) : op.comparisonKind? = some value.kind := by
  obtain ⟨o, _, h⟩ := select_eq_ok_iff.1 h
  exact comparisonKind?_of_opcode? h

theorem isJump_of_comparisonKind? {kind : ScalarKind} (h : op.comparisonKind? = some kind) :
    op.isJump = false := by
  cases op <;> cases h <;> rfl

end Opcode

namespace Instruction

variable {i : Instruction}

theorem ruleStart_eq_ok_iff {name : String} : ruleStart name = .ok i ↔
    ∃ bytes, encodeText name = .ok bytes ∧ i = ⟨.ruleStart, bytes⟩ := by
  unfold ruleStart
  cases encodeText name <;> simp [bind, Except.bind, pure, Except.pure, eq_comm]

theorem mark_eq_ok_iff {l : Label} : l.mark = .ok i ↔
    ∃ bytes, encodeText l.name = .ok bytes ∧ i = ⟨.label, bytes⟩ := by
  unfold Label.mark
  cases encodeText l.name <;> simp [bind, Except.bind, pure, Except.pure, eq_comm]

theorem priority_eq_ok_iff {n : UInt32} : Instruction.priority n = .ok i ↔
    n.toNat < 0x80000000 ∧ i = ⟨.priority, Operand.word n⟩ := by
  unfold Instruction.priority
  split
  · rename_i hn
    rw [Except.ok.injEq, and_iff_right hn]
    exact eq_comm
  · rename_i hn
    constructor
    · intro h
      cases h
    · intro h
      exact absurd h.1 hn

theorem action_eq_ok_iff {kind target value : String} : action kind target value = .ok i ↔
    ∃ bytes, encodeTexts [kind, target, value] = .ok bytes ∧ i = ⟨.execAction, bytes⟩ := by
  unfold action
  cases encodeTexts [kind, target, value] <;>
    simp [bind, Except.bind, pure, Except.pure, eq_comm]

theorem scriptCall_eq_ok_iff {name argument : String} : scriptCall name argument = .ok i ↔
    ∃ bytes, encodeTexts [name, argument] = .ok bytes ∧ i = ⟨.scriptCall, bytes⟩ := by
  unfold scriptCall
  cases encodeTexts [name, argument] <;> simp [bind, Except.bind, pure, Except.pure, eq_comm]

theorem scriptDefinition_eq_ok {name body : String} {params : List String}
    (h : scriptDefinition name params body = .ok i) : params.length < 0x80000000 ∧
      ∃ start middle last, encodeText name = .ok start ∧ encodeTexts params = .ok middle ∧
        encodeText body = .ok last ∧
        i = ⟨.scriptDef, start ++ (Operand.int (.ofNat params.length) ++ (middle ++ last))⟩ := by
  unfold scriptDefinition at h
  split at h
  · cases h
  · rename_i hl
    obtain ⟨start, hstart, h⟩ := Except.bind_eq_ok.1 h
    obtain ⟨rest, hrest, h⟩ := Except.bind_eq_ok.1 h
    cases h
    obtain ⟨middle, back, hm, hb, rfl⟩ := encodeTexts_append_eq_ok_iff.1 hrest
    obtain ⟨last, _, hlast, hnil, rfl⟩ := encodeTexts_cons_eq_ok_iff.1 hb
    cases hnil
    rw [List.append_nil, List.append_assoc]
    exact ⟨by omega, start, middle, last, hstart, hm, hlast, rfl⟩

/-- A comparison holds the name of the fact and then the value, as its kind is read. -/
theorem comparison_eq_ok {op : Opcode} {fact : String} {value : Scalar}
    (h : comparison op fact value = .ok i) :
    ∃ name operand, encodeText fact = .ok name ∧ i = ⟨op, name ++ operand⟩ ∧
      Reads value.kind.part.skip operand () ∧
      (∀ x, value.asSingle? = some x → Reads Read.single operand x) ∧
      (∀ s, value.asString? = some s → Reads Read.text operand s) ∧
      (∀ b, value.asBool? = some b → Reads Read.bool operand b) := by
  unfold comparison at h
  obtain ⟨name, hname, h⟩ := Except.bind_eq_ok.1 h
  refine ⟨name, ?_⟩
  cases value with
  | int n =>
    cases h
    refine ⟨_, hname, rfl, OperandPart.reads_skip_word rfl, fun x hx => ?_, ?_, ?_⟩
    · cases hx
      exact Operand.reads_single _
    · simp [Scalar.asString?]
    · simp [Scalar.asBool?]
  | float x =>
    cases h
    refine ⟨_, hname, rfl, OperandPart.reads_skip_word rfl, fun y hy => ?_, ?_, ?_⟩
    · cases hy
      exact Operand.reads_single _
    · simp [Scalar.asString?]
    · simp [Scalar.asBool?]
  | bool b =>
    cases h
    refine ⟨_, hname, rfl, OperandPart.reads_skip_bool b, ?_, ?_, fun c hc => ?_⟩
    · simp [Scalar.asSingle?]
    · simp [Scalar.asString?]
    · cases hc
      exact Operand.reads_bool _
  | string s =>
    obtain ⟨operand, ho, h⟩ := Except.bind_eq_ok.1 h
    cases h
    refine ⟨_, hname, rfl, reads_skipText_of_encodeText ho, ?_, fun t ht => ?_, ?_⟩
    · simp [Scalar.asSingle?]
    · cases ht
      exact reads_text_of_encodeText ho
    · simp [Scalar.asBool?]

/-- Instructions that are built with operands that mean something by themselves. -/
inductive Built : Instruction → Prop where
  | ruleStart {name : String} {i : Instruction} (built : ruleStart name = .ok i) : Built i
  | ruleEnd : Built ruleEnd
  | priority {n : UInt32} {i : Instruction} (built : Instruction.priority n = .ok i) : Built i
  | scriptDefinition {name body : String} {params : List String} {i : Instruction}
      (built : scriptDefinition name params body = .ok i) : Built i
  | comparison {operator fact : String} {value : Scalar} {op : Opcode} {i : Instruction}
      (select : Opcode.select operator value = .ok op)
      (built : comparison op fact value = .ok i) : Built i
  | mark {l : Label} {i : Instruction} (built : l.mark = .ok i) : Built i
  | action {kind target value : String} {i : Instruction}
      (built : action kind target value = .ok i) : Built i
  | scriptCall {name argument : String} {i : Instruction}
      (built : scriptCall name argument = .ok i) : Built i

/-- Instructions as compilers emit them. -/
inductive Emitted : Instruction → Prop where
  | built {i : Instruction} (h : i.Built) : Emitted i
  | jump {op : Opcode} (h : op.isJump = true) (offset : Int32) : Emitted (.jump op offset)

theorem Built.isJump (h : i.Built) : i.opcode.isJump = false := by
  cases h with
  | ruleStart built =>
    obtain ⟨_, _, rfl⟩ := ruleStart_eq_ok_iff.1 built
    rfl
  | ruleEnd => rfl
  | priority built =>
    obtain ⟨_, rfl⟩ := priority_eq_ok_iff.1 built
    rfl
  | scriptDefinition built =>
    obtain ⟨_, _, _, _, _, _, _, rfl⟩ := scriptDefinition_eq_ok built
    rfl
  | comparison select built =>
    obtain ⟨_, _, _, rfl, _⟩ := comparison_eq_ok built
    exact Opcode.isJump_of_comparisonKind? (Opcode.comparisonKind?_of_select select)
  | mark built =>
    obtain ⟨_, _, rfl⟩ := mark_eq_ok_iff.1 built
    rfl
  | action built =>
    obtain ⟨_, _, rfl⟩ := action_eq_ok_iff.1 built
    rfl
  | scriptCall built =>
    obtain ⟨_, _, rfl⟩ := scriptCall_eq_ok_iff.1 built
    rfl

theorem reads_skipParts_one {part : OperandPart} {operands : Bytes}
    (h : Reads part.skip operands ()) : Reads (skipParts [part]) operands () := by
  rw [← List.append_nil operands]
  exact h.bind (Reads.pure ())

theorem reads_skipParts_texts {l : List String} {bytes : Bytes} (h : encodeTexts l = .ok bytes) :
    Reads (skipParts (l.map fun _ => .text)) bytes () := by
  induction l generalizing bytes with
  | nil =>
    cases h
    exact Reads.pure ()
  | cons s l ih =>
    obtain ⟨first, rest, h₁, h₂, rfl⟩ := encodeTexts_cons_eq_ok_iff.1 h
    exact (reads_skipText_of_encodeText h₁).bind (ih h₂)

theorem Built.exact (h : i.Built) : i.Exact := by
  cases h with
  | ruleStart built =>
    obtain ⟨bytes, hb, rfl⟩ := ruleStart_eq_ok_iff.1 built
    exact exact_of_reads (reads_skipParts_one (reads_skipText_of_encodeText hb))
  | ruleEnd => exact exact_of_reads (Reads.pure ())
  | priority built =>
    obtain ⟨_, rfl⟩ := priority_eq_ok_iff.1 built
    exact exact_of_reads (reads_skipParts_one (OperandPart.reads_skip_word rfl))
  | @scriptDefinition _ _ params _ built =>
    obtain ⟨hl, start, middle, last, hs, hm, he, rfl⟩ := scriptDefinition_eq_ok built
    refine exact_of_reads ((reads_skipText_of_encodeText hs).bind ?_)
    have hcount : (Int32.ofNat params.length).toInt.toNat = params.length := by
      rw [toNat_count hl, Int.toNat_natCast]
    have htexts := reads_skipTexts hm
    rw [← hcount] at htexts
    have hpart : Reads OperandPart.texts.skip _ () := (Operand.reads_int _).bind htexts
    rw [← List.append_assoc]
    exact hpart.bind (reads_skipParts_one (reads_skipText_of_encodeText he))
  | comparison select built =>
    obtain ⟨name, operand, hn, rfl, hskip, _⟩ := comparison_eq_ok built
    apply exact_of_reads
    rw [Opcode.layout_of_comparisonKind? (Opcode.comparisonKind?_of_select select)]
    exact (reads_skipText_of_encodeText hn).bind (reads_skipParts_one hskip)
  | mark built =>
    obtain ⟨bytes, hb, rfl⟩ := mark_eq_ok_iff.1 built
    exact exact_of_reads (reads_skipParts_one (reads_skipText_of_encodeText hb))
  | action built =>
    obtain ⟨bytes, hb, rfl⟩ := action_eq_ok_iff.1 built
    exact exact_of_reads (reads_skipParts_texts hb)
  | scriptCall built =>
    obtain ⟨bytes, hb, rfl⟩ := scriptCall_eq_ok_iff.1 built
    exact exact_of_reads (reads_skipParts_texts hb)

theorem exact_jump {op : Opcode} (h : op.isJump = true) (offset : Int32) :
    (jump op offset).Exact := by
  have hw : Reads (skipParts [.word]) (Operand.int offset) () :=
    reads_skipParts_one (OperandPart.reads_skip_word rfl)
  apply exact_of_reads
  cases op <;> cases h <;> exact hw

theorem Emitted.exact (h : i.Emitted) : i.Exact := by
  cases h with
  | built h => exact h.exact
  | jump h offset => exact exact_jump h offset

end Instruction

end RuleMachine
