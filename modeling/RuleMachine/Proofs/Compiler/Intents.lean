import RuleMachine.Proofs.Codec.Emitted
import RuleMachine.Proofs.Compiler.Evaluation
import RuleMachine.Proofs.Machine.Intent

set_option autoImplicit false

namespace RuleMachine

namespace Decode

variable {α β : Type} {a : α} {c : Cursor}

theorem outcome_bind_of_reads {d : Decode α} {front : Bytes} (h : Reads d front a)
    (next : α → Decode β) (back : Bytes) (offset : Nat) :
    outcome (d >>= next) ⟨front ++ back, offset⟩ =
      outcome (next a) ⟨back, offset + front.length⟩ := by
  change outcome (EStateM.bind d next) _ = _
  rw [outcome, EStateM.bind, h back offset]
  rfl

theorem outcome_map (d : Decode α) (f : α → β) :
    outcome (do return f (← d)) c = (outcome d c).map f := by
  change outcome (EStateM.bind d fun a => pure (f a)) c = _
  unfold outcome EStateM.bind
  cases d c <;> rfl

end Decode

namespace Machine

variable {m : Machine} {i : Instruction} {r : Registers} {c : Cursor}

theorem outcome_unreadable (cause : RuntimeCause) :
    (m.unreadable cause).outcome c = m.settings.factPolicy.unreadable cause := by
  unfold unreadable FactPolicy.unreadable
  cases m.settings.factPolicy <;> rfl

section Comparison

variable {op : Opcode} {o : Operator} {literal value : Scalar} {fact : String} {operand : Bytes}

theorem compareNumbers_of_opcode? (h : ScalarKind.number.opcode? o = some op) :
    op.compareNumbers = o.ofNumbers := by
  cases o <;> cases h <;> rfl

theorem compareStrings_of_opcode? (h : ScalarKind.string.opcode? o = some op) :
    op.compareStrings = o.ofTexts := by
  cases o <;> cases h <;> rfl

theorem compareBools_of_opcode? (h : ScalarKind.bool.opcode? o = some op) :
    op.compareBools = o.ofBools := by
  cases o <;> cases h <;> rfl

theorem outcome_compareValue (hop : literal.kind.opcode? o = some op)
    (hnumber : ∀ x, literal.asSingle? = some x → Reads Read.single operand x)
    (htext : ∀ s, literal.asString? = some s → Reads Read.text operand s)
    (hbool : ∀ b, literal.asBool? = some b → Reads Read.bool operand b) (offset : Nat) :
    (m.compareValue op literal.kind fact value).outcome ⟨operand, offset⟩ =
      match o.holds? value literal with
      | some holds => .ok holds
      | none => m.settings.factPolicy.unreadable
          (.factTypeMismatch fact op literal.kind value.kind) := by
  rw [← List.append_nil operand]
  unfold Operator.holds?
  cases literal with
  | int n =>
    rw [← compareNumbers_of_opcode? hop]
    refine (Decode.outcome_bind_of_reads (hnumber _ rfl).ofRead _ _ _).trans ?_
    cases value.asSingle? with
    | none => exact outcome_unreadable _
    | some x => rfl
  | float y =>
    rw [← compareNumbers_of_opcode? hop]
    refine (Decode.outcome_bind_of_reads (hnumber _ rfl).ofRead _ _ _).trans ?_
    cases value.asSingle? with
    | none => exact outcome_unreadable _
    | some x => rfl
  | bool b =>
    rw [← compareBools_of_opcode? hop]
    refine (Decode.outcome_bind_of_reads (hbool _ rfl).ofRead _ _ _).trans ?_
    cases value.asBool? with
    | none => exact outcome_unreadable _
    | some x => rfl
  | string t =>
    rw [← compareStrings_of_opcode? hop]
    refine (Decode.outcome_bind_of_reads (htext _ rfl).ofRead _ _ _).trans ?_
    cases value.asString? with
    | none => exact outcome_unreadable _
    | some x => rfl

theorem decode_compare {operator : String} (select : Opcode.select operator literal = .ok op)
    (built : Instruction.comparison op fact literal = .ok i) :
    i.decode (m.compare i.opcode literal.kind) =
      (compareFact m.facts m.settings.factPolicy fact operator literal).map (fact, ·) := by
  obtain ⟨o, hsymbol, hop⟩ := Opcode.select_eq_ok_iff.1 select
  obtain ⟨name, operand, hname, rfl, _, hnumber, htext, hbool⟩ :=
    Instruction.comparison_eq_ok built
  have hreads := (reads_text_of_encodeText hname).ofRead
  refine (Decode.outcome_bind_of_reads hreads _ operand 0).trans ?_
  simp only [compareFact, hsymbol, hop]
  cases m.facts.find? fact with
  | none => exact (Decode.outcome_map _ _).trans (congrArg _ (outcome_unreadable _))
  | some value =>
    exact (Decode.outcome_map _ _).trans
      (congrArg _ (outcome_compareValue hop hnumber htext hbool _))

/-- A comparison notes its fact and sets the flag to what comparing gives. -/
theorem intent_of_comparison {operator : String}
    (select : Opcode.select operator literal = .ok op)
    (built : Instruction.comparison op fact literal = .ok i) : m.intent i r =
      (compareFact m.facts m.settings.factPolicy fact operator literal).map fun holds =>
        ⟨none, { r with
          address := r.address + 1
          flag := holds
          report.factsRead := r.report.factsRead ++ [fact] }⟩ := by
  have hkind : i.opcode.comparisonKind? = some literal.kind := by
    obtain ⟨_, _, _, rfl, _⟩ := Instruction.comparison_eq_ok built
    exact Opcode.comparisonKind?_of_select select
  rw [intent_of_comparisonKind? hkind, test, decode_compare select built]
  cases compareFact m.facts m.settings.factPolicy fact operator literal <;> rfl

end Comparison

theorem intent_of_ruleStart {name : String} (built : Instruction.ruleStart name = .ok i) :
    m.intent i r = .ok ⟨none, { r with
      address := r.address + 1
      rule := some name
      ruleFired := false
      flag := false }⟩ := by
  obtain ⟨bytes, hbytes, rfl⟩ := Instruction.ruleStart_eq_ok_iff.1 built
  have hd := Instruction.decode_of_reads (i := ⟨.ruleStart, bytes⟩)
    (reads_text_of_encodeText hbytes).ofRead
  simp only [intent, hd]
  rfl

theorem intent_of_ruleEnd : m.intent Instruction.ruleEnd r = .ok ⟨none, { r with
    address := r.address + 1
    rule := none
    ruleFired := false }⟩ := rfl

theorem intent_of_priority {n : UInt32} (built : Instruction.priority n = .ok i) :
    m.intent i r = .ok ⟨none, { r with address := r.address + 1 }⟩ := by
  obtain ⟨_, rfl⟩ := Instruction.priority_eq_ok_iff.1 built
  have hreads : Reads Read.int (Operand.word n) n.toInt32 :=
    (Operand.reads_word n).map UInt32.toInt32
  have hd := Instruction.decode_of_reads (i := ⟨.priority, Operand.word n⟩) hreads.ofRead
  simp only [intent, hd]
  rfl

theorem intent_of_scriptDefinition {name body : String} {params : List String}
    (built : Instruction.scriptDefinition name params body = .ok i) :
    m.intent i r = .ok ⟨some (.definition ⟨r.rule, name, params, body⟩),
      { r with address := r.address + 1 }⟩ := by
  obtain ⟨hl, start, middle, last, hs, hm, he, rfl⟩ := Instruction.scriptDefinition_eq_ok built
  have hcount := toNat_count hl
  have htexts := reads_texts hm
  rw [← Int.toNat_natCast params.length, ← hcount] at htexts
  have hd : Instruction.decode
      ⟨.scriptDef, start ++ (Operand.int (.ofNat params.length) ++ (middle ++ last))⟩
      (decodeDefinition r.rule) = .ok ⟨r.rule, name, params, body⟩ := by
    refine (Decode.outcome_bind_of_reads (reads_text_of_encodeText hs).ofRead _ _ _).trans ?_
    refine (Decode.outcome_bind_of_reads (Operand.reads_int _).ofRead _ _ _).trans ?_
    rw [if_neg (by omega)]
    refine (Decode.outcome_bind_of_reads htexts.ofRead _ _ _).trans ?_
    exact Decode.outcome_of_reads ((reads_text_of_encodeText he).ofRead.map _) _
  simp only [intent, hd]
  rfl

theorem intent_of_action {kind target value : String}
    (built : Instruction.action kind target value = .ok i) :
    m.intent i r = .ok ⟨some (.action ⟨r.rule, kind, target, value⟩),
      { r with address := r.address + 1, report.actions := r.report.actions + 1 }.fire⟩ := by
  obtain ⟨bytes, hbytes, rfl⟩ := Instruction.action_eq_ok_iff.1 built
  obtain ⟨first, more, hfirst, hmore, rfl⟩ := encodeTexts_cons_eq_ok_iff.1 hbytes
  obtain ⟨second, rest, hsecond, hrest, rfl⟩ := encodeTexts_cons_eq_ok_iff.1 hmore
  obtain ⟨third, last, hthird, hlast, rfl⟩ := encodeTexts_cons_eq_ok_iff.1 hrest
  cases hlast
  have hd : Instruction.decode ⟨.execAction, first ++ (second ++ (third ++ []))⟩
      (decodeAction r.rule) = .ok ⟨r.rule, kind, target, value⟩ := by
    refine (Decode.outcome_bind_of_reads (reads_text_of_encodeText hfirst).ofRead _ _ _).trans ?_
    refine (Decode.outcome_bind_of_reads (reads_text_of_encodeText hsecond).ofRead _ _ _).trans ?_
    rw [List.append_nil]
    exact Decode.outcome_of_reads ((reads_text_of_encodeText hthird).ofRead.map _) _
  simp only [intent, hd]
  rfl

theorem intent_of_scriptCall {name argument : String}
    (built : Instruction.scriptCall name argument = .ok i) :
    m.intent i r = .ok ⟨some (.script ⟨r.rule, name, argument⟩),
      { r with address := r.address + 1, report.scripts := r.report.scripts + 1 }.fire⟩ := by
  obtain ⟨bytes, hbytes, rfl⟩ := Instruction.scriptCall_eq_ok_iff.1 built
  obtain ⟨first, more, hfirst, hmore, rfl⟩ := encodeTexts_cons_eq_ok_iff.1 hbytes
  obtain ⟨second, last, hsecond, hlast, rfl⟩ := encodeTexts_cons_eq_ok_iff.1 hmore
  cases hlast
  have hd : Instruction.decode ⟨.scriptCall, first ++ (second ++ [])⟩
      (decodeCall r.rule) = .ok ⟨r.rule, name, argument⟩ := by
    refine (Decode.outcome_bind_of_reads (reads_text_of_encodeText hfirst).ofRead _ _ _).trans ?_
    rw [List.append_nil]
    exact Decode.outcome_of_reads ((reads_text_of_encodeText hsecond).ofRead.map _) _
  simp only [intent, hd]
  rfl

end Machine

end RuleMachine
