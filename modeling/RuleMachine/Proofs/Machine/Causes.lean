import RuleMachine.Code.Listing
import RuleMachine.Proofs.Machine.Intent

set_option autoImplicit false

namespace RuleMachine

/-- A comparison met a fact that is missing or of another kind. -/
def RuntimeCause.OverFact : RuntimeCause → Prop
  | .missingFact _ | .factTypeMismatch _ _ _ _ => True
  | _ => False

def Read.scriptHead : Read (String × Int32) := do
  let name ← text
  let count ← int
  return (name, count)

section

variable {α β γ : Type} {P : RuntimeCause → Prop} {c : Cursor}

/-- Where the step fails at the cursor it has one of some causes, or the read fails there as well
and the cause is its error. -/
def Decode.Follows (d : Decode α) (read : Read β) (P : RuntimeCause → Prop) (c : Cursor) : Prop :=
  ∀ cause c', d c = .error cause c' →
    P cause ∨ ∃ e c₁, read c = .error e c₁ ∧ cause = .decode e

namespace Decode.Follows

theorem ofFailsBy {d : Decode α} {read : Read β} (h : FailsBy P d) : d.Follows read P c :=
  fun cause c' hd => .inl (h c cause c' hd)

theorem ofRead (read : Read α) : (Decode.ofRead read).Follows read P c := by
  intro cause c' h
  obtain ⟨e, hread, hcause⟩ := Decode.ofRead_eq_error_iff.1 h
  exact .inr ⟨e, c', hread, hcause⟩

theorem more {d : Decode α} {read : Read β} (h : d.Follows read P c) (next : β → Read γ) :
    d.Follows (read >>= next) P c := by
  intro cause c' hd
  obtain hown | ⟨e, c₁, hread, hcause⟩ := h cause c' hd
  · exact .inl hown
  · exact .inr ⟨e, c₁, EStateM.bind_eq_error.2 (.inl hread), hcause⟩

theorem step {read : Read α} {next : α → Decode β} {rest : α → Read γ}
    (h : ∀ a c₁, read c = .ok a c₁ → (next a).Follows (rest a) P c₁) :
    Follows (Decode.ofRead read >>= next) (read >>= rest) P c := by
  intro cause c' hd
  obtain hfirst | ⟨a, c₁, hfirst, hnext⟩ := EStateM.bind_eq_error.1 hd
  · exact (ofRead read).more rest cause c' hfirst
  · have hread := Decode.ofRead_eq_ok_iff.1 hfirst
    obtain hown | ⟨e, c₂, hrest, hcause⟩ := h a c₁ hread cause c' hnext
    · exact .inl hown
    · exact .inr ⟨e, c₂, EStateM.bind_eq_error.2 (.inr ⟨a, c₁, hread, hrest⟩), hcause⟩

theorem bind {d : Decode α} {next : α → Decode β} {read : Read γ} (h : d.Follows read P c)
    (hnext : ∀ a, FailsBy P (next a)) : Follows (d >>= next) read P c := by
  intro cause c' hd
  obtain hfirst | ⟨a, c₁, _, hsecond⟩ := EStateM.bind_eq_error.1 hd
  · exact h cause c' hfirst
  · exact .inl (hnext a c₁ cause c' hsecond)

end Decode.Follows

end

namespace Machine

variable {m : Machine} {i : Instruction} {r : Registers} {cause : RuntimeCause}

def Refuses (m : Machine) (cause : RuntimeCause) : Prop :=
  m.settings.factPolicy = .strict ∧ cause.OverFact

/-- Everything that an instruction can fail for by itself. -/
inductive Fails (m : Machine) (i : Instruction) (r : Registers) : RuntimeCause → Prop where
  | unreadable {e : OperandError} (marked : i.read (i.opcode.operandText r.address) = .error e) :
      Fails m i r (.decode e)
  | negative {name : String} {count : Int32} (opcode : i.opcode = .scriptDef)
      (head : i.read Read.scriptHead = .ok (name, count)) (below : count.toInt < 0) :
      Fails m i r (.invalidCount name count)
  | overFact {cause : RuntimeCause} (refused : m.Refuses cause) : Fails m i r cause
  | outside {target : Int} (jump : i.opcode.isJump = true)
      (beyond : ¬ (0 ≤ target ∧ target ≤ m.program.size)) :
      Fails m i r (.jumpOutOfBounds target m.program.size)

section Follows

variable {c : Cursor} {address : Nat}

theorem failsBy_unreadable (h : cause.OverFact) : FailsBy m.Refuses (m.unreadable cause) := by
  unfold unreadable
  cases hp : m.settings.factPolicy with
  | lenient => exact FailsBy.pure false
  | strict => exact FailsBy.throw ⟨hp, h⟩

section Comparison

variable {op : Opcode} {kind : ScalarKind} {fact : String} {value : Scalar}

theorem follows_compareValue_number :
    (m.compareValue op .number fact value).Follows Read.single m.Refuses c := by
  refine .bind (.ofRead Read.single) fun operand => ?_
  cases value.asSingle? with
  | some x => exact FailsBy.pure _
  | none => exact failsBy_unreadable trivial

theorem follows_compareValue_string :
    (m.compareValue op .string fact value).Follows Read.text m.Refuses c := by
  refine .bind (.ofRead Read.text) fun operand => ?_
  cases value.asString? with
  | some s => exact FailsBy.pure _
  | none => exact failsBy_unreadable trivial

theorem follows_compareValue_bool :
    (m.compareValue op .bool fact value).Follows Read.bool m.Refuses c := by
  refine .bind (.ofRead Read.bool) fun operand => ?_
  cases value.asBool? with
  | some b => exact FailsBy.pure _
  | none => exact failsBy_unreadable trivial

theorem follows_compare_of {α : Type} {operand : Read α} {shown : String → α → Read String}
    (h : ∀ fact value c, (m.compareValue op kind fact value).Follows operand m.Refuses c) :
    (m.compare op kind).Follows (do
      let fact ← Read.text
      let x ← operand
      shown fact x) m.Refuses c := by
  refine .step fun fact c₁ _ => ?_
  cases m.facts.find? fact with
  | none =>
    have hmissing : RuntimeCause.OverFact (.missingFact fact) := trivial
    exact .ofFailsBy ((failsBy_unreadable hmissing).bind fun _ => FailsBy.pure _)
  | some value =>
    exact .more (.bind (h fact value c₁) fun _ => FailsBy.pure _) _

theorem follows_compare (h : op.comparisonKind? = some kind) :
    (m.compare op kind).Follows (op.operandText address) m.Refuses c := by
  cases op with
  | floatGt | floatLt | floatGte | floatLte | floatEq | floatNeq =>
    cases h
    exact follows_compare_of fun _ _ _ => follows_compareValue_number
  | strEq | strNeq | strContains | strNotContains =>
    cases h
    exact follows_compare_of fun _ _ _ => follows_compareValue_string
  | boolEq | boolNeq =>
    cases h
    exact follows_compare_of fun _ _ _ => follows_compareValue_bool
  | _ => cases h

end Comparison

theorem follows_decodeAction (rule : Option String) :
    (decodeAction rule).Follows (Opcode.execAction.operandText address) (fun _ => False) c :=
  .step fun _ _ _ => .step fun _ _ _ => .step fun _ _ _ => .ofFailsBy (FailsBy.pure _)

theorem follows_decodeCall (rule : Option String) :
    (decodeCall rule).Follows (Opcode.scriptCall.operandText address) (fun _ => False) c :=
  .step fun _ _ _ => .step fun _ _ _ => .ofFailsBy (FailsBy.pure _)

theorem follows_decodeDefinition (rule : Option String) :
    (decodeDefinition rule).Follows (Opcode.scriptDef.operandText address)
      (fun cause => ∃ name count c', cause = .invalidCount name count ∧ count.toInt < 0 ∧
        Read.scriptHead c = .ok (name, count) c') c := by
  refine .step fun name c₁ hname => .step fun count c₂ hcount => ?_
  split
  · rename_i below
    have hhead : Read.scriptHead c = .ok (name, count) c₂ := by
      refine EStateM.bind_eq_ok.2 ⟨name, c₁, hname, ?_⟩
      exact EStateM.bind_eq_ok.2 ⟨count, c₂, hcount, rfl⟩
    intro cause c' h
    obtain hthrow | ⟨_, _, hthrow, _⟩ := EStateM.bind_eq_error.1 h
    · cases hthrow
      exact .inl ⟨name, count, c₂, rfl, below, hhead⟩
    · cases hthrow
  · exact .step fun _ _ _ => .step fun _ _ _ => .ofFailsBy (FailsBy.pure _)

end Follows

section Intent

variable {α : Type} {op : Opcode} {P : RuntimeCause → Prop} {d : Decode α}

theorem fails_of_decode {next : α → Except RuntimeCause Intent} (hop : i.opcode = op)
    (hd : d.Follows (op.operandText r.address) P (Cursor.start i.operands))
    (own : ∀ cause, P cause → m.Fails i r cause)
    (hnext : ∀ a, next a = .error cause → m.Fails i r cause)
    (h : i.decode d >>= next = .error cause) : m.Fails i r cause := by
  obtain hdecode | ⟨a, _, hrest⟩ := Except.bind_eq_error.1 h
  · obtain ⟨c, hc⟩ := Instruction.decode_eq_error_iff.1 hdecode
    obtain hown | ⟨e, c₁, hread, rfl⟩ := hd cause c hc
    · exact own cause hown
    · rw [← hop] at hread
      exact .unreadable (Instruction.read_eq_error_iff.2 ⟨c₁, hread⟩)
  · exact hnext a hrest

theorem fails_of_plain {done : α → Intent} (hop : i.opcode = op)
    (hd : d.Follows (op.operandText r.address) (fun _ => False) (Cursor.start i.operands))
    (h : (i.decode d >>= fun a => pure (done a)) = .error cause) : m.Fails i r cause :=
  fails_of_decode hop hd (fun _ hfalse => hfalse.elim) (fun _ hpure => by cases hpure) h

theorem fails_of_branch {wanted : Bool} (jump : i.opcode.isJump = true) (hop : i.opcode = op)
    (hd : (Decode.ofRead Read.int).Follows (op.operandText r.address) (fun _ => False)
      (Cursor.start i.operands))
    (h : m.branch wanted i r = .error cause) : m.Fails i r cause := by
  refine fails_of_decode hop hd (fun _ hfalse => hfalse.elim) (fun offset htaken => ?_) h
  split at htaken
  · obtain hland | ⟨_, _, hpure⟩ := Except.bind_eq_error.1 htaken
    · unfold land at hland
      dsimp only at hland
      split at hland
      · cases hland
      · rename_i beyond
        cases hland
        exact .outside jump beyond
    · cases hpure
  · cases htaken

theorem fails_of_test {kind : ScalarKind} (hkind : i.opcode.comparisonKind? = some kind)
    (h : m.test kind i r = .error cause) : m.Fails i r cause :=
  fails_of_decode rfl (follows_compare hkind) (fun _ refused => .overFact refused)
    (fun _ hpure => by cases hpure) h

theorem fails_of_intent (h : m.intent i r = .error cause) : m.Fails i r cause := by
  cases hkind : i.opcode.comparisonKind? with
  | some kind =>
    rw [intent_of_comparisonKind? hkind] at h
    exact fails_of_test hkind h
  | none =>
    unfold intent at h
    cases hop : i.opcode with
    | floatGt | floatLt | floatGte | floatLte | floatEq | floatNeq | strEq | strNeq | strContains
    | strNotContains | boolEq | boolNeq =>
      rw [hop] at hkind
      cases hkind
    | nop | label | ruleEnd =>
      rw [hop] at h
      cases h
    | jumpIfTrue | jumpIfFalse =>
      rw [hop] at h
      exact fails_of_branch (by rw [hop]; rfl) hop (.more (.ofRead Read.int) _) h
    | ruleStart =>
      rw [hop] at h
      exact fails_of_plain hop (.more (.ofRead Read.text) _) h
    | priority =>
      rw [hop] at h
      exact fails_of_plain hop (.more (.ofRead Read.int) _) h
    | execAction =>
      rw [hop] at h
      exact fails_of_plain hop (follows_decodeAction r.rule) h
    | scriptCall =>
      rw [hop] at h
      exact fails_of_plain hop (follows_decodeCall r.rule) h
    | scriptDef =>
      rw [hop] at h
      refine fails_of_decode hop (follows_decodeDefinition r.rule) (fun cause hown => ?_)
        (fun _ hpure => by cases hpure) h
      obtain ⟨name, count, c, rfl, below, hhead⟩ := hown
      exact .negative hop (Instruction.read_eq_ok_iff.2 ⟨c, hhead⟩) below

end Intent

end Machine

end RuleMachine
