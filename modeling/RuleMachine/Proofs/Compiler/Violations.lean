import Mathlib.Algebra.Group.Nat.Defs
import RuleMachine.Proofs.Compiler.Stored

set_option autoImplicit false

namespace RuleMachine

/-- A text that an operand can hold. -/
def Fits (s : String) : Prop := s.utf8ByteSize ≤ 65535

instance (s : String) : Decidable (Fits s) := inferInstanceAs (Decidable (_ ≤ _))

def ScalarKind.symbols : ScalarKind → List String
  | .number => ["GT", "LT", "GTE", "LTE", "EQ", "NEQ"]
  | .string => ["EQ", "NEQ", "CONTAINS", "NOT_CONTAINS"]
  | .bool => ["EQ", "NEQ"]

/-- Every group has a child, and every leaf an operator for its value and texts that fit. -/
inductive Condition.Encodable : Condition → Prop where
  | leaf {fact operator : String} {value : Scalar} (accepted : operator ∈ value.kind.symbols)
      (fact_fits : Fits fact) (value_fits : ∀ s, value = .string s → Fits s) :
      Encodable (.leaf fact operator value)
  | group {all any : List Condition} (inhabited : all ≠ [] ∨ any ≠ [])
      (all_encodable : ∀ c ∈ all, Encodable c) (any_encodable : ∀ c ∈ any, Encodable c) :
      Encodable (.group all any)

def Script.Encodable (name : String) (s : Script) : Prop :=
  Fits name ∧ (∀ param ∈ s.params, Fits param) ∧ Fits s.body

def Action.Encodable (a : Action) : Prop :=
  (a.kind ≠ "script" → Fits a.kind) ∧ Fits a.target ∧ Fits a.value.display

structure Rule.Encodable (r : Rule) : Prop where
  name : Fits r.name
  priority : r.priority.toNat ≤ 2147483647
  scripts : ∀ entry ∈ r.scripts.entries, entry.2.Encodable entry.1
  conditions : r.conditions.Encodable
  actions : ∀ a ∈ r.actions, a.Encodable

def textViolations (s : String) : List CompileCause :=
  if Fits s then [] else [.encoding (.textTooLong s.utf8ByteSize)]

def Scalar.violations : Scalar → List CompileCause
  | .string s => textViolations s
  | _ => []

mutual

def Condition.violations : Condition → List CompileCause
  | .leaf fact operator value =>
    (if operator ∈ value.kind.symbols then [] else [.unsupportedOperator operator value.kind])
      ++ (textViolations fact ++ value.violations)
  | .group all any =>
    (if all.isEmpty && any.isEmpty then [.emptyCondition] else [])
      ++ (violationsOf all ++ violationsOf any)

def violationsOf : List Condition → List CompileCause
  | [] => []
  | c :: rest => c.violations ++ violationsOf rest

end

def Script.violations (name : String) (s : Script) : List CompileCause :=
  textViolations name ++ (s.params.flatMap textViolations ++ textViolations s.body)

def Action.violations (a : Action) : List CompileCause :=
  (if a.kind = "script" then [] else textViolations a.kind)
    ++ (textViolations a.target ++ textViolations a.value.display)

def priorityViolations (priority : UInt32) : List CompileCause :=
  if priority.toNat ≤ 2147483647 then [] else [.priorityOutOfRange priority]

/-- What is wrong with a rule, in the order in which compiling comes to it. -/
def Rule.violations (r : Rule) : List CompileCause :=
  textViolations r.name ++ (priorityViolations r.priority
    ++ (r.scripts.entries.flatMap (fun (name, script) => script.violations name)
    ++ (r.conditions.violations ++ r.actions.flatMap Action.violations)))

theorem textViolations_eq_nil_iff {s : String} : textViolations s = [] ↔ Fits s := by
  unfold textViolations
  split <;> simp [*]

theorem Scalar.violations_eq_nil_iff {v : Scalar} :
    v.violations = [] ↔ ∀ s, v = .string s → Fits s := by
  cases v <;> simp [Scalar.violations, textViolations_eq_nil_iff]

mutual

theorem Condition.violations_eq_nil_iff (c : Condition) : c.violations = [] ↔ c.Encodable := by
  cases c with
  | leaf fact operator value =>
    simp only [Condition.violations, List.append_eq_nil_iff, textViolations_eq_nil_iff,
      Scalar.violations_eq_nil_iff]
    constructor
    · intro h
      obtain ⟨hoperator, hfact, hvalue⟩ := h
      refine .leaf ?_ hfact hvalue
      split at hoperator
      · assumption
      · cases hoperator
    · intro h
      cases h with
      | leaf accepted fact_fits value_fits => exact ⟨if_pos accepted, fact_fits, value_fits⟩
  | group all any =>
    simp only [Condition.violations, List.append_eq_nil_iff, violationsOf_eq_nil_iff]
    constructor
    · intro h
      obtain ⟨hempty, hall, hany⟩ := h
      refine .group ?_ hall hany
      cases all with
      | cons c all => exact .inl (List.cons_ne_nil c all)
      | nil =>
        cases any with
        | cons c any => exact .inr (List.cons_ne_nil c any)
        | nil => cases hempty
    · intro h
      cases h with
      | group inhabited all_encodable any_encodable =>
        refine ⟨if_neg ?_, all_encodable, any_encodable⟩
        simpa [Classical.or_iff_not_imp_left] using inhabited

theorem violationsOf_eq_nil_iff (cs : List Condition) :
    violationsOf cs = [] ↔ ∀ c ∈ cs, c.Encodable := by
  cases cs with
  | nil => simp [violationsOf]
  | cons c rest =>
    rw [violationsOf, List.append_eq_nil_iff, c.violations_eq_nil_iff, violationsOf_eq_nil_iff rest,
      List.forall_mem_cons]

end

theorem Script.violations_eq_nil_iff {name : String} {s : Script} :
    s.violations name = [] ↔ s.Encodable name := by
  simp only [Script.violations, Script.Encodable, List.append_eq_nil_iff, List.flatMap_eq_nil_iff,
    textViolations_eq_nil_iff]

theorem Action.violations_eq_nil_iff {a : Action} : a.violations = [] ↔ a.Encodable := by
  simp only [Action.violations, Action.Encodable, List.append_eq_nil_iff,
    textViolations_eq_nil_iff]
  by_cases hkind : a.kind = "script"
  · simp [hkind]
  · simp [hkind, textViolations_eq_nil_iff]

theorem priorityViolations_eq_nil_iff {n : UInt32} :
    priorityViolations n = [] ↔ n.toNat ≤ 2147483647 := by
  unfold priorityViolations
  split <;> simp [*]

theorem Rule.violations_eq_nil_iff {r : Rule} : r.violations = [] ↔ r.Encodable := by
  simp only [Rule.violations, List.append_eq_nil_iff, List.flatMap_eq_nil_iff,
    textViolations_eq_nil_iff, priorityViolations_eq_nil_iff, Script.violations_eq_nil_iff,
    Action.violations_eq_nil_iff, r.conditions.violations_eq_nil_iff]
  constructor
  · intro h
    obtain ⟨name, priority, scripts, conditions, actions⟩ := h
    exact ⟨name, priority, scripts, conditions, actions⟩
  · intro h
    exact ⟨h.name, h.priority, h.scripts, h.conditions, h.actions⟩

/-- An answer is a value if there are no violations, and else the first of them. -/
def Reports {α : Type} (x : Except CompileCause α) (violations : List CompileCause) : Prop :=
  match x with
  | .ok _ => violations = []
  | .error e => violations.head? = some e

namespace Reports

variable {α β : Type} {x : Except CompileCause α} {f : α → Except CompileCause β}
  {vs ws : List CompileCause}

theorem bind (h : Reports x vs) (hnext : ∀ a, Reports (f a) ws) : Reports (x >>= f) (vs ++ ws) := by
  cases x with
  | ok a =>
    obtain rfl : vs = [] := h
    exact hnext a
  | error e =>
    have hhead : vs.head? = some e := h
    change (vs ++ ws).head? = some e
    rw [List.head?_append, hhead, Option.some_or]

theorem map (h : Reports x vs) (g : α → β) : Reports (x >>= fun a => pure (g a)) vs := by
  have hbind : Reports (x >>= fun a => pure (g a)) (vs ++ []) := h.bind fun _ => rfl
  rwa [List.append_nil] at hbind

end Reports

theorem reports_encodeText (s : String) : Reports (encodeText s) (textViolations s) := by
  unfold encodeText Operand.text textViolations
  simp only [length_textBytes]
  by_cases h : Fits s
  · have hsize : s.utf8ByteSize ≤ maxTextLength := h
    rw [if_pos h, if_pos hsize]
    rfl
  · have hsize : ¬ s.utf8ByteSize ≤ maxTextLength := h
    rw [if_neg h, if_neg hsize]
    rfl

theorem reports_encodeTexts (l : List String) :
    Reports (encodeTexts l) (l.flatMap textViolations) := by
  induction l with
  | nil => rfl
  | cons s l ih =>
    rw [encodeTexts, List.flatMap_cons]
    exact (reports_encodeText s).bind fun _ => ih.map _

namespace Instruction

theorem reports_ruleStart (name : String) : Reports (ruleStart name) (textViolations name) :=
  (reports_encodeText name).map _

theorem reports_priority (n : UInt32) :
    Reports (Instruction.priority n) (priorityViolations n) := by
  unfold Instruction.priority priorityViolations
  by_cases h : n.toNat ≤ 2147483647
  · rw [if_pos h, if_pos (by omega)]
    rfl
  · rw [if_neg h, if_neg (by omega)]
    rfl

theorem reports_scriptDefinition {name : String} {s : Script} (h : s.params.length < 2 ^ 31) :
    Reports (scriptDefinition name s.params s.body) (s.violations name) := by
  have hcount : ¬ 0x80000000 ≤ s.params.length := by omega
  have htexts := reports_encodeTexts (s.params ++ [s.body])
  rw [List.flatMap_append, List.flatMap_singleton] at htexts
  unfold scriptDefinition
  rw [if_neg hcount]
  exact (reports_encodeText name).bind fun _ => htexts.map _

theorem reports_comparison (op : Opcode) (fact : String) (value : Scalar) :
    Reports (comparison op fact value) (textViolations fact ++ value.violations) := by
  refine (reports_encodeText fact).bind fun name => ?_
  cases value with
  | int n => rfl
  | float x => rfl
  | bool b => rfl
  | string s => exact (reports_encodeText s).map _

end Instruction

theorem Action.reports_instruction (a : Action) : Reports a.instruction a.violations := by
  unfold Action.instruction Action.violations Action.scriptKind
  by_cases h : a.kind = "script"
  · have htexts := reports_encodeTexts [a.target, a.value.display]
    simp only [List.flatMap_cons, List.flatMap_nil, List.append_nil] at htexts
    rw [if_pos h, if_pos h]
    exact htexts.map _
  · have htexts := reports_encodeTexts [a.kind, a.target, a.value.display]
    simp only [List.flatMap_cons, List.flatMap_nil, List.append_nil] at htexts
    rw [if_neg h, if_neg h]
    exact htexts.map _

theorem ScalarKind.symbols_eq (kind : ScalarKind) :
    kind.symbols = kind.operators.map Operator.symbol := by
  cases kind <;> rfl

theorem Operator.ofSymbol?_symbol (op : Operator) : ofSymbol? op.symbol = some op := by
  cases op <;> rfl

theorem Operator.symbol_of_ofSymbol? {s : String} {op : Operator} (h : ofSymbol? s = some op) :
    op.symbol = s := by
  simpa using List.find?_some h

theorem Operator.mem_all (op : Operator) : op ∈ all := by cases op <;> decide

theorem ScalarKind.mem_symbols_iff {kind : ScalarKind} {operator : String} :
    operator ∈ kind.symbols ↔ ∃ op, (Operator.ofSymbol? operator).bind kind.opcode? = some op := by
  simp only [symbols_eq, operators, List.mem_map, List.mem_filter, Operator.mem_all, true_and,
    Option.bind_eq_some_iff, Option.isSome_iff_exists]
  constructor
  · intro h
    obtain ⟨o, ⟨op, hop⟩, rfl⟩ := h
    exact ⟨op, o, o.ofSymbol?_symbol, hop⟩
  · intro h
    obtain ⟨op, o, hsymbol, hop⟩ := h
    exact ⟨o, ⟨op, hop⟩, Operator.symbol_of_ofSymbol? hsymbol⟩

theorem Opcode.select_cases (operator : String) (value : Scalar) :
    (operator ∈ value.kind.symbols ∧ ∃ op, select operator value = .ok op) ∨
      (operator ∉ value.kind.symbols ∧ ∃ e, select operator value = .error e ∧
        e.cause = .unsupportedOperator operator value.kind ∧ e.rule = none) := by
  unfold select
  cases h : (Operator.ofSymbol? operator).bind value.kind.opcode? with
  | some op => exact .inl ⟨ScalarKind.mem_symbols_iff.2 ⟨op, h⟩, op, rfl⟩
  | none =>
    refine .inr ⟨fun hmem => ?_, _, rfl, rfl, rfl⟩
    obtain ⟨op, hop⟩ := ScalarKind.mem_symbols_iff.1 hmem
    rw [h] at hop
    cases hop

end RuleMachine
