import RuleMachine.Proofs.Machine.Ends
import RuleMachine.Proofs.Machine.Intent
/-!
What a run has done, told by the instructions that it has completed. An event is read from the
operands of an instruction alone, without the registers and without the host, so that a report can
be compared with what was executed.
-/

set_option autoImplicit false

namespace RuleMachine

/-- What executing an instruction does to rules and to the host. -/
inductive Event where
  | enters (rule : String)
  | leaves
  | acts (kind target value : String)
  | defines (name : String) (params : List String) (body : String)
  | calls (name argument : String)
  deriving DecidableEq, Repr

namespace Event

def boundary? : Event → Option (Option String)
  | enters rule => some (some rule)
  | leaves => some none
  | _ => none

def isEffect : Event → Bool
  | acts _ _ _ | calls _ _ => true
  | _ => false

def ruleAfter (events : List Event) : Option String :=
  (events.filterMap boundary?).getLast?.join

def opensWithEffect (events : List Event) : Bool :=
  (events.takeWhile (·.boundary?.isNone)).any isEffect

/-- The names of the beginnings of rules that an effect follows before the next rule begins or
ends. -/
def firedRules : List Event → List String
  | [] => []
  | enters rule :: rest =>
    if opensWithEffect rest then rule :: firedRules rest else firedRules rest
  | _ :: rest => firedRules rest

def actionsAfter (before : List Event) : List Event → List ActionCall
  | [] => []
  | acts kind target value :: rest =>
    ⟨ruleAfter before, kind, target, value⟩ ::
      actionsAfter (before ++ [acts kind target value]) rest
  | e :: rest => actionsAfter (before ++ [e]) rest

def definition? : Event → Option (String × List String × String)
  | defines name params body => some (name, params, body)
  | _ => none

def call? : Event → Option (String × String)
  | calls name argument => some (name, argument)
  | _ => none

end Event

def Record.extend (record : Record) (before events : List Event) : Record where
  actions := record.actions ++ Event.actionsAfter before events
  scripts := record.scripts.insertAll (events.filterMap Event.definition?)
  scriptCalls := record.scriptCalls ++ events.filterMap Event.call?

namespace Read

def pair : Read (String × String) := do
  let first ← text
  return (first, ← text)

def triple : Read (String × String × String) := do
  let first ← text
  return (first, ← pair)

def definition : Read (String × List String × String) := do
  let name ← text
  let count ← int
  let params ← texts count.toInt.toNat
  return (name, params, ← text)

end Read

def Instruction.event? (i : Instruction) : Option Event :=
  match i.opcode with
  | .ruleStart => (i.read Read.text).toOption.map .enters
  | .ruleEnd => some .leaves
  | .execAction =>
    (i.read Read.triple).toOption.map fun (kind, target, value) => .acts kind target value
  | .scriptDef =>
    (i.read Read.definition).toOption.map fun (name, params, body) => .defines name params body
  | .scriptCall => (i.read Read.pair).toOption.map fun (name, argument) => .calls name argument
  | _ => none

namespace Machine

variable {σ : Type} (m : Machine) (host : Host σ)

/-- The instructions that some number of steps of a run complete, in order. -/
def completed : Nat → Registers → σ → List Instruction
  | 0, _, _ => []
  | n + 1, r, s =>
    match m.program[r.address]?, m.advance host r s with
    | some i, (.running next, s) => i :: completed n next s
    | _, _ => []

def events (n : Nat) (r : Registers) (s : σ) : List Event :=
  (m.completed host n r s).filterMap Instruction.event?

end Machine

section Decoding

variable {i : Instruction} {rule : Option String}

theorem Machine.read_of_decodeAction {call : ActionCall}
    (h : i.decode (decodeAction rule) = .ok call) :
    ∃ kind target value, i.read Read.triple = .ok (kind, target, value) ∧
      call = ⟨rule, kind, target, value⟩ := by
  simp only [Instruction.decode_eq_ok_iff, decodeAction, EStateM.bind_eq_ok,
    Decode.ofRead_eq_ok_iff] at h
  obtain ⟨c, kind, c₁, hkind, target, c₂, htarget, value, c₃, hvalue, hpure⟩ := h
  cases hpure
  refine ⟨kind, target, value, Instruction.read_eq_ok_iff.2 ⟨c, ?_⟩, rfl⟩
  simp only [Read.triple, Read.pair, EStateM.bind_eq_ok]
  exact ⟨kind, c₁, hkind, _, c, ⟨target, c₂, htarget, value, c, hvalue, rfl⟩, rfl⟩

theorem Machine.read_of_decodeCall {call : ScriptCall}
    (h : i.decode (decodeCall rule) = .ok call) :
    ∃ name argument, i.read Read.pair = .ok (name, argument) ∧
      call = ⟨rule, name, argument⟩ := by
  simp only [Instruction.decode_eq_ok_iff, decodeCall, EStateM.bind_eq_ok,
    Decode.ofRead_eq_ok_iff] at h
  obtain ⟨c, name, c₁, hname, argument, c₂, hargument, hpure⟩ := h
  cases hpure
  refine ⟨name, argument, Instruction.read_eq_ok_iff.2 ⟨c, ?_⟩, rfl⟩
  simp only [Read.pair, EStateM.bind_eq_ok]
  exact ⟨name, c₁, hname, argument, c, hargument, rfl⟩

theorem Machine.read_of_decodeDefinition {definition : ScriptDefinition}
    (h : i.decode (decodeDefinition rule) = .ok definition) :
    ∃ name params body, i.read Read.definition = .ok (name, params, body) ∧
      definition = ⟨rule, name, params, body⟩ := by
  obtain ⟨c, h⟩ := Instruction.decode_eq_ok_iff.1 h
  obtain ⟨name, c₁, hname, h⟩ := EStateM.bind_eq_ok.1 h
  obtain ⟨count, c₂, hcount, h⟩ := EStateM.bind_eq_ok.1 h
  split at h
  · obtain ⟨_, _, hthrow, _⟩ := EStateM.bind_eq_ok.1 h
    cases hthrow
  · obtain ⟨params, c₃, hparams, h⟩ := EStateM.bind_eq_ok.1 h
    obtain ⟨body, c₄, hbody, hpure⟩ := EStateM.bind_eq_ok.1 h
    cases hpure
    rw [Decode.ofRead_eq_ok_iff] at hname hcount hparams hbody
    refine ⟨name, params, body, Instruction.read_eq_ok_iff.2 ⟨c, ?_⟩, rfl⟩
    simp only [Read.definition, EStateM.bind_eq_ok]
    exact ⟨name, c₁, hname, count, c₂, hcount, params, c₃, hparams, body, c, hbody, rfl⟩

end Decoding

structure Report.Alike (report next : Report) : Prop where
  firedRules : next.firedRules = report.firedRules
  actions : next.actions = report.actions
  scripts : next.scripts = report.scripts

structure Registers.Alike (r next : Registers) : Prop where
  rule : next.rule = r.rule
  ruleFired : next.ruleFired = r.ruleFired
  report : r.report.Alike next.report

def Registers.pending? (r : Registers) : Option String := if r.ruleFired then none else r.rule

/-- What an instruction asks for, told by its event. -/
inductive Registers.Enacts (r : Registers) : Option Event → Intent → Prop where
  | nothing {next : Registers} (alike : r.Alike next) : Enacts r none ⟨none, next⟩
  | enters {rule : String} {next : Registers} (inside : next.rule = some rule)
      (fresh : next.ruleFired = false) (report : r.report.Alike next.report) :
      Enacts r (some (.enters rule)) ⟨none, next⟩
  | leaves {next : Registers} (outside : next.rule = none) (fresh : next.ruleFired = false)
      (report : r.report.Alike next.report) : Enacts r (some .leaves) ⟨none, next⟩
  | acts {kind target value : String} {next : Registers} (rule : next.rule = r.rule)
      (fired : next.ruleFired = true)
      (firedRules : next.report.firedRules = r.report.firedRules ++ r.pending?.toList)
      (actions : next.report.actions = r.report.actions + 1)
      (scripts : next.report.scripts = r.report.scripts) :
      Enacts r (some (.acts kind target value))
        ⟨some (.action ⟨r.rule, kind, target, value⟩), next⟩
  | defines {name : String} {params : List String} {body : String} {next : Registers}
      (alike : r.Alike next) : Enacts r (some (.defines name params body))
        ⟨some (.definition ⟨r.rule, name, params, body⟩), next⟩
  | calls {name argument : String} {next : Registers} (rule : next.rule = r.rule)
      (fired : next.ruleFired = true)
      (firedRules : next.report.firedRules = r.report.firedRules ++ r.pending?.toList)
      (actions : next.report.actions = r.report.actions)
      (scripts : next.report.scripts = r.report.scripts + 1) :
      Enacts r (some (.calls name argument)) ⟨some (.script ⟨r.rule, name, argument⟩), next⟩

theorem Registers.Enacts.counted {r next : Registers} {event? : Option Event}
    {call? : Option HostCall} (h : r.Enacts event? ⟨call?, next⟩) (count : Nat) :
    r.Enacts event? ⟨call?, { next with report.instructions := count }⟩ := by
  have hreport {report : Report} (h : report.Alike next.report) :
      report.Alike { next.report with instructions := count } :=
    ⟨h.firedRules, h.actions, h.scripts⟩
  cases h with
  | nothing alike => exact .nothing ⟨alike.rule, alike.ruleFired, hreport alike.report⟩
  | enters inside fresh report => exact .enters inside fresh (hreport report)
  | leaves outside fresh report => exact .leaves outside fresh (hreport report)
  | acts rule fired firedRules actions scripts =>
    exact .acts rule fired firedRules actions scripts
  | defines alike => exact .defines ⟨alike.rule, alike.ruleFired, hreport alike.report⟩
  | calls rule fired firedRules actions scripts =>
    exact .calls rule fired firedRules actions scripts

namespace Machine

variable {m : Machine} {i : Instruction} {r : Registers} {intent : Intent}

theorem alike_of_intent (h : m.intent i r = .ok intent)
    (plain : i.opcode ∉ [.ruleStart, .ruleEnd, .execAction, .scriptDef, .scriptCall]) :
    intent.call = none ∧ r.Alike intent.next := by
  cases intends_of_intent h with
  | passes kind => exact ⟨rfl, rfl, rfl, rfl, rfl, rfl⟩
  | jumps kind jump inside => exact ⟨rfl, rfl, rfl, rfl, rfl, rfl⟩
  | tests opcode decoded => exact ⟨rfl, rfl, rfl, rfl, rfl, rfl⟩
  | enters opcode decoded => simp [opcode] at plain
  | leaves opcode => simp [opcode] at plain
  | acts opcode decoded => simp [opcode] at plain
  | defines opcode decoded => simp [opcode] at plain
  | calls opcode decoded => simp [opcode] at plain

theorem firedRules_fire (r : Registers) :
    r.fire.rule = r.rule ∧ r.fire.ruleFired = true ∧
      r.fire.report = { r.report with
        firedRules := r.report.firedRules ++ r.pending?.toList } := by
  unfold Registers.fire Registers.pending?
  cases h : r.ruleFired <;> simp [h]

/-- Every instruction that succeeds asks for what its event says. -/
theorem enacts_of_intent (h : m.intent i r = .ok intent) : r.Enacts i.event? intent := by
  unfold Instruction.event?
  cases hop : i.opcode with
  | ruleStart =>
    simp only [Machine.intent, hop] at h
    obtain ⟨rule, decoded, hpure⟩ := Except.bind_eq_ok.1 h
    cases hpure
    obtain ⟨c, hc⟩ := Instruction.decode_eq_ok_iff.1 decoded
    simp only [Instruction.read_of_ofRead hc]
    exact .enters rfl rfl ⟨rfl, rfl, rfl⟩
  | ruleEnd =>
    simp only [Machine.intent, hop] at h
    cases h
    exact .leaves rfl rfl ⟨rfl, rfl, rfl⟩
  | execAction =>
    simp only [Machine.intent, hop] at h
    obtain ⟨call, decoded, hpure⟩ := Except.bind_eq_ok.1 h
    cases hpure
    obtain ⟨kind, target, value, hread, rfl⟩ := read_of_decodeAction decoded
    obtain ⟨hrule, hfired, hreport⟩ := firedRules_fire
      { r with address := r.address + 1, report.actions := r.report.actions + 1 }
    simp only [hread]
    refine .acts hrule hfired ?_ ?_ ?_
    · rw [hreport]
      rfl
    · rw [hreport]
    · rw [hreport]
  | scriptDef =>
    simp only [Machine.intent, hop] at h
    obtain ⟨definition, decoded, hpure⟩ := Except.bind_eq_ok.1 h
    cases hpure
    obtain ⟨name, params, body, hread, rfl⟩ := read_of_decodeDefinition decoded
    simp only [hread]
    exact .defines ⟨rfl, rfl, rfl, rfl, rfl⟩
  | scriptCall =>
    simp only [Machine.intent, hop] at h
    obtain ⟨call, decoded, hpure⟩ := Except.bind_eq_ok.1 h
    cases hpure
    obtain ⟨name, argument, hread, rfl⟩ := read_of_decodeCall decoded
    obtain ⟨hrule, hfired, hreport⟩ := firedRules_fire
      { r with address := r.address + 1, report.scripts := r.report.scripts + 1 }
    simp only [hread]
    refine .calls hrule hfired ?_ ?_ ?_
    · rw [hreport]
      rfl
    · rw [hreport]
    · rw [hreport]
  | _ =>
    obtain ⟨hcall, alike⟩ := alike_of_intent h (by rw [hop]; decide)
    obtain ⟨call?, next⟩ := intent
    obtain rfl : call? = none := hcall
    exact .nothing alike

end Machine

end RuleMachine
