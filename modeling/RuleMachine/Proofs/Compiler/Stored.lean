import RuleMachine.Proofs.Codec.Emitted
import RuleMachine.Proofs.Compact.Places
import RuleMachine.Proofs.Compiler.Lowered

set_option autoImplicit false

namespace RuleMachine

def Program.Emitted (p : Program) : Prop := ∀ i ∈ p, i.Emitted

/-- Lines that resolve to emitted instructions. -/
def CodeLine.Emitted : CodeLine → Prop
  | .instruction i => i.Built
  | .jump op _ => op.isJump = true

def Assembly.Emitted (code : Assembly) : Prop := ∀ line ∈ code, line.Emitted

namespace Assembly

variable {code : Assembly}

theorem emitted_instructions {is : List Instruction} (h : ∀ i ∈ is, i.Built) :
    Assembly.Emitted (is.map .instruction) := by
  intro line hl
  obtain ⟨i, hi, rfl⟩ := List.mem_map.1 hl
  exact h i hi

theorem Emitted.resolveFrom {marks : List (String × Nat)} {index : Nat} {p : Program}
    (hc : code.Emitted) (h : resolveFrom marks index code = .ok p) : p.Emitted := by
  induction code generalizing index p with
  | nil =>
    cases h
    exact List.forall_mem_nil _
  | cons line rest ih =>
    obtain ⟨hline, hrest⟩ := List.forall_mem_cons.1 hc
    obtain ⟨i, more, rfl, hi, hmore⟩ := resolveFrom_cons_eq_ok h
    refine List.forall_mem_cons.2 ⟨?_, ih hrest hmore⟩
    cases line with
    | instruction j =>
      cases hi
      exact .built hline
    | jump op l =>
      obtain ⟨_, distance, _, _, rfl⟩ := hi
      exact .jump hline distance

theorem Emitted.resolve {p : Program} (hc : code.Emitted) (h : code.resolve = .ok p) :
    p.Emitted := by
  obtain ⟨marks, _, h⟩ := Except.bind_eq_ok.1 h
  exact hc.resolveFrom h

theorem Emitted.cut {front back : Assembly} {l : Label} {i : Instruction} (hf : front.Emitted)
    (mark : l.mark = .ok i) (hb : back.Emitted) :
    Assembly.Emitted (front ++ .instruction i :: back) :=
  List.forall_mem_append.2 ⟨hf, List.forall_mem_cons.2 ⟨.mark mark, hb⟩⟩

end Assembly

theorem Lowered.emitted {success failure : Label} {clause : Clause} {code : Assembly}
    (h : Lowered success failure clause code) : code.Emitted := by
  induction h with
  | leaf select test =>
    exact List.forall_mem_cons.2 ⟨.comparison select test,
      List.forall_mem_cons.2 ⟨rfl, List.forall_mem_cons.2 ⟨rfl, List.forall_mem_nil _⟩⟩⟩
  | allOnly first ih => exact ih
  | anyOnly second ih => exact ih
  | both first mark second ihFirst ihSecond => exact ihFirst.cut mark ihSecond
  | lastOfAll only ih => exact ih
  | firstOfAll first mark more ihFirst ihMore => exact ihFirst.cut mark ihMore
  | lastOfAny only ih => exact ih
  | firstOfAny first mark more ihFirst ihMore => exact ihFirst.cut mark ihMore

theorem Action.built {a : Action} {i : Instruction} (h : a.instruction = .ok i) : i.Built := by
  unfold Action.instruction at h
  split at h
  · exact .scriptCall h
  · exact .action h

theorem forall_of_mapM {α : Type} {f : α → Except CompileCause Instruction} {l : List α}
    {is : List Instruction} {P : Instruction → Prop} (hf : ∀ a i, f a = .ok i → P i)
    (h : l.mapM f = .ok is) : ∀ i ∈ is, P i := by
  induction l generalizing is with
  | nil =>
    cases h
    exact List.forall_mem_nil _
  | cons a l ih =>
    obtain ⟨i, more, hi, hmore, rfl⟩ := Lowering.mapM_cons_eq_ok_iff.1 h
    exact List.forall_mem_cons.2 ⟨hf a i hi, ih hmore⟩

/-- An instruction that is neither a mark nor a jump. -/
def Instruction.Plain (i : Instruction) : Prop := i.isMark = false ∧ i.opcode.isJump = false

theorem Action.plain {a : Action} {i : Instruction} (h : a.instruction = .ok i) : i.Plain := by
  unfold Action.instruction at h
  split at h
  · obtain ⟨_, _, rfl⟩ := Instruction.scriptCall_eq_ok_iff.1 h
    exact ⟨rfl, rfl⟩
  · obtain ⟨_, _, rfl⟩ := Instruction.action_eq_ok_iff.1 h
    exact ⟨rfl, rfl⟩

theorem Instruction.plain_of_comparison {i : Instruction}
    (h : i.opcode.comparisonKind?.isSome = true) : i.Plain := by
  unfold Plain isMark
  cases hi : i.opcode <;> simp_all [Opcode.comparisonKind?, Opcode.isJump]

theorem Instruction.isSome_comparisonKind? {operator fact : String} {value : Scalar} {op : Opcode}
    {i : Instruction} (select : Opcode.select operator value = .ok op)
    (test : Instruction.comparison op fact value = .ok i) :
    i.opcode.comparisonKind?.isSome = true := by
  obtain ⟨_, _, _, rfl, _⟩ := Instruction.comparison_eq_ok test
  rw [Opcode.comparisonKind?_of_select select]
  rfl

theorem Rule.plain_head {r : Rule} {start priority : Instruction} {scripts : List Instruction}
    (starts : Instruction.ruleStart r.name = .ok start)
    (ranks : Instruction.priority r.priority = .ok priority)
    (defines : r.scripts.entries.mapM (fun (name, script) =>
      Instruction.scriptDefinition name script.params script.body) = .ok scripts) :
    ∀ i ∈ start :: priority :: scripts, i.Plain := by
  obtain ⟨_, _, rfl⟩ := Instruction.ruleStart_eq_ok_iff.1 starts
  obtain ⟨_, rfl⟩ := Instruction.priority_eq_ok_iff.1 ranks
  have hscripts : ∀ i ∈ scripts, i.Plain := by
    refine forall_of_mapM (fun entry i h => ?_) defines
    obtain ⟨_, _, _, _, _, _, _, rfl⟩ := Instruction.scriptDefinition_eq_ok h
    exact ⟨rfl, rfl⟩
  exact List.forall_mem_cons.2 ⟨⟨rfl, rfl⟩, List.forall_mem_cons.2 ⟨⟨rfl, rfl⟩, hscripts⟩⟩

theorem length_of_mapM {α : Type} {f : α → Except CompileCause Instruction} {l : List α}
    {is : List Instruction} (h : l.mapM f = .ok is) : is.length = l.length := by
  induction l generalizing is with
  | nil =>
    cases h
    rfl
  | cons a l ih =>
    obtain ⟨i, more, _, hmore, rfl⟩ := Lowering.mapM_cons_eq_ok_iff.1 h
    rw [List.length_cons, List.length_cons, ih hmore]

theorem Rule.Lowered.emitted {r : Rule} {code : Assembly} (h : r.Lowered code) :
    code.Emitted := by
  cases h with
  | intro starts ranks defines decides enters acts leaves =>
    have hscripts := forall_of_mapM (fun _ _ h => Instruction.Built.scriptDefinition h) defines
    have hactions := forall_of_mapM (fun _ _ h => Action.built h) acts
    have hhead := Assembly.emitted_instructions <|
      List.forall_mem_cons.2 ⟨.ruleStart starts, List.forall_mem_cons.2 ⟨.priority ranks, hscripts⟩⟩
    have htail := Assembly.emitted_instructions <| List.forall_mem_append.2
      ⟨List.forall_mem_cons.2 ⟨.mark enters, hactions⟩,
        List.forall_mem_cons.2
          ⟨.mark leaves, List.forall_mem_cons.2 ⟨.ruleEnd, List.forall_mem_nil _⟩⟩⟩
    exact List.forall_mem_append.2 ⟨List.forall_mem_append.2 ⟨hhead, decides.emitted⟩, htail⟩

theorem Ruleset.Joined.emitted {rules : Ruleset} {p : Program} (h : rules.Joined p) :
    p.Emitted := by
  induction h with
  | nil => exact List.forall_mem_nil _
  | cons lowered resolved joined ih =>
    exact List.forall_mem_append.2 ⟨lowered.emitted.resolve resolved, ih⟩

theorem Program.Emitted.compact {p q : Program} (hp : p.Emitted) (h : p.compact = .ok q) :
    q.Emitted := by
  intro j hj
  obtain ⟨b, hb⟩ := List.getElem?_of_mem hj
  obtain ⟨a, i, hi, _, hc, _⟩ := Program.exists_of_getElem?_compact h hb
  cases hjump : i.opcode.isJump with
  | false =>
    rw [Program.compactInstruction_of_not_jump hjump] at hc
    cases hc
    exact hp _ (List.mem_of_getElem? hi)
  | true =>
    obtain ⟨_, _, distance, _, _, _, rfl, _⟩ := Program.compactInstruction_of_jump hc hjump
    exact .jump hjump distance

theorem Compiler.emitted_of_compile {c : Compiler} {rules : Ruleset} {p : Program}
    (h : (c.compile rules).1 = .ok p) : p.Emitted := by
  obtain ⟨full, hjoined, hp⟩ := Compiler.joined_of_compile h
  cases hp with
  | inl hp => exact hp ▸ hjoined.emitted
  | inr hp => exact hjoined.emitted.compact hp

theorem Program.Emitted.exact {p : Program} (h : p.Emitted) : p.Exact := fun i hi => (h i hi).exact

/-- Loading and writing undo each other between the bytes that load and the exact programs, and
whatever a compiler gives is exact. -/
theorem Program.file_form :
    (∀ (b : Bytes) (p : Program), load b = .ok p →
      p.Exact ∧ p.bytes = b ∧ p.byteLength = b.length) ∧
    (∀ p : Program, p.Exact → load p.bytes = .ok p) ∧
    (∀ (c : Compiler) (rules : Ruleset) (p : Program), (c.compile rules).1 = .ok p →
      p.Exact ∧ load p.bytes = .ok p) := by
  refine ⟨?_, ?_, ?_⟩
  · intro b p h
    obtain ⟨hexact, rfl⟩ := load_eq_ok_iff.1 h
    exact ⟨hexact, rfl, (bytes_length p).symm⟩
  · intro p h
    exact load_bytes h
  · intro c rules p h
    have hexact := (Compiler.emitted_of_compile h).exact
    exact ⟨hexact, load_bytes hexact⟩

def Ruleset.sample : Ruleset :=
  [⟨"r", 5, .group [.leaf "a" "GT" (.int 1)]
      [.leaf "b" "EQ" (.string "x"), .leaf "c" "NEQ" (.bool true)],
    [⟨"log", "t", .bool true⟩, ⟨"script", "f", .string "y"⟩], .ofList [("f", ⟨["z"], "z"⟩)]⟩]

def Program.sample : Program :=
  [⟨.ruleStart, [1, 0, 114]⟩, ⟨.priority, [5, 0, 0, 0]⟩,
    ⟨.scriptDef, [1, 0, 102, 1, 0, 0, 0, 1, 0, 122, 1, 0, 122]⟩,
    ⟨.floatGt, [1, 0, 97, 0, 0, 128, 63]⟩, .jump .jumpIfTrue 1, .jump .jumpIfFalse 11,
    ⟨.label, [2, 0, 76, 50]⟩,
    ⟨.strEq, [1, 0, 98, 1, 0, 120]⟩, .jump .jumpIfTrue 5, .jump .jumpIfFalse 0,
    ⟨.label, [2, 0, 76, 51]⟩,
    ⟨.boolNeq, [1, 0, 99, 1]⟩, .jump .jumpIfTrue 1, .jump .jumpIfFalse 3,
    ⟨.label, [2, 0, 76, 48]⟩,
    ⟨.execAction, [3, 0, 108, 111, 103, 1, 0, 116, 4, 0, 116, 114, 117, 101]⟩,
    ⟨.scriptCall, [1, 0, 102, 1, 0, 121]⟩,
    ⟨.label, [2, 0, 76, 49]⟩, ⟨.ruleEnd, []⟩]

theorem Ruleset.compile_sample :
    ((Compiler.mk ⟨false, false⟩ .empty).compile .sample).1 = .ok .sample := rfl

theorem Program.file_form_sample :
    Program.load Program.sample.bytes = .ok .sample ∧ Program.sample.byteLength = 116 := by
  have hload := (file_form.2.2 _ _ _ Ruleset.compile_sample).2
  exact ⟨hload, (file_form.1 _ _ hload).2.2⟩

end RuleMachine
