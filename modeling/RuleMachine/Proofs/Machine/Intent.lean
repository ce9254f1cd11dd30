import RuleMachine.Machine.Step
import RuleMachine.Proofs.Codec.Encoding

set_option autoImplicit false

namespace RuleMachine

section Decoding

variable {α : Type} {i : Instruction} {a : α}

theorem Decode.ofRead_eq_ok_iff {read : Read α} {c c' : Cursor} {a : α} :
    Decode.ofRead read c = .ok a c' ↔ read c = .ok a c' := by
  unfold Decode.ofRead
  cases read c <;> simp

theorem Decode.ofRead_eq_error_iff {read : Read α} {c c' : Cursor} {cause : RuntimeCause} :
    Decode.ofRead read c = .error cause c' ↔
      ∃ e, read c = .error e c' ∧ cause = .decode e := by
  unfold Decode.ofRead
  cases read c with
  | ok a c₁ => simp
  | error e c₁ =>
    constructor
    · intro h
      cases h
      exact ⟨e, rfl, rfl⟩
    · intro h
      obtain ⟨_, hread, rfl⟩ := h
      cases hread
      rfl

theorem Instruction.decode_eq_ok_iff {d : Decode α} {a : α} :
    i.decode d = .ok a ↔ ∃ c, d (Cursor.start i.operands) = .ok a c := by
  unfold Instruction.decode
  cases d (Cursor.start i.operands) <;> simp

theorem Instruction.read_eq_ok_iff {read : Read α} {a : α} :
    i.read read = .ok a ↔ ∃ c, read (Cursor.start i.operands) = .ok a c := by
  unfold Instruction.read
  cases read (Cursor.start i.operands) <;> simp

theorem Instruction.decode_eq_error_iff {d : Decode α} {cause : RuntimeCause} :
    i.decode d = .error cause ↔ ∃ c, d (Cursor.start i.operands) = .error cause c := by
  unfold Instruction.decode
  cases d (Cursor.start i.operands) <;> simp

theorem Instruction.read_eq_error_iff {read : Read α} {e : OperandError} :
    i.read read = .error e ↔ ∃ c, read (Cursor.start i.operands) = .error e c := by
  unfold Instruction.read
  cases read (Cursor.start i.operands) <;> simp

theorem Reads.ofRead {read : Read α} {bytes : Bytes} (h : Reads read bytes a) :
    Reads (Decode.ofRead read) bytes a := by
  intro rest offset
  rw [Decode.ofRead, h rest offset]

def Decode.outcome (d : Decode α) (c : Cursor) : Except RuntimeCause α :=
  match d c with
  | .ok a _ => .ok a
  | .error e _ => .error e

theorem Decode.bind_congr {β : Type} {d : Decode α} {next next' : α → Decode β} {c : Cursor}
    (h : ∀ a c', d c = .ok a c' → next a c' = next' a c') : (d >>= next) c = (d >>= next') c := by
  change EStateM.bind d next c = EStateM.bind d next' c
  unfold EStateM.bind
  cases hd : d c with
  | ok a c' => exact h a c' hd
  | error e c' => rfl

theorem Decode.outcome_of_reads {d : Decode α} {bytes : Bytes} (h : Reads d bytes a)
    (offset : Nat) : outcome d ⟨bytes, offset⟩ = .ok a := by
  have hd := h [] offset
  rw [List.append_nil] at hd
  rw [outcome, hd]

theorem Instruction.decode_of_reads {d : Decode α} (h : Reads d i.operands a) :
    i.decode d = .ok a :=
  Decode.outcome_of_reads h 0

theorem Instruction.decode_ofRead (i : Instruction) (read : Read α) :
    i.decode (Decode.ofRead read) = (i.read read).mapError .decode := by
  unfold Instruction.decode Instruction.read Decode.ofRead
  cases read (Cursor.start i.operands) <;> rfl

theorem Instruction.decode_of_read {read : Read α} (h : i.read read = .ok a) :
    i.decode (Decode.ofRead read) = .ok a := by
  rw [decode_ofRead, h]
  rfl

theorem Instruction.read_of_ofRead {read : Read α} {c : Cursor}
    (h : Decode.ofRead read (Cursor.start i.operands) = .ok a c) : i.read read = .ok a :=
  read_eq_ok_iff.2 ⟨c, Decode.ofRead_eq_ok_iff.1 h⟩

theorem Instruction.read_of_jumpOffset? {offset : Int32} (h : i.jumpOffset? = some offset) :
    i.read Read.int = .ok offset := by
  unfold jumpOffset? at h
  split at h
  · cases hr : i.read Read.int with
    | ok b =>
      rw [hr] at h
      cases h
      rfl
    | error e =>
      rw [hr] at h
      cases h
  · cases h

theorem Instruction.jumpOffset?_jump {op : Opcode} (h : op.isJump = true) (offset : Int32) :
    (Instruction.jump op offset).jumpOffset? = some offset := by
  have hr : (Instruction.jump op offset).read Read.int = .ok offset :=
    Instruction.read_of_reads (Operand.reads_int offset)
  rw [jumpOffset?, hr, jump, if_pos h]
  rfl

end Decoding

def Registers.moved (address count : Nat) (r : Registers) : Registers :=
  { r with address := address, report.instructions := count }

def Intent.moved (address count : Nat) (intent : Intent) : Intent :=
  { intent with next := intent.next.moved address count }

theorem Registers.moved_fire (address count : Nat) (r : Registers) :
    (r.moved address count).fire = r.fire.moved address count := by
  cases h : r.ruleFired with
  | true => simp [fire, moved, h]
  | false => simp [fire, moved, h]

namespace Machine

variable {m : Machine} {i : Instruction} {r : Registers}

theorem land_eq_ok_iff {address target : Nat} {offset : Int32} :
    m.land address offset = .ok target ↔
      (target : Int) = address + 1 + offset.toInt ∧ target ≤ m.program.size := by
  unfold land
  dsimp only
  constructor
  · intro h
    split at h
    · cases h
      omega
    · cases h
  · intro h
    rw [if_pos (by omega)]
    congr 1
    omega

/-- Whether a jump is taken. -/
def takes (i : Instruction) (r : Registers) : Bool := r.flag == (i.opcode == .jumpIfTrue)

theorem branch_of_jumpOffset? (wanted : Bool) {offset : Int32}
    (ho : i.jumpOffset? = some offset) : m.branch wanted i r =
      if r.flag == wanted then
        (m.land r.address offset).map fun target => ⟨none, { r with address := target }⟩
      else .ok ⟨none, { r with address := r.address + 1 }⟩ := by
  have hd := Instruction.decode_of_read (Instruction.read_of_jumpOffset? ho)
  rw [branch, hd]
  simp only [beq_iff_eq]
  by_cases hf : r.flag = wanted
  · rw [if_pos hf]
    change (if r.flag = wanted then _ else _) = _
    rw [if_pos hf]
    cases m.land r.address offset <;> rfl
  · rw [if_neg hf]
    change (if r.flag = wanted then _ else _) = _
    rw [if_neg hf]
    rfl

theorem intent_of_jump {offset : Int32} (h : i.opcode.isJump = true)
    (ho : i.jumpOffset? = some offset) : m.intent i r =
      if takes i r then
        (m.land r.address offset).map fun target => ⟨none, { r with address := target }⟩
      else .ok ⟨none, { r with address := r.address + 1 }⟩ := by
  have hb := fun wanted => branch_of_jumpOffset? (m := m) (r := r) wanted ho
  unfold intent takes
  cases hop : i.opcode with
  | jumpIfTrue => exact hb true
  | jumpIfFalse => exact hb false
  | _ =>
    rw [hop] at h
    cases h

theorem intent_of_unreadable {e : OperandError} (h : i.opcode.isJump = true)
    (hread : i.read Read.int = .error e) : m.intent i r = .error (.decode e) := by
  have hd : i.decode (Decode.ofRead Read.int) = .error (.decode e) := by
    rw [Instruction.decode_ofRead, hread]
    rfl
  have hb : ∀ wanted, m.branch wanted i r = .error (.decode e) := fun wanted => by
    rw [branch, hd]
    rfl
  unfold intent
  cases hop : i.opcode with
  | jumpIfTrue => exact hb true
  | jumpIfFalse => exact hb false
  | _ =>
    rw [hop] at h
    cases h

theorem intent_of_label (h : i.opcode = .label) :
    m.intent i r = .ok ⟨none, { r with address := r.address + 1 }⟩ := by
  unfold intent
  rw [h]
  rfl

theorem intent_of_comparisonKind? {kind : ScalarKind}
    (h : i.opcode.comparisonKind? = some kind) : m.intent i r = m.test kind i r := by
  unfold intent
  cases hop : i.opcode <;> rw [hop] at h <;> cases h <;> rfl

theorem intent_of_comparisonKind?_eq_none (h : i.opcode.comparisonKind? = none) (facts : Facts)
    (policy : FactPolicy) :
    ({ m with facts := facts, settings.factPolicy := policy } : Machine).intent i r =
      m.intent i r := by
  unfold intent
  cases hop : i.opcode with
  | floatGt | floatLt | floatGte | floatLte | floatEq | floatNeq | strEq | strNeq | strContains
  | strNotContains | boolEq | boolNeq =>
    rw [hop] at h
    cases h
  | _ => rfl

theorem test_moved (code : Array Instruction) (kind : ScalarKind) (address count : Nat) :
    ({ m with program := code } : Machine).test kind i (r.moved address count) =
      (m.test kind i r).map (Intent.moved (address + 1) count) := by
  have hc : ({ m with program := code } : Machine).compare i.opcode kind =
      m.compare i.opcode kind := rfl
  unfold test
  rw [hc]
  cases i.decode (m.compare i.opcode kind) <;> rfl

/-- Away from jumps, what an instruction asks for has nothing to do with where it stands, in what
program, and after how many others. -/
theorem intent_moved (h : i.opcode.isJump = false) (code : Array Instruction)
    (address count : Nat) :
    ({ m with program := code } : Machine).intent i (r.moved address count) =
      (m.intent i r).map (Intent.moved (address + 1) count) := by
  have hrule : (r.moved address count).rule = r.rule := rfl
  have ht := fun kind => test_moved (m := m) (i := i) (r := r) code kind address count
  unfold intent
  cases hop : i.opcode with
  | jumpIfTrue | jumpIfFalse =>
    rw [hop] at h
    cases h
  | nop | label | ruleEnd => rfl
  | ruleStart =>
    cases i.decode (Decode.ofRead Read.text) <;> rfl
  | priority =>
    cases i.decode (Decode.ofRead Read.int) <;> rfl
  | scriptDef =>
    cases hd : i.decode (decodeDefinition r.rule) <;> simp only [hrule, hd] <;> rfl
  | execAction =>
    cases hd : i.decode (decodeAction r.rule) with
    | error cause =>
      simp only [hrule, hd]
      rfl
    | ok call =>
      simp only [hrule, hd]
      have hf := Registers.moved_fire (address + 1) count
        { r with address := r.address + 1, report.actions := r.report.actions + 1 }
      exact congrArg (fun next => Except.ok (Intent.mk (some (.action call)) next)) hf
  | scriptCall =>
    cases hd : i.decode (decodeCall r.rule) with
    | error cause =>
      simp only [hrule, hd]
      rfl
    | ok call =>
      simp only [hrule, hd]
      have hf := Registers.moved_fire (address + 1) count
        { r with address := r.address + 1, report.scripts := r.report.scripts + 1 }
      exact congrArg (fun next => Except.ok (Intent.mk (some (.script call)) next)) hf
  | floatGt | floatLt | floatGte | floatLte | floatEq | floatNeq => exact ht .number
  | strEq | strNeq | strContains | strNotContains => exact ht .string
  | boolEq | boolNeq => exact ht .bool

theorem next_of_not_jump {intent : Intent} (h : i.opcode.isJump = false)
    (hi : m.intent i r = .ok intent) :
    intent.next = intent.next.moved (r.address + 1) r.report.instructions := by
  have hm := intent_moved (m := m) (r := r) h m.program r.address r.report.instructions
  change m.intent i r = _ at hm
  rw [hi] at hm
  exact congrArg Intent.next (Except.ok.inj hm)

theorem next_address_of_not_jump {intent : Intent} (h : i.opcode.isJump = false)
    (hi : m.intent i r = .ok intent) : intent.next.address = r.address + 1 :=
  congrArg Registers.address (next_of_not_jump h hi)

/-- Everything that an instruction can ask for when it does not fail. -/
inductive Intends (m : Machine) (i : Instruction) (r : Registers) : Intent → Prop where
  | passes (kind : i.opcode.comparisonKind? = none) :
      Intends m i r ⟨none, { r with address := r.address + 1 }⟩
  | jumps {target : Nat} (kind : i.opcode.comparisonKind? = none)
      (jump : i.opcode.isJump = true) (inside : target ≤ m.program.size) :
      Intends m i r ⟨none, { r with address := target }⟩
  | enters {name : String} (opcode : i.opcode = .ruleStart)
      (decoded : i.decode (Decode.ofRead Read.text) = .ok name) :
      Intends m i r ⟨none, { r with
        address := r.address + 1
        rule := some name
        ruleFired := false
        flag := false }⟩
  | leaves (opcode : i.opcode = .ruleEnd) :
      Intends m i r ⟨none, { r with address := r.address + 1, rule := none, ruleFired := false }⟩
  | tests {kind : ScalarKind} {fact : String} {holds : Bool}
      (opcode : i.opcode.comparisonKind? = some kind)
      (decoded : i.decode (m.compare i.opcode kind) = .ok (fact, holds)) :
      Intends m i r ⟨none, { r with
        address := r.address + 1
        flag := holds
        report.factsRead := r.report.factsRead ++ [fact] }⟩
  | acts {call : ActionCall} (opcode : i.opcode = .execAction)
      (decoded : i.decode (decodeAction r.rule) = .ok call) :
      Intends m i r ⟨some (.action call), { r with
        address := r.address + 1
        report.actions := r.report.actions + 1 }.fire⟩
  | defines {definition : ScriptDefinition} (opcode : i.opcode = .scriptDef)
      (decoded : i.decode (decodeDefinition r.rule) = .ok definition) :
      Intends m i r ⟨some (.definition definition), { r with address := r.address + 1 }⟩
  | calls {call : ScriptCall} (opcode : i.opcode = .scriptCall)
      (decoded : i.decode (decodeCall r.rule) = .ok call) :
      Intends m i r ⟨some (.script call), { r with
        address := r.address + 1
        report.scripts := r.report.scripts + 1 }.fire⟩

theorem intends_of_branch {wanted : Bool} {intent : Intent} (jump : i.opcode.isJump = true)
    (kind : i.opcode.comparisonKind? = none) (h : m.branch wanted i r = .ok intent) :
    m.Intends i r intent := by
  obtain ⟨offset, _, htaken⟩ := Except.bind_eq_ok.1 h
  split at htaken
  · obtain ⟨target, hland, hpure⟩ := Except.bind_eq_ok.1 htaken
    cases hpure
    exact .jumps kind jump (land_eq_ok_iff.1 hland).2
  · cases htaken
    exact .passes kind

theorem intends_of_intent {intent : Intent} (h : m.intent i r = .ok intent) :
    m.Intends i r intent := by
  cases hkind : i.opcode.comparisonKind? with
  | some kind =>
    rw [intent_of_comparisonKind? hkind] at h
    obtain ⟨⟨fact, holds⟩, decoded, hpure⟩ := Except.bind_eq_ok.1 h
    cases hpure
    exact .tests hkind decoded
  | none =>
    unfold Machine.intent at h
    cases hop : i.opcode with
    | floatGt | floatLt | floatGte | floatLte | floatEq | floatNeq | strEq | strNeq | strContains
    | strNotContains | boolEq | boolNeq =>
      rw [hop] at hkind
      cases hkind
    | nop | label =>
      rw [hop] at h
      cases h
      exact .passes hkind
    | jumpIfTrue | jumpIfFalse =>
      rw [hop] at h
      exact intends_of_branch (by rw [hop]; rfl) hkind h
    | ruleStart =>
      rw [hop] at h
      obtain ⟨_, decoded, hpure⟩ := Except.bind_eq_ok.1 h
      cases hpure
      exact .enters hop decoded
    | priority =>
      rw [hop] at h
      obtain ⟨_, _, hpure⟩ := Except.bind_eq_ok.1 h
      cases hpure
      exact .passes hkind
    | ruleEnd =>
      rw [hop] at h
      cases h
      exact .leaves hop
    | execAction =>
      rw [hop] at h
      obtain ⟨_, decoded, hpure⟩ := Except.bind_eq_ok.1 h
      cases hpure
      exact .acts hop decoded
    | scriptDef =>
      rw [hop] at h
      obtain ⟨_, decoded, hpure⟩ := Except.bind_eq_ok.1 h
      cases hpure
      exact .defines hop decoded
    | scriptCall =>
      rw [hop] at h
      obtain ⟨_, decoded, hpure⟩ := Except.bind_eq_ok.1 h
      cases hpure
      exact .calls hop decoded

end Machine

end RuleMachine
