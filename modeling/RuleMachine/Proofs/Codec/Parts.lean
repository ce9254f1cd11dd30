import RuleMachine.Proofs.Codec.FileForm

set_option autoImplicit false

namespace RuleMachine

/-- The bytes end before what is read. No other error comes from passing over operands. -/
def OperandError.Short : OperandError → Prop
  | .unexpectedEnd _ _ _ => True
  | _ => False

theorem OperandError.short_iff {e : OperandError} :
    e.Short ↔ ∃ offset needed available, e = .unexpectedEnd offset needed available := by
  cases e <;> simp [Short]

namespace Read

theorem short_take (n : Nat) : FailsBy OperandError.Short (take n) := by
  intro c e c' h
  unfold take at h
  split at h
  · cases h
  · cases h
    trivial

theorem short_int : FailsBy OperandError.Short int :=
  ((short_take 4).bind fun _ => FailsBy.pure _).bind fun _ => FailsBy.pure _

theorem short_skipText : FailsBy OperandError.Short skipText :=
  ((short_take 2).bind fun _ => FailsBy.pure _).bind fun _ =>
    (short_take _).bind fun _ => FailsBy.pure _

theorem short_skipTexts (n : Nat) : FailsBy OperandError.Short (skipTexts n) := by
  induction n with
  | zero => exact FailsBy.pure _
  | succ n ih => exact short_skipText.bind fun _ => ih

end Read

theorem OperandPart.short_skip (part : OperandPart) : FailsBy OperandError.Short part.skip := by
  cases part with
  | word => exact (Read.short_take 4).bind fun _ => FailsBy.pure _
  | bool => exact (Read.short_take 1).bind fun _ => FailsBy.pure _
  | text => exact Read.short_skipText
  | texts => exact Read.short_int.bind fun _ => Read.short_skipTexts _

theorem short_skipParts (parts : List OperandPart) :
    FailsBy OperandError.Short (skipParts parts) := by
  induction parts with
  | nil => exact FailsBy.pure _
  | cons part parts ih => exact part.short_skip.bind fun _ => ih

/-- A read that takes some bytes does not end inside them: from a proper first part it fails. -/
theorem Reads.of_cut {ε α : Type} {read : EStateM ε Cursor α} {bytes : Bytes} {a : α}
    (h : Reads read bytes a) (hlocal : Local read) {n : Nat} (hn : n < bytes.length) :
    ∃ e c, read (Cursor.start (bytes.take n)) = .error e c := by
  cases hcut : read (Cursor.start (bytes.take n)) with
  | error e c => exact ⟨e, c, rfl⟩
  | ok b c =>
    -- What it took of the first part it also takes of the whole, and then more than that is left.
    obtain ⟨taken, htaken, _, hreads⟩ := hlocal _ _ _ hcut
    have hwhole : bytes = taken ++ (c.rest ++ bytes.drop n) := by
      rw [← List.append_assoc, ← show bytes.take n = taken ++ c.rest from htaken,
        List.take_append_drop]
    have hshort := hreads (c.rest ++ bytes.drop n) 0
    have hall := h [] 0
    rw [← hwhole] at hshort
    rw [List.append_nil, hshort] at hall
    have hrest : c.rest ++ bytes.drop n = [] := by
      simp only [EStateM.Result.ok.injEq, Cursor.mk.injEq] at hall
      exact hall.2.1
    have hempty := List.drop_eq_nil_iff.1 (List.append_eq_nil_iff.1 hrest).2
    omega

def LoadError.behind (n : Nat) : LoadError → LoadError
  | .unknownOpcode byte offset => .unknownOpcode byte (n + offset)
  | .operands opcode offset error => .operands opcode (n + offset) error

namespace Program

variable {p : Program}

/-- Where the bytes stand in a file shows only in the place of an error. -/
theorem loadFrom_behind (n offset : Nat) (b : Bytes) :
    loadFrom (n + offset) b = (loadFrom offset b).mapError (·.behind n) := by
  induction offset, b using loadFrom.induct with
  | case1 offset =>
    rw [loadFrom_nil, loadFrom_nil]
    rfl
  | case2 offset byte body hop =>
    rw [loadFrom, loadFrom, hop]
    rfl
  | case3 offset byte body op hop e c hs =>
    rw [loadFrom, loadFrom, hop]
    dsimp only
    rw [hs]
    rfl
  | case4 offset byte body op hop u cursor hs ih =>
    rw [loadFrom, loadFrom, hop]
    dsimp only
    rw [hs]
    rw [← Nat.add_assoc, ← Nat.add_assoc] at ih
    simp only [ih]
    cases loadFrom (offset + 1 + cursor.offset) (body.drop cursor.offset) <;> rfl

theorem load_append (h : p.Exact) (b : Bytes) :
    load (p.bytes ++ b) = ((load b).mapError (·.behind p.byteLength)).map (p ++ ·) := by
  have hbehind := loadFrom_behind p.byteLength 0 b
  rw [load, loadFrom_bytes h, Nat.zero_add]
  rw [Nat.add_zero] at hbehind
  rw [hbehind]
  rfl

theorem load_instruction_cut {i : Instruction} (h : i.Exact) {n : Nat} (hpos : 0 < n)
    (hn : n < i.size) : ∃ offset needed available,
      load (i.bytes.take n) =
        .error (.operands i.opcode 0 (.unexpectedEnd offset needed available)) := by
  obtain ⟨n, rfl⟩ := Nat.exists_eq_succ_of_ne_zero (Nat.ne_of_gt hpos)
  rw [Instruction.size] at hn
  obtain ⟨e, c, hskip⟩ := (Instruction.exact_iff_reads.1 h).of_cut i.opcode.local_skipOperands
    (n := n) (by omega)
  obtain ⟨offset, needed, available, rfl⟩ :=
    OperandError.short_iff.1 (short_skipParts _ _ _ _ hskip)
  refine ⟨offset, needed, available, ?_⟩
  rw [Instruction.bytes, List.take_succ_cons, load, loadFrom, Opcode.ofByte?_byte]
  dsimp only
  rw [hskip]

def offsetOf (p : Program) (address : Nat) : Nat := byteLength (p.take address)

/-- A number of bytes ends with an instruction or inside one. -/
theorem exists_cut (p : Program) {n : Nat} (hn : n ≤ p.byteLength) :
    (∃ k, k ≤ p.length ∧ p.offsetOf k = n) ∨
    ∃ (front : Program) (i : Instruction) (back : Program), p = front ++ i :: back ∧
      front.byteLength < n ∧ n < front.byteLength + i.size := by
  induction p generalizing n with
  | nil => exact .inl ⟨0, Nat.le_refl _, (Nat.le_zero.1 hn).symm⟩
  | cons i p ih =>
    have hlength : ∀ q : Program, byteLength (i :: q) = i.size + q.byteLength := fun _ => rfl
    rw [hlength] at hn
    by_cases hzero : n = 0
    · exact .inl ⟨0, Nat.zero_le _, hzero.symm⟩
    · by_cases hfirst : n < i.size
      · exact .inr ⟨[], i, p, rfl, Nat.pos_of_ne_zero hzero, by
          rw [show byteLength [] = 0 from rfl, Nat.zero_add]
          exact hfirst⟩
      · obtain ⟨k, hk, hcut⟩ | ⟨front, j, back, rfl, hbefore, hafter⟩ :=
          ih (n := n - i.size) (by omega)
        · refine .inl ⟨k + 1, Nat.succ_le_succ hk, ?_⟩
          rw [offsetOf, List.take_succ_cons, hlength]
          rw [offsetOf] at hcut
          omega
        · refine .inr ⟨i :: front, j, back, rfl, ?_, ?_⟩
          · rw [hlength]
            omega
          · rw [hlength]
            omega

theorem bytes_take_of_cut {front back : Program} {i : Instruction} {n : Nat}
    (hbefore : front.byteLength ≤ n) (hafter : n ≤ front.byteLength + i.size) :
    (Program.bytes (front ++ i :: back)).take n =
      front.bytes ++ i.bytes.take (n - front.byteLength) := by
  have hbytes : Program.bytes (i :: back) = i.bytes ++ Program.bytes back := rfl
  rw [bytes_append, hbytes, List.take_append, bytes_length, List.take_of_length_le
    (by rw [bytes_length]; exact hbefore), List.take_append_of_le_length]
  rw [Instruction.bytes_length]
  omega

/-- Bytes that load may stand in front of any other bytes, whose program follows or whose error is
met further behind. Of the bytes of a program, those of its first instructions load as these; any
other first part ends inside an instruction and is refused for that instruction, where it starts. -/
theorem load_parts :
    (∀ (a b : Bytes) (p : Program), load a = .ok p →
      (∀ q, load b = .ok q → load (a ++ b) = .ok (p ++ q)) ∧
      (∀ e, load b = .error e → load (a ++ b) = .error (e.behind a.length))) ∧
    (∀ (b : Bytes) (p : Program) (n : Nat), load b = .ok p → n ≤ b.length →
      (∀ k, k ≤ p.length → p.offsetOf k = n → load (b.take n) = .ok (p.take k)) ∧
      ((∀ k, k ≤ p.length → p.offsetOf k ≠ n) →
        ∃ k i offset needed available, p[k]? = some i ∧ p.offsetOf k < n ∧
          n < p.offsetOf k + i.size ∧
          load (b.take n) = .error (.operands i.opcode (p.offsetOf k)
            (.unexpectedEnd offset needed available)))) := by
  constructor
  · intro a b p h
    obtain ⟨hexact, rfl⟩ := load_eq_ok_iff.1 h
    have happend := load_append hexact b
    rw [bytes_length]
    constructor
    · intro q hq
      rw [happend, hq]
      rfl
    · intro e he
      rw [happend, he]
      rfl
  · intro b p n h hn
    obtain ⟨hexact, rfl⟩ := load_eq_ok_iff.1 h
    rw [bytes_length] at hn
    constructor
    · rintro k hk rfl
      have hfront : Exact (p.take k) := fun i hi => hexact i (List.mem_of_mem_take hi)
      have hbytes : p.bytes = Program.bytes (p.take k) ++ Program.bytes (p.drop k) := by
        rw [← bytes_append, List.take_append_drop]
      have hoffset : (Program.bytes (p.take k)).length = p.offsetOf k := bytes_length _
      rw [hbytes, ← hoffset, List.take_left]
      exact load_bytes hfront
    · intro hinside
      obtain ⟨k, hk, hcut⟩ | ⟨front, i, back, rfl, hbefore, hafter⟩ := exists_cut p hn
      · exact absurd hcut (hinside k hk)
      · have hfront : Exact front := fun j hj => hexact j (List.mem_append_left _ hj)
        obtain ⟨offset, needed, available, hload⟩ := load_instruction_cut
          (hexact i (by simp)) (n := n - front.byteLength) (by omega) (by omega)
        refine ⟨front.length, i, offset, needed, available, by simp, ?_⟩
        rw [offsetOf, List.take_left]
        refine ⟨hbefore, hafter, ?_⟩
        rw [bytes_take_of_cut (Nat.le_of_lt hbefore) (Nat.le_of_lt hafter), load_append hfront,
          hload]
        rfl

def script : Program :=
  [⟨.ruleEnd, []⟩, ⟨.scriptDef, [1, 0, 110, 1, 0, 0, 0, 1, 0, 122, 1, 0, 98]⟩]

theorem load_parts_script : load script.bytes = .ok script ∧
    load (script.bytes ++ [17, 238]) = .error (.unknownOpcode 238 16) ∧
    load (script.bytes.take 1) = .ok [⟨.ruleEnd, []⟩] ∧
    ∃ k i offset needed available, script[k]? = some i ∧ script.offsetOf k < 11 ∧
      11 < script.offsetOf k + i.size ∧
      load (script.bytes.take 11) = .error (.operands i.opcode (script.offsetOf k)
        (.unexpectedEnd offset needed available)) := by
  have hload : load script.bytes = .ok script := by cbv
  have herror : load [17, 238] = .error (.unknownOpcode 238 1) := by cbv
  exact ⟨hload, (load_parts.1 _ _ _ hload).2 _ herror,
    (load_parts.2 _ _ 1 hload (by decide)).1 1 (by decide) rfl,
    (load_parts.2 _ _ 11 hload (by decide)).2 (by decide)⟩

end Program

end RuleMachine
