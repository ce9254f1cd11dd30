import RuleMachine.Code.Program
import RuleMachine.Proofs.Codec.Encoding
/-!
The file form of programs. An instruction is exact if its operands are what a loader passes over,
with nothing missing and nothing left. Bytes load as a program just when the program is exact and
the bytes are its file form.
-/

set_option autoImplicit false

namespace RuleMachine

/-- The operands are exactly the bytes that the opcode has a loader pass over. -/
def Instruction.Exact (i : Instruction) : Prop :=
  ∃ c, i.opcode.skipOperands (Cursor.start i.operands) = .ok () c ∧ c.rest = []

def Program.Exact (p : Program) : Prop := ∀ i ∈ p, i.Exact

namespace Instruction

theorem exact_iff_reads {i : Instruction} :
    i.Exact ↔ Reads i.opcode.skipOperands i.operands () := by
  constructor
  · intro h
    obtain ⟨c, hc, he⟩ := h
    obtain ⟨taken, ht, _, hr⟩ := i.opcode.local_skipOperands _ _ _ hc
    rw [he, List.append_nil] at ht
    rwa [show i.operands = taken from ht]
  · intro h
    have hc := h [] 0
    rw [List.append_nil] at hc
    exact ⟨_, hc, rfl⟩

theorem exact_of_reads {op : Opcode} {operands : Bytes}
    (h : Reads (skipParts op.layout) operands ()) : Exact ⟨op, operands⟩ :=
  exact_iff_reads.2 h

theorem bytes_length (i : Instruction) : i.bytes.length = i.size := by
  simp [bytes, size, Nat.add_comm]

end Instruction

namespace Program

variable {p q : Program}

theorem bytes_append (p q : Program) : Program.bytes (p ++ q) = p.bytes ++ q.bytes :=
  List.flatMap_append

theorem bytes_length (p : Program) : p.bytes.length = p.byteLength := by
  induction p with
  | nil => rfl
  | cons i p ih =>
    rw [← List.singleton_append, bytes_append, List.length_append, ih]
    simp [bytes, byteLength, Instruction.bytes_length]

theorem loadFrom_instruction {i : Instruction} (h : i.Exact) (offset : Nat) (rest : Bytes) :
    loadFrom offset (i.bytes ++ rest) = (loadFrom (offset + i.size) rest).map (i :: ·) := by
  have hr := Instruction.exact_iff_reads.1 h rest 0
  rw [Instruction.bytes, List.cons_append, loadFrom, Opcode.ofByte?_byte]
  dsimp only [Cursor.start]
  rw [hr]
  simp only [Nat.zero_add, List.drop_left, List.take_left, Instruction.size,
    ← Nat.add_assoc]
  cases loadFrom (offset + 1 + i.operands.length) rest <;> rfl

theorem loadFrom_bytes (h : p.Exact) (offset : Nat) (rest : Bytes) :
    loadFrom offset (p.bytes ++ rest) =
      (loadFrom (offset + p.byteLength) rest).map (p ++ ·) := by
  induction p generalizing offset with
  | nil =>
    simp only [bytes, byteLength, List.flatMap_nil, List.foldr_nil, List.nil_append, Nat.add_zero]
    cases loadFrom offset rest <;> rfl
  | cons i p ih =>
    have hb : Program.bytes (i :: p) = i.bytes ++ Program.bytes p := rfl
    have hl : Program.byteLength (i :: p) = i.size + Program.byteLength p := rfl
    rw [hb, List.append_assoc, loadFrom_instruction (h i (by simp)),
      ih (fun j hj => h j (List.mem_cons_of_mem _ hj)), hl, ← Nat.add_assoc]
    cases loadFrom (offset + i.size + Program.byteLength p) rest <;> rfl

theorem loadFrom_nil (offset : Nat) : loadFrom offset [] = .ok [] := by rw [loadFrom]

theorem load_bytes (h : p.Exact) : load p.bytes = .ok p := by
  have hl := loadFrom_bytes h 0 []
  rw [List.append_nil, loadFrom_nil] at hl
  simpa [load, Except.map] using hl

theorem exact_of_loadFrom {offset : Nat} {b : Bytes} (h : loadFrom offset b = .ok p) :
    p.Exact ∧ p.bytes = b := by
  induction offset, b using loadFrom.induct generalizing p with
  | case1 offset =>
    rw [loadFrom_nil] at h
    cases h
    exact ⟨by simp [Exact], rfl⟩
  | case2 offset byte body hop =>
    rw [loadFrom, hop] at h
    cases h
  | case3 offset byte body op hop e c hs =>
    rw [loadFrom, hop] at h
    dsimp only at h
    rw [hs] at h
    cases h
  | case4 offset byte body op hop u cursor hs ih =>
    rw [loadFrom, hop] at h
    dsimp only at h
    rw [hs] at h
    obtain ⟨rest, hrest, he⟩ := Except.bind_eq_ok.1 h
    cases he
    obtain ⟨hexact, hbytes⟩ := ih hrest
    obtain ⟨taken, ht, ho, hr⟩ := op.local_skipOperands _ _ _ hs
    -- The cursor counts from the start of the body, so its offset cuts off what was taken.
    simp only [Cursor.start, Nat.zero_add] at ht ho
    have hcut : body.take cursor.offset = taken := by rw [ht, ho, List.take_left]
    constructor
    · intro i hi
      rcases List.mem_cons.1 hi with rfl | hi
      · exact Instruction.exact_iff_reads.2 (by rw [hcut]; exact hr)
      · exact hexact i hi
    · change op.byte :: body.take cursor.offset ++ rest.bytes = byte :: body
      rw [hbytes, Opcode.byte_of_ofByte? hop, List.cons_append, List.take_append_drop]

/-- Bytes load as the exact program that they are the file form of. -/
theorem load_eq_ok_iff {b : Bytes} : load b = .ok p ↔ p.Exact ∧ p.bytes = b := by
  constructor
  · exact exact_of_loadFrom
  · intro h
    obtain ⟨h, rfl⟩ := h
    exact load_bytes h

end Program

end RuleMachine
