import Mathlib.Data.List.Forall2
import RuleMachine.Proofs.Compact.Append
import RuleMachine.Proofs.Machine.Ends
import RuleMachine.Proofs.Machine.Intent
/-!
When marks can be taken out, and what is left. A program keeps all but its marks just when every
jump leads into the program or to its end, which is where a run would let it lead; otherwise the
first jump that does not is refused. What is left has no marks and cannot be made any smaller.
-/

set_option autoImplicit false

namespace RuleMachine

namespace Program

variable {p q : Program} {a b target index : Nat} {i j : Instruction} {cause : CompileCause}
  {l : List Instruction}

def JumpAt (p : Program) (a : Nat) : Prop := ∃ i, p[a]? = some i ∧ i.opcode.isJump = true

/-- A jump stands at the address, its operand can be read, and it leads to the target: to an
instruction or to the end of the program. -/
def LeadsAt (p : Program) (a target : Nat) : Prop :=
  ∃ i offset, p[a]? = some i ∧ i.opcode.isJump = true ∧ i.read Read.int = .ok offset ∧
    (target : Int) = a + 1 + offset.toInt ∧ target ≤ p.length

theorem jumpOffset?_eq_some_iff {offset : Int32} (h : i.opcode.isJump = true) :
    i.jumpOffset? = some offset ↔ i.read Read.int = .ok offset := by
  rw [Instruction.jumpOffset?, if_pos h]
  cases i.read Read.int <;> simp [Except.toOption]

theorem leadsAt_iff (hi : p[a]? = some i) (h : i.opcode.isJump = true) :
    p.LeadsAt a target ↔ p.jumpTarget? a i = some target := by
  rw [jumpTarget?_eq_some_iff]
  simp only [jumpOffset?_eq_some_iff h]
  constructor
  · intro hleads
    obtain ⟨_, offset, hi', _, hread, htarget, hle⟩ := hleads
    cases hi.symm.trans hi'
    exact ⟨offset, hread, htarget, hle⟩
  · intro htarget
    obtain ⟨offset, hread, htarget, hle⟩ := htarget
    exact ⟨i, offset, hi, h, hread, htarget, hle⟩

/-- A run lets a jump lead where it leads in the program, and nowhere else. -/
theorem leadsAt_iff_intent {r : Registers} (facts : Facts) (settings : RunSettings)
    (hi : p[r.address]? = some i) (h : i.opcode.isJump = true)
    (htakes : Machine.takes i r = true) :
    p.LeadsAt r.address target ↔ ∃ intent, (p.machine facts settings).intent i r = .ok intent ∧
      intent.next.address = target := by
  cases hread : i.read Read.int with
  | error e =>
    have hintent := Machine.intent_of_unreadable (m := p.machine facts settings) (r := r) h hread
    constructor
    · intro hleads
      obtain ⟨_, _, hi', _, hread', _⟩ := hleads
      cases hi.symm.trans hi'
      cases hread.symm.trans hread'
    · intro hgoes
      obtain ⟨_, hok, _⟩ := hgoes
      cases hintent.symm.trans hok
  | ok offset =>
    have hoffset := (jumpOffset?_eq_some_iff h).2 hread
    have hland : ∀ t, (p.machine facts settings).land r.address offset = .ok t ↔
        (t : Int) = r.address + 1 + offset.toInt ∧ t ≤ p.length :=
      fun _ => Machine.land_eq_ok_iff
    rw [leadsAt_iff hi h, jumpTarget?_eq_some_iff, Machine.intent_of_jump h hoffset, htakes,
      if_pos rfl]
    constructor
    · intro hleads
      obtain ⟨_, hoffset', htarget⟩ := hleads
      cases hoffset.symm.trans hoffset'
      rw [(hland _).2 htarget]
      exact ⟨_, rfl, rfl⟩
    · intro hgoes
      obtain ⟨intent, hok, rfl⟩ := hgoes
      cases hl : (p.machine facts settings).land r.address offset with
      | error e =>
        rw [hl] at hok
        cases hok
      | ok t =>
        rw [hl] at hok
        cases hok
        exact ⟨offset, hoffset, (hland t).1 hl⟩

theorem compactInstruction_cases (hlength : p.length < 2 ^ 31) (hi : p[a]? = some i) :
    (∃ j, p.compactInstruction a i = .ok j ∧
      (i.opcode.isJump = true → ∃ target, p.LeadsAt a target)) ∨
    (p.compactInstruction a i = .error (.jumpOutOfRange a) ∧ i.opcode.isJump = true ∧
      ∀ target, ¬ p.LeadsAt a target) := by
  have ha := (List.getElem?_eq_some_iff.1 hi).1
  cases hj : i.opcode.isJump with
  | false => exact .inl ⟨i, compactInstruction_of_not_jump hj, nofun⟩
  | true =>
    cases ht : p.jumpTarget? a i with
    | none =>
      refine .inr ⟨by simp only [compactInstruction, hj, ht, if_pos], rfl, fun target hleads => ?_⟩
      rw [leadsAt_iff hi hj, ht] at hleads
      cases hleads
    | some target =>
      obtain ⟨_, _, _, hle⟩ := jumpTarget?_eq_some_iff.1 ht
      have hsource := p.compactIndex_add_le 0 a
      have htarget := p.compactIndex_add_le 0 target
      simp only [compactIndex_zero, Nat.zero_add] at hsource htarget
      obtain ⟨distance, hd⟩ := exists_jumpDistance
        (by omega : p.compactIndex a < 2 ^ 31) (by omega : p.compactIndex target < 2 ^ 31)
      refine .inl ⟨.jump i.opcode distance, ?_, fun _ => ⟨target, (leadsAt_iff hi hj).2 ht⟩⟩
      simp only [compactInstruction, hj, ht, hd, if_pos]
      rfl

/-- Taking marks out fails at the first instruction that cannot be adjusted. -/
theorem compactFrom_eq_error (h : compactFrom p index l = .error cause) :
    ∃ a i, l[a]? = some i ∧ p.compactInstruction (index + a) i = .error cause ∧
      ∀ b j, b < a → l[b]? = some j → ∃ k, p.compactInstruction (index + b) j = .ok k := by
  induction l generalizing index with
  | nil => cases h
  | cons first rest ih =>
    have hlater : (∃ k, p.compactInstruction index first = .ok k) →
        compactFrom p (index + 1) rest = .error cause →
        ∃ a i, (first :: rest)[a]? = some i ∧
          p.compactInstruction (index + a) i = .error cause ∧
          ∀ b j, b < a → (first :: rest)[b]? = some j →
            ∃ k, p.compactInstruction (index + b) j = .ok k := by
      intro hfirst hrest
      obtain ⟨a, i, hi, herror, hbefore⟩ := ih hrest
      have hnext : ∀ a, index + 1 + a = index + (a + 1) := fun a => by omega
      refine ⟨a + 1, i, hi, hnext a ▸ herror, fun b j hb hj => ?_⟩
      cases b with
      | zero =>
        cases hj
        exact hfirst
      | succ b => exact hnext b ▸ hbefore b j (by omega) hj
    rw [compactFrom] at h
    split at h
    · rename_i hmark
      refine hlater ⟨first, compactInstruction_of_not_jump ?_⟩ h
      cases hj : first.opcode.isJump with
      | false => rfl
      | true =>
        rw [Instruction.isMark_of_isJump hj] at hmark
        cases hmark
    · cases hfirst : p.compactInstruction index first with
      | error e =>
        rw [hfirst] at h
        cases h
        exact ⟨0, first, rfl, hfirst, fun b j hb => by omega⟩
      | ok k =>
        rw [hfirst] at h
        cases hrest : compactFrom p (index + 1) rest with
        | error e =>
          rw [hrest] at h
          cases h
          exact hlater ⟨k, hfirst⟩ hrest
        | ok more =>
          rw [hrest] at h
          cases h

theorem compactInstruction_keeps (h : p.compactInstruction a i = .ok j) :
    j.opcode = i.opcode ∧ (i.opcode.isJump = false → j = i) := by
  cases hj : i.opcode.isJump with
  | false =>
    rw [compactInstruction_of_not_jump hj] at h
    cases h
    exact ⟨rfl, fun _ => rfl⟩
  | true =>
    obtain ⟨_, _, distance, _, _, _, rfl, _⟩ := compactInstruction_of_jump h hj
    exact ⟨rfl, nofun⟩

theorem forall₂_of_compactFrom (h : compactFrom p index l = .ok q) :
    List.Forall₂ (fun i j => j.opcode = i.opcode ∧ (i.opcode.isJump = false → j = i))
      (l.filter (!·.isMark)) q := by
  induction l generalizing index q with
  | nil =>
    cases h
    exact .nil
  | cons first rest ih =>
    obtain ⟨hmark, h⟩ | ⟨hmark, head, more, hhead, hmore, rfl⟩ := compactFrom_cons_eq_ok h
    · rw [List.filter_cons_of_neg (by simp [hmark])]
      exact ih h
    · rw [List.filter_cons_of_pos (by simp [hmark])]
      exact .cons (compactInstruction_keeps hhead) (ih hmore)

/-- A jump leads from place to place. -/
theorem LeadsAt.compact (h : p.LeadsAt a target) (hq : p.compact = .ok q) :
    q.LeadsAt (p.compactIndex a) (p.compactIndex target) := by
  obtain ⟨i, offset, hi, hjump, hread, htarget, hle⟩ := h
  obtain ⟨j, hj, hplace⟩ := getElem?_compact hq hi (Instruction.isMark_of_isJump hjump)
  obtain ⟨offset', target', distance, hoffset, htarget', hle', rfl, hdistance⟩ :=
    compactInstruction_of_jump hj hjump
  rw [jumpOffset?_eq_some_iff hjump, hread] at hoffset
  cases hoffset
  have hsame : target' = target := by omega
  rw [hsame] at hdistance
  refine ⟨_, distance, hplace, hjump, Instruction.read_of_reads (Operand.reads_int distance),
    by omega, ?_⟩
  rw [length_compact hq]
  exact compactIndex_mono hle

theorem LeadsAt.unique {other : Nat} (h : p.LeadsAt a target) (h' : p.LeadsAt a other) :
    target = other := by
  obtain ⟨i, offset, hi, _, hread, htarget, _⟩ := h
  obtain ⟨j, offset', hj, _, hread', htarget', _⟩ := h'
  cases hi.symm.trans hj
  cases hread.symm.trans hread'
  omega

theorem leadsAt_compact_iff (hq : p.compact = .ok q) : q.LeadsAt b target ↔
    ∃ a old, p.LeadsAt a old ∧ p.compactIndex a = b ∧ p.compactIndex old = target := by
  constructor
  · intro h
    obtain ⟨j, _, hj, hjump, _⟩ := id h
    obtain ⟨a, i, hi, _, hadjusted, rfl⟩ := exists_of_getElem?_compact hq hj
    rw [(compactInstruction_keeps hadjusted).1] at hjump
    obtain ⟨offset, old, _, hoffset, htarget, hle, _⟩ :=
      compactInstruction_of_jump hadjusted hjump
    have hleads : p.LeadsAt a old :=
      ⟨i, offset, hi, hjump, (jumpOffset?_eq_some_iff hjump).1 hoffset, htarget, hle⟩
    exact ⟨a, old, hleads, rfl, (hleads.compact hq).unique h⟩
  · rintro ⟨a, old, hleads, rfl, rfl⟩
    exact hleads.compact hq

theorem not_mark_of_compact (hq : p.compact = .ok q) : ∀ i ∈ q, i.isMark = false := by
  intro j hj
  obtain ⟨b, hb⟩ := List.getElem?_of_mem hj
  obtain ⟨_, i, _, hmark, hadjusted, _⟩ := exists_of_getElem?_compact hq hb
  rw [Instruction.isMark, (compactInstruction_keeps hadjusted).1]
  exact hmark

theorem compactIndex_of_no_marks (h : ∀ i ∈ p, i.isMark = false) (ha : a ≤ p.length) :
    p.compactIndex a = a := by
  have hall : (p.take a).countP (!·.isMark) = (p.take a).length :=
    List.countP_eq_length.2 fun i hi => by simp [h i (List.mem_of_mem_take hi)]
  rw [compactIndex, hall, List.length_take, Nat.min_eq_left ha]

theorem compactFrom_eq_self (h : ∀ a i, l[a]? = some i →
    i.isMark = false ∧ p.compactInstruction (index + a) i = .ok i) :
    compactFrom p index l = .ok l := by
  induction l generalizing index with
  | nil => rfl
  | cons first rest ih =>
    obtain ⟨hmark, hfirst⟩ := h 0 first rfl
    have hrest : compactFrom p (index + 1) rest = .ok rest := ih fun a i hi => by
      rw [show index + 1 + a = index + (a + 1) by omega]
      exact h (a + 1) i hi
    rw [Nat.add_zero] at hfirst
    rw [compactFrom, hmark, hfirst, hrest]
    rfl

theorem compact_compact (hq : p.compact = .ok q) : q.compact = .ok q := by
  have hmarks := not_mark_of_compact hq
  refine compactFrom_eq_self fun b j hj => ⟨hmarks j (List.mem_of_getElem? hj), ?_⟩
  rw [Nat.zero_add]
  obtain ⟨a, i, hi, _, hadjusted, rfl⟩ := exists_of_getElem?_compact hq hj
  cases hjump : i.opcode.isJump with
  | false =>
    rw [compactInstruction_of_not_jump hjump] at hadjusted
    cases hadjusted
    exact compactInstruction_of_not_jump hjump
  | true =>
    obtain ⟨offset, target, distance, hoffset, htarget, hle, rfl, hdistance⟩ :=
      compactInstruction_of_jump hadjusted hjump
    have hleads : p.LeadsAt a target :=
      ⟨i, offset, hi, hjump, (jumpOffset?_eq_some_iff hjump).1 hoffset, htarget, hle⟩
    have hjump' : (Instruction.jump i.opcode distance).opcode.isJump = true := hjump
    have hplace := (leadsAt_iff hj hjump').1 (hleads.compact hq)
    obtain ⟨_, _, _, hend⟩ := jumpTarget?_eq_some_iff.1 hplace
    have hstart := Nat.le_of_lt (List.getElem?_eq_some_iff.1 hj).1
    simp only [compactInstruction, hjump', if_pos, hplace,
      compactIndex_of_no_marks hmarks hend, compactIndex_of_no_marks hmarks hstart,
      jumpDistance_eq_ok_iff.2 hdistance]
    rfl

/-- The marks of a program of less than 2 ^ 31 instructions can be taken out exactly when every jump
leads into the program or to its end, as it must for a run to take it; otherwise the first jump that
does not is refused. All other instructions are left, in order and but for the operands of jumps
unchanged; jumps lead from place to place, and there is nothing more to take out. -/
theorem compact_exact (hlength : p.length < 2 ^ 31) :
    ((∃ q, p.compact = .ok q) ↔ ∀ a, p.JumpAt a → ∃ target, p.LeadsAt a target) ∧
    (∀ cause, p.compact = .error cause → ∃ a, cause = .jumpOutOfRange a ∧ p.JumpAt a ∧
      (∀ target, ¬ p.LeadsAt a target) ∧
      ∀ b, b < a → p.JumpAt b → ∃ target, p.LeadsAt b target) ∧
    (∀ i facts settings (r : Registers) target, p[r.address]? = some i →
      i.opcode.isJump = true → Machine.takes i r = true →
      (p.LeadsAt r.address target ↔
        ∃ intent, (p.machine facts settings).intent i r = .ok intent ∧
          intent.next.address = target)) ∧
    ∀ q, p.compact = .ok q →
      (∀ i ∈ q, i.isMark = false) ∧
      List.Forall₂ (fun i j => j.opcode = i.opcode ∧ (i.opcode.isJump = false → j = i))
        (p.filter (!·.isMark)) q ∧
      (∀ b target, q.LeadsAt b target ↔
        ∃ a old, p.LeadsAt a old ∧ p.compactIndex a = b ∧ p.compactIndex old = target) ∧
      q.compact = .ok q := by
  have herror : ∀ cause, p.compact = .error cause → ∃ a, cause = .jumpOutOfRange a ∧ p.JumpAt a ∧
      (∀ target, ¬ p.LeadsAt a target) ∧
      ∀ b, b < a → p.JumpAt b → ∃ target, p.LeadsAt b target := by
    intro cause h
    obtain ⟨a, i, hi, hfails, hbefore⟩ := compactFrom_eq_error h
    rw [Nat.zero_add] at hfails
    obtain ⟨j, hj, _⟩ | ⟨hout, hjump, hstrays⟩ := compactInstruction_cases hlength hi
    · cases hfails.symm.trans hj
    · cases hfails.symm.trans hout
      refine ⟨a, rfl, ⟨i, hi, hjump⟩, hstrays, fun b hb hjumpAt => ?_⟩
      obtain ⟨j, hj, hjump'⟩ := hjumpAt
      obtain ⟨k, hk⟩ := hbefore b j hb hj
      rw [Nat.zero_add] at hk
      obtain ⟨_, _, hleads⟩ | ⟨hout', _⟩ := compactInstruction_cases hlength hj
      · exact hleads hjump'
      · cases hk.symm.trans hout'
  refine ⟨⟨fun hok a hjumpAt => ?_, fun hall => exists_compactFrom fun a i hi => ?_⟩, herror,
    fun i facts settings r target hi h htakes => leadsAt_iff_intent facts settings hi h htakes,
    fun q hq => ⟨not_mark_of_compact hq, forall₂_of_compactFrom hq,
      fun b target => leadsAt_compact_iff hq, compact_compact hq⟩⟩
  · obtain ⟨q, hq⟩ := hok
    obtain ⟨i, hi, hjump⟩ := hjumpAt
    obtain ⟨j, hj, _⟩ := getElem?_compact hq hi (Instruction.isMark_of_isJump hjump)
    obtain ⟨_, _, hleads⟩ | ⟨hout, _⟩ := compactInstruction_cases hlength hi
    · exact hleads hjump
    · cases hj.symm.trans hout
  · rw [Nat.zero_add]
    obtain ⟨j, hj, _⟩ | ⟨_, hjump, hstrays⟩ := compactInstruction_cases hlength hi
    · exact ⟨j, hj⟩
    · obtain ⟨target, hleads⟩ := hall a ⟨i, hi, hjump⟩
      exact absurd hleads (hstrays target)

def markedEnds : Program :=
  [⟨.label, []⟩, ⟨.label, [1]⟩, ⟨.jumpIfTrue, [1, 0, 0, 0, 9]⟩, ⟨.nop, [7]⟩,
    .jump .jumpIfFalse (-5), ⟨.label, []⟩]

theorem compact_exact_markedEnds : markedEnds.length < 2 ^ 31 ∧
    (∀ a, markedEnds.JumpAt a → ∃ target, markedEnds.LeadsAt a target) ∧
    compact [.jump .jumpIfTrue 0, .jump .jumpIfFalse (-3)] = .error (.jumpOutOfRange 1) ∧
    (∀ target, ¬ LeadsAt [.jump .jumpIfTrue 0, .jump .jumpIfFalse (-3)] 1 target) ∧
    ∃ q, markedEnds.compact = .ok q ∧
      q = [.jump .jumpIfTrue 1, ⟨.nop, [7]⟩, .jump .jumpIfFalse (-3)] ∧ q.LeadsAt 0 2 ∧
      q.compact = .ok q := by
  have hlength : markedEnds.length < 2 ^ 31 := by decide
  have hq : markedEnds.compact =
      .ok [.jump .jumpIfTrue 1, ⟨.nop, [7]⟩, .jump .jumpIfFalse (-3)] := rfl
  have hout : compact [.jump .jumpIfTrue 0, .jump .jumpIfFalse (-3)] =
      .error (.jumpOutOfRange 1) := rfl
  obtain ⟨a, ha, _, hstrays, _⟩ :=
    (compact_exact (p := [.jump .jumpIfTrue 0, .jump .jumpIfFalse (-3)]) (by decide)).2.1 _ hout
  cases ha
  have hleads : markedEnds.LeadsAt 2 4 :=
    (leadsAt_iff (i := ⟨.jumpIfTrue, [1, 0, 0, 0, 9]⟩) rfl rfl).2 rfl
  obtain ⟨_, _, hjumps, hagain⟩ := (compact_exact hlength).2.2.2 _ hq
  exact ⟨hlength, (compact_exact hlength).1.1 ⟨_, hq⟩, hout, hstrays, _, hq, rfl,
    (hjumps 0 2).2 ⟨2, 4, hleads, rfl, rfl⟩, hagain⟩

end Program

end RuleMachine
