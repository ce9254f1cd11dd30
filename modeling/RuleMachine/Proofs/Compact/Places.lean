import Mathlib.Algebra.Group.Nat.Defs
import RuleMachine.Code.Compact
import RuleMachine.Proofs.Codec.Encoding
/-!
Where instructions stand once the marks are gone. The place of an address counts the other
instructions before it; what stands at an address stands at its place, and a jump leads from place
to place as it led from address to address.
-/

set_option autoImplicit false

namespace RuleMachine

theorem jumpDistance_eq_ok_iff {source target : Nat} {distance : Int32} :
    jumpDistance source target = .ok distance ↔
      distance.toInt = (target : Int) - source - 1 := by
  have hd := distance.le_toInt
  have hd' := distance.toInt_lt
  unfold jumpDistance
  dsimp only
  constructor
  · intro h
    split at h
    · rename_i hr
      cases h
      exact Int32.toInt_ofInt_of_le hr.1 hr.2
    · cases h
  · intro h
    rw [if_pos (by omega), ← h, Int32.ofInt_toInt]

theorem exists_jumpDistance {source target : Nat} (hs : source < 2 ^ 31) (ht : target < 2 ^ 31) :
    ∃ distance, jumpDistance source target = .ok distance := by
  unfold jumpDistance
  exact ⟨_, if_pos (by omega)⟩

namespace Program

variable {p q : Program} {a b : Nat} {i : Instruction}

theorem compactIndex_zero (p : Program) : p.compactIndex 0 = 0 := by
  simp [compactIndex]

theorem compactIndex_succ (h : p[a]? = some i) :
    p.compactIndex (a + 1) = p.compactIndex a + if i.isMark then 0 else 1 := by
  simp only [compactIndex, List.take_add_one, h, List.countP_append]
  cases hm : i.isMark <;> simp [hm]

theorem compactIndex_succ_of_mark (h : p[a]? = some i) (hm : i.isMark = true) :
    p.compactIndex (a + 1) = p.compactIndex a := by
  rw [compactIndex_succ h, hm]
  rfl

theorem compactIndex_succ_of_not_mark (h : p[a]? = some i) (hm : i.isMark = false) :
    p.compactIndex (a + 1) = p.compactIndex a + 1 := by
  rw [compactIndex_succ h, hm]
  rfl

theorem compactIndex_mono (h : a ≤ b) : p.compactIndex a ≤ p.compactIndex b := by
  have hs : (p.take a).Sublist (p.take b) := (List.take_prefix_take_left h).sublist
  exact hs.countP_le

theorem compactIndex_of_length_le (h : p.length ≤ a) :
    p.compactIndex a = p.compactIndex p.length := by
  rw [compactIndex, compactIndex, List.take_of_length_le h, List.take_length]

theorem compactFrom_cons_eq_ok {index : Nat} {first : Instruction} {l : List Instruction}
    (h : compactFrom p index (first :: l) = .ok q) :
    (first.isMark = true ∧ compactFrom p (index + 1) l = .ok q) ∨
    (first.isMark = false ∧ ∃ head more, p.compactInstruction index first = .ok head ∧
      compactFrom p (index + 1) l = .ok more ∧ q = head :: more) := by
  rw [compactFrom] at h
  cases hf : first.isMark with
  | true =>
    rw [hf, if_pos rfl] at h
    exact .inl ⟨rfl, h⟩
  | false =>
    rw [hf, if_neg Bool.false_ne_true] at h
    obtain ⟨head, hhead, h⟩ := Except.bind_eq_ok.1 h
    obtain ⟨more, hmore, h⟩ := Except.bind_eq_ok.1 h
    cases h
    exact .inr ⟨rfl, head, more, hhead, hmore, rfl⟩

theorem length_compactFrom {index : Nat} {l : List Instruction}
    (h : compactFrom p index l = .ok q) : q.length = l.countP (!·.isMark) := by
  induction l generalizing index q with
  | nil =>
    cases h
    rfl
  | cons first l ih =>
    obtain hskip | hkeep := compactFrom_cons_eq_ok h
    · obtain ⟨hf, h⟩ := hskip
      simp [ih h, hf]
    · obtain ⟨hf, head, more, _, hmore, rfl⟩ := hkeep
      simp [ih hmore, hf]

theorem getElem?_compactFrom {index : Nat} {l : List Instruction}
    (h : compactFrom p index l = .ok q) (hi : l[a]? = some i) (hm : i.isMark = false) :
    ∃ j, p.compactInstruction (index + a) i = .ok j ∧
      q[(l.take a).countP (!·.isMark)]? = some j := by
  induction l generalizing index q a with
  | nil => cases hi
  | cons first l ih =>
    have hnext : ∀ a, index + 1 + a = index + (a + 1) := fun a => by omega
    obtain hskip | hkeep := compactFrom_cons_eq_ok h
    · obtain ⟨hf, h⟩ := hskip
      cases a with
      | zero =>
        cases hi
        rw [hf] at hm
        cases hm
      | succ a =>
        obtain ⟨j, hj, hq⟩ := ih h (by simpa using hi)
        exact ⟨j, hnext a ▸ hj, by simpa [hf] using hq⟩
    · obtain ⟨hf, head, more, hhead, hmore, rfl⟩ := hkeep
      cases a with
      | zero =>
        cases hi
        exact ⟨head, hhead, by simp⟩
      | succ a =>
        obtain ⟨j, hj, hq⟩ := ih hmore (by simpa using hi)
        exact ⟨j, hnext a ▸ hj, by simpa [hf] using hq⟩

theorem exists_of_getElem?_compactFrom {index : Nat} {l : List Instruction} {j : Instruction}
    (h : compactFrom p index l = .ok q) (hj : q[b]? = some j) :
    ∃ a i, l[a]? = some i ∧ i.isMark = false ∧ p.compactInstruction (index + a) i = .ok j ∧
      (l.take a).countP (!·.isMark) = b := by
  induction l generalizing index q b with
  | nil =>
    cases h
    cases hj
  | cons first l ih =>
    have hnext : ∀ a, index + 1 + a = index + (a + 1) := fun a => by omega
    obtain hskip | hkeep := compactFrom_cons_eq_ok h
    · obtain ⟨hf, h⟩ := hskip
      obtain ⟨a, i, hi, hm, hc, hb⟩ := ih h hj
      exact ⟨a + 1, i, by simpa using hi, hm, hnext a ▸ hc, by simpa [hf] using hb⟩
    · obtain ⟨hf, head, more, hhead, hmore, rfl⟩ := hkeep
      cases b with
      | zero =>
        cases hj
        exact ⟨0, first, rfl, hf, hhead, by simp⟩
      | succ b =>
        obtain ⟨a, i, hi, hm, hc, hb⟩ := ih hmore (by simpa using hj)
        exact ⟨a + 1, i, by simpa using hi, hm, hnext a ▸ hc, by simpa [hf] using hb⟩

theorem length_compact (h : p.compact = .ok q) : q.length = p.compactIndex p.length := by
  rw [length_compactFrom h, compactIndex, List.take_length]

/-- What stands at an address stands, with its jump adjusted, at the place of the address. -/
theorem getElem?_compact (h : p.compact = .ok q) (hi : p[a]? = some i) (hm : i.isMark = false) :
    ∃ j, p.compactInstruction a i = .ok j ∧ q[p.compactIndex a]? = some j := by
  obtain ⟨j, hj, hq⟩ := getElem?_compactFrom h hi hm
  rw [Nat.zero_add] at hj
  exact ⟨j, hj, hq⟩

/-- What stands in the compact program comes from an address whose place it is. -/
theorem exists_of_getElem?_compact {j : Instruction} (h : p.compact = .ok q)
    (hj : q[b]? = some j) : ∃ a i, p[a]? = some i ∧ i.isMark = false ∧
      p.compactInstruction a i = .ok j ∧ p.compactIndex a = b := by
  obtain ⟨a, i, hi, hm, hc, hb⟩ := exists_of_getElem?_compactFrom h hj
  rw [Nat.zero_add] at hc
  exact ⟨a, i, hi, hm, hc, hb⟩

theorem compactInstruction_of_not_jump (h : i.opcode.isJump = false) :
    p.compactInstruction a i = .ok i := by
  rw [compactInstruction, h]
  rfl

theorem jumpTarget?_eq_some_iff {target : Nat} : p.jumpTarget? a i = some target ↔
    ∃ offset, i.jumpOffset? = some offset ∧ (target : Int) = a + 1 + offset.toInt ∧
      target ≤ p.length := by
  unfold jumpTarget?
  simp only [Option.bind_eq_bind, Option.bind_eq_some_iff]
  constructor
  · intro h
    obtain ⟨offset, ho, h⟩ := h
    split at h
    · rename_i hr
      cases h
      exact ⟨offset, ho, by omega, by omega⟩
    · cases h
  · intro h
    obtain ⟨offset, ho, ht, hl⟩ := h
    refine ⟨offset, ho, ?_⟩
    rw [if_pos (by omega)]
    congr 1
    omega

/-- A jump that stays in the program keeps its direction: it leads from the place of its source to
the place of its target. -/
theorem compactInstruction_of_jump {j : Instruction} (h : p.compactInstruction a i = .ok j)
    (hj : i.opcode.isJump = true) : ∃ (offset : Int32) (target : Nat) (distance : Int32),
      i.jumpOffset? = some offset ∧ (target : Int) = a + 1 + offset.toInt ∧ target ≤ p.length ∧
      j = .jump i.opcode distance ∧
      distance.toInt = (p.compactIndex target : Int) - p.compactIndex a - 1 := by
  rw [compactInstruction, hj, if_pos rfl] at h
  cases ht : p.jumpTarget? a i with
  | none =>
    rw [ht] at h
    cases h
  | some target =>
    rw [ht] at h
    obtain ⟨distance, hd, h⟩ := Except.bind_eq_ok.1 h
    cases h
    obtain ⟨offset, ho, he, hl⟩ := jumpTarget?_eq_some_iff.1 ht
    exact ⟨offset, target, distance, ho, he, hl, rfl, jumpDistance_eq_ok_iff.1 hd⟩

end Program

end RuleMachine
