import RuleMachine.Proofs.Compact.Places

set_option autoImplicit false

namespace RuleMachine

theorem jumpDistance_add (k source target : Nat) :
    jumpDistance (k + source) (k + target) = jumpDistance source target := by
  have h : ((k + target : Nat) : Int) - ((k + source : Nat) : Int) - 1 =
      (target : Int) - source - 1 := by
    omega
  simp only [jumpDistance, h]

theorem Instruction.isMark_of_isJump {i : Instruction} (h : i.opcode.isJump = true) :
    i.isMark = false := by
  cases hi : i.opcode <;> simp_all [Instruction.isMark, Opcode.isJump]

namespace Program

/-- No jump leaves the program. -/
def Closed (p : Program) : Prop :=
  ∀ (a : Nat) (i : Instruction), p[a]? = some i → i.opcode.isJump = true →
    ∃ target, p.jumpTarget? a i = some target

variable {p q before after : Program} {a : Nat} {i : Instruction} {l : List Instruction}

theorem compactIndex_add_le (p : Program) (a k : Nat) :
    p.compactIndex (a + k) ≤ p.compactIndex a + k := by
  have hcount := List.countP_le_length (p := fun i : Instruction => !i.isMark)
    (l := (p.drop a).take k)
  simp only [compactIndex, List.take_add, List.countP_append]
  simp only [List.length_take] at hcount
  omega

theorem compactIndex_append (h : a ≤ p.length) :
    compactIndex (before ++ (p ++ after)) (before.length + a) =
      before.compactIndex before.length + p.compactIndex a := by
  have htake : (before ++ (p ++ after)).take (before.length + a) = before ++ p.take a := by
    rw [List.take_length_add_append, List.take_append_of_le_length h]
  simp only [compactIndex, htake, List.countP_append, List.take_length]

theorem jumpTarget?_append {target : Nat} (h : p.jumpTarget? a i = some target) :
    jumpTarget? (before ++ (p ++ after)) (before.length + a) i =
      some (before.length + target) := by
  obtain ⟨offset, hoffset, htarget, hle⟩ := jumpTarget?_eq_some_iff.1 h
  refine jumpTarget?_eq_some_iff.2 ⟨offset, hoffset, by omega, ?_⟩
  simp only [List.length_append]
  omega

/-- An instruction is adjusted as in its own program. -/
theorem compactInstruction_append (ha : a ≤ p.length)
    (h : i.opcode.isJump = true → ∃ target, p.jumpTarget? a i = some target) :
    compactInstruction (before ++ (p ++ after)) (before.length + a) i =
      p.compactInstruction a i := by
  cases hj : i.opcode.isJump with
  | false => rw [compactInstruction_of_not_jump hj, compactInstruction_of_not_jump hj]
  | true =>
    obtain ⟨target, ht⟩ := h hj
    obtain ⟨_, _, _, hle⟩ := jumpTarget?_eq_some_iff.1 ht
    simp only [compactInstruction, hj, ht, jumpTarget?_append ht, compactIndex_append ha,
      compactIndex_append hle, jumpDistance_add]

theorem compactFrom_within (before front l after : Program) (hp : p.Closed)
    (hl : p = front ++ l) :
    compactFrom (before ++ (p ++ after)) (before.length + front.length) l =
      compactFrom p front.length l := by
  induction l generalizing front with
  | nil => rfl
  | cons i l ih =>
    have hi : p[front.length]? = some i := by simp [hl]
    have hle : front.length ≤ p.length := by simp [hl]
    have hrest := ih (front ++ [i]) (by simp [hl])
    rw [List.length_append, List.length_singleton, ← Nat.add_assoc] at hrest
    rw [compactFrom, compactFrom, hrest, compactInstruction_append hle (hp _ _ hi)]

theorem compactFrom_append (p : Program) (index : Nat) (l m : List Instruction) :
    compactFrom p index (l ++ m) = (do
      let front ← compactFrom p index l
      let back ← compactFrom p (index + l.length) m
      return front ++ back) := by
  induction l generalizing index with
  | nil =>
    rw [List.nil_append, compactFrom, List.length_nil, Nat.add_zero]
    cases compactFrom p index m <;> rfl
  | cons i l ih =>
    have hlength : index + (i :: l).length = index + 1 + l.length := by
      rw [List.length_cons]
      omega
    rw [List.cons_append, compactFrom, compactFrom, ih, hlength]
    cases hm : i.isMark with
    | true => simp
    | false => simp

theorem compactFrom_append_eq_ok {index : Nat} {m : List Instruction}
    (h : compactFrom p index (l ++ m) = .ok q) : ∃ front back, compactFrom p index l = .ok front ∧
      compactFrom p (index + l.length) m = .ok back ∧ q = front ++ back := by
  rw [compactFrom_append] at h
  obtain ⟨front, hfront, h⟩ := Except.bind_eq_ok.1 h
  obtain ⟨back, hback, h⟩ := Except.bind_eq_ok.1 h
  cases h
  exact ⟨front, back, hfront, hback, rfl⟩

/-- The marks of two closed programs are taken out of each by itself. -/
theorem compact_append (hp : p.Closed) (hq : q.Closed) :
    compact (p ++ q) = (do
      let front ← p.compact
      let back ← q.compact
      return front ++ back) := by
  have hfront : compactFrom (p ++ q) 0 p = p.compact :=
    compactFrom_within [] [] p q hp rfl
  have hback : compactFrom (p ++ q) (0 + p.length) q = q.compact := by
    have hwithin := compactFrom_within p [] q [] hq rfl
    rwa [List.append_nil, List.length_nil, Nat.add_zero, ← Nat.zero_add p.length] at hwithin
  rw [compact, compactFrom_append, hfront, hback]

theorem exists_compactFrom {index : Nat}
    (h : ∀ a i, l[a]? = some i → ∃ j, p.compactInstruction (index + a) i = .ok j) :
    ∃ q, compactFrom p index l = .ok q := by
  induction l generalizing index with
  | nil => exact ⟨[], rfl⟩
  | cons i l ih =>
    obtain ⟨first, hfirst⟩ := h 0 i rfl
    obtain ⟨more, hmore⟩ := ih fun a j hj => by
      have hnext := h (a + 1) j (by simpa using hj)
      rwa [show index + 1 + a = index + (a + 1) by omega]
    rw [Nat.add_zero] at hfirst
    rw [compactFrom, hfirst, hmore]
    split
    · exact ⟨more, rfl⟩
    · exact ⟨first :: more, rfl⟩

end Program

end RuleMachine
