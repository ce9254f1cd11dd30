import RuleMachine.Proofs.Compiler.Placed
import RuleMachine.Proofs.Text.Decimal

set_option autoImplicit false

namespace RuleMachine

namespace Label

theorem name_eq (l : Label) : l.name = "L" ++ l.id.repr := rfl

theorem name_injective {l m : Label} (h : l.name = m.name) : l = m := by
  have hid : l.id = m.id := repr_injective (by simpa [name_eq] using h)
  cases l
  cases m
  rw [Label.mk.injEq]
  exact hid

theorem exists_mark_iff {l : Label} :
    (∃ i, l.mark = .ok i) ↔ 1 + l.id.repr.utf8ByteSize ≤ maxTextLength := by
  have hsize : (textBytes l.name).length = 1 + l.id.repr.utf8ByteSize := by
    rw [length_textBytes, name_eq, String.utf8ByteSize_append]
    rfl
  rw [← hsize]
  constructor
  · intro h
    obtain ⟨_, hmark⟩ := h
    obtain ⟨_, hbytes, _⟩ := Instruction.mark_eq_ok_iff.1 hmark
    exact (Operand.text_eq_ok_iff.1 (encodeText_eq_ok_iff.1 hbytes)).1
  · intro h
    exact ⟨_, Instruction.mark_eq_ok_iff.2
      ⟨_, encodeText_eq_ok_iff.2 (Operand.text_eq_ok_iff.2 ⟨h, rfl⟩), rfl⟩⟩

theorem exists_mark {l : Label} (h : l.id < 2 ^ 31) : ∃ i, l.mark = .ok i := by
  have hrepr : l.id.repr.utf8ByteSize ≤ 10 := utf8ByteSize_repr_le (by omega)
  rw [exists_mark_iff, maxTextLength]
  omega

theorem exists_mark_of_le {l m : Label} (h : ∃ i, m.mark = .ok i) (hle : l.id ≤ m.id) :
    ∃ i, l.mark = .ok i := by
  rw [exists_mark_iff] at h ⊢
  have hrepr := utf8ByteSize_repr_mono hle
  omega

end Label

namespace Assembly

/-- The labels that the code marks, in order. -/
inductive Labelled : Assembly → List Label → Prop where
  | nil : Labelled [] []
  | jump {code : Assembly} {labels : List Label} (op : Opcode) (l : Label)
      (more : Labelled code labels) : Labelled (.jump op l :: code) labels
  | plain {code : Assembly} {labels : List Label} {i : Instruction} (unmarked : i.isMark = false)
      (more : Labelled code labels) : Labelled (.instruction i :: code) labels
  | mark {code : Assembly} {labels : List Label} {l : Label} {i : Instruction}
      (mark : l.mark = .ok i) (more : Labelled code labels) :
      Labelled (.instruction i :: code) (l :: labels)

variable {code code' : Assembly} {labels labels' : List Label}

theorem Labelled.append (h : code.Labelled labels) (h' : code'.Labelled labels') :
    Labelled (code ++ code') (labels ++ labels') := by
  induction h with
  | nil => exact h'
  | jump op l more ih => exact .jump op l ih
  | plain unmarked more ih => exact .plain unmarked ih
  | mark mark more ih => exact .mark mark ih

theorem labelled_instructions {is : List Instruction} (h : ∀ i ∈ is, i.isMark = false) :
    Labelled (is.map .instruction) [] := by
  induction is with
  | nil => exact .nil
  | cons i is ih =>
    obtain ⟨hi, his⟩ := List.forall_mem_cons.1 h
    exact .plain hi (ih his)

theorem Labelled.length_le (h : code.Labelled labels) : labels.length ≤ code.length := by
  induction h with
  | nil => exact Nat.le_refl 0
  | jump op l more ih => exact Nat.le_succ_of_le ih
  | plain unmarked more ih => exact Nat.le_succ_of_le ih
  | mark mark more ih => exact Nat.succ_le_succ ih

theorem Labelled.exists_marksFrom {a : Nat} {seen : List (String × Nat)} (h : code.Labelled labels)
    (hnodup : labels.Nodup) (hseen : ∀ l ∈ labels, seen.lookup l.name = none) :
    ∃ marks, marksFrom a seen code = .ok marks ∧
      ∀ l ∈ labels, ∃ b, marks.lookup l.name = some b ∧ b < a + code.length := by
  induction h generalizing a seen with
  | nil => exact ⟨seen, rfl, nofun⟩
  | @jump code labels op l more ih =>
    obtain ⟨marks, hmarks, hall⟩ := ih (a := a + 1) hnodup hseen
    refine ⟨marks, hmarks, fun m hm => ?_⟩
    obtain ⟨b, hb, hlt⟩ := hall m hm
    exact ⟨b, hb, by simp only [List.length_cons]; omega⟩
  | @plain code labels i unmarked more ih =>
    obtain ⟨marks, hmarks, hall⟩ := ih (a := a + 1) hnodup hseen
    have hop : ¬ i.opcode = .label := by simpa [Instruction.isMark] using unmarked
    refine ⟨marks, by rw [marksFrom, if_neg hop, hmarks], fun m hm => ?_⟩
    obtain ⟨b, hb, hlt⟩ := hall m hm
    exact ⟨b, hb, by simp only [List.length_cons]; omega⟩
  | @mark code labels l i mark more ih =>
    obtain ⟨hnotin, hnodup'⟩ := List.nodup_cons.1 hnodup
    obtain ⟨hl, hrest⟩ := List.forall_mem_cons.1 hseen
    have hseen' : ∀ m ∈ labels, List.lookup m.name ((l.name, a) :: seen) = none := by
      intro m hm
      have hne : m.name ≠ l.name := fun he => hnotin (Label.name_injective he ▸ hm)
      rw [List.lookup_cons, beq_false_of_ne hne]
      exact hrest m hm
    obtain ⟨marks, hmarks, hall⟩ := ih (a := a + 1) hnodup' hseen'
    have hkept := (marked_of_marksFrom hmarks).1 l.name a List.lookup_cons_self
    have hstart : marksFrom a seen (.instruction i :: code) = .ok marks := by
      obtain ⟨hop, hread⟩ := Label.read_mark mark
      simp only [marksFrom, if_pos hop, hread, hl, Option.isSome_none, Bool.false_eq_true, if_false,
        hmarks]
    refine ⟨marks, hstart, List.forall_mem_cons.2 ⟨⟨a, hkept, ?_⟩, fun m hm => ?_⟩⟩
    · simp only [List.length_cons]
      omega
    · obtain ⟨b, hb, hlt⟩ := hall m hm
      exact ⟨b, hb, by simp only [List.length_cons]; omega⟩

theorem exists_resolveFrom {marks : List (String × Nat)} {a : Nat}
    (h : ∀ op l, .jump op l ∈ code → ∃ b, marks.lookup l.name = some b ∧ b < 2 ^ 31)
    (ha : a + code.length ≤ 2 ^ 31) : ∃ p, resolveFrom marks a code = .ok p := by
  induction code generalizing a with
  | nil => exact ⟨[], rfl⟩
  | cons line rest ih =>
    rw [List.length_cons] at ha
    obtain ⟨more, hmore⟩ := ih (a := a + 1) (fun op l hl => h op l (List.mem_cons_of_mem _ hl))
      (by omega)
    cases line with
    | instruction i =>
      refine ⟨i :: more, ?_⟩
      rw [resolveFrom, hmore]
      rfl
    | jump op l =>
      obtain ⟨b, hb, hlt⟩ := h op l List.mem_cons_self
      obtain ⟨distance, hdistance⟩ := exists_jumpDistance (by omega : a < 2 ^ 31) hlt
      refine ⟨.jump op distance :: more, ?_⟩
      simp only [resolveFrom, hb, hdistance, hmore]
      rfl

/-- Code that jumps only to labels that it marks once can be resolved. -/
theorem Labelled.exists_resolve (h : code.Labelled labels) (hnodup : labels.Nodup)
    (hjumps : ∀ op l, .jump op l ∈ code → l ∈ labels) (hlength : code.length < 2 ^ 31) :
    ∃ p, code.resolve = .ok p := by
  have hnew : ∀ l ∈ labels, List.lookup l.name ([] : List (String × Nat)) = none := fun _ _ => rfl
  obtain ⟨marks, hmarks, hall⟩ := h.exists_marksFrom (a := 0) hnodup hnew
  have hplaces : ∀ op l, .jump op l ∈ code → ∃ b, marks.lookup l.name = some b ∧ b < 2 ^ 31 := by
    intro op l hl
    obtain ⟨b, hb, hlt⟩ := hall l (hjumps op l hl)
    exact ⟨b, hb, by omega⟩
  obtain ⟨p, hp⟩ := exists_resolveFrom (a := 0) hplaces (by omega)
  refine ⟨p, ?_⟩
  rw [resolve, hmarks]
  exact hp

end Assembly

end RuleMachine
