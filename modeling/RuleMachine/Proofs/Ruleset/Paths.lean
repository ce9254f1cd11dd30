import RuleMachine.Proofs.Text.Decimal
import RuleMachine.Ruleset.Check

set_option autoImplicit false

namespace RuleMachine

/-- A path is that of something or of a part of it. -/
def Under (path part : String) : Prop := ∃ rest, part = path ++ rest

theorem elementPath_eq (p : String) (i : Nat) :
    elementPath p i = p ++ ("[" ++ (i.repr ++ "]")) := by
  have h : elementPath p i = p ++ "[" ++ i.repr ++ "]" := rfl
  rw [h, String.append_assoc, String.append_assoc]

namespace Under

variable {p q r s a b : String} {i j : Nat}

theorem refl (p : String) : Under p p := ⟨"", String.append_empty.symm⟩

theorem of_eq (h : s = p) : Under p s := h ▸ refl s

theorem append (p s : String) : Under p (p ++ s) := ⟨s, rfl⟩

theorem element (p : String) (i : Nat) : Under p (elementPath p i) :=
  ⟨_, elementPath_eq p i⟩

theorem trans (h : Under p q) (h' : Under q r) : Under p r := by
  obtain ⟨s, rfl⟩ := h
  obtain ⟨t, rfl⟩ := h'
  exact ⟨s ++ t, String.append_assoc⟩

theorem element_inj (h : Under (elementPath p i) s) (h' : Under (elementPath p j) s) : i = j := by
  obtain ⟨t, rfl⟩ := h
  obtain ⟨t', h⟩ := h'
  have hlist := congrArg String.toList h
  simp only [elementPath_eq, String.toList_append, List.append_assoc] at hlist
  exact repr_append_inj (c := ']') rfl (List.append_cancel_left (List.append_cancel_left hlist))

theorem field_prefix (h : Under (p ++ a) s) (h' : Under (p ++ b) s) :
    a.toList <+: b.toList ∨ b.toList <+: a.toList := by
  obtain ⟨t, rfl⟩ := h
  obtain ⟨t', h⟩ := h'
  have hlist := congrArg String.toList h
  simp only [String.toList_append, List.append_assoc] at hlist
  have hrest := List.append_cancel_left hlist
  exact List.prefix_or_prefix_of_prefix ⟨t.toList, rfl⟩ ⟨t'.toList, hrest.symm⟩

theorem not_field (ha : a ≠ "") : ¬ Under (p ++ a) p := by
  intro h
  obtain ⟨t, h⟩ := h
  have hlength := congrArg String.length h
  simp only [String.length_append] at hlength
  exact ha (String.length_eq_zero_iff.1 (by omega))

theorem field_of_element (h : Under (elementPath (p ++ a) i) s) : Under (p ++ a) s :=
  (element ..).trans h

end Under

namespace ConditionDraft

/-- The nodes of a condition at a path, with their paths. -/
inductive At : ConditionDraft → String → ConditionDraft → String → Prop where
  | root (c : ConditionDraft) (path : String) : At c path c path
  | all {c child node : ConditionDraft} {path p : String} {i : Nat}
      (child_eq : (c.all.getD [])[i]? = some child)
      (inner : At child (elementPath (path ++ ".all") i) node p) : At c path node p
  | any {c child node : ConditionDraft} {path p : String} {i : Nat}
      (child_eq : (c.any.getD [])[i]? = some child)
      (inner : At child (elementPath (path ++ ".any") i) node p) : At c path node p

namespace At

variable {c node node' : ConditionDraft} {path p : String}

theorem under (h : c.At path node p) : Under path p := by
  induction h with
  | root c path => exact .refl path
  | all child_eq inner ih => exact ((Under.append ..).trans (.element ..)).trans ih
  | any child_eq inner ih => exact ((Under.append ..).trans (.element ..)).trans ih

theorem all_any {c' : ConditionDraft} {i j : Nat} {q : String}
    (h : c.At (elementPath (path ++ ".all") i) node q)
    (h' : c'.At (elementPath (path ++ ".any") j) node' q) : False := by
  have hprefix := h.under.field_of_element.field_prefix h'.under.field_of_element
  exact absurd hprefix (by decide)

end At

end ConditionDraft

end RuleMachine
