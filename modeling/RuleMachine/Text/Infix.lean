
set_option autoImplicit false

namespace RuleMachine

/-- Whether the characters of `part` stand next to each other somewhere in `whole`. -/
def hasPart (part : List Char) : List Char → Bool
  | [] => part.isEmpty
  | c :: cs => part.isPrefixOf (c :: cs) || hasPart part cs

theorem hasPart_iff {part whole : List Char} :
    hasPart part whole = true ↔ ∃ front back, whole = front ++ part ++ back := by
  induction whole with
  | nil =>
    simp only [hasPart, List.isEmpty_iff]
    constructor
    · rintro rfl
      exact ⟨[], [], rfl⟩
    · rintro ⟨front, back, h⟩
      simp_all
  | cons c cs ih =>
    simp only [hasPart, Bool.or_eq_true, ih, List.isPrefixOf_iff_prefix]
    constructor
    · rintro (⟨back, h⟩ | ⟨front, back, h⟩)
      · exact ⟨[], back, by simp [h]⟩
      · exact ⟨c :: front, back, by simp [h]⟩
    · rintro ⟨front, back, h⟩
      cases front with
      | nil => exact .inl ⟨back, by simpa using h.symm⟩
      | cons d front =>
        refine .inr ⟨front, back, ?_⟩
        simpa using (List.cons.inj h).2

end RuleMachine
