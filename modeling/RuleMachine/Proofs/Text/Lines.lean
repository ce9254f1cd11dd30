import Mathlib.Data.List.DropRight
import RuleMachine.Number.Written
import RuleMachine.Text.Blank
import RuleMachine.Text.Quoted
import RuleMachine.Proofs.Text.Decimal
/-!
Texts in lines. A text is in so many lines if it is these lines, each ended by a line feed, and
holds no other line feed; the lines are then as many as its line feeds. Texts in quotes and
written numbers hold no line feed, and taking blanks off the end of a text that ends in something
else changes nothing.
-/

set_option autoImplicit false

namespace RuleMachine

def lineFeeds (cs : List Char) : Nat := cs.count '\n'

@[simp] theorem lineFeeds_nil : lineFeeds [] = 0 := rfl

@[simp] theorem lineFeeds_append (cs ds : List Char) :
    lineFeeds (cs ++ ds) = lineFeeds cs + lineFeeds ds := List.count_append

@[simp] theorem lineFeeds_cons_of_ne {c : Char} (h : c ≠ '\n') (cs : List Char) :
    lineFeeds (c :: cs) = lineFeeds cs := List.count_cons_of_ne h

theorem lineFeeds_eq_zero_iff {cs : List Char} : lineFeeds cs = 0 ↔ '\n' ∉ cs :=
  List.count_eq_zero

/-- The text is the lines, each ended by a line feed, and has no line feeds but these. -/
def InLines (text : String) (lines : List String) : Prop :=
  text = String.join (lines.map (· ++ "\n")) ∧ ∀ line ∈ lines, lineFeeds line.toList = 0

theorem lineFeeds_join (lines : List String) :
    lineFeeds (String.join (lines.map (· ++ "\n"))).toList =
      lines.length + lineFeeds (lines.flatMap String.toList) := by
  induction lines with
  | nil => rfl
  | cons line lines ih =>
    have hend : lineFeeds "\n".toList = 1 := rfl
    simp only [List.map_cons, String.join_cons, String.toList_append, lineFeeds_append, ih, hend,
      List.length_cons, List.flatMap_cons]
    omega

theorem lineFeeds_flatMap_eq_zero_iff {texts : List String} :
    lineFeeds (texts.flatMap String.toList) = 0 ↔ ∀ s ∈ texts, lineFeeds s.toList = 0 := by
  simp [lineFeeds_eq_zero_iff]

theorem InLines.lineFeeds_eq {text : String} {lines : List String} (h : InLines text lines) :
    lineFeeds text.toList = lines.length := by
  rw [h.1, lineFeeds_join, lineFeeds_flatMap_eq_zero_iff.2 h.2, Nat.add_zero]

/-! Blanks at the end -/

theorem dropBlankEnd_eq_rdropWhile (cs : List Char) :
    dropBlankEnd cs = cs.rdropWhile isBlank := rfl

theorem dropBlankEnd_concat {cs : List Char} {c : Char} (h : isBlank c = false) :
    dropBlankEnd (cs ++ [c]) = cs ++ [c] := by
  rw [dropBlankEnd_eq_rdropWhile, List.rdropWhile_concat_neg _ _ _ (by simp [h])]

theorem dropBlankEnd_append_of_ne_nil {cs ds : List Char} (h : dropBlankEnd ds ≠ []) :
    dropBlankEnd (cs ++ ds) = cs ++ dropBlankEnd ds := by
  unfold dropBlankEnd at h ⊢
  rw [List.reverse_append, List.dropWhile_append, if_neg, List.reverse_append, List.reverse_reverse]
  simpa using h

theorem dropBlankEnd_append_of_nil {cs ds : List Char} (h : dropBlankEnd ds = []) :
    dropBlankEnd (cs ++ ds) = dropBlankEnd cs := by
  unfold dropBlankEnd at h ⊢
  rw [List.reverse_append, List.dropWhile_append, if_pos]
  simpa using h

theorem lineFeeds_dropBlankEnd_le (cs : List Char) : lineFeeds (dropBlankEnd cs) ≤ lineFeeds cs :=
  (List.rdropWhile_prefix isBlank cs).sublist.count_le _

theorem lineFeeds_dropBlankEnd_append {cs : List Char} (h : lineFeeds cs = 0) (ds : List Char) :
    lineFeeds (dropBlankEnd (cs ++ ds)) = lineFeeds (dropBlankEnd ds) := by
  by_cases hds : dropBlankEnd ds = []
  · have hle := lineFeeds_dropBlankEnd_le cs
    rw [dropBlankEnd_append_of_nil hds, hds, lineFeeds_nil]
    omega
  · rw [dropBlankEnd_append_of_ne_nil hds, lineFeeds_append, h, Nat.zero_add]

/-- Without line feeds, and at the end something that is not blank. -/
def EndsLine (cs : List Char) : Prop :=
  lineFeeds cs = 0 ∧ ∃ front last, cs = front ++ [last] ∧ isBlank last = false

theorem EndsLine.dropBlankEnd_append {ds : List Char} (h : EndsLine ds) (cs : List Char) :
    dropBlankEnd (cs ++ ds) = cs ++ ds := by
  obtain ⟨_, front, last, rfl, hlast⟩ := h
  rw [← List.append_assoc, dropBlankEnd_concat hlast]

theorem EndsLine.exists_dropBlankEnd {cs : List Char} (h : EndsLine cs) (ds : List Char) :
    ∃ rest, dropBlankEnd (cs ++ ds) = cs ++ rest := by
  by_cases hds : dropBlankEnd ds = []
  · refine ⟨[], ?_⟩
    rw [dropBlankEnd_append_of_nil hds, List.append_nil]
    exact h.dropBlankEnd_append []
  · exact ⟨_, dropBlankEnd_append_of_ne_nil hds⟩

def Solid (cs : List Char) : Prop := cs ≠ [] ∧ ∀ c ∈ cs, isBlank c = false

theorem Solid.endsLine {cs : List Char} (h : Solid cs) : EndsLine cs := by
  constructor
  · rw [lineFeeds_eq_zero_iff]
    intro hmem
    exact absurd (h.2 _ hmem) (by decide)
  · obtain ⟨front, last, hconcat⟩ := (List.eq_nil_or_concat cs).resolve_left h.1
    rw [List.concat_eq_append] at hconcat
    exact ⟨front, last, hconcat, h.2 last (by simp [hconcat])⟩

theorem solid_of_all {s : String} (nonempty : s.toList.isEmpty = false)
    (h : s.toList.all (fun c => !isBlank c) = true) : Solid s.toList :=
  ⟨by simpa using nonempty, by simpa using h⟩

theorem Solid.cons {c : Char} {cs : List Char} (hc : isBlank c = false) (h : Solid cs) :
    Solid (c :: cs) :=
  ⟨List.cons_ne_nil c cs, List.forall_mem_cons.2 ⟨hc, h.2⟩⟩

theorem Solid.append {cs ds : List Char} (h : Solid cs) (hds : ∀ c ∈ ds, isBlank c = false) :
    Solid (cs ++ ds) :=
  ⟨List.append_ne_nil_of_left_ne_nil h.1 ds, List.forall_mem_append.2 ⟨h.2, hds⟩⟩

theorem isBlank_of_isDigit {c : Char} (h : c.isDigit = true) : isBlank c = false := by
  have hrange : 48 ≤ c.toNat ∧ c.toNat ≤ 57 := by
    simp only [Char.isDigit, Bool.and_eq_true, decide_eq_true_eq, ge_iff_le,
      UInt32.le_iff_toNat_le] at h
    exact h
  simp only [isBlank, blankRanges, List.any_cons, List.any_nil, Bool.or_false,
    Bool.or_eq_false_iff, Bool.and_eq_false_iff, decide_eq_false_iff_not]
  omega

/-! Written numbers -/

theorem solid_repr (n : Nat) : Solid n.repr.toList := by
  refine ⟨?_, fun c hc => isBlank_of_isDigit (isDigit_of_mem_repr hc)⟩
  rw [Nat.toList_repr]
  exact Nat.toDigits_ne_nil

theorem solid_intRepr (n : Int) : Solid n.repr.toList := by
  cases n with
  | ofNat n => exact solid_repr n
  | negSucc n =>
    rw [Int.repr, String.toList_append]
    exact .cons (by decide) (solid_repr _)

theorem solid_digits (d : Decimal) : Solid d.digits := by
  have h := solid_repr d.significand
  rwa [Nat.toList_repr] at h

theorem solid_positional (d : Decimal) : Solid (NumberStyle.plain.positional d).toList := by
  have hzeros : ∀ n, ∀ c ∈ List.replicate n '0', isBlank c = false := by
    intro n c hc
    rw [List.eq_of_mem_replicate hc]
    decide
  have hdigits := solid_digits d
  unfold NumberStyle.positional
  dsimp only
  split
  · simpa [NumberStyle.plain] using hdigits.append (hzeros _)
  split
  · rw [String.toList_ofList]
    refine ⟨by simp, List.forall_mem_append.2 ⟨?_, List.forall_mem_cons.2 ⟨by decide, ?_⟩⟩⟩
    · intro c hc
      exact hdigits.2 c (List.mem_of_mem_take hc)
    · intro c hc
      exact hdigits.2 c (List.mem_of_mem_drop hc)
  · rw [String.toList_ofList]
    refine .cons (by decide) (.cons (by decide) ⟨?_, ?_⟩)
    · exact List.append_ne_nil_of_right_ne_nil _ hdigits.1
    · exact List.forall_mem_append.2 ⟨hzeros _, hdigits.2⟩

theorem Single.solid_write (x : Single) : Solid (x.write .plain).toList := by
  have hmagnitude : ∀ d, NumberStyle.plain.magnitude d = NumberStyle.plain.positional d :=
    fun d => by simp [NumberStyle.magnitude, NumberStyle.isPositional, NumberStyle.plain]
  unfold Single.write NumberStyle.write
  rw [hmagnitude]
  dsimp only
  split
  · exact solid_of_all rfl rfl
  split
  · cases x.isNegative <;> exact solid_of_all rfl rfl
  split
  · rw [String.toList_append]
    exact .cons (by decide) (solid_positional _)
  · exact solid_positional _

/-! Texts in quotes -/

theorem lineFeed_not_mem_toDigits (n : Nat) : '\n' ∉ Nat.toDigits 16 n := by
  induction n using Nat.strongRecOn with
  | ind n ih =>
    have hdigit : ∀ k, Nat.digitChar k ≠ '\n' := fun k => Nat.digitChar_ne '\n' (by decide)
    rw [Nat.toDigits_eq_if (by decide)]
    split
    · rw [List.mem_singleton]
      exact (hdigit n).symm
    · rw [List.mem_append, List.mem_singleton]
      rintro (h | h)
      · exact ih (n / 16) (by omega) h
      · exact hdigit _ h.symm

theorem lineFeeds_quotedChar (c : Char) : lineFeeds (quotedChar c) = 0 := by
  rw [lineFeeds_eq_zero_iff]
  unfold quotedChar
  split_ifs with h₁ h₂ h₃ h₄ h₅ h₆ h₇
  any_goals decide
  · simpa using Ne.symm h₃
  · simp [lineFeed_not_mem_toDigits]

theorem lineFeeds_quoted (s : String) : lineFeeds (quoted s).toList = 0 := by
  have hinside : '\n' ∉ s.toList.flatMap quotedChar := by
    rw [List.mem_flatMap]
    rintro ⟨c, _, hc⟩
    exact lineFeeds_eq_zero_iff.1 (lineFeeds_quotedChar c) hc
  rw [lineFeeds_eq_zero_iff, quoted, String.toList_ofList]
  simpa using hinside

theorem endsLine_quoted (s : String) : EndsLine (quoted s).toList :=
  ⟨lineFeeds_quoted s, '"' :: s.toList.flatMap quotedChar, '"', String.toList_ofList, by decide⟩

end RuleMachine
