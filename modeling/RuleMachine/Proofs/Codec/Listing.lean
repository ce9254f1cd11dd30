import RuleMachine.Code.Listing
import RuleMachine.Ruleset.Check
import RuleMachine.Ruleset.Compiler
import RuleMachine.Proofs.Codec.Reading
import RuleMachine.Proofs.Text.Lines
/-!
The lines of a listing. Values stand in quotes and numbers hold no line feed, so that the line
feeds inside the line of an instruction are those of the names it shows as they are. A listing has
one line for each instruction exactly if these names have no line feeds.
-/

set_option autoImplicit false

namespace RuleMachine

/-- The names that the line of an instruction shows as they are. What ends the line loses its blank
end. -/
def Opcode.bareNames : Opcode → Read (List String)
  | .nop | .ruleEnd => return []
  | .jumpIfTrue | .jumpIfFalse | .priority => do
    let _ ← Read.int
    return []
  | .label | .ruleStart => do
    let name ← Read.text
    return [String.ofList (dropBlankEnd name.toList)]
  | .floatGt | .floatLt | .floatGte | .floatLte | .floatEq | .floatNeq => do
    let fact ← Read.text
    let _ ← Read.single
    return [fact]
  | .strEq | .strNeq | .strContains | .strNotContains | .scriptCall => do
    let name ← Read.text
    let _ ← Read.text
    return [name]
  | .boolEq | .boolNeq => do
    let fact ← Read.text
    let _ ← Read.bool
    return [fact]
  | .execAction => do
    let kind ← Read.text
    let target ← Read.text
    let _ ← Read.text
    return [kind, target]
  | .scriptDef => do
    let name ← Read.text
    let count ← Read.int
    let params ← Read.texts count.toInt.toNat
    let _ ← Read.text
    return name :: params

def Instruction.bareNames (i : Instruction) : List String :=
  match i.read i.opcode.bareNames with
  | .ok names => names
  | .error _ => []

/-- A name with a line feed breaks the line of the instruction. -/
def Instruction.Spills (i : Instruction) : Prop := ∃ name ∈ i.bareNames, '\n' ∈ name.toList

instance (i : Instruction) : Decidable i.Spills :=
  inferInstanceAs (Decidable (∃ name ∈ i.bareNames, '\n' ∈ name.toList))

/-- Two reads succeed on the same operands, to the same place and with related values. -/
def Beside {α β : Type} (Q : α → β → Prop) (x : Read α) (y : Read β) : Prop :=
  ∀ c, match x c, y c with
    | .ok a c₁, .ok b c₂ => c₁ = c₂ ∧ Q a b
    | .error _ _, .error _ _ => True
    | _, _ => False

section

variable {α β γ δ : Type} {Q : α → β → Prop} {R : γ → δ → Prop}

theorem Beside.pure {a : α} {b : β} (h : Q a b) : Beside Q (pure a) (pure b) := fun _ => ⟨rfl, h⟩

theorem Beside.refl (x : Read α) : Beside Eq x x := by
  intro c
  cases x c with
  | ok a c₁ => exact ⟨rfl, rfl⟩
  | error e c₁ => exact trivial

theorem Beside.bind {x : Read α} {y : Read β} {f : α → Read γ} {g : β → Read δ}
    (h : Beside Q x y) (next : ∀ a b, Q a b → Beside R (f a) (g b)) :
    Beside R (x >>= f) (y >>= g) := by
  intro c
  have hc := h c
  change match EStateM.bind x f c, EStateM.bind y g c with
    | .ok a c₁, .ok b c₂ => c₁ = c₂ ∧ R a b
    | .error _ _, .error _ _ => True
    | _, _ => False
  unfold EStateM.bind
  cases hx : x c with
  | ok a c₁ =>
    cases hy : y c with
    | ok b c₂ =>
      rw [hx, hy] at hc
      obtain ⟨rfl, hq⟩ := hc
      exact next a b hq c₁
    | error e c₂ => simp [hx, hy] at hc
  | error e c₁ =>
    cases hy : y c with
    | ok b c₂ => simp [hx, hy] at hc
    | error e c₂ => exact trivial

theorem Beside.step {x : Read α} {f : α → Read γ} {g : α → Read δ}
    (next : ∀ a, Beside R (f a) (g a)) : Beside R (x >>= f) (x >>= g) :=
  (Beside.refl x).bind fun a _ h => h ▸ next a

end

theorem lineFeeds_replicate_of_ne {c : Char} (h : c ≠ '\n') (n : Nat) :
    lineFeeds (List.replicate n c) = 0 := by
  rw [lineFeeds, List.count_replicate, if_neg]
  simpa using h

theorem lineFeeds_padLeft {fill : Char} (h : fill ≠ '\n') (width : Nat) (s : String) :
    lineFeeds (padLeft width fill s).toList = lineFeeds s.toList := by
  rw [padLeft, String.toList_append, String.toList_ofList, lineFeeds_append,
    lineFeeds_replicate_of_ne h, Nat.zero_add]

theorem lineFeeds_intercalate (names : List String) :
    lineFeeds (", ".intercalate names).toList = lineFeeds (names.flatMap String.toList) := by
  induction names with
  | nil => rfl
  | cons name names ih =>
    cases names with
    | nil => simp
    | cons next names =>
      have hcomma : lineFeeds ", ".toList = 0 := rfl
      rw [String.intercalate_cons_cons, String.toList_append, String.toList_append,
        List.flatMap_cons, lineFeeds_append, lineFeeds_append, lineFeeds_append, ih, hcomma,
        Nat.add_zero]

/-- The line feeds that are left of the operands of a line are those of the names. -/
def SameLineFeeds (text : String) (names : List String) : Prop :=
  lineFeeds (dropBlankEnd text.toList) = lineFeeds (names.flatMap String.toList)

theorem SameLineFeeds.of_append {front last : String} {names : List String}
    (hlast : EndsLine last.toList)
    (h : lineFeeds front.toList = lineFeeds (names.flatMap String.toList)) :
    SameLineFeeds (front ++ last) names := by
  rw [SameLineFeeds, String.toList_append, hlast.dropBlankEnd_append, lineFeeds_append, h, hlast.1,
    Nat.add_zero]

theorem Opcode.operandText_beside (op : Opcode) (index : Nat) :
    Beside SameLineFeeds (op.operandText index) op.bareNames := by
  cases op with
  | nop | ruleEnd => exact .pure rfl
  | jumpIfTrue | jumpIfFalse =>
    refine .step fun offset => .pure (.of_append (solid_intRepr _).endsLine ?_)
    change lineFeeds (" " ++ padLeft 4 ' ' offset.toInt.repr ++ " -> ").toList = 0
    simp [lineFeeds_padLeft, (solid_intRepr _).endsLine.1]
  | label | ruleStart =>
    refine .step fun name => .pure ?_
    rw [SameLineFeeds, String.toList_append, lineFeeds_dropBlankEnd_append rfl]
    simp
  | priority => exact .step fun n => .pure (.of_append (solid_intRepr _).endsLine rfl)
  | floatGt | floatLt | floatGte | floatLte | floatEq | floatNeq =>
    refine .step fun fact => .step fun x => .pure (.of_append x.solid_write.endsLine ?_)
    change lineFeeds (" " ++ fact ++ " ").toList = _
    simp
  | strEq | strNeq | strContains | strNotContains | scriptCall =>
    refine .step fun name => .step fun value => .pure (.of_append (endsLine_quoted value) ?_)
    change lineFeeds (" " ++ name ++ " ").toList = _
    simp
  | boolEq | boolNeq =>
    refine .step fun fact => .step fun b => .pure (.of_append (Solid.endsLine ?_) ?_)
    · cases b <;> exact solid_of_all rfl rfl
    · change lineFeeds (" " ++ fact ++ " ").toList = _
      simp
  | execAction =>
    refine .step fun kind => .step fun target => .step fun value =>
      .pure (.of_append (endsLine_quoted value) ?_)
    change lineFeeds (" " ++ kind ++ " " ++ target ++ " ").toList = _
    simp
  | scriptDef =>
    refine .step fun name => .step fun count => .step fun params => .step fun body =>
      .pure (.of_append (endsLine_quoted body) ?_)
    change lineFeeds (" " ++ name ++ "(" ++ ", ".intercalate params ++ ") ").toList = _
    simp only [String.toList_append, lineFeeds_append, lineFeeds_intercalate, List.flatMap_cons]
    simp

/-! Lines -/

def lineHead (index : Nat) (op : Opcode) : String :=
  padLeft 4 '0' (toString index) ++ " " ++ op.name

theorem Opcode.solid_name (op : Opcode) : Solid op.name.toList := by
  cases op <;> exact solid_of_all rfl rfl

theorem endsLine_lineHead (index : Nat) (op : Opcode) : EndsLine (lineHead index op).toList := by
  obtain ⟨hnone, front, last, hname, hlast⟩ := op.solid_name.endsLine
  refine ⟨?_, (padLeft 4 '0' (toString index) ++ " ").toList ++ front, last, ?_, hlast⟩
  · have hindex : lineFeeds (toString index).toList = 0 := (solid_repr index).endsLine.1
    rw [lineHead, String.toList_append, String.toList_append, lineFeeds_append, lineFeeds_append,
      lineFeeds_padLeft (by decide), hindex, hnone]
    rfl
  · rw [lineHead, String.toList_append, hname, List.append_assoc]

namespace Instruction

def shownOperands (i : Instruction) (index : Nat) : String :=
  match i.read (i.opcode.operandText index) with
  | .ok text => text
  | .error _ => " <malformed operands>"

theorem line_eq (i : Instruction) (index : Nat) :
    i.line index = String.ofList (dropBlankEnd ((lineHead index i.opcode).toList ++
      (List.replicate (16 - i.opcode.name.length) ' ' ++ (i.shownOperands index).toList))) := by
  simp only [line, padRight, lineHead, String.toList_append, String.toList_ofList,
    List.append_assoc]
  rfl

theorem lineFeeds_shownOperands (i : Instruction) (index : Nat) :
    lineFeeds (dropBlankEnd (i.shownOperands index).toList) =
      lineFeeds (i.bareNames.flatMap String.toList) := by
  have hboth := i.opcode.operandText_beside index (Cursor.start i.operands)
  unfold shownOperands bareNames read
  cases htext : i.opcode.operandText index (Cursor.start i.operands) with
  | ok text c =>
    cases hnames : i.opcode.bareNames (Cursor.start i.operands) with
    | ok names d =>
      rw [htext, hnames] at hboth
      exact hboth.2
    | error e d => simp [htext, hnames] at hboth
  | error e c =>
    cases hnames : i.opcode.bareNames (Cursor.start i.operands) with
    | ok names d => simp [htext, hnames] at hboth
    | error e d => exact Nat.le_zero.1 (lineFeeds_dropBlankEnd_le " <malformed operands>".toList)

/-- A line has the line feeds of the names it shows as they are. -/
theorem lineFeeds_line (i : Instruction) (index : Nat) :
    lineFeeds (i.line index).toList = lineFeeds (i.bareNames.flatMap String.toList) := by
  rw [line_eq, String.toList_ofList, lineFeeds_dropBlankEnd_append (endsLine_lineHead _ _).1,
    lineFeeds_dropBlankEnd_append (lineFeeds_replicate_of_ne (by decide) _),
    lineFeeds_shownOperands]

theorem exists_line_eq_append (i : Instruction) (index : Nat) :
    ∃ rest, i.line index = lineHead index i.opcode ++ rest := by
  obtain ⟨rest, hrest⟩ := (endsLine_lineHead index i.opcode).exists_dropBlankEnd
    (List.replicate (16 - i.opcode.name.length) ' ' ++ (i.shownOperands index).toList)
  refine ⟨String.ofList rest, ?_⟩
  rw [line_eq, hrest, String.ofList_append, String.ofList_toList]

theorem lineFeeds_line_eq_zero_iff (i : Instruction) (index : Nat) :
    lineFeeds (i.line index).toList = 0 ↔ ¬ i.Spills := by
  rw [lineFeeds_line, lineFeeds_flatMap_eq_zero_iff]
  simp only [lineFeeds_eq_zero_iff, Spills, not_exists, not_and]

end Instruction

def Instruction.Heads (i : Instruction) (index : Nat) (line : String) : Prop :=
  ∃ (digits : List Char) (rest : String),
    line = String.ofList digits ++ " " ++ i.opcode.name ++ rest ∧ 4 ≤ digits.length ∧
      (∀ c ∈ digits, c.isDigit = true) ∧ Nat.ofDigitChars 10 digits 0 = index

theorem Instruction.heads_line (i : Instruction) (index : Nat) : i.Heads index (i.line index) := by
  obtain ⟨rest, hline⟩ := i.exists_line_eq_append index
  refine ⟨List.replicate (4 - index.repr.length) '0' ++ index.repr.toList, rest, ?_, ?_, ?_, ?_⟩
  · rw [hline, String.ofList_append, String.ofList_toList]
    rfl
  · rw [List.length_append, List.length_replicate, String.length_toList]
    omega
  · rw [List.forall_mem_append]
    refine ⟨?_, fun c hc => isDigit_of_mem_repr hc⟩
    intro c hc
    rw [List.eq_of_mem_replicate hc]
    decide
  · rw [Nat.ofDigitChars_append, Nat.ofDigitChars_replicate_zero, Nat.mul_zero, Nat.toList_repr,
      Nat.ofDigitChars_ten_toDigits]

namespace Program

def lines (p : Program) (title : String) : List String :=
  s!"== {title} ==" :: p.zipIdx.map fun (i, index) => i.line index

theorem listing_eq_join (p : Program) (title : String) :
    p.listing title = String.join ((p.lines title).map (· ++ "\n")) := by
  have hheading : s!"== {title} ==\n" = s!"== {title} ==" ++ "\n" := by
    have hend : " ==\n" = " ==" ++ "\n" := by decide
    change "== " ++ title ++ " ==\n" = "== " ++ title ++ " ==" ++ "\n"
    rw [hend, ← String.append_assoc]
  rw [listing, hheading, lines, List.map_cons, List.map_map, String.join_cons]
  rfl

theorem length_lines (p : Program) (title : String) : (p.lines title).length = p.length + 1 := by
  simp [lines]

theorem lines_getElem?_succ (p : Program) (title : String) (index : Nat) :
    (p.lines title)[index + 1]? = p[index]?.map (·.line index) := by
  rw [lines, List.getElem?_cons_succ, List.getElem?_map, List.getElem?_zipIdx, Option.map_map,
    Nat.zero_add]
  rfl

theorem forall_lines_iff (p : Program) {title : String} (h : '\n' ∉ title.toList) :
    (∀ line ∈ p.lines title, lineFeeds line.toList = 0) ↔ ∀ i ∈ p, ¬ i.Spills := by
  have hheading : lineFeeds (s!"== {title} ==").toList = 0 := by
    change lineFeeds ("== " ++ title ++ " ==").toList = 0
    simpa [lineFeeds_eq_zero_iff] using h
  rw [lines, List.forall_mem_cons, List.forall_mem_map]
  constructor
  · rintro ⟨_, hlines⟩ i hi
    obtain ⟨index, hindex⟩ := List.mem_iff_getElem?.1 hi
    rw [← i.lineFeeds_line_eq_zero_iff index]
    exact hlines (i, index) (List.mem_zipIdx_iff_getElem?.2 hindex)
  · intro hspills
    refine ⟨hheading, fun (i, index) hi => ?_⟩
    exact (i.lineFeeds_line_eq_zero_iff index).2
      (hspills i (List.mem_of_getElem? (List.mem_zipIdx_iff_getElem?.1 hi)))

theorem lineFeeds_listing_eq_iff (p : Program) {title : String} (h : '\n' ∉ title.toList) :
    lineFeeds (p.listing title).toList = p.length + 1 ↔ ∀ i ∈ p, ¬ i.Spills := by
  rw [listing_eq_join, lineFeeds_join, length_lines, Nat.add_eq_left,
    lineFeeds_flatMap_eq_zero_iff, forall_lines_iff p h]

/-- A listing is in lines, the heading and one for each instruction that starts with its index and
the name of its opcode, exactly if no instruction has a line feed in a name that its line shows as
it is. -/
theorem listing_lines (p : Program) {title : String} (h : '\n' ∉ title.toList) :
    (∃ lines, InLines (p.listing title) (s!"== {title} ==" :: lines) ∧ lines.length = p.length ∧
      ∀ (index : Nat) (i : Instruction), p[index]? = some i →
        ∃ line, lines[index]? = some line ∧ i.Heads index line) ↔
    ∀ i ∈ p, ¬ i.Spills := by
  constructor
  · rintro ⟨lines, hlines, hlength, _⟩
    rw [← lineFeeds_listing_eq_iff p h, hlines.lineFeeds_eq, List.length_cons, hlength]
  · intro hspills
    have hlines : InLines (p.listing title) (p.lines title) :=
      ⟨p.listing_eq_join title, (p.forall_lines_iff h).2 hspills⟩
    refine ⟨(p.lines title).tail, hlines, ?_, ?_⟩
    · rw [List.length_tail, length_lines, Nat.add_sub_cancel]
    · intro index i hi
      refine ⟨i.line index, ?_, i.heads_line index⟩
      rw [List.getElem?_tail, lines_getElem?_succ, hi, Option.map_some]

def trailingFeed : Program := [⟨.ruleStart, [2, 0, 97, 10]⟩, .ruleEnd]

theorem listing_lines_trailingFeed : '\n' ∉ "p".toList ∧ ∃ lines,
    InLines (trailingFeed.listing "p") ("== p ==" :: lines) ∧ lines.length = trailingFeed.length ∧
    ∀ (index : Nat) (i : Instruction), trailingFeed[index]? = some i →
      ∃ line, lines[index]? = some line ∧ i.Heads index line := by
  have htitle : '\n' ∉ "p".toList := by decide
  have hnames : ∀ i ∈ trailingFeed, ¬ i.Spills := by decide
  exact ⟨htitle, (listing_lines trailingFeed htitle).2 hnames⟩

end Program

def RulesetDraft.brokenName : RulesetDraft :=
  ⟨[{ name := some "a\nb"
      conditions := some { all := some [
        { fact := some "f", operator := some "GT", value := some (.int 1) }] } }]⟩

theorem Program.listing_brokenName : ∃ rules p, RulesetDraft.brokenName.check = .ok rules ∧
    Ruleset.program ⟨false, false⟩ rules = .ok p ∧ '\n' ∉ "p".toList ∧
    ¬ ∃ lines, InLines (p.listing "p") lines ∧ lines.length = p.length + 1 := by
  have htitle : '\n' ∉ "p".toList := by decide
  refine ⟨_, _, rfl, rfl, htitle, ?_⟩
  rintro ⟨lines, hlines, hlength⟩
  have hnames := (lineFeeds_listing_eq_iff _ htitle).1 (hlines.lineFeeds_eq.trans hlength)
  revert hnames
  decide

end RuleMachine
