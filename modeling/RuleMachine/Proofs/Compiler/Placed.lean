import RuleMachine.Proofs.Codec.Emitted
import RuleMachine.Proofs.Compact.Places
import RuleMachine.Proofs.Compiler.Lowered

set_option autoImplicit false

namespace RuleMachine

theorem Label.read_mark {l : Label} {i : Instruction} (h : l.mark = .ok i) :
    i.opcode = .label ∧ i.read Read.text = .ok l.name := by
  obtain ⟨bytes, hbytes, rfl⟩ := Instruction.mark_eq_ok_iff.1 h
  exact ⟨rfl, Instruction.read_of_reads (i := ⟨.label, bytes⟩) (reads_text_of_encodeText hbytes)⟩

namespace Assembly

section

variable (place : String → Option Nat)

/-- The marks of the code, which starts at an address, are where their names say. -/
def Marked : Nat → Assembly → Prop
  | _, [] => True
  | a, .instruction i :: rest =>
    (∀ name, i.opcode = .label → i.read Read.text = .ok name → place name = some a) ∧
      Marked (a + 1) rest
  | a, .jump _ _ :: rest => Marked (a + 1) rest

/-- The code stands in a program from an address on, with its jumps resolved to the places of their
labels. -/
def Placed (p : Program) : Nat → Assembly → Prop
  | _, [] => True
  | a, .instruction i :: rest =>
    p[a]? = some i ∧
      (∀ name, i.opcode = .label → i.read Read.text = .ok name → place name = some a) ∧
      Placed p (a + 1) rest
  | a, .jump op l :: rest =>
    (∃ distance target, p[a]? = some (.jump op distance) ∧ place l.name = some target ∧
      distance.toInt = (target : Int) - a - 1) ∧ Placed p (a + 1) rest

def MarkAt (p : Program) (l : Label) (a : Nat) : Prop :=
  (∃ i, p[a]? = some i ∧ i.opcode = .label) ∧ place l.name = some a

end

variable {place : String → Option Nat} {p : Program} {code front back : Assembly} {a : Nat}
  {l : Label} {i : Instruction}

theorem marked_of_marksFrom {seen marks : List (String × Nat)}
    (h : marksFrom a seen code = .ok marks) :
    (∀ name b, seen.lookup name = some b → marks.lookup name = some b) ∧
      Marked (marks.lookup ·) a code := by
  induction code generalizing a seen with
  | nil =>
    cases h
    exact ⟨fun _ _ h => h, trivial⟩
  | cons line rest ih =>
    cases line with
    | jump op l => exact ih h
    | instruction i =>
      rw [marksFrom] at h
      split at h
      · split at h
        · cases h
        · rename_i name hread
          split at h
          · cases h
          · rename_i hnew
            obtain ⟨hseen, hrest⟩ := ih h
            refine ⟨fun other b hb => hseen other b ?_, fun other _ hother => ?_, hrest⟩
            · have hne : other ≠ name := by
                intro he
                rw [he] at hb
                exact hnew (by rw [hb]; rfl)
              rw [List.lookup_cons, beq_false_of_ne hne]
              exact hb
            · rw [hread] at hother
              cases hother
              exact hseen _ _ List.lookup_cons_self
      · rename_i hop
        obtain ⟨hseen, hrest⟩ := ih h
        exact ⟨hseen, fun _ hlabel => absurd hlabel hop, hrest⟩

theorem length_resolveFrom {marks : List (String × Nat)} (h : resolveFrom marks a code = .ok p) :
    p.length = code.length := by
  induction code generalizing a p with
  | nil =>
    cases h
    rfl
  | cons line rest ih =>
    obtain ⟨i, more, rfl, _, hmore⟩ := resolveFrom_cons_eq_ok h
    exact congrArg (· + 1) (ih hmore)

theorem getElem?_front_append (before after more : Program) (i : Instruction) :
    (before ++ (i :: more ++ after))[before.length]? = some i := by
  rw [List.getElem?_append_right (Nat.le_refl _), Nat.sub_self]
  rfl

/-- Code that is resolved from `a` on is placed wherever its program stands, `base` further on. -/
theorem placed_of_resolveFrom {marks : List (String × Nat)} {base : Nat}
    (hm : Marked (marks.lookup ·) a code) (h : resolveFrom marks a code = .ok p)
    (before after : Program) (hbase : before.length = base + a) :
    Placed (fun name => (marks.lookup name).map (base + ·)) (before ++ (p ++ after))
      before.length code := by
  induction code generalizing a p before with
  | nil => trivial
  | cons line rest ih =>
    obtain ⟨i, more, rfl, hline, hmore⟩ := resolveFrom_cons_eq_ok h
    have hnext : (before ++ [i]).length = base + (a + 1) := by
      rw [List.length_append, List.length_singleton, hbase, Nat.add_assoc]
    have hi := getElem?_front_append before after more i
    cases line with
    | instruction j =>
      cases hline
      have hrest := ih hm.2 hmore (before ++ [i]) hnext
      simp only [List.append_assoc, List.cons_append, List.nil_append, List.length_append,
        List.length_singleton] at hrest
      refine ⟨hi, fun name hop hread => ?_, hrest⟩
      have hlookup : marks.lookup name = some a := hm.1 name hop hread
      simp only [hlookup, hbase, Option.map_some]
    | jump op l =>
      obtain ⟨target, distance, htarget, hdistance, rfl⟩ := hline
      have hrest := ih hm hmore (before ++ [.jump op distance]) hnext
      simp only [List.append_assoc, List.cons_append, List.nil_append, List.length_append,
        List.length_singleton] at hrest
      refine ⟨⟨distance, base + target, hi, ?_, ?_⟩, hrest⟩
      · simp only [htarget, Option.map_some]
      · rw [jumpDistance_eq_ok_iff.1 hdistance, hbase]
        omega

theorem placed_of_resolve (h : code.resolve = .ok p) (before after : Program) :
    p.length = code.length ∧
      ∃ place, Placed place (before ++ (p ++ after)) before.length code := by
  obtain ⟨marks, hmarks, h⟩ := Except.bind_eq_ok.1 h
  exact ⟨length_resolveFrom h, _,
    placed_of_resolveFrom (marked_of_marksFrom hmarks).2 h before after rfl⟩

theorem placed_append : Placed place p a (front ++ back) ↔
    Placed place p a front ∧ Placed place p (a + front.length) back := by
  induction front generalizing a with
  | nil => simp [Placed]
  | cons line rest ih =>
    have hlength : a + (line :: rest).length = a + 1 + rest.length := by
      rw [List.length_cons]
      omega
    rw [hlength]
    cases line <;> simp only [List.cons_append, Placed, ih, and_assoc]

theorem Placed.mark (h : Placed place p a (.instruction i :: code)) (mark : l.mark = .ok i) :
    MarkAt place p l a := by
  obtain ⟨hop, hread⟩ := Label.read_mark mark
  obtain ⟨hi, hplace, _⟩ := h
  exact ⟨⟨i, hi, hop⟩, hplace _ hop hread⟩

theorem Placed.cut (h : Placed place p a (front ++ .instruction i :: back))
    (mark : l.mark = .ok i) : Placed place p a front ∧ MarkAt place p l (a + front.length) ∧
      Placed place p (a + front.length + 1) back := by
  obtain ⟨hfront, hrest⟩ := placed_append.1 h
  exact ⟨hfront, hrest.mark mark, hrest.2.2⟩

/-- The parts of the code of a rule. -/
theorem Placed.frame {head actions : List Instruction} {condition : Assembly} {body skip : Label}
    {bodyMark skipMark : Instruction}
    (h : Placed place p a (head.map .instruction ++ condition
      ++ (bodyMark :: actions ++ [skipMark, Instruction.ruleEnd]).map .instruction))
    (enters : body.mark = .ok bodyMark) (leaves : skip.mark = .ok skipMark) :
    Placed place p a (head.map .instruction) ∧ Placed place p (a + head.length) condition ∧
      MarkAt place p body (a + head.length + condition.length) ∧
      Placed place p (a + head.length + condition.length + 1) (actions.map .instruction) ∧
      MarkAt place p skip (a + head.length + condition.length + 1 + actions.length) ∧
      p[a + head.length + condition.length + 1 + actions.length + 1]? =
        some Instruction.ruleEnd := by
  obtain ⟨hfront, htail⟩ := placed_append.1 h
  obtain ⟨hhead, hcondition⟩ := placed_append.1 hfront
  simp only [List.length_append, List.length_map, ← Nat.add_assoc] at hcondition htail
  obtain ⟨hactions, hend⟩ := placed_append.1 (List.map_append ▸ htail.2.2)
  rw [List.length_map] at hend
  exact ⟨hhead, hcondition, htail.mark enters, hactions, hend.mark leaves, hend.2.2.1⟩

theorem MarkAt.lt_length (h : MarkAt place p l a) : a < p.length := by
  obtain ⟨⟨i, hi, _⟩, _⟩ := h
  exact (List.getElem?_eq_some_iff.1 hi).1

end Assembly

/-- The code of the rules stands in the program, one rule after the other, up to the end. -/
def Ruleset.Placed (p : Program) : Nat → Ruleset → Prop
  | a, [] => a = p.length
  | a, r :: rest => ∃ place code, r.Lowered code ∧ code.Placed place p a ∧
      Ruleset.Placed p (a + code.length) rest

theorem Ruleset.Joined.placed {rules : Ruleset} {p : Program} (h : rules.Joined p)
    (before : Program) : rules.Placed (before ++ p) before.length := by
  induction h generalizing before with
  | nil =>
    rw [List.append_nil]
    rfl
  | @cons r rest code first more lowered resolved joined ih =>
    obtain ⟨hlength, place, hplaced⟩ := Assembly.placed_of_resolve resolved before more
    have hrest := ih (before ++ first)
    rw [List.append_assoc, List.length_append, hlength] at hrest
    exact ⟨place, code, lowered, hplaced, hrest⟩

end RuleMachine
