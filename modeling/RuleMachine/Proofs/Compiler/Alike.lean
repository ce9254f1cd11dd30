import Mathlib.Data.List.Forall2
import RuleMachine.Proofs.Compiler.Reports
/-!
Code up to its labels. Two pieces of code for one clause name their labels differently but mark them
at the same places, so that resolved they are the same but for the names on their marks, and without
marks they are the same.
-/

set_option autoImplicit false

namespace RuleMachine

def Clause.codeLength : Clause → Nat
  | .one c => c.codeLength
  | .all cs => codeLengthOf cs + (cs.length - 1)
  | .any cs => codeLengthOf cs + (cs.length - 1)

namespace Lowered

variable {success failure : Label} {cs : List Condition} {clause : Clause} {code : Assembly}

theorem exists_cons_of_all (h : Lowered success failure (.all cs) code) :
    ∃ c rest, cs = c :: rest := by
  cases h with
  | lastOfAll only => exact ⟨_, _, rfl⟩
  | firstOfAll first mark more => exact ⟨_, _, rfl⟩

theorem exists_cons_of_any (h : Lowered success failure (.any cs) code) :
    ∃ c rest, cs = c :: rest := by
  cases h with
  | lastOfAny only => exact ⟨_, _, rfl⟩
  | firstOfAny first mark more => exact ⟨_, _, rfl⟩

theorem length_eq (h : Lowered success failure clause code) :
    code.length = clause.codeLength := by
  have hcut : ∀ (front back : Assembly) (i : Instruction),
      (front ++ .instruction i :: back).length = front.length + 1 + back.length := by
    intro front back i
    rw [List.length_append, List.length_cons]
    omega
  induction h with
  | leaf select test => rfl
  | allOnly first ih => simpa [Clause.codeLength, Condition.codeLength, codeLengthOf] using ih
  | anyOnly second ih => simpa [Clause.codeLength, Condition.codeLength, codeLengthOf] using ih
  | both first mark second ihFirst ihSecond =>
    obtain ⟨_, _, rfl⟩ := first.exists_cons_of_all
    rw [hcut, ihFirst, ihSecond]
    exact (Condition.codeLength_group _ _ _ _).symm
  | lastOfAll only ih => exact ih
  | firstOfAll first mark more ihFirst ihMore =>
    obtain ⟨_, _, rfl⟩ := more.exists_cons_of_all
    rw [hcut, ihFirst, ihMore]
    exact (codeLengthOf_cons_cons _ _ _).symm
  | lastOfAny only ih => exact ih
  | firstOfAny first mark more ihFirst ihMore =>
    obtain ⟨_, _, rfl⟩ := more.exists_cons_of_any
    rw [hcut, ihFirst, ihMore]
    exact (codeLengthOf_cons_cons _ _ _).symm

end Lowered

/-- Lines that differ in labels only: in the names of marks, and in the names of labels that are at
the same place, one by the first way to place them and the other by the second. -/
inductive CodeLine.Alike (place place' : String → Option Nat) : CodeLine → CodeLine → Prop where
  | same (i : Instruction) : Alike place place' (.instruction i) (.instruction i)
  | marks {i j : Instruction} (first : i.isMark = true) (second : j.isMark = true) :
      Alike place place' (.instruction i) (.instruction j)
  | jump (op : Opcode) {l m : Label} (same : place l.name = place' m.name) :
      Alike place place' (.jump op l) (.jump op m)

theorem Label.isMark_of_mark {l : Label} {i : Instruction} (h : l.mark = .ok i) :
    i.isMark = true := by
  rw [Instruction.isMark, (Label.read_mark h).1]
  rfl

namespace Assembly

def Alike (place place' : String → Option Nat) : Assembly → Assembly → Prop :=
  List.Forall₂ (CodeLine.Alike place place')

variable {place place' : String → Option Nat} {front front' back back' : Assembly} {a : Nat}
  {l m : Label} {i j : Instruction}

theorem Alike.append (h : Alike place place' front front') (h' : Alike place place' back back') :
    Alike place place' (front ++ back) (front' ++ back') :=
  List.rel_append h h'

theorem alike_instructions (is : List Instruction) :
    Alike place place' (is.map .instruction) (is.map .instruction) := by
  induction is with
  | nil => exact .nil
  | cons i is ih => exact .cons (.same i) ih

theorem marked_append : Marked place a (front ++ back) ↔
    Marked place a front ∧ Marked place (a + front.length) back := by
  induction front generalizing a with
  | nil => simp [Marked]
  | cons line rest ih =>
    have hlength : a + (line :: rest).length = a + 1 + rest.length := by
      rw [List.length_cons]
      omega
    rw [hlength]
    cases line <;> simp only [List.cons_append, Marked, ih, and_assoc]

theorem Marked.mark (h : Marked place a (.instruction i :: back)) (mark : l.mark = .ok i) :
    place l.name = some a := by
  obtain ⟨hop, hread⟩ := Label.read_mark mark
  exact h.1 _ hop hread

theorem Marked.cut (h : Marked place a (front ++ .instruction i :: back))
    (mark : l.mark = .ok i) : Marked place a front ∧ place l.name = some (a + front.length) ∧
      Marked place (a + front.length + 1) back := by
  obtain ⟨hfront, hrest⟩ := marked_append.1 h
  exact ⟨hfront, hrest.mark mark, hrest.2⟩

theorem alike_cut (mark : l.mark = .ok i) (mark' : m.mark = .ok j)
    (hlength : front.length = front'.length)
    (h : Marked place a (front ++ .instruction i :: back))
    (h' : Marked place' a (front' ++ .instruction j :: back'))
    (hfront : Marked place a front → Marked place' a front' → place l.name = place' m.name →
      Alike place place' front front')
    (hback : Marked place (a + front.length + 1) back →
      Marked place' (a + front.length + 1) back' → Alike place place' back back') :
    Alike place place' (front ++ .instruction i :: back) (front' ++ .instruction j :: back') := by
  obtain ⟨h₁, hplace, h₂⟩ := h.cut mark
  obtain ⟨h₁', hplace', h₂'⟩ := h'.cut mark'
  rw [← hlength] at hplace' h₂'
  exact (hfront h₁ h₁' (hplace.trans hplace'.symm)).append
    (.cons (.marks (Label.isMark_of_mark mark) (Label.isMark_of_mark mark')) (hback h₂ h₂'))

end Assembly

open Assembly

/-- Code for a clause is decided up to its labels by the clause and the places it leads to. The
labels inside need no hypothesis: they are where the code marks them. -/
theorem Lowered.alike {success success' failure failure' : Label} {clause : Clause}
    {code code' : Assembly} {place place' : String → Option Nat} {a : Nat}
    (h : Lowered success failure clause code) (h' : Lowered success' failure' clause code')
    (hm : Marked place a code) (hm' : Marked place' a code')
    (hsuccess : place success.name = place' success'.name)
    (hfailure : place failure.name = place' failure'.name) : Alike place place' code code' := by
  induction h generalizing success' failure' code' a with
  | leaf select test =>
    cases h' with
    | leaf select' test' =>
      cases select.symm.trans select'
      cases test.symm.trans test'
      exact .cons (.same _) (.cons (.jump _ hsuccess) (.cons (.jump _ hfailure) .nil))
  | allOnly first ih =>
    cases h' with
    | allOnly first' => exact ih first' hm hm' hsuccess hfailure
  | anyOnly second ih =>
    cases h' with
    | anyOnly second' => exact ih second' hm hm' hsuccess hfailure
    | both first' mark' second' => cases first'
  | both first mark second ihFirst ihSecond =>
    cases h' with
    | anyOnly second' => cases first
    | both first' mark' second' =>
      exact alike_cut mark mark' (first.length_eq.trans first'.length_eq.symm) hm hm'
        (fun h₁ h₁' hmiddle => ihFirst first' h₁ h₁' hmiddle hfailure)
        (fun h₂ h₂' => ihSecond second' h₂ h₂' hsuccess hfailure)
  | lastOfAll only ih =>
    cases h' with
    | lastOfAll only' => exact ih only' hm hm' hsuccess hfailure
    | firstOfAll first' mark' more' => cases more'
  | firstOfAll first mark more ihFirst ihMore =>
    cases h' with
    | lastOfAll only' => cases more
    | firstOfAll first' mark' more' =>
      exact alike_cut mark mark' (first.length_eq.trans first'.length_eq.symm) hm hm'
        (fun h₁ h₁' hnext => ihFirst first' h₁ h₁' hnext hfailure)
        (fun h₂ h₂' => ihMore more' h₂ h₂' hsuccess hfailure)
  | lastOfAny only ih =>
    cases h' with
    | lastOfAny only' => exact ih only' hm hm' hsuccess hfailure
    | firstOfAny first' mark' more' => cases more'
  | firstOfAny first mark more ihFirst ihMore =>
    cases h' with
    | lastOfAny only' => cases more
    | firstOfAny first' mark' more' =>
      exact alike_cut mark mark' (first.length_eq.trans first'.length_eq.symm) hm hm'
        (fun h₁ h₁' hnext => ihFirst first' h₁ h₁' hsuccess hnext)
        (fun h₂ h₂' => ihMore more' h₂ h₂' hsuccess hfailure)

theorem Assembly.Marked.frame {place : String → Option Nat} {head actions : List Instruction}
    {condition : Assembly} {body skip : Label} {bodyMark skipMark : Instruction}
    (h : Marked place 0 (head.map .instruction ++ condition
      ++ (bodyMark :: actions ++ [skipMark, Instruction.ruleEnd]).map .instruction))
    (enters : body.mark = .ok bodyMark) (leaves : skip.mark = .ok skipMark) :
    Marked place head.length condition ∧
      place body.name = some (head.length + condition.length) ∧
      place skip.name = some (head.length + condition.length + 1 + actions.length) := by
  obtain ⟨hfront, htail⟩ := marked_append.1 h
  have hcondition := (marked_append.1 hfront).2
  simp only [List.length_append, List.length_map, Nat.zero_add] at hcondition htail
  have hend := (marked_append.1 (List.map_append ▸ htail.2)).2
  rw [List.length_map] at hend
  exact ⟨hcondition, htail.mark enters, hend.mark leaves⟩

theorem Rule.Lowered.alike {r : Rule} {code code' : Assembly} {place place' : String → Option Nat}
    (h : r.Lowered code) (h' : r.Lowered code') (hm : Marked place 0 code)
    (hm' : Marked place' 0 code') : Alike place place' code code' := by
  cases h with
  | intro starts ranks defines decides enters acts leaves =>
    cases h' with
    | intro starts' ranks' defines' decides' enters' acts' leaves' =>
      cases starts.symm.trans starts'
      cases ranks.symm.trans ranks'
      cases defines.symm.trans defines'
      cases acts.symm.trans acts'
      obtain ⟨hcondition, hbody, hskip⟩ := hm.frame enters leaves
      obtain ⟨hcondition', hbody', hskip'⟩ := hm'.frame enters' leaves'
      rw [decides'.length_eq, ← decides.length_eq] at hbody' hskip'
      have hdecides := decides.alike decides' hcondition hcondition' (hbody.trans hbody'.symm)
        (hskip.trans hskip'.symm)
      refine ((alike_instructions _).append hdecides).append ?_
      simp only [List.cons_append, List.map_cons, List.map_append]
      refine .cons (.marks (Label.isMark_of_mark enters) (Label.isMark_of_mark enters')) ?_
      refine (alike_instructions _).append (.cons ?_ (alike_instructions [Instruction.ruleEnd]))
      exact .marks (Label.isMark_of_mark leaves) (Label.isMark_of_mark leaves')

/-- The same instructions, but for what is written on marks. -/
def Program.Alike : Program → Program → Prop :=
  List.Forall₂ fun i j => i = j ∨ (i.isMark = true ∧ j.isMark = true)

theorem Assembly.Alike.exists_resolveFrom {marks marks' : List (String × Nat)}
    {code code' : Assembly} {a : Nat} {p : Program}
    (h : Alike (marks.lookup ·) (marks'.lookup ·) code code')
    (hp : resolveFrom marks a code = .ok p) :
    ∃ q, resolveFrom marks' a code' = .ok q ∧ p.Alike q := by
  induction h generalizing a p with
  | nil =>
    cases hp
    exact ⟨[], rfl, .nil⟩
  | cons hline hrest ih =>
    obtain ⟨i, more, rfl, hi, hmore⟩ := resolveFrom_cons_eq_ok hp
    obtain ⟨more', hmore', halike⟩ := ih hmore
    cases hline with
    | same j =>
      cases hi
      refine ⟨i :: more', ?_, .cons (.inl rfl) halike⟩
      rw [resolveFrom, hmore']
      rfl
    | @marks _ j first second =>
      cases hi
      refine ⟨j :: more', ?_, .cons (.inr ⟨first, second⟩) halike⟩
      rw [resolveFrom, hmore']
      rfl
    | jump op same =>
      obtain ⟨target, distance, htarget, hdistance, rfl⟩ := hi
      have htarget' := same.symm.trans htarget
      refine ⟨.jump op distance :: more', ?_, .cons (.inl rfl) halike⟩
      simp only [resolveFrom, htarget', hdistance, hmore']
      rfl

namespace Program

variable {p q l m : Program}

theorem Alike.map_isMark (h : p.Alike q) : p.map (·.isMark) = q.map (·.isMark) := by
  induction h with
  | nil => rfl
  | @cons i j _ _ hline _ ih =>
    have hsame : i.isMark = j.isMark := by
      obtain rfl | ⟨hi, hj⟩ := hline
      · rfl
      · rw [hi, hj]
    rw [List.map_cons, List.map_cons, hsame, ih]

theorem compactIndex_congr (h : p.map (·.isMark) = q.map (·.isMark)) (a : Nat) :
    p.compactIndex a = q.compactIndex a := by
  have hcount : ∀ p : Program, p.compactIndex a = ((p.map (·.isMark)).take a).countP (!·) := by
    intro p
    rw [compactIndex, ← List.map_take, List.countP_map]
    rfl
  rw [hcount, hcount, h]

theorem compactInstruction_congr (h : p.map (·.isMark) = q.map (·.isMark)) (a : Nat)
    (i : Instruction) : p.compactInstruction a i = q.compactInstruction a i := by
  have hlength : p.length = q.length := by simpa using congrArg List.length h
  simp only [compactInstruction, jumpTarget?, hlength, compactIndex_congr h]

theorem Alike.compactFrom_eq (hmarks : p.map (·.isMark) = q.map (·.isMark)) (h : Alike l m)
    (a : Nat) : compactFrom p a l = compactFrom q a m := by
  induction h generalizing a with
  | nil => rfl
  | @cons i j _ _ hline _ ih =>
    rw [compactFrom, compactFrom, ih]
    obtain rfl | ⟨hi, hj⟩ := hline
    · rw [compactInstruction_congr hmarks]
    · rw [hi, hj, if_pos rfl, if_pos rfl]

theorem Alike.compact_eq (h : p.Alike q) : p.compact = q.compact :=
  h.compactFrom_eq h.map_isMark 0

end Program

/-- Two pieces of code for a rule are resolved to programs that are the same without marks; for the
second it is enough that its marks can be told apart. -/
theorem Rule.Lowered.compact_eq {r : Rule} {code code' : Assembly} {p : Program}
    {marks : List (String × Nat)} (h : r.Lowered code) (h' : r.Lowered code')
    (hp : code.resolve = .ok p) (hmarks : marksFrom 0 [] code' = .ok marks) :
    ∃ q, code'.resolve = .ok q ∧ q.compact = p.compact := by
  obtain ⟨_, hmarks₁, hresolve⟩ := Except.bind_eq_ok.1 hp
  have halike := h.alike h' (marked_of_marksFrom hmarks₁).2 (marked_of_marksFrom hmarks).2
  obtain ⟨q, hq, hsame⟩ := halike.exists_resolveFrom hresolve
  refine ⟨q, ?_, hsame.compact_eq.symm⟩
  rw [resolve, hmarks]
  exact hq

end RuleMachine
