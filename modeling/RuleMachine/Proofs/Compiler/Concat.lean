import RuleMachine.Proofs.Compact.Append
import RuleMachine.Proofs.Compiler.Evaluation
import RuleMachine.Proofs.Compiler.Forward
import RuleMachine.Proofs.Compiler.Pool

set_option autoImplicit false

namespace RuleMachine

theorem Except.flatten_mapM_cons {ε α β : Type} (f : α → Except ε (List β)) (a : α) (l : List α) :
    ((a :: l).mapM f).map List.flatten = (do
      let first ← f a
      let more ← (l.mapM f).map List.flatten
      return first ++ more) := by
  rw [List.mapM_cons]
  cases f a with
  | error e => rfl
  | ok first => cases l.mapM f <;> rfl

theorem Except.flatten_mapM_append {ε α β : Type} (f : α → Except ε (List β)) (l m : List α) :
    ((l ++ m).mapM f).map List.flatten = (do
      let front ← (l.mapM f).map List.flatten
      let back ← (m.mapM f).map List.flatten
      return front ++ back) := by
  induction l with
  | nil =>
    rw [List.nil_append]
    cases m.mapM f <;> rfl
  | cons a l ih =>
    rw [List.cons_append, flatten_mapM_cons, flatten_mapM_cons, ih]
    cases f a with
    | error e => rfl
    | ok first =>
      cases l.mapM f with
      | error e => rfl
      | ok front => cases m.mapM f <;> simp [bind, Except.bind, Except.map, pure, Except.pure]

/-- Compilers with some settings, as they come out of any uses. -/
inductive Compiler.Reached (settings : CompilerSettings) : Compiler → Prop where
  | new : Reached settings ⟨settings, .empty⟩
  | compile {c : Compiler} (h : Reached settings c) (rules : Ruleset) :
      Reached settings (c.compile rules).2
  | compileRule {c : Compiler} (h : Reached settings c) (r : Rule) :
      Reached settings (c.compileRule r).2

namespace Program

variable {p q : Program}

theorem Forward.closed (h : p.Forward) : p.Closed := by
  intro a i hi hj
  obtain ⟨offset, target, ho, ht, _, hle⟩ := h a i hi hj
  exact ⟨target, jumpTarget?_eq_some_iff.2 ⟨offset, ho, ht, hle⟩⟩

theorem Forward.exists_compact (h : p.Forward) : ∃ q, p.compact = .ok q := by
  refine exists_compactFrom fun a i hi => ?_
  rw [Nat.zero_add]
  cases hj : i.opcode.isJump with
  | false => exact ⟨i, compactInstruction_of_not_jump hj⟩
  | true =>
    obtain ⟨offset, target, ho, ht, hlt, hle⟩ := h a i hi hj
    have htarget := jumpTarget?_eq_some_iff.2 ⟨offset, ho, ht, hle⟩
    have hsucc := compactIndex_succ_of_not_mark hi (Instruction.isMark_of_isJump hj)
    have hlower : p.compactIndex (a + 1) ≤ p.compactIndex target := compactIndex_mono hlt
    have hupper := p.compactIndex_add_le a (target - a)
    rw [show a + (target - a) = target by omega] at hupper
    have hoffset := offset.toInt_lt
    obtain ⟨distance, hd⟩ : ∃ distance,
        jumpDistance (p.compactIndex a) (p.compactIndex target) = .ok distance := by
      refine ⟨.ofInt ((p.compactIndex target : Int) - p.compactIndex a - 1), ?_⟩
      rw [jumpDistance_eq_ok_iff, Int32.toInt_ofInt_of_le] <;> omega
    refine ⟨.jump i.opcode distance, ?_⟩
    simp only [compactInstruction, hj, htarget, hd]
    rfl

end Program

theorem Ruleset.Joined.forward {rules : Ruleset} {p : Program} (h : rules.Joined p) : p.Forward :=
  fun a _ => (h.placed []).forwardAt (Nat.zero_le a)

namespace CompilerSettings

variable {p q : Program}

theorem exists_finish (settings : CompilerSettings) (h : p.Forward) :
    ∃ q, settings.finish p = .ok q := by
  unfold finish
  split
  · obtain ⟨q, hq⟩ := h.exists_compact
    exact ⟨q, by rw [hq]; rfl⟩
  · exact ⟨p, rfl⟩

theorem finish_append (settings : CompilerSettings) (hp : p.Forward) (hq : q.Forward) :
    settings.finish (p ++ q) = (do
      let front ← settings.finish p
      let back ← settings.finish q
      return front ++ back) := by
  unfold finish
  split
  · rw [Program.compact_append hp.closed hq.closed]
    cases p.compact <;> cases q.compact <;> rfl
  · rfl

end CompilerSettings

namespace Lowering

variable {α : Type}

/-- The answer of work on a new pool. -/
def fresh (work : Lowering α) : Except CompileError α :=
  match work .empty with
  | .ok a _ => .ok a
  | .error e _ => .error e

theorem Gives.fresh {work : Lowering α} {answer : Except CompileError α} {after : Nat}
    (h : work.Gives 0 answer after) : work.fresh = answer := by
  obtain ⟨next, _, hwork⟩ := h .empty LabelPool.drawn_empty
  rw [Lowering.fresh, hwork]
  cases answer <;> rfl

end Lowering

/-- The program of a rule, with its marks, from a new compiler. -/
def Rule.alone (r : Rule) : Except CompileError Program :=
  r.compile.fresh.mapError (·.inRule r.name)

theorem Rule.gives_alone (r : Rule) :
    Lowering.Gives (fun pool => match r.compile pool with
      | .ok program pool => .ok program pool
      | .error e pool => .error (e.inRule r.name) pool) 0 r.alone 0 := by
  obtain ⟨answer, hanswer⟩ := r.gives_compile
  intro pool hpool
  obtain ⟨next, hnext, hcompile⟩ := hanswer pool hpool
  refine ⟨next, hnext, ?_⟩
  dsimp only
  rw [Rule.alone, hanswer.fresh, hcompile]
  cases answer <;> rfl

theorem Rule.lowered_of_alone {r : Rule} {p : Program} (h : r.alone = .ok p) :
    ∃ code, r.Lowered code ∧ code.resolve = .ok p := by
  rw [Rule.alone, Except.mapError_eq_ok, Lowering.fresh] at h
  split at h
  · rename_i hcompile
    cases h
    exact Rule.lowered_of_compile hcompile
  · cases h

theorem Rule.forward_of_alone {r : Rule} {p : Program} (h : r.alone = .ok p) : p.Forward := by
  obtain ⟨code, hlowered, hresolve⟩ := Rule.lowered_of_alone h
  have hjoined : Ruleset.Joined [r] (p ++ []) := .cons hlowered hresolve .nil
  rw [List.append_nil] at hjoined
  exact hjoined.forward

namespace Ruleset

open Lowering

theorem gives_join (rules : Ruleset) :
    (join rules).Gives 0 ((rules.mapM Rule.alone).map List.flatten) 0 := by
  induction rules with
  | nil => exact gives_pure [] 0
  | cons r rest ih =>
    have hfirst := r.gives_alone
    rw [join, Except.flatten_mapM_cons]
    cases hr : r.alone with
    | error e =>
      rw [hr] at hfirst
      exact hfirst.bind_error
    | ok first =>
      rw [hr] at hfirst
      refine hfirst.bind_ok ?_
      cases hrest : (rest.mapM Rule.alone).map List.flatten with
      | error e =>
        rw [hrest] at ih
        exact ih.bind_error
      | ok more =>
        rw [hrest] at ih
        exact ih.bind_ok (gives_pure _ 0)

theorem gives_compile (settings : CompilerSettings) (rules : Ruleset) :
    (rules.compile settings).Gives 0 (do
      let p ← ((rules.emissionOrder settings).mapM Rule.alone).map List.flatten
      settings.finish p) 0 := by
  have hjoin := gives_join (rules.emissionOrder settings)
  unfold Ruleset.compile
  cases hp : ((rules.emissionOrder settings).mapM Rule.alone).map List.flatten with
  | error e =>
    rw [hp] at hjoin
    exact hjoin.bind_error
  | ok p =>
    rw [hp] at hjoin
    refine hjoin.bind_ok ?_
    change Gives _ 0 (settings.finish p) 0
    rw [CompilerSettings.finish]
    split
    · exact gives_ofCause (Program.compact p) 0
    · exact gives_pure p 0

theorem program_eq (settings : CompilerSettings) (rules : Ruleset) :
    rules.program settings = (do
      let p ← ((rules.emissionOrder settings).mapM Rule.alone).map List.flatten
      settings.finish p) := by
  rw [← (gives_compile settings rules).fresh]
  unfold program Compiler.compile Compiler.use Lowering.fresh
  cases rules.compile settings .empty <;> rfl

theorem program_singleton (settings : CompilerSettings) (r : Rule) :
    program settings [r] = r.alone >>= settings.finish := by
  have horder : emissionOrder settings [r] = [r] := by simp [emissionOrder]
  rw [program_eq, horder, List.mapM_cons, List.mapM_nil]
  cases r.alone <;> simp [Except.map, bind, Except.bind, pure, Except.pure]

theorem joined_of_alone {rules : Ruleset} {p : Program}
    (h : (rules.mapM Rule.alone).map List.flatten = .ok p) : rules.Joined p := by
  induction rules generalizing p with
  | nil =>
    cases h
    exact .nil
  | cons r rest ih =>
    rw [Except.flatten_mapM_cons] at h
    obtain ⟨first, hfirst, h⟩ := Except.bind_eq_ok.1 h
    obtain ⟨more, hmore, h⟩ := Except.bind_eq_ok.1 h
    cases h
    obtain ⟨code, hlowered, hresolve⟩ := Rule.lowered_of_alone hfirst
    exact .cons hlowered hresolve (ih hmore)

/-- Marks that are taken out of everything are taken out of each part. -/
theorem finish_parts (settings : CompilerSettings) (rules : Ruleset) :
    (do
      let p ← (rules.mapM Rule.alone).map List.flatten
      settings.finish p) = (rules.mapM fun r => r.alone >>= settings.finish).map List.flatten := by
  induction rules with
  | nil =>
    unfold CompilerSettings.finish
    split <;> rfl
  | cons r rest ih =>
    rw [Except.flatten_mapM_cons, Except.flatten_mapM_cons, ← ih]
    cases hr : r.alone with
    | error e => rfl
    | ok first =>
      have hfirst := Rule.forward_of_alone hr
      obtain ⟨front, hfront⟩ := settings.exists_finish hfirst
      cases hrest : (rest.mapM Rule.alone).map List.flatten with
      | error e => simp only [bind, Except.bind, hfront]
      | ok more =>
        have hmore := (joined_of_alone hrest).forward
        have happend := settings.finish_append hfirst hmore
        rw [hfront] at happend
        simp only [bind, Except.bind, pure, Except.pure, hfront] at happend ⊢
        exact happend

theorem program_eq_parts (settings : CompilerSettings) (rules : Ruleset) :
    rules.program settings =
      ((rules.emissionOrder settings).mapM fun r => program settings [r]).map List.flatten := by
  rw [program_eq, finish_parts]
  simp only [program_singleton]

end Ruleset

namespace Compiler

open Lowering

theorem use_of_gives {α : Type} {c : Compiler} {work : Lowering α}
    {answer : Except CompileError α} (h : work.Gives 0 answer 0) (hc : c.labels.Drawn 0) :
    (c.use work).1 = answer ∧ (c.use work).2.labels.Drawn 0 ∧
      (c.use work).2.settings = c.settings := by
  obtain ⟨next, hnext, hwork⟩ := h c.labels hc
  rw [use, hwork]
  cases answer <;> exact ⟨rfl, hnext, rfl⟩

theorem Reached.drawn {settings : CompilerSettings} {c : Compiler} (h : Reached settings c) :
    c.settings = settings ∧ c.labels.Drawn 0 := by
  induction h with
  | new => exact ⟨rfl, LabelPool.drawn_empty⟩
  | @compile c h rules ih =>
    obtain ⟨_, hdrawn, hsettings⟩ := use_of_gives (Ruleset.gives_compile c.settings rules) ih.2
    exact ⟨hsettings.trans ih.1, hdrawn⟩
  | @compileRule c h r ih =>
    obtain ⟨answer, hanswer⟩ := r.gives_compile
    obtain ⟨_, hdrawn, hsettings⟩ := use_of_gives hanswer ih.2
    exact ⟨hsettings.trans ih.1, hdrawn⟩

theorem Reached.compile_eq {settings : CompilerSettings} {c : Compiler} (h : Reached settings c)
    (rules : Ruleset) : (c.compile rules).1 = rules.program settings := by
  obtain ⟨rfl, hc⟩ := h.drawn
  rw [Ruleset.program_eq]
  exact (use_of_gives (Ruleset.gives_compile c.settings rules) hc).1

/-- What a compiler has done before does not change its answer. The answer for rules is made of
the answers for each of them alone, in the order in which they are emitted, with or without marks;
so where rules are emitted as they are, the programs of two rulesets and their bytes follow each
other in that of both. -/
theorem compile_separately {settings : CompilerSettings} {c : Compiler} (h : Reached settings c)
    {rules order : Ruleset} (horder : rules.InOrder settings order) :
    (c.compile rules).1 = rules.program settings ∧
    rules.program settings =
      (order.mapM fun r => Ruleset.program settings [r]).map List.flatten ∧
    (settings.sortByPriority = false → ∀ more : Ruleset,
      Ruleset.program settings (rules ++ more) = (do
        let front ← rules.program settings
        let back ← more.program settings
        return front ++ back) ∧
      ∀ p q, rules.program settings = .ok p → more.program settings = .ok q →
        ∃ whole, Ruleset.program settings (rules ++ more) = .ok whole ∧
          whole.bytes = p.bytes ++ q.bytes) := by
  obtain rfl := Ruleset.inOrder_iff.1 horder
  refine ⟨h.compile_eq rules, Ruleset.program_eq_parts settings rules, fun hsort more => ?_⟩
  have horder : ∀ rules : Ruleset, rules.emissionOrder settings = rules := by
    intro rules
    simp [Ruleset.emissionOrder, hsort]
  have happend : Ruleset.program settings (rules ++ more) = (do
      let front ← rules.program settings
      let back ← more.program settings
      return front ++ back) := by
    rw [Ruleset.program_eq_parts settings (rules ++ more), Ruleset.program_eq_parts settings rules,
      Ruleset.program_eq_parts settings more, horder, horder, horder]
    exact Except.flatten_mapM_append _ rules more
  refine ⟨happend, fun p q hp hq => ⟨p ++ q, ?_, Program.bytes_append p q⟩⟩
  rw [happend, hp, hq]
  rfl

def used : Compiler :=
  (((Compiler.mk ⟨true, false⟩ .empty).compile
    [⟨"e", 0, .group [.leaf "a" "GT" (.int 1), .group [] []] [], [], .empty⟩]).2.compileRule
      ⟨"f", 0, .group [.leaf "a" "GT" (.int 1), .leaf "b" "LT" (.int 1)] [], [], .empty⟩).2

theorem compile_separately_used : used.labels = ⟨[], [0, 1, 2], 3, 3⟩ ∧
    ∃ p, Ruleset.program ⟨true, false⟩ .sample = .ok p ∧ p.length = 15 ∧
      (used.compile (.sample ++ .sample)).1 = .ok (p ++ p) := by
  have hused : Reached ⟨true, false⟩ used := (Reached.new.compile _).compileRule _
  have horder : Ruleset.InOrder ⟨true, false⟩ (.sample ++ .sample) (.sample ++ .sample) := rfl
  have horder' : Ruleset.InOrder ⟨true, false⟩ .sample .sample := rfl
  obtain ⟨p, hp, hlength⟩ : ∃ p, Ruleset.program ⟨true, false⟩ .sample = .ok p ∧ p.length = 15 :=
    ⟨_, rfl, rfl⟩
  refine ⟨rfl, p, hp, hlength, ?_⟩
  have happend := ((compile_separately hused horder').2.2 rfl .sample).1
  rw [(compile_separately hused horder).1, happend, hp]
  rfl

end Compiler

end RuleMachine
