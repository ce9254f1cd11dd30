import RuleMachine.Proofs.Codec.Reading
import RuleMachine.Ruleset.Compiler
/-!
The shape of lowered code. Lowering threads a pool of labels through its work; what comes out has a
shape that does not depend on which labels the pool handed out, and later proofs follow that shape.
-/

set_option autoImplicit false

namespace RuleMachine

namespace Lowering

variable {α β : Type} {pool pool' : LabelPool} {a b : α}

theorem pure_eq_ok_iff : (pure a : Lowering α) pool = .ok b pool' ↔ a = b ∧ pool = pool' := by
  constructor
  · intro h
    cases h
    exact ⟨rfl, rfl⟩
  · intro h
    obtain ⟨rfl, rfl⟩ := h
    rfl

theorem ofExcept_eq_ok_iff {x : Except CompileError α} :
    ofExcept x pool = .ok a pool' ↔ x = .ok a ∧ pool = pool' := by
  cases x with
  | ok b =>
    rw [Except.ok.injEq]
    exact pure_eq_ok_iff
  | error e =>
    constructor
    · intro h
      cases h
    · intro h
      cases h.1

theorem ofCause_eq_ok_iff {x : Except CompileCause α} :
    ofCause x pool = .ok a pool' ↔ x = .ok a ∧ pool = pool' := by
  rw [ofCause, ofExcept_eq_ok_iff, Except.mapError_eq_ok]

theorem mapM_cons_eq_ok_iff {f : α → Except CompileCause β} {l : List α} {bs : List β} :
    (a :: l).mapM f = .ok bs ↔ ∃ b more, f a = .ok b ∧ l.mapM f = .ok more ∧ bs = b :: more := by
  simp only [List.mapM_cons, Except.bind_eq_ok]
  constructor
  · intro h
    obtain ⟨b, hb, more, hmore, h⟩ := h
    cases h
    exact ⟨b, more, hb, hmore, rfl⟩
  · intro h
    obtain ⟨b, more, hb, hmore, rfl⟩ := h
    exact ⟨b, hb, more, hmore, rfl⟩

theorem mapM_eq_ok {f : α → Except CompileCause β} {l : List α} {bs : List β}
    (h : (l.mapM fun a => ofCause (f a) : Lowering (List β)) pool = .ok bs pool') :
    l.mapM f = .ok bs ∧ pool = pool' := by
  induction l generalizing bs pool pool' with
  | nil =>
    obtain ⟨rfl, rfl⟩ := pure_eq_ok_iff.1 h
    exact ⟨rfl, rfl⟩
  | cons a l ih =>
    rw [List.mapM_cons] at h
    obtain ⟨b, pool₁, h₁, h⟩ := EStateM.bind_eq_ok.1 h
    obtain ⟨more, pool₂, h₂, h⟩ := EStateM.bind_eq_ok.1 h
    obtain ⟨hb, rfl⟩ := ofCause_eq_ok_iff.1 h₁
    obtain ⟨hmore, rfl⟩ := ih h₂
    obtain ⟨rfl, rfl⟩ := pure_eq_ok_iff.1 h
    exact ⟨mapM_cons_eq_ok_iff.2 ⟨b, more, hb, hmore, rfl⟩, rfl⟩

end Lowering

/-- What a piece of code decides: a condition, whether all of some conditions hold, or whether one
of them does. -/
inductive Clause where
  | one (c : Condition)
  | all (cs : List Condition)
  | any (cs : List Condition)

/-- Code that leaves for the first label if the clause holds and for the second if it does not. -/
inductive Lowered : Label → Label → Clause → Assembly → Prop where
  | leaf {success failure : Label} {fact operator : String} {value : Scalar} {op : Opcode}
      {i : Instruction} (select : Opcode.select operator value = .ok op)
      (test : Instruction.comparison op fact value = .ok i) :
      Lowered success failure (.one (.leaf fact operator value))
        [.instruction i, .jump .jumpIfTrue success, .jump .jumpIfFalse failure]
  | allOnly {success failure : Label} {all : List Condition} {code : Assembly}
      (first : Lowered success failure (.all all) code) :
      Lowered success failure (.one (.group all [])) code
  | anyOnly {success failure : Label} {c : Condition} {any : List Condition} {code : Assembly}
      (second : Lowered success failure (.any (c :: any)) code) :
      Lowered success failure (.one (.group [] (c :: any))) code
  | both {success failure middle : Label} {all : List Condition} {c : Condition}
      {any : List Condition} {front back : Assembly} {i : Instruction}
      (first : Lowered middle failure (.all all) front) (mark : middle.mark = .ok i)
      (second : Lowered success failure (.any (c :: any)) back) :
      Lowered success failure (.one (.group all (c :: any))) (front ++ .instruction i :: back)
  | lastOfAll {success failure : Label} {c : Condition} {code : Assembly}
      (only : Lowered success failure (.one c) code) : Lowered success failure (.all [c]) code
  | firstOfAll {success failure next : Label} {c : Condition} {rest : List Condition}
      {front back : Assembly} {i : Instruction} (first : Lowered next failure (.one c) front)
      (mark : next.mark = .ok i) (more : Lowered success failure (.all rest) back) :
      Lowered success failure (.all (c :: rest)) (front ++ .instruction i :: back)
  | lastOfAny {success failure : Label} {c : Condition} {code : Assembly}
      (only : Lowered success failure (.one c) code) : Lowered success failure (.any [c]) code
  | firstOfAny {success failure next : Label} {c : Condition} {rest : List Condition}
      {front back : Assembly} {i : Instruction} (first : Lowered success next (.one c) front)
      (mark : next.mark = .ok i) (more : Lowered success failure (.any rest) back) :
      Lowered success failure (.any (c :: rest)) (front ++ .instruction i :: back)

/-- The common part of the three places where a group is cut in two by a mark. -/
theorem Lowering.cut_eq_ok {next : Label} {first second : Lowering Assembly} {code : Assembly}
    {pool pool' : LabelPool}
    (h : (do
      let front ← first
      let mark ← ofCause next.mark
      let back ← second
      return front ++ .instruction mark :: back : Lowering Assembly) pool = .ok code pool') :
    ∃ front mark back pool₁, first pool = .ok front pool₁ ∧ next.mark = .ok mark ∧
      second pool₁ = .ok back pool' ∧ code = front ++ .instruction mark :: back := by
  obtain ⟨front, pool₁, hfront, h⟩ := EStateM.bind_eq_ok.1 h
  obtain ⟨mark, pool₂, h₁, h⟩ := EStateM.bind_eq_ok.1 h
  obtain ⟨hmark, rfl⟩ := ofCause_eq_ok_iff.1 h₁
  obtain ⟨back, pool₃, hback, h⟩ := EStateM.bind_eq_ok.1 h
  obtain ⟨rfl, rfl⟩ := pure_eq_ok_iff.1 h
  exact ⟨front, mark, back, pool₁, hfront, hmark, hback, rfl⟩

mutual

theorem Condition.lowered {success failure : Label} {c : Condition} {code : Assembly}
    {pool pool' : LabelPool} (h : c.lower success failure pool = .ok code pool') :
    Lowered success failure (.one c) code := by
  cases c with
  | leaf fact operator value =>
    rw [Condition.lower] at h
    obtain ⟨op, _, h₁, h⟩ := EStateM.bind_eq_ok.1 h
    obtain ⟨test, _, h₂, h⟩ := EStateM.bind_eq_ok.1 h
    obtain ⟨hop, rfl⟩ := Lowering.ofExcept_eq_ok_iff.1 h₁
    obtain ⟨htest, rfl⟩ := Lowering.ofCause_eq_ok_iff.1 h₂
    obtain ⟨rfl, rfl⟩ := Lowering.pure_eq_ok_iff.1 h
    exact .leaf hop htest
  | group all any =>
    rw [Condition.lower.eq_def] at h
    cases all with
    | nil =>
      cases any with
      | nil => cases h
      | cons b any => exact .anyOnly (loweredAny h)
    | cons a all =>
      cases any with
      | nil => exact .allOnly (loweredAll h)
      | cons b any =>
        obtain ⟨middle, _, _, h⟩ := EStateM.bind_eq_ok.1 h
        obtain ⟨front, mark, back, _, hfront, hmark, hback, rfl⟩ := Lowering.cut_eq_ok h
        exact .both (loweredAll hfront) hmark (loweredAny hback)

theorem loweredAll {success failure : Label} {cs : List Condition} {code : Assembly}
    {pool pool' : LabelPool} (h : lowerAll success failure cs pool = .ok code pool') :
    Lowered success failure (.all cs) code := by
  cases cs with
  | nil => cases h
  | cons c rest =>
    rw [lowerAll] at h
    cases rest with
    | nil => exact .lastOfAll (Condition.lowered h)
    | cons d rest =>
      obtain ⟨next, _, _, h⟩ := EStateM.bind_eq_ok.1 h
      obtain ⟨front, mark, back, _, hfront, hmark, hback, rfl⟩ := Lowering.cut_eq_ok h
      exact .firstOfAll (Condition.lowered hfront) hmark (loweredAll hback)

theorem loweredAny {success failure : Label} {cs : List Condition} {code : Assembly}
    {pool pool' : LabelPool} (h : lowerAny success failure cs pool = .ok code pool') :
    Lowered success failure (.any cs) code := by
  cases cs with
  | nil => cases h
  | cons c rest =>
    rw [lowerAny] at h
    cases rest with
    | nil => exact .lastOfAny (Condition.lowered h)
    | cons d rest =>
      obtain ⟨next, _, _, h⟩ := EStateM.bind_eq_ok.1 h
      obtain ⟨front, mark, back, _, hfront, hmark, hback, rfl⟩ := Lowering.cut_eq_ok h
      exact .firstOfAny (Condition.lowered hfront) hmark (loweredAny hback)

end

/-- The code of a rule: a frame, scripts, the code of the condition, and actions between two marks
for where the condition leads. -/
inductive Rule.Lowered (r : Rule) : Assembly → Prop where
  | intro {start priority bodyMark skipMark : Instruction} {scripts actions : List Instruction}
      {body skip : Label} {condition : Assembly} (starts : Instruction.ruleStart r.name = .ok start)
      (ranks : Instruction.priority r.priority = .ok priority)
      (defines : r.scripts.entries.mapM (fun (name, script) =>
        Instruction.scriptDefinition name script.params script.body) = .ok scripts)
      (decides : RuleMachine.Lowered body skip (.one r.conditions) condition)
      (enters : body.mark = .ok bodyMark) (acts : r.actions.mapM Action.instruction = .ok actions)
      (leaves : skip.mark = .ok skipMark) : Rule.Lowered r
        ((start :: priority :: scripts).map .instruction ++ condition
          ++ (bodyMark :: actions ++ [skipMark, Instruction.ruleEnd]).map .instruction)

theorem Rule.lowered {r : Rule} {code : Assembly} {pool pool' : LabelPool}
    (h : r.lower pool = .ok code pool') : r.Lowered code := by
  rw [Rule.lower] at h
  obtain ⟨start, _, h₁, h⟩ := EStateM.bind_eq_ok.1 h
  obtain ⟨priority, _, h₂, h⟩ := EStateM.bind_eq_ok.1 h
  obtain ⟨scripts, _, h₃, h⟩ := EStateM.bind_eq_ok.1 h
  obtain ⟨body, _, _, h⟩ := EStateM.bind_eq_ok.1 h
  obtain ⟨skip, _, _, h⟩ := EStateM.bind_eq_ok.1 h
  obtain ⟨condition, _, h₄, h⟩ := EStateM.bind_eq_ok.1 h
  obtain ⟨bodyMark, _, h₅, h⟩ := EStateM.bind_eq_ok.1 h
  obtain ⟨actions, _, h₆, h⟩ := EStateM.bind_eq_ok.1 h
  obtain ⟨skipMark, _, h₇, h⟩ := EStateM.bind_eq_ok.1 h
  obtain ⟨rfl, _⟩ := Lowering.pure_eq_ok_iff.1 h
  exact .intro (Lowering.ofCause_eq_ok_iff.1 h₁).1 (Lowering.ofCause_eq_ok_iff.1 h₂).1
    (Lowering.mapM_eq_ok h₃).1 (Condition.lowered h₄) (Lowering.ofCause_eq_ok_iff.1 h₅).1
    (Lowering.mapM_eq_ok h₆).1 (Lowering.ofCause_eq_ok_iff.1 h₇).1

inductive Ruleset.Joined : Ruleset → Program → Prop where
  | nil : Joined [] []
  | cons {r : Rule} {rest : Ruleset} {code : Assembly} {first more : Program}
      (lowered : r.Lowered code) (resolved : code.resolve = .ok first)
      (joined : Joined rest more) : Joined (r :: rest) (first ++ more)

theorem Rule.lowered_of_compile {r : Rule} {p : Program} {pool pool' : LabelPool}
    (h : r.compile pool = .ok p pool') : ∃ code, r.Lowered code ∧ code.resolve = .ok p := by
  unfold Rule.compile at h
  cases ha : r.assemble pool with
  | ok q pool₁ =>
    rw [ha] at h
    cases h
    obtain ⟨code, _, h₁, h₂⟩ := EStateM.bind_eq_ok.1 ha
    exact ⟨code, Rule.lowered h₁, (Lowering.ofCause_eq_ok_iff.1 h₂).1⟩
  | error e pool₁ =>
    rw [ha] at h
    cases h

theorem Ruleset.joined_of_join {rules : Ruleset} {p : Program} {pool pool' : LabelPool}
    (h : join rules pool = .ok p pool') : Joined rules p := by
  induction rules generalizing p pool with
  | nil =>
    obtain ⟨rfl, _⟩ := Lowering.pure_eq_ok_iff.1 h
    exact .nil
  | cons r rest ih =>
    obtain ⟨first, pool₁, h₁, h⟩ := EStateM.bind_eq_ok.1 h
    obtain ⟨more, pool₂, h₂, h⟩ := EStateM.bind_eq_ok.1 h
    obtain ⟨rfl, rfl⟩ := Lowering.pure_eq_ok_iff.1 h
    cases hr : r.compile pool with
    | ok q pool₃ =>
      rw [hr] at h₁
      cases h₁
      obtain ⟨code, hl, hc⟩ := Rule.lowered_of_compile hr
      exact .cons hl hc (ih h₂)
    | error e pool₃ =>
      rw [hr] at h₁
      cases h₁

def CodeLine.Resolves (marks : List (String × Nat)) (a : Nat) : CodeLine → Instruction → Prop
  | .instruction j, i => i = j
  | .jump op l, i => ∃ target distance, marks.lookup l.name = some target ∧
      jumpDistance a target = .ok distance ∧ i = .jump op distance

theorem Assembly.resolveFrom_cons_eq_ok {marks : List (String × Nat)} {a : Nat} {line : CodeLine}
    {rest : Assembly} {p : Program} (h : resolveFrom marks a (line :: rest) = .ok p) :
    ∃ i more, p = i :: more ∧ line.Resolves marks a i ∧
      resolveFrom marks (a + 1) rest = .ok more := by
  cases line with
  | instruction i =>
    obtain ⟨more, hmore, h⟩ := Except.bind_eq_ok.1 h
    cases h
    exact ⟨i, more, rfl, rfl, hmore⟩
  | jump op l =>
    rw [resolveFrom] at h
    split at h
    · cases h
    · rename_i target htarget
      obtain ⟨distance, hdistance, h⟩ := Except.bind_eq_ok.1 h
      obtain ⟨more, hmore, h⟩ := Except.bind_eq_ok.1 h
      cases h
      exact ⟨_, more, rfl, ⟨target, distance, htarget, hdistance, rfl⟩, hmore⟩

/-- The program of rules as the settings want it, from the one with marks. -/
def CompilerSettings.finish (settings : CompilerSettings) (p : Program) :
    Except CompileError Program :=
  if settings.stripLabels then p.compact.mapError .ofCause else .ok p

theorem CompilerSettings.finish_eq_ok {settings : CompilerSettings} {p q : Program}
    (h : settings.finish p = .ok q) :
    (settings.stripLabels = true ∧ p.compact = .ok q) ∨
      (settings.stripLabels = false ∧ p = q) := by
  unfold finish at h
  cases hstrip : settings.stripLabels with
  | true =>
    rw [hstrip, if_pos rfl, Except.mapError_eq_ok] at h
    exact .inl ⟨rfl, h⟩
  | false =>
    rw [hstrip] at h
    cases h
    exact .inr ⟨rfl, rfl⟩

theorem Compiler.finished_of_compile {c : Compiler} {rules : Ruleset} {p : Program}
    (h : (c.compile rules).1 = .ok p) : ∃ full,
      (rules.emissionOrder c.settings).Joined full ∧ c.settings.finish full = .ok p := by
  unfold Compiler.compile Compiler.use at h
  cases hr : rules.compile c.settings c.labels with
  | ok q pool =>
    rw [hr] at h
    cases h
    obtain ⟨full, _, h₁, h₂⟩ := EStateM.bind_eq_ok.1 hr
    refine ⟨full, Ruleset.joined_of_join h₁, ?_⟩
    unfold CompilerSettings.finish
    split at h₂
    · rw [if_pos ‹_›, Except.mapError_eq_ok]
      exact (Lowering.ofCause_eq_ok_iff.1 h₂).1
    · rw [if_neg ‹_›, (Lowering.pure_eq_ok_iff.1 h₂).1]
  | error e pool =>
    rw [hr] at h
    cases h

/-- What a compiler gives is the joined program of the rules in their order, or its compact form
if the settings ask for it. -/
theorem Compiler.joined_of_compile {c : Compiler} {rules : Ruleset} {p : Program}
    (h : (c.compile rules).1 = .ok p) : ∃ full,
      (rules.emissionOrder c.settings).Joined full ∧ (full = p ∨ full.compact = .ok p) := by
  obtain ⟨full, hjoined, hfinish⟩ := Compiler.finished_of_compile h
  obtain ⟨_, hcompact⟩ | ⟨_, hsame⟩ := CompilerSettings.finish_eq_ok hfinish
  · exact ⟨full, hjoined, .inr hcompact⟩
  · exact ⟨full, hjoined, .inl hsame⟩

end RuleMachine
