import Mathlib.Data.List.Perm.Basic
import RuleMachine.Proofs.Compiler.Allocation

set_option autoImplicit false

namespace RuleMachine

mutual

/-- The labels inside the code of a condition: one between every two children of a list, and one
between the two lists of a group. -/
def Condition.labelCount : Condition → Nat
  | .leaf _ _ _ => 0
  | .group all any => labelCountOf all + labelCountOf any + (all.length - 1) + (any.length - 1)
      + if all.isEmpty || any.isEmpty then 0 else 1

def labelCountOf : List Condition → Nat
  | [] => 0
  | c :: rest => c.labelCount + labelCountOf rest

end

theorem Condition.labelCount_group (a : Condition) (all : List Condition) (b : Condition)
    (any : List Condition) : (Condition.group (a :: all) (b :: any)).labelCount =
      labelCountOf (a :: all) + ((a :: all).length - 1) +
        (labelCountOf (b :: any) + ((b :: any).length - 1)) + 1 := by
  simp only [Condition.labelCount, List.isEmpty_cons, Bool.or_self, Bool.false_eq_true, if_false]
  omega

theorem labelCountOf_cons_cons (c d : Condition) (rest : List Condition) :
    labelCountOf (c :: d :: rest) + ((c :: d :: rest).length - 1) =
      c.labelCount + (labelCountOf (d :: rest) + ((d :: rest).length - 1)) + 1 := by
  simp only [labelCountOf, List.length_cons]
  omega

def Rule.labelCount (r : Rule) : Nat := 2 + r.conditions.labelCount

/-- The labels of the rule that has most of them, none if there is no rule. -/
def Ruleset.labelCount (rules : Ruleset) : Nat := (rules.map Rule.labelCount).foldr max 0

namespace Lowering

open LabelPool

variable {α β : Type}

/-- Where `start` labels are in use, the work that succeeds has had `most` in use at once and leaves
`stop`. Work that fails may have had fewer and leave fewer. -/
def Spends (work : Lowering α) (start stop most : Nat) : Prop :=
  ∀ top pool, Grown top start pool →
    (∃ a next, work pool = .ok a next ∧ Grown (max top most) stop next) ∨
      ∃ e next top' left, work pool = .error e next ∧ Grown top' left next ∧
        top' ≤ max top most ∧ left ≤ stop

def Draws (work : Lowering α) (n : Nat) : Prop :=
  ∀ start, work.Spends start (start + n) (start + n)

variable {work : Lowering α} {next : α → Lowering β} {start middle stop most more m n : Nat}

theorem spends_pure (a : α) (start : Nat) : Spends (pure a) start start start := by
  intro top pool hpool
  refine .inl ⟨a, pool, rfl, ?_⟩
  rwa [Nat.max_eq_left hpool.le_top]

theorem spends_ofExcept (answer : Except CompileError α) (start : Nat) :
    Spends (ofExcept answer) start start start := by
  cases answer with
  | ok a => exact spends_pure a start
  | error e =>
    intro top pool hpool
    exact .inr ⟨e, pool, top, start, rfl, hpool, Nat.le_max_left _ _, Nat.le_refl _⟩

theorem Spends.bind (h : work.Spends start middle most)
    (hnext : ∀ a, (next a).Spends middle stop more) (hle : middle ≤ stop) :
    (work >>= next).Spends start stop (max most more) := by
  intro top pool hpool
  change (∃ a p, EStateM.bind work next pool = .ok a p ∧ _) ∨
    ∃ e p top' left, EStateM.bind work next pool = .error e p ∧ _
  rw [EStateM.bind, ← Nat.max_assoc]
  obtain ⟨a, pool', hwork, hpool'⟩ | ⟨e, pool', top', left, hwork, hpool', htop, hleft⟩ :=
    h top pool hpool
  · rw [hwork]
    exact hnext a _ pool' hpool'
  · rw [hwork]
    exact .inr ⟨e, pool', top', left, rfl, hpool', by omega, by omega⟩

theorem draws_ofExcept (answer : Except CompileError α) : Draws (ofExcept answer) 0 :=
  spends_ofExcept answer

theorem draws_pure (a : α) : Draws (pure a) 0 := spends_pure a

theorem draws_ofCause (x : Except CompileCause α) : Draws (ofCause x) 0 := draws_ofExcept _

theorem draws_allocate : Draws allocate 1 := by
  intro start top pool hpool
  obtain ⟨next, hnext, hgrown⟩ := hpool.allocate
  refine .inl ⟨⟨start⟩, next, ?_, hgrown⟩
  rw [allocate, hnext]

theorem Draws.bind (h : work.Draws m) (hnext : ∀ a, (next a).Draws n) :
    (work >>= next).Draws (m + n) := by
  intro start
  have hbind := (h start).bind (fun a => hnext a (start + m)) (Nat.le_add_right _ n)
  rwa [Nat.max_eq_right (Nat.le_add_right _ n), Nat.add_assoc] at hbind

theorem Draws.bind_right (h : work.Draws 0) (hnext : ∀ a, (next a).Draws n) :
    (work >>= next).Draws n := by
  have hbind := h.bind hnext
  rwa [Nat.zero_add] at hbind

theorem draws_mapM {f : α → Lowering β} (h : ∀ a, (f a).Draws 0) (l : List α) :
    (l.mapM f).Draws 0 := by
  induction l with
  | nil => exact draws_pure []
  | cons a l ih =>
    rw [List.mapM_cons]
    exact (h a).bind fun _ => ih.bind fun _ => draws_pure _

theorem draws_cut {first second : Label → Lowering Assembly} (hfirst : ∀ l, (first l).Draws m)
    (hsecond : ∀ l, (second l).Draws n) : Draws (do
      let next ← allocate
      let front ← first next
      let mark ← ofCause next.mark
      let back ← second next
      return front ++ .instruction mark :: back) (m + n + 1) := by
  rw [Nat.add_comm (m + n) 1]
  exact draws_allocate.bind fun next => (hfirst next).bind fun _ =>
    (draws_ofCause _).bind_right fun _ => (hsecond next).bind fun _ => draws_pure _

end Lowering

open Lowering

-- The recursion is that of the lowering; of a group with one list, the other counts nothing.

mutual

theorem Condition.draws_lower (success failure : Label) (c : Condition) :
    (c.lower success failure).Draws c.labelCount := by
  cases c with
  | leaf fact operator value =>
    rw [Condition.lower]
    exact (draws_ofExcept _).bind fun _ => (draws_ofCause _).bind fun _ => draws_pure _
  | group all any =>
    rw [Condition.lower.eq_def]
    cases all with
    | nil =>
      cases any with
      | nil => exact draws_ofExcept (.error _)
      | cons b any =>
        rw [Condition.labelCount, labelCountOf, Nat.zero_add]
        exact draws_lowerAny success failure (b :: any)
    | cons a all =>
      cases any with
      | nil => exact draws_lowerAll success failure (a :: all)
      | cons b any =>
        rw [Condition.labelCount_group]
        exact draws_cut (fun middle => draws_lowerAll middle failure (a :: all))
          fun _ => draws_lowerAny success failure (b :: any)

theorem draws_lowerAll (success failure : Label) (cs : List Condition) :
    (lowerAll success failure cs).Draws (labelCountOf cs + (cs.length - 1)) := by
  cases cs with
  | nil => exact draws_ofExcept (.error _)
  | cons c rest =>
    rw [lowerAll]
    cases rest with
    | nil => exact c.draws_lower success failure
    | cons d rest =>
      rw [labelCountOf_cons_cons]
      exact draws_cut (fun next => c.draws_lower next failure)
        fun _ => draws_lowerAll success failure (d :: rest)

theorem draws_lowerAny (success failure : Label) (cs : List Condition) :
    (lowerAny success failure cs).Draws (labelCountOf cs + (cs.length - 1)) := by
  cases cs with
  | nil => exact draws_ofExcept (.error _)
  | cons c rest =>
    rw [lowerAny]
    cases rest with
    | nil => exact c.draws_lower success failure
    | cons d rest =>
      rw [labelCountOf_cons_cons]
      exact draws_cut (fun next => c.draws_lower success next)
        fun _ => draws_lowerAny success failure (d :: rest)

end

namespace Rule

theorem draws_lower (r : Rule) : r.lower.Draws r.labelCount := by
  have hcount : r.labelCount = 1 + (1 + r.conditions.labelCount) := by
    rw [labelCount]
    omega
  rw [hcount, Rule.lower]
  refine (draws_ofCause _).bind_right fun start => (draws_ofCause _).bind_right fun priority => ?_
  refine (draws_mapM (fun _ => draws_ofCause _) _).bind_right fun scripts => ?_
  refine draws_allocate.bind fun body => draws_allocate.bind fun skip => ?_
  -- behind the condition no label is taken
  refine (r.conditions.draws_lower body skip).bind (n := 0) fun condition => ?_
  refine (draws_ofCause _).bind_right fun bodyMark => ?_
  refine (draws_mapM (fun _ => draws_ofCause _) _).bind_right fun actions => ?_
  exact (draws_ofCause _).bind_right fun skipMark => draws_pure _

/-- A rule gives back all labels that it has taken, whatever became of it. -/
theorem spends_compile (r : Rule) : r.compile.Spends 0 0 r.labelCount := by
  have hassemble : r.assemble.Draws r.labelCount :=
    r.draws_lower.bind fun code => draws_ofCause code.resolve
  intro top pool hpool
  have hspends := hassemble 0 top pool hpool
  rw [Nat.zero_add] at hspends
  unfold Rule.compile
  obtain ⟨p, next, hp, hnext⟩ | ⟨e, next, top', left, he, hnext, htop, _⟩ := hspends
  · rw [hp]
    exact .inl ⟨p, next.releaseAll, rfl, hnext.releaseAll⟩
  · rw [he]
    exact .inr ⟨e, next.releaseAll, top', 0, rfl, hnext.releaseAll, htop, Nat.le_refl 0⟩

theorem spends_inRule (r : Rule) : Spends (fun pool => match r.compile pool with
    | .ok program pool => .ok program pool
    | .error e pool => .error (e.inRule r.name) pool) 0 0 r.labelCount := by
  intro top pool hpool
  obtain ⟨p, next, hp, hnext⟩ | ⟨e, next, top', left, he, hnext⟩ := r.spends_compile top pool hpool
  · exact .inl ⟨p, next, by simp only [hp], hnext⟩
  · exact .inr ⟨e.inRule r.name, next, top', left, by simp only [he], hnext⟩

end Rule

namespace Ruleset

@[simp] theorem labelCount_nil : labelCount [] = 0 := rfl

@[simp] theorem labelCount_cons (r : Rule) (rest : Ruleset) :
    labelCount (r :: rest) = max r.labelCount rest.labelCount := rfl

theorem labelCount_append (rules more : Ruleset) :
    labelCount (rules ++ more) = max rules.labelCount more.labelCount := by
  induction rules with
  | nil => simp
  | cons r rest ih => rw [List.cons_append, labelCount_cons, labelCount_cons, ih, Nat.max_assoc]

theorem labelCount_perm {rules order : Ruleset} (h : order.Perm rules) :
    order.labelCount = rules.labelCount :=
  (h.map Rule.labelCount).foldr_eq 0

theorem labelCount_emissionOrder (settings : CompilerSettings) (rules : Ruleset) :
    (rules.emissionOrder settings).labelCount = rules.labelCount := by
  unfold emissionOrder
  split
  · exact labelCount_perm (List.mergeSort_perm _ _)
  · rfl

theorem spends_join (rules : Ruleset) : (join rules).Spends 0 0 rules.labelCount := by
  induction rules with
  | nil => exact spends_pure [] 0
  | cons r rest ih =>
    rw [join, labelCount_cons, ← Nat.max_zero (labelCount rest)]
    refine r.spends_inRule.bind (fun first => ?_) (Nat.le_refl 0)
    exact ih.bind (fun more => spends_pure _ 0) (Nat.le_refl 0)

theorem spends_compile (settings : CompilerSettings) (rules : Ruleset) :
    (rules.compile settings).Spends 0 0 rules.labelCount := by
  rw [← labelCount_emissionOrder settings rules, Ruleset.compile, ← Nat.max_zero (labelCount _)]
  refine (spends_join _).bind (fun p => ?_) (Nat.le_refl 0)
  split
  · exact spends_ofExcept _ 0
  · exact spends_pure p 0

end Ruleset

namespace Compiler

inductive Job where
  | compile (rules : Ruleset)
  | compileRule (r : Rule)

def Job.rules : Job → Ruleset
  | .compile rules => rules
  | .compileRule r => [r]

def perform (c : Compiler) : Job → Except CompileError Program × Compiler
  | .compile rules => c.compile rules
  | .compileRule r => c.compileRule r

def performAll (c : Compiler) : List Job → List (Except CompileError Program) × Compiler
  | [] => ([], c)
  | job :: rest =>
    let (answer, c) := c.perform job
    let (answers, c) := c.performAll rest
    (answer :: answers, c)

variable {c : Compiler} {top : Nat}

theorem grown_use {α : Type} {work : Lowering α} {most : Nat} (hwork : work.Spends 0 0 most)
    (h : c.labels.Grown top 0) : ∃ top', (c.use work).2.labels.Grown top' 0 ∧
      top' ≤ max top most ∧ ((c.use work).1.isOk → top' = max top most) := by
  obtain ⟨a, next, ha, hnext⟩ | ⟨e, next, top', left, he, hnext, htop, hleft⟩ :=
    hwork top c.labels h
  · rw [use, ha]
    exact ⟨_, hnext, Nat.le_refl _, fun _ => rfl⟩
  · obtain rfl := Nat.le_zero.1 hleft
    rw [use, he]
    exact ⟨top', hnext, htop, nofun⟩

theorem grown_perform (job : Job) (h : c.labels.Grown top 0) :
    ∃ top', (c.perform job).2.labels.Grown top' 0 ∧ top' ≤ max top job.rules.labelCount ∧
      ((c.perform job).1.isOk → top' = max top job.rules.labelCount) := by
  cases job with
  | compile rules => exact grown_use (rules.spends_compile c.settings) h
  | compileRule r =>
    have hcount : Ruleset.labelCount [r] = r.labelCount := Nat.max_zero _
    rw [Job.rules, hcount]
    exact grown_use r.spends_compile h

theorem grown_performAll (jobs : List Job) (h : c.labels.Grown top 0) :
    ∃ top', (c.performAll jobs).2.labels.Grown top' 0 ∧
      top' ≤ max top (Ruleset.labelCount (jobs.flatMap Job.rules)) ∧
      ((∀ answer ∈ (c.performAll jobs).1, answer.isOk) →
        top' = max top (Ruleset.labelCount (jobs.flatMap Job.rules))) := by
  induction jobs generalizing c top with
  | nil => exact ⟨top, h, Nat.le_max_left _ _, fun _ => (Nat.max_zero top).symm⟩
  | cons job rest ih =>
    obtain ⟨top₁, h₁, hle₁, heq₁⟩ := grown_perform job h
    obtain ⟨top₂, h₂, hle₂, heq₂⟩ := ih h₁
    rw [List.flatMap_cons, Ruleset.labelCount_append, ← Nat.max_assoc]
    refine ⟨top₂, h₂, by omega, fun hok => ?_⟩
    obtain ⟨hfirst, hrest⟩ := List.forall_mem_cons.1 hok
    rw [heq₂ hrest, heq₁ hfirst]

/-- Between two jobs no label is in use, whatever became of them, and all labels that there are
were in use at once during one of them. These are no more than the labels of the largest rule in
all the jobs, and exactly as many if every job succeeded. -/
theorem labels_bounded (settings : CompilerSettings) (jobs : List Job) :
    let session := (Compiler.mk settings .empty).performAll jobs
    session.2.labels.inUse = [] ∧
    session.2.labels.issued = session.2.labels.peak ∧
    session.2.labels.issued ≤ Ruleset.labelCount (jobs.flatMap Job.rules) ∧
    ((∀ answer ∈ session.1, answer.isOk) →
      session.2.labels.issued = Ruleset.labelCount (jobs.flatMap Job.rules)) := by
  intro session
  have hnew : (Compiler.mk settings .empty).labels.Grown 0 0 := LabelPool.grown_empty
  obtain ⟨top, hgrown, hle, heq⟩ := grown_performAll jobs hnew
  rw [Nat.zero_max] at hle heq
  refine ⟨hgrown.inUse, hgrown.issued.trans hgrown.peak.symm, ?_, fun hok => ?_⟩
  · rwa [hgrown.issued]
  · rw [hgrown.issued, heq hok]

def Job.nested : List Job :=
  [.compile [⟨"r", 0, .group [.leaf "a" "GT" (.int 1), .leaf "b" "LT" (.int 1)] [], [], .empty⟩],
    .compileRule ⟨"s", 0, .group
      [.leaf "a" "GT" (.int 1), .group [] [.leaf "b" "EQ" (.bool true), .leaf "c" "NEQ" (.int 0)]]
      [.leaf "d" "LTE" (.int 2), .group [.leaf "e" "CONTAINS" (.string "x")] []], [], .empty⟩,
    .compile [⟨"t", 0, .group [.leaf "a" "GT" (.int 1)] [], [], .empty⟩]]

theorem labels_bounded_nested :
    (∀ answer ∈ ((Compiler.mk ⟨true, false⟩ .empty).performAll Job.nested).1, answer.isOk) ∧
    ((Compiler.mk ⟨true, false⟩ .empty).performAll Job.nested).2.labels.issued = 6 := by
  have hok : ∀ answer ∈ ((Compiler.mk ⟨true, false⟩ .empty).performAll Job.nested).1,
      answer.isOk := by
    decide +kernel
  refine ⟨hok, ?_⟩
  rw [(labels_bounded ⟨true, false⟩ Job.nested).2.2.2 hok]
  rfl

example : ((Compiler.mk ⟨false, false⟩ .empty).compileRule ⟨"r", 0, .group
    [.leaf "a" "?" (.int 1), .leaf "b" "GT" (.int 1), .leaf "c" "GT" (.int 1)] [], [],
      .empty⟩).2.labels = ⟨[], [0, 1, 2], 3, 3⟩ :=
  rfl

end Compiler

end RuleMachine
