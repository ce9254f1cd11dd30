import Mathlib.Logic.Relation
import RuleMachine.Proofs.Compiler.Existence
/-!
Conditions that are decided alike. Nesting a group in one of its own kind, or putting the second
list of a group into a group of its own, leaves what is looked at and what follows from it as it
was. The code for a condition is then, label by label, code for the rewritten one, and without marks
the two have the same program.
-/

set_option autoImplicit false

namespace RuleMachine

/-- One rewriting of a condition, or of any condition in it. -/
inductive Condition.Rewrites : Condition → Condition → Prop where
  | both (a : Condition) (all : List Condition) (b : Condition) (any : List Condition) :
      Rewrites (.group (a :: all) (b :: any)) (.group (a :: all ++ [.group [] (b :: any)]) [])
  | spliceAll (front inner back any : List Condition) :
      Rewrites (.group (front ++ .group inner [] :: back) any) (.group (front ++ inner ++ back) any)
  | spliceAny (all front inner back : List Condition) :
      Rewrites (.group all (front ++ .group [] inner :: back)) (.group all (front ++ inner ++ back))
  | onlyAll (c : Condition) : Rewrites (.group [c] []) c
  | onlyAny (c : Condition) : Rewrites (.group [] [c]) c
  | inAll {c d : Condition} (front back any : List Condition) (child : Rewrites c d) :
      Rewrites (.group (front ++ c :: back) any) (.group (front ++ d :: back) any)
  | inAny {c d : Condition} (all front back : List Condition) (child : Rewrites c d) :
      Rewrites (.group all (front ++ c :: back)) (.group all (front ++ d :: back))

inductive Connective where
  | all
  | any

namespace Connective

def clause : Connective → List Condition → Clause
  | all => .all
  | any => .any

def success (next success : Label) : Connective → Label
  | all => next
  | any => success

def failure (next failure : Label) : Connective → Label
  | all => failure
  | any => next

@[simp] theorem success_success (k : Connective) (next other success : Label) :
    k.success next (k.success other success) = k.success next success := by
  cases k <;> rfl

@[simp] theorem failure_failure (k : Connective) (next other failure : Label) :
    k.failure next (k.failure other failure) = k.failure next failure := by
  cases k <;> rfl

end Connective

def Connective.Parted (k : Connective) (first second : Clause) (success failure : Label)
    (code : Assembly) : Prop :=
  ∃ next front i back, Lowered (k.success next success) (k.failure next failure) first front ∧
    next.mark = .ok i ∧ Lowered success failure second back ∧
    code = front ++ .instruction i :: back

variable {k : Connective} {success failure : Label} {c d : Condition} {cs ds : List Condition}
  {code : Assembly}

theorem lowered_singleton_iff :
    Lowered success failure (k.clause [c]) code ↔ Lowered success failure (.one c) code := by
  cases k with
  | all =>
    constructor
    · intro h
      cases h with
      | lastOfAll only => exact only
      | firstOfAll first mark more => cases more
    · exact .lastOfAll
  | any =>
    constructor
    · intro h
      cases h with
      | lastOfAny only => exact only
      | firstOfAny first mark more => cases more
    · exact .lastOfAny

theorem lowered_cons_iff (hds : ds ≠ []) : Lowered success failure (k.clause (c :: ds)) code ↔
    k.Parted (.one c) (k.clause ds) success failure code := by
  cases k with
  | all =>
    constructor
    · intro h
      cases h with
      | lastOfAll only => exact absurd rfl hds
      | firstOfAll first mark more => exact ⟨_, _, _, _, first, mark, more, rfl⟩
    · intro h
      obtain ⟨_, _, _, _, first, mark, more, rfl⟩ := h
      exact .firstOfAll first mark more
  | any =>
    constructor
    · intro h
      cases h with
      | lastOfAny only => exact absurd rfl hds
      | firstOfAny first mark more => exact ⟨_, _, _, _, first, mark, more, rfl⟩
    · intro h
      obtain ⟨_, _, _, _, first, mark, more, rfl⟩ := h
      exact .firstOfAny first mark more

theorem lowered_append_iff (hcs : cs ≠ []) (hds : ds ≠ []) :
    Lowered success failure (k.clause (cs ++ ds)) code ↔
      k.Parted (k.clause cs) (k.clause ds) success failure code := by
  induction cs generalizing code with
  | nil => exact absurd rfl hcs
  | cons c cs ih =>
    by_cases hrest : cs = []
    · subst hrest
      rw [List.singleton_append, lowered_cons_iff hds]
      simp only [Connective.Parted, lowered_singleton_iff]
    · rw [List.cons_append, lowered_cons_iff (List.append_ne_nil_of_left_ne_nil hrest ds)]
      constructor
      · intro h
        obtain ⟨next, front, i, _, first, mark, more, rfl⟩ := h
        obtain ⟨next', middle, j, back, first', mark', more', rfl⟩ := (ih hrest).1 more
        refine ⟨next', front ++ .instruction i :: middle, j, back, ?_, mark', more', by simp⟩
        rw [lowered_cons_iff hrest]
        exact ⟨next, front, i, middle, by simpa using first, mark, first', rfl⟩
      · intro h
        obtain ⟨next', _, j, back, more, mark', more', rfl⟩ := h
        obtain ⟨next, front, i, middle, first, mark, first', rfl⟩ := (lowered_cons_iff hrest).1 more
        refine ⟨next, front, i, middle ++ .instruction j :: back, by simpa using first, mark, ?_,
          by simp⟩
        exact (ih hrest).2 ⟨next', middle, j, back, first', mark', more', rfl⟩

theorem Lowered.ne_nil (h : Lowered success failure (k.clause cs) code) : cs ≠ [] := by
  intro hnil
  rw [hnil] at h
  cases k <;> cases h

/-- Whatever is code for the first clause is code for the second. -/
def Clause.Becomes (first second : Clause) : Prop :=
  ∀ ⦃success failure code⦄, Lowered success failure first code →
    Lowered success failure second code

namespace Clause.Becomes

variable {cs' : List Condition}

theorem append_left (h : (k.clause cs).Becomes (k.clause cs')) (hcs : cs ≠ [])
    (ds : List Condition) : (k.clause (cs ++ ds)).Becomes (k.clause (cs' ++ ds)) := by
  by_cases hds : ds = []
  · rwa [hds, List.append_nil, List.append_nil]
  · intro success failure code hcode
    obtain ⟨next, front, i, back, first, mark, more, rfl⟩ := (lowered_append_iff hcs hds).1 hcode
    have hfirst := h first
    exact (lowered_append_iff hfirst.ne_nil hds).2 ⟨next, front, i, back, hfirst, mark, more, rfl⟩

theorem append_right (h : (k.clause cs).Becomes (k.clause cs')) (hcs : cs ≠ [])
    (ds : List Condition) : (k.clause (ds ++ cs)).Becomes (k.clause (ds ++ cs')) := by
  by_cases hds : ds = []
  · rwa [hds, List.nil_append, List.nil_append]
  · intro success failure code hcode
    obtain ⟨next, front, i, back, first, mark, more, rfl⟩ := (lowered_append_iff hds hcs).1 hcode
    have hmore := h more
    exact (lowered_append_iff hds hmore.ne_nil).2 ⟨next, front, i, back, first, mark, hmore, rfl⟩

/-- A child may be replaced by the children that its code is also code for. -/
theorem within (h : (Clause.one c).Becomes (k.clause cs)) (front back : List Condition) :
    (k.clause (front ++ c :: back)).Becomes (k.clause (front ++ cs ++ back)) := by
  have hsingle : (k.clause [c]).Becomes (k.clause cs) := fun _ _ _ hc =>
    h (lowered_singleton_iff.1 hc)
  rw [List.append_assoc]
  exact (hsingle.append_left (List.cons_ne_nil c []) back).append_right (List.cons_ne_nil c back)
    front

theorem groupAll (h : (Clause.all cs).Becomes (.all ds)) (hcs : cs ≠ []) (any : List Condition) :
    (Clause.one (.group cs any)).Becomes (.one (.group ds any)) := by
  intro success failure code hcode
  cases hcode with
  | allOnly first => exact .allOnly (h first)
  | anyOnly second => exact absurd rfl hcs
  | both first mark second => exact .both (h first) mark second

theorem groupAny (h : (Clause.any cs).Becomes (.any ds)) (hcs : cs ≠ []) (all : List Condition) :
    (Clause.one (.group all cs)).Becomes (.one (.group all ds)) := by
  intro success failure code hcode
  cases hcode with
  | allOnly first => exact absurd rfl hcs
  | anyOnly second =>
    obtain ⟨_, _, rfl⟩ := (h second).exists_cons_of_any
    exact .anyOnly (h second)
  | both first mark second =>
    obtain ⟨_, _, rfl⟩ := (h second).exists_cons_of_any
    exact .both first mark (h second)

end Clause.Becomes

theorem Condition.Rewrites.becomes (h : c.Rewrites d) : (Clause.one c).Becomes (.one d) := by
  induction h with
  | both a all b any =>
    intro success failure code hcode
    cases hcode with
    | both first mark second =>
      have hlast : Lowered success failure (Connective.all.clause [.group [] (b :: any)]) _ :=
        .lastOfAll (.anyOnly second)
      have hlist := (lowered_append_iff (k := .all) (List.cons_ne_nil a all) hlast.ne_nil).2
        ⟨_, _, _, _, first, mark, hlast, rfl⟩
      exact .allOnly hlist
  | spliceAll front inner back any =>
    refine Clause.Becomes.groupAll (Clause.Becomes.within (k := .all) ?_ front back) (by simp) any
    intro success failure code hcode
    cases hcode with
    | allOnly first => exact first
  | spliceAny all front inner back =>
    refine Clause.Becomes.groupAny (Clause.Becomes.within (k := .any) ?_ front back) (by simp) all
    intro success failure code hcode
    cases hcode with
    | allOnly first => cases first
    | anyOnly second => exact second
    | both first mark second => cases first
  | onlyAll c =>
    intro success failure code hcode
    cases hcode with
    | allOnly first => exact (lowered_singleton_iff (k := .all)).1 first
  | onlyAny c =>
    intro success failure code hcode
    cases hcode with
    | anyOnly second => exact (lowered_singleton_iff (k := .any)).1 second
    | both first mark second => cases first
  | @inAll c d front back any child ih =>
    have hchild : (Clause.one c).Becomes (Connective.all.clause [d]) := fun _ _ _ hc =>
      lowered_singleton_iff.2 (ih hc)
    have hlist := hchild.within front back
    rw [← List.append_cons] at hlist
    exact hlist.groupAll (by simp) any
  | @inAny c d all front back child ih =>
    have hchild : (Clause.one c).Becomes (Connective.any.clause [d]) := fun _ _ _ hc =>
      lowered_singleton_iff.2 (ih hc)
    have hlist := hchild.within front back
    rw [← List.append_cons] at hlist
    exact hlist.groupAny (by simp) all

theorem becomes_of_rewrites (h : Relation.ReflTransGen Condition.Rewrites c d) :
    (Clause.one c).Becomes (.one d) := by
  induction h with
  | refl => exact fun _ _ _ hcode => hcode
  | tail _ step ih => exact fun _ _ _ hcode => step.becomes (ih hcode)

theorem Rule.Lowered.rewritten {r : Rule} {conditions : Condition} (h : r.Lowered code)
    (hrewrites : Relation.ReflTransGen Condition.Rewrites r.conditions conditions) :
    Rule.Lowered { r with conditions } code := by
  cases h with
  | intro starts ranks defines decides enters acts leaves =>
    exact .intro starts ranks defines (becomes_of_rewrites hrewrites decides) enters acts leaves

/-- Where a rule compiles, so does the rule with its condition rewritten, to the same program but
for its marks. -/
theorem Rule.exists_alone_rewritten {r : Rule} {conditions : Condition} {p : Program}
    (h : r.alone = .ok p)
    (hrewrites : Relation.ReflTransGen Condition.Rewrites r.conditions conditions) :
    ∃ q, Rule.alone { r with conditions } = .ok q ∧ q.compact = p.compact := by
  obtain ⟨code, hcode, hresolve⟩ := Rule.lowered_of_alone h
  exact (hcode.rewritten hrewrites).exists_alone hresolve

namespace Compiler

theorem Reached.compile_of_alone {settings : CompilerSettings} {c : Compiler} {r : Rule}
    {p q : Program} (hc : Reached settings c) (hstrip : settings.stripLabels = true)
    (h : r.alone = .ok p) (hcompact : p.compact = .ok q) : (c.compile [r]).1 = .ok q := by
  rw [hc.compile_eq, Ruleset.program_singleton, h]
  change settings.finish p = .ok q
  rw [CompilerSettings.finish, hstrip, if_pos rfl, hcompact]
  rfl

/-- A rule that compiles, with marks or without, has one program without marks, and with its
condition rewritten any number of times it has the same. (A condition that compiles has no empty
group.) -/
theorem compile_rewritten {settings : CompilerSettings} {c : Compiler} {r : Rule}
    {conditions : Condition} {p : Program} (hc : Reached settings c)
    (h : (c.compile [r]).1 = .ok p)
    (hrewrites : Relation.ReflTransGen Condition.Rewrites r.conditions conditions) :
    ∃ q, ∀ (stripping : CompilerSettings) (d : Compiler), stripping.stripLabels = true →
      Reached stripping d → (d.compile [r]).1 = .ok q ∧
        (d.compile [{ r with conditions }]).1 = .ok q := by
  rw [hc.compile_eq, Ruleset.program_singleton] at h
  obtain ⟨full, hfull, _⟩ := Except.bind_eq_ok.1 h
  obtain ⟨full', hfull', hcompact⟩ := Rule.exists_alone_rewritten hfull hrewrites
  obtain ⟨q, hq⟩ := (Rule.forward_of_alone hfull).exists_compact
  refine ⟨q, fun stripping d hstrip hd => ⟨?_, ?_⟩⟩
  · exact hd.compile_of_alone hstrip hfull hq
  · exact hd.compile_of_alone hstrip hfull' (hcompact.trans hq)

end Compiler

def Rule.nested : Rule :=
  ⟨"r", 0, .group
    [.leaf "a" "GT" (.int 1), .group [.leaf "b" "EQ" (.string "x"), .leaf "c" "LT" (.int 2)] []]
    [.group [] [.leaf "d" "EQ" (.bool true), .group [.leaf "e" "NEQ" (.string "y")] []]],
    [], .empty⟩

def Condition.flat : Condition :=
  .group [.leaf "a" "GT" (.int 1), .leaf "b" "EQ" (.string "x"), .leaf "c" "LT" (.int 2),
    .group [] [.leaf "d" "EQ" (.bool true), .leaf "e" "NEQ" (.string "y")]] []

theorem Rule.nested_rewrites :
    Relation.ReflTransGen Condition.Rewrites Rule.nested.conditions .flat :=
  .head (.spliceAll [_] [_, _] [] _) <| .head (.spliceAny _ [] [_, _] []) <|
    .head (.inAny _ [_] [] (.onlyAll _)) <| .head (.both _ _ _ _) .refl

theorem Compiler.compile_rewritten_nested : ∃ q : Program, q.length = 18 ∧
    ((Compiler.mk ⟨true, false⟩ .empty).compile [.nested]).1 = .ok q ∧
    ((Compiler.mk ⟨true, false⟩ .empty).compile [{ Rule.nested with conditions := .flat }]).1 =
      .ok q := by
  obtain ⟨p, hp⟩ : ∃ p, ((Compiler.mk ⟨false, false⟩ .empty).compile [.nested]).1 = .ok p :=
    ⟨_, rfl⟩
  obtain ⟨p', hp', hlength⟩ : ∃ p : Program,
      ((Compiler.mk ⟨true, false⟩ .empty).compile [.nested]).1 = .ok p ∧ p.length = 18 :=
    ⟨_, rfl, rfl⟩
  obtain ⟨q, hq⟩ := compile_rewritten .new hp Rule.nested_rewrites
  obtain ⟨hnested, hflat⟩ := hq ⟨true, false⟩ ⟨⟨true, false⟩, .empty⟩ rfl .new
  cases hp'.symm.trans hnested
  exact ⟨_, hlength, hnested, hflat⟩

end RuleMachine
