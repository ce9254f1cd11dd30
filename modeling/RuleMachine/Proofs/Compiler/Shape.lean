import RuleMachine.Proofs.Compact.Append
import RuleMachine.Proofs.Compiler.Concat
/-!
The shape of compiled programs. Every rule has a block of its own: a frame, a comparison with two
jumps for each leaf of its condition, and its effects. Jumps stay in their block, lead forward, and
land where a comparison, the effects or the end of the rule is next.
-/

set_option autoImplicit false

namespace RuleMachine

structure Leaf where
  fact : String
  operator : String
  value : Scalar

mutual

def Condition.leaves : Condition → List Leaf
  | .leaf fact operator value => [⟨fact, operator, value⟩]
  | .group all any => leavesOf all ++ leavesOf any

def leavesOf : List Condition → List Leaf
  | [] => []
  | c :: rest => c.leaves ++ leavesOf rest

end

def Leaf.Tests (l : Leaf) (i : Instruction) : Prop :=
  ∃ op, Opcode.select l.operator l.value = .ok op ∧
    Instruction.comparison op l.fact l.value = .ok i

/-- Each leaf in turn is compared with two jumps behind; nothing else is there but marks. -/
inductive Decides (marked : Bool) : List Leaf → Program → Prop where
  | nil : Decides marked [] []
  | mark {leaves : List Leaf} {code : Program} {l : Label} {i : Instruction}
      (allowed : marked = true) (mark : l.mark = .ok i) (more : Decides marked leaves code) :
      Decides marked leaves (i :: code)
  | leaf {l : Leaf} {leaves : List Leaf} {code : Program} {i : Instruction} (test : l.Tests i)
      (success failure : Int32) (more : Decides marked leaves code) :
      Decides marked (l :: leaves)
        (i :: .jump .jumpIfTrue success :: .jump .jumpIfFalse failure :: code)

def Marks (marked : Bool) (code : Program) : Prop :=
  if marked then ∃ (l : Label) (i : Instruction), l.mark = .ok i ∧ code = [i] else code = []

inductive Rule.Parts (r : Rule) (marked : Bool) : Program → Program → Program → Prop where
  | intro {start priority : Instruction} {scripts condition enter effects leave : Program}
      (starts : Instruction.ruleStart r.name = .ok start)
      (ranks : Instruction.priority r.priority = .ok priority)
      (defines : r.scripts.entries.mapM (fun (name, script) =>
        Instruction.scriptDefinition name script.params script.body) = .ok scripts)
      (decides : Decides marked r.conditions.leaves condition) (enters : Marks marked enter)
      (acts : r.actions.mapM Action.instruction = .ok effects) (leaves : Marks marked leave) :
      Parts r marked (start :: priority :: scripts ++ condition ++ enter) effects
        (leave ++ [Instruction.ruleEnd])

def passMark (marked : Bool) (target : Nat) : Nat := if marked then target + 1 else target

/-- An address is that of a comparison before the address `first`, or `first`, or `last`. -/
def Program.GoesOn (block : Program) (first last a : Nat) : Prop :=
  (∃ k, block[a]? = some k ∧ k.opcode.comparisonKind?.isSome = true ∧ a < first) ∨
    a = first ∨ a = last

/-- A place for jumps: a mark if there are marks, and from there on a comparison or one of two
addresses. -/
def Program.Landing (block : Program) (marked : Bool) (first last target : Nat) : Prop :=
  ∃ j, block[target]? = some j ∧ (marked = true → j.opcode = .label) ∧
    block.GoesOn first last (passMark marked target)

def Program.JumpsTo (block : Program) (marked : Bool) (first last : Nat) : Prop :=
  ∀ (a : Nat) (i : Instruction), block[a]? = some i → i.opcode.isJump = true →
    ∃ target, block.jumpTarget? a i = some target ∧ a < target ∧
      block.Landing marked first last target

/-- The block of a rule. Its jumps land at comparisons, where the effects begin, and at the end of
the rule, which is the last instruction. -/
def Rule.Block (r : Rule) (marked : Bool) (block : Program) : Prop :=
  ∃ before effects after, r.Parts marked before effects after ∧
    block = before ++ effects ++ after ∧ block.JumpsTo marked before.length (block.length - 1)

inductive Ruleset.Blocks (marked : Bool) : Ruleset → Program → Prop where
  | nil : Blocks marked [] []
  | cons {r : Rule} {rest : Ruleset} {first more : Program} (block : r.Block marked first)
      (blocks : Blocks marked rest more) : Blocks marked (r :: rest) (first ++ more)

namespace Assembly

variable {marks : List (String × Nat)} {a : Nat} {front back : Assembly} {p : Program}

theorem resolveFrom_append_eq_ok (h : resolveFrom marks a (front ++ back) = .ok p) :
    ∃ q q', resolveFrom marks a front = .ok q ∧
      resolveFrom marks (a + front.length) back = .ok q' ∧ p = q ++ q' := by
  induction front generalizing a p with
  | nil => exact ⟨[], p, rfl, h, rfl⟩
  | cons line front ih =>
    obtain ⟨i, more, rfl, hline, hmore⟩ := resolveFrom_cons_eq_ok h
    obtain ⟨q, q', hq, hq', rfl⟩ := ih hmore
    have hlength : a + (line :: front).length = a + 1 + front.length := by
      rw [List.length_cons]
      omega
    refine ⟨i :: q, q', ?_, by rw [hlength]; exact hq', rfl⟩
    cases line with
    | instruction j =>
      cases hline
      rw [resolveFrom, hq]
      rfl
    | jump op l =>
      obtain ⟨target, distance, htarget, hdistance, rfl⟩ := hline
      simp [resolveFrom, htarget, hdistance, hq, bind, Except.bind, pure, Except.pure]

theorem eq_of_resolveFrom_instructions {is : List Instruction}
    (h : resolveFrom marks a (is.map .instruction) = .ok p) : p = is := by
  induction is generalizing a p with
  | nil =>
    cases h
    rfl
  | cons i is ih =>
    obtain ⟨j, more, rfl, rfl, hmore⟩ := resolveFrom_cons_eq_ok h
    rw [ih hmore]

end Assembly

namespace Decides

variable {marked : Bool} {leaves leaves' : List Leaf} {code code' : Program}

theorem append (h : Decides marked leaves code) (h' : Decides marked leaves' code') :
    Decides marked (leaves ++ leaves') (code ++ code') := by
  induction h with
  | nil => exact h'
  | mark allowed mark more ih => exact .mark allowed mark ih
  | leaf test success failure more ih => exact .leaf test success failure ih

end Decides

def Clause.leaves : Clause → List Leaf
  | .one c => c.leaves
  | .all cs | .any cs => leavesOf cs

/-- Code of a clause that is cut in two by a mark. -/
theorem decides_cut {marks : List (String × Nat)} {a : Nat} {front back : Assembly} {l : Label}
    {i : Instruction} {p : Program} {leaves leaves' : List Leaf} (mark : l.mark = .ok i)
    (h : Assembly.resolveFrom marks a (front ++ .instruction i :: back) = .ok p)
    (hfront : ∀ {a q}, Assembly.resolveFrom marks a front = .ok q → Decides true leaves q)
    (hback : ∀ {a q}, Assembly.resolveFrom marks a back = .ok q → Decides true leaves' q) :
    Decides true (leaves ++ leaves') p := by
  obtain ⟨q, q', hq, hq', rfl⟩ := Assembly.resolveFrom_append_eq_ok h
  obtain ⟨j, more, rfl, rfl, hmore⟩ := Assembly.resolveFrom_cons_eq_ok hq'
  exact (hfront hq).append (.mark rfl mark (hback hmore))

theorem Lowered.decides {success failure : Label} {clause : Clause} {code : Assembly}
    {marks : List (String × Nat)} {a : Nat} {p : Program}
    (h : Lowered success failure clause code) (hp : code.resolveFrom marks a = .ok p) :
    Decides true clause.leaves p := by
  induction h generalizing a p with
  | leaf select test =>
    obtain ⟨i, _, rfl, rfl, hp₁⟩ := Assembly.resolveFrom_cons_eq_ok hp
    obtain ⟨j, _, rfl, hj, hp₂⟩ := Assembly.resolveFrom_cons_eq_ok hp₁
    obtain ⟨k, _, rfl, hk, hp₃⟩ := Assembly.resolveFrom_cons_eq_ok hp₂
    obtain ⟨_, success, _, _, rfl⟩ := hj
    obtain ⟨_, failure, _, _, rfl⟩ := hk
    cases hp₃
    exact .leaf ⟨_, select, test⟩ success failure .nil
  | allOnly first ih =>
    have hleaves := ih hp
    simpa [Clause.leaves, Condition.leaves, leavesOf] using hleaves
  | anyOnly second ih =>
    have hleaves := ih hp
    simpa [Clause.leaves, Condition.leaves, leavesOf] using hleaves
  | both first mark second ihFirst ihSecond => exact decides_cut mark hp ihFirst ihSecond
  | lastOfAll only ih =>
    have hleaves := ih hp
    simpa [Clause.leaves, leavesOf] using hleaves
  | firstOfAll first mark more ihFirst ihMore => exact decides_cut mark hp ihFirst ihMore
  | lastOfAny only ih =>
    have hleaves := ih hp
    simpa [Clause.leaves, leavesOf] using hleaves
  | firstOfAny first mark more ihFirst ihMore => exact decides_cut mark hp ihFirst ihMore

theorem Lowered.jumpsTo {head effects : List Instruction} {body skip : Label} {clause : Clause}
    {condition : Assembly} {bodyMark skipMark : Instruction} {place : String → Option Nat}
    {p : Program} (h : Lowered body skip clause condition) (enters : body.mark = .ok bodyMark)
    (leaves : skip.mark = .ok skipMark)
    (hp : Assembly.Placed place p 0 (head.map .instruction ++ condition
      ++ (bodyMark :: effects ++ [skipMark, Instruction.ruleEnd]).map .instruction))
    (hemitted : Assembly.Emitted (head.map .instruction ++ condition
      ++ (bodyMark :: effects ++ [skipMark, Instruction.ruleEnd]).map .instruction))
    (hlength : p.length = head.length + condition.length + 1 + effects.length + 2) :
    p.JumpsTo true (head.length + condition.length + 1) (p.length - 1) := by
  obtain ⟨_, hcondition, hbody, _, hskip, _⟩ := hp.frame enters leaves
  rw [Nat.zero_add] at hcondition hbody hskip
  have hlands : ∀ m, (∃ i, p[m]? = some i ∧ i.opcode = .label) →
      p.GoesOn (head.length + condition.length + 1) (p.length - 1) (m + 1) →
      p.Landing true (head.length + condition.length + 1) (p.length - 1) m := by
    intro m hm hnext
    obtain ⟨i, hi, hop⟩ := hm
    exact ⟨i, hi, fun _ => hop, hnext⟩
  have hleads : condition.Leads place
      (p.Landing true (head.length + condition.length + 1) (p.length - 1)) (0 + head.length) := by
    rw [Nat.zero_add]
    refine h.leads hcondition hbody hskip (Nat.le_refl _) (by omega) ?_ ?_ fun m hlt hm => ?_
    · exact hlands _ hbody.1 (.inr (.inl rfl))
    · exact hlands _ hskip.1 (.inr (.inr (by omega)))
    · obtain ⟨hmark, k, hk, hkind⟩ := hm
      exact hlands m hmark (.inl ⟨k, hk, hkind, by omega⟩)
  intro a i hi hjump
  have ha := (List.getElem?_eq_some_iff.1 hi).1
  obtain ⟨offset, target, ho, ht, hlt, hlanding⟩ := (Assembly.leads_frame hleads).target hp hemitted
    (Nat.zero_le a) (by simp only [List.length_append, List.length_map, List.length_cons,
      List.length_nil]; omega) hi hjump
  obtain ⟨j, hj, hnext⟩ := hlanding
  have hle := Nat.le_of_lt (List.getElem?_eq_some_iff.1 hj).1
  exact ⟨target, Program.jumpTarget?_eq_some_iff.2 ⟨offset, ho, ht, hle⟩, hlt, j, hj, hnext⟩

theorem Rule.Lowered.block {r : Rule} {code : Assembly} {p : Program} (h : r.Lowered code)
    (hp : code.resolve = .ok p) : r.Block true p := by
  have hemitted := h.emitted
  obtain ⟨hlength, place, hplaced⟩ := Assembly.placed_of_resolve hp [] []
  rw [List.nil_append, List.append_nil, List.length_nil] at hplaced
  obtain ⟨marks, _, hresolve⟩ := Except.bind_eq_ok.1 hp
  cases h with
  | @intro start priority bodyMark skipMark scripts effects body skip condition starts ranks defines
      decides enters acts leaves =>
    obtain ⟨q, q', hq, hq', rfl⟩ := Assembly.resolveFrom_append_eq_ok hresolve
    obtain ⟨head, middle, hhead, hmiddle, rfl⟩ := Assembly.resolveFrom_append_eq_ok hq
    obtain rfl := Assembly.eq_of_resolveFrom_instructions hhead
    obtain rfl := Assembly.eq_of_resolveFrom_instructions hq'
    have hmiddleLength := Assembly.length_resolveFrom hmiddle
    simp only [List.length_append, List.length_map, List.length_cons, List.length_nil] at hlength
    have hjumps := decides.jumpsTo enters leaves hplaced hemitted (by simp [hmiddleLength]; omega)
    refine ⟨start :: priority :: scripts ++ middle ++ [bodyMark], effects,
      [skipMark] ++ [Instruction.ruleEnd],
      .intro starts ranks defines (decides.decides hmiddle) ⟨body, bodyMark, enters, rfl⟩ acts
        ⟨skip, skipMark, leaves, rfl⟩, by simp, ?_⟩
    have hfirst : (start :: priority :: scripts ++ middle ++ [bodyMark]).length =
        (start :: priority :: scripts).length + condition.length + 1 := by
      simp [hmiddleLength]
      omega
    rwa [hfirst]

namespace Program

variable {p q front is : Program} {index : Nat}

theorem compactIndex_of_front (back : Program) (h : compactFrom p index front = .ok q) :
    compactIndex (front ++ back) front.length = q.length := by
  rw [compactIndex, List.take_left, length_compactFrom h]

theorem compactFrom_cons_of_not_mark {i : Instruction} (hm : i.isMark = false)
    (h : compactFrom p index (i :: is) = .ok q) : ∃ head more,
      p.compactInstruction index i = .ok head ∧ compactFrom p (index + 1) is = .ok more ∧
        q = head :: more := by
  obtain hskip | hkeep := compactFrom_cons_eq_ok h
  · rw [hm] at hskip
    cases hskip.1
  · exact hkeep.2

theorem eq_of_compactFrom_plain (hplain : ∀ i ∈ is, i.Plain)
    (h : compactFrom p index is = .ok q) : q = is := by
  induction is generalizing index q with
  | nil =>
    cases h
    rfl
  | cons i is ih =>
    obtain ⟨⟨hmark, hjump⟩, hrest⟩ := List.forall_mem_cons.1 hplain
    obtain ⟨head, more, hhead, hmore, rfl⟩ := compactFrom_cons_of_not_mark hmark h
    rw [compactInstruction_of_not_jump hjump] at hhead
    cases hhead
    rw [ih hrest hmore]

theorem eq_nil_of_compactFrom_mark {l : Label} {i : Instruction} (mark : l.mark = .ok i)
    (h : compactFrom p index [i] = .ok q) : q = [] := by
  obtain ⟨_, _, rfl⟩ := Instruction.mark_eq_ok_iff.1 mark
  cases h
  rfl

end Program

theorem Leaf.Tests.comparison {l : Leaf} {i : Instruction} (h : l.Tests i) :
    i.opcode.comparisonKind?.isSome = true := by
  obtain ⟨op, select, test⟩ := h
  exact Instruction.isSome_comparisonKind? select test

theorem Decides.compact {leaves : List Leaf} {code p q : Program} {index : Nat}
    (h : Decides true leaves code) (hq : Program.compactFrom p index code = .ok q) :
    Decides false leaves q := by
  induction h generalizing index q with
  | nil =>
    cases hq
    exact .nil
  | @mark _ code _ i allowed mark more ih =>
    obtain ⟨front, back, hfront, hback, rfl⟩ := Program.compactFrom_append_eq_ok (l := [i]) hq
    obtain rfl := Program.eq_nil_of_compactFrom_mark mark hfront
    exact ih hback
  | @leaf l leaves code i test success failure more ih =>
    obtain ⟨hmark, hjump⟩ := Instruction.plain_of_comparison test.comparison
    obtain ⟨first, _, hfirst, hq₁, rfl⟩ := Program.compactFrom_cons_of_not_mark hmark hq
    obtain ⟨second, _, hsecond, hq₂, rfl⟩ := Program.compactFrom_cons_of_not_mark rfl hq₁
    obtain ⟨third, rest, hthird, hrest, rfl⟩ := Program.compactFrom_cons_of_not_mark rfl hq₂
    rw [Program.compactInstruction_of_not_jump hjump] at hfirst
    obtain ⟨_, _, distance, _, _, _, rfl, _⟩ := Program.compactInstruction_of_jump hsecond rfl
    obtain ⟨_, _, distance', _, _, _, rfl, _⟩ := Program.compactInstruction_of_jump hthird rfl
    cases hfirst
    exact .leaf test distance distance' (ih hrest)

theorem Program.JumpsTo.compact {block p : Program} {first last : Nat}
    (h : block.JumpsTo true first last) (hp : block.compact = .ok p)
    (hfirst : block.compactIndex first < p.length) (hlast : block.compactIndex last < p.length) :
    p.JumpsTo false (block.compactIndex first) (block.compactIndex last) := by
  intro b j hj hjump
  obtain ⟨a, i, hi, hm, hc, rfl⟩ := exists_of_getElem?_compact hp hj
  have hjump' : i.opcode.isJump = true := by
    cases hi' : i.opcode.isJump with
    | true => rfl
    | false =>
      rw [compactInstruction_of_not_jump hi'] at hc
      cases hc
      rw [hi'] at hjump
      cases hjump
  obtain ⟨target, ht, hlt, j', hj', hmark, hnext⟩ := h a i hi hjump'
  obtain ⟨offset, ho, htarget, hle⟩ := jumpTarget?_eq_some_iff.1 ht
  obtain ⟨offset', target', distance, ho', htarget', _, rfl, hd⟩ :=
    compactInstruction_of_jump hc hjump'
  rw [ho] at ho'
  cases ho'
  obtain rfl : target' = target := by omega
  -- the jump and its mark both move, and the mark gives its place to what stands behind it
  have hsource := compactIndex_succ_of_not_mark hi hm
  have hmono : block.compactIndex (a + 1) ≤ block.compactIndex target' := compactIndex_mono hlt
  have hpass := compactIndex_succ_of_mark hj' (by rw [Instruction.isMark, hmark rfl]; rfl)
  have hbound : block.compactIndex target' ≤ p.length := by
    rw [length_compact hp]
    exact compactIndex_mono hle
  refine ⟨block.compactIndex target', jumpTarget?_eq_some_iff.2 ⟨distance,
    Instruction.jumpOffset?_jump hjump' distance, by omega, hbound⟩, by omega, ?_⟩
  have hlanding : ∀ {t : Nat}, t < p.length →
      p.GoesOn (block.compactIndex first) (block.compactIndex last) t →
      p.Landing false (block.compactIndex first) (block.compactIndex last) t := by
    intro t hlength hgo
    exact ⟨p[t], List.getElem?_eq_getElem hlength, fun h => absurd h Bool.false_ne_true, hgo⟩
  rw [← hpass]
  have hgo : block.GoesOn first last (target' + 1) := hnext
  obtain ⟨k, hk, hkind, hbefore⟩ | rfl | rfl := hgo
  · obtain ⟨hkMark, hkJump⟩ := Instruction.plain_of_comparison hkind
    obtain ⟨k', hk', hpk⟩ := getElem?_compact hp hk hkMark
    rw [compactInstruction_of_not_jump hkJump] at hk'
    cases hk'
    have hnextSource := compactIndex_succ_of_not_mark hk hkMark
    have hnextMono : block.compactIndex (target' + 1 + 1) ≤ block.compactIndex first :=
      compactIndex_mono hbefore
    exact hlanding (List.getElem?_eq_some_iff.1 hpk).1
      (.inl ⟨k, hpk, hkind, by omega⟩)
  · exact hlanding hfirst (.inr (.inl rfl))
  · exact hlanding hlast (.inr (.inr rfl))

theorem Rule.Parts.compact {r : Rule} {before effects after whole p : Program} {index : Nat}
    (h : r.Parts true before effects after)
    (hp : whole.compactFrom index (before ++ effects ++ after) = .ok p) :
    ∃ before' leave, r.Parts false before' effects [Instruction.ruleEnd] ∧
      whole.compactFrom index before = .ok before' ∧ after = leave ++ [Instruction.ruleEnd] ∧
      whole.compactFrom index (before ++ effects ++ leave) = .ok (before' ++ effects) ∧
      p = before' ++ effects ++ [Instruction.ruleEnd] := by
  cases h with
  | @intro start priority scripts condition enter effects leave starts ranks defines decides enters
      acts leaves =>
    obtain ⟨_, _, hbodyMark, rfl⟩ := enters
    obtain ⟨_, skipMark, hskipMark, rfl⟩ := leaves
    rw [← List.append_assoc] at hp
    obtain ⟨most, last, hmost, hlast, rfl⟩ := Program.compactFrom_append_eq_ok hp
    cases hlast
    obtain ⟨front, none, hfront, hnone, rfl⟩ := Program.compactFrom_append_eq_ok hmost
    obtain ⟨before', same, hbefore, hsame, rfl⟩ := Program.compactFrom_append_eq_ok hfront
    obtain ⟨middle, none', hmiddle, hnone', rfl⟩ := Program.compactFrom_append_eq_ok hbefore
    obtain ⟨head, condition', hhead, hcondition, rfl⟩ := Program.compactFrom_append_eq_ok hmiddle
    have heffects := forall_of_mapM (fun _ _ => Action.plain) acts
    obtain rfl := Program.eq_of_compactFrom_plain (plain_head starts ranks defines) hhead
    obtain rfl := (Program.eq_of_compactFrom_plain heffects hsame).symm
    obtain rfl := Program.eq_nil_of_compactFrom_mark hskipMark hnone
    obtain rfl := Program.eq_nil_of_compactFrom_mark hbodyMark hnone'
    refine ⟨_, [skipMark], .intro starts ranks defines (decides.compact hcondition) rfl acts rfl,
      hbefore, rfl, ?_, ?_⟩
    · rw [hmost, List.append_nil]
    · simp

/-- Taking the marks out of the block of a rule leaves its block without marks. -/
theorem Rule.Block.compact {r : Rule} {block p : Program} (h : r.Block true block)
    (hp : block.compact = .ok p) : r.Block false p := by
  obtain ⟨before, effects, after, hparts, rfl, hjumps⟩ := h
  obtain ⟨before', leave, hparts', hbefore, rfl, hmost, rfl⟩ := hparts.compact hp
  have hfirst := Program.compactIndex_of_front (effects ++ (leave ++ [Instruction.ruleEnd])) hbefore
  have hlast := Program.compactIndex_of_front [Instruction.ruleEnd] hmost
  rw [← List.append_assoc] at hfirst
  rw [List.append_assoc (before ++ effects)] at hlast
  have hend : (before ++ effects ++ (leave ++ [Instruction.ruleEnd])).length - 1 =
      (before ++ effects ++ leave).length := by
    simp only [List.length_append, List.length_singleton]
    omega
  have hend' : (before' ++ effects ++ [Instruction.ruleEnd]).length - 1 =
      (before' ++ effects).length := by
    simp
  rw [hend] at hjumps
  refine ⟨before', effects, _, hparts', rfl, ?_⟩
  rw [hend', ← hfirst, ← hlast]
  refine hjumps.compact hp ?_ ?_
  · rw [hfirst]
    simp only [List.length_append, List.length_singleton]
    omega
  · rw [hlast]
    simp

namespace Ruleset.Joined

variable {rules : Ruleset} {p q : Program}

theorem blocks (h : rules.Joined p) : rules.Blocks true p := by
  induction h with
  | nil => exact .nil
  | cons lowered resolved joined ih => exact .cons (lowered.block resolved) ih

theorem blocks_compact (h : rules.Joined p) (hq : p.compact = .ok q) : rules.Blocks false q := by
  induction h generalizing q with
  | nil =>
    cases hq
    exact .nil
  | @cons r rest code first more lowered resolved joined ih =>
    have hfirst : Joined [r] (first ++ []) := .cons lowered resolved .nil
    rw [List.append_nil] at hfirst
    rw [Program.compact_append hfirst.forward.closed joined.forward.closed] at hq
    obtain ⟨front, hfront, hq⟩ := Except.bind_eq_ok.1 hq
    obtain ⟨back, hback, hq⟩ := Except.bind_eq_ok.1 hq
    cases hq
    exact .cons ((lowered.block resolved).compact hfront) (ih hback)

end Ruleset.Joined

namespace Compiler

/-- A compiled program is made of the blocks of its rules in the order in which they are emitted,
with marks unless the settings take them out. -/
theorem compile_blocks {c : Compiler} {rules order : Ruleset} {p : Program}
    (h : (c.compile rules).1 = .ok p) (horder : rules.InOrder c.settings order) :
    order.Blocks (!c.settings.stripLabels) p := by
  obtain rfl := Ruleset.inOrder_iff.1 horder
  obtain ⟨full, hjoined, hfinish⟩ := finished_of_compile h
  obtain ⟨hstrip, hcompact⟩ | ⟨hstrip, rfl⟩ := CompilerSettings.finish_eq_ok hfinish
  · rw [hstrip]
    exact hjoined.blocks_compact hcompact
  · rw [hstrip]
    exact hjoined.blocks

theorem compile_blocks_sample :
    Ruleset.Blocks true .sample .sample ∧
      ∃ p, ((Compiler.mk ⟨true, false⟩ .empty).compile .sample).1 = .ok p ∧ p.length = 15 ∧
        Ruleset.Blocks false .sample p := by
  have horder : Ruleset.InOrder ⟨false, false⟩ .sample .sample := rfl
  have horder' : Ruleset.InOrder ⟨true, false⟩ .sample .sample := rfl
  obtain ⟨p, hp, hlength⟩ :
      ∃ p, ((Compiler.mk ⟨true, false⟩ .empty).compile .sample).1 = .ok p ∧ p.length = 15 :=
    ⟨_, rfl, rfl⟩
  exact ⟨compile_blocks Ruleset.compile_sample horder, p, hp, hlength, compile_blocks hp horder'⟩

end Compiler

end RuleMachine
