import RuleMachine.Proofs.Compiler.Pool
import RuleMachine.Proofs.Compiler.Resolves
import RuleMachine.Proofs.Compiler.Violations

set_option autoImplicit false

namespace RuleMachine

mutual

def Condition.codeLength : Condition → Nat
  | .leaf _ _ _ => 3
  | .group all any => codeLengthOf all + codeLengthOf any + (all.length + any.length - 1)

def codeLengthOf : List Condition → Nat
  | [] => 0
  | c :: rest => c.codeLength + codeLengthOf rest

end

theorem Condition.codeLength_group (a : Condition) (all : List Condition) (b : Condition)
    (any : List Condition) : (Condition.group (a :: all) (b :: any)).codeLength =
      codeLengthOf (a :: all) + ((a :: all).length - 1) + 1 +
        (codeLengthOf (b :: any) + ((b :: any).length - 1)) := by
  simp only [Condition.codeLength, List.length_cons]
  omega

theorem codeLengthOf_cons_cons (c d : Condition) (rest : List Condition) :
    codeLengthOf (c :: d :: rest) + ((c :: d :: rest).length - 1) =
      c.codeLength + 1 + (codeLengthOf (d :: rest) + ((d :: rest).length - 1)) := by
  simp only [codeLengthOf, List.length_cons]
  omega

namespace Lowering

variable {α β : Type}

/-- With `count` labels in use, the work gives a value and leaves labels as `post` says if there
are no violations, and else fails with the first of them and names no rule. -/
def Reports (work : Lowering α) (count : Nat) (violations : List CompileCause)
    (post : α → Nat → Prop) : Prop :=
  (violations = [] ∧ ∃ a after, work.Gives count (.ok a) after ∧ post a after) ∨
    ∃ e after, work.Gives count (.error e) after ∧ violations.head? = some e.cause ∧ e.rule = none

variable {work : Lowering α} {next : α → Lowering β} {count : Nat} {vs ws : List CompileCause}
  {post : α → Nat → Prop} {post' : β → Nat → Prop} {a : α}

theorem Reports.bind (h : work.Reports count vs post)
    (hnext : ∀ a middle, post a middle → (next a).Reports middle ws post') :
    (work >>= next).Reports count (vs ++ ws) post' := by
  obtain ⟨rfl, a, middle, hwork, hpost⟩ | ⟨e, after, hwork, hhead, hrule⟩ := h
  · obtain ⟨rfl, b, after, hrest, hpost'⟩ | ⟨e, after, hrest, hhead, hrule⟩ := hnext a middle hpost
    · exact .inl ⟨rfl, b, after, hwork.bind_ok hrest, hpost'⟩
    · exact .inr ⟨e, after, hwork.bind_ok hrest, hhead, hrule⟩
  · refine .inr ⟨e, after, hwork.bind_error, ?_, hrule⟩
    rw [List.head?_append, hhead, Option.some_or]

theorem Reports.bind_left (h : work.Reports count vs post)
    (hnext : ∀ a middle, post a middle → (next a).Reports middle [] post') :
    (work >>= next).Reports count vs post' := by
  have hbind := h.bind hnext
  rwa [List.append_nil] at hbind

theorem Reports.bind_right (h : work.Reports count [] post)
    (hnext : ∀ a middle, post a middle → (next a).Reports middle ws post') :
    (work >>= next).Reports count ws post' :=
  h.bind hnext

theorem reports_pure (h : post a count) : Reports (pure a) count [] post :=
  .inl ⟨rfl, a, count, gives_pure a count, h⟩

theorem reports_allocate (count : Nat) :
    allocate.Reports count [] fun l after => l = ⟨count⟩ ∧ after = count + 1 :=
  .inl ⟨rfl, _, _, gives_allocate count, rfl, rfl⟩

theorem reports_ofCause {x : Except CompileCause α} (h : RuleMachine.Reports x vs) (count : Nat) :
    (ofCause x).Reports count vs fun a after => x = .ok a ∧ after = count := by
  have hgives := gives_ofCause x count
  cases x with
  | ok a => exact .inl ⟨h, a, count, hgives, rfl, rfl⟩
  | error e => exact .inr ⟨.ofCause e, count, hgives, h, rfl⟩

theorem reports_mark {l : Label} (h : l.id < 2 ^ 31) (count : Nat) :
    (ofCause l.mark).Reports count [] fun i after => l.mark = .ok i ∧ after = count := by
  obtain ⟨i, hi⟩ := Label.exists_mark h
  exact reports_ofCause (by rw [hi]; rfl) count

theorem reports_mapM {f : α → Except CompileCause β} {g : α → List CompileCause} {l : List α}
    (h : ∀ a ∈ l, RuleMachine.Reports (f a) (g a)) (count : Nat) :
    Reports (l.mapM fun a => ofCause (f a)) count (l.flatMap g)
      fun bs after => l.mapM f = .ok bs ∧ after = count := by
  induction l with
  | nil => exact reports_pure ⟨rfl, rfl⟩
  | cons a l ih =>
    obtain ⟨ha, hl⟩ := List.forall_mem_cons.1 h
    rw [List.mapM_cons, List.flatMap_cons]
    refine (reports_ofCause ha count).bind fun b middle hb => ?_
    obtain ⟨hb, rfl⟩ := hb
    refine (ih hl).bind_left fun bs after hbs => ?_
    obtain ⟨hbs, rfl⟩ := hbs
    exact reports_pure ⟨mapM_cons_eq_ok_iff.2 ⟨b, bs, hb, hbs, rfl⟩, rfl⟩

end Lowering

def labelsFrom (count n : Nat) : List Label := (List.range' count n).map Label.mk

theorem mem_labelsFrom_iff {count n : Nat} {l : Label} :
    l ∈ labelsFrom count n ↔ count ≤ l.id ∧ l.id < count + n := by
  simp only [labelsFrom, List.mem_map, List.mem_range'_1]
  constructor
  · intro h
    obtain ⟨_, h, rfl⟩ := h
    exact h
  · intro h
    exact ⟨l.id, h, rfl⟩

theorem nodup_labelsFrom (count n : Nat) : (labelsFrom count n).Nodup := by
  refine List.Pairwise.map _ ?_ (List.nodup_range' (s := count) (n := n))
  intro a b hne h
  cases h
  exact hne rfl

/-- Code of some length that marks every label it was given, once, and jumps only to these and to
the labels `outer`. -/
structure Assembly.Sealed (outer : List Label) (n count : Nat) (code : Assembly) (after : Nat) :
    Prop where
  length : code.length = n
  marks : ∃ labels, code.Labelled labels ∧ after = count + labels.length ∧
    labels.Perm (labelsFrom count labels.length)
  jumps : ∀ op l, .jump op l ∈ code → l ∈ outer ∨ (count ≤ l.id ∧ l.id < after)

namespace Assembly.Sealed

variable {outer inner : List Label} {n m count middle after : Nat} {front back : Assembly}

theorem le (h : Sealed outer n count front after) : count ≤ after ∧ after ≤ count + n := by
  obtain ⟨labels, hlabels, rfl, _⟩ := h.marks
  have hlength := hlabels.length_le
  rw [h.length] at hlength
  omega

theorem cut {i : Instruction} (hf : Sealed inner n (count + 1) front middle)
    (mark : Label.mark ⟨count⟩ = .ok i) (hb : Sealed outer m middle back after)
    (hinner : ∀ l ∈ inner, l ∈ outer ∨ l = ⟨count⟩) :
    Sealed outer (n + 1 + m) count (front ++ .instruction i :: back) after := by
  have hmiddle := hf.le
  have hafter := hb.le
  refine ⟨?_, ?_, fun op l hl => ?_⟩
  · rw [List.length_append, List.length_cons, hf.length, hb.length]
    omega
  · obtain ⟨labels, hlabels, rfl, hperm⟩ := hf.marks
    obtain ⟨more, hmore, rfl, hperm'⟩ := hb.marks
    refine ⟨labels ++ ⟨count⟩ :: more, hlabels.append (.mark mark hmore), ?_, ?_⟩
    · rw [List.length_append, List.length_cons]
      omega
    · -- the label of the mark comes first in the numbers and between the others in the code
      have hsplit : labelsFrom count (labels ++ ⟨count⟩ :: more).length =
          ⟨count⟩ :: (labelsFrom (count + 1) labels.length ++
            labelsFrom (count + 1 + labels.length) more.length) := by
        have hlength : (labels ++ ⟨count⟩ :: more).length = labels.length + more.length + 1 := by
          rw [List.length_append, List.length_cons]
          omega
        rw [hlength, labelsFrom, List.range'_succ, ← List.range'_append_1, List.map_cons,
          List.map_append]
        rfl
      rw [hsplit]
      exact List.perm_middle.trans (.cons _ (hperm.append hperm'))
  · obtain hl | hl := List.mem_append.1 hl
    · obtain hl | hl := hf.jumps op l hl
      · obtain hl | rfl := hinner l hl
        · exact .inl hl
        · refine .inr ⟨Nat.le_refl _, ?_⟩
          change count < after
          omega
      · exact .inr (by omega)
    · obtain hl | hl := List.mem_cons.1 hl
      · cases hl
      · exact (hb.jumps op l hl).imp_right fun h => by omega

end Assembly.Sealed

namespace Lowering

open Assembly

/-- The common part of the three places where a group is cut in two by a mark. -/
theorem reports_cut {first second : Label → Lowering Assembly} {vs ws : List CompileCause}
    {inner outer : List Label} {n m count : Nat} (hcount : count < 2 ^ 31)
    (hfirst : (first ⟨count⟩).Reports (count + 1) vs (Sealed inner n (count + 1)))
    (hsecond : ∀ middle ≤ count + 1 + n,
      (second ⟨count⟩).Reports middle ws (Sealed outer m middle))
    (hinner : ∀ l ∈ inner, l ∈ outer ∨ l = ⟨count⟩) :
    Reports (do
      let next ← allocate
      let front ← first next
      let mark ← ofCause next.mark
      let back ← second next
      return front ++ .instruction mark :: back) count (vs ++ ws)
      (Sealed outer (n + 1 + m) count) := by
  refine (reports_allocate count).bind_right fun next _ hnext => ?_
  obtain ⟨rfl, rfl⟩ := hnext
  refine hfirst.bind fun front middle hfront => ?_
  refine (reports_mark hcount middle).bind_right fun mark _ hmark => ?_
  obtain ⟨hmark, rfl⟩ := hmark
  refine (hsecond _ hfront.le.2).bind_left fun back after hback => ?_
  exact reports_pure (hfront.cut hmark hback hinner)

end Lowering

open Lowering Assembly

theorem reports_emptyCondition (count : Nat) (post : Assembly → Nat → Prop) :
    Lowering.Reports (throw (.ofCause .emptyCondition)) count [.emptyCondition] post :=
  .inr ⟨_, count, gives_ofExcept (.error _) count, rfl, rfl⟩

theorem Assembly.sealed_leaf {success failure : Label} {i : Instruction} (h : i.Plain)
    (count : Nat) : Sealed [success, failure] 3 count
      [.instruction i, .jump .jumpIfTrue success, .jump .jumpIfFalse failure] count := by
  refine ⟨rfl, ⟨[], .plain h.1 (.jump _ _ (.jump _ _ .nil)), rfl, .nil⟩, fun op l hl => .inl ?_⟩
  simp only [List.mem_cons, reduceCtorEq, CodeLine.jump.injEq, List.not_mem_nil, or_false,
    false_or] at hl ⊢
  exact hl.imp And.right And.right

theorem reports_leaf (success failure : Label) (fact operator : String) (value : Scalar)
    (count : Nat) : ((Condition.leaf fact operator value).lower success failure).Reports count
      (Condition.violations (.leaf fact operator value)) (Sealed [success, failure] 3 count) := by
  rw [Condition.lower, Condition.violations]
  obtain ⟨haccepted, op, hop⟩ | ⟨hrejected, e, he, hcause, hrule⟩ :=
    Opcode.select_cases operator value
  · rw [if_pos haccepted]
    have hselect : (ofExcept (Opcode.select operator value)).Reports count []
        fun a after => a = op ∧ after = count := by
      rw [hop]
      exact reports_pure ⟨rfl, rfl⟩
    refine hselect.bind_right fun _ _ h => ?_
    obtain ⟨rfl, rfl⟩ := h
    refine (reports_ofCause (Instruction.reports_comparison _ fact value) _).bind_left
      fun test _ h => ?_
    obtain ⟨htest, rfl⟩ := h
    have hkind := Instruction.isSome_comparisonKind? hop htest
    exact reports_pure (sealed_leaf (Instruction.plain_of_comparison hkind) _)
  · rw [if_neg hrejected, he]
    refine .inr ⟨e, count, (gives_ofExcept (.error e) count).bind_error, ?_, hrule⟩
    rw [hcause]
    rfl

-- The recursion is that of the lowering. The hypothesis leaves room for the labels of the code
-- that is still to come: a piece of code takes at most as many labels as it has lines.

mutual

theorem Condition.reports_lower (success failure : Label) (c : Condition) {count : Nat}
    (h : count + c.codeLength < 2 ^ 31) : (c.lower success failure).Reports count c.violations
      (Sealed [success, failure] c.codeLength count) := by
  cases c with
  | leaf fact operator value => exact reports_leaf success failure fact operator value count
  | group all any =>
    rw [Condition.lower.eq_def, Condition.violations]
    cases all with
    | nil =>
      cases any with
      | nil => exact reports_emptyCondition count _
      | cons b any =>
        simp only [Condition.codeLength, codeLengthOf, List.length_nil, Nat.zero_add] at h ⊢
        exact reports_lowerAny success failure (b :: any) nofun h
    | cons a all =>
      cases any with
      | nil =>
        simp only [Condition.codeLength, codeLengthOf, violationsOf, List.length_nil, Nat.add_zero,
          List.append_nil] at h ⊢
        exact reports_lowerAll success failure (a :: all) nofun h
      | cons b any =>
        rw [Condition.codeLength_group] at h ⊢
        change Lowering.Reports _ count (violationsOf (a :: all) ++ violationsOf (b :: any)) _
        refine reports_cut (by omega) (reports_lowerAll ⟨count⟩ failure (a :: all) nofun ?_)
          (fun middle hmiddle => reports_lowerAny success failure (b :: any) nofun ?_) ?_
        · omega
        · omega
        · simp

theorem reports_lowerAll (success failure : Label) (cs : List Condition) {count : Nat}
    (hcs : cs ≠ []) (h : count + (codeLengthOf cs + (cs.length - 1)) < 2 ^ 31) :
    (lowerAll success failure cs).Reports count (violationsOf cs)
      (Sealed [success, failure] (codeLengthOf cs + (cs.length - 1)) count) := by
  cases cs with
  | nil => exact absurd rfl hcs
  | cons c rest =>
    rw [lowerAll, violationsOf]
    cases rest with
    | nil =>
      rw [codeLengthOf] at h ⊢
      rw [violationsOf, List.append_nil]
      exact c.reports_lower success failure h
    | cons d rest =>
      rw [codeLengthOf_cons_cons] at h ⊢
      refine reports_cut (by omega) (c.reports_lower ⟨count⟩ failure ?_)
        (fun middle hmiddle => reports_lowerAll success failure (d :: rest) nofun ?_) ?_
      · omega
      · omega
      · simp

theorem reports_lowerAny (success failure : Label) (cs : List Condition) {count : Nat}
    (hcs : cs ≠ []) (h : count + (codeLengthOf cs + (cs.length - 1)) < 2 ^ 31) :
    (lowerAny success failure cs).Reports count (violationsOf cs)
      (Sealed [success, failure] (codeLengthOf cs + (cs.length - 1)) count) := by
  cases cs with
  | nil => exact absurd rfl hcs
  | cons c rest =>
    rw [lowerAny, violationsOf]
    cases rest with
    | nil =>
      rw [codeLengthOf] at h ⊢
      rw [violationsOf, List.append_nil]
      exact c.reports_lower success failure h
    | cons d rest =>
      rw [codeLengthOf_cons_cons] at h ⊢
      refine reports_cut (by omega) (c.reports_lower success ⟨count⟩ ?_)
        (fun middle hmiddle => reports_lowerAny success failure (d :: rest) nofun ?_) ?_
      · omega
      · omega
      · simp

end

end RuleMachine
