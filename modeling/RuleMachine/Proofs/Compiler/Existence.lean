import Mathlib.Data.List.Perm.Subperm
import RuleMachine.Proofs.Compiler.Acceptance
import RuleMachine.Proofs.Compiler.Alike

set_option autoImplicit false

namespace RuleMachine

def Markable (count : Nat) : Prop := ∀ l : Label, l.id < count → ∃ i, l.mark = .ok i

theorem Markable.mono {m n : Nat} (h : Markable n) (hle : m ≤ n) : Markable m :=
  fun l hl => h l (by omega)

/-- Among `n` different labels one has a number of `n - 1` or more, so that where they can all be
marked, so can every label below `n`. -/
theorem markable_of_nodup {labels : List Label} (hnodup : labels.Nodup)
    (hmark : ∀ l ∈ labels, ∃ i, l.mark = .ok i) : Markable labels.length := by
  intro l hl
  have hlarge : ∃ m ∈ labels, l.id ≤ m.id := by
    refine Classical.byContradiction fun hnone => ?_
    have hsub : labels ⊆ labelsFrom 0 l.id := by
      intro m hm
      rw [mem_labelsFrom_iff]
      have hlt : ¬ l.id ≤ m.id := fun hle => hnone ⟨m, hm, hle⟩
      omega
    have hlength := (hnodup.subperm hsub).length_le
    rw [labelsFrom, List.length_map, List.length_range'] at hlength
    omega
  obtain ⟨m, hm, hle⟩ := hlarge
  exact Label.exists_mark_of_le (hmark m hm) hle

namespace Assembly.Labelled

variable {code : Assembly} {labels : List Label}

theorem exists_mark (h : code.Labelled labels) : ∀ l ∈ labels, ∃ i, l.mark = .ok i := by
  induction h with
  | nil => exact nofun
  | jump op l more ih => exact ih
  | plain unmarked more ih => exact ih
  | mark mark more ih => exact List.forall_mem_cons.2 ⟨⟨_, mark⟩, ih⟩

theorem nodup_of_marksFrom {a : Nat} {seen marks : List (String × Nat)}
    (h : code.Labelled labels) (hmarks : marksFrom a seen code = .ok marks) :
    labels.Nodup ∧ ∀ l ∈ labels, seen.lookup l.name = none := by
  induction h generalizing a seen with
  | nil => exact ⟨.nil, nofun⟩
  | jump op l more ih => exact ih hmarks
  | @plain _ _ i unmarked more ih =>
    have hop : ¬ i.opcode = .label := by simpa [Instruction.isMark] using unmarked
    rw [marksFrom, if_neg hop] at hmarks
    exact ih hmarks
  | @mark _ labels l i mark more ih =>
    obtain ⟨hop, hread⟩ := Label.read_mark mark
    simp only [marksFrom, if_pos hop, hread] at hmarks
    split at hmarks
    · cases hmarks
    · rename_i hnew
      obtain ⟨hnodup, hseen⟩ := ih hmarks
      have hnotin : l ∉ labels := by
        intro hl
        have hlookup := hseen l hl
        rw [List.lookup_cons_self] at hlookup
        cases hlookup
      refine ⟨List.nodup_cons.2 ⟨hnotin, hnodup⟩, List.forall_mem_cons.2 ⟨?_, fun m hm => ?_⟩⟩
      · exact Option.not_isSome_iff_eq_none.1 hnew
      · have hlookup := hseen m hm
        have hne : m.name ≠ l.name := fun he => hnotin (Label.name_injective he ▸ hm)
        rwa [List.lookup_cons, beq_false_of_ne hne] at hlookup

end Assembly.Labelled

def Clause.lower (success failure : Label) : Clause → Lowering Assembly
  | .one c => c.lower success failure
  | .all cs => lowerAll success failure cs
  | .any cs => lowerAny success failure cs

namespace Lowering

open Assembly

/-- The work takes `n` labels and gives code of some length that marks each of them and jumps to
these and the labels `outer`. -/
def Takes (work : Lowering Assembly) (outer : List Label) (length count n : Nat) : Prop :=
  ∃ code, work.Gives count (.ok code) (count + n) ∧ Sealed outer length count code (count + n)

theorem gives_ofCause_ok {α : Type} {x : Except CompileCause α} {a : α} (h : x = .ok a)
    (count : Nat) : Gives (ofCause x) count (.ok a) count := by
  rw [h]
  exact gives_pure a count

theorem gives_mapM {α β : Type} {f : α → Except CompileCause β} {l : List α} {bs : List β}
    (h : l.mapM f = .ok bs) (count : Nat) :
    Gives (l.mapM fun a => ofCause (f a)) count (.ok bs) count := by
  induction l generalizing bs with
  | nil =>
    cases h
    exact gives_pure [] count
  | cons a l ih =>
    obtain ⟨b, more, hb, hmore, rfl⟩ := mapM_cons_eq_ok_iff.1 h
    rw [List.mapM_cons]
    exact (gives_ofCause_ok hb count).bind_ok ((ih hmore).bind_ok (gives_pure _ count))

theorem takes_cut {first second : Label → Lowering Assembly} {inner outer : List Label}
    {n m count k k' : Nat} (hmark : Markable (count + (k + (k' + 1))))
    (hfirst : Markable (count + 1 + k) → (first ⟨count⟩).Takes inner n (count + 1) k)
    (hsecond : Markable (count + 1 + k + k') → (second ⟨count⟩).Takes outer m (count + 1 + k) k')
    (hinner : ∀ l ∈ inner, l ∈ outer ∨ l = ⟨count⟩) :
    Takes (do
      let next ← allocate
      let front ← first next
      let mark ← ofCause next.mark
      let back ← second next
      return front ++ .instruction mark :: back) outer (n + 1 + m) count (k + (k' + 1)) := by
  have hafter : count + (k + (k' + 1)) = count + 1 + k + k' := by omega
  rw [hafter] at hmark
  obtain ⟨i, hi⟩ := hmark ⟨count⟩ (by change count < _; omega)
  obtain ⟨front, hfront, hsealed⟩ := hfirst (hmark.mono (by omega))
  obtain ⟨back, hback, hsealed'⟩ := hsecond hmark
  rw [Takes, hafter]
  exact ⟨front ++ .instruction i :: back, (gives_allocate count).bind_ok <|
    hfront.bind_ok <| (gives_ofCause_ok hi _).bind_ok <| hback.bind_ok (gives_pure _ _),
    hsealed.cut hi hsealed' hinner⟩

end Lowering

open Lowering Assembly

/-- A clause that has code can be lowered wherever as many labels as in the code can be marked. -/
theorem Lowered.takes {success failure : Label} {clause : Clause} {code : Assembly}
    (h : Lowered success failure clause code) : ∃ labels, code.Labelled labels ∧
      ∀ (count : Nat) (s f : Label), Markable (count + labels.length) →
        (clause.lower s f).Takes [s, f] clause.codeLength count labels.length := by
  induction h with
  | @leaf success failure fact operator value op i select test =>
    have hplain := Instruction.plain_of_comparison (Instruction.isSome_comparisonKind? select test)
    refine ⟨[], .plain hplain.1 (.jump _ _ (.jump _ _ .nil)), fun count s f _ => ?_⟩
    refine ⟨[.instruction i, .jump .jumpIfTrue s, .jump .jumpIfFalse f], ?_,
      sealed_leaf hplain count⟩
    rw [Clause.lower, Condition.lower, select]
    exact (gives_ofExcept (.ok op) count).bind_ok
      ((gives_ofCause_ok test count).bind_ok (gives_pure _ count))
  | allOnly first ih =>
    obtain ⟨_, _, rfl⟩ := first.exists_cons_of_all
    obtain ⟨labels, hlabels, htakes⟩ := ih
    refine ⟨labels, hlabels, fun count s f hmark => ?_⟩
    rw [Clause.lower, Condition.lower.eq_def, Clause.codeLength, Condition.codeLength]
    exact htakes count s f hmark
  | anyOnly second ih =>
    obtain ⟨labels, hlabels, htakes⟩ := ih
    refine ⟨labels, hlabels, fun count s f hmark => ?_⟩
    rw [Clause.lower, Condition.lower.eq_def, Clause.codeLength, Condition.codeLength, codeLengthOf,
      List.length_nil, Nat.zero_add, Nat.zero_add]
    exact htakes count s f hmark
  | both first mark second ihFirst ihSecond =>
    obtain ⟨_, _, rfl⟩ := first.exists_cons_of_all
    obtain ⟨labels, hlabels, hfirst⟩ := ihFirst
    obtain ⟨labels', hlabels', hsecond⟩ := ihSecond
    refine ⟨_, hlabels.append (.mark mark hlabels'), fun count s f hmark => ?_⟩
    rw [List.length_append, List.length_cons] at hmark ⊢
    rw [Clause.lower, Condition.lower.eq_def, Clause.codeLength, Condition.codeLength_group]
    exact takes_cut hmark (hfirst (count + 1) ⟨count⟩ f) (hsecond _ s f) (by simp)
  | lastOfAll only ih =>
    obtain ⟨labels, hlabels, htakes⟩ := ih
    refine ⟨labels, hlabels, fun count s f hmark => ?_⟩
    rw [Clause.lower, lowerAll]
    exact htakes count s f hmark
  | firstOfAll first mark more ihFirst ihMore =>
    obtain ⟨_, _, rfl⟩ := more.exists_cons_of_all
    obtain ⟨labels, hlabels, hfirst⟩ := ihFirst
    obtain ⟨labels', hlabels', hmore⟩ := ihMore
    refine ⟨_, hlabels.append (.mark mark hlabels'), fun count s f hmark => ?_⟩
    rw [List.length_append, List.length_cons] at hmark ⊢
    rw [Clause.lower, lowerAll, Clause.codeLength, codeLengthOf_cons_cons]
    exact takes_cut hmark (hfirst (count + 1) ⟨count⟩ f) (hmore _ s f) (by simp)
  | lastOfAny only ih =>
    obtain ⟨labels, hlabels, htakes⟩ := ih
    refine ⟨labels, hlabels, fun count s f hmark => ?_⟩
    rw [Clause.lower, lowerAny]
    exact htakes count s f hmark
  | firstOfAny first mark more ihFirst ihMore =>
    obtain ⟨_, _, rfl⟩ := more.exists_cons_of_any
    obtain ⟨labels, hlabels, hfirst⟩ := ihFirst
    obtain ⟨labels', hlabels', hmore⟩ := ihMore
    refine ⟨_, hlabels.append (.mark mark hlabels'), fun count s f hmark => ?_⟩
    rw [List.length_append, List.length_cons] at hmark ⊢
    rw [Clause.lower, lowerAny, Clause.codeLength, codeLengthOf_cons_cons]
    exact takes_cut hmark (hfirst (count + 1) s ⟨count⟩) (hmore _ s f) (by simp)

theorem Rule.Lowered.gives {r : Rule} {code : Assembly} {marks : List (String × Nat)}
    (h : r.Lowered code) (hmarks : marksFrom 0 [] code = .ok marks) :
    ∃ code' after n, r.lower.Gives 0 (.ok code') after ∧ code'.SelfContained n := by
  cases h with
  | intro starts ranks defines decides enters acts leaves =>
    have hhead := Rule.plain_head starts ranks defines
    have hactions := forall_of_mapM (fun _ _ => Action.plain) acts
    obtain ⟨labels, hlabels, htakes⟩ := decides.takes
    have hframe := hlabels.frame hhead hactions enters leaves
    have hmarkable := markable_of_nodup (hframe.nodup_of_marksFrom hmarks).1 hframe.exists_mark
    rw [List.length_append, List.length_cons, List.length_singleton, Nat.add_comm] at hmarkable
    obtain ⟨condition, hcondition, hsealed⟩ := htakes 2 ⟨0⟩ ⟨1⟩ hmarkable
    obtain ⟨bodyMark, hbody⟩ := Label.exists_mark (l := ⟨0⟩) (by decide)
    obtain ⟨skipMark, hskip⟩ := Label.exists_mark (l := ⟨1⟩) (by decide)
    refine ⟨_, 2 + labels.length, _, ?_, hsealed.frame hhead hactions hbody hskip⟩
    unfold Rule.lower
    refine (gives_ofCause_ok starts 0).bind_ok ((gives_ofCause_ok ranks 0).bind_ok ?_)
    refine (gives_mapM defines 0).bind_ok ?_
    refine (gives_allocate 0).bind_ok ((gives_allocate 1).bind_ok (hcondition.bind_ok ?_))
    refine (gives_ofCause_ok hbody _).bind_ok ((gives_mapM acts _).bind_ok ?_)
    exact (gives_ofCause_ok hskip _).bind_ok (gives_pure _ _)

theorem Rule.lowered_of_gives {r : Rule} {code : Assembly} {after : Nat}
    (h : r.lower.Gives 0 (.ok code) after) : r.Lowered code := by
  obtain ⟨_, _, hlower⟩ := h .empty LabelPool.drawn_empty
  exact Rule.lowered hlower

/-- A rule that has code which can be resolved compiles, to the same program but for its marks. -/
theorem Rule.Lowered.exists_alone {r : Rule} {code : Assembly} {p : Program}
    (h : r.Lowered code) (hp : code.resolve = .ok p) :
    ∃ q, r.alone = .ok q ∧ q.compact = p.compact := by
  obtain ⟨_, hmarks, _⟩ := Except.bind_eq_ok.1 hp
  obtain ⟨code', after, _, hgives, _, labels, hlabels, hnodup, _⟩ := h.gives hmarks
  have hnew : ∀ l ∈ labels, List.lookup l.name ([] : List (String × Nat)) = none := fun _ _ => rfl
  obtain ⟨marks', hmarks', _⟩ := hlabels.exists_marksFrom (a := 0) hnodup hnew
  obtain ⟨q, hq, hcompact⟩ := h.compact_eq (Rule.lowered_of_gives hgives) hp hmarks'
  have hassemble : r.assemble.Gives 0 (.ok q) after := hgives.bind_ok (gives_ofCause_ok hq after)
  exact ⟨q, Rule.alone_of_gives hassemble, hcompact⟩

end RuleMachine
