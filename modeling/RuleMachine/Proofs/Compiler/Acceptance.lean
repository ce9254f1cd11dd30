import RuleMachine.Proofs.Compiler.Concat
import RuleMachine.Proofs.Compiler.Reports

set_option autoImplicit false

namespace RuleMachine

open Lowering Assembly

def Rule.codeLength (r : Rule) : Nat :=
  2 + r.scripts.entries.length + r.conditions.codeLength + 1 + r.actions.length + 2

/-- Jumps can be as long as the code, and the parameters of scripts can be counted. -/
structure Rule.Small (r : Rule) : Prop where
  code : r.codeLength < 2 ^ 31
  params : ∀ entry ∈ r.scripts.entries, entry.2.params.length < 2 ^ 31

/-- Code of some length that marks labels, each of them once, and jumps only to these. -/
def Assembly.SelfContained (n : Nat) (code : Assembly) : Prop :=
  code.length = n ∧ ∃ labels : List Label, code.Labelled labels ∧ labels.Nodup ∧
    ∀ op l, .jump op l ∈ code → l ∈ labels

theorem Assembly.Labelled.frame {head actions : List Instruction} {condition : Assembly}
    {labels : List Label} {body skip : Label} {bodyMark skipMark : Instruction}
    (h : condition.Labelled labels) (hhead : ∀ i ∈ head, i.Plain)
    (hactions : ∀ i ∈ actions, i.Plain) (enters : body.mark = .ok bodyMark)
    (leaves : skip.mark = .ok skipMark) :
    Labelled (head.map .instruction ++ condition
      ++ (bodyMark :: actions ++ [skipMark, Instruction.ruleEnd]).map .instruction)
      (labels ++ [body, skip]) := by
  have hstart := (labelled_instructions fun i hi => (hhead i hi).1).append h
  have hend : Labelled ((actions ++ [skipMark, Instruction.ruleEnd]).map .instruction) [skip] := by
    rw [List.map_append]
    exact (labelled_instructions fun i hi => (hactions i hi).1).append
      (.mark leaves (.plain rfl .nil))
  exact hstart.append (.mark enters hend)

theorem Assembly.Sealed.frame {head actions : List Instruction} {condition : Assembly}
    {bodyMark skipMark : Instruction} {n after : Nat}
    (h : Sealed [⟨0⟩, ⟨1⟩] n 2 condition after) (hhead : ∀ i ∈ head, i.Plain)
    (hactions : ∀ i ∈ actions, i.Plain) (enters : Label.mark ⟨0⟩ = .ok bodyMark)
    (leaves : Label.mark ⟨1⟩ = .ok skipMark) :
    SelfContained (head.length + n + 1 + actions.length + 2) (head.map .instruction ++ condition
      ++ (bodyMark :: actions ++ [skipMark, Instruction.ruleEnd]).map .instruction) := by
  obtain ⟨labels, hlabels, rfl, hperm⟩ := h.marks
  have hmem : ∀ l, l ∈ labels ↔ 2 ≤ l.id ∧ l.id < 2 + labels.length := by
    intro l
    rw [hperm.mem_iff, mem_labelsFrom_iff]
  have hframe := hlabels.frame hhead hactions enters leaves
  refine ⟨?_, _, hframe, ?_, fun op l hl => ?_⟩
  · simp only [List.length_append, List.length_map, List.length_cons, List.length_nil, h.length]
    omega
  · refine List.nodup_append.2 ⟨hperm.nodup_iff.2 (nodup_labelsFrom ..), by decide, ?_⟩
    intro l hl m hm he
    obtain ⟨hlower, _⟩ := (hmem l).1 hl
    simp only [List.mem_cons, List.not_mem_nil, or_false] at hm
    obtain rfl | rfl := hm <;> simp [he] at hlower
  · have hcondition : .jump op l ∈ condition := by simpa using hl
    obtain hl | hl := h.jumps op l hcondition
    · exact List.mem_append_right _ hl
    · exact List.mem_append_left _ ((hmem l).2 hl)

theorem Rule.reports_lower {r : Rule} (h : r.Small) : r.lower.Reports 0 r.violations
    fun code _ => code.SelfContained r.codeLength := by
  unfold Rule.lower Rule.violations
  refine (reports_ofCause (Instruction.reports_ruleStart r.name) 0).bind fun start _ h₁ => ?_
  obtain ⟨hstart, rfl⟩ := h₁
  refine (reports_ofCause (Instruction.reports_priority r.priority) 0).bind fun priority _ h₂ => ?_
  obtain ⟨hpriority, rfl⟩ := h₂
  refine (reports_mapM (fun entry hentry =>
    Instruction.reports_scriptDefinition (h.params entry hentry)) 0).bind fun scripts _ h₃ => ?_
  obtain ⟨hscripts, rfl⟩ := h₃
  refine (reports_allocate 0).bind_right fun body _ h₄ => ?_
  obtain ⟨rfl, rfl⟩ := h₄
  refine (reports_allocate 1).bind_right fun skip _ h₅ => ?_
  obtain ⟨rfl, rfl⟩ := h₅
  have hcode := h.code
  unfold Rule.codeLength at hcode ⊢
  refine (r.conditions.reports_lower ⟨0⟩ ⟨1⟩ (by omega)).bind fun condition after hcondition => ?_
  refine (reports_mark (by decide) after).bind_right fun bodyMark _ h₆ => ?_
  obtain ⟨henters, rfl⟩ := h₆
  refine (reports_mapM (fun a _ => a.reports_instruction) _).bind_left fun actions _ h₇ => ?_
  obtain ⟨hactions, rfl⟩ := h₇
  refine (reports_mark (by decide) _).bind_right fun skipMark _ h₈ => ?_
  obtain ⟨hleaves, rfl⟩ := h₈
  have hframe := hcondition.frame (plain_head hstart hpriority hscripts)
    (forall_of_mapM (fun _ _ => Action.plain) hactions) henters hleaves
  have hlength : (start :: priority :: scripts).length + r.conditions.codeLength + 1 +
      actions.length + 2 = 2 + r.scripts.entries.length + r.conditions.codeLength + 1 +
        r.actions.length + 2 := by
    rw [List.length_cons, List.length_cons, length_of_mapM hscripts, length_of_mapM hactions]
    omega
  rw [hlength] at hframe
  exact reports_pure hframe

theorem Rule.alone_of_gives {r : Rule} {answer : Except CompileError Program} {after : Nat}
    (h : r.assemble.Gives 0 answer after) : r.alone = answer.mapError (·.inRule r.name) := by
  obtain ⟨next, _, hassemble⟩ := h .empty LabelPool.drawn_empty
  have hfresh : r.compile.fresh = answer := by
    rw [Lowering.fresh, Rule.compile, hassemble]
    cases answer <;> rfl
  rw [Rule.alone, hfresh]

/-- A rule compiles if it is encodable, to as many instructions as its code is long, and else
fails with the first of its violations. -/
theorem Rule.alone_cases {r : Rule} (h : r.Small) :
    (r.Encodable ∧ ∃ p, r.alone = .ok p ∧ p.length = r.codeLength) ∨
      (¬ r.Encodable ∧ ∃ e, r.alone = .error e ∧ e.rule = some r.name ∧
        r.violations.head? = some e.cause) := by
  have hassemble : r.assemble.Reports 0 r.violations fun p _ => p.length = r.codeLength := by
    refine (Rule.reports_lower h).bind_left fun code middle hcode => ?_
    obtain ⟨hlength, labels, hlabels, hnodup, hjumps⟩ := hcode
    obtain ⟨p, hp⟩ := hlabels.exists_resolve hnodup hjumps (hlength ▸ h.code)
    have hplength := (placed_of_resolve hp [] []).1
    rw [hp]
    exact reports_pure (hplength.trans hlength)
  obtain ⟨hnone, p, after, hgives, hlength⟩ | ⟨e, after, hgives, hhead, hrule⟩ := hassemble
  · exact .inl ⟨Rule.violations_eq_nil_iff.1 hnone, p, Rule.alone_of_gives hgives, hlength⟩
  · refine .inr ⟨fun hencodable => ?_, e.inRule r.name, Rule.alone_of_gives hgives, ?_, hhead⟩
    · rw [Rule.violations_eq_nil_iff.2 hencodable] at hhead
      cases hhead
    · rw [CompileError.inRule, hrule]
      rfl

theorem Ruleset.alone_cases {rules : Ruleset} (h : ∀ r ∈ rules, r.Small) :
    ((∀ r ∈ rules, r.Encodable) ∧ ∃ p, (rules.mapM Rule.alone).map List.flatten = .ok p) ∨
      ∃ e front r back, (rules.mapM Rule.alone).map List.flatten = .error e ∧
        rules = front ++ r :: back ∧ (∀ q ∈ front, q.Encodable) ∧ ¬ r.Encodable ∧
        e.rule = some r.name ∧ r.violations.head? = some e.cause := by
  induction rules with
  | nil => exact .inl ⟨nofun, [], rfl⟩
  | cons r rest ih =>
    obtain ⟨hr, hrest⟩ := List.forall_mem_cons.1 h
    rw [Except.flatten_mapM_cons]
    obtain ⟨hencodable, first, hfirst, _⟩ | ⟨hbad, e, he, hrule, hhead⟩ := Rule.alone_cases hr
    · rw [hfirst]
      obtain ⟨hall, more, hmore⟩ | ⟨e, front, q, back, he, rfl, hfront, hq⟩ := ih hrest
      · rw [hmore]
        exact .inl ⟨List.forall_mem_cons.2 ⟨hencodable, hall⟩, _, rfl⟩
      · rw [he]
        exact .inr ⟨e, r :: front, q, back, rfl, rfl,
          List.forall_mem_cons.2 ⟨hencodable, hfront⟩, hq⟩
    · rw [he]
      exact .inr ⟨e, [], r, rest, rfl, rfl, nofun, hbad, hrule, hhead⟩

/-- A compiler accepts rules if and only if each of them is encodable. Where it fails, the error
names the first rule in the order of emission that is not, and its cause is what compiling comes to
first in that rule. -/
theorem Compiler.compile_accepts {settings : CompilerSettings} {c : Compiler}
    (h : Reached settings c) {rules order : Ruleset} (hsmall : ∀ r ∈ rules, r.Small)
    (horder : rules.InOrder settings order) :
    ((∃ p, (c.compile rules).1 = .ok p) ↔ ∀ r ∈ rules, r.Encodable) ∧
    ∀ e, (c.compile rules).1 = .error e → ∃ front r back, order = front ++ r :: back ∧
      (∀ q ∈ front, q.Encodable) ∧ ¬ r.Encodable ∧
      e.rule = some r.name ∧ r.violations.head? = some e.cause := by
  obtain rfl := Ruleset.inOrder_iff.1 horder
  have hmem : ∀ r, r ∈ rules.emissionOrder settings ↔ r ∈ rules := by
    intro r
    unfold Ruleset.emissionOrder
    split
    · exact (List.mergeSort_perm rules _).mem_iff
    · exact Iff.rfl
  rw [h.compile_eq, Ruleset.program_eq]
  obtain ⟨hall, full, hfull⟩ | ⟨e, front, r, back, he, heq, hfront, hbad, hrest⟩ :=
    Ruleset.alone_cases fun r hr => hsmall r ((hmem r).1 hr)
  · obtain ⟨p, hp⟩ := settings.exists_finish (Ruleset.joined_of_alone hfull).forward
    have hcompile : ((rules.emissionOrder settings).mapM Rule.alone).map List.flatten >>=
        settings.finish = .ok p := by
      rw [hfull]
      exact hp
    rw [hcompile]
    exact ⟨⟨fun _ r hr => hall r ((hmem r).2 hr), fun _ => ⟨p, rfl⟩⟩, nofun⟩
  · rw [he]
    refine ⟨⟨nofun, fun hall => absurd (hall r ((hmem r).1 ?_)) hbad⟩, fun e' he' => ?_⟩
    · rw [heq]
      exact List.mem_append_right _ List.mem_cons_self
    · cases he'
      exact ⟨front, r, back, heq, hfront, hbad, hrest⟩

/-- A rule that compiles and one that does not, with more than one violation. -/
def Ruleset.rejected : Ruleset :=
  sample ++ [⟨"s", 0, .group [] [.leaf "a" "GT" (.bool true), .group [] []], [], .empty⟩]

def Rule.showing (s : String) : Rule :=
  ⟨"t", 0, .group [.leaf "x" "EQ" (.bool true)] [], [⟨"log", "out", .string s⟩], .empty⟩

theorem Rule.small_showing (s : String) : (showing s).Small where
  code := show 9 < 2 ^ 31 by decide
  params := nofun

theorem Rule.violations_showing (s : String) : (showing s).violations = textViolations s := by
  show [] ++ ([] ++ ([] ++ ([] ++ (([] ++ ([] ++ textViolations s)) ++ [])))) = textViolations s
  simp only [List.nil_append, List.append_nil]

theorem Compiler.compile_accepts_rejected : (∀ r ∈ Ruleset.sample, r.Encodable) ∧
    (∃ e front r back, (Ruleset.program ⟨false, false⟩ .rejected) = .error e ∧
      Ruleset.rejected = front ++ r :: back ∧ e.rule = some r.name ∧
      r.violations.head? = some e.cause ∧
      e.cause = .unsupportedOperator "GT" .bool ∧ e.rule = some "s") ∧
    ∃ e, e.cause = .encoding (.textTooLong 65536) ∧ e.rule = some "t" ∧
      Ruleset.program ⟨false, false⟩ [.showing (.ofList (.replicate 65536 'a'))] = .error e := by
  have hsmall : ∀ r ∈ Ruleset.rejected, r.Small := by
    refine List.forall_mem_cons.2 ⟨⟨by decide, by decide⟩, List.forall_mem_cons.2
      ⟨⟨by decide, by decide⟩, List.forall_mem_nil _⟩⟩
  have hsample : ∀ r ∈ Ruleset.sample, r.Small := fun r hr =>
    hsmall r (List.mem_append_left _ hr)
  obtain ⟨e, he, hcause, hrule⟩ : ∃ e, Ruleset.program ⟨false, false⟩ .rejected = .error e ∧
      e.cause = .unsupportedOperator "GT" .bool ∧ e.rule = some "s" := ⟨_, rfl, rfl, rfl⟩
  have hnew : Reached ⟨false, false⟩ ⟨⟨false, false⟩, .empty⟩ := .new
  have horder : Ruleset.InOrder ⟨false, false⟩ .sample .sample := rfl
  have horder' : Ruleset.InOrder ⟨false, false⟩ .rejected .rejected := rfl
  have hlong (s : String) (hs : s.utf8ByteSize = 65536) :
      ∃ e, e.cause = .encoding (.textTooLong 65536) ∧ e.rule = some "t" ∧
        Ruleset.program ⟨false, false⟩ [.showing s] = .error e := by
    have hviolations : (Rule.showing s).violations = [.encoding (.textTooLong 65536)] := by
      rw [Rule.violations_showing, textViolations, if_neg (by simp [Fits, hs]), hs]
    obtain ⟨hiff, herror⟩ := compile_accepts hnew
      (List.forall_mem_singleton.2 (Rule.small_showing s))
      (rfl : Ruleset.InOrder ⟨false, false⟩ [.showing s] [.showing s])
    cases hprogram : Ruleset.program ⟨false, false⟩ [.showing s] with
    | ok p =>
      have hencodable := hiff.1 ⟨p, hprogram⟩ _ List.mem_cons_self
      rw [Rule.violations_eq_nil_iff.2 hencodable] at hviolations
      cases hviolations
    | error e =>
      obtain ⟨front, r, back, heq, _, _, hname, hhead⟩ := herror e hprogram
      obtain ⟨_, h⟩ | ⟨_, h⟩ := List.singleton_eq_append_iff.1 heq
      all_goals cases h
      rw [hviolations] at hhead
      exact ⟨e, (Option.some.inj hhead).symm, hname, rfl⟩
  refine ⟨(compile_accepts hnew hsample horder).1.1 ⟨_, Ruleset.compile_sample⟩, ?_,
    hlong _ (utf8ByteSize_replicate 65536)⟩
  obtain ⟨front, r, back, heq, _, _, hname, hhead⟩ :=
    (compile_accepts hnew hsmall horder').2 e he
  exact ⟨e, front, r, back, he, heq, hname, hhead, hcause, hrule⟩

end RuleMachine
