import RuleMachine.Proofs.Machine.Intent
import RuleMachine.Proofs.Machine.Log

set_option autoImplicit false

namespace RuleMachine

/-- The fact that an instruction looks up. It is settled before the rest of the operands is decoded,
and whether or not there is such a fact. -/
def Instruction.lookup? (i : Instruction) : Option String :=
  if i.opcode.comparisonKind?.isSome then (i.read Read.text).toOption else none

namespace Machine

section

variable {σ : Type} (m : Machine) (host : Host σ)

def lookup? (r : Registers) : Option String :=
  match m.limitReached r with
  | some _ => none
  | none => m.program[r.address]?.bind Instruction.lookup?

/-- The facts that a run looks up in some number of steps, in order, the step that fails
included. -/
def lookups : Nat → Registers → σ → List String
  | 0, _, _ => []
  | n + 1, r, s =>
    (m.lookup? r).toList ++
      match m.advance host r s with
      | (.running next, s) => lookups n next s
      | _ => []

end

variable {σ : Type} {m : Machine} {host : Host σ} {facts : Facts} {i : Instruction} {n : Nat}
  {r next : Registers} {s s' : σ} {intent : Intent}

theorem lookup?_of_comparisonKind? {kind : ScalarKind}
    (h : i.opcode.comparisonKind? = some kind) :
    i.lookup? = (i.read Read.text).toOption := by
  rw [Instruction.lookup?, h]
  rfl

theorem decode_compare_of_agree (op : Opcode) (kind : ScalarKind)
    (agree : ∀ name, i.read Read.text = .ok name → facts.find? name = m.facts.find? name) :
    i.decode (({ m with facts := facts } : Machine).compare op kind) =
      i.decode (m.compare op kind) := by
  have hcompare : ({ m with facts := facts } : Machine).compare op kind
      (Cursor.start i.operands) = m.compare op kind (Cursor.start i.operands) := by
    refine Decode.bind_congr fun name c hname => ?_
    have hfind := agree name (Instruction.read_of_ofRead hname)
    dsimp only
    rw [hfind]
    cases m.facts.find? name <;> rfl
  rw [Instruction.decode, Instruction.decode, hcompare]

theorem intent_of_agree
    (agree : ∀ name, i.lookup? = some name → facts.find? name = m.facts.find? name) :
    ({ m with facts := facts } : Machine).intent i r = m.intent i r := by
  cases hkind : i.opcode.comparisonKind? with
  | none => exact intent_of_comparisonKind?_eq_none hkind facts m.settings.factPolicy
  | some kind =>
    rw [lookup?_of_comparisonKind? hkind] at agree
    rw [intent_of_comparisonKind? hkind, intent_of_comparisonKind? hkind, test, test,
      decode_compare_of_agree i.opcode kind fun name hname => agree name (by rw [hname]; rfl)]

/-- A step is the same under facts that agree on the one that it looks up. -/
theorem advance_of_agree (host : Host σ) (s : σ)
    (agree : ∀ name, m.lookup? r = some name → facts.find? name = m.facts.find? name) :
    ({ m with facts := facts } : Machine).advance host r s = m.advance host r s := by
  refine advance_congr rfl rfl fun i fetch free => intent_of_agree fun name hname => ?_
  refine agree name ?_
  rw [lookup?, free, fetch]
  exact hname

/-- A run is the same under facts that agree on what it looks up, and it looks up the same. -/
theorem advanceUpTo_of_agree
    (agree : ∀ name ∈ m.lookups host n r s, facts.find? name = m.facts.find? name) :
    ({ m with facts := facts } : Machine).advanceUpTo host n r s = m.advanceUpTo host n r s ∧
      ({ m with facts := facts } : Machine).lookups host n r s = m.lookups host n r s := by
  induction n generalizing r s with
  | zero => exact ⟨rfl, rfl⟩
  | succ n ih =>
    have hlookup : ({ m with facts := facts } : Machine).lookup? r = m.lookup? r := rfl
    rw [lookups] at agree
    have hadvance := advance_of_agree host s fun name hname =>
      agree name (List.mem_append_left _ (Option.mem_toList.2 hname))
    rw [advanceUpTo, advanceUpTo, lookups, lookups, hlookup, hadvance]
    cases ha : m.advance host r s with
    | mk progress s' =>
      cases progress with
      | running next =>
        rw [ha] at agree
        obtain ⟨hrun, hlookups⟩ := ih fun name hname => agree name (List.mem_append_right _ hname)
        exact ⟨hrun, congrArg _ hlookups⟩
      | finished report => exact ⟨rfl, rfl⟩
      | failed e => exact ⟨rfl, rfl⟩

theorem read_of_decode_compare {op : Opcode} {kind : ScalarKind} {fact : String} {holds : Bool}
    (h : i.decode (m.compare op kind) = .ok (fact, holds)) : i.read Read.text = .ok fact := by
  unfold Instruction.decode at h
  cases hc : m.compare op kind (Cursor.start i.operands) with
  | error e c =>
    rw [hc] at h
    cases h
  | ok result c =>
    rw [hc] at h
    cases h
    obtain ⟨name, c₁, hname, hrest⟩ := EStateM.bind_eq_ok.1 hc
    have hfact : name = fact := by
      cases hfind : m.facts.find? name with
      | none =>
        simp only [hfind] at hrest
        obtain ⟨_, _, _, hpure⟩ := EStateM.bind_eq_ok.1 hrest
        cases hpure
        rfl
      | some value =>
        simp only [hfind] at hrest
        obtain ⟨_, _, _, hpure⟩ := EStateM.bind_eq_ok.1 hrest
        cases hpure
        rfl
    rw [← hfact]
    exact Instruction.read_of_ofRead hname

theorem factsRead_fire (r : Registers) : r.fire.report.factsRead = r.report.factsRead := by
  unfold Registers.fire
  split <;> rfl

theorem factsRead_of_intent (h : m.intent i r = .ok intent) :
    intent.next.report.factsRead = r.report.factsRead ++ i.lookup?.toList := by
  have hother : i.opcode.comparisonKind? = none → i.lookup?.toList = [] := by
    intro hkind
    rw [Instruction.lookup?, hkind]
    rfl
  cases intends_of_intent h with
  | passes kind => rw [hother kind, List.append_nil]
  | jumps kind jump inside => rw [hother kind, List.append_nil]
  | enters opcode decoded => rw [hother (by rw [opcode]; rfl), List.append_nil]
  | leaves opcode => rw [hother (by rw [opcode]; rfl), List.append_nil]
  | tests opcode decoded =>
    rw [lookup?_of_comparisonKind? opcode, read_of_decode_compare decoded]
    rfl
  | acts opcode decoded => rw [hother (by rw [opcode]; rfl), List.append_nil, factsRead_fire]
  | defines opcode decoded => rw [hother (by rw [opcode]; rfl), List.append_nil]
  | calls opcode decoded => rw [hother (by rw [opcode]; rfl), List.append_nil, factsRead_fire]

theorem factsRead_of_advance (h : m.advance host r s = (.running next, s')) :
    next.report.factsRead = r.report.factsRead ++ (m.lookup? r).toList := by
  rw [advance_eq_iff] at h
  cases h with
  | silent fetch free intent =>
    rw [lookup?, free, fetch]
    exact factsRead_of_intent intent
  | granted fetch free intent answer =>
    rw [lookup?, free, fetch]
    exact factsRead_of_intent intent

theorem lookup?_of_finished {report : Report}
    (h : m.advance host r s = (.finished report, s')) :
    report = r.report ∧ m.lookup? r = none := by
  rw [advance_eq_iff] at h
  cases h with
  | finished fetch =>
    refine ⟨rfl, ?_⟩
    unfold lookup?
    rw [fetch]
    cases m.limitReached r <;> rfl

theorem factsRead_of_finished {report : Report}
    (h : m.advanceUpTo host n r s = (.finished report, s')) :
    report.factsRead = r.report.factsRead ++ m.lookups host n r s := by
  induction n generalizing r s with
  | zero => cases h
  | succ n ih =>
    rw [lookups]
    obtain ⟨next, s₁, first, rest⟩ | ⟨final, _⟩ := advanceUpTo_succ_eq_iff.1 h
    · rw [first, ih rest, factsRead_of_advance first, List.append_assoc]
    · obtain ⟨rfl, hlookup⟩ := lookup?_of_finished final
      rw [final, hlookup]
      exact (List.append_nil _).symm

end Machine

/-- A run depends only on the facts that it looks up. Whatever the program, the host and the
settings, if other facts agree with the first on every name that so many steps of a run look up,
then so many steps of a run on them come to the same registers, report or error, make the same calls
with the same answers, and look up the same names. These are the names in the report of a run that
comes to its end. -/
theorem Program.run_of_lookups (p : Program) (settings : RunSettings) {σ : Type} (host : Host σ)
    (state : σ) (n : Nat) {facts facts' : Facts}
    (agree : ∀ name ∈ (p.machine facts settings).lookups host.logged n {} (state, []),
      facts'.find? name = facts.find? name) :
    (p.machine facts' settings).advanceUpTo host.logged n {} (state, []) =
      (p.machine facts settings).advanceUpTo host.logged n {} (state, []) ∧
    (p.machine facts' settings).lookups host.logged n {} (state, []) =
      (p.machine facts settings).lookups host.logged n {} (state, []) ∧
    ∀ report final, (p.machine facts settings).advanceUpTo host.logged n {} (state, []) =
        (.finished report, final) →
      report.factsRead = (p.machine facts settings).lookups host.logged n {} (state, []) := by
  obtain ⟨hrun, hlookups⟩ := Machine.advanceUpTo_of_agree agree
  refine ⟨hrun, hlookups, fun report final h => ?_⟩
  have hread := Machine.factsRead_of_finished h
  rw [hread]
  rfl

def Program.twoLookups : Program := [⟨.boolEq, [1, 0, 97, 1]⟩, ⟨.boolEq, [1, 0, 98, 1]⟩]

theorem Program.run_of_lookups_missing :
    (twoLookups.machine (.ofList [("a", .bool true), ("c", .int 5)]) ⟨.strict, none⟩).advanceUpTo
      Host.counting.logged 9 {} (0, []) = (.failed ⟨.missingFact "b", some 1, none⟩, 0, []) ∧
    (twoLookups.machine (.ofList [("a", .bool true), ("c", .int 5)]) ⟨.strict, none⟩).lookups
      Host.counting.logged 9 {} (0, []) = ["a", "b"] := by
  have hlookups : (twoLookups.machine (.ofList [("a", .bool true)]) ⟨.strict, none⟩).lookups
      Host.counting.logged 9 {} (0, []) = ["a", "b"] := rfl
  have agree : ∀ name ∈ ["a", "b"],
      (NameTable.ofList [("a", Scalar.bool true), ("c", .int 5)]).find? name =
        (NameTable.ofList [("a", .bool true)]).find? name := by decide
  obtain ⟨hrun, hsame, _⟩ := run_of_lookups twoLookups ⟨.strict, none⟩ Host.counting 0 9
    (hlookups ▸ agree)
  exact ⟨hrun.trans rfl, hsame.trans hlookups⟩

end RuleMachine
