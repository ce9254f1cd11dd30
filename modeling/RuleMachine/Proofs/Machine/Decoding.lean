import RuleMachine.Proofs.Codec.Contents
import RuleMachine.Proofs.Machine.Causes
import RuleMachine.Proofs.Machine.Ends

set_option autoImplicit false

namespace RuleMachine

open RawValue

namespace Machine

variable {m : Machine} {σ : Type} {host : Host σ} {n : Nat} {r : Registers} {s s' : σ}
  {e : RuntimeError}

/-- A run fails at its limit, by its host or by an instruction of the program. -/
theorem Ends.fails (h : m.Ends host n r s (.error e) s') :
    (∃ limit, e.cause = .stepLimitExceeded limit) ∨ (∃ refusal, e.cause = .host refusal) ∨
      ∃ r₁ i, m.program[r₁.address]? = some i ∧ e.address = some r₁.address ∧
        m.Fails i r₁ e.cause := by
  obtain ⟨r₁, s₁, progress, _, hlast, is⟩ := ends_iff_steps.1 h
  rw [advance_eq_iff] at hlast
  cases hlast with
  | finished fetch => cases is
  | exhausted fetch limited =>
    cases is
    exact .inl ⟨_, rfl⟩
  | stuck fetch free intent =>
    cases is
    exact .inr (.inr ⟨r₁, _, fetch, rfl, fails_of_intent intent⟩)
  | silent fetch free intent => cases is
  | granted fetch free intent answer => cases is
  | refused fetch free intent answer =>
    cases is
    exact .inr (.inl ⟨_, rfl⟩)

end Machine

namespace Program

/-- Passing over operands agrees with reading them for a listing: where they can be read they can be
passed over to the same place, and where they can be passed over a listing reads to the same place
or fails for what a value holds. So of a program that was loaded a listing marks just the
instructions with an illegible value, and no run of it meets an end of operands. -/
theorem operands_agree :
    (∀ (op : Opcode) (index : Nat) (c c' : Cursor) (text : String),
      op.operandText index c = .ok text c' → op.skipOperands c = .ok () c') ∧
    (∀ (op : Opcode) (index : Nat) (c c' : Cursor), op.skipOperands c = .ok () c' →
      (∃ text, op.operandText index c = .ok text c') ∨
        ∃ e c₁, op.operandText index c = .error e c₁ ∧ e.OfContents) ∧
    (∀ (b : Bytes) (p : Program), load b = .ok p →
      (∀ (a : Nat) (i : Instruction), p[a]? = some i → (∃ values, i.Holds values) ∧
        ∀ values, i.Holds values → (i.Malformed a ↔ ∃ v ∈ values, ¬ v.Legible)) ∧
      (∀ (facts : Facts) (settings : RunSettings) {σ : Type} (host : Host σ) (state : σ) (n : Nat)
        (e : RuntimeError) (final : σ),
        (p.machine facts settings).Ends host n {} state (.error e) final →
        ∀ offset needed available,
          e.cause ≠ .decode (.unexpectedEnd offset needed available))) := by
  refine ⟨fun op index c c' text h => Opcode.skipOperands_of_operandText h,
    fun op index c c' h => Opcode.operandText_of_skipOperands h index, ?_⟩
  intro b p hload
  obtain ⟨hexact, _⟩ := load_eq_ok_iff.1 hload
  constructor
  · intro a i hi
    exact ⟨(hexact i (List.mem_of_getElem? hi)).exists_holds, fun values h => h.malformed_iff a⟩
  · intro facts settings σ host state n e final h offset needed available hcause
    obtain ⟨limit, hlimit⟩ | ⟨refusal, hhost⟩ | ⟨r, i, hi, _, hfails⟩ := h.fails
    · rw [hcause] at hlimit
      cases hlimit
    · rw [hcause] at hhost
      cases hhost
    · rw [machine_getElem?] at hi
      rw [hcause] at hfails
      cases hfails with
      | unreadable marked => exact (hexact i (List.mem_of_getElem? hi)).ofContents marked
      | overFact refused => exact refused.2

def illegible : Program := [⟨.boolEq, [1, 0, 97, 2]⟩]

theorem operands_agree_illegible :
    load illegible.bytes = .ok illegible ∧
    Opcode.boolEq.skipOperands (Cursor.start [1, 0, 97, 1]) = .ok () ⟨[], 4⟩ ∧
    (∃ e c₁, Opcode.boolEq.operandText 0 (Cursor.start [1, 0, 97, 2]) = .error e c₁ ∧
      e.OfContents) ∧
    Instruction.Malformed ⟨.boolEq, [1, 0, 97, 2]⟩ 0 ∧
    ∃ e, (illegible.machine (NameTable.empty.insert "a" (.bool true)) {}).Ends Host.counting 0 {} 0
        (.error e) 0 ∧
      ∀ offset needed available, e.cause ≠ .decode (.unexpectedEnd offset needed available) := by
  have hload : load illegible.bytes = .ok illegible := by cbv
  have hread : Opcode.boolEq.operandText 0 (Cursor.start [1, 0, 97, 1]) = .ok " a true" ⟨[], 4⟩ :=
    rfl
  have hskip : Opcode.boolEq.skipOperands (Cursor.start [1, 0, 97, 2]) = .ok () ⟨[], 4⟩ := rfl
  have hholds : Instruction.Holds ⟨.boolEq, [1, 0, 97, 2]⟩ [.text [97], .bool 2] :=
    ⟨.text (by decide) (.bool 2 .nil), rfl⟩
  have hmarked := ((operands_agree.2.2 _ _ hload).1 0 _ rfl).2 _ hholds
  have hlast : (illegible.machine (NameTable.empty.insert "a" (.bool true)) {}).advance
      Host.counting {} 0 = (.failed ⟨.decode (.invalidBool 2), some 0, none⟩, 0) := rfl
  have hends := Machine.Ends.last hlast rfl
  refine ⟨hload, operands_agree.1 _ _ _ _ _ hread,
    (operands_agree.2.1 _ 0 _ _ hskip).resolve_left ?_, hmarked.2 ?_,
    _, hends, (operands_agree.2.2 _ _ hload).2 _ _ _ _ _ _ _ hends⟩
  · intro h
    obtain ⟨text, htext⟩ := h
    cases htext
  · exact ⟨.bool 2, by decide, by unfold Legible; decide⟩

end Program

theorem Instruction.Exact.holds_of_negative {i : Instruction} (h : i.Exact)
    (hop : i.opcode = .scriptDef) {script : String} {count : Int32}
    (hhead : i.read Read.scriptHead = .ok (script, count)) (below : count.toInt < 0) :
    ∃ body, i.Holds [.text (textBytes script), .word count.toUInt32, .text body] := by
  obtain ⟨_, hhead⟩ := Instruction.read_eq_ok_iff.1 hhead
  obtain ⟨_, c₁, hname, hhead⟩ := EStateM.bind_eq_ok.1 hhead
  obtain ⟨_, c₂, hcount, hpure⟩ := EStateM.bind_eq_ok.1 hhead
  cases hpure
  obtain ⟨c', hskip, hend⟩ := h
  rw [hop] at hskip
  -- Passing over the operands goes through the same places.
  obtain ⟨_, d₁, hskipName, hskip⟩ := EStateM.bind_eq_ok.1 hskip
  cases (Read.skipText_of_text hname).symm.trans hskipName
  obtain ⟨_, d₂, hskipParams, hskip⟩ := EStateM.bind_eq_ok.1 hskip
  obtain ⟨_, d₃, hskipCount, hskipParams⟩ := EStateM.bind_eq_ok.1 hskipParams
  cases hcount.symm.trans hskipCount
  rw [Int.toNat_of_nonpos (Int.le_of_lt below)] at hskipParams
  cases hskipParams
  obtain ⟨_, _, hskipBody, hpure⟩ := EStateM.bind_eq_ok.1 hskip
  cases hpure
  obtain ⟨fits, hpassName⟩ := Read.passes_of_text hname
  obtain ⟨body, fitsBody, hpassBody⟩ := Read.passes_of_skipText hskipBody
  have hpass := hpassName.trans ((Read.passes_of_int hcount).trans hpassBody)
  refine ⟨body, ?_, ?_⟩
  · rw [hop]
    exact .text fits (.noTexts (Int.le_of_lt below) (.text fitsBody .nil))
  · have hoperands := hpass.1
    rw [hend, List.append_nil] at hoperands
    rw [show i.operands = _ from hoperands]
    simp [allBytes, RawValue.bytes, Operand.int]

namespace Program

/-- No run of a loaded program with a clean listing fails over operands that it cannot decode, and
none fails for a count but at a definition whose count is negative. -/
theorem run_of_clean_listing {b : Bytes} {p : Program} (h : load b = .ok p)
    (clean : ∀ a i, p[a]? = some i → ¬ Instruction.Malformed i a) (facts : Facts)
    (settings : RunSettings) {σ : Type} (host : Host σ) (state : σ) {n : Nat} {e : RuntimeError}
    {final : σ} (hends : (p.machine facts settings).Ends host n {} state (.error e) final) :
    (∀ error, e.cause ≠ .decode error) ∧
    (∀ script count, e.cause = .invalidCount script count → count.toInt < 0 ∧
      ∃ a i body, e.address = some a ∧ p[a]? = some i ∧ i.opcode = .scriptDef ∧
        i.Holds [.text (textBytes script), .word count.toUInt32, .text body]) := by
  obtain ⟨hexact, _⟩ := load_eq_ok_iff.1 h
  obtain ⟨limit, hlimit⟩ | ⟨refusal, hhost⟩ | ⟨r, i, hi, haddress, hfails⟩ := hends.fails
  · rw [hlimit]
    exact ⟨nofun, nofun⟩
  · rw [hhost]
    exact ⟨nofun, nofun⟩
  · rw [machine_getElem?] at hi
    constructor
    · intro error hcause
      rw [hcause] at hfails
      cases hfails with
      | unreadable marked => exact clean r.address i hi ⟨error, marked⟩
      | overFact refused => exact refused.2
    · intro script count hcause
      rw [hcause] at hfails
      cases hfails with
      | negative opcode head below =>
        obtain ⟨body, hholds⟩ :=
          (hexact i (List.mem_of_getElem? hi)).holds_of_negative opcode head below
        exact ⟨below, r.address, i, body, haddress, hi, opcode, hholds⟩
      | overFact refused => exact refused.2.elim

def negativeCount : Program := [⟨.scriptDef, [1, 0, 110, 255, 255, 255, 255, 1, 0, 98]⟩]

theorem negativeCount_clean (a : Nat) (i : Instruction) (h : negativeCount[a]? = some i) :
    ¬ i.Malformed a := by
  have hholds : Instruction.Holds ⟨.scriptDef, [1, 0, 110, 255, 255, 255, 255, 1, 0, 98]⟩
      [.text [110], .word (-1 : Int32).toUInt32, .text [98]] :=
    ⟨.text (by decide) (.noTexts (by decide) (.text (by decide) .nil)), rfl⟩
  cases List.mem_singleton.1 (List.mem_of_getElem? h)
  rw [hholds.malformed_iff]
  intro illegible
  obtain ⟨v, hv, hbad⟩ := illegible
  simp only [List.mem_cons, List.not_mem_nil, or_false] at hv
  obtain rfl | rfl | rfl := hv
  · exact hbad ⟨"n", rfl⟩
  · exact hbad trivial
  · exact hbad ⟨"b", rfl⟩

/-- A program that loads and has a clean listing need not be one whose operands a run accepts: a
listing shows a negative count of parameters as none, and a run refuses it. -/
theorem clean_listing_refused :
    load negativeCount.bytes = .ok negativeCount ∧
    (∀ a i, negativeCount[a]? = some i → ¬ Instruction.Malformed i a) ∧
    ((negativeCount.machine .empty {}).run (Host.recording none) {}).1 =
      .failed ⟨.invalidCount "n" (-1), some 0, none⟩ := by
  refine ⟨by cbv, negativeCount_clean, rfl⟩

theorem run_of_clean_listing_negativeCount : load negativeCount.bytes = .ok negativeCount ∧
    (negativeCount.machine .empty {}).Ends Host.counting 0 {} 0
      (.error ⟨.invalidCount "n" (-1), some 0, none⟩) 0 ∧
    ∃ a i body, some 0 = some a ∧ negativeCount[a]? = some i ∧ i.opcode = .scriptDef ∧
      i.Holds [.text (textBytes "n"), .word (-1 : Int32).toUInt32, .text body] := by
  have hload : load negativeCount.bytes = .ok negativeCount := by cbv
  have hlast : (negativeCount.machine .empty {}).advance Host.counting {} 0 =
      (.failed ⟨.invalidCount "n" (-1), some 0, none⟩, 0) := rfl
  have hends := Machine.Ends.last hlast rfl
  exact ⟨hload, hends,
    ((run_of_clean_listing hload negativeCount_clean _ _ _ _ hends).2 "n" (-1) rfl).2⟩

end Program

end RuleMachine
