import RuleMachine.Proofs.Compiler.Placed
import RuleMachine.Proofs.Compiler.Stored
import RuleMachine.Proofs.Machine.Intent

set_option autoImplicit false

namespace RuleMachine

/-- A jump at an address leads to a later one, at most to the end of a program of some length. -/
def Instruction.ForwardAt (length a : Nat) (i : Instruction) : Prop :=
  i.opcode.isJump = true → ∃ (offset : Int32) (target : Nat), i.jumpOffset? = some offset ∧
    (target : Int) = a + 1 + offset.toInt ∧ a < target ∧ target ≤ length

def Program.Forward (p : Program) : Prop :=
  ∀ (a : Nat) (i : Instruction), p[a]? = some i → i.ForwardAt p.length a

def Program.EntersAt (p : Program) (a : Nat) : Prop :=
  (∃ i, p[a]? = some i ∧ i.opcode = .label) ∧
    ∃ i, p[a + 1]? = some i ∧ i.opcode.comparisonKind?.isSome = true

namespace Assembly

/-- Every label that the code names has its place behind the jump that names it, and jumps may land
there. -/
def Leads (place : String → Option Nat) (lands : Nat → Prop) : Nat → Assembly → Prop
  | _, [] => True
  | a, .instruction _ :: rest => Leads place lands (a + 1) rest
  | a, .jump _ l :: rest =>
    (∃ target, place l.name = some target ∧ a < target ∧ lands target) ∧
      Leads place lands (a + 1) rest

variable {place : String → Option Nat} {lands : Nat → Prop} {p : Program} {a b : Nat}
  {code front back : Assembly}

theorem leads_append : Leads place lands a (front ++ back) ↔
    Leads place lands a front ∧ Leads place lands (a + front.length) back := by
  induction front generalizing a with
  | nil => simp [Leads]
  | cons line rest ih =>
    have hlength : a + (line :: rest).length = a + 1 + rest.length := by
      rw [List.length_cons]
      omega
    rw [hlength]
    cases line <;> simp only [List.cons_append, Leads, ih, and_assoc]

theorem leads_instructions (is : List Instruction) :
    Leads place lands a (is.map .instruction) := by
  induction is generalizing a with
  | nil => trivial
  | cons i rest ih => exact ih

theorem leads_frame {head tail : List Instruction} (h : Leads place lands (a + head.length) code) :
    Leads place lands a (head.map .instruction ++ code ++ tail.map .instruction) := by
  refine leads_append.2 ⟨leads_append.2 ⟨leads_instructions _, ?_⟩, leads_instructions _⟩
  rwa [List.length_map]

theorem Leads.target (hc : Leads place lands a code) (hp : Placed place p a code)
    (he : code.Emitted) (ha : a ≤ b) (hb : b < a + code.length) {i : Instruction}
    (hi : p[b]? = some i) (hjump : i.opcode.isJump = true) :
    ∃ (offset : Int32) (target : Nat), i.jumpOffset? = some offset ∧
      (target : Int) = b + 1 + offset.toInt ∧ b < target ∧ lands target := by
  induction code generalizing a with
  | nil =>
    rw [List.length_nil] at hb
    omega
  | cons line rest ih =>
    obtain ⟨hline, hrest⟩ := List.forall_mem_cons.1 he
    rw [List.length_cons] at hb
    by_cases hab : a = b
    · cases line with
      | instruction j =>
        obtain ⟨hj, _⟩ := hp
        rw [hab, hi] at hj
        cases hj
        rw [Instruction.Built.isJump hline] at hjump
        cases hjump
      | jump op l =>
        obtain ⟨⟨distance, target, hj, hplace, hdistance⟩, _⟩ := hp
        obtain ⟨⟨target', hplace', hlt, hlands⟩, _⟩ := hc
        rw [hplace] at hplace'
        cases hplace'
        rw [hab, hi] at hj
        cases hj
        exact ⟨distance, target, Instruction.jumpOffset?_jump hline distance, by omega, by omega,
          hlands⟩
    · cases line with
      | instruction j => exact ih hc hp.2.2 hrest (by omega) (by omega)
      | jump op l => exact ih hc.2 hp.2 hrest (by omega) (by omega)

end Assembly

theorem Lowered.first {success failure : Label} {clause : Clause} {code : Assembly}
    (h : Lowered success failure clause code) : ∃ i rest, code = .instruction i :: rest ∧
      i.opcode.comparisonKind?.isSome = true := by
  induction h with
  | leaf select test => exact ⟨_, _, rfl, Instruction.isSome_comparisonKind? select test⟩
  | allOnly first ih => exact ih
  | anyOnly second ih => exact ih
  | both first mark second ih _ =>
    obtain ⟨i, rest, rfl, hi⟩ := ih
    exact ⟨i, _, rfl, hi⟩
  | lastOfAll only ih => exact ih
  | firstOfAll first mark more ih _ =>
    obtain ⟨i, rest, rfl, hi⟩ := ih
    exact ⟨i, _, rfl, hi⟩
  | lastOfAny only ih => exact ih
  | firstOfAny first mark more ih _ =>
    obtain ⟨i, rest, rfl, hi⟩ := ih
    exact ⟨i, _, rfl, hi⟩

theorem Lowered.entersAt {success failure next : Label} {clause : Clause} {code : Assembly}
    {place : String → Option Nat} {p : Program} {m : Nat} (h : Lowered success failure clause code)
    (hm : Assembly.MarkAt place p next m) (hp : code.Placed place p (m + 1)) : p.EntersAt m := by
  obtain ⟨i, rest, rfl, hi⟩ := h.first
  exact ⟨hm.1, i, hp.1, hi⟩

/-- Where jumps may land at the marks of both labels and at the marks in the code that stand in
front of comparisons, the code of a clause leads there when both labels are marked behind it. -/
theorem Lowered.leads {success failure : Label} {clause : Clause} {code : Assembly}
    {place : String → Option Nat} {lands : Nat → Prop} {p : Program} {a s f : Nat}
    (h : Lowered success failure clause code) (hp : code.Placed place p a)
    (hs : Assembly.MarkAt place p success s) (hf : Assembly.MarkAt place p failure f)
    (has : a + code.length ≤ s) (haf : a + code.length ≤ f) (hls : lands s) (hlf : lands f)
    (hl : ∀ m, m < a + code.length → p.EntersAt m → lands m) : code.Leads place lands a := by
  induction h generalizing a s f with
  | leaf select test =>
    simp only [List.length_cons, List.length_nil] at has haf
    exact ⟨⟨s, hs.2, by omega, hls⟩, ⟨f, hf.2, by omega, hlf⟩, trivial⟩
  | allOnly first ih => exact ih hp hs hf has haf hls hlf hl
  | anyOnly second ih => exact ih hp hs hf has haf hls hlf hl
  | both first mark second ihFirst ihSecond =>
    obtain ⟨hfront, hmark, hback⟩ := hp.cut mark
    simp only [List.length_append, List.length_cons] at has haf hl
    have hlm := hl _ (by omega) (second.entersAt hmark hback)
    exact Assembly.leads_append.2 ⟨ihFirst hfront hmark hf (Nat.le_refl _) (by omega) hlm hlf
        fun m hm => hl m (by omega),
      ihSecond hback hs hf (by omega) (by omega) hls hlf fun m hm => hl m (by omega)⟩
  | lastOfAll only ih => exact ih hp hs hf has haf hls hlf hl
  | firstOfAll first mark more ihFirst ihMore =>
    obtain ⟨hfront, hmark, hback⟩ := hp.cut mark
    simp only [List.length_append, List.length_cons] at has haf hl
    have hlm := hl _ (by omega) (more.entersAt hmark hback)
    exact Assembly.leads_append.2 ⟨ihFirst hfront hmark hf (Nat.le_refl _) (by omega) hlm hlf
        fun m hm => hl m (by omega),
      ihMore hback hs hf (by omega) (by omega) hls hlf fun m hm => hl m (by omega)⟩
  | lastOfAny only ih => exact ih hp hs hf has haf hls hlf hl
  | firstOfAny first mark more ihFirst ihMore =>
    obtain ⟨hfront, hmark, hback⟩ := hp.cut mark
    simp only [List.length_append, List.length_cons] at has haf hl
    have hlm := hl _ (by omega) (more.entersAt hmark hback)
    exact Assembly.leads_append.2 ⟨ihFirst hfront hs hmark (by omega) (Nat.le_refl _) hls hlm
        fun m hm => hl m (by omega),
      ihMore hback hs hf (by omega) (by omega) hls hlf fun m hm => hl m (by omega)⟩

theorem Rule.Lowered.forward {r : Rule} {code : Assembly} {place : String → Option Nat}
    {p : Program} {a : Nat} (h : r.Lowered code) (hp : code.Placed place p a) :
    code.Leads place (· ≤ p.length) a := by
  cases h with
  | @intro _ _ _ _ scripts actions _ _ condition starts ranks defines decides enters acts leaves =>
    obtain ⟨_, hcondition, hbody, _, hskip, _⟩ := hp.frame enters leaves
    refine Assembly.leads_frame (decides.leads hcondition hbody hskip (Nat.le_refl _) (by omega)
      (Nat.le_of_lt hbody.lt_length) (Nat.le_of_lt hskip.lt_length) fun m _ hm => ?_)
    obtain ⟨⟨i, hi, _⟩, _⟩ := hm
    exact Nat.le_of_lt (List.getElem?_eq_some_iff.1 hi).1

theorem Ruleset.Placed.forwardAt {rules : Ruleset} {p : Program} {a b : Nat} {i : Instruction}
    (h : rules.Placed p a) (ha : a ≤ b) (hi : p[b]? = some i) : i.ForwardAt p.length b := by
  induction rules generalizing a with
  | nil =>
    have hb := (List.getElem?_eq_some_iff.1 hi).1
    rw [show a = p.length from h] at ha
    omega
  | cons r rest ih =>
    obtain ⟨place, code, lowered, hcode, hrest⟩ := h
    by_cases hb : b < a + code.length
    · exact (lowered.forward hcode).target hcode lowered.emitted ha hb hi
    · exact ih hrest (by omega)

theorem Program.Forward.compact {p q : Program} (hp : p.Forward) (h : p.compact = .ok q) :
    q.Forward := by
  intro b j hj hjump
  obtain ⟨a, i, hi, hm, hc, rfl⟩ := Program.exists_of_getElem?_compact h hj
  cases hi' : i.opcode.isJump with
  | false =>
    rw [Program.compactInstruction_of_not_jump hi'] at hc
    cases hc
    rw [hi'] at hjump
    cases hjump
  | true =>
    obtain ⟨offset, target, distance, ho, ht, hl, rfl, hd⟩ :=
      Program.compactInstruction_of_jump hc hi'
    obtain ⟨offset', target', ho', ht', hlt, _⟩ := hp a i hi hi'
    rw [ho] at ho'
    cases ho'
    have hsucc := Program.compactIndex_succ_of_not_mark hi hm
    have hmono : p.compactIndex (a + 1) ≤ p.compactIndex target :=
      Program.compactIndex_mono (by omega)
    refine ⟨distance, p.compactIndex target, Instruction.jumpOffset?_jump hi' distance, by omega,
      by omega, ?_⟩
    rw [Program.length_compact h]
    exact Program.compactIndex_mono hl

theorem Compiler.forward_of_compile {c : Compiler} {rules : Ruleset} {p : Program}
    (h : (c.compile rules).1 = .ok p) : p.Forward := by
  obtain ⟨full, hjoined, hp⟩ := Compiler.joined_of_compile h
  have hforward : full.Forward := fun a i => (hjoined.placed []).forwardAt (Nat.zero_le a)
  cases hp with
  | inl hp => exact hp ▸ hforward
  | inr hp => exact hforward.compact hp

end RuleMachine
