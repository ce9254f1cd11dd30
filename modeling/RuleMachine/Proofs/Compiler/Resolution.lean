import RuleMachine.Proofs.Compiler.Resolves
/-!
What resolving does to any code, also to code that no ruleset lowers to: marks may be raw
instructions, jumps may go backwards, and raw jumps are left alone. The first pass finds a fault or
the place of every name, the second pass needs a place for every name that a jump asks for.
-/

set_option autoImplicit false

namespace RuleMachine

def CodeLine.mark? : CodeLine → Option (Except OperandError String)
  | .jump _ _ => none
  | .instruction i => if i.opcode = .label then some (i.read Read.text) else none

theorem CodeLine.mark?_of_mark {l : Label} {i : Instruction} (h : l.mark = .ok i) :
    (CodeLine.instruction i).mark? = some (.ok l.name) := by
  obtain ⟨hop, hread⟩ := Label.read_mark h
  simp only [mark?, if_pos hop, hread]

namespace Assembly

def markAt? (code : Assembly) (a : Nat) : Option (Except OperandError String) :=
  code[a]?.bind CodeLine.mark?

def MarkedAt (code : Assembly) (name : String) (a : Nat) : Prop := code.markAt? a = some (.ok name)

/-- What is wrong with the mark at an address. -/
inductive FaultAt (code : Assembly) (a : Nat) : CompileCause → Prop where
  | unreadable {e : OperandError} (mark : code.markAt? a = some (.error e)) :
      FaultAt code a (.encoding e)
  | repeated {name : String} {b : Nat} (again : code.MarkedAt name a)
      (first : code.MarkedAt name b) (before : b < a) : FaultAt code a (.duplicateLabel name)

def Sound (code : Assembly) : Prop := ∀ a cause, ¬ code.FaultAt a cause

structure Resolvable (code : Assembly) : Prop where
  readable (a : Nat) (e : OperandError) : code.markAt? a ≠ some (.error e)
  once {name : String} {a b : Nat} (first : code.MarkedAt name a) (other : code.MarkedAt name b) :
    a = b
  bound {a : Nat} {op : Opcode} {l : Label} (jump : code[a]? = some (.jump op l)) :
    ∃ b, code.MarkedAt l.name b

structure ResolvesTo (code : Assembly) (p : Program) : Prop where
  length : p.length = code.length
  kept {a : Nat} {i : Instruction} (line : code[a]? = some (.instruction i)) : p[a]? = some i
  patched {a : Nat} {op : Opcode} {l : Label} (line : code[a]? = some (.jump op l)) :
    ∃ target distance, code.MarkedAt l.name target ∧ p[a]? = some (.jump op distance) ∧
      distance.toInt = (target : Int) - a - 1

/-- Why the code is not resolved: its first fault, or where it has none its first jump to a name
without a mark. -/
inductive Refused (code : Assembly) : CompileCause → Prop where
  | fault {a : Nat} {cause : CompileCause} (fault : code.FaultAt a cause)
      (first : ∀ b other, b < a → ¬ code.FaultAt b other) : Refused code cause
  | unbound {a : Nat} {op : Opcode} {l : Label} (sound : code.Sound)
      (jump : code[a]? = some (.jump op l)) (unmarked : ∀ b, ¬ code.MarkedAt l.name b)
      (first : ∀ b op' l', b < a → code[b]? = some (.jump op' l') →
        ∃ c, code.MarkedAt l'.name c) : Refused code (.undefinedLabel l.name)

variable {code front rest : Assembly} {line : CodeLine} {a b : Nat} {name : String}
  {cause : CompileCause} {marks seen : List (String × Nat)} {p : Program}

theorem markAt?_append_left (h : a < front.length) : (front ++ rest).markAt? a = front.markAt? a :=
  congrArg (Option.bind · CodeLine.mark?) (List.getElem?_append_left h)

theorem markAt?_append_length : (front ++ line :: rest).markAt? front.length = line.mark? := by
  simp [markAt?]

theorem MarkedAt.lt_length (h : code.MarkedAt name a) : a < code.length := by
  obtain ⟨_, hline, _⟩ := Option.bind_eq_some_iff.1 h
  exact (List.getElem?_eq_some_iff.1 hline).1

theorem FaultAt.lt_length (h : code.FaultAt a cause) : a < code.length := by
  cases h with
  | unreadable mark =>
    obtain ⟨_, hline, _⟩ := Option.bind_eq_some_iff.1 mark
    exact (List.getElem?_eq_some_iff.1 hline).1
  | repeated again first before => exact again.lt_length

theorem markedAt_append_left (h : a < front.length) :
    (front ++ rest).MarkedAt name a ↔ front.MarkedAt name a := by
  rw [MarkedAt, MarkedAt, markAt?_append_left h]

theorem FaultAt.of_append_left (h : (front ++ rest).FaultAt a cause) (ha : a < front.length) :
    front.FaultAt a cause := by
  cases h with
  | unreadable mark => exact .unreadable (by rw [← mark, markAt?_append_left ha])
  | repeated again first before =>
    exact .repeated ((markedAt_append_left ha).1 again)
      ((markedAt_append_left (Nat.lt_trans before ha)).1 first) before

theorem markedAt_concat : (front ++ [line]).MarkedAt name a ↔
    front.MarkedAt name a ∨ a = front.length ∧ line.mark? = some (.ok name) := by
  rcases Nat.lt_trichotomy a front.length with h | rfl | h
  · rw [markedAt_append_left h]
    simp [Nat.ne_of_lt h]
  · rw [MarkedAt, markAt?_append_length]
    have hnot : ¬ front.MarkedAt name front.length := fun hm => Nat.lt_irrefl _ hm.lt_length
    simp [hnot]
  · have hnot : ¬ front.MarkedAt name a := fun hm => Nat.lt_asymm h hm.lt_length
    have hout : ¬ (front ++ [line]).MarkedAt name a := by
      intro hm
      have hlt := hm.lt_length
      rw [List.length_append, List.length_singleton] at hlt
      omega
    simp [hnot, hout, Nat.ne_of_gt h]

theorem Sound.concat (hfront : front.Sound) (hread : ∀ e, line.mark? ≠ some (.error e))
    (hnew : ∀ name b, line.mark? = some (.ok name) → ¬ front.MarkedAt name b) :
    Sound (front ++ [line]) := by
  intro b cause hfault
  have hlt := hfault.lt_length
  rw [List.length_append, List.length_singleton] at hlt
  rcases Nat.lt_or_eq_of_le (Nat.le_of_lt_succ hlt) with hb | rfl
  · exact hfront b cause (hfault.of_append_left hb)
  · cases hfault with
    | unreadable mark => exact hread _ (markAt?_append_length.symm.trans mark)
    | repeated again first before =>
      exact hnew _ _ (markAt?_append_length.symm.trans again)
        ((markedAt_append_left before).1 first)

theorem marksFrom_cons_of_none (h : line.mark? = none) :
    marksFrom a seen (line :: rest) = marksFrom (a + 1) seen rest := by
  cases line with
  | jump op l => rfl
  | instruction i =>
    have hop : i.opcode ≠ .label := by simpa [CodeLine.mark?] using h
    rw [marksFrom, if_neg hop]

theorem marksFrom_cons_of_error {e : OperandError} (h : line.mark? = some (.error e)) :
    marksFrom a seen (line :: rest) = .error (.encoding e) := by
  cases line with
  | jump op l => cases h
  | instruction i =>
    obtain ⟨hop, hread⟩ : i.opcode = .label ∧ i.read Read.text = .error e := by
      simpa [CodeLine.mark?] using h
    rw [marksFrom, if_pos hop, hread]

theorem marksFrom_cons_of_ok (h : line.mark? = some (.ok name)) :
    marksFrom a seen (line :: rest) =
      if (seen.lookup name).isSome then .error (.duplicateLabel name)
      else marksFrom (a + 1) ((name, a) :: seen) rest := by
  cases line with
  | jump op l => cases h
  | instruction i =>
    obtain ⟨hop, hread⟩ : i.opcode = .label ∧ i.read Read.text = .ok name := by
      simpa [CodeLine.mark?] using h
    rw [marksFrom, if_pos hop, hread]

def Located (marks : List (String × Nat)) (code : Assembly) : Prop :=
  ∀ name a, marks.lookup name = some a ↔ code.MarkedAt name a

theorem Located.concat_of_none (h : Located seen front) (hline : line.mark? = none) :
    Located seen (front ++ [line]) := by
  intro name a
  rw [h name a, markedAt_concat, hline]
  simp

theorem Located.concat_of_ok (h : Located seen front) (hline : line.mark? = some (.ok name))
    (hnew : seen.lookup name = none) :
    Located ((name, front.length) :: seen) (front ++ [line]) := by
  intro other a
  rw [markedAt_concat, ← h other a, hline, List.lookup_cons]
  by_cases he : other = name
  · subst he
    simp [hnew, eq_comm]
  · rw [beq_false_of_ne he]
    simp [Ne.symm he]

/-- The first pass, behind code without a fault: the places of all marks, or the first fault. -/
theorem marksFrom_exact (code : Assembly) (hseen : Located seen front)
    (hfront : front.Sound) :
    (∃ marks, marksFrom front.length seen code = .ok marks ∧ Located marks (front ++ code) ∧
      Sound (front ++ code)) ∨
    (∃ a cause, marksFrom front.length seen code = .error cause ∧
      (front ++ code).FaultAt a cause ∧ ∀ b other, b < a → ¬ (front ++ code).FaultAt b other) := by
  induction code generalizing front seen with
  | nil =>
    rw [List.append_nil]
    exact .inl ⟨seen, rfl, hseen, hfront⟩
  | cons line rest ih =>
    have hnext : front.length + 1 = (front ++ [line]).length := by simp
    have hcode : front ++ line :: rest = (front ++ [line]) ++ rest := by simp
    have hbefore : ∀ b other, b < front.length → ¬ (front ++ line :: rest).FaultAt b other :=
      fun b other hb hfault => hfront b other (hfault.of_append_left hb)
    cases hline : line.mark? with
    | none =>
      rw [marksFrom_cons_of_none hline, hnext, hcode]
      exact ih (hseen.concat_of_none hline)
        (hfront.concat (by simp [hline]) (by simp [hline]))
    | some mark =>
      cases mark with
      | error e =>
        have hfault : (front ++ line :: rest).FaultAt front.length (.encoding e) :=
          .unreadable (markAt?_append_length.trans hline)
        exact .inr ⟨_, _, marksFrom_cons_of_error hline, hfault, hbefore⟩
      | ok name =>
        rw [marksFrom_cons_of_ok hline]
        cases hlookup : seen.lookup name with
        | some b =>
          have hb : front.MarkedAt name b := (hseen name b).1 hlookup
          have hfault : (front ++ line :: rest).FaultAt front.length (.duplicateLabel name) :=
            .repeated (markAt?_append_length.trans hline) ((markedAt_append_left hb.lt_length).2 hb)
              hb.lt_length
          exact .inr ⟨_, _, rfl, hfault, hbefore⟩
        | none =>
          have hnew : ∀ other b, line.mark? = some (.ok other) → ¬ front.MarkedAt other b := by
            intro other b hother hb
            rw [hline] at hother
            cases hother
            rw [(hseen name b).2 hb] at hlookup
            cases hlookup
          simp only [Option.isSome_none, Bool.false_eq_true, if_false]
          rw [hnext, hcode]
          exact ih (hseen.concat_of_ok hline hlookup) (hfront.concat (by simp [hline]) hnew)

theorem resolveFrom_cons_eq_error (h : resolveFrom marks a (line :: rest) = .error cause) :
    (∃ op l, line = .jump op l ∧ marks.lookup l.name = none ∧ cause = .undefinedLabel l.name) ∨
    (∃ op l target, line = .jump op l ∧ marks.lookup l.name = some target ∧
      jumpDistance a target = .error cause) ∨
    ((∃ i, line.Resolves marks a i) ∧ resolveFrom marks (a + 1) rest = .error cause) := by
  cases line with
  | instruction i =>
    rw [resolveFrom] at h
    cases hrest : resolveFrom marks (a + 1) rest with
    | ok more =>
      rw [hrest] at h
      cases h
    | error e =>
      rw [hrest] at h
      cases h
      exact .inr (.inr ⟨⟨i, rfl⟩, rfl⟩)
  | jump op l =>
    rw [resolveFrom] at h
    cases hlookup : marks.lookup l.name with
    | none =>
      rw [hlookup] at h
      cases h
      exact .inl ⟨op, l, rfl, hlookup, rfl⟩
    | some target =>
      rw [hlookup] at h
      dsimp only at h
      cases hdistance : jumpDistance a target with
      | error e =>
        rw [hdistance] at h
        cases h
        exact .inr (.inl ⟨op, l, target, rfl, hlookup, hdistance⟩)
      | ok distance =>
        cases hrest : resolveFrom marks (a + 1) rest with
        | ok more =>
          rw [hdistance, hrest] at h
          cases h
        | error e =>
          rw [hdistance, hrest] at h
          cases h
          exact .inr (.inr ⟨⟨_, target, distance, hlookup, hdistance, rfl⟩, rfl⟩)

theorem resolveFrom_eq_error (h : resolveFrom marks a code = .error cause)
    (hplaces : ∀ name b, marks.lookup name = some b → b < 2 ^ 31)
    (hlength : a + code.length < 2 ^ 31) :
    ∃ front op l rest, code = front ++ .jump op l :: rest ∧ cause = .undefinedLabel l.name ∧
      marks.lookup l.name = none ∧
      ∀ op' l', .jump op' l' ∈ front → ∃ b, marks.lookup l'.name = some b := by
  induction code generalizing a with
  | nil => cases h
  | cons line rest ih =>
    rw [List.length_cons] at hlength
    obtain ⟨op, l, rfl, hnone, rfl⟩ | ⟨op, l, target, rfl, htarget, hfar⟩ | ⟨⟨i, hi⟩, hrest⟩ :=
      resolveFrom_cons_eq_error h
    · exact ⟨[], op, l, rest, rfl, rfl, hnone, fun _ _ hl => absurd hl List.not_mem_nil⟩
    · obtain ⟨distance, hdistance⟩ :=
        exists_jumpDistance (by omega : a < 2 ^ 31) (hplaces _ _ htarget)
      cases hdistance.symm.trans hfar
    · obtain ⟨front, op, l, rest, rfl, hcause, hnone, hfront⟩ := ih hrest (by omega)
      refine ⟨line :: front, op, l, rest, rfl, hcause, hnone, fun op' l' hl => ?_⟩
      rcases List.mem_cons.1 hl with rfl | hl
      · obtain ⟨target, _, htarget, _⟩ := hi
        exact ⟨target, htarget⟩
      · exact hfront op' l' hl

theorem resolves_of_resolveFrom {base : Nat} (h : resolveFrom marks base code = .ok p)
    (hline : code[a]? = some line) : ∃ i, p[a]? = some i ∧ line.Resolves marks (base + a) i := by
  induction code generalizing base a p with
  | nil => cases hline
  | cons first rest ih =>
    obtain ⟨i, more, rfl, hi, hmore⟩ := resolveFrom_cons_eq_ok h
    cases a with
    | zero =>
      cases hline
      exact ⟨i, rfl, hi⟩
    | succ a =>
      obtain ⟨j, hj, hresolves⟩ := ih hmore hline
      refine ⟨j, hj, ?_⟩
      rw [Nat.add_right_comm] at hresolves
      exact hresolves

theorem resolvesTo_of_resolveFrom (h : resolveFrom marks 0 code = .ok p)
    (hmarks : Located marks code) : code.ResolvesTo p where
  length := length_resolveFrom h
  kept hline := by
    obtain ⟨j, hj, hresolves⟩ := resolves_of_resolveFrom h hline
    cases hresolves
    exact hj
  patched hline := by
    obtain ⟨_, hj, target, distance, htarget, hdistance, rfl⟩ := resolves_of_resolveFrom h hline
    rw [Nat.zero_add] at hdistance
    exact ⟨target, distance, (hmarks _ _).1 htarget, hj, jumpDistance_eq_ok_iff.1 hdistance⟩

theorem resolvable_of_located (hmarks : Located marks code) (hsound : code.Sound)
    (hp : code.ResolvesTo p) : code.Resolvable where
  readable a e hmark := hsound a _ (.unreadable hmark)
  once first other := by
    have hfirst := (hmarks _ _).2 first
    rw [(hmarks _ _).2 other] at hfirst
    exact (Option.some.inj hfirst).symm
  bound hjump := by
    obtain ⟨target, _, htarget, _⟩ := hp.patched hjump
    exact ⟨target, htarget⟩

/-- Where the second pass fails, the jump that it fails at is the first one without a mark. -/
theorem refused_of_resolveFrom (h : resolveFrom marks 0 code = .error cause)
    (hmarks : Located marks code) (hsound : code.Sound) (hlength : code.length < 2 ^ 31) :
    code.Refused cause := by
  have hplaces : ∀ name b, marks.lookup name = some b → b < 2 ^ 31 :=
    fun name b hb => Nat.lt_trans ((hmarks name b).1 hb).lt_length hlength
  obtain ⟨front, op, l, rest, rfl, rfl, hnone, hfront⟩ :=
    resolveFrom_eq_error h hplaces (by omega)
  have hjump : (front ++ .jump op l :: rest)[front.length]? = some (.jump op l) := by simp
  refine .unbound hsound hjump (fun b hb => ?_) fun b op' l' hb hjump => ?_
  · rw [(hmarks l.name b).2 hb] at hnone
    cases hnone
  · rw [List.getElem?_append_left hb] at hjump
    obtain ⟨c, hc⟩ := hfront op' l' (List.mem_of_getElem? hjump)
    exact ⟨c, (hmarks l'.name c).1 hc⟩

theorem Resolvable.sound (h : code.Resolvable) : code.Sound := by
  intro a cause hfault
  cases hfault with
  | unreadable mark => exact h.readable a _ mark
  | repeated again first before => exact Nat.ne_of_lt before (h.once first again)

theorem Resolvable.not_refused (h : code.Resolvable) : ¬ code.Refused cause := by
  intro hrefused
  cases hrefused with
  | fault fault first => exact h.sound _ _ fault
  | unbound sound jump unmarked first =>
    obtain ⟨b, hb⟩ := h.bound jump
    exact unmarked b hb

theorem resolve_cases (hlength : code.length < 2 ^ 31) :
    (∃ p, code.resolve = .ok p ∧ code.Resolvable ∧ code.ResolvesTo p) ∨
      (∃ cause, code.resolve = .error cause ∧ code.Refused cause) := by
  have hempty : Located [] [] := fun name a => by simp [MarkedAt, markAt?]
  have hnone : Sound [] := fun b cause h => Nat.not_lt_zero b h.lt_length
  rcases marksFrom_exact code hempty hnone with
    ⟨marks, hpass, hmarks, hsound⟩ | ⟨a, cause, hpass, hfault, hfirst⟩
  · rw [List.nil_append] at hmarks hsound
    have hpass : marksFrom 0 [] code = .ok marks := hpass
    have hresolve : code.resolve = resolveFrom marks 0 code := by
      rw [resolve, hpass]
      rfl
    cases hp : resolveFrom marks 0 code with
    | ok p =>
      have hto := resolvesTo_of_resolveFrom hp hmarks
      exact .inl ⟨p, hresolve.trans hp, resolvable_of_located hmarks hsound hto, hto⟩
    | error cause =>
      exact .inr ⟨cause, hresolve.trans hp, refused_of_resolveFrom hp hmarks hsound hlength⟩
  · rw [List.nil_append] at hfault hfirst
    have hpass : marksFrom 0 [] code = .error cause := hpass
    have hresolve : code.resolve = .error cause := by
      rw [resolve, hpass]
      rfl
    exact .inr ⟨cause, hresolve, .fault hfault hfirst⟩

/-- Code of less than 2 ^ 31 lines is resolved exactly when every mark can be read, no name is
marked twice and every jump has its mark. The program differs from the code in its jumps alone, and
the code that is not resolved is refused for its first fault or, without one, its first jump to
nowhere. A mark that is made from a label bears the name of the label. -/
theorem resolve_exact (code : Assembly) (hlength : code.length < 2 ^ 31) :
    ((∃ p, code.resolve = .ok p) ↔ code.Resolvable) ∧
    (∀ p, code.resolve = .ok p → code.ResolvesTo p) ∧
    (∀ cause, code.resolve = .error cause → code.Refused cause) ∧
    ∀ a i (l : Label), code[a]? = some (.instruction i) → l.mark = .ok i →
      code.MarkedAt l.name a := by
  have hmade : ∀ a i (l : Label), code[a]? = some (.instruction i) → l.mark = .ok i →
      code.MarkedAt l.name a := by
    intro a i l hline hmark
    rw [MarkedAt, markAt?, hline]
    exact CodeLine.mark?_of_mark hmark
  rcases resolve_cases hlength with ⟨p, hp, hresolvable, hto⟩ | ⟨cause, hcause, hrefused⟩
  · rw [hp]
    refine ⟨⟨fun _ => hresolvable, fun _ => ⟨p, rfl⟩⟩, fun q hq => ?_, nofun, hmade⟩
    cases hq
    exact hto
  · rw [hcause]
    refine ⟨⟨nofun, fun hresolvable => ?_⟩, nofun, fun other hother => ?_, hmade⟩
    · exact absurd hrefused hresolvable.not_refused
    · cases hother
      exact hrefused

def loop : Assembly :=
  [.instruction ⟨.label, [2, 0, 76, 48]⟩, .jump .jumpIfTrue ⟨1⟩,
    .instruction (.jump .jumpIfTrue (-1)), .jump .jumpIfFalse ⟨0⟩,
    .instruction ⟨.label, [2, 0, 76, 49]⟩]

def loopProgram : Program :=
  [⟨.label, [2, 0, 76, 48]⟩, .jump .jumpIfTrue 2, .jump .jumpIfTrue (-1), .jump .jumpIfFalse (-4),
    ⟨.label, [2, 0, 76, 49]⟩]

theorem resolve_exact_loop : loop.length < 2 ^ 31 ∧ loop.resolve = .ok loopProgram ∧
    loop.Resolvable ∧ loop.ResolvesTo loopProgram :=
  have hlength : loop.length < 2 ^ 31 := by decide
  have hp : loop.resolve = .ok loopProgram := by rfl
  ⟨hlength, hp, (resolve_exact loop hlength).1.1 ⟨_, hp⟩, (resolve_exact loop hlength).2.1 _ hp⟩

end Assembly

end RuleMachine
