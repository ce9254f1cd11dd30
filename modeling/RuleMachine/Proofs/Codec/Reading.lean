import RuleMachine.Code.Opcode
/-!
What a read takes. `Reads read bytes a` says that wherever `bytes` begin, the read takes exactly
them and gives `a`; a read is `Local` if whatever it gives is decided by the bytes it took;
`FailsBy` says what a read may fail for. Reads compose, so that all three follow the way a read is
put together.
-/

set_option autoImplicit false

namespace RuleMachine

theorem EStateM.bind_eq_ok {ε σ α β : Type} {x : EStateM ε σ α} {f : α → EStateM ε σ β}
    {s s' : σ} {b : β} :
    (x >>= f) s = .ok b s' ↔ ∃ a t, x s = .ok a t ∧ f a t = .ok b s' := by
  change EStateM.bind x f s = _ ↔ _
  unfold EStateM.bind
  cases h : x s with
  | ok a t =>
    simp only [EStateM.Result.ok.injEq]
    constructor
    · intro hf
      exact ⟨a, t, ⟨rfl, rfl⟩, hf⟩
    · intro h
      obtain ⟨_, _, ⟨rfl, rfl⟩, hf⟩ := h
      exact hf
  | error e t => simp

theorem EStateM.bind_eq_error {ε σ α β : Type} {x : EStateM ε σ α} {f : α → EStateM ε σ β}
    {s s' : σ} {e : ε} :
    (x >>= f) s = .error e s' ↔
      x s = .error e s' ∨ ∃ a t, x s = .ok a t ∧ f a t = .error e s' := by
  change EStateM.bind x f s = _ ↔ _
  unfold EStateM.bind
  cases h : x s with
  | ok a t =>
    simp only [reduceCtorEq, false_or, EStateM.Result.ok.injEq]
    constructor
    · intro hf
      exact ⟨a, t, ⟨rfl, rfl⟩, hf⟩
    · intro h
      obtain ⟨_, _, ⟨rfl, rfl⟩, hf⟩ := h
      exact hf
  | error e t => simp

theorem Except.bind_eq_ok {ε α β : Type} {x : Except ε α} {f : α → Except ε β} {b : β} :
    (x >>= f) = .ok b ↔ ∃ a, x = .ok a ∧ f a = .ok b := by
  cases x <;> simp [bind, Except.bind]

theorem Except.bind_eq_error {ε α β : Type} {x : Except ε α} {f : α → Except ε β} {e : ε} :
    (x >>= f) = .error e ↔ x = .error e ∨ ∃ a, x = .ok a ∧ f a = .error e := by
  cases x <;> simp [bind, Except.bind]

theorem Except.mapError_eq_ok {ε ε' α : Type} {f : ε → ε'} {x : Except ε α} {a : α} :
    x.mapError f = .ok a ↔ x = .ok a := by
  constructor
  · intro h
    cases x with
    | ok b =>
      cases h
      rfl
    | error e => cases h
  · intro h
    rw [h]
    rfl

section

variable {ε α β : Type}

/-- The read takes exactly `bytes`, whatever follows, and gives `a`. -/
def Reads (read : EStateM ε Cursor α) (bytes : Bytes) (a : α) : Prop :=
  ∀ rest offset, read ⟨bytes ++ rest, offset⟩ = .ok a ⟨rest, offset + bytes.length⟩

theorem Reads.pure (a : α) : Reads (pure a : EStateM ε Cursor α) [] a := fun _ _ => rfl

theorem Reads.bind {read : EStateM ε Cursor α} {next : α → EStateM ε Cursor β} {a : α} {b : β}
    {front back : Bytes} (ha : Reads read front a) (hb : Reads (next a) back b) :
    Reads (read >>= next) (front ++ back) b := by
  intro rest offset
  rw [EStateM.bind_eq_ok]
  refine ⟨a, ⟨back ++ rest, offset + front.length⟩, ?_, ?_⟩
  · rw [List.append_assoc]
    exact ha _ _
  · rw [hb, List.length_append, Nat.add_assoc]

theorem Reads.map {read : EStateM ε Cursor α} {a : α} {bytes : Bytes} (f : α → β)
    (h : Reads read bytes a) : Reads (do return f (← read)) bytes (f a) := by
  rw [← List.append_nil bytes]
  exact h.bind (Reads.pure (f a))

/-- Where the read succeeds it takes a first part of the bytes, and that part decides the value. -/
def Local (read : EStateM ε Cursor α) : Prop :=
  ∀ c a c', read c = .ok a c' → ∃ taken, c.rest = taken ++ c'.rest ∧
    c'.offset = c.offset + taken.length ∧ Reads read taken a

theorem Local.pure (a : α) : Local (pure a : EStateM ε Cursor α) := by
  intro c b c' h
  cases h
  exact ⟨[], rfl, rfl, Reads.pure a⟩

theorem Local.bind {read : EStateM ε Cursor α} {next : α → EStateM ε Cursor β}
    (ha : Local read) (hb : ∀ a, Local (next a)) : Local (read >>= next) := by
  intro c b c' h
  obtain ⟨a, d, h₁, h₂⟩ := EStateM.bind_eq_ok.1 h
  obtain ⟨front, hf, hof, hrf⟩ := ha _ _ _ h₁
  obtain ⟨back, hk, hok, hrk⟩ := hb a _ _ _ h₂
  refine ⟨front ++ back, ?_, ?_, hrf.bind hrk⟩
  · rw [hf, hk, List.append_assoc]
  · rw [hok, hof, List.length_append, Nat.add_assoc]

/-- The read fails, where it fails, for one of some errors. -/
def FailsBy (P : ε → Prop) (read : EStateM ε Cursor α) : Prop :=
  ∀ c e c', read c = .error e c' → P e

theorem FailsBy.pure {P : ε → Prop} (a : α) : FailsBy P (pure a : EStateM ε Cursor α) := by
  intro c e c' h
  cases h

theorem FailsBy.throw {P : ε → Prop} {e : ε} (h : P e) :
    FailsBy P (throw e : EStateM ε Cursor α) := by
  intro c e' c' he
  cases he
  exact h

theorem FailsBy.bind {P : ε → Prop} {read : EStateM ε Cursor α} {next : α → EStateM ε Cursor β}
    (ha : FailsBy P read) (hb : ∀ a, FailsBy P (next a)) : FailsBy P (read >>= next) := by
  intro c e c' h
  obtain hfirst | ⟨a, c₁, _, hnext⟩ := EStateM.bind_eq_error.1 h
  · exact ha _ _ _ hfirst
  · exact hb a _ _ _ hnext

end

section

variable {α : Type}

theorem splitExactly_eq_some_iff {n : Nat} {l front back : List α} :
    splitExactly n l = some (front, back) ↔ l = front ++ back ∧ front.length = n := by
  induction n generalizing l front with
  | zero =>
    simp only [splitExactly, Option.some.injEq, Prod.mk.injEq, List.length_eq_zero_iff]
    constructor
    · intro h
      obtain ⟨rfl, rfl⟩ := h
      exact ⟨rfl, rfl⟩
    · intro h
      obtain ⟨rfl, rfl⟩ := h
      exact ⟨rfl, rfl⟩
  | succ n ih =>
    cases l with
    | nil =>
      simp only [splitExactly, reduceCtorEq, false_iff, not_and]
      intro h
      rw [(List.append_eq_nil_iff.1 h.symm).1]
      simp
    | cons a l =>
      simp only [splitExactly, Option.map_eq_some_iff, Prod.exists, Prod.mk.injEq]
      constructor
      · intro h
        obtain ⟨x, y, h, rfl, rfl⟩ := h
        obtain ⟨rfl, rfl⟩ := ih.1 h
        exact ⟨rfl, rfl⟩
      · intro h
        obtain ⟨h, hl⟩ := h
        cases front with
        | nil => simp at hl
        | cons b front =>
          simp only [List.cons_append, List.cons.injEq, List.length_cons] at h hl
          exact ⟨front, back, ih.2 ⟨h.2, by omega⟩, by rw [h.1], rfl⟩

end

namespace Read

theorem take_eq_ok_iff {n : Nat} {c c' : Cursor} {bytes : Bytes} :
    take n c = .ok bytes c' ↔
      c.rest = bytes ++ c'.rest ∧ bytes.length = n ∧ c'.offset = c.offset + n := by
  unfold take
  cases h : splitExactly n c.rest with
  | none =>
    simp only [reduceCtorEq, false_iff, not_and]
    intro hr hl
    rw [splitExactly_eq_some_iff.2 ⟨hr, hl⟩] at h
    cases h
  | some p =>
    obtain ⟨front, back⟩ := p
    obtain ⟨hr, hl⟩ := splitExactly_eq_some_iff.1 h
    simp only [EStateM.Result.ok.injEq]
    constructor
    · intro h
      obtain ⟨rfl, rfl⟩ := h
      exact ⟨hr, hl, rfl⟩
    · intro h
      obtain ⟨hr', hl', ho⟩ := h
      obtain ⟨rfl, hb⟩ := List.append_inj (hr.symm.trans hr') (hl.trans hl'.symm)
      exact ⟨rfl, by cases c'; simp_all⟩

theorem reads_take {n : Nat} {bytes : Bytes} (h : bytes.length = n) :
    Reads (take n) bytes bytes := by
  intro rest offset
  exact take_eq_ok_iff.2 ⟨rfl, h, by simp [h]⟩

theorem local_take (n : Nat) : Local (take n) := by
  intro c bytes c' h
  obtain ⟨hr, hl, ho⟩ := take_eq_ok_iff.1 h
  exact ⟨bytes, hr, by rw [ho, hl], reads_take hl⟩

theorem local_word : Local word := (local_take 4).bind fun _ => Local.pure _

theorem local_int : Local int := local_word.bind fun _ => Local.pure _

theorem local_length : Local length := (local_take 2).bind fun _ => Local.pure _

theorem text_eq_ok_iff {c c' : Cursor} {s : String} :
    text c = .ok s c' ↔ ∃ n d bytes, length c = .ok n d ∧ take n d = .ok bytes c' ∧
      textOfBytes? bytes = some s := by
  unfold text
  simp only [EStateM.bind_eq_ok]
  constructor
  · intro h
    obtain ⟨n, d, hn, start, d', hg, bytes, d'', ht, h⟩ := h
    cases hg
    cases hb : textOfBytes? bytes with
    | none =>
      rw [hb] at h
      cases h
    | some s' =>
      rw [hb] at h
      cases h
      exact ⟨n, d, bytes, hn, ht, hb⟩
  · intro h
    obtain ⟨n, d, bytes, hn, ht, hb⟩ := h
    refine ⟨n, d, hn, d, d, rfl, bytes, c', ht, ?_⟩
    rw [hb]
    rfl

theorem skipText_eq_ok_iff {c c' : Cursor} :
    skipText c = .ok () c' ↔ ∃ n d bytes, length c = .ok n d ∧ take n d = .ok bytes c' := by
  unfold skipText
  simp only [EStateM.bind_eq_ok]
  constructor
  · intro h
    obtain ⟨n, d, hn, bytes, d', ht, h⟩ := h
    cases h
    exact ⟨n, d, bytes, hn, ht⟩
  · intro h
    obtain ⟨n, d, bytes, hn, ht⟩ := h
    exact ⟨n, d, hn, bytes, c', ht, rfl⟩

theorem local_skipText : Local skipText :=
  local_length.bind fun _ => (local_take _).bind fun _ => Local.pure _

theorem skipText_of_text {c c' : Cursor} {s : String} (h : text c = .ok s c') :
    skipText c = .ok () c' := by
  obtain ⟨n, d, bytes, hn, ht, _⟩ := text_eq_ok_iff.1 h
  exact skipText_eq_ok_iff.2 ⟨n, d, bytes, hn, ht⟩

theorem skipTexts_of_texts {n : Nat} {c c' : Cursor} {l : List String} (h : texts n c = .ok l c') :
    skipTexts n c = .ok () c' := by
  induction n generalizing c l with
  | zero =>
    cases h
    rfl
  | succ n ih =>
    obtain ⟨_, c₁, hfirst, h⟩ := EStateM.bind_eq_ok.1 h
    obtain ⟨_, c₂, hmore, hpure⟩ := EStateM.bind_eq_ok.1 h
    cases hpure
    exact EStateM.bind_eq_ok.2 ⟨(), c₁, skipText_of_text hfirst, ih hmore⟩

theorem local_skipTexts (n : Nat) : Local (skipTexts n) := by
  induction n with
  | zero => exact Local.pure _
  | succ n ih => exact local_skipText.bind fun _ => ih

end Read

theorem OperandPart.local_skip (part : OperandPart) : Local part.skip := by
  cases part with
  | word => exact (Read.local_take 4).bind fun _ => Local.pure _
  | bool => exact (Read.local_take 1).bind fun _ => Local.pure _
  | text => exact Read.local_skipText
  | texts => exact Read.local_int.bind fun count => Read.local_skipTexts _

theorem local_skipParts (parts : List OperandPart) : Local (skipParts parts) := by
  induction parts with
  | nil => exact Local.pure _
  | cons part parts ih => exact part.local_skip.bind fun _ => ih

theorem Opcode.local_skipOperands (op : Opcode) : Local op.skipOperands :=
  local_skipParts op.layout

end RuleMachine
