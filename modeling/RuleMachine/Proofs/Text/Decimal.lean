import Mathlib.Algebra.Group.Nat.Defs

set_option autoImplicit false

namespace RuleMachine

theorem repr_injective {m n : Nat} (h : m.repr = n.repr) : m = n := by
  have hdigits := congrArg String.toList h
  rw [Nat.toList_repr, Nat.toList_repr] at hdigits
  have hvalue := congrArg (Nat.ofDigitChars 10 · 0) hdigits
  simpa [Nat.ofDigitChars_ten_toDigits] using hvalue

theorem isDigit_of_mem_repr {n : Nat} {c : Char} (h : c ∈ n.repr.toList) : c.isDigit = true := by
  rw [Nat.toList_repr] at h
  exact Nat.isDigit_of_mem_toDigits (by omega) (by omega) h

theorem utf8ByteSize_ofList_digits {l : List Char} (h : ∀ c ∈ l, c.isDigit = true) :
    (String.ofList l).utf8ByteSize = l.length := by
  induction l with
  | nil => simp
  | cons c l ih =>
    obtain ⟨hc, hl⟩ := List.forall_mem_cons.1 h
    simp only [Char.isDigit, Bool.and_eq_true, decide_eq_true_eq] at hc
    have hchar : c.utf8Size = 1 := Char.utf8Size_eq_one_iff.2 (UInt32.le_trans hc.2 (by decide))
    rw [String.ofList_cons, String.utf8ByteSize_append, String.utf8ByteSize_singleton, hchar,
      ih hl, List.length_cons, Nat.add_comm]

theorem utf8ByteSize_repr (n : Nat) : n.repr.utf8ByteSize = n.repr.length := by
  have hbytes := utf8ByteSize_ofList_digits fun c hc => isDigit_of_mem_repr (n := n) hc
  rwa [String.ofList_toList, String.length_toList] at hbytes

theorem utf8ByteSize_repr_le {n : Nat} (h : n < 2 ^ 32) : n.repr.utf8ByteSize ≤ 10 := by
  rw [utf8ByteSize_repr, Nat.length_repr_le_iff (by omega)]
  omega

theorem utf8ByteSize_repr_mono {m n : Nat} (h : m ≤ n) :
    m.repr.utf8ByteSize ≤ n.repr.utf8ByteSize := by
  rw [utf8ByteSize_repr, utf8ByteSize_repr]
  have hpos : 0 < n.repr.length := Nat.length_repr_pos
  have hn : n < 10 ^ n.repr.length := (Nat.length_repr_le_iff hpos).1 (Nat.le_refl _)
  exact (Nat.length_repr_le_iff hpos).2 (by omega)

theorem repr_append_inj {m n : Nat} {c : Char} {s t : List Char} (hc : c.isDigit = false)
    (h : m.repr.toList ++ c :: s = n.repr.toList ++ c :: t) : m = n := by
  have hdigits : ∀ {k : Nat}, ∀ d ∈ k.repr.toList, d ≠ c := by
    intro k d hd he
    have hdigit := isDigit_of_mem_repr hd
    rw [he, hc] at hdigit
    cases hdigit
  have hfront : ∀ (k : Nat) (r : List Char),
      (k.repr.toList ++ c :: r).takeWhile (· != c) = k.repr.toList := by
    intro k r
    rw [List.takeWhile_append_of_pos fun d hd => by simpa using hdigits d hd,
      List.takeWhile_cons_of_neg (by simp), List.append_nil]
  have hsame := congrArg (List.takeWhile (· != c)) h
  rw [hfront, hfront] at hsame
  exact repr_injective (String.toList_injective hsame)

end RuleMachine
