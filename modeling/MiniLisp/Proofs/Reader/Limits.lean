import MiniLisp.Reader.Basic

/-! # Reading under two limits

A lower limit makes the reader overflow or makes no difference to it.
-/

namespace MiniLisp.Reader

variable {low high : Nat}

theorem start_limits (h : low ≤ high) (token : Token) (stack : List Pending) :
    start low token stack = .error .overflow ∨ start low token stack = start high token stack := by
  unfold start
  by_cases full : low ≤ stack.length
  · exact .inl (if_pos full)
  · have room : ¬ high ≤ stack.length := by omega
    rw [if_neg full, if_neg room]
    exact .inr rfl

theorem step_limits (h : low ≤ high) (token : Token) (stack : List Pending) :
    step low token stack = .error .overflow ∨ step low token stack = step high token stack := by
  unfold step
  split
  · exact .inr rfl
  · exact start_limits h token _

theorem readFrom_limits (h : low ≤ high) (tokens : List Token) :
    ∀ stack, (readFrom low stack tokens).1 = .error .overflow ∨
      readFrom low stack tokens = readFrom high stack tokens := by
  induction tokens with
  | nil => exact fun _ => .inr rfl
  | cons token tokens ih =>
      intro stack
      unfold readFrom
      rcases step_limits h token stack with exceeded | same
      · rw [exceeded]
        exact .inl rfl
      · rw [same]
        rcases step high token stack with reason | next | value
        · exact .inr rfl
        · exact ih next
        · exact .inr rfl

theorem parse_limits (h : low ≤ high) (text : String) :
    parse low text = .error .overflow ∨ parse low text = parse high text := by
  unfold parse read
  rcases readFrom_limits h (Token.scanText text) [] with exceeded | same
  · rcases hr : readFrom low [] (Token.scanText text) with ⟨result, rest⟩
    rw [hr] at exceeded
    cases exceeded
    exact .inl rfl
  · rw [same]
    exact .inr rfl

end MiniLisp.Reader
