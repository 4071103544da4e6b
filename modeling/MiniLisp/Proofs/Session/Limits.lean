import MiniLisp.Proofs.Eval.Limits
import MiniLisp.Proofs.Reader.Limits
import MiniLisp.Session

/-! # A session under two limits

What a line comes to is settled by its interpretation and by the text of the result. A lower limit
makes reading, evaluating, expanding or printing overflow or makes no difference to it, so the reply
to a line is the message that it nests too deep or what it is under a higher limit.
-/

namespace MiniLisp

namespace Session

/-- The reply to a line whose interpretation and printing come to this. -/
def replyOf : Except Stop String → Except Stop String
  | .error .overflow => .ok Error.tooDeep.line
  | .error (.error error) => .ok error.line
  | outcome => outcome

theorem evalLine_eq_replyOf (session : Session) {line : String}
    (nonblank : Text.strip line ≠ "") :
    (session.evalLine line).1.outcome =
      replyOf ((interpret ⟨session.turn, session.verbose⟩ session.limit session.scope
        (Text.strip line) 0).outcome.bind (Value.textWithin session.limit)) := by
  have filled : (Text.strip line).isEmpty = false := by simpa using nonblank
  unfold evalLine eval print
  simp only [filled, Bool.false_eq_true, if_false]
  cases (interpret ⟨session.turn, session.verbose⟩ session.limit session.scope
    (Text.strip line) 0).outcome with
  | error reason => cases reason <;> rfl
  | ok value =>
      unfold Value.textWithin
      by_cases room : value.textDepth ≤ session.limit
      · simp [Except.mapError, Except.bind, room, replyOf]
      · simp [Except.mapError, Except.bind, room, replyOf, Stop.settle]

end Session

section

variable {low high : Nat}

theorem Value.textWithin_limits (h : low ≤ high) (v : Value) :
    v.textWithin low = .error .overflow ∨ v.textWithin low = v.textWithin high :=
  ite_limits h _

theorem approximates_interpret (h : low ≤ high) (turn : Turn) (scope : Scope) (code : String) :
    (interpret turn low scope code).Approximates (interpret turn high scope code) := by
  unfold interpret
  refine (Action.approximates_ofExcept (Reader.parse_limits h code)).bind fun expr => ?_
  refine (approximates_notice h turn _ _).bind fun _ => ?_
  exact approximates_evaluate turn h scope expr

theorem Session.evalLine_limits (h : low ≤ high) (session : Session) (line : String) :
    (({ session with limit := low } : Session).evalLine line).1.outcome = .ok Error.tooDeep.line ∨
      (({ session with limit := low } : Session).evalLine line).1.outcome =
        (({ session with limit := high } : Session).evalLine line).1.outcome := by
  by_cases blank : Text.strip line = ""
  · exact .inr (by simp [evalLine, blank])
  · rw [evalLine_eq_replyOf _ blank, evalLine_eq_replyOf _ blank]
    dsimp only
    rcases approximates_interpret h ⟨session.turn, session.verbose⟩ session.scope
      (Text.strip line) 0 with exceeded | same
    · rw [exceeded]
      exact .inl rfl
    · rw [same]
      cases (interpret ⟨session.turn, session.verbose⟩ high session.scope
        (Text.strip line) 0).outcome with
      | error reason => exact .inr rfl
      | ok value =>
          rcases value.textWithin_limits h with exceeded | same
          · refine .inl ?_
            simp [Except.bind, exceeded, replyOf]
          · exact .inr (congrArg replyOf same)

end

/-- A limit can only turn an answer into an overflow: what ends under a limit, with a result or an
error, is the same run under every higher one. -/
theorem Session.limit_never_changes_answer {low high : Nat} (h : low ≤ high) :
    (∀ text, Reader.parse low text ≠ .error .overflow →
      Reader.parse high text = Reader.parse low text) ∧
    (∀ turn scope expr n, (evaluate turn low scope expr n).outcome ≠ .error .overflow →
      evaluate turn high scope expr n = evaluate turn low scope expr n) ∧
    (∀ turn scope expr n, (expand turn low scope expr n).outcome ≠ .error .overflow →
      expand turn high scope expr n = expand turn low scope expr n) ∧
    (∀ value : Value, value.textWithin low ≠ .error .overflow →
      value.textWithin high = value.textWithin low) ∧
    ∀ (session : Session) (line : String),
      (({ session with limit := low } : Session).evalLine line).1.outcome =
          .ok "Error: EvalError: maximum recursion depth exceeded" ∨
        (({ session with limit := low } : Session).evalLine line).1.outcome =
          (({ session with limit := high } : Session).evalLine line).1.outcome := by
  refine ⟨fun text ends => ?_, fun turn scope expr n ends => ?_, fun turn scope expr n ends => ?_,
    fun value ends => ?_, evalLine_limits h⟩
  · exact ((Reader.parse_limits h text).resolve_left ends).symm
  · exact ((approximates_evaluate turn h scope expr n).resolve_left ends).symm
  · exact ((approximates_expand h turn scope expr n).resolve_left ends).symm
  · exact ((value.textWithin_limits h).resolve_left ends).symm

/-- The left slot of a symbol fails with a message under two levels of nesting, so it does under the
default limit. -/
theorem Session.limit_never_changes_answer_of_failure :
    let expr : Value := .ofList [.symbol "car", .quoted (.symbol "a")]
    (evaluate {} 2 builtin expr 0).outcome = .error (.error (.notCell .car (.symbol "a"))) ∧
      evaluate {} defaultLimit builtin expr 0 = evaluate {} 2 builtin expr 0 := by
  intro expr
  have fails : (evaluate {} 2 builtin expr 0).outcome =
      .error (.error (.notCell .car (.symbol "a"))) := by rfl
  have larger : 2 ≤ defaultLimit := by decide
  refine ⟨fails, (Session.limit_never_changes_answer larger).2.1 {} builtin expr 0 ?_⟩
  rw [fails]
  simp

end MiniLisp
