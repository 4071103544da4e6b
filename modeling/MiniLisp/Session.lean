import MiniLisp.Builtin
import MiniLisp.Eval.Evaluate
import MiniLisp.Reader.Basic
import MiniLisp.Value.Limited

/-!
# Sessions

A session evaluates one expression after the other in a scope that only grows: a binding made by
the host is a new frame in front of the others. A failed evaluation leaves the scope as it was.
Inside a session, nesting beyond the limit is an error like any other.
-/

namespace MiniLisp

structure Session where
  scope : Scope := builtin
  /-- The turn of the next evaluation. -/
  turn : Nat := 0
  verbose : Bool := false
  limit : Nat := defaultLimit

/-- Overflow as the error it is inside a session. -/
def Stop.settle : Stop → Stop
  | .overflow => .error .tooDeep
  | reason => reason

def interpret (turn : Turn) (limit : Nat) (scope : Scope) (code : String) : Action Value := do
  let expr ← Action.ofExcept (Reader.parse limit code)
  turn.notice limit (.parsed expr) expr
  evaluate turn limit scope expr

namespace Session

def bind (session : Session) (name : String) (value : Value) : Session :=
  { session with scope := [(name, value)] :: session.scope }

/-- Evaluate exactly one expression. -/
def eval (session : Session) (code : String) : Run Value × Session :=
  let run := interpret ⟨session.turn, session.verbose⟩ session.limit session.scope code 0
  ({ run with outcome := run.outcome.mapError Stop.settle },
   { session with turn := session.turn + 1 })

def print (session : Session) (value : Value) : Except Stop String :=
  (value.textWithin session.limit).mapError Stop.settle

/-- Evaluate one line of input and render the result or the error. A blank line gives nothing. -/
def evalLine (session : Session) (line : String) : Run String × Session :=
  let line := Text.strip line
  if line.isEmpty then (⟨[], 0, .ok ""⟩, session)
  else
    let (run, next) := session.eval line
    let events := .started line :: run.events
    -- Printing the result may fail as well, and then its error is the reply.
    match run.outcome.bind session.print with
    | .error (.error error) => (⟨events ++ [.failed error line], run.built, .ok error.line⟩, next)
    | outcome => (⟨events, run.built, outcome⟩, next)

end Session

end MiniLisp
