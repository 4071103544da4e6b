/-!
# Kinds of errors
-/

namespace MiniLisp

/-- The kinds of errors that a program of the language can end with. -/
inductive ErrorKind
  /-- No kind in particular; only a host raises it. -/
  | general
  /-- The text is not exactly one well-formed expression. -/
  | parse
  /-- A value has the wrong shape for an operation. -/
  | type
  /-- A callable got the wrong number of arguments. -/
  | arity
  /-- A name is bound nowhere. -/
  | notFound
  /-- Any other failure of evaluation. -/
  | eval
  deriving DecidableEq

def ErrorKind.tag : ErrorKind → String
  | .general => "Error"
  | .parse => "ParseError"
  | .type => "TypeError"
  | .arity => "ArityError"
  | .notFound => "NotFoundError"
  | .eval => "EvalError"

def ErrorKind.line (kind : ErrorKind) (message : String) : String :=
  if message.isEmpty then "Error: " ++ kind.tag else "Error: " ++ kind.tag ++ ": " ++ message

end MiniLisp
