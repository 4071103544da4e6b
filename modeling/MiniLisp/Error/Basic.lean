import MiniLisp.Text.Quoted
import MiniLisp.Value.Inspect
import MiniLisp.Value.Text

/-!
# Errors

Every way in which reading or evaluating a program can fail, with its kind and its message. The
message of an error is a text of finite values; how deep it nests is `Error.messageDepth`.
-/

namespace MiniLisp

inductive Error
  /-- The text holds no value at all. -/
  | unexpectedEnd
  /-- The text ends after a quote mark. -/
  | emptyQuote
  /-- The text ends inside a list. -/
  | unmatchedOpen
  /-- A list is closed that was not opened. -/
  | unmatchedClose
  /-- A token with this text follows the value. -/
  | trailingInput (text : String)
  /-- A proper list is wanted, and the chain ends in something else. -/
  | improperList
  /-- A list is wanted, and the value is no chain at all. -/
  | notList (value : Value)
  | formalsNotList
  | formalNotSymbol (formal : Value)
  | severalRests
  | restNotLast
  | duplicateFormal (names : List String)
  | notSymbol (key : Value)
  | notCell (op : Native) (value : Value)
  | notCallable (value : Value)
  | wrongArity (callee : String) (arity : Arity) (count : Nat)
  | unbound (name : String)
  /-- Reading, evaluating or printing nests too deep. -/
  | tooDeep
  /-- An error that a host callable fails with. -/
  | raised (kind : ErrorKind) (message : String)

namespace Error

def kind : Error → ErrorKind
  | unexpectedEnd | emptyQuote | unmatchedOpen | unmatchedClose | trailingInput _ => .parse
  | improperList | notList _ | formalsNotList | formalNotSymbol _ | severalRests | restNotLast
  | notSymbol _ | notCell .. => .type
  | duplicateFormal _ | notCallable _ | tooDeep => .eval
  | wrongArity .. => .arity
  | unbound _ => .notFound
  | raised kind _ => kind

def message : Error → String
  | unexpectedEnd => "Unexpected end of input"
  | emptyQuote => "Quote mark with nothing to quote"
  | unmatchedOpen => "Unmatched '('"
  | unmatchedClose => "Unmatched ')'"
  | trailingInput text => "Unexpected trailing input: " ++ Text.quoted text
  | improperList => "Cannot decompose an improper list"
  | notList value => "Expected a list, got " ++ value.inspect
  | formalsNotList => "Formal parameters must be a proper list of symbols"
  | formalNotSymbol formal => "Formal parameter must be a symbol, got " ++ formal.inspect
  | severalRests => "Malformed parameter list: more than one splat formal"
  | restNotLast => "Malformed parameter list: splat formal must be last"
  | duplicateFormal names => "Duplicate formal parameter in " ++ Text.quotedList names
  | notSymbol key => "Cannot bind " ++ key.inspect ++ ": not a symbol"
  | notCell op value => op.name ++ " expects a cell, got " ++ value.text
  | notCallable value => "not callable: " ++ value.text
  | wrongArity callee arity count =>
      callee ++ " expects " ++ arity.text ++ " argument(s), got " ++ toString count
  | unbound name => name
  | tooDeep => "maximum recursion depth exceeded"
  | raised _ message => message

/-- How deep the values nest that the message shows. -/
def messageDepth : Error → Nat
  | notList value | formalNotSymbol value | notSymbol value => value.inspectDepth
  | notCell _ value | notCallable value => value.textDepth
  | _ => 0

def line (error : Error) : String := error.kind.line error.message

end Error

/-- Why an operation stops without a result. -/
inductive Stop
  | error (error : Error)
  /-- The nesting limit is exhausted. -/
  | overflow
  /-- A value was called that is no callable of this kind, or that cannot take apart what it was
  given. -/
  | noRule (kind : CallKind) (shape : Shape)

namespace Stop

/-- Stop with `error`, whose message is written within the limit. -/
def ofError (limit : Nat) (error : Error) : Stop :=
  if error.messageDepth ≤ limit then .error error else .overflow

def noRuleMessage (kind : CallKind) (shape : Shape) : String :=
  match kind with
  | .function => "Unknown function shape: " ++ shape.name
  | .form => "Unknown special form shape: " ++ shape.name

end Stop

end MiniLisp
