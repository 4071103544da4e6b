import MiniLisp.Call.Params
import MiniLisp.Error.Kind

/-!
# Values

Code and data are the same values. Symbols, cells and quoted forms are what the reader produces;
callables enter through the builtin scope, through evaluation and through the host.

A callable takes its operands evaluated (a function) or as they are written (a form). User-defined
callables are equal only to themselves, so each one carries the birth that tells it from all
others.
-/

namespace MiniLisp

/-- What a callable receives: evaluated arguments or raw operands. -/
inductive CallKind
  | function
  | form
  deriving DecidableEq

inductive Native
  | cons
  | car
  | cdr
  | list
  | quote
  | lambda
  | expander
  deriving DecidableEq

namespace Native

def name : Native → String
  | cons => "cons"
  | car => "car"
  | cdr => "cdr"
  | list => "list"
  | quote => "quote"
  | lambda => "lambda"
  | expander => "macro"

def kind : Native → CallKind
  | cons | car | cdr | list => .function
  | quote | lambda | expander => .form

def arity : Native → Arity
  | cons => ⟨2, false⟩
  | car => ⟨1, false⟩
  | cdr => ⟨1, false⟩
  | list => ⟨0, true⟩
  | quote => ⟨1, false⟩
  | lambda => ⟨2, false⟩
  | expander => ⟨2, false⟩

end Native

/-- Where a callable came into being: the turn of the session and its number within that turn. -/
structure Birth where
  turn : Nat
  serial : Nat
  deriving DecidableEq

/-- A callable supplied by the host. A call is recorded under its name; it then fails with `fault`,
or gives a fixed answer. -/
structure Probe where
  kind : CallKind
  name : String
  arity : Arity
  fault : Option (ErrorKind × String) := none
  deriving DecidableEq

inductive Value
  | nil
  | symbol (name : String)
  /-- A form behind a quote mark; evaluates to `inner`. -/
  | quoted (inner : Value)
  | cell (left right : Value)
  /-- An integer of the host: prints in decimal and evaluates to itself. -/
  | number (value : Int)
  | native (op : Native)
  /-- A user-defined callable with the scope it was built in, as frames from the innermost. A form
  of this kind produces code from its operands, which then runs in the caller's scope. -/
  | compound (kind : CallKind) (birth : Birth) (scope : List (List (String × Value)))
      (params : Params) (body : Value)
  | probe (birth : Birth) (probe : Probe) (answer : Value)
  /-- A callable of the host without a way to call it. -/
  | stub (kind : CallKind) (birth : Birth)

/-- The bindings of one scope, in order of first insertion; no name occurs twice. -/
abbrev Frame := List (String × Value)

/-- A chain of frames, innermost first. -/
abbrev Scope := List Frame

instance : Inhabited Value := ⟨.nil⟩

namespace Value

/-- Whether the value can be called, and with what. -/
def callKind? : Value → Option CallKind
  | native op => some op.kind
  | compound kind .. => some kind
  | probe _ p _ => some p.kind
  | stub kind _ => some kind
  | _ => none

/-- The arity of a callable that can really be called. -/
def arity? : Value → Option Arity
  | native op => some op.arity
  | compound _ _ _ params _ => some params.arity
  | probe _ p _ => some p.arity
  | _ => none

def isCell : Value → Bool
  | cell .. => true
  | _ => false

/-- Whether a host takes the value for true: all but nil and zero. -/
def truthy : Value → Bool
  | nil => false
  | number n => n != 0
  | _ => true

end Value

/-- The shapes of values that messages can name. -/
inductive Shape
  | nil
  | symbol
  | quoted
  | cell
  | number
  /-- A builtin or host callable with a routine. -/
  | routine (kind : CallKind)
  | compound (kind : CallKind)
  | stub (kind : CallKind)
  deriving DecidableEq

def Shape.name : Shape → String
  | nil => "NilType"
  | symbol => "Symbol"
  | quoted => "Quoted"
  | cell => "Cell"
  | number => "int"
  | routine .function => "NativeFunction"
  | routine .form => "NativeSpecialForm"
  | compound .function => "Closure"
  | compound .form => "Macro"
  | stub .function => "Function"
  | stub .form => "SpecialForm"

def Value.shape : Value → Shape
  | nil => .nil
  | symbol _ => .symbol
  | quoted _ => .quoted
  | cell .. => .cell
  | number _ => .number
  | native op => .routine op.kind
  | compound kind .. => .compound kind
  | probe _ p _ => .routine p.kind
  | stub kind _ => .stub kind

end MiniLisp
