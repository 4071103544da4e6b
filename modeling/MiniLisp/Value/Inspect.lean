import MiniLisp.Text.Quoted
import MiniLisp.Value.Basic

/-!
# Inspected values

The text of a value that shows its construction, as diagnostics use it. Unlike the printed text it
nests with every cell, also along a chain: `inspectDepth` says how deep.
-/

namespace MiniLisp.Value

def nativeWord : CallKind → String
  | .function => "native"
  | .form => "special"

def compoundWord : CallKind → String
  | .function => "lambda"
  | .form => "macro"

/-- A callable with a routine, by name and arity. -/
def inspectRoutine (kind : CallKind) (name : String) (arity : Arity) : String :=
  "<" ++ nativeWord kind ++ " " ++ name ++ "/" ++ arity.text ++ ">"

/-- The text of a value that shows how it is built. -/
def inspect : Value → String
  | nil => "nil"
  | symbol name => "Symbol(" ++ Text.quoted name ++ ")"
  | quoted inner => "Quoted(" ++ inner.inspect ++ ")"
  | cell left right => "Cell(" ++ left.inspect ++ ", " ++ right.inspect ++ ")"
  | number n => toString n
  | native op => inspectRoutine op.kind op.name op.arity
  | compound kind _ _ params _ =>
      "<" ++ compoundWord kind ++ " (" ++ " ".intercalate params.written ++ ")>"
  | probe _ p _ => inspectRoutine p.kind p.name p.arity
  | stub kind _ => "<" ++ nativeWord kind ++ ">"

def inspectDepth : Value → Nat
  | quoted inner => inner.inspectDepth + 1
  | cell left right => max left.inspectDepth right.inspectDepth + 1
  | _ => 1

end MiniLisp.Value
