import MiniLisp.Scope.Basic
import MiniLisp.Value.Inspect

/-!
# Inspected scopes
-/

namespace MiniLisp.Scope

/-- The bindings of the innermost frame, and whether there are frames around it. -/
def text (scope : Scope) : String :=
  let bindings := scope.headD []
  let inner := ", ".intercalate (bindings.map fun binding => binding.1 ++ ": " ++ binding.2.inspect)
  "\x7b" ++ inner ++ "\x7d" ++ (if scope.length ≤ 1 then "" else " -> ...")

def textDepth (scope : Scope) : Nat :=
  (scope.headD []).foldl (fun depth binding => max depth binding.2.inspectDepth) 0

def inspect (scope : Scope) : String :=
  "<Scope depth=" ++ toString scope.depth ++ " names=" ++ toString (scope.headD []).length ++ ">"

end MiniLisp.Scope
