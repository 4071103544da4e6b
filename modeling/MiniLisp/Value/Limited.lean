import MiniLisp.Error.Basic
import MiniLisp.Scope.Inspect
import MiniLisp.Value.Equality

/-!
# Rendering and comparing within a limit

The texts of values and scopes, and equality, for callers that bound how deep they may nest.
-/

namespace MiniLisp

namespace Value

def textWithin (limit : Nat) (v : Value) : Except Stop String :=
  if v.textDepth ≤ limit then .ok v.text else .error .overflow

theorem textWithin_eq_ok_iff {limit : Nat} {v : Value} {text : String} :
    v.textWithin limit = .ok text ↔ v.textDepth ≤ limit ∧ v.text = text := by
  unfold textWithin
  by_cases room : v.textDepth ≤ limit <;> simp [room]

def inspectWithin (limit : Nat) (v : Value) : Except Stop String :=
  if v.inspectDepth ≤ limit then .ok v.inspect else .error .overflow

/-- The name of a symbol, else the inspected text. -/
def labelWithin (limit : Nat) : Value → Except Stop String
  | symbol name => .ok name
  | v => v.inspectWithin limit

/-- Equality, if the values differ or end within the limit. -/
def sameWithin (limit : Nat) (a b : Value) : Except Stop Bool :=
  match same? limit a b with
  | some answer => .ok answer
  | none => .error .overflow

/-- Position of the first value in the list that is the same as `v`; past the end if none is. -/
def firstSame (limit : Nat) (v : Value) : List Value → Except Stop Nat
  | [] => .ok 0
  | w :: rest => do
      if ← sameWithin limit w v then return 0
      return (← firstSame limit v rest) + 1

/-- For each value, the position of the first one that is the same. Values that nest too deep to
be told apart by all their parts are refused. -/
def classes (limit : Nat) (vs : List Value) : Except Stop (List Nat) :=
  if vs.all fun v => v.inspectDepth ≤ limit then vs.mapM fun v => firstSame limit v vs
  else .error .overflow

end Value

def Scope.textWithin (limit : Nat) (scope : Scope) : Except Stop String :=
  if scope.textDepth ≤ limit then .ok scope.text else .error .overflow

end MiniLisp
