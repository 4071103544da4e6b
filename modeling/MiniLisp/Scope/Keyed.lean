import MiniLisp.Error.Basic
import MiniLisp.Scope.Basic

/-!
# Keyed values

A host binds and looks up keys that are values themselves, or texts. Only symbols can be bound, so
no other value is ever found. Keys are told apart by all their parts: one that nests deeper than
the limit is refused before anything is done with it. A text stands for the symbol of its name
wherever bindings are made or read; only `Scope.findKey` takes a key as it is.
-/

namespace MiniLisp

namespace Value

/-- The value as a key, if it nests within the limit. -/
def asKey (limit : Nat) (key : Value) : Except Stop Value :=
  if key.inspectDepth ≤ limit then .ok key else .error .overflow

/-- The name that a symbol or a routine goes by. -/
def name? : Value → Option String
  | symbol name => some name
  | native op => some op.name
  | probe _ p _ => some p.name
  | _ => none

end Value

namespace Frame

/-- The names of keyed values, or the first key that is no symbol. -/
def keyed : List (Value × Value) → Except Value (List (String × Value))
  | [] => .ok []
  | (.symbol name, value) :: rest => (keyed rest).map ((name, value) :: ·)
  | (key, _) :: _ => .error key

/-- The frame that binds each key to its value, made in order once all keys are admitted. -/
def ofKeyed (limit : Nat) (bindings : List (Value × Value)) : Except Stop Frame := do
  bindings.forM fun binding => discard (binding.1.asKey limit)
  match keyed bindings with
  | .ok bindings => return ofList bindings
  | .error key => throw (.ofError limit (.notSymbol key))

end Frame

inductive Key
  | text (name : String)
  | value (key : Value)

/-- The key with a text as the symbol of that name. -/
def Key.toValue : Key → Value
  | text name => .symbol name
  | value key => key

namespace Scope

/-- The scope with a frame of `bindings` in front of `outer`. -/
def extend (limit : Nat) (outer : Scope) (bindings : List (Key × Value)) : Except Stop Scope := do
  let frame ← Frame.ofKeyed limit (bindings.map fun binding => (binding.1.toValue, binding.2))
  return frame :: outer

/-- The innermost scope of the chain that binds the key itself. A text is no symbol. -/
def findKey (limit : Nat) (scope : Scope) : Key → Except Stop (Option Scope)
  | .text _ => return none
  | .value key => do
      match ← key.asKey limit with
      | .symbol name => return scope.find? name
      | _ => return none

def containsKey (limit : Nat) (scope : Scope) (key : Key) : Except Stop Bool := do
  return (← scope.findKey limit (.value key.toValue)).isSome

/-- What the key means. One that is not bound is reported by its name; without a name there is
nothing to report. -/
def lookup (limit : Nat) (scope : Scope) (key : Key) : Except Stop (Option Value) := do
  match ← key.toValue.asKey limit with
  | .symbol name =>
      match scope.get? name with
      | some value => return some value
      | none => throw (.error (.unbound name))
  | value =>
      -- Nothing but a symbol is ever bound, yet routines have names to be reported by.
      match value.name? with
      | some name => throw (.error (.unbound name))
      | none => return none

end Scope

end MiniLisp
