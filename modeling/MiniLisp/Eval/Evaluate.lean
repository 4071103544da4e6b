import MiniLisp.Eval.Call
import MiniLisp.Scope.Basic

/-!
# Evaluation

Symbols mean what the scope binds them to, quoted forms mean their inside, lists are calls, and all
other values mean themselves. The operator of a call comes first; a function then has its operands
evaluated from left to right, a form gets them as they are written.

Evaluation nests with operators, operands, bodies and produced code. `evaluate` takes the number of
levels it may nest and overflows when they are used up.
-/

namespace MiniLisp

/-- Whether a value means itself. -/
def Value.isConstant : Value → Bool
  | symbol _ | quoted _ | cell .. => false
  | _ => true

def evaluateEach (evaluate : Value → Action Value) : List Value → Action (List Value)
  | [] => pure []
  | expr :: rest => do
      let value ← evaluate expr
      let values ← evaluateEach evaluate rest
      return value :: values

/-- Call the value of an operator from `scope` with the operands that are written behind it. -/
def callOperator (evaluate : Evaluator) (turn : Turn) (limit : Nat) (scope : Scope)
    (operands : List Value) (operator : Value) : Action Value :=
  match operator.callKind? with
  | some .function => do
      let args ← evaluateEach (evaluate scope) operands
      Call.function evaluate limit operator args
  | some .form => Call.form evaluate turn limit operator scope operands
  | none => Action.fail limit (.notCallable operator)

/-- One level of evaluation, with `evaluate` for the levels below. -/
def evaluateStep (evaluate : Evaluator) (turn : Turn) (limit : Nat) : Evaluator := fun scope expr =>
  match expr with
  | .symbol name =>
      match scope.get? name with
      | some value => pure value
      | none => Action.fail limit (.unbound name)
  | .quoted inner => pure inner
  | .cell head tail =>
      -- The chain has to be proper before even the operator is evaluated.
      match tail.toList? with
      | none => Action.fail limit .improperList
      | some operands => evaluate scope head >>= callOperator evaluate turn limit scope operands
  | value => pure value

section

variable {evaluate : Evaluator} {turn : Turn} {limit : Nat} {scope : Scope}

theorem callOperator_function {operator : Value} (h : operator.callKind? = some .function)
    (operands : List Value) :
    callOperator evaluate turn limit scope operands operator =
      (evaluateEach (evaluate scope) operands >>= Call.function evaluate limit operator) := by
  rw [callOperator, h]

theorem callOperator_form {operator : Value} (h : operator.callKind? = some .form)
    (operands : List Value) :
    callOperator evaluate turn limit scope operands operator =
      Call.form evaluate turn limit operator scope operands := by
  rw [callOperator, h]

theorem callOperator_none {operator : Value} (h : operator.callKind? = none)
    (operands : List Value) :
    callOperator evaluate turn limit scope operands operator =
      Action.fail limit (.notCallable operator) := by
  rw [callOperator, h]

theorem evaluateStep_bound {name : String} {value : Value} (h : scope.get? name = some value) :
    evaluateStep evaluate turn limit scope (.symbol name) = pure value := by
  rw [evaluateStep, h]

theorem evaluateStep_unbound {name : String} (h : scope.get? name = none) :
    evaluateStep evaluate turn limit scope (.symbol name) = Action.fail limit (.unbound name) := by
  rw [evaluateStep, h]

theorem evaluateStep_quoted (inner : Value) :
    evaluateStep evaluate turn limit scope (.quoted inner) = pure inner := rfl

theorem evaluateStep_improper {tail : Value} (h : tail.toList? = none) (head : Value) :
    evaluateStep evaluate turn limit scope (.cell head tail) = Action.fail limit .improperList := by
  rw [evaluateStep, h]

theorem evaluateStep_call {tail : Value} {operands : List Value} (h : tail.toList? = some operands)
    (head : Value) :
    evaluateStep evaluate turn limit scope (.cell head tail) =
      (evaluate scope head >>= callOperator evaluate turn limit scope operands) := by
  rw [evaluateStep, h]

theorem evaluateStep_constant {expr : Value} (h : expr.isConstant = true) :
    evaluateStep evaluate turn limit scope expr = pure expr := by
  cases expr <;> first | rfl | cases h

end

/-- The value of an expression in a scope, within `limit` levels of nesting. -/
def evaluate (turn : Turn) : Nat → Evaluator
  | 0 => fun _ _ => Action.stop .overflow
  | limit + 1 => evaluateStep (evaluate turn limit) turn limit

/-- The code that a call of a user-defined form stands for; `none` if `expr` is no such call. -/
def expand (turn : Turn) (limit : Nat) (scope : Scope) (expr : Value) : Action (Option Value) :=
  match expr with
  | .cell head tail =>
      match tail.toList? with
      | none => Action.fail limit .improperList
      | some operands => do
          let operator ← evaluate turn limit scope head
          match operator with
          | .compound .form _ home params body =>
              let code ← Call.produce (evaluate turn limit) turn limit home params body operands
              return some code
          -- Calls of functions and of builtin forms stand for nothing else.
          | _ => return none
  | _ => pure none

def defaultLimit : Nat := 1000

end MiniLisp
