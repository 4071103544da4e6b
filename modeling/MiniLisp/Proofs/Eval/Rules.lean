import MiniLisp.Eval.Evaluate

/-! # The rules of evaluation

What evaluation comes to, said without an evaluator and without a limit. A derivation gives the
events in order, the number of callables that have been built, and a value or an error. There are
four judgements: an expression is evaluated in a scope, operands are evaluated from left to right, a
function is called with arguments, and a form is called from a scope with operands as they are
written. Nothing follows an error.
-/

namespace MiniLisp

/-- How an evaluation ends that no limit cuts short. -/
structure Finish (α : Type) where
  events : List Event
  built : Nat
  outcome : Except Error α

def Finish.run {α : Type} (finish : Finish α) : Run α :=
  ⟨finish.events, finish.built, finish.outcome.mapError .error⟩

/-- The name that messages give a callable, and its arity. -/
def Value.signature? : Value → Option (String × Arity)
  | native op => some (op.name, op.arity)
  | compound kind _ _ params _ => some (compoundWord kind, params.arity)
  | probe _ p _ => some (p.name, p.arity)
  | _ => none

def Native.builds? : Native → Option CallKind
  | lambda => some .function
  | expander => some .form
  | _ => none

def Probe.outcome (p : Probe) (answer : Value) : Except Error Value :=
  match p.fault with
  | some (kind, message) => .error (.raised kind message)
  | none => .ok answer

/-- The parameters that formals describe, or what is wrong with them. -/
def Params.described (formals : Value) : Except Error Params :=
  match formals.toList? with
  | none => .error .formalsNotList
  | some items =>
      match symbolNames items with
      | .error item => .error (.formalNotSymbol item)
      | .ok names => ofWritten names

mutual

/-- An expression is evaluated in a scope, after `n` callables have been built. -/
inductive Evaluates (turn : Nat) : Scope → Value → Nat → Finish Value → Prop
  | constant {scope : Scope} {expr : Value} {n : Nat} : expr.isConstant = true →
      Evaluates turn scope expr n ⟨[], n, .ok expr⟩
  | bound {scope : Scope} {name : String} {value : Value} {n : Nat} :
      scope.get? name = some value → Evaluates turn scope (.symbol name) n ⟨[], n, .ok value⟩
  | unbound {scope : Scope} {name : String} {n : Nat} : scope.get? name = none →
      Evaluates turn scope (.symbol name) n ⟨[], n, .error (.unbound name)⟩
  | quoted {scope : Scope} {inner : Value} {n : Nat} :
      Evaluates turn scope (.quoted inner) n ⟨[], n, .ok inner⟩
  | improper {scope : Scope} {head tail : Value} {n : Nat} : tail.toList? = none →
      Evaluates turn scope (.cell head tail) n ⟨[], n, .error .improperList⟩
  | operatorFails {scope : Scope} {head tail : Value} {operands : List Value} {n m : Nat}
      {events : List Event} {error : Error} : tail.toList? = some operands →
      Evaluates turn scope head n ⟨events, m, .error error⟩ →
      Evaluates turn scope (.cell head tail) n ⟨events, m, .error error⟩
  | notCallable {scope : Scope} {head tail operator : Value} {operands : List Value} {n m : Nat}
      {events : List Event} : tail.toList? = some operands →
      Evaluates turn scope head n ⟨events, m, .ok operator⟩ → operator.callKind? = none →
      Evaluates turn scope (.cell head tail) n ⟨events, m, .error (.notCallable operator)⟩
  | operandFails {scope : Scope} {head tail operator : Value} {operands : List Value}
      {n m k : Nat} {events more : List Event} {error : Error} : tail.toList? = some operands →
      Evaluates turn scope head n ⟨events, m, .ok operator⟩ →
      operator.callKind? = some .function →
      EvaluatesEach turn scope operands m ⟨more, k, .error error⟩ →
      Evaluates turn scope (.cell head tail) n ⟨events ++ more, k, .error error⟩
  | function {scope : Scope} {head tail operator : Value} {operands args : List Value}
      {n m k : Nat} {events more : List Event} {last : Finish Value} :
      tail.toList? = some operands → Evaluates turn scope head n ⟨events, m, .ok operator⟩ →
      operator.callKind? = some .function →
      EvaluatesEach turn scope operands m ⟨more, k, .ok args⟩ → Applies turn operator args k last →
      Evaluates turn scope (.cell head tail) n
        ⟨events ++ (more ++ last.events), last.built, last.outcome⟩
  | form {scope : Scope} {head tail operator : Value} {operands : List Value} {n m : Nat}
      {events : List Event} {last : Finish Value} : tail.toList? = some operands →
      Evaluates turn scope head n ⟨events, m, .ok operator⟩ → operator.callKind? = some .form →
      Transforms turn operator scope operands m last →
      Evaluates turn scope (.cell head tail) n ⟨events ++ last.events, last.built, last.outcome⟩

/-- Operands are evaluated from left to right, up to the first that fails. -/
inductive EvaluatesEach (turn : Nat) : Scope → List Value → Nat → Finish (List Value) → Prop
  | nil {scope : Scope} {n : Nat} : EvaluatesEach turn scope [] n ⟨[], n, .ok []⟩
  | headFails {scope : Scope} {expr : Value} {exprs : List Value} {n m : Nat}
      {events : List Event} {error : Error} :
      Evaluates turn scope expr n ⟨events, m, .error error⟩ →
      EvaluatesEach turn scope (expr :: exprs) n ⟨events, m, .error error⟩
  | tailFails {scope : Scope} {expr value : Value} {exprs : List Value} {n m k : Nat}
      {events more : List Event} {error : Error} :
      Evaluates turn scope expr n ⟨events, m, .ok value⟩ →
      EvaluatesEach turn scope exprs m ⟨more, k, .error error⟩ →
      EvaluatesEach turn scope (expr :: exprs) n ⟨events ++ more, k, .error error⟩
  | cons {scope : Scope} {expr value : Value} {exprs values : List Value} {n m k : Nat}
      {events more : List Event} : Evaluates turn scope expr n ⟨events, m, .ok value⟩ →
      EvaluatesEach turn scope exprs m ⟨more, k, .ok values⟩ →
      EvaluatesEach turn scope (expr :: exprs) n ⟨events ++ more, k, .ok (value :: values)⟩

/-- A function is called with arguments. The body of a user-defined one is evaluated in a child of
the scope that it was built in. -/
inductive Applies (turn : Nat) : Value → List Value → Nat → Finish Value → Prop
  | wrongArity {callee : Value} {name : String} {arity : Arity} {args : List Value} {n : Nat} :
      callee.callKind? = some .function → callee.signature? = some (name, arity) →
      arity.accepts args.length = false →
      Applies turn callee args n ⟨[], n, .error (.wrongArity name arity args.length)⟩
  | cons {left right : Value} {n : Nat} :
      Applies turn (.native .cons) [left, right] n ⟨[], n, .ok (.cell left right)⟩
  | car {left right : Value} {n : Nat} :
      Applies turn (.native .car) [.cell left right] n ⟨[], n, .ok left⟩
  | cdr {left right : Value} {n : Nat} :
      Applies turn (.native .cdr) [.cell left right] n ⟨[], n, .ok right⟩
  | notCell {op : Native} {value : Value} {n : Nat} : op = .car ∨ op = .cdr →
      value.isCell = false →
      Applies turn (.native op) [value] n ⟨[], n, .error (.notCell op value)⟩
  | list {args : List Value} {n : Nat} :
      Applies turn (.native .list) args n ⟨[], n, .ok (.ofList args)⟩
  | closure {birth : Birth} {home : Scope} {params : Params} {body : Value} {args : List Value}
      {frame : Frame} {n : Nat} {last : Finish Value} : params.bind? args = some frame →
      Evaluates turn (frame :: home) body n last →
      Applies turn (.compound .function birth home params body) args n last
  | host {birth : Birth} {p : Probe} {answer : Value} {args : List Value} {n : Nat} :
      p.kind = .function → p.arity.accepts args.length = true →
      Applies turn (.probe birth p answer) args n
        ⟨[.called (Call.note p args)], n, p.outcome answer⟩

/-- A form is called from a scope with operands as they are written. A user-defined one produces
code in a child of the scope that it was built in; the code is evaluated where the call stands. -/
inductive Transforms (turn : Nat) : Value → Scope → List Value → Nat → Finish Value → Prop
  | wrongArity {callee : Value} {name : String} {arity : Arity} {scope : Scope}
      {operands : List Value} {n : Nat} : callee.callKind? = some .form →
      callee.signature? = some (name, arity) → arity.accepts operands.length = false →
      Transforms turn callee scope operands n
        ⟨[], n, .error (.wrongArity name arity operands.length)⟩
  | quote {scope : Scope} {form : Value} {n : Nat} :
      Transforms turn (.native .quote) scope [form] n ⟨[], n, .ok form⟩
  | malformed {op : Native} {kind : CallKind} {scope : Scope} {formals body : Value} {n : Nat}
      {error : Error} : op.builds? = some kind → Params.described formals = .error error →
      Transforms turn (.native op) scope [formals, body] n ⟨[], n, .error error⟩
  | built {op : Native} {kind : CallKind} {scope : Scope} {formals body : Value} {params : Params}
      {n : Nat} : op.builds? = some kind → Params.described formals = .ok params →
      Transforms turn (.native op) scope [formals, body] n
        ⟨[.built (.compound kind ⟨turn, n⟩ scope params body)], n + 1,
          .ok (.compound kind ⟨turn, n⟩ scope params body)⟩
  | productionFails {birth : Birth} {home scope : Scope} {params : Params} {body : Value}
      {operands : List Value} {frame : Frame} {n m : Nat} {events : List Event} {error : Error} :
      params.bind? operands = some frame →
      Evaluates turn (frame :: home) body n ⟨events, m, .error error⟩ →
      Transforms turn (.compound .form birth home params body) scope operands n
        ⟨events, m, .error error⟩
  | expanded {birth : Birth} {home scope : Scope} {params : Params} {body code : Value}
      {operands : List Value} {frame : Frame} {n m : Nat} {events : List Event}
      {last : Finish Value} : params.bind? operands = some frame →
      Evaluates turn (frame :: home) body n ⟨events, m, .ok code⟩ →
      Evaluates turn scope code m last →
      Transforms turn (.compound .form birth home params body) scope operands n
        ⟨events ++ .expanded code :: last.events, last.built, last.outcome⟩
  | host {birth : Birth} {p : Probe} {answer : Value} {scope : Scope} {operands : List Value}
      {n : Nat} : p.kind = .form → p.arity.accepts operands.length = true →
      Transforms turn (.probe birth p answer) scope operands n
        ⟨[.called (Call.note p operands)], n, p.outcome answer⟩

end

end MiniLisp
