import MiniLisp.Call.Formals
import MiniLisp.Eval.Action

/-!
# Calls

What each kind of callable does with its arguments or operands. The arity is checked first; what a
routine then takes apart is what the check has let through. User-defined callables evaluate their
bodies, so every rule that needs an evaluator takes it as a parameter.
-/

namespace MiniLisp

abbrev Evaluator := Scope → Value → Action Value

/-- The circumstances of an evaluation: the turn that dates the callables it builds, and whether
its notices are written out. A notice is written within the nesting limit. -/
structure Turn where
  number : Nat := 0
  verbose : Bool := false

namespace Turn

def notice (turn : Turn) (limit : Nat) (event : Event) (value : Value) : Action Unit := do
  if turn.verbose then Action.within limit value.inspectDepth
  Action.emit event

def build (turn : Turn) (limit : Nat) (kind : CallKind) (scope : Scope) (formals body : Value) :
    Action Value := do
  let params ← Action.ofExcept (Params.ofValue limit formals)
  let serial ← Action.nextSerial
  let callable := Value.compound kind ⟨turn.number, serial⟩ scope params body
  turn.notice limit (.built callable) callable
  return callable

theorem notice_of_room (turn : Turn) {limit : Nat} (event : Event) {value : Value}
    (room : value.inspectDepth ≤ limit) : turn.notice limit event value = Action.emit event := by
  unfold notice Action.within
  rw [if_pos room]
  split <;> rfl

/-- A callable is built from formals that describe its parameters, and noticed. -/
theorem build_of_described (turn : Turn) {limit : Nat} {formals : Value} {params : Params}
    (described : Params.ofValue (limit + 1) formals = .ok params) (kind : CallKind) (scope : Scope)
    (body : Value) (n : Nat) :
    turn.build (limit + 1) kind scope formals body n =
      ⟨[.built (.compound kind ⟨turn.number, n⟩ scope params body)], n + 1,
        .ok (.compound kind ⟨turn.number, n⟩ scope params body)⟩ := by
  let callable := Value.compound kind ⟨turn.number, n⟩ scope params body
  have room : callable.inspectDepth ≤ limit + 1 := Nat.le_add_left 1 limit
  have noticed : (turn.notice (limit + 1) (.built callable) callable >>= fun _ => pure callable)
      (n + 1) = ⟨[.built callable], n + 1, .ok callable⟩ := by
    rw [turn.notice_of_room _ room]
    rfl
  unfold build
  rw [described]
  exact noticed

end Turn

namespace Call

def checkArity (limit : Nat) (callee : String) (arity : Arity) (args : List Value) : Action Unit :=
  if arity.accepts args.length then pure ()
  else Action.fail limit (.wrongArity callee arity args.length)

/-- Evaluate the body of a user-defined callable with its parameters bound to `args`. -/
def enter (evaluate : Evaluator) (limit : Nat) (kind : CallKind) (scope : Scope) (params : Params)
    (body : Value) (args : List Value) : Action Value := do
  checkArity limit (Value.compoundWord kind) params.arity args
  match params.bind? args with
  | some frame => evaluate (frame :: scope) body
  -- What the arity accepts can be bound: see `enter_eq`.
  | none => Action.stop (.noRule kind (.compound kind))

theorem checkArity_bind (limit : Nat) (callee : String) (arity : Arity) (args : List Value)
    (next : Unit → Action α) :
    (checkArity limit callee arity args >>= next) =
      if arity.accepts args.length then next ()
      else Action.fail limit (.wrongArity callee arity args.length) := by
  unfold checkArity
  split
  · exact Action.pure_bind () next
  · exact Action.stop_bind _ next

/-- The arity accepts what the parameters can bind, so a call either enters or is refused. -/
theorem enter_eq (evaluate : Evaluator) (limit : Nat) (kind : CallKind) (scope : Scope)
    (params : Params) (body : Value) (args : List Value) :
    enter evaluate limit kind scope params body args =
      match params.bind? args with
      | some frame => evaluate (frame :: scope) body
      | none => Action.fail limit (.wrongArity (Value.compoundWord kind) params.arity args.length) := by
  have fits := params.bind?_isSome args
  unfold enter
  rw [checkArity_bind]
  cases h : params.bind? args with
  | some frame =>
      rw [h, Option.isSome_some] at fits
      rw [← fits, if_pos rfl]
  | none =>
      rw [h, Option.isSome_none] at fits
      rw [← fits, if_neg Bool.false_ne_true]

/-- The line that records the call of a host callable. -/
def note (p : Probe) (args : List Value) : String :=
  p.name ++ "(" ++ " ".intercalate (args.map Value.text) ++ ")"

/-- Record the call of a host callable, then fail or answer as it is set up to. -/
def probe (limit : Nat) (p : Probe) (answer : Value) (args : List Value) : Action Value := do
  checkArity limit p.name p.arity args
  -- The note shows the arguments, so their texts need room before it is made.
  args.forM fun arg => Action.within limit arg.textDepth
  Action.emit (.called (note p args))
  match p.fault with
  | some (kind, message) => Action.fail limit (.raised kind message)
  | none => return answer

def native (limit : Nat) (op : Native) (args : List Value) : Action Value := do
  checkArity limit op.name op.arity args
  match op, args with
  | .cons, [left, right] => pure (.cell left right)
  | .car, [.cell left _] => pure left
  | .car, [value] => Action.fail limit (.notCell .car value)
  | .cdr, [.cell _ right] => pure right
  | .cdr, [value] => Action.fail limit (.notCell .cdr value)
  | .list, args => pure (.ofList args)
  | op, _ => Action.stop (.noRule .function (.routine op.kind))

def function (evaluate : Evaluator) (limit : Nat) (callee : Value) (args : List Value) :
    Action Value :=
  match callee with
  | .native op =>
      if op.kind = .function then native limit op args
      else Action.stop (.noRule .function callee.shape)
  | .compound .function _ scope params body => enter evaluate limit .function scope params body args
  | .probe _ p answer =>
      if p.kind = .function then probe limit p answer args
      else Action.stop (.noRule .function callee.shape)
  | _ => Action.stop (.noRule .function callee.shape)

/-- The code that a user-defined form makes of its operands. -/
def produce (evaluate : Evaluator) (turn : Turn) (limit : Nat) (scope : Scope) (params : Params)
    (body : Value) (operands : List Value) : Action Value := do
  let code ← enter evaluate limit .form scope params body operands
  turn.notice limit (.expanded code) code
  return code

def nativeForm (turn : Turn) (limit : Nat) (op : Native) (scope : Scope) (operands : List Value) :
    Action Value := do
  checkArity limit op.name op.arity operands
  match op, operands with
  | .quote, [form] => pure form
  | .lambda, [formals, body] => turn.build limit .function scope formals body
  | .expander, [formals, body] => turn.build limit .form scope formals body
  | op, _ => Action.stop (.noRule .form (.routine op.kind))

/-- Call a form from `scope` with operands as they are written. What a user-defined form produces
is evaluated in `scope`. -/
def form (evaluate : Evaluator) (turn : Turn) (limit : Nat) (callee : Value) (scope : Scope)
    (operands : List Value) : Action Value :=
  match callee with
  | .native op =>
      if op.kind = .form then nativeForm turn limit op scope operands
      else Action.stop (.noRule .form callee.shape)
  | .compound .form _ home params body => do
      let code ← produce evaluate turn limit home params body operands
      -- The body belongs to where the form was built, the code to where it is called.
      evaluate scope code
  | .probe _ p answer =>
      if p.kind = .form then probe limit p answer operands
      else Action.stop (.noRule .form callee.shape)
  | _ => Action.stop (.noRule .form callee.shape)

section

variable (evaluate : Evaluator) (turn : Turn) (limit : Nat) (scope : Scope) (args : List Value)

theorem function_native {op : Native} (h : op.kind = .function) :
    function evaluate limit (.native op) args = native limit op args := if_pos h

theorem function_probe {p : Probe} (h : p.kind = .function) (birth : Birth) (answer : Value) :
    function evaluate limit (.probe birth p answer) args = probe limit p answer args := if_pos h

theorem form_native {op : Native} (h : op.kind = .form) :
    form evaluate turn limit (.native op) scope args = nativeForm turn limit op scope args := if_pos h

theorem form_probe {p : Probe} (h : p.kind = .form) (birth : Birth) (answer : Value) :
    form evaluate turn limit (.probe birth p answer) scope args = probe limit p answer args :=
  if_pos h

end

end Call

/-- The callables of a kind, by what a call of them does. -/
inductive Value.Callable (kind : CallKind) : Value → Prop
  | native {op : Native} : op.kind = kind → Callable kind (.native op)
  | compound {birth : Birth} {scope : Scope} {params : Params} {body : Value} :
      Callable kind (.compound kind birth scope params body)
  | probe {birth : Birth} {p : Probe} {answer : Value} : p.kind = kind →
      Callable kind (.probe birth p answer)
  | stub {birth : Birth} : Callable kind (.stub kind birth)

theorem Value.callable_of_callKind? {callee : Value} {kind : CallKind}
    (h : callee.callKind? = some kind) : callee.Callable kind := by
  cases callee with
  | native op => exact .native (Option.some.inj h)
  | compound => cases h; exact .compound
  | probe birth p answer => exact .probe (Option.some.inj h)
  | stub => cases h; exact .stub
  | _ => cases h

end MiniLisp
