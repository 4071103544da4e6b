import MiniLisp.Builtin
import MiniLisp.Proofs.Eval.Adequacy

/-! # The order of evaluation

What happens during an evaluation shows in its trace, where host callables record that they are
called. The operator of a call comes first. A function then has its operands evaluated in the scope
of the call, one after the other, each of them once, before anything else; a form has none of them
evaluated. The trace of a call is made of the traces of these evaluations in that order, and breaks
off with the first of them that fails.
-/

namespace MiniLisp

/-! ## Traces -/

def Event.note? : Event → Option String
  | called note => some note
  | _ => none

section

variable {α β : Type}

/-- The calls of host callables during a run, in order. -/
def Run.trace (run : Run α) : List String := run.events.filterMap Event.note?

theorem Run.trace_append (earlier events : List Event) (built : Nat) (outcome : Except Stop α) :
    Run.trace ⟨earlier ++ events, built, outcome⟩ =
      earlier.filterMap Event.note? ++ Run.trace ⟨events, built, outcome⟩ :=
  List.filterMap_append

/-- The run goes on behind a trace as `last` does, to the same end. -/
structure Run.EndsIn (run : Run α) (before : List String) (last : Run α) : Prop where
  trace : run.trace = before ++ last.trace
  built : run.built = last.built
  outcome : run.outcome = last.outcome

theorem Run.EndsIn.trans {run mid last : Run α} {before between : List String}
    (first : run.EndsIn before mid) (second : mid.EndsIn between last) :
    run.EndsIn (before ++ between) last where
  trace := by rw [first.trace, second.trace, List.append_assoc]
  built := first.built.trans second.built
  outcome := first.outcome.trans second.outcome

namespace Action

variable {first : Action α} {next : α → Action β} {n : Nat}

theorem bind_eq_of_error {reason : Stop} (h : (first n).outcome = .error reason) :
    (first >>= next) n = ⟨(first n).events, (first n).built, .error reason⟩ := by
  rcases hf : first n with ⟨events, built, outcome⟩
  rw [hf] at h
  cases h
  exact bind_of_error hf next

theorem bind_eq_of_ok {a : α} (h : (first n).outcome = .ok a) :
    (first >>= next) n =
      ⟨(first n).events ++ (next a (first n).built).events, (next a (first n).built).built,
        (next a (first n).built).outcome⟩ := by
  rcases hf : first n with ⟨events, built, outcome⟩
  rw [hf] at h
  cases h
  exact bind_of_ok hf next

theorem endsIn_of_ok {a : α} (h : (first n).outcome = .ok a) :
    ((first >>= next) n).EndsIn (first n).trace (next a (first n).built) := by
  rw [bind_eq_of_ok h]
  exact ⟨Run.trace_append _ _ _ _, rfl, rfl⟩

theorem endsIn_of_error {first : Action α} {next : α → Action α} {reason : Stop}
    (h : (first n).outcome = .error reason) : ((first >>= next) n).EndsIn [] (first n) := by
  rw [bind_eq_of_error h]
  exact ⟨rfl, rfl, h.symm⟩

end Action

end

/-! ## Operands -/

/-- The expressions are evaluated from left to right, each of them once, and all have a value. Every
run starts with the number of callables that the one before it leaves. -/
inductive InOrder (ev : Value → Action Value) :
    Nat → List Value → List (Run Value) → List Value → Nat → Prop
  | nil {n : Nat} : InOrder ev n [] [] [] n
  | cons {n m : Nat} {expr value : Value} {exprs values : List Value} {runs : List (Run Value)} :
      (ev expr n).outcome = .ok value → InOrder ev (ev expr n).built exprs runs values m →
      InOrder ev n (expr :: exprs) (ev expr n :: runs) (value :: values) m

section

variable {ev : Value → Action Value} {n m : Nat} {exprs values : List Value}
  {runs : List (Run Value)}

/-- What the evaluation of the operands comes to, if all have a value. -/
theorem InOrder.evaluateEach_eq (order : InOrder ev n exprs runs values m) :
    evaluateEach ev exprs n = ⟨runs.flatMap Run.events, m, .ok values⟩ := by
  induction order with
  | nil => rfl
  | @cons n m expr value exprs values runs valued _ ih =>
      have rest : (evaluateEach ev exprs >>= fun values => pure (value :: values))
          (ev expr n).built = ⟨runs.flatMap Run.events, m, .ok (value :: values)⟩ := by
        rw [Action.bind_of_ok ih]
        exact congrArg (Run.mk · m _) (List.append_nil _)
      rw [evaluateEach, Action.bind_eq_of_ok valued, rest, List.flatMap_cons]

/-- An operand that fails behind others that have values is the last that is evaluated. -/
theorem InOrder.evaluateEach_of_error (order : InOrder ev n exprs runs values m) {expr : Value}
    {reason : Stop} (fails : (ev expr m).outcome = .error reason) (after : List Value) :
    evaluateEach ev (exprs ++ expr :: after) n =
      ⟨runs.flatMap Run.events ++ (ev expr m).events, (ev expr m).built, .error reason⟩ := by
  induction order with
  | nil => rw [List.nil_append, evaluateEach, Action.bind_eq_of_error fails, List.flatMap_nil,
      List.nil_append]
  | cons valued _ ih =>
      rw [List.cons_append, evaluateEach, Action.bind_eq_of_ok valued,
        Action.bind_of_error (ih fails), List.flatMap_cons, List.append_assoc]

/-- Either all expressions have values or one of them is the first without. -/
theorem inOrder_or_fails (ev : Value → Action Value) (n : Nat) (exprs : List Value) :
    (∃ runs values m, InOrder ev n exprs runs values m) ∨
      ∃ before expr after runs values m reason, exprs = before ++ expr :: after ∧
        InOrder ev n before runs values m ∧ (ev expr m).outcome = .error reason := by
  induction exprs generalizing n with
  | nil => exact .inl ⟨[], [], n, .nil⟩
  | cons expr exprs ih =>
      cases outcome : (ev expr n).outcome with
      | error reason => exact .inr ⟨[], expr, exprs, [], [], n, reason, rfl, .nil, outcome⟩
      | ok value =>
          rcases ih (ev expr n).built with
            ⟨runs, values, m, order⟩ |
              ⟨before, fault, after, runs, values, m, reason, rfl, order, fails⟩
          · exact .inl ⟨_, _, m, .cons outcome order⟩
          · exact .inr
              ⟨expr :: before, fault, after, _, _, m, reason, rfl, .cons outcome order, fails⟩

theorem trace_flatMap (runs : List (Run Value)) :
    (runs.flatMap Run.events).filterMap Event.note? = runs.flatMap Run.trace := by
  induction runs with
  | nil => rfl
  | cons run runs ih =>
      rw [List.flatMap_cons, List.filterMap_append, ih, List.flatMap_cons]
      rfl

variable {β : Type} {next : List Value → Action β}

theorem InOrder.endsIn (order : InOrder ev n exprs runs values m) :
    ((evaluateEach ev exprs >>= next) n).EndsIn (runs.flatMap Run.trace) (next values m) := by
  rw [Action.bind_of_ok order.evaluateEach_eq, ← trace_flatMap]
  exact ⟨Run.trace_append _ _ _ _, rfl, rfl⟩

theorem InOrder.endsIn_of_error {next : List Value → Action Value}
    (order : InOrder ev n exprs runs values m) {expr : Value} {reason : Stop}
    (fails : (ev expr m).outcome = .error reason) (after : List Value) :
    ((evaluateEach ev (exprs ++ expr :: after) >>= next) n).EndsIn (runs.flatMap Run.trace)
      (ev expr m) := by
  rw [Action.bind_of_error (order.evaluateEach_of_error fails after), ← trace_flatMap]
  exact ⟨Run.trace_append _ _ _ _, rfl, fails.symm⟩

end

/-! ## Calls -/

/-- How the call of a function goes on, once the evaluation of its operator has left `first` and
given `callee`. -/
structure FunctionCallOrder (turn : Turn) (limit : Nat) (scope : Scope) (operands : List Value)
    (callee : Value) (first run : Run Value) : Prop where
  /-- If the operands have values, the call comes after their evaluations. -/
  called : ∀ runs values m,
    InOrder (evaluate turn limit scope) first.built operands runs values m →
      run.EndsIn (first.trace ++ runs.flatMap Run.trace)
        (Call.function (evaluate turn limit) limit callee values m)
  /-- The first operand that fails is the last that is evaluated, and nothing is called. -/
  failed : ∀ before expr after runs values m reason, operands = before ++ expr :: after →
    InOrder (evaluate turn limit scope) first.built before runs values m →
      (evaluate turn limit scope expr m).outcome = .error reason →
        run.EndsIn (first.trace ++ runs.flatMap Run.trace) (evaluate turn limit scope expr m)
  /-- There is no third case. -/
  decided : (∃ runs values m,
      InOrder (evaluate turn limit scope) first.built operands runs values m) ∨
    ∃ before expr after runs values m reason, operands = before ++ expr :: after ∧
      InOrder (evaluate turn limit scope) first.built before runs values m ∧
        (evaluate turn limit scope expr m).outcome = .error reason
  /-- The call starts with the check of the arity, and ends with it if it fails. -/
  refused : ∀ name arity values m, callee.signature? = some (name, arity) →
    arity.accepts (List.length values) = false →
      Call.function (evaluate turn limit) limit callee values m =
        ⟨[], m, .error (.error (.wrongArity name arity values.length))⟩
  /-- The call of a user-defined function is one evaluation of its body. -/
  entered : ∀ birth home params body values frame m,
    callee = .compound .function birth home params body → params.bind? values = some frame →
      Call.function (evaluate turn limit) limit callee values m =
        evaluate turn limit (frame :: home) body m

/-- How the call of a form goes on, once the evaluation of its operator has left `first` and given
`callee`. -/
structure FormCallOrder (turn : Turn) (limit : Nat) (scope : Scope) (operands : List Value)
    (callee : Value) (first run : Run Value) : Prop where
  /-- The form is called with the operands as they are written. -/
  called : run.EndsIn first.trace
    (Call.form (evaluate turn limit) turn limit callee scope operands first.built)
  /-- If the arity does not accept them, nothing has happened since the operator was evaluated. -/
  refused : ∀ name arity, callee.signature? = some (name, arity) →
    arity.accepts (List.length operands) = false →
      run.EndsIn first.trace
        ⟨[], first.built, .error (.error (.wrongArity name arity operands.length))⟩
  /-- A user-defined form evaluates its body once and then, once, the code which that gives. Notice
  of the code takes room if it is written out. -/
  expanded : ∀ birth home params body, callee = .compound .form birth home params body →
    params.arity.accepts (List.length operands) = true →
      ∃ frame, params.bind? operands = some frame ∧
        let production := evaluate turn limit (frame :: home) body first.built
        (∀ reason, production.outcome = .error reason → run.EndsIn first.trace production) ∧
        ∀ code, production.outcome = .ok code →
          ((turn.verbose = true → code.inspectDepth ≤ limit) →
            run.EndsIn (first.trace ++ production.trace)
              (evaluate turn limit scope code production.built)) ∧
          (turn.verbose = true → limit < code.inspectDepth →
            run.EndsIn (first.trace ++ production.trace)
              ⟨[], production.built, .error .overflow⟩)

section

variable {turn : Turn} {limit n : Nat} {scope : Scope} {head callee : Value}
  {operands : List Value} {first run : Run Value}

theorem fail_shallow {α : Type} {error : Error} (shallow : error.messageDepth = 0) (limit n : Nat) :
    (Action.fail limit error : Action α) n = ⟨[], n, .error (.error error)⟩ := by
  have room : error.messageDepth ≤ limit := by omega
  rw [Action.fail, Stop.ofError, if_pos room]
  rfl

theorem evaluate_ofList_cons (head : Value) (operands : List Value) :
    evaluate turn (limit + 1) scope (.ofList (head :: operands)) =
      (evaluate turn limit scope head >>=
        callOperator (evaluate turn limit) turn limit scope operands) := by
  rw [Value.ofList_cons, evaluate, evaluateStep_call (Value.toList?_ofList operands)]

theorem functionCallOrder_of_endsIn (function : callee.callKind? = some .function)
    (goes : run.EndsIn first.trace
      (callOperator (evaluate turn limit) turn limit scope operands callee first.built)) :
    FunctionCallOrder turn limit scope operands callee first run := by
  rw [callOperator_function function] at goes
  constructor
  case called =>
    intro runs values m order
    exact goes.trans order.endsIn
  case failed =>
    rintro before expr after runs values m reason rfl order fails
    exact goes.trans (order.endsIn_of_error fails after)
  case decided => exact inOrder_or_fails _ _ operands
  case refused =>
    intro name arity values m signed refused
    rw [function_of_refused _ limit function signed refused]
    exact fail_shallow rfl limit m
  case entered =>
    rintro birth home params body values frame m rfl bound
    rw [Call.function, Call.enter_eq, bound]

theorem notice_eq_emit {event : Event} {value : Value}
    (room : turn.verbose = true → value.inspectDepth ≤ limit) :
    turn.notice limit event value = Action.emit event := by
  unfold Turn.notice
  split
  · rename_i verbose
    rw [Action.within, if_pos (room verbose)]
    rfl
  · rfl

theorem notice_eq_stop (event : Event) {value : Value} (verbose : turn.verbose = true)
    (deep : limit < value.inspectDepth) :
    turn.notice limit event value = Action.stop .overflow := by
  unfold Turn.notice
  rw [if_pos verbose, Action.within, if_neg (by omega)]
  rfl

/-- A notice of produced code leaves no trace; only for want of room does it stop the call. -/
theorem endsIn_expanded (turn : Turn) (limit n : Nat) (code : Value) (next : Action Value) :
    let noticed := (turn.notice limit (.expanded code) code >>= fun _ => next) n
    ((turn.verbose = true → code.inspectDepth ≤ limit) → noticed.EndsIn [] (next n)) ∧
      (turn.verbose = true → limit < code.inspectDepth →
        noticed.EndsIn [] ⟨[], n, .error .overflow⟩) := by
  intro noticed
  constructor
  · intro room
    have goes : noticed = (Action.emit (.expanded code) >>= fun _ => next) n := by
      rw [← notice_eq_emit room]
    rw [goes]
    exact ⟨rfl, rfl, rfl⟩
  · intro verbose deep
    have stops : noticed = (Action.stop .overflow >>= fun _ : Unit => next) n := by
      rw [← notice_eq_stop (.expanded code) verbose deep]
    rw [stops]
    exact ⟨rfl, rfl, rfl⟩

theorem formCallOrder_of_endsIn (form : callee.callKind? = some .form)
    (goes : run.EndsIn first.trace
      (callOperator (evaluate turn limit) turn limit scope operands callee first.built)) :
    FormCallOrder turn limit scope operands callee first run := by
  rw [callOperator_form form] at goes
  constructor
  case called => exact goes
  case refused =>
    intro name arity signed refused
    rw [form_of_refused turn _ limit scope form signed refused, fail_shallow rfl] at goes
    exact goes
  case expanded =>
    rintro birth home params body rfl accepted
    obtain ⟨frame, bound⟩ :=
      Option.isSome_iff_exists.mp ((params.bind?_isSome operands).trans accepted)
    have steps : Call.form (evaluate turn limit) turn limit
        (.compound .form birth home params body) scope operands =
        (evaluate turn limit (frame :: home) body >>= fun code =>
          turn.notice limit (.expanded code) code >>= fun _ => evaluate turn limit scope code) := by
      rw [Call.form, Call.produce, Call.enter_eq, bound]
      dsimp only
      rw [Action.bind_assoc]
      refine congrArg _ (funext fun code => ?_)
      rw [Action.bind_assoc]
      rfl
    rw [steps] at goes
    refine ⟨frame, bound, fun reason fails => ?_, fun code produced => ?_⟩
    · have ends := goes.trans (Action.endsIn_of_error fails)
      rwa [List.append_nil] at ends
    · have ends := goes.trans (Action.endsIn_of_ok produced)
      obtain ⟨noticed, stopped⟩ := endsIn_expanded turn limit
        (evaluate turn limit (frame :: home) body first.built).built code
        (evaluate turn limit scope code)
      constructor
      · intro room
        have last := ends.trans (noticed room)
        rwa [List.append_nil] at last
      · intro verbose deep
        have last := ends.trans (stopped verbose deep)
        rwa [List.append_nil] at last

end

/-- Calls are evaluated in order, and the first failure ends them: first the operator, then, for a
function only, the operands from left to right, then the arity check and the call itself. Of a chain
that is no proper list nothing is evaluated. -/
theorem calls_evaluated_in_order (turn : Turn) (limit n : Nat) (scope : Scope) :
    (∀ head tail, (Value.cell head tail).isProper = false →
      evaluate turn (limit + 1) scope (.cell head tail) n =
          ⟨[], n, .error (.error .improperList)⟩ ∧
        Error.improperList.kind = .type) ∧
    ∀ head operands,
      let first := evaluate turn limit scope head n
      let run := evaluate turn (limit + 1) scope (.ofList (head :: operands)) n
      (∀ reason, first.outcome = .error reason → run.EndsIn [] first) ∧
      ∀ callee, first.outcome = .ok callee →
        (callee.callKind? = some .function →
          FunctionCallOrder turn limit scope operands callee first run) ∧
        (callee.callKind? = some .form →
          FormCallOrder turn limit scope operands callee first run) ∧
        (callee.callKind? = none → run.EndsIn first.trace
          ⟨[], first.built, .error (.ofError limit (.notCallable callee))⟩) := by
  constructor
  · intro head tail improper
    have unlisted : tail.toList? = none := by
      rw [Value.toList?, if_neg]
      exact ne_true_of_eq_false improper
    rw [evaluate, evaluateStep_improper unlisted, fail_shallow rfl]
    exact ⟨rfl, rfl⟩
  · intro head operands first run
    have whole : run = _ := congrFun (evaluate_ofList_cons head operands) n
    rw [whole]
    constructor
    · intro reason fails
      exact Action.endsIn_of_error fails
    · intro callee valued
      have goes : Run.EndsIn _ first.trace
          (callOperator (evaluate turn limit) turn limit scope operands callee first.built) :=
        Action.endsIn_of_ok valued
      refine ⟨fun function => functionCallOrder_of_endsIn function goes,
        fun form => formCallOrder_of_endsIn form goes, ?_⟩
      intro uncallable
      rw [callOperator_none uncallable] at goes
      exact goes

/-- An operand fails behind one that has a value: the operand after it and the arity do not matter.
A form produces code behind the trace of its body, and its operand is never evaluated. -/
theorem calls_evaluated_in_order_of_fault :
    let host (kind : CallKind) (name : String) (answer : Value)
        (fault : Option (ErrorKind × String)) : String × Value :=
      (name, .probe ⟨0, 0⟩ ⟨kind, name, ⟨0, false⟩, fault⟩ answer)
    let frame := [host .function "f" .nil none, host .function "g" .nil none,
      host .function "h" .nil none, host .function "boom" .nil (some (.eval, "broken"))]
    let call (name : String) (operands : List Value) : Value := .ofList (.symbol name :: operands)
    let body := call "cons" [.quoted (.symbol "h"), call "g" []]
    let scope : Scope := (("m", .compound .form ⟨0, 0⟩ (frame :: builtin) ⟨["x"], none⟩ body) ::
      frame) :: builtin
    let failing := evaluate {} 3 scope (call "f" [call "g" [], call "boom" [], call "h" []]) 0
    let producing := evaluate {} 4 scope (call "m" [call "boom" []]) 0
    (failing.trace = ["g()", "boom()"] ∧
        failing.outcome = .error (.error (.raised .eval "broken"))) ∧
      producing.trace = ["g()", "h()"] ∧ producing.outcome = .ok .nil := by
  intro host frame call body scope failing producing
  obtain ⟨-, order⟩ := calls_evaluated_in_order {} 2 0 scope
  obtain ⟨-, order'⟩ := calls_evaluated_in_order {} 3 0 scope
  have function := ((order (.symbol "f") [call "g" [], call "boom" [], call "h" []]).2 _ rfl).1 rfl
  have failed := function.failed [call "g" []] (call "boom" []) [call "h" []] _ _ _ _ rfl
    (.cons rfl .nil) rfl
  have form := ((order' (.symbol "m") [call "boom" []]).2 _ rfl).2.1 rfl
  obtain ⟨bindings, bound, -, produced⟩ := form.expanded _ _ _ _ rfl rfl
  cases bound
  have expanded := (produced _ rfl).1 (fun verbose => absurd verbose Bool.false_ne_true)
  exact ⟨⟨failed.trace, failed.outcome⟩, expanded.trace, expanded.outcome⟩

end MiniLisp
