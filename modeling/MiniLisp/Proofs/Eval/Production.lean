import MiniLisp.Builtin
import MiniLisp.Proofs.Eval.Limits

/-! # Forms as functions of quoted operands

User-defined forms and functions are written, built and entered alike. What sets them apart is what
they are given and what becomes of their results: a form gets its operands as they are written, and
the code that it makes of them is evaluated where it was called. So the call of a form is the call
of the function with the same formals and body on the operands behind quote marks, and then the
evaluation of what that gives.
-/

namespace MiniLisp

open Filter

def Native.builder : CallKind → Native
  | .function => .lambda
  | .form => .expander

/-- A callable where it is written: the word for its kind, its formals and its body. -/
def Value.written (kind : CallKind) (formals body : Value) : Value :=
  .ofList [.symbol (compoundWord kind), formals, body]

def Value.writtenCall (kind : CallKind) (formals body : Value) (operands : List Value) : Value :=
  .ofList (.written kind formals body :: operands)

/-! ## Notices -/

section

variable {β : Type} {n : Nat} {outcome : Except Stop β}

theorem Turn.notice_bind_outcome (turn : Turn) (limit : Nat) (event : Event) (value : Value)
    (next : Action β) (n : Nat) :
    ((turn.notice limit event value >>= fun _ => next) n).outcome = .error .overflow ∨
      ((turn.notice limit event value >>= fun _ => next) n).outcome = (next n).outcome := by
  by_cases room : value.inspectDepth ≤ limit
  · rw [turn.notice_of_room event room]
    exact .inr rfl
  · unfold Turn.notice Action.within
    rw [if_neg room]
    split
    · exact .inl rfl
    · exact .inr rfl

/-- Hand on the code that `first` gives, once notice of it is given. -/
def Turn.handOn (turn : Turn) (limit : Nat) (first : Action Value) (next : Value → Action β) :
    Action β := do
  let code ← first
  turn.notice limit (.expanded code) code
  next code

theorem Turn.handOn_bind {α : Type} (turn : Turn) (limit : Nat) (first : Action α)
    (mid : α → Action Value) (next : Value → Action β) :
    turn.handOn limit (first >>= mid) next =
      (first >>= fun a => turn.handOn limit (mid a) next) :=
  bind_assoc first mid _

theorem Turn.handOn_outcome (turn : Turn) (limit : Nat) (first : Action Value)
    (next : Value → Action β) (n : Nat) :
    (turn.handOn limit first next n).outcome = .error .overflow ∨
      (turn.handOn limit first next n).outcome = ((first >>= next) n).outcome := by
  unfold Turn.handOn
  rcases h : first n with ⟨events, m, outcome⟩
  cases outcome with
  | error reason =>
      rw [Action.bind_of_error h, Action.bind_of_error h]
      exact .inr rfl
  | ok code =>
      rw [Action.bind_of_ok h, Action.bind_of_ok h]
      exact turn.notice_bind_outcome limit _ code (next code) m

/-- With enough room it makes no difference that notice of the code is given. -/
theorem Turn.ends_handOn_iff (turn : Turn) {first : Nat → Action Value}
    {next : Nat → Value → Action β}
    (firsts : Steady first) (nexts : ∀ code, Steady fun limit => next limit code) :
    Ends (fun limit => turn.handOn limit (first limit) (next limit)) n outcome ↔
      Ends (fun limit => first limit >>= next limit) n outcome := by
  constructor
  · exact fun ends => ends.of_overflow_or_eq fun limit => turn.handOn_outcome limit _ _ n
  · rintro ⟨settled, eventually⟩
    obtain ⟨enough, rfl⟩ := eventually.exists
    refine ⟨settled, ?_⟩
    dsimp only at settled ⊢
    rcases h : first enough n with ⟨events, m, result⟩
    cases result with
    | error reason =>
        have room : reason ≠ .overflow := by
          rintro rfl
          rw [Action.bind_of_error h] at settled
          exact settled rfl
        filter_upwards [firsts.eventually_eq h (by simpa using room)] with limit stopped
        rw [Turn.handOn, Action.bind_of_error stopped, Action.bind_of_error h]
    | ok code =>
        rw [Action.bind_of_ok h] at settled
        -- Under higher limits the code is the same, and so is the room that its notice takes.
        filter_upwards [firsts.eventually_eq h (by simp), (nexts code).eventually_eq rfl settled,
          eventually_ge_atTop code.inspectDepth] with limit made rest fits
        rw [Turn.handOn, Action.bind_of_ok made, turn.notice_of_room _ fits, Action.bind_of_ok h]
        show (next limit code m).outcome = (next enough code m).outcome
        exact congrArg Run.outcome rest

end

/-! ## Building and entering -/

section

variable {turn : Turn} {limit n : Nat} {scope : Scope} {formals body : Value} {params : Params}

theorem Params.ofValue_of_described (h : Params.described formals = .ok params) (limit : Nat) :
    Params.ofValue limit formals = .ok params := by
  unfold Params.described at h
  unfold Params.ofValue Value.elements
  cases listed : formals.toList? with
  | none =>
      simp only [listed] at h
      cases h
  | some items =>
      simp only [listed] at h ⊢
      cases symbols : symbolNames items with
      | error item =>
          simp only [symbols] at h
          cases h
      | ok names =>
          simp only [symbols] at h ⊢
          rw [h]
          rfl

theorem nativeForm_builder (kind : CallKind) :
    Call.nativeForm turn limit (.builder kind) scope [formals, body] =
      turn.build limit kind scope formals body := by
  cases kind with
  | function => exact Action.pure_bind () _
  | form => exact Action.pure_bind () _

/-- Where the word has its builtin meaning, a written callable is built. -/
theorem evaluate_written {kind : CallKind}
    (resolves : scope.get? (Value.compoundWord kind) = some (.native (.builder kind))) :
    evaluate turn (limit + 2) scope (.written kind formals body) =
      turn.build (limit + 1) kind scope formals body := by
  have operands : (Value.ofList [formals, body]).toList? = some [formals, body] :=
    Value.toList?_ofList _
  have operator : evaluate turn (limit + 1) scope (.symbol (Value.compoundWord kind)) =
      pure (.native (.builder kind)) := evaluateStep_bound resolves
  have form : (Native.builder kind).kind = .form := by cases kind <;> rfl
  have called : (Value.native (.builder kind)).callKind? = some .form := congrArg some form
  rw [Value.written, Value.ofList_cons, evaluate, evaluateStep_call operands, operator,
    Action.pure_bind, callOperator_form called, Call.form_native _ _ _ _ _ form,
    nativeForm_builder]

theorem evaluateEach_quoted (turn : Turn) (values : List Value) :
    evaluateEach (evaluate turn (limit + 1) scope) (values.map .quoted) = pure values := by
  induction values with
  | nil => rfl
  | cons value values ih =>
      have first : evaluate turn (limit + 1) scope (.quoted value) = pure value := rfl
      rw [List.map_cons, evaluateEach, first, Action.pure_bind, ih, Action.pure_bind]

/-- Whether a callable can be built from formals does not depend on its kind. -/
theorem evaluate_written_cases (turn : Turn) (limit : Nat) (scope : Scope) (formals body : Value) :
    (∃ reason, ∀ kind, scope.get? (Value.compoundWord kind) = some (.native (.builder kind)) →
      evaluate turn limit scope (.written kind formals body) = Action.stop reason) ∨
    ∃ params, Params.described formals = .ok params ∧ 2 ≤ limit ∧
      ∀ kind, scope.get? (Value.compoundWord kind) = some (.native (.builder kind)) →
        ∀ n, evaluate turn limit scope (.written kind formals body) n =
          ⟨[.built (.compound kind ⟨turn.number, n⟩ scope params body)], n + 1,
            .ok (.compound kind ⟨turn.number, n⟩ scope params body)⟩ := by
  match limit with
  | 0 => exact .inl ⟨.overflow, fun _ _ => rfl⟩
  | 1 => exact .inl ⟨.overflow, fun _ _ => evaluateStep_call (Value.toList?_ofList [formals, body]) _⟩
  | limit + 2 =>
      cases h : Params.ofValue (limit + 1) formals with
      | error reason =>
          refine .inl ⟨reason, fun kind resolves => ?_⟩
          rw [evaluate_written resolves, Turn.build, h]
          exact Action.stop_bind reason _
      | ok params =>
          refine .inr ⟨params, Params.described_of_ofValue (r := .ok params) h, by omega, ?_⟩
          intro kind resolves n
          rw [evaluate_written resolves]
          exact turn.build_of_described h kind scope body n

theorem enter_of_accepted {evaluate : Evaluator} {args : List Value}
    (accepted : params.arity.accepts args.length = true) :
    ∃ frame, ∀ kind, Call.enter evaluate limit kind scope params body args =
      evaluate (frame :: scope) body := by
  obtain ⟨frame, bound⟩ := Option.isSome_iff_exists.mp ((params.bind?_isSome args).trans accepted)
  refine ⟨frame, fun kind => ?_⟩
  rw [Call.enter_eq, bound]

theorem enter_of_refused {evaluate : Evaluator} {args : List Value}
    (refused : params.arity.accepts args.length = false) (kind : CallKind) :
    Call.enter evaluate limit kind scope params body args =
      Action.stop (.error (.wrongArity (Value.compoundWord kind) params.arity args.length)) := by
  have unbound : params.bind? args = none := by
    rw [← Option.not_isSome_iff_eq_none, params.bind?_isSome, refused]
    exact Bool.false_ne_true
  rw [Call.enter_eq, unbound]
  exact congrArg Action.stop (if_pos (Nat.zero_le limit))

/-! ## Calls of written callables -/

theorem evaluate_writtenCall (kind : CallKind) (operands : List Value) :
    evaluate turn (limit + 1) scope (.writtenCall kind formals body operands) =
      (evaluate turn limit scope (.written kind formals body) >>=
        callOperator (evaluate turn limit) turn limit scope operands) := by
  rw [Value.writtenCall, Value.ofList_cons, evaluate,
    evaluateStep_call (Value.toList?_ofList operands)]

theorem callOperator_compound_form (evaluate : Evaluator) (birth : Birth) (home : Scope)
    (operands : List Value) :
    callOperator evaluate turn limit scope operands (.compound .form birth home params body) =
      turn.handOn limit (Call.enter evaluate limit .form home params body operands)
        (evaluate scope) := by
  rw [callOperator_form rfl, Call.form, Call.produce, Turn.handOn, bind_assoc]
  refine congrArg _ (funext fun code => ?_)
  rw [bind_assoc]
  rfl

theorem callOperator_compound_function (birth : Birth) (home : Scope) (operands : List Value) :
    callOperator (evaluate turn (limit + 1)) turn (limit + 1) scope (operands.map .quoted)
        (.compound .function birth home params body) =
      Call.enter (evaluate turn (limit + 1)) (limit + 1) .function home params body operands := by
  rw [callOperator_function rfl, evaluateEach_quoted, Action.pure_bind, Call.function]

section

variable (forms : scope.get? "macro" = some (.native .expander))
  (functions : scope.get? "lambda" = some (.native .lambda)) {operands : List Value}

include forms functions

/-- The call of a form hands on what the call of the function gives. -/
theorem evaluate_form_call (accepted : ∀ params, Params.described formals = .ok params →
      params.arity.accepts operands.length = true) (limit n : Nat) :
    (evaluate turn (limit + 1) scope (.writtenCall .form formals body operands) n).outcome =
      (turn.handOn limit
        (evaluate turn (limit + 1) scope
          (.writtenCall .function formals body (operands.map .quoted)))
        (evaluate turn limit scope) n).outcome := by
  rw [evaluate_writtenCall, evaluate_writtenCall, turn.handOn_bind]
  rcases evaluate_written_cases turn limit scope formals body with
    ⟨reason, stopped⟩ | ⟨params, described, room, built⟩
  · rw [stopped .form forms, stopped .function functions]
    rfl
  · obtain ⟨below, rfl⟩ : ∃ below, limit = below + 1 := ⟨limit - 1, by omega⟩
    obtain ⟨frame, entered⟩ := enter_of_accepted (accepted params described)
    rw [Action.bind_of_ok (built .form forms n), Action.bind_of_ok (built .function functions n)]
    dsimp only
    rw [callOperator_compound_form, callOperator_compound_function, entered .form,
      entered .function]

theorem evaluate_refused_calls (described : Params.described formals = .ok params)
    (refused : params.arity.accepts operands.length = false) (limit n : Nat) :
    (evaluate turn (limit + 3) scope (.writtenCall .form formals body operands) n).outcome =
        .error (.error (.wrongArity "macro" params.arity operands.length)) ∧
      (evaluate turn (limit + 3) scope
          (.writtenCall .function formals body (operands.map .quoted)) n).outcome =
        .error (.error (.wrongArity "lambda" params.arity operands.length)) := by
  have built (kind : CallKind) := turn.build_of_described
    (Params.ofValue_of_described described (limit + 1)) kind scope body n
  constructor
  · rw [evaluate_writtenCall, evaluate_written forms, Action.bind_of_ok (built .form)]
    dsimp only
    rw [callOperator_compound_form, enter_of_refused refused]
    rfl
  · rw [evaluate_writtenCall, evaluate_written functions, Action.bind_of_ok (built .function)]
    dsimp only
    rw [callOperator_compound_function, enter_of_refused refused]
    rfl

end

end

/-- A form is a function of quoted operands, followed by one more evaluation. Only the refusal of a
wrong number of operands tells them apart, by one word of its message. -/
theorem form_call_ends_as_function_call (turn : Turn) (scope : Scope)
    (forms : scope.get? "macro" = some (.native .expander))
    (functions : scope.get? "lambda" = some (.native .lambda)) (formals body : Value)
    (operands : List Value) (n : Nat) :
    let form := Value.writtenCall .form formals body operands
    let function := Value.writtenCall .function formals body (operands.map .quoted)
    ((∀ params, Params.described formals = .ok params →
        params.arity.accepts operands.length = true) →
      ∀ outcome, Ends (fun limit => evaluate turn limit scope form) n outcome ↔
        Ends (fun limit => evaluate turn limit scope function >>= evaluate turn limit scope) n
          outcome) ∧
    (∀ params, Params.described formals = .ok params →
      params.arity.accepts operands.length = false → ∀ limit,
        (evaluate turn (limit + 3) scope form n).outcome =
            .error (.error (.wrongArity "macro" params.arity operands.length)) ∧
          (evaluate turn (limit + 3) scope function n).outcome =
            .error (.error (.wrongArity "lambda" params.arity operands.length))) ∧
    ∀ home params birth args,
      (params.arity.accepts args.length = true → ∀ outcome,
        Ends (fun limit => Call.produce (evaluate turn limit) turn limit home params body args) n
            outcome ↔
          Ends (fun limit => Call.function (evaluate turn limit) limit
            (.compound .function birth home params body) args) n outcome) ∧
      (params.arity.accepts args.length = false → ∀ limit,
        (Call.produce (evaluate turn limit) turn limit home params body args n).outcome =
            .error (.error (.wrongArity "macro" params.arity args.length)) ∧
          (Call.function (evaluate turn limit) limit
              (.compound .function birth home params body) args n).outcome =
            .error (.error (.wrongArity "lambda" params.arity args.length))) := by
  intro form function
  refine ⟨fun accepted outcome => ?_, ?_, fun home params birth args => ⟨?_, ?_⟩⟩
  · calc Ends (fun limit => evaluate turn limit scope form) n outcome
      _ ↔ Ends (fun limit => evaluate turn (limit + 1) scope form) n outcome := ends_succ_iff.symm
      _ ↔ Ends (fun limit => turn.handOn limit (evaluate turn (limit + 1) scope function)
            (evaluate turn limit scope)) n outcome :=
          ends_congr (.of_forall fun limit => evaluate_form_call forms functions accepted limit n)
      _ ↔ Ends (fun limit => evaluate turn (limit + 1) scope function >>=
            evaluate turn limit scope) n outcome := by
          refine turn.ends_handOn_iff (fun _ _ more => ?_) (steady_evaluate turn scope)
          exact steady_evaluate turn scope function (Nat.succ_le_succ more)
      _ ↔ Ends (fun limit => evaluate turn limit scope function >>=
            evaluate turn limit scope) n outcome := by
          refine (ends_iff_of_between (fun limit => ?_) fun limit => ?_).symm
          · exact (steady_evaluate turn scope function (Nat.le_succ limit)).bind
              fun code => Action.approximates_refl _
          · exact (Action.approximates_refl _).bind
              fun code => steady_evaluate turn scope code (Nat.le_succ limit)
  · exact fun params described refused limit =>
      evaluate_refused_calls forms functions described refused limit n
  · intro accepted outcome
    have entered (limit : Nat) :
        Call.function (evaluate turn limit) limit (.compound .function birth home params body) args =
          (Call.enter (evaluate turn limit) limit .form home params body args >>= pure) := by
      obtain ⟨frame, entered⟩ := enter_of_accepted accepted
      rw [Call.function, entered .function, entered .form, bind_pure]
    simp only [entered]
    refine turn.ends_handOn_iff (fun _ _ more => ?_) fun _ _ _ _ => Action.approximates_refl _
    exact approximates_enter more (approximates_evaluate turn more) .form home params body args
  · intro refused limit
    rw [Call.produce, Call.function, enter_of_refused refused, enter_of_refused refused]
    exact ⟨rfl, rfl⟩

/-- A form that collects its operands makes a call of them; without any operand it is refused. -/
theorem form_call_ends_as_function_call_of_rest :
    let formals : Value := .ofList [.symbol "x", .symbol "*more"]
    let body : Value := .ofList [.symbol "cons", .symbol "x", .symbol "more"]
    let operands : List Value := [.symbol "list", .quoted (.symbol "a"), .quoted (.symbol "b")]
    let function := Value.writtenCall .function formals body (operands.map .quoted)
    let result : Except Stop Value := .ok (.ofList [.symbol "a", .symbol "b"])
    (evaluate {} 4 builtin (.writtenCall .form formals body operands) 0).outcome = result ∧
      Ends (fun limit => evaluate {} limit builtin function >>= evaluate {} limit builtin) 0
        result ∧
      (evaluate {} 3 builtin (.writtenCall .form formals body []) 0).outcome =
        .error (.error (.wrongArity "macro" ⟨1, true⟩ 0)) := by
  intro formals body operands function result
  have described : Params.described formals = .ok ⟨["x"], some "more"⟩ := by rfl
  have accepted : ∀ params, Params.described formals = .ok params →
      params.arity.accepts operands.length = true := by
    intro params found
    cases described.symm.trans found
    rfl
  have reached : (evaluate {} 4 builtin (.writtenCall .form formals body operands) 0).outcome =
      result := by rfl
  have ends : Ends (fun limit => evaluate {} limit builtin (.writtenCall .form formals body operands))
      0 result :=
    (steady_evaluate {} builtin _).ends_iff.mpr ⟨by simp [result], 4, reached⟩
  refine ⟨reached, ?_, ?_⟩
  · exact ((form_call_ends_as_function_call {} builtin rfl rfl formals body operands 0).1
      accepted result).mp ends
  · exact ((form_call_ends_as_function_call {} builtin rfl rfl formals body [] 0).2.1
      _ described rfl 0).1

end MiniLisp
