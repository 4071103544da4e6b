import MiniLisp.Proofs.Eval.Limits
import MiniLisp.Proofs.Eval.Order

/-! # Lists of values

A list of values can be written as one call of `list` or as nested calls of `cons`. The one
evaluates all expressions and then builds the list, the other builds it on the way back; it also
nests deeper with every expression. Still both evaluate the expressions from left to right: with
enough room they have the same run, that of evaluating one expression after the other and putting
the values in a list.
-/

namespace MiniLisp

open Filter

/-- The list of the values of expressions, as one call. -/
def Value.listCall (exprs : List Value) : Value := .ofList (.symbol "list" :: exprs)

/-- The list of the values of expressions, as a call for each cell. -/
def Value.consCalls : List Value → Value
  | [] => .symbol "nil"
  | expr :: exprs => .ofList [.symbol "cons", expr, consCalls exprs]

def evaluateList (ev : Value → Action Value) (exprs : List Value) : Action Value := do
  let values ← evaluateEach ev exprs
  return .ofList values

theorem evaluateList_cons (ev : Value → Action Value) (expr : Value) (exprs : List Value) :
    evaluateList ev (expr :: exprs) =
      (ev expr >>= fun left => evaluateList ev exprs >>= fun right => pure (.cell left right)) := by
  simp only [evaluateList, evaluateEach, Action.bind_assoc, Action.pure_bind, Value.ofList_cons]

section

variable {turn : Turn} {limit n : Nat} {scope : Scope}

/-! ## Both calls -/

theorem evaluate_one_ofList (head : Value) (operands : List Value) :
    evaluate turn 1 scope (.ofList (head :: operands)) = Action.stop .overflow :=
  evaluate_ofList_cons head operands

theorem evaluate_listCall (lists : scope.get? "list" = some (.native .list)) (exprs : List Value) :
    evaluate turn (limit + 2) scope (.listCall exprs) =
      evaluateList (evaluate turn (limit + 1) scope) exprs := by
  have operator : evaluate turn (limit + 1) scope (.symbol "list") = pure (.native .list) :=
    evaluateStep_bound lists
  have called (values : List Value) : Call.function (evaluate turn (limit + 1)) (limit + 1)
      (.native .list) values = pure (.ofList values) := by
    have accepted : Native.list.arity.accepts values.length = true :=
      (Arity.accepts_variadic 0 values.length).mpr (Int.natCast_nonneg _)
    rw [Call.function_native _ _ _ rfl, Call.native, Call.checkArity_bind, if_pos accepted]
  rw [Value.listCall, evaluate_ofList_cons, operator, Action.pure_bind, callOperator_function rfl]
  exact congrArg _ (funext called)

theorem evaluate_consCall (conses : scope.get? "cons" = some (.native .cons)) (left right : Value) :
    evaluate turn (limit + 2) scope (.ofList [.symbol "cons", left, right]) =
      (evaluate turn (limit + 1) scope left >>= fun left =>
        evaluate turn (limit + 1) scope right >>= fun right => pure (.cell left right)) := by
  have operator : evaluate turn (limit + 1) scope (.symbol "cons") = pure (.native .cons) :=
    evaluateStep_bound conses
  rw [evaluate_ofList_cons, operator, Action.pure_bind, callOperator_function rfl]
  simp only [evaluateEach, Action.bind_assoc, Action.pure_bind]
  rfl

/-! ## Both calls against the list of values -/

theorem Action.Approximates.trans {α : Type} {short mid long : Action α}
    (first : short.Approximates mid) (second : mid.Approximates long) :
    short.Approximates long := by
  intro n
  rcases first n with exceeded | same
  · exact .inl exceeded
  · rw [same]
    exact second n

theorem approximates_evaluateList {low high : Nat} (h : low ≤ high) (exprs : List Value) :
    (evaluateList (evaluate turn low scope) exprs).Approximates
      (evaluateList (evaluate turn high scope) exprs) := by
  have each := approximates_evaluateEach (approximates_evaluate turn h scope) exprs
  exact each.bind fun values => Action.approximates_refl _

theorem listCall_approximates (lists : scope.get? "list" = some (.native .list))
    (exprs : List Value) (limit : Nat) :
    (evaluate turn limit scope (.listCall exprs)).Approximates
      (evaluateList (evaluate turn limit scope) exprs) := by
  rcases limit with _ | _ | limit
  · exact Action.approximates_overflow _
  · rw [Value.listCall, evaluate_one_ofList]
    exact Action.approximates_overflow _
  · rw [evaluate_listCall lists]
    exact approximates_evaluateList (Nat.le_succ _) exprs

theorem evaluateList_approximates_listCall (lists : scope.get? "list" = some (.native .list))
    (exprs : List Value) (limit : Nat) :
    (evaluateList (evaluate turn limit scope) exprs).Approximates
      (evaluate turn (limit + 2) scope (.listCall exprs)) := by
  rw [evaluate_listCall lists]
  exact approximates_evaluateList (Nat.le_succ _) exprs

theorem consCalls_approximates (conses : scope.get? "cons" = some (.native .cons))
    (nils : scope.get? "nil" = some .nil) (exprs : List Value) (limit : Nat) :
    (evaluate turn limit scope (.consCalls exprs)).Approximates
      (evaluateList (evaluate turn limit scope) exprs) := by
  induction exprs generalizing limit with
  | nil =>
      cases limit with
      | zero => exact Action.approximates_overflow _
      | succ limit =>
          rw [Value.consCalls, evaluate, evaluateStep_bound nils]
          exact Action.approximates_refl _
  | cons expr exprs ih =>
      rcases limit with _ | _ | limit
      · exact Action.approximates_overflow _
      · rw [Value.consCalls, evaluate_one_ofList]
        exact Action.approximates_overflow _
      · have rest := (ih (limit + 1)).trans (approximates_evaluateList (Nat.le_succ _) exprs)
        rw [Value.consCalls, evaluate_consCall conses, evaluateList_cons]
        apply (approximates_evaluate turn (Nat.le_succ _) scope expr).bind
        intro left
        exact rest.bind fun right => Action.approximates_refl _

/-- Nested calls take one more level for every expression. -/
theorem evaluateList_approximates_consCalls (conses : scope.get? "cons" = some (.native .cons))
    (nils : scope.get? "nil" = some .nil) (exprs : List Value) (limit : Nat) :
    (evaluateList (evaluate turn limit scope) exprs).Approximates
      (evaluate turn (limit + exprs.length + 1) scope (.consCalls exprs)) := by
  induction exprs with
  | nil =>
      rw [Value.consCalls, evaluate, evaluateStep_bound nils]
      exact Action.approximates_refl _
  | cons expr exprs ih =>
      have deeper : limit ≤ limit + exprs.length + 1 := by omega
      rw [List.length_cons, ← Nat.add_assoc, Value.consCalls, evaluate_consCall conses,
        evaluateList_cons]
      apply (approximates_evaluate turn deeper scope expr).bind
      intro left
      exact ih.bind fun right => Action.approximates_refl _

/-! ## Ends -/

/-- Under every limit that is large enough this is the run of the action, and not for want of
room. -/
def Settles {α : Type} (action : Nat → Action α) (n : Nat) (run : Run α) : Prop :=
  run.outcome ≠ .error .overflow ∧ ∀ᶠ limit in atTop, action limit n = run

/-- How the evaluation of expressions to a list of their values ends: with the list, or with the
failure of the first that has no value. -/
inductive ListsValues (turn : Turn) (scope : Scope) (n : Nat) : List Value → Run Value → Prop
  | values {limit m : Nat} {exprs values : List Value} {runs : List (Run Value)} :
      InOrder (evaluate turn limit scope) n exprs runs values m →
      ListsValues turn scope n exprs ⟨runs.flatMap Run.events, m, .ok (.ofList values)⟩
  | fault {limit m : Nat} {before values : List Value} {runs : List (Run Value)} {expr : Value}
      {reason : Stop} (after : List Value) :
      InOrder (evaluate turn limit scope) n before runs values m →
      (evaluate turn limit scope expr m).outcome = .error reason → reason ≠ .overflow →
      ListsValues turn scope n (before ++ expr :: after)
        ⟨runs.flatMap Run.events ++ (evaluate turn limit scope expr m).events,
          (evaluate turn limit scope expr m).built, .error reason⟩

/-- The run of evaluating one expression after the other is such an end. -/
theorem listsValues_iff (exprs : List Value) (run : Run Value) :
    ListsValues turn scope n exprs run ↔
      run.outcome ≠ .error .overflow ∧
        ∃ limit, evaluateList (evaluate turn limit scope) exprs n = run := by
  have valued {limit m : Nat} {exprs values : List Value} {runs : List (Run Value)}
      (order : InOrder (evaluate turn limit scope) n exprs runs values m) :
      evaluateList (evaluate turn limit scope) exprs n =
        ⟨runs.flatMap Run.events, m, .ok (.ofList values)⟩ := by
    rw [evaluateList, Action.bind_of_ok order.evaluateEach_eq]
    exact congrArg (Run.mk · m _) (List.append_nil _)
  constructor
  · intro listed
    cases listed with
    | values order => exact ⟨by simp, _, valued order⟩
    | fault after order fails settled =>
        exact ⟨by simpa using settled, _,
          Action.bind_of_error (order.evaluateEach_of_error fails after) _⟩
  · rintro ⟨settled, limit, rfl⟩
    rcases inOrder_or_fails (evaluate turn limit scope) n exprs with
      ⟨runs, values, m, order⟩ | ⟨before, expr, after, runs, values, m, reason, rfl, order, fails⟩
    · rw [valued order]
      exact .values order
    · have stopped : evaluateList (evaluate turn limit scope) (before ++ expr :: after) n = _ :=
        Action.bind_of_error (order.evaluateEach_of_error fails after) _
      rw [stopped] at settled ⊢
      exact .fault after order fails fun overflow => settled (congrArg Except.error overflow)

/-- An expression that evaluates others to the list of their values, given some room, ends as that
does. -/
theorem settles_iff_listsValues {expr : Value} {exprs : List Value}
    (below : ∀ limit, (evaluate turn limit scope expr).Approximates
      (evaluateList (evaluate turn limit scope) exprs))
    (above : ∀ limit, ∃ enough, (evaluateList (evaluate turn limit scope) exprs).Approximates
      (evaluate turn enough scope expr)) (run : Run Value) :
    Settles (fun limit => evaluate turn limit scope expr) n run ↔
      ListsValues turn scope n exprs run := by
  rw [listsValues_iff]
  constructor
  · rintro ⟨settled, eventually⟩
    obtain ⟨limit, reached⟩ := eventually.exists
    have same := (below limit).eq_of_settled (reached ▸ settled)
    exact ⟨settled, limit, same.trans reached⟩
  · rintro ⟨settled, limit, reached⟩
    obtain ⟨enough, approximates⟩ := above limit
    have same : evaluate turn enough scope expr n = run := by
      rw [approximates.eq_of_settled (reached ▸ settled), reached]
    exact ⟨settled, (steady_evaluate turn scope expr).eventually_eq same settled⟩

end

/-- A call of `list` and nested calls of `cons` end alike: both evaluate the expressions from left
to right, with the same events, and fail as the first one that does. -/
theorem list_call_ends_as_cons_calls (turn : Turn) (scope : Scope)
    (lists : scope.get? "list" = some (.native .list))
    (conses : scope.get? "cons" = some (.native .cons)) (nils : scope.get? "nil" = some .nil)
    (exprs : List Value) (n : Nat) :
    let flat := fun limit => evaluate turn limit scope (.listCall exprs)
    let nested := fun limit => evaluate turn limit scope (.consCalls exprs)
    (∀ run, Settles flat n run ↔ ListsValues turn scope n exprs run) ∧
    (∀ run, Settles nested n run ↔ ListsValues turn scope n exprs run) ∧
    ∀ limit limit', (flat limit n).outcome = .error .overflow ∨
      (nested limit' n).outcome = .error .overflow ∨ flat limit n = nested limit' n := by
  intro flat nested
  refine ⟨?_, ?_, fun limit limit' => ?_⟩
  · exact settles_iff_listsValues (listCall_approximates lists exprs)
      fun limit => ⟨_, evaluateList_approximates_listCall lists exprs limit⟩
  · exact settles_iff_listsValues (consCalls_approximates conses nils exprs)
      fun limit => ⟨_, evaluateList_approximates_consCalls conses nils exprs limit⟩
  · have through : (flat limit).Approximates (nested (limit + exprs.length + 1)) :=
      (listCall_approximates lists exprs limit).trans
        (evaluateList_approximates_consCalls conses nils exprs limit)
    rcases through n with exceeded | same
    · exact .inl exceeded
    · rw [same]
      exact evaluate_limits turn (limit + exprs.length + 1) limit' scope (.consCalls exprs) n

/-- Two host functions, of which the second fails, and a third behind them: nested calls have the
events and the error that one call has. Without any expression both give nil. -/
theorem list_call_ends_as_cons_calls_of_fault :
    let host (name : String) (fault : Option (ErrorKind × String)) : String × Value :=
      (name, .probe ⟨0, 0⟩ ⟨.function, name, ⟨0, false⟩, fault⟩ (.symbol name))
    let scope : Scope := [host "f" none, host "boom" (some (.eval, "broken")), host "g" none] ::
      builtin
    let call (name : String) : Value := .ofList [.symbol name]
    let run : Run Value :=
      ⟨[.called "f()", .called "boom()"], 0, .error (.error (.raised .eval "broken"))⟩
    let exprs := [call "f", call "boom", call "g"]
    Settles (fun limit => evaluate {} limit scope (.listCall exprs)) 0 run ∧
      Settles (fun limit => evaluate {} limit scope (.consCalls exprs)) 0 run ∧
      Settles (fun limit => evaluate {} limit scope (.consCalls [])) 0 ⟨[], 0, .ok .nil⟩ := by
  intro host scope call run exprs
  have first : InOrder (evaluate {} 2 scope) 0 [call "f"] _ [.symbol "f"] 0 := .cons rfl .nil
  have fails : (evaluate {} 2 scope (call "boom") 0).outcome =
      .error (.error (.raised .eval "broken")) := rfl
  have listed : ListsValues {} scope 0 exprs run := .fault [call "g"] first fails (by simp)
  have empty : InOrder (evaluate {} 0 scope) 0 [] [] [] 0 := .nil
  obtain ⟨flat, nested, -⟩ := list_call_ends_as_cons_calls {} scope rfl rfl rfl exprs 0
  obtain ⟨-, alone, -⟩ := list_call_ends_as_cons_calls {} scope rfl rfl rfl [] 0
  exact ⟨(flat run).mpr listed, (nested run).mpr listed, (alone _).mpr (.values empty)⟩

end MiniLisp
