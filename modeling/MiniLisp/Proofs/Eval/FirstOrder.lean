import MiniLisp.Builtin
import MiniLisp.Proofs.Eval.Limits
import MiniLisp.Proofs.Value.Mentions

/-! # The first-order fragment

A value is first-order when no callable is in it but builtins that build none. Evaluating a
first-order expression where its symbols mean first-order values never evaluates a value that was
computed on the way, not even when the operator of a call is such a value: what the expression means
is a recursion on the expression alone. So evaluation always ends. It nests no deeper than the text
of the expression does, apart from the message of an error.
-/

namespace MiniLisp

/-- Built from nil, symbols, quotes and cells over the builtins that build no callable. -/
inductive Value.FirstOrder : Value → Prop
  | nil : FirstOrder .nil
  | symbol (name : String) : FirstOrder (.symbol name)
  | quoted {inner : Value} : FirstOrder inner → FirstOrder (.quoted inner)
  | cell {left right : Value} : FirstOrder left → FirstOrder right → FirstOrder (.cell left right)
  | native {op : Native} : op.builds? = none → FirstOrder (.native op)

def Scope.FirstOrderFor (scope : Scope) (expr : Value) : Prop :=
  ∀ name, expr.Mentions name → ∀ value, scope.get? name = some value → value.FirstOrder

/-! ## What an expression means -/

/-- What a builtin that builds no callable makes of its arguments or operands. -/
def Native.answer : Native → List Value → Except Error Value
  | .cons, [left, right] => .ok (.cell left right)
  | .car, [.cell left _] => .ok left
  | .cdr, [.cell _ right] => .ok right
  | .car, [value] => .error (.notCell .car value)
  | .cdr, [value] => .error (.notCell .cdr value)
  | .list, args => .ok (.ofList args)
  | .quote, [form] => .ok form
  | op, args => .error (.wrongArity op.name op.arity args.length)

namespace Value

/-- What a call means, from the operands as they are written and what they mean. -/
def callMeaning (operands : List Value) (args : Except Error (List Value)) :
    Value → Except Error Value
  | native op =>
      match op.kind with
      | .function => args.bind op.answer
      | .form => op.answer operands
  | operator => .error (.notCallable operator)

theorem callMeaning_function {op : Native} (kind : op.kind = .function) (operands : List Value)
    (args : Except Error (List Value)) :
    (native op).callMeaning operands args = args.bind op.answer := by
  rw [callMeaning, kind]

theorem callMeaning_form {op : Native} (kind : op.kind = .form) (operands : List Value)
    (args : Except Error (List Value)) :
    (native op).callMeaning operands args = op.answer operands := by
  rw [callMeaning, kind]

mutual

/-- What a first-order expression means. The recursion is on the expression; the value of an
operator only selects a builtin. -/
def meaning (scope : Scope) : Value → Except Error Value
  | symbol name =>
      match scope.get? name with
      | some value => .ok value
      | none => .error (.unbound name)
  | quoted inner => .ok inner
  | cell head tail =>
      match tail.toList? with
      | none => .error .improperList
      | some operands => (head.meaning scope).bind (callMeaning operands (tail.meanings scope))
  | value => .ok value
termination_by structural expr => expr

/-- What the elements of a list mean, up to the first that fails. -/
def meanings (scope : Scope) : Value → Except Error (List Value)
  | cell expr rest =>
      (expr.meaning scope).bind fun value => (rest.meanings scope).map (value :: ·)
  | _ => .ok []
termination_by structural exprs => exprs

end

end Value

/-! ## Results -/

section

variable {scope : Scope} {expr : Value}

theorem Scope.FirstOrderFor.left {left right : Value} (h : scope.FirstOrderFor (.cell left right)) :
    scope.FirstOrderFor left :=
  fun name mentioned => h name (.left mentioned)

theorem Scope.FirstOrderFor.right {left right : Value}
    (h : scope.FirstOrderFor (.cell left right)) : scope.FirstOrderFor right :=
  fun name mentioned => h name (.right mentioned)

theorem Value.firstOrder_ofList {items : List Value} (h : ∀ item ∈ items, item.FirstOrder) :
    (Value.ofList items).FirstOrder := by
  induction items with
  | nil => exact .nil
  | cons item items ih =>
      exact .cell (h item (by simp)) (ih fun other member => h other (by simp [member]))

theorem Value.FirstOrder.items {v : Value} (h : v.FirstOrder) :
    ∀ item ∈ v.items, item.FirstOrder := by
  induction h with
  | cell left _ _ more => exact List.forall_mem_cons.mpr ⟨left, more⟩
  | _ => exact fun item member => by cases member

theorem Native.firstOrder_answer {op : Native} {args : List Value}
    (h : ∀ arg ∈ args, arg.FirstOrder) {value : Value} (answered : op.answer args = .ok value) :
    value.FirstOrder := by
  unfold answer at answered
  split at answered
  · cases answered
    exact .cell (h _ (by simp)) (h _ (by simp))
  · cases answered
    cases h _ (List.mem_singleton_self _) with
    | cell first _ => exact first
  · cases answered
    cases h _ (List.mem_singleton_self _) with
    | cell _ rest => exact rest
  · cases answered
  · cases answered
  · cases answered
    exact Value.firstOrder_ofList h
  · cases answered
    exact h value (List.mem_singleton_self value)
  · cases answered

theorem Value.firstOrder_callMeaning {operands : List Value} {args : Except Error (List Value)}
    {operator value : Value} (raw : ∀ operand ∈ operands, operand.FirstOrder)
    (evaluated : ∀ values, args = .ok values → ∀ arg ∈ values, arg.FirstOrder)
    (means : operator.callMeaning operands args = .ok value) : value.FirstOrder := by
  unfold callMeaning at means
  split at means
  · split at means
    · cases args with
      | error error => cases means
      | ok values => exact Native.firstOrder_answer (evaluated values rfl) means
    · exact Native.firstOrder_answer raw means
  · cases means

/-- What a first-order expression means is first-order again. -/
theorem Value.FirstOrder.meaning (first : expr.FirstOrder) (bound : scope.FirstOrderFor expr) :
    (∀ value, expr.meaning scope = .ok value → value.FirstOrder) ∧
      ∀ values, expr.meanings scope = .ok values → ∀ value ∈ values, value.FirstOrder := by
  have empty : ∀ values, (.ok [] : Except Error (List Value)) = .ok values →
      ∀ value ∈ values, value.FirstOrder := by
    rintro _ ⟨⟩
    simp
  induction first with
  | nil => exact ⟨fun _ means => Except.ok.inj means ▸ .nil, empty⟩
  | symbol name =>
      refine ⟨fun value means => ?_, empty⟩
      rw [Value.meaning] at means
      split at means <;> cases means
      rename_i found
      exact bound name .symbol value found
  | quoted inner => exact ⟨fun _ means => Except.ok.inj means ▸ inner, empty⟩
  | native plain => exact ⟨fun _ means => Except.ok.inj means ▸ .native plain, empty⟩
  | @cell head tail _ operands head_ih tail_ih =>
      obtain ⟨operator, -⟩ := head_ih bound.left
      obtain ⟨-, args⟩ := tail_ih bound.right
      constructor
      · intro value means
        rw [Value.meaning] at means
        cases listed : tail.toList? with
        | none => simp [listed] at means
        | some raw =>
            have written : ∀ operand ∈ raw, operand.FirstOrder := by
              rw [← Value.items_ofList raw, Value.ofList_of_toList? listed]
              exact operands.items
            rw [listed] at means
            cases called : head.meaning scope with
            | error error => simp [called, Except.bind] at means
            | ok callee =>
                rw [called] at means
                exact Value.firstOrder_callMeaning written args means
      · intro values means
        rw [Value.meanings] at means
        cases found : head.meaning scope with
        | error error => simp [found, Except.bind] at means
        | ok value =>
            cases more : tail.meanings scope with
            | error error => simp [found, more, Except.bind, Except.map] at means
            | ok rest =>
                rw [found, more] at means
                cases means
                exact List.forall_mem_cons.mpr ⟨operator value found, args rest more⟩

end

/-! ## Evaluation -/

def Outcome.messageDepth {α : Type} : Except Error α → Nat
  | .ok _ => 0
  | .error error => error.messageDepth

def Action.settled {α : Type} (outcome : Except Error α) : Action α :=
  ofExcept (outcome.mapError .error)

section

variable {α β : Type} {limit : Nat}

theorem Outcome.messageDepth_le_bind (outcome : Except Error α) (next : α → Except Error β) :
    messageDepth outcome ≤ messageDepth (outcome.bind next) := by
  cases outcome with
  | error error => exact Nat.le_refl _
  | ok a => exact Nat.zero_le _

theorem Action.settled_bind {outcome : Except Error α} {next : α → Action β}
    {rest : α → Except Error β} (h : ∀ a, outcome = .ok a → next a = settled (rest a)) :
    (settled outcome >>= next) = settled (outcome.bind rest) := by
  cases outcome with
  | error error => rfl
  | ok a => exact (Action.pure_bind a next).trans (h a rfl)

theorem Action.fail_eq_settled {error : Error} (room : error.messageDepth ≤ limit) :
    (fail limit error : Action α) = settled (.error error) := by
  rw [fail_eq, if_pos room]
  rfl

theorem Native.answer_of_refused {op : Native} {args : List Value}
    (refused : op.arity.accepts args.length = false) :
    op.answer args = .error (.wrongArity op.name op.arity args.length) := by
  unfold answer
  split <;> first | rfl | simp [Native.arity, Arity.accepts] at refused

/-- A builtin function gives its answer. -/
theorem Call.native_eq_settled {op : Native} {args : List Value} (function : op.kind = .function)
    (room : Outcome.messageDepth (op.answer args) ≤ limit) :
    Call.native limit op args = Action.settled (op.answer args) := by
  unfold Call.native
  rw [Call.checkArity_bind]
  split
  · rename_i accepted
    cases op with
    | cons =>
        obtain ⟨left, right, rfl⟩ := Arity.two_of_accepts accepted
        rfl
    | car =>
        obtain ⟨value, rfl⟩ := Arity.one_of_accepts accepted
        cases value with
        | cell left right => rfl
        | _ => exact Action.fail_eq_settled room
    | cdr =>
        obtain ⟨value, rfl⟩ := Arity.one_of_accepts accepted
        cases value with
        | cell left right => rfl
        | _ => exact Action.fail_eq_settled room
    | list => rfl
    | quote => cases function
    | lambda => cases function
    | expander => cases function
  · rename_i refused
    rw [Native.answer_of_refused (by simpa using refused)]
    exact Action.fail_eq_settled (Nat.zero_le limit)

theorem Call.nativeForm_eq_settled (turn : Turn) {op : Native} {scope : Scope}
    {operands : List Value} (form : op.kind = .form) (plain : op.builds? = none) :
    Call.nativeForm turn limit op scope operands = Action.settled (op.answer operands) := by
  unfold Call.nativeForm
  rw [Call.checkArity_bind]
  split
  · rename_i accepted
    cases op with
    | quote =>
        obtain ⟨operand, rfl⟩ := Arity.one_of_accepts accepted
        rfl
    | lambda => cases plain
    | expander => cases plain
    | cons => cases form
    | car => cases form
    | cdr => cases form
    | list => cases form
  · rename_i refused
    rw [Native.answer_of_refused (by simpa using refused)]
    exact Action.fail_eq_settled (Nat.zero_le limit)

/-- A call of a first-order operator comes to what it means. -/
theorem callOperator_eq_settled {turn : Turn} {evaluate : Evaluator} {scope : Scope}
    {operands : List Value} {args : Except Error (List Value)} {operator : Value}
    (first : operator.FirstOrder)
    (room : Outcome.messageDepth (operator.callMeaning operands args) ≤ limit)
    (evaluated : Outcome.messageDepth args ≤
        Outcome.messageDepth (operator.callMeaning operands args) →
      evaluateEach (evaluate scope) operands = Action.settled args) :
    callOperator evaluate turn limit scope operands operator =
      Action.settled (operator.callMeaning operands args) := by
  cases first with
  | @native op plain =>
      cases kind : op.kind with
      | function =>
          have called : (Value.native op).callKind? = some .function := congrArg some kind
          rw [Value.callMeaning_function kind] at room evaluated ⊢
          rw [callOperator_function called, evaluated (Outcome.messageDepth_le_bind args op.answer)]
          refine Action.settled_bind fun values found => ?_
          rw [found] at room
          rw [Call.function_native _ _ _ kind]
          exact Call.native_eq_settled kind room
      | form =>
          have called : (Value.native op).callKind? = some .form := congrArg some kind
          rw [Value.callMeaning_form kind, callOperator_form called,
            Call.form_native _ _ _ _ _ kind]
          exact Call.nativeForm_eq_settled turn kind plain
  | _ => exact Action.fail_eq_settled room

/-- Evaluation comes to what the expression means as soon as its text and the message have room.
The elements of a list need one level less than the list. -/
theorem evaluate_eq_settled (turn : Turn) {scope : Scope} {expr : Value} (first : expr.FirstOrder)
    (bound : scope.FirstOrderFor expr) :
    (∀ limit, expr.textDepthAt .element + Outcome.messageDepth (expr.meaning scope) ≤ limit →
      evaluate turn limit scope expr = Action.settled (expr.meaning scope)) ∧
    ∀ limit, expr.textDepthAt .rest + Outcome.messageDepth (expr.meanings scope) ≤ limit →
      evaluateEach (evaluate turn limit scope) expr.items =
        Action.settled (expr.meanings scope) := by
  have below {limit depth : Nat} (room : 1 + depth ≤ limit) : ∃ rest, limit = rest + 1 :=
    ⟨limit - 1, by omega⟩
  induction first with
  | nil =>
      refine ⟨fun limit room => ?_, fun _ _ => rfl⟩
      obtain ⟨rest, rfl⟩ := below room
      rfl
  | symbol name =>
      refine ⟨fun limit room => ?_, fun _ _ => rfl⟩
      obtain ⟨rest, rfl⟩ := below room
      rw [evaluate, Value.meaning]
      cases found : scope.get? name with
      | some value => exact evaluateStep_bound found
      | none =>
          rw [evaluateStep_unbound found]
          exact Action.fail_eq_settled (Nat.zero_le rest)
  | quoted inner =>
      refine ⟨fun limit room => ?_, fun _ _ => rfl⟩
      obtain ⟨rest, rfl⟩ : ∃ rest, limit = rest + 1 :=
        ⟨limit - 1, by simp only [Value.textDepthAt] at room; omega⟩
      rfl
  | native plain =>
      refine ⟨fun limit room => ?_, fun _ _ => rfl⟩
      obtain ⟨rest, rfl⟩ := below room
      rfl
  | @cell head tail operator operands head_ih tail_ih =>
      obtain ⟨called, -⟩ := head_ih bound.left
      obtain ⟨-, evaluated⟩ := tail_ih bound.right
      constructor
      · intro limit room
        simp only [Value.textDepthAt, Place.level] at room
        obtain ⟨rest, rfl⟩ : ∃ rest, limit = rest + 1 := ⟨limit - 1, by omega⟩
        rw [evaluate]
        rw [Value.meaning] at room ⊢
        cases listed : tail.toList? with
        | none =>
            rw [evaluateStep_improper listed]
            exact Action.fail_eq_settled (Nat.zero_le rest)
        | some raw =>
            simp only [listed] at room ⊢
            have fits := Outcome.messageDepth_le_bind (head.meaning scope)
              (Value.callMeaning raw (tail.meanings scope))
            rw [evaluateStep_call listed, called rest (by omega)]
            refine Action.settled_bind fun callee found => ?_
            simp only [found, Except.bind] at room
            have written : tail.items = raw := by
              rw [← Value.ofList_of_toList? listed, Value.items_ofList]
            apply callOperator_eq_settled ((operator.meaning bound.left).1 callee found)
            · omega
            · intro fewer
              rw [← written]
              exact evaluated rest (by omega)
      · intro limit room
        simp only [Value.textDepthAt, Place.level] at room
        rw [Value.meanings] at room ⊢
        have fits := Outcome.messageDepth_le_bind (head.meaning scope)
          fun value => (tail.meanings scope).map (value :: ·)
        rw [Value.items, evaluateEach, called limit (by omega)]
        refine Action.settled_bind fun value found => ?_
        simp only [found, Except.bind] at room
        have more : Outcome.messageDepth (tail.meanings scope) ≤
            Outcome.messageDepth ((tail.meanings scope).map (value :: ·)) :=
          Outcome.messageDepth_le_bind (tail.meanings scope) fun values => .ok (value :: values)
        rw [evaluated limit (by omega)]
        exact Action.settled_bind fun values _ => rfl

end

/-- Evaluating a first-order expression always ends, as soon as there is room for its text and for
the message of an error, with what the expression means by recursion on itself. -/
theorem first_order_evaluation_ends (turn : Turn) (scope : Scope) (expr : Value)
    (first : expr.FirstOrder) (bound : scope.FirstOrderFor expr) (n : Nat) :
    let enough := expr.textDepth + Outcome.messageDepth (expr.meaning scope)
    (evaluate turn enough scope expr n).outcome ≠ .error .overflow ∧
    (∀ limit, enough ≤ limit →
      evaluate turn limit scope expr n = Finish.run ⟨[], n, expr.meaning scope⟩) ∧
    (∀ limit, (evaluate turn limit scope expr n).outcome = .error .overflow ∨
      evaluate turn limit scope expr n = Finish.run ⟨[], n, expr.meaning scope⟩) ∧
    ∀ value, expr.meaning scope = .ok value → value.FirstOrder := by
  intro enough
  have ends (limit : Nat) (room : enough ≤ limit) :
      evaluate turn limit scope expr n = Finish.run ⟨[], n, expr.meaning scope⟩ := by
    rw [(evaluate_eq_settled turn first bound).1 limit room]
    cases expr.meaning scope <;> rfl
  have settled : (Finish.run ⟨[], n, expr.meaning scope⟩).outcome ≠ .error .overflow := by
    cases expr.meaning scope <;> simp [Finish.run, Except.mapError]
  refine ⟨?_, ends, fun limit => ?_, (first.meaning bound).1⟩
  · rw [ends enough (Nat.le_refl _)]
    exact settled
  · rcases evaluate_limits turn limit enough scope expr n with exceeded | exceeded | same
    · exact .inl exceeded
    · rw [ends enough (Nat.le_refl _)] at exceeded
      exact absurd exceeded settled
    · rw [same]
      exact .inr (ends enough (Nat.le_refl _))

/-- An operator that is taken out of a list at run time, called with quoted data. -/
theorem first_order_evaluation_ends_of_computed_operator :
    let operator : Value := .ofList [.symbol "car", .ofList [.symbol "list", .symbol "car"]]
    let expr : Value := .ofList [operator, .quoted (.ofList [.symbol "a", .symbol "b"])]
    expr.FirstOrder ∧ builtin.FirstOrderFor expr ∧ expr.textDepth = 4 ∧
      evaluate {} 4 builtin expr 0 = Finish.run ⟨[], 0, .ok (.symbol "a")⟩ := by
  intro operator expr
  have first : expr.FirstOrder :=
    .cell (.cell (.symbol _) (.cell (.cell (.symbol _) (.cell (.symbol _) .nil)) .nil))
      (.cell (.quoted (.cell (.symbol _) (.cell (.symbol _) .nil))) .nil)
  have bound : builtin.FirstOrderFor expr := by
    intro name mentioned value found
    have known : name ∈ ["car", "list", "a", "b"] := by
      simp only [expr, operator, Value.ofList_cons, Value.ofList_nil] at mentioned
      grind [cases Value.Mentions]
    simp only [List.mem_cons, List.not_mem_nil, or_false] at known
    rcases known with rfl | rfl | rfl | rfl <;> cases found <;> exact .native rfl
  have ends := (first_order_evaluation_ends {} builtin expr first bound 0).2.1 4
  exact ⟨first, bound, by decide, ends (by decide)⟩

end MiniLisp
