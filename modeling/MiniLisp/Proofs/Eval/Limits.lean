import MiniLisp.Proofs.Eval.Adequacy

/-! # Evaluating under two limits

An action approximates another one when each of its runs overflows or is the run of the other. That
passes through sequences, so it passes from the places that look at the limit to calls, and from one
level of evaluation to the next: a lower limit makes evaluation overflow or makes no difference to
it. So what does not overflow under some limit ends in that way under every higher one.
-/

namespace MiniLisp

namespace Action

variable {α β : Type} {low high : Nat}

/-- Every run overflows or is the run of the other action. -/
def Approximates (short long : Action α) : Prop :=
  ∀ built, (short built).outcome = .error .overflow ∨ short built = long built

theorem approximates_refl (action : Action α) : action.Approximates action :=
  fun _ => .inr rfl

theorem approximates_overflow (action : Action α) : (stop .overflow : Action α).Approximates action :=
  fun _ => .inl rfl

theorem Approximates.bind {first first' : Action α} {next next' : α → Action β}
    (hf : first.Approximates first') (hn : ∀ a, (next a).Approximates (next' a)) :
    (first >>= next).Approximates (first' >>= next') := by
  intro built
  rcases h : first built with ⟨events, after, outcome⟩
  cases outcome with
  | error reason =>
      rw [bind_of_error h]
      rcases hf built with exceeded | same
      · rw [h] at exceeded
        cases exceeded
        exact .inl rfl
      · rw [h] at same
        rw [bind_of_error same.symm]
        exact .inr rfl
  | ok a =>
      have same : first' built = ⟨events, after, .ok a⟩ := by
        rcases hf built with exceeded | same
        · rw [h] at exceeded
          cases exceeded
        · rw [← same, h]
      rw [bind_of_ok h, bind_of_ok same]
      rcases hn a after with exceeded | same
      · exact .inl exceeded
      · rw [same]
        exact .inr rfl

theorem approximates_ofExcept {short long : Except Stop α}
    (h : short = .error .overflow ∨ short = long) :
    (ofExcept short).Approximates (ofExcept long) := by
  rcases h with rfl | rfl
  · exact approximates_overflow _
  · exact approximates_refl _

/-- What a lower limit lets through, a higher one does. -/
theorem approximates_ite {depth : Nat} (h : low ≤ high) (action : Action α) :
    (if depth ≤ low then action else stop .overflow).Approximates
      (if depth ≤ high then action else stop .overflow) := by
  by_cases fits : depth ≤ low
  · rw [if_pos fits, if_pos (Nat.le_trans fits h)]
    exact approximates_refl action
  · rw [if_neg fits]
    exact approximates_overflow _

theorem approximates_within (h : low ≤ high) (depth : Nat) :
    (within low depth).Approximates (within high depth) :=
  approximates_ite h _

theorem fail_eq (limit : Nat) (error : Error) :
    (fail limit error : Action α) =
      if error.messageDepth ≤ limit then stop (.error error) else stop .overflow := by
  unfold fail Stop.ofError
  split <;> rfl

theorem approximates_fail (h : low ≤ high) (error : Error) :
    (fail low error : Action α).Approximates (fail high error) := by
  rw [fail_eq, fail_eq]
  exact approximates_ite h _

end Action

open MiniLisp.Action Filter

section

variable {low high : Nat}

/-! ## Calls -/

/-- A result that needs some room overflows under a lower limit or is there under both. -/
theorem ite_limits {α : Type} {depth : Nat} (h : low ≤ high) (result : Except Stop α) :
    (if depth ≤ low then result else .error .overflow) = .error .overflow ∨
      (if depth ≤ low then result else .error .overflow) =
        if depth ≤ high then result else .error .overflow := by
  by_cases fits : depth ≤ low
  · rw [if_pos fits, if_pos (Nat.le_trans fits h)]
    exact .inr rfl
  · exact .inl (if_neg fits)

theorem Params.ofValue_limits (h : low ≤ high) (formals : Value) :
    Params.ofValue low formals = .error .overflow ∨
      Params.ofValue low formals = Params.ofValue high formals := by
  obtain ⟨depth, heq⟩ := Params.ofValue_eq formals
  rw [heq, heq]
  exact ite_limits h _

theorem approximates_notice (h : low ≤ high) (turn : Turn) (event : Event) (value : Value) :
    (turn.notice low event value).Approximates (turn.notice high event value) := by
  unfold Turn.notice
  split
  · exact (approximates_within h _).bind fun _ => approximates_refl _
  · exact approximates_refl _

theorem approximates_build (h : low ≤ high) (turn : Turn) (kind : CallKind) (scope : Scope)
    (formals body : Value) :
    (turn.build low kind scope formals body).Approximates
      (turn.build high kind scope formals body) := by
  unfold Turn.build
  refine (approximates_ofExcept (Params.ofValue_limits h formals)).bind fun params => ?_
  refine (approximates_refl nextSerial).bind fun serial => ?_
  exact (approximates_notice h turn _ _).bind fun _ => approximates_refl _

theorem approximates_checkArity (h : low ≤ high) (callee : String) (arity : Arity)
    (args : List Value) :
    (Call.checkArity low callee arity args).Approximates
      (Call.checkArity high callee arity args) := by
  unfold Call.checkArity
  split
  · exact approximates_refl _
  · exact approximates_fail h _

theorem approximates_native (h : low ≤ high) (op : Native) (args : List Value) :
    (Call.native low op args).Approximates (Call.native high op args) := by
  unfold Call.native
  refine (approximates_checkArity h _ _ _).bind fun _ => ?_
  split
  · exact approximates_refl _
  · exact approximates_refl _
  · exact approximates_fail h _
  · exact approximates_refl _
  · exact approximates_fail h _
  · exact approximates_refl _
  · exact approximates_refl _

theorem approximates_nativeForm (h : low ≤ high) (turn : Turn) (op : Native) (scope : Scope)
    (operands : List Value) :
    (Call.nativeForm turn low op scope operands).Approximates
      (Call.nativeForm turn high op scope operands) := by
  unfold Call.nativeForm
  refine (approximates_checkArity h _ _ _).bind fun _ => ?_
  split
  · exact approximates_refl _
  · exact approximates_build h turn _ _ _ _
  · exact approximates_build h turn _ _ _ _
  · exact approximates_refl _

theorem approximates_probe (h : low ≤ high) (p : Probe) (answer : Value) (args : List Value) :
    (Call.probe low p answer args).Approximates (Call.probe high p answer args) := by
  unfold Call.probe
  rw [forM_within, forM_within]
  refine (approximates_checkArity h _ _ _).bind fun _ => ?_
  refine (approximates_within h _).bind fun _ => ?_
  refine (approximates_refl _).bind fun _ => ?_
  cases p.fault with
  | some fault => exact approximates_fail h _
  | none => exact approximates_refl _

def Evaluator.Approximates (short long : Evaluator) : Prop :=
  ∀ scope expr, (short scope expr).Approximates (long scope expr)

variable {short long : Evaluator} {turn : Turn}

theorem approximates_enter (h : low ≤ high) (he : short.Approximates long) (kind : CallKind)
    (scope : Scope) (params : Params) (body : Value) (args : List Value) :
    (Call.enter short low kind scope params body args).Approximates
      (Call.enter long high kind scope params body args) := by
  rw [Call.enter_eq, Call.enter_eq]
  cases params.bind? args with
  | some frame => exact he _ _
  | none => exact approximates_fail h _

theorem approximates_produce (h : low ≤ high) (he : short.Approximates long) (scope : Scope)
    (params : Params) (body : Value) (operands : List Value) :
    (Call.produce short turn low scope params body operands).Approximates
      (Call.produce long turn high scope params body operands) := by
  unfold Call.produce
  refine (approximates_enter h he .form scope params body operands).bind fun code => ?_
  exact (approximates_notice h turn _ _).bind fun _ => approximates_refl _

theorem approximates_function (h : low ≤ high) (he : short.Approximates long) {callee : Value}
    (hk : callee.callKind? = some .function) (args : List Value) :
    (Call.function short low callee args).Approximates (Call.function long high callee args) := by
  cases Value.callable_of_callKind? hk with
  | native hop =>
      rw [Call.function_native _ _ _ hop, Call.function_native _ _ _ hop]
      exact approximates_native h _ args
  | compound => exact approximates_enter h he .function _ _ _ args
  | probe hp =>
      rw [Call.function_probe _ _ _ hp, Call.function_probe _ _ _ hp]
      exact approximates_probe h _ _ args
  | stub => exact approximates_refl _

theorem approximates_form (h : low ≤ high) (he : short.Approximates long) {callee : Value}
    (hk : callee.callKind? = some .form) (scope : Scope) (operands : List Value) :
    (Call.form short turn low callee scope operands).Approximates
      (Call.form long turn high callee scope operands) := by
  cases Value.callable_of_callKind? hk with
  | native hop =>
      rw [Call.form_native _ _ _ _ _ hop, Call.form_native _ _ _ _ _ hop]
      exact approximates_nativeForm h turn _ scope operands
  | compound => exact (approximates_produce h he _ _ _ operands).bind fun code => he scope code
  | probe hp =>
      rw [Call.form_probe _ _ _ _ _ hp, Call.form_probe _ _ _ _ _ hp]
      exact approximates_probe h _ _ operands
  | stub => exact approximates_refl _

/-! ## Evaluation -/

theorem approximates_evaluateEach {one other : Value → Action Value}
    (he : ∀ expr, (one expr).Approximates (other expr)) (exprs : List Value) :
    (evaluateEach one exprs).Approximates (evaluateEach other exprs) := by
  induction exprs with
  | nil => exact approximates_refl _
  | cons expr exprs ih =>
      exact (he expr).bind fun value => ih.bind fun values => approximates_refl _

theorem approximates_callOperator (h : low ≤ high) (he : short.Approximates long) (scope : Scope)
    (operands : List Value) (operator : Value) :
    (callOperator short turn low scope operands operator).Approximates
      (callOperator long turn high scope operands operator) := by
  cases hk : operator.callKind? with
  | none =>
      rw [callOperator_none hk, callOperator_none hk]
      exact approximates_fail h _
  | some kind =>
      cases kind with
      | function =>
          rw [callOperator_function hk, callOperator_function hk]
          exact (approximates_evaluateEach (he scope) operands).bind
            fun args => approximates_function h he hk args
      | form =>
          rw [callOperator_form hk, callOperator_form hk]
          exact approximates_form h he hk scope operands

theorem approximates_evaluateStep (h : low ≤ high) (he : short.Approximates long) :
    (evaluateStep short turn low).Approximates (evaluateStep long turn high) := by
  intro scope expr
  cases expr with
  | symbol name =>
      cases hn : scope.get? name with
      | some value =>
          rw [evaluateStep_bound hn, evaluateStep_bound hn]
          exact approximates_refl _
      | none =>
          rw [evaluateStep_unbound hn, evaluateStep_unbound hn]
          exact approximates_fail h _
  | cell head tail =>
      cases hl : tail.toList? with
      | none =>
          rw [evaluateStep_improper hl, evaluateStep_improper hl]
          exact approximates_fail h _
      | some operands =>
          rw [evaluateStep_call hl, evaluateStep_call hl]
          exact (he scope head).bind
            fun operator => approximates_callOperator h he scope operands operator
  | _ => exact approximates_refl _

/-- Evaluation under a lower limit overflows or is evaluation under a higher one. -/
theorem approximates_evaluate (turn : Turn) :
    ∀ {low high : Nat}, low ≤ high →
      (evaluate turn low).Approximates (evaluate turn high) := by
  intro low
  induction low with
  -- Without any room left every expression overflows.
  | zero => exact fun _ scope expr => approximates_overflow _
  | succ low ih =>
      intro high h
      obtain ⟨below, rfl⟩ : ∃ below, high = below + 1 := ⟨high - 1, by omega⟩
      have fewer : low ≤ below := by omega
      exact approximates_evaluateStep fewer (ih fewer)

/-- Under any two limits evaluation overflows or is the same. -/
theorem evaluate_limits (turn : Turn) (limit limit' : Nat) (scope : Scope) (expr : Value)
    (n : Nat) :
    (evaluate turn limit scope expr n).outcome = .error .overflow ∨
      (evaluate turn limit' scope expr n).outcome = .error .overflow ∨
      evaluate turn limit scope expr n = evaluate turn limit' scope expr n := by
  rcases Nat.le_total limit limit' with h | h
  · rcases approximates_evaluate turn h scope expr n with exceeded | same
    · exact .inl exceeded
    · exact .inr (.inr same)
  · rcases approximates_evaluate turn h scope expr n with exceeded | same
    · exact .inr (.inl exceeded)
    · exact .inr (.inr same.symm)

theorem approximates_expand (h : low ≤ high) (turn : Turn) (scope : Scope) (expr : Value) :
    (expand turn low scope expr).Approximates (expand turn high scope expr) := by
  have he := approximates_evaluate turn h
  cases expr with
  | cell head tail =>
      unfold expand
      dsimp only
      cases tail.toList? with
      | none => exact approximates_fail h _
      | some operands =>
          refine (he scope head).bind fun operator => ?_
          split
          · exact (approximates_produce h he _ _ _ operands).bind fun _ => approximates_refl _
          · exact approximates_refl _
  | _ => exact approximates_refl _

end

/-! ## Ends -/

/-- A higher limit makes no difference but to an overflow. -/
def Steady {α : Type} (action : Nat → Action α) : Prop :=
  ∀ ⦃low high⦄, low ≤ high → (action low).Approximates (action high)

/-- Under every limit that is large enough the action ends so, and not for want of room. -/
def Ends {α : Type} (action : Nat → Action α) (n : Nat) (outcome : Except Stop α) : Prop :=
  outcome ≠ .error .overflow ∧ ∀ᶠ limit in atTop, (action limit n).outcome = outcome

section

variable {α β : Type} {action : Nat → Action α} {n : Nat} {outcome : Except Stop α}

theorem Steady.bind {next : Nat → α → Action β} (first : Steady action)
    (rest : ∀ a, Steady fun limit => next limit a) :
    Steady fun limit => action limit >>= next limit :=
  fun _ _ more => (first more).bind fun a => rest a more

theorem steady_evaluate (turn : Turn) (scope : Scope) (expr : Value) :
    Steady fun limit => evaluate turn limit scope expr :=
  fun _ _ more => approximates_evaluate turn more scope expr

theorem Action.Approximates.eq_of_settled {short long : Action α} (h : short.Approximates long)
    (settled : (short n).outcome ≠ .error .overflow) : long n = short n := by
  rcases h n with exceeded | same
  · exact absurd exceeded settled
  · exact same.symm

theorem Steady.eventually_eq (steady : Steady action) {enough : Nat} {run : Run α}
    (h : action enough n = run) (settled : run.outcome ≠ .error .overflow) :
    ∀ᶠ limit in atTop, action limit n = run := by
  filter_upwards [eventually_ge_atTop enough] with limit more
  rw [(steady more).eq_of_settled (h ▸ settled), h]

/-- One limit is enough to tell the end of a steady action. -/
theorem Steady.ends_iff (steady : Steady action) :
    Ends action n outcome ↔
      outcome ≠ .error .overflow ∧ ∃ limit, (action limit n).outcome = outcome := by
  refine and_congr_right fun settled => ⟨fun eventually => eventually.exists, ?_⟩
  rintro ⟨enough, rfl⟩
  filter_upwards [steady.eventually_eq rfl settled] with limit same
  rw [same]

theorem ends_succ_iff : Ends (fun limit => action (limit + 1)) n outcome ↔ Ends action n outcome := by
  unfold Ends
  rw [← eventually_map (m := (· + 1)) (P := fun limit => (action limit n).outcome = outcome),
    map_add_atTop_eq_nat]

theorem ends_congr {action' : Nat → Action α} {n' : Nat}
    (same : ∀ᶠ limit in atTop, (action limit n).outcome = (action' limit n').outcome) :
    Ends action n outcome ↔ Ends action' n' outcome := by
  refine and_congr_right fun _ => eventually_congr ?_
  filter_upwards [same] with limit same
  rw [same]

/-- Where an action overflows or ends as another one does, its end is that of the other. -/
theorem Ends.of_overflow_or_eq {long : Nat → Action α} (h : Ends action n outcome)
    (cases : ∀ limit, (action limit n).outcome = .error .overflow ∨
      (action limit n).outcome = (long limit n).outcome) :
    Ends long n outcome := by
  obtain ⟨settled, eventually⟩ := h
  refine ⟨settled, ?_⟩
  filter_upwards [eventually] with limit reached
  rcases cases limit with exceeded | same
  · exact absurd (reached.symm.trans exceeded) settled
  · rw [← same, reached]

/-- What lies between an action under one limit and under the next ends as that action does. -/
theorem ends_iff_of_between {mid : Nat → Action α}
    (below : ∀ limit, (action limit).Approximates (mid limit))
    (above : ∀ limit, (mid limit).Approximates (action (limit + 1))) :
    Ends action n outcome ↔ Ends mid n outcome := by
  constructor
  · exact fun ends => ends.of_overflow_or_eq fun limit =>
      (below limit n).imp_right (congrArg Run.outcome)
  · intro ends
    have next : Ends (fun limit => action (limit + 1)) n outcome :=
      ends.of_overflow_or_eq fun limit => (above limit n).imp_right (congrArg Run.outcome)
    exact ends_succ_iff.mp next

end

end MiniLisp
