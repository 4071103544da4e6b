import Mathlib.Order.Filter.AtTopBot.Basic
import MiniLisp.Proofs.Eval.Preservation
import MiniLisp.Proofs.Eval.Rules

/-! # The evaluator and the rules agree

A run that ends with a value or an error is derived by the rules, by induction on the limit. What
the rules derive is what the evaluator comes to under every limit that is large enough, by recursion
on the derivation. So there is at most one derivable finish.
-/

namespace MiniLisp

open Filter

/-! ## Finishes of actions -/

theorem Finish.run_injective {α : Type} {a b : Finish α} (h : a.run = b.run) : a = b := by
  obtain ⟨events, built, outcome⟩ := a
  obtain ⟨events', built', outcome'⟩ := b
  unfold run at h
  injection h with he hb ho
  subst he hb
  cases outcome <;> cases outcome' <;> cases ho <;> rfl

namespace Action

variable {α β : Type}

theorem eq_of_pure_run {a : α} {n : Nat} {finish : Finish α}
    (h : (Pure.pure a : Action α) n = finish.run) : finish = ⟨[], n, .ok a⟩ :=
  (Finish.run_injective (a := ⟨[], n, .ok a⟩) h).symm

theorem eq_of_stop_run {reason : Stop} {n : Nat} {finish : Finish α}
    (h : (stop reason : Action α) n = finish.run) :
    ∃ error, reason = .error error ∧ finish = ⟨[], n, .error error⟩ := by
  obtain ⟨events, built, outcome⟩ := finish
  cases outcome with
  | error error =>
      cases h
      exact ⟨error, rfl, rfl⟩
  | ok a => cases h

theorem eq_of_fail_run {limit : Nat} {error : Error} {n : Nat} {finish : Finish α}
    (h : (fail limit error : Action α) n = finish.run) : finish = ⟨[], n, .error error⟩ := by
  obtain ⟨found, same, rfl⟩ := eq_of_stop_run h
  unfold Stop.ofError at same
  split at same <;> cases same
  rfl

theorem bind_run_error {first : Action α} {n m : Nat} {events : List Event} {error : Error}
    (h : first n = Finish.run ⟨events, m, .error error⟩) (next : α → Action β) :
    (first >>= next) n = Finish.run ⟨events, m, .error error⟩ :=
  bind_of_error h next

theorem bind_run_ok {first : Action α} {n m k : Nat} {events more : List Event} {a : α}
    {outcome : Except Error β} (h : first n = Finish.run ⟨events, m, .ok a⟩) (next : α → Action β)
    (hn : next a m = Finish.run ⟨more, k, outcome⟩) :
    (first >>= next) n = Finish.run ⟨events ++ more, k, outcome⟩ := by
  rw [bind_of_ok h next, hn]
  rfl

/-- A sequence finishes with the error of its first part, or with what follows its result. -/
theorem bind_run_cases {first : Action α} {next : α → Action β} {n : Nat} {finish : Finish β}
    (h : (first >>= next) n = finish.run) :
    (∃ events m error, first n = Finish.run ⟨events, m, .error error⟩ ∧
      finish = ⟨events, m, .error error⟩) ∨
    ∃ events m a last, first n = Finish.run ⟨events, m, .ok a⟩ ∧ next a m = Finish.run last ∧
      finish = ⟨events ++ last.events, last.built, last.outcome⟩ := by
  obtain ⟨whole, after, result⟩ := finish
  rcases hf : first n with ⟨events, m, outcome⟩
  cases outcome with
  | error reason =>
      rw [bind_of_error hf] at h
      injection h with he hm ho
      cases result <;> cases ho
      subst he hm
      exact .inl ⟨_, _, _, rfl, rfl⟩
  | ok a =>
      rw [bind_of_ok hf] at h
      injection h with he hm ho
      refine .inr ⟨events, m, a, ⟨(next a m).events, after, result⟩, rfl, ?_, ?_⟩
      · rcases hn : next a m with ⟨more, k, rest⟩
        rw [hn] at hm ho
        exact congr (congrArg (Run.mk more) hm) ho
      · exact congrArg (fun es => Finish.mk es after result) he.symm

theorem eq_of_emit_run {event : Event} {n : Nat} {finish : Finish Unit}
    (h : emit event n = finish.run) : finish = ⟨[event], n, .ok ()⟩ :=
  (Finish.run_injective (a := ⟨[event], n, .ok ()⟩) h).symm

theorem eq_of_within_run {limit depth n : Nat} {finish : Finish Unit}
    (h : within limit depth n = finish.run) : finish = ⟨[], n, .ok ()⟩ := by
  unfold within at h
  split at h
  · exact eq_of_pure_run h
  · obtain ⟨_, overflow, _⟩ := eq_of_stop_run h
    cases overflow

/-- To refuse what nests too deep, one value after the other, is to refuse the deepest. -/
theorem forM_within (limit : Nat) (depth : α → Nat) (xs : List α) :
    (xs.forM fun x => within limit (depth x)) = within limit ((xs.map depth).foldr max 0) := by
  induction xs with
  | nil => exact (if_pos (Nat.zero_le limit)).symm
  | cons x xs ih =>
      have step : ((x :: xs).forM fun x => within limit (depth x)) =
          (within limit (depth x) >>= fun _ => xs.forM fun x => within limit (depth x)) := rfl
      rw [step, ih, List.map_cons, List.foldr_cons]
      unfold within
      by_cases hx : depth x ≤ limit
      · rw [if_pos hx]
        refine (pure_bind () _).trans ?_
        simp only [Nat.max_le, hx, true_and]
      · have deep : ¬ max (depth x) ((xs.map depth).foldr max 0) ≤ limit := by omega
        rw [if_neg hx, if_neg deep]
        rfl

end Action

/-! ## From runs to derivations -/

/-- Formals are read under a limit as they are without one, or not at all. -/
theorem Params.ofValue_eq (formals : Value) :
    ∃ depth, ∀ limit, Params.ofValue limit formals =
      if depth ≤ limit then (Params.described formals).mapError .error else .error .overflow := by
  unfold Params.ofValue Params.described Value.elements
  cases hl : formals.toList? with
  | none =>
      by_cases hc : formals.isCell = true
      · exact ⟨0, fun limit => by simp [hc, Except.mapError]⟩
      · refine ⟨formals.inspectDepth, fun limit => ?_⟩
        by_cases hd : formals.inspectDepth ≤ limit
        · simp [hc, Stop.ofError, Error.messageDepth, hd, Except.mapError]
        · simp [hc, Stop.ofError, Error.messageDepth, hd]
  | some items =>
      cases hn : symbolNames items with
      | error item =>
          refine ⟨item.inspectDepth, fun limit => ?_⟩
          by_cases hd : item.inspectDepth ≤ limit
          · simp [hn, Stop.ofError, Error.messageDepth, hd, Except.mapError]
          · simp [hn, Stop.ofError, Error.messageDepth, hd]
      | ok names => exact ⟨0, fun limit => by simp [hn]⟩

theorem Params.described_of_ofValue {limit : Nat} {formals : Value} {r : Except Error Params}
    (h : Params.ofValue limit formals = r.mapError .error) : Params.described formals = r := by
  obtain ⟨depth, heq⟩ := Params.ofValue_eq formals
  rw [heq] at h
  split at h
  · cases hd : Params.described formals <;> cases r <;> rw [hd] at h <;> cases h <;> rfl
  · cases r <;> cases h

section

variable {turn : Turn} {limit : Nat} {evaluate : Evaluator}

theorem notice_run {event : Event} {value : Value} {n : Nat} {finish : Finish Unit}
    (h : turn.notice limit event value n = finish.run) : finish = ⟨[event], n, .ok ()⟩ := by
  unfold Turn.notice at h
  split at h
  · rcases Action.bind_run_cases h with ⟨_, _, _, hw, _⟩ | ⟨_, _, _, last, hw, hl, rfl⟩
    · cases Action.eq_of_within_run hw
    · cases Action.eq_of_within_run hw
      rw [Action.eq_of_emit_run hl]
      rfl
  · exact Action.eq_of_emit_run h

theorem build_run {kind : CallKind} {scope : Scope} {formals body : Value} {n : Nat}
    {finish : Finish Value} (h : turn.build limit kind scope formals body n = finish.run) :
    (∃ error, Params.described formals = .error error ∧ finish = ⟨[], n, .error error⟩) ∨
    ∃ params, Params.described formals = .ok params ∧
      finish = ⟨[.built (.compound kind ⟨turn.number, n⟩ scope params body)], n + 1,
        .ok (.compound kind ⟨turn.number, n⟩ scope params body)⟩ := by
  unfold Turn.build at h
  rcases Action.bind_run_cases h with
    ⟨events, m, error, hp, rfl⟩ | ⟨events, m, params, last, hp, hl, rfl⟩
  · cases ho : Params.ofValue limit formals with
    | ok params => rw [ho] at hp; cases hp
    | error reason =>
        rw [ho] at hp
        cases hp
        exact .inl ⟨error, Params.described_of_ofValue (r := .error error) ho, rfl⟩
  · cases ho : Params.ofValue limit formals with
    | error reason => rw [ho] at hp; cases hp
    | ok found =>
        rw [ho] at hp
        cases hp
        refine .inr ⟨params, Params.described_of_ofValue (r := .ok params) ho, ?_⟩
        rcases Action.bind_run_cases hl with ⟨_, _, _, hs, _⟩ | ⟨_, _, serial, rest, hs, hn, rfl⟩
        · cases hs
        · cases hs
          rcases Action.bind_run_cases hn with ⟨_, _, _, hw, _⟩ | ⟨_, _, _, _, hw, hr, rfl⟩
          · cases notice_run hw
          · cases notice_run hw
            rw [Action.eq_of_pure_run hr]
            rfl

theorem native_run {t : Nat} {op : Native} {args : List Value} {n : Nat} {finish : Finish Value}
    (hk : op.kind = .function) (h : Call.native limit op args n = finish.run) :
    Applies t (.native op) args n finish := by
  unfold Call.native at h
  rw [Call.checkArity_bind] at h
  split at h
  · rename_i accepted
    cases op with
    | cons =>
        obtain ⟨left, right, rfl⟩ := Arity.two_of_accepts accepted
        rw [Action.eq_of_pure_run h]
        exact .cons
    | car =>
        obtain ⟨value, rfl⟩ := Arity.one_of_accepts accepted
        cases value with
        | cell left right =>
            rw [Action.eq_of_pure_run h]
            exact .car
        | _ =>
            rw [Action.eq_of_fail_run h]
            exact .notCell (.inl rfl) rfl
    | cdr =>
        obtain ⟨value, rfl⟩ := Arity.one_of_accepts accepted
        cases value with
        | cell left right =>
            rw [Action.eq_of_pure_run h]
            exact .cdr
        | _ =>
            rw [Action.eq_of_fail_run h]
            exact .notCell (.inr rfl) rfl
    | list =>
        rw [Action.eq_of_pure_run h]
        exact .list
    | quote => cases hk
    | lambda => cases hk
    | expander => cases hk
  · rename_i refused
    rw [Action.eq_of_fail_run h]
    exact .wrongArity (congrArg some hk) rfl (by simpa using refused)

theorem nativeForm_run {op : Native} {scope : Scope} {operands : List Value} {n : Nat}
    {finish : Finish Value} (hk : op.kind = .form)
    (h : Call.nativeForm turn limit op scope operands n = finish.run) :
    Transforms turn.number (.native op) scope operands n finish := by
  unfold Call.nativeForm at h
  rw [Call.checkArity_bind] at h
  split at h
  · rename_i accepted
    cases op with
    | quote =>
        obtain ⟨form, rfl⟩ := Arity.one_of_accepts accepted
        rw [Action.eq_of_pure_run h]
        exact .quote
    | lambda =>
        obtain ⟨formals, body, rfl⟩ := Arity.two_of_accepts accepted
        rcases build_run h with ⟨error, hd, rfl⟩ | ⟨params, hd, rfl⟩
        · exact .malformed rfl hd
        · exact .built rfl hd
    | expander =>
        obtain ⟨formals, body, rfl⟩ := Arity.two_of_accepts accepted
        rcases build_run h with ⟨error, hd, rfl⟩ | ⟨params, hd, rfl⟩
        · exact .malformed rfl hd
        · exact .built rfl hd
    | cons => cases hk
    | car => cases hk
    | cdr => cases hk
    | list => cases hk
  · rename_i refused
    rw [Action.eq_of_fail_run h]
    exact .wrongArity (congrArg some hk) rfl (by simpa using refused)

/-- A host callable is refused by its arity, or is recorded and gives its outcome. -/
theorem probe_run {p : Probe} {answer : Value} {args : List Value} {n : Nat} {finish : Finish Value}
    (h : Call.probe limit p answer args n = finish.run) :
    (p.arity.accepts args.length = false ∧
      finish = ⟨[], n, .error (.wrongArity p.name p.arity args.length)⟩) ∨
    (p.arity.accepts args.length = true ∧
      finish = ⟨[.called (Call.note p args)], n, p.outcome answer⟩) := by
  unfold Call.probe at h
  rw [Call.checkArity_bind] at h
  split at h
  · rename_i accepted
    refine .inr ⟨accepted, ?_⟩
    rw [Action.forM_within] at h
    rcases Action.bind_run_cases h with ⟨_, _, _, hw, _⟩ | ⟨_, _, _, last, hw, hl, rfl⟩
    · cases Action.eq_of_within_run hw
    · cases Action.eq_of_within_run hw
      rcases Action.bind_run_cases hl with ⟨_, _, _, he, _⟩ | ⟨_, _, _, rest, he, hr, rfl⟩
      · cases Action.eq_of_emit_run he
      · cases Action.eq_of_emit_run he
        unfold Probe.outcome
        cases hf : p.fault with
        | some fault =>
            rw [hf] at hr
            rw [Action.eq_of_fail_run hr]
            rfl
        | none =>
            rw [hf] at hr
            rw [Action.eq_of_pure_run hr]
            rfl
  · rename_i refused
    exact .inl ⟨by simpa using refused, Action.eq_of_fail_run h⟩

/-- What the evaluator does below a level is derived by the rules. -/
def Evaluator.Sound (turn : Nat) (evaluate : Evaluator) : Prop :=
  ∀ scope expr n finish, evaluate scope expr n = Finish.run finish →
    Evaluates turn scope expr n finish

theorem evaluateEach_run {scope : Scope} (he : evaluate.Sound turn.number) {exprs : List Value} :
    ∀ {n : Nat} {finish : Finish (List Value)},
      evaluateEach (evaluate scope) exprs n = finish.run →
      EvaluatesEach turn.number scope exprs n finish := by
  induction exprs with
  | nil =>
      intro n finish h
      rw [Action.eq_of_pure_run h]
      exact .nil
  | cons expr exprs ih =>
      intro n finish h
      rcases Action.bind_run_cases h with ⟨_, _, _, hv, rfl⟩ | ⟨events, m, value, _, hv, hn, rfl⟩
      · exact .headFails (he _ _ _ _ hv)
      · have first := he _ _ _ _ hv
        rcases Action.bind_run_cases hn with ⟨_, _, _, hr, rfl⟩ | ⟨more, k, values, last, hr, hp, rfl⟩
        · exact .tailFails first (ih hr)
        · rw [Action.eq_of_pure_run hp, List.append_nil]
          exact .cons first (ih hr)

theorem function_run (he : evaluate.Sound turn.number) {callee : Value} {args : List Value}
    {n : Nat} {finish : Finish Value} (hk : callee.callKind? = some .function)
    (h : Call.function evaluate limit callee args n = finish.run) :
    Applies turn.number callee args n finish := by
  cases Value.callable_of_callKind? hk with
  | native hop =>
      rw [Call.function_native _ _ _ hop] at h
      exact native_run hop h
  | @compound birth home params body =>
      rw [Call.function, Call.enter_eq] at h
      split at h
      · rename_i frame hf
        exact .closure hf (he _ _ _ _ h)
      · rename_i hf
        have refused := params.bind?_isSome args
        rw [hf] at refused
        rw [Action.eq_of_fail_run h]
        exact .wrongArity rfl rfl refused.symm
  | probe hp =>
      rw [Call.function_probe _ _ _ hp] at h
      rcases probe_run h with ⟨refused, rfl⟩ | ⟨accepted, rfl⟩
      · exact .wrongArity hk rfl refused
      · exact .host hp accepted
  | stub =>
      obtain ⟨_, ended, _⟩ := Action.eq_of_stop_run h
      cases ended

theorem form_run (he : evaluate.Sound turn.number) {callee : Value} {scope : Scope}
    {operands : List Value} {n : Nat} {finish : Finish Value} (hk : callee.callKind? = some .form)
    (h : Call.form evaluate turn limit callee scope operands n = finish.run) :
    Transforms turn.number callee scope operands n finish := by
  cases Value.callable_of_callKind? hk with
  | native hop =>
      rw [Call.form_native _ _ _ _ _ hop] at h
      exact nativeForm_run hop h
  | @compound birth home params body =>
      rw [Call.form, Call.produce, Call.enter_eq, bind_assoc] at h
      split at h
      · rename_i frame hf
        rcases Action.bind_run_cases h with ⟨_, _, _, hc, rfl⟩ | ⟨events, m, code, _, hc, hn, rfl⟩
        · exact .productionFails hf (he _ _ _ _ hc)
        · rw [bind_assoc] at hn
          rcases Action.bind_run_cases hn with ⟨_, _, _, hw, _⟩ | ⟨_, _, _, last, hw, hl, rfl⟩
          · cases notice_run hw
          · cases notice_run hw
            exact .expanded hf (he _ _ _ _ hc) (he _ _ _ _ hl)
      · rename_i hf
        have refused := params.bind?_isSome operands
        rw [hf] at refused
        rw [Action.eq_of_fail_run h]
        exact .wrongArity rfl rfl refused.symm
  | probe hp =>
      rw [Call.form_probe _ _ _ _ _ hp] at h
      rcases probe_run h with ⟨refused, rfl⟩ | ⟨accepted, rfl⟩
      · exact .wrongArity hk rfl refused
      · exact .host hp accepted
  | stub =>
      obtain ⟨_, ended, _⟩ := Action.eq_of_stop_run h
      cases ended

theorem callOperator_run (he : evaluate.Sound turn.number) {scope : Scope}
    {head tail operator : Value} {operands : List Value} {n m : Nat} {events : List Event}
    {last : Finish Value} (proper : tail.toList? = some operands)
    (first : Evaluates turn.number scope head n ⟨events, m, .ok operator⟩)
    (h : callOperator evaluate turn limit scope operands operator m = last.run) :
    Evaluates turn.number scope (.cell head tail) n
      ⟨events ++ last.events, last.built, last.outcome⟩ := by
  cases hk : operator.callKind? with
  | none =>
      rw [callOperator_none hk] at h
      rw [Action.eq_of_fail_run h, List.append_nil]
      exact .notCallable proper first hk
  | some kind =>
      cases kind with
      | function =>
          rw [callOperator_function hk] at h
          rcases Action.bind_run_cases h with ⟨_, _, _, ha, rfl⟩ | ⟨_, _, args, _, ha, hf, rfl⟩
          · exact .operandFails proper first hk (evaluateEach_run he ha)
          · exact .function proper first hk (evaluateEach_run he ha) (function_run he hk hf)
      | form =>
          rw [callOperator_form hk] at h
          exact .form proper first hk (form_run he hk h)

theorem evaluateStep_sound (he : evaluate.Sound turn.number) :
    (evaluateStep evaluate turn limit).Sound turn.number := by
  intro scope expr n finish h
  cases expr with
  | symbol name =>
      cases hn : scope.get? name with
      | some value =>
          rw [evaluateStep_bound hn] at h
          rw [Action.eq_of_pure_run h]
          exact .bound hn
      | none =>
          rw [evaluateStep_unbound hn] at h
          rw [Action.eq_of_fail_run h]
          exact .unbound hn
  | quoted inner =>
      rw [evaluateStep_quoted] at h
      rw [Action.eq_of_pure_run h]
      exact .quoted
  | cell head tail =>
      cases hl : tail.toList? with
      | none =>
          rw [evaluateStep_improper hl] at h
          rw [Action.eq_of_fail_run h]
          exact .improper hl
      | some operands =>
          rw [evaluateStep_call hl] at h
          rcases Action.bind_run_cases h with ⟨_, _, _, ho, rfl⟩ | ⟨_, _, operator, _, ho, hc, rfl⟩
          · exact .operatorFails hl (he _ _ _ _ ho)
          · exact callOperator_run he hl (he _ _ _ _ ho) hc
  | _ =>
      rw [Action.eq_of_pure_run h]
      exact .constant rfl

/-- Whatever the evaluator comes to under some limit is derived by the rules. -/
theorem evaluate_sound (turn : Turn) (limit : Nat) :
    (MiniLisp.evaluate turn limit).Sound turn.number := by
  induction limit with
  | zero =>
      intro scope expr n finish h
      obtain ⟨_, overflow, _⟩ := Action.eq_of_stop_run h
      cases overflow
  | succ limit ih => exact evaluateStep_sound ih

end

/-! ## From derivations to runs -/

section

variable (turn : Turn)

theorem eventually_fail {α : Type} (error : Error) (n : Nat) :
    ∀ᶠ limit in atTop, (Action.fail limit error : Action α) n = Finish.run ⟨[], n, .error error⟩ := by
  filter_upwards [eventually_ge_atTop error.messageDepth] with limit room
  rw [Action.fail, Stop.ofError, if_pos room]
  rfl

theorem eventually_within (depth : Nat) :
    ∀ᶠ limit in atTop, Action.within limit depth = pure () := by
  filter_upwards [eventually_ge_atTop depth] with limit room
  exact if_pos room

theorem eventually_notice (event : Event) (value : Value) (n : Nat) :
    ∀ᶠ limit in atTop, turn.notice limit event value n = Finish.run ⟨[event], n, .ok ()⟩ := by
  filter_upwards [eventually_within value.inspectDepth] with limit fits
  unfold Turn.notice
  rw [fits]
  split <;> rfl

theorem eventually_ofValue (formals : Value) :
    ∀ᶠ limit in atTop,
      Params.ofValue limit formals = (Params.described formals).mapError .error := by
  obtain ⟨depth, heq⟩ := Params.ofValue_eq formals
  filter_upwards [eventually_ge_atTop depth] with limit room
  rw [heq, if_pos room]

theorem eventually_build_error {formals : Value} {error : Error}
    (h : Params.described formals = .error error) (kind : CallKind) (scope : Scope) (body : Value)
    (n : Nat) :
    ∀ᶠ limit in atTop,
      turn.build limit kind scope formals body n = Finish.run ⟨[], n, .error error⟩ := by
  filter_upwards [eventually_ofValue formals] with limit hv
  rw [h] at hv
  unfold Turn.build
  rw [hv]
  rfl

theorem eventually_build_ok {formals : Value} {params : Params}
    (h : Params.described formals = .ok params) (kind : CallKind) (scope : Scope) (body : Value)
    (n : Nat) :
    ∀ᶠ limit in atTop, turn.build limit kind scope formals body n =
      Finish.run ⟨[.built (.compound kind ⟨turn.number, n⟩ scope params body)], n + 1,
        .ok (.compound kind ⟨turn.number, n⟩ scope params body)⟩ := by
  let callable := Value.compound kind ⟨turn.number, n⟩ scope params body
  filter_upwards [eventually_ofValue formals,
    eventually_notice turn (.built callable) callable (n + 1)] with limit hv hn
  rw [h] at hv
  have noticed : (turn.notice limit (.built callable) callable >>= fun _ => pure callable) (n + 1) =
      Finish.run ⟨[.built callable], n + 1, .ok callable⟩ :=
    Action.bind_run_ok hn _ rfl
  unfold Turn.build
  rw [hv]
  exact noticed

theorem function_of_refused {callee : Value} {name : String} {arity : Arity} {args : List Value}
    (evaluate : Evaluator) (limit : Nat) (hk : callee.callKind? = some .function)
    (hs : callee.signature? = some (name, arity)) (refused : arity.accepts args.length = false) :
    Call.function evaluate limit callee args =
      Action.fail limit (.wrongArity name arity args.length) := by
  have off : ¬ arity.accepts args.length = true := by simp [refused]
  cases Value.callable_of_callKind? hk with
  | native hop =>
      cases hs
      rw [Call.function_native _ _ _ hop]
      unfold Call.native
      rw [Call.checkArity_bind, if_neg off]
  | compound =>
      cases hs
      rw [Call.function, Call.enter, Call.checkArity_bind, if_neg off]
  | probe hp =>
      cases hs
      rw [Call.function_probe _ _ _ hp, Call.probe, Call.checkArity_bind, if_neg off]
  | stub => cases hs

theorem form_of_refused {callee : Value} {name : String} {arity : Arity} {operands : List Value}
    (evaluate : Evaluator) (limit : Nat) (scope : Scope) (hk : callee.callKind? = some .form)
    (hs : callee.signature? = some (name, arity))
    (refused : arity.accepts operands.length = false) :
    Call.form evaluate turn limit callee scope operands =
      Action.fail limit (.wrongArity name arity operands.length) := by
  have off : ¬ arity.accepts operands.length = true := by simp [refused]
  cases Value.callable_of_callKind? hk with
  | native hop =>
      cases hs
      rw [Call.form_native _ _ _ _ _ hop]
      unfold Call.nativeForm
      rw [Call.checkArity_bind, if_neg off]
  | compound =>
      cases hs
      rw [Call.form, Call.produce, Call.enter, Call.checkArity_bind, if_neg off]
      rfl
  | probe hp =>
      cases hs
      rw [Call.form_probe _ _ _ _ _ hp, Call.probe, Call.checkArity_bind, if_neg off]
  | stub => cases hs

theorem eventually_probe {p : Probe} {args : List Value}
    (accepted : p.arity.accepts args.length = true) (answer : Value) (n : Nat) :
    ∀ᶠ limit in atTop, Call.probe limit p answer args n =
      Finish.run ⟨[.called (Call.note p args)], n, p.outcome answer⟩ := by
  -- All arguments are shown as soon as the deepest one is.
  filter_upwards [eventually_within ((args.map Value.textDepth).foldr max 0)] with limit fits
  rw [Call.probe, Call.checkArity_bind, if_pos accepted, Action.forM_within, fits, Probe.outcome]
  cases p.fault with
  | some fault => rfl
  | none => rfl

/-- A level of evaluation that comes to a finish under all large limits makes evaluation do so. -/
theorem eventually_evaluate {scope : Scope} {expr : Value} {n : Nat} {finish : Finish Value}
    (h : ∀ᶠ limit in atTop,
      evaluateStep (evaluate turn limit) turn limit scope expr n = finish.run) :
    ∀ᶠ limit in atTop, evaluate turn limit scope expr n = finish.run := by
  -- A level of evaluation runs with one less than the limit.
  obtain ⟨enough, h⟩ := eventually_atTop.mp h
  refine eventually_atTop.mpr ⟨enough + 1, fun limit large => ?_⟩
  obtain ⟨below, rfl⟩ : ∃ below, limit = below + 1 := ⟨limit - 1, by omega⟩
  exact h below (by omega)

/-- A call comes to what its operator does with the operands. -/
theorem eventually_call {scope : Scope} {head tail operator : Value} {operands : List Value}
    {n m k : Nat} {events more : List Event} {outcome : Except Error Value}
    (proper : tail.toList? = some operands)
    (hh : ∀ᶠ limit in atTop,
      evaluate turn limit scope head n = Finish.run ⟨events, m, .ok operator⟩)
    (hc : ∀ᶠ limit in atTop, callOperator (evaluate turn limit) turn limit scope operands operator m =
      Finish.run ⟨more, k, outcome⟩) :
    ∀ᶠ limit in atTop, evaluate turn limit scope (.cell head tail) n =
      Finish.run ⟨events ++ more, k, outcome⟩ := by
  refine eventually_evaluate turn ?_
  filter_upwards [hh, hc] with limit first next
  rw [evaluateStep_call proper]
  exact Action.bind_run_ok first _ next

end

mutual

theorem Evaluates.eventually {t : Nat} (verbose : Bool) : ∀ {scope : Scope} {expr : Value} {n : Nat}
    {finish : Finish Value}, Evaluates t scope expr n finish →
    ∀ᶠ limit in atTop, evaluate ⟨t, verbose⟩ limit scope expr n = finish.run
  | _, _, _, _, .constant h => by
      refine eventually_evaluate _ (.of_forall fun limit => ?_)
      rw [evaluateStep_constant h]
      rfl
  | _, _, _, _, .bound h => by
      refine eventually_evaluate _ (.of_forall fun limit => ?_)
      rw [evaluateStep_bound h]
      rfl
  | _, _, _, _, .unbound h => by
      refine eventually_evaluate _ ?_
      filter_upwards [eventually_fail (.unbound _) _] with limit fails
      rw [evaluateStep_unbound h]
      exact fails
  | _, _, _, _, .quoted => eventually_evaluate _ (.of_forall fun _ => rfl)
  | _, _, _, _, .improper h => by
      refine eventually_evaluate _ ?_
      filter_upwards [eventually_fail .improperList _] with limit fails
      rw [evaluateStep_improper h]
      exact fails
  | _, _, _, _, .operatorFails proper first => by
      refine eventually_evaluate _ ?_
      filter_upwards [first.eventually verbose] with limit fails
      rw [evaluateStep_call proper]
      exact Action.bind_run_error fails _
  | _, _, _, _, .notCallable proper first hk => by
      have called := eventually_call _ proper (first.eventually verbose) (by
        filter_upwards [eventually_fail (.notCallable _) _] with limit fails
        rw [callOperator_none hk]
        exact fails)
      simpa only [List.append_nil] using called
  | _, _, _, _, .operandFails proper first hk each => by
      refine eventually_call _ proper (first.eventually verbose) ?_
      filter_upwards [each.eventually verbose] with limit fails
      rw [callOperator_function hk]
      exact Action.bind_run_error fails _
  | _, _, _, _, .function proper first hk each last => by
      refine eventually_call _ proper (first.eventually verbose) ?_
      filter_upwards [each.eventually verbose, last.eventually verbose] with limit args call
      rw [callOperator_function hk]
      exact Action.bind_run_ok args _ call
  | _, _, _, _, .form proper first hk last => by
      refine eventually_call _ proper (first.eventually verbose) ?_
      filter_upwards [last.eventually verbose] with limit call
      rw [callOperator_form hk]
      exact call

theorem EvaluatesEach.eventually {t : Nat} (verbose : Bool) : ∀ {scope : Scope}
    {exprs : List Value} {n : Nat} {finish : Finish (List Value)},
    EvaluatesEach t scope exprs n finish →
    ∀ᶠ limit in atTop, evaluateEach (evaluate ⟨t, verbose⟩ limit scope) exprs n = finish.run
  | _, _, _, _, .nil => .of_forall fun _ => rfl
  | _, _, _, _, .headFails first => by
      filter_upwards [first.eventually verbose] with limit fails
      exact Action.bind_run_error fails _
  | _, _, _, _, .tailFails first rest => by
      filter_upwards [first.eventually verbose, rest.eventually verbose] with limit value fails
      rw [evaluateEach]
      exact Action.bind_run_ok value _ (Action.bind_run_error fails _)
  | _, _, _, _, .cons first rest => by
      filter_upwards [first.eventually verbose, rest.eventually verbose] with limit value values
      rw [evaluateEach]
      refine Action.bind_run_ok value _ ?_
      exact (Action.bind_run_ok values _ rfl).trans (by rw [List.append_nil])

theorem Applies.eventually {t : Nat} (verbose : Bool) : ∀ {callee : Value} {args : List Value}
    {n : Nat} {finish : Finish Value}, Applies t callee args n finish →
    ∀ᶠ limit in atTop, Call.function (evaluate ⟨t, verbose⟩ limit) limit callee args n = finish.run
  | _, _, _, _, .wrongArity hk hs refused => by
      filter_upwards [eventually_fail (.wrongArity _ _ _) _] with limit fails
      rw [function_of_refused _ limit hk hs refused]
      exact fails
  | _, _, _, _, .cons => .of_forall fun _ => rfl
  | _, _, _, _, .car => .of_forall fun _ => rfl
  | _, _, _, _, .cdr => .of_forall fun _ => rfl
  | .native op, [value], n, _, .notCell hop hv => by
      filter_upwards [eventually_fail (.notCell op value) n] with limit fails
      rcases hop with rfl | rfl <;> cases value <;> first | exact fails | cases hv
  | _, _, _, _, .list => .of_forall fun _ => rfl
  | _, _, _, _, .closure hf body => by
      filter_upwards [body.eventually verbose] with limit entered
      rw [Call.function, Call.enter_eq, hf]
      exact entered
  | _, _, _, _, .host hp accepted => by
      filter_upwards [eventually_probe accepted _ _] with limit called
      rw [Call.function_probe _ _ _ hp]
      exact called

theorem Transforms.eventually {t : Nat} (verbose : Bool) : ∀ {callee : Value} {scope : Scope}
    {operands : List Value} {n : Nat} {finish : Finish Value},
    Transforms t callee scope operands n finish →
    ∀ᶠ limit in atTop,
      Call.form (evaluate ⟨t, verbose⟩ limit) ⟨t, verbose⟩ limit callee scope operands n = finish.run
  | _, _, _, _, _, .wrongArity hk hs refused => by
      filter_upwards [eventually_fail (.wrongArity _ _ _) _] with limit fails
      rw [form_of_refused _ _ limit _ hk hs refused]
      exact fails
  | _, _, _, _, _, .quote => .of_forall fun _ => rfl
  | .native op, scope, [_, body], n, _, @Transforms.malformed _ _ kind _ _ _ _ _ hb hd => by
      filter_upwards [eventually_build_error ⟨t, verbose⟩ hd kind scope body n] with limit fails
      cases op <;> cases hb <;> exact fails
  | .native op, scope, [_, body], n, _, @Transforms.built _ _ kind _ _ _ _ _ hb hd => by
      filter_upwards [eventually_build_ok ⟨t, verbose⟩ hd kind scope body n] with limit built
      cases op <;> cases hb <;> exact built
  | _, _, _, _, _, .productionFails hf body => by
      filter_upwards [body.eventually verbose] with limit fails
      rw [Call.form, Call.produce, Call.enter_eq, hf]
      exact Action.bind_run_error (Action.bind_run_error fails _) _
  | _, _, _, _, _, .expanded hf body rest => by
      filter_upwards [body.eventually verbose, rest.eventually verbose,
        eventually_notice ⟨t, verbose⟩ (.expanded _) _ _] with limit code value noticed
      rw [Call.form, Call.produce, Call.enter_eq, hf, bind_assoc]
      refine Action.bind_run_ok code _ ?_
      rw [bind_assoc]
      exact Action.bind_run_ok noticed _ value
  | _, _, _, _, _, .host hp accepted => by
      filter_upwards [eventually_probe accepted _ _] with limit called
      rw [Call.form_probe _ _ _ _ _ hp]
      exact called

end

/-- Evaluation under some limit ends only as the rules derive, it ends so under every limit that is
large enough, and the rules derive at most one end. -/
theorem evaluate_adequate (turn : Turn) (scope : Scope) (expr : Value) (n : Nat) :
    (∀ limit finish, evaluate turn limit scope expr n = Finish.run finish →
      Evaluates turn.number scope expr n finish) ∧
    (∀ finish, Evaluates turn.number scope expr n finish →
      ∃ enough, ∀ limit, enough ≤ limit → evaluate turn limit scope expr n = finish.run) ∧
    (∀ first second, Evaluates turn.number scope expr n first →
      Evaluates turn.number scope expr n second → first = second) := by
  refine ⟨fun limit => evaluate_sound turn limit scope expr n, fun finish derived => ?_, ?_⟩
  · exact eventually_atTop.mp (derived.eventually turn.verbose)
  · intro first second h₁ h₂
    -- Some limit is large enough for both.
    obtain ⟨limit, run₁, run₂⟩ :=
      ((h₁.eventually turn.verbose).and (h₂.eventually turn.verbose)).exists
    exact Finish.run_injective (run₁.symm.trans run₂)

end MiniLisp
