import Mathlib.Data.List.Basic
import MiniLisp.Eval.Evaluate
import MiniLisp.Proofs.Value.Hereditary

/-! # What evaluation preserves

`Action.Meets` bounds how the runs of an action can end, with one rule for each way in which actions
are put together. With it every hereditary predicate is carried through calls and evaluation: from
the values of the scope and the expression to the result. No call lacks a rule unless a stub is
called.
-/

namespace MiniLisp

namespace Action

variable {α β : Type} {mid post : α → Prop} {halt : Stop → Prop}

/-- Every run of the action ends with a result in `post` or stops for a reason in `halt`. -/
def Meets (action : Action α) (post : α → Prop) (halt : Stop → Prop) : Prop :=
  ∀ built, match (action built).outcome with
    | .ok a => post a
    | .error reason => halt reason

theorem meets_pure {a : α} (h : post a) : (Pure.pure a : Action α).Meets post halt :=
  fun _ => h

theorem meets_stop {reason : Stop} (h : halt reason) : (stop reason : Action α).Meets post halt :=
  fun _ => h

theorem Meets.bind {first : Action α} {next : α → Action β} {post : β → Prop}
    (hf : first.Meets mid halt) (hn : ∀ a, mid a → (next a).Meets post halt) :
    (first >>= next).Meets post halt := by
  intro built
  have hb := hf built
  rcases h : first built with ⟨events, after, outcome⟩
  rw [h] at hb
  cases outcome with
  | error reason =>
      rw [bind_of_error h]
      exact hb
  | ok a =>
      rw [bind_of_ok h]
      exact hn a hb after

theorem meets_ofExcept {result : Except Stop α} (ok : ∀ a, result = .ok a → post a)
    (error : ∀ reason, result = .error reason → halt reason) :
    (ofExcept result).Meets post halt := by
  cases result with
  | ok a => exact meets_pure (ok a rfl)
  | error reason => exact meets_stop (error reason rfl)

theorem meets_emit (event : Event) : (emit event).Meets (fun _ => True) halt :=
  fun _ => trivial

theorem meets_nextSerial : nextSerial.Meets (fun _ => True) halt :=
  fun _ => trivial

theorem meets_within {limit depth : Nat} (h : halt .overflow) :
    (within limit depth).Meets (fun _ => True) halt := by
  unfold within
  split
  · exact meets_pure trivial
  · exact meets_stop h

theorem meets_forM {xs : List α} {f : α → Action Unit}
    (h : ∀ x ∈ xs, (f x).Meets (fun _ => True) halt) : (xs.forM f).Meets (fun _ => True) halt := by
  induction xs with
  | nil => exact meets_pure trivial
  | cons x xs ih =>
      have hx := h x (by simp)
      exact hx.bind fun _ _ => ih fun y hy => h y (by simp [hy])

end Action

section

variable {good : Value → Prop}

theorem Action.meets_fail {α : Type} {post : α → Prop} (limit : Nat) (error : Error) :
    (Action.fail limit error : Action α).Meets post (Stop.Grounded good) :=
  meets_stop (Stop.grounded_ofError limit error)

/-! ## Calls -/

open MiniLisp.Action

variable {turn : Turn} {limit : Nat}

theorem meets_notice (event : Event) (value : Value) :
    (turn.notice limit event value).Meets (fun _ => True) (Stop.Grounded good) := by
  unfold Turn.notice
  split
  · exact (meets_within trivial).bind fun _ _ => meets_emit event
  · exact meets_emit event

theorem meets_checkArity (callee : String) (arity : Arity) (args : List Value) :
    (Call.checkArity limit callee arity args).Meets
      (fun _ => arity.accepts args.length = true) (Stop.Grounded good) := by
  unfold Call.checkArity
  split
  · rename_i accepted
    exact meets_pure accepted
  · exact meets_fail limit _

theorem Params.grounded_ofValue {formals : Value} {reason : Stop}
    (h : Params.ofValue limit formals = .error reason) : reason.Grounded good := by
  unfold Params.ofValue at h
  split at h
  · cases h; trivial
  · cases h; trivial
  · split at h
    · cases h
      exact Stop.grounded_ofError limit _
    · rename_i names _
      cases hw : Params.ofWritten names <;> rw [hw] at h <;> cases h
      trivial

theorem meets_build (hg : Hereditary good) (kind : CallKind) {scope : Scope} {formals body : Value}
    (hs : scope.All good) (hf : good formals) (hb : good body) :
    (turn.build limit kind scope formals body).Meets good (Stop.Grounded good) := by
  unfold Turn.build
  have hparams : (ofExcept (Params.ofValue limit formals)).Meets
      (fun params => Params.ofValue limit formals = .ok params) (Stop.Grounded good) :=
    meets_ofExcept (fun _ h => h) fun _ => Params.grounded_ofValue
  refine hparams.bind fun params hp => ?_
  refine meets_nextSerial.bind fun serial _ => ?_
  refine (meets_notice _ _).bind fun _ _ => meets_pure ?_
  exact hg.build limit kind _ scope formals params body hp hf hs hb

theorem Arity.one_of_accepts {args : List Value}
    (h : Arity.accepts ⟨1, false⟩ args.length = true) : ∃ a, args = [a] := by
  have hl := (Arity.accepts_fixed _ _).mp h
  exact List.length_eq_one_iff.mp (by omega)

theorem Arity.two_of_accepts {args : List Value}
    (h : Arity.accepts ⟨2, false⟩ args.length = true) : ∃ a b, args = [a, b] := by
  have hl := (Arity.accepts_fixed _ _).mp h
  exact List.length_eq_two.mp (by omega)

/-- What a builtin takes apart is what its arity has let through. -/
theorem meets_native (hg : Hereditary good) {op : Native} {args : List Value}
    (hk : op.kind = .function) (ha : ∀ arg ∈ args, good arg) :
    (Call.native limit op args).Meets good (Stop.Grounded good) := by
  unfold Call.native
  refine (meets_checkArity _ _ _).bind fun _ accepted => ?_
  cases op with
  | cons =>
      obtain ⟨left, right, rfl⟩ := Arity.two_of_accepts accepted
      exact meets_pure ((hg.cell left right).mpr ⟨ha left (by simp), ha right (by simp)⟩)
  | car =>
      obtain ⟨value, rfl⟩ := Arity.one_of_accepts accepted
      have hv := ha value (by simp)
      cases value with
      | cell left right => exact meets_pure ((hg.cell left right).mp hv).1
      | _ => exact meets_fail limit _
  | cdr =>
      obtain ⟨value, rfl⟩ := Arity.one_of_accepts accepted
      have hv := ha value (by simp)
      cases value with
      | cell left right => exact meets_pure ((hg.cell left right).mp hv).2
      | _ => exact meets_fail limit _
  | list => exact meets_pure ((hg.ofList args).mpr ha)
  | quote => cases hk
  | lambda => cases hk
  | expander => cases hk

theorem meets_nativeForm (hg : Hereditary good) {op : Native} {scope : Scope}
    {operands : List Value} (hk : op.kind = .form) (hs : scope.All good)
    (ha : ∀ operand ∈ operands, good operand) :
    (Call.nativeForm turn limit op scope operands).Meets good (Stop.Grounded good) := by
  unfold Call.nativeForm
  refine (meets_checkArity _ _ _).bind fun _ accepted => ?_
  cases op with
  | quote =>
      obtain ⟨form, rfl⟩ := Arity.one_of_accepts accepted
      exact meets_pure (ha form (by simp))
  | lambda =>
      obtain ⟨formals, body, rfl⟩ := Arity.two_of_accepts accepted
      exact meets_build hg .function hs (ha formals (by simp)) (ha body (by simp))
  | expander =>
      obtain ⟨formals, body, rfl⟩ := Arity.two_of_accepts accepted
      exact meets_build hg .form hs (ha formals (by simp)) (ha body (by simp))
  | cons => cases hk
  | car => cases hk
  | cdr => cases hk
  | list => cases hk

theorem meets_probe (p : Probe) {answer : Value} (args : List Value) (h : good answer) :
    (Call.probe limit p answer args).Meets good (Stop.Grounded good) := by
  unfold Call.probe
  refine (meets_checkArity _ _ _).bind fun _ _ => ?_
  have shown : (args.forM fun arg => within limit arg.textDepth).Meets (fun _ => True)
      (Stop.Grounded good) :=
    meets_forM fun _ _ => meets_within trivial
  refine shown.bind fun _ _ => (meets_emit _).bind fun _ _ => ?_
  split
  · exact meets_fail limit _
  · exact meets_pure h

/-- An evaluator that keeps to hereditary values. -/
def Evaluator.Keeps (good : Value → Prop) (evaluate : Evaluator) : Prop :=
  ∀ scope expr, Scope.All good scope → good expr →
    (evaluate scope expr).Meets good (Stop.Grounded good)

variable {evaluate : Evaluator}

theorem meets_enter (hg : Hereditary good) (he : evaluate.Keeps good) (kind : CallKind)
    {scope : Scope} (params : Params) {body : Value} {args : List Value} (hs : scope.All good)
    (hb : good body) (ha : ∀ arg ∈ args, good arg) :
    (Call.enter evaluate limit kind scope params body args).Meets good (Stop.Grounded good) := by
  rw [Call.enter_eq]
  cases hf : params.bind? args with
  | some frame => exact he _ _ (Scope.All.cons (hg.bind? ha hf) hs) hb
  | none => exact meets_fail limit _

theorem meets_function (hg : Hereditary good) (he : evaluate.Keeps good) {callee : Value}
    {args : List Value} (hk : callee.callKind? = some .function) (hc : good callee)
    (ha : ∀ arg ∈ args, good arg) :
    (Call.function evaluate limit callee args).Meets good (Stop.Grounded good) := by
  cases Value.callable_of_callKind? hk with
  | native hop =>
      rw [Call.function_native _ _ _ hop]
      exact meets_native hg hop ha
  | compound =>
      obtain ⟨hs, hb⟩ := hg.parts _ _ _ _ _ hc
      exact meets_enter hg he .function _ hs hb ha
  | probe hp =>
      rw [Call.function_probe _ _ _ hp]
      exact meets_probe _ args (hg.answer _ _ _ hc)
  | stub => exact meets_stop ⟨_, _, hc⟩

theorem meets_form (hg : Hereditary good) (he : evaluate.Keeps good) {callee : Value}
    {scope : Scope} {operands : List Value} (hk : callee.callKind? = some .form) (hc : good callee)
    (hs : scope.All good) (ha : ∀ operand ∈ operands, good operand) :
    (Call.form evaluate turn limit callee scope operands).Meets good (Stop.Grounded good) := by
  cases Value.callable_of_callKind? hk with
  | native hop =>
      rw [Call.form_native _ _ _ _ _ hop]
      exact meets_nativeForm hg hop hs ha
  | @compound birth home params body =>
      obtain ⟨hh, hb⟩ := hg.parts _ _ _ _ _ hc
      -- The body runs where the form was built, the code that it produces where the call stands.
      have produced : (Call.produce evaluate turn limit home params body operands).Meets good
          (Stop.Grounded good) :=
        (meets_enter hg he .form params hh hb ha).bind fun code hcode =>
          (meets_notice _ _).bind fun _ _ => meets_pure hcode
      exact produced.bind fun code hcode => he scope code hs hcode
  | probe hp =>
      rw [Call.form_probe _ _ _ _ _ hp]
      exact meets_probe _ operands (hg.answer _ _ _ hc)
  | stub => exact meets_stop ⟨_, _, hc⟩

/-! ## Evaluation -/

theorem meets_evaluateEach {eval : Value → Action Value} {exprs : List Value}
    (h : ∀ expr ∈ exprs, (eval expr).Meets good (Stop.Grounded good)) :
    (evaluateEach eval exprs).Meets (fun values => ∀ v ∈ values, good v) (Stop.Grounded good) := by
  induction exprs with
  | nil => exact meets_pure (by simp)
  | cons expr exprs ih =>
      refine (h expr (by simp)).bind fun value hv => ?_
      refine (ih fun other member => h other (by simp [member])).bind fun values hvs => ?_
      exact meets_pure (List.forall_mem_cons.mpr ⟨hv, hvs⟩)

theorem meets_callOperator (hg : Hereditary good) (he : evaluate.Keeps good) {scope : Scope}
    {operands : List Value} {operator : Value} (hs : scope.All good)
    (ha : ∀ operand ∈ operands, good operand) (ho : good operator) :
    (callOperator evaluate turn limit scope operands operator).Meets good (Stop.Grounded good) := by
  cases hk : operator.callKind? with
  | none =>
      rw [callOperator_none hk]
      exact meets_fail limit _
  | some kind =>
      cases kind with
      | function =>
          have hargs := meets_evaluateEach fun operand member =>
            he scope operand hs (ha operand member)
          rw [callOperator_function hk]
          exact hargs.bind fun args hv => meets_function hg he hk ho hv
      | form =>
          rw [callOperator_form hk]
          exact meets_form hg he hk ho hs ha

theorem keeps_evaluateStep (hg : Hereditary good) (he : evaluate.Keeps good) :
    (evaluateStep evaluate turn limit).Keeps good := by
  intro scope expr hs hx
  cases expr with
  | symbol name =>
      cases hn : scope.get? name with
      | some value =>
          rw [evaluateStep_bound hn]
          exact meets_pure (hs.get? hn)
      | none =>
          rw [evaluateStep_unbound hn]
          exact meets_fail limit _
  | quoted inner => exact meets_pure ((hg.quoted inner).mp hx)
  | cell head tail =>
      obtain ⟨hh, ht⟩ := (hg.cell head tail).mp hx
      cases hl : tail.toList? with
      | none =>
          rw [evaluateStep_improper hl]
          exact meets_fail limit _
      | some operands =>
          have ha := hg.toList? ht hl
          rw [evaluateStep_call hl]
          exact (he scope head hs hh).bind fun operator ho => meets_callOperator hg he hs ha ho
  | _ => exact meets_pure hx

/-- Evaluation keeps to hereditary values, at any level of nesting. -/
theorem keeps_evaluate (hg : Hereditary good) (turn : Turn) (limit : Nat) :
    (MiniLisp.evaluate turn limit).Keeps good := by
  induction limit with
  | zero => exact fun _ _ _ _ => meets_stop trivial
  | succ limit ih => exact keeps_evaluateStep hg ih

end

end MiniLisp
