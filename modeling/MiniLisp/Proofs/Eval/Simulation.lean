import MiniLisp.Proofs.Eval.Adequacy
import MiniLisp.Proofs.Value.Linked

/-! # Evaluation from linked starts

Two evaluations run side by side; a pairing says in which turns, and how many callables each of them
has built when the other has built so many. Two actions match in a sight when, as long as the first
keeps to the events that the sight allows, they end alike and the numbers of callables they have
built are still paired. There is one rule for each way in which actions are put together. With them
a step of evaluation takes linked expressions, in scopes that agree on what the expression sees, to
linked results; so does evaluation, by induction on the limit.
-/

namespace MiniLisp

/-- How two evaluations run side by side: the turn of each, which numbers of callables they can have
built at the same time, and which births are then paired. -/
structure Pairing where
  here : Turn
  there : Turn
  verbose : here.verbose = there.verbose
  counts : Nat → Nat → Prop
  births : Birth → Birth → Prop
  next : ∀ n m, counts n m → counts (n + 1) (m + 1)
  born : ∀ n m, counts n m → births ⟨here.number, n⟩ ⟨there.number, m⟩

/-- Two runs that end alike, with numbers of callables that are paired. -/
structure Run.Matches {α β : Type} (counts : Nat → Nat → Prop) (related : α → β → Prop)
    (run : Run α) (run' : Run β) : Prop where
  built : counts run.built run'.built
  outcome : Outcome.Alike related run.outcome run'.outcome

/-- Runs of the two actions match, unless the first has an event that the sight does not allow. -/
def Action.Matches {α β : Type} (sight : Sight) (pairing : Pairing) (related : α → β → Prop)
    (action : Action α) (action' : Action β) : Prop :=
  ∀ n m, pairing.counts n m → (∀ event ∈ (action n).events, sight.allows event) →
    (action n).Matches pairing.counts related (action' m)

namespace Action

variable {α β γ δ : Type} {sight : Sight} {pairing : Pairing} {related : α → β → Prop}

theorem matches_pure {a : α} {b : β} (h : related a b) :
    (Pure.pure a : Action α).Matches sight pairing related (Pure.pure b : Action β) :=
  fun _ _ paired _ => ⟨paired, .ok h⟩

theorem matches_stop {reason reason' : Stop} (h : reason.Alike reason') :
    (stop reason : Action α).Matches sight pairing related (stop reason' : Action β) :=
  fun _ _ paired _ => ⟨paired, .error h⟩

theorem Matches.bind {first : Action α} {first' : Action β} {next : α → Action γ}
    {next' : β → Action δ} {after : γ → δ → Prop} (hf : first.Matches sight pairing related first')
    (hn : ∀ a b, related a b → (next a).Matches sight pairing after (next' b)) :
    (first >>= next).Matches sight pairing after (first' >>= next') := by
  intro n m paired allowed
  rcases h : first n with ⟨events, n', outcome⟩
  rcases h' : first' m with ⟨events', m', outcome'⟩
  have ends := hf n m paired
  rw [h, h'] at ends
  cases outcome with
  | error reason =>
      rw [bind_of_error h] at allowed ⊢
      obtain ⟨still, alike⟩ := ends allowed
      cases alike with
      | error stops =>
          rw [bind_of_error h']
          exact ⟨still, .error stops⟩
  | ok a =>
      rw [bind_of_ok h] at allowed ⊢
      obtain ⟨still, alike⟩ := ends fun event member =>
        allowed event (List.mem_append.mpr (.inl member))
      -- Both sides go on with paired counts, so callables built later have paired births.
      cases alike with
      | ok results =>
          rw [bind_of_ok h']
          obtain ⟨last, alike⟩ := hn _ _ results n' m' still fun event member =>
            allowed event (List.mem_append.mpr (.inr member))
          exact ⟨last, alike⟩

theorem matches_ofExcept {result : Except Stop α} {result' : Except Stop β}
    (h : Outcome.Alike related result result') :
    (ofExcept result).Matches sight pairing related (ofExcept result') := by
  cases h with
  | ok results => exact matches_pure results
  | error stops => exact matches_stop stops

theorem matches_fail {error error' : Error} (limit : Nat) (kind : error.kind = error'.kind)
    (message : error.message = error'.message) (depth : error.messageDepth = error'.messageDepth) :
    (fail limit error : Action α).Matches sight pairing related (fail limit error' : Action β) :=
  matches_stop (Stop.ofError_alike limit kind message depth)

theorem matches_emit (event event' : Event) :
    (emit event).Matches sight pairing (fun _ _ => sight.allows event) (emit event') :=
  fun _ _ paired allowed => ⟨paired, .ok (allowed event (List.mem_singleton_self event))⟩

theorem matches_nextSerial :
    nextSerial.Matches sight pairing pairing.counts nextSerial :=
  fun n m paired _ => ⟨pairing.next n m paired, .ok paired⟩

theorem matches_within (limit depth : Nat) :
    (within limit depth).Matches sight pairing (fun _ _ => True) (within limit depth) := by
  unfold within
  split
  · exact matches_pure trivial
  · exact matches_stop (.same _)

end Action

open MiniLisp.Action

section

variable {sight : Sight} {pairing : Pairing} {limit : Nat}

/-- Linked, with callables that the two sides have built at the same time. -/
abbrev Sight.Links (sight : Sight) (pairing : Pairing) : Value → Value → Prop :=
  Value.Linked sight pairing.births

/-! ## Calls -/

theorem matches_notice {event event' : Event} {value value' : Value}
    (depth : value.inspectDepth = value'.inspectDepth) :
    (pairing.here.notice limit event value).Matches sight pairing (fun _ _ => sight.allows event)
      (pairing.there.notice limit event' value') := by
  unfold Turn.notice
  rw [depth, pairing.verbose]
  split
  · exact (matches_within limit _).bind fun _ _ _ => matches_emit event event'
  · exact matches_emit event event'

/-- Callables built from linked formals and bodies are linked, if the scopes agree on what the body
sees. -/
theorem matches_build (kind : CallKind) {scope scope' : Scope}
    {formals formals' body body' : Value} (hf : sight.Links pairing formals formals')
    (hb : sight.Links pairing body body')
    (hs : scope.Agree (sight.Links pairing) (sight.sees body) scope') :
    (pairing.here.build limit kind scope formals body).Matches sight pairing (sight.Links pairing)
      (pairing.there.build limit kind scope' formals' body') := by
  unfold Turn.build
  refine (matches_ofExcept (Params.alike_ofValue limit hf)).bind fun params _ same => ?_
  subst same
  refine matches_nextSerial.bind fun serial serial' paired => ?_
  refine (matches_notice rfl).bind fun _ _ _ => matches_pure ?_
  exact Value.linked_compound (pairing.born _ _ paired) hb hs

theorem matches_checkArity (callee : String) (arity : Arity) {args args' : List Value}
    (lengths : args.length = args'.length) :
    (Call.checkArity limit callee arity args).Matches sight pairing
      (fun _ _ => arity.accepts args.length = true) (Call.checkArity limit callee arity args') := by
  unfold Call.checkArity
  rw [← lengths]
  split
  · rename_i accepted
    exact matches_pure accepted
  · exact matches_fail limit rfl rfl rfl

theorem matches_notCell (op : Native) {value value' : Value}
    (h : sight.Links pairing value value') :
    (fail limit (.notCell op value) : Action Value).Matches sight pairing (sight.Links pairing)
      (fail limit (.notCell op value') : Action Value) :=
  matches_fail limit rfl (congrArg (op.name ++ " expects a cell, got " ++ ·) h.paired.text_eq)
    h.paired.textDepth_eq

theorem matches_native {op : Native} {args args' : List Value} (hk : op.kind = .function)
    (ha : List.Forall₂ (sight.Links pairing) args args') :
    (Call.native limit op args).Matches sight pairing (sight.Links pairing)
      (Call.native limit op args') := by
  unfold Call.native
  refine (matches_checkArity _ _ ha.length_eq).bind fun _ _ accepted => ?_
  cases op with
  | cons =>
      obtain ⟨left, right, rfl⟩ := Arity.two_of_accepts accepted
      obtain ⟨left', right', rfl, hl, hr⟩ := Value.Linked.of_two ha
      exact matches_pure (Value.Linked.cell hl hr)
  | car | cdr =>
      obtain ⟨value, rfl⟩ := Arity.one_of_accepts accepted
      obtain ⟨value', rfl, hv⟩ := Value.Linked.of_one ha
      have cells := hv.isCell_eq
      cases value with
      | cell left right =>
          obtain ⟨left', right', rfl, hl, hr⟩ := hv.of_cell
          first | exact matches_pure hl | exact matches_pure hr
      -- What is linked to an atom is one.
      | _ => cases value' <;> first | exact matches_notCell _ hv | cases cells
  | list => exact matches_pure (Value.linked_ofList ha)
  | quote | lambda | expander => cases hk

theorem matches_nativeForm {op : Native} {scope scope' : Scope} {operands operands' : List Value}
    (hk : op.kind = .form) (ho : List.Forall₂ (sight.Links pairing) operands operands')
    (hs : ∀ operand ∈ operands, scope.Agree (sight.Links pairing) (sight.sees operand) scope') :
    (Call.nativeForm pairing.here limit op scope operands).Matches sight pairing
      (sight.Links pairing) (Call.nativeForm pairing.there limit op scope' operands') := by
  unfold Call.nativeForm
  refine (matches_checkArity _ _ ho.length_eq).bind fun _ _ accepted => ?_
  cases op with
  | quote =>
      obtain ⟨form, rfl⟩ := Arity.one_of_accepts accepted
      obtain ⟨form', rfl, link⟩ := Value.Linked.of_one ho
      exact matches_pure link
  | lambda | expander =>
      obtain ⟨formals, body, rfl⟩ := Arity.two_of_accepts accepted
      obtain ⟨formals', body', rfl, hf, hb⟩ := Value.Linked.of_two ho
      exact matches_build _ hf hb (hs body (by simp))
  | cons | car | cdr | list => cases hk

theorem matches_probe (p : Probe) {answer : Value} {args args' : List Value}
    (ha : List.Forall₂ (sight.Links pairing) args args') (known : sight.known answer) :
    (Call.probe limit p answer args).Matches sight pairing (sight.Links pairing)
      (Call.probe limit p answer args') := by
  have depths : args.map Value.textDepth = args'.map Value.textDepth := by
    induction ha with
    | nil => rfl
    | cons first _ ih => rw [List.map_cons, List.map_cons, first.paired.textDepth_eq, ih]
  unfold Call.probe
  rw [forM_within, forM_within, depths]
  refine (matches_checkArity _ _ ha.length_eq).bind fun _ _ _ => ?_
  refine (matches_within limit _).bind fun _ _ _ => (matches_emit _ _).bind fun _ _ _ => ?_
  cases p.fault with
  | some fault => exact matches_fail limit rfl rfl rfl
  | none => exact matches_pure (Value.Linked.same known)

/-- The evaluators take linked expressions, in scopes that agree on what the expression sees, to
linked results. -/
def Evaluator.Respects (sight : Sight) (pairing : Pairing) (here there : Evaluator) : Prop :=
  ∀ scope scope' expr expr', sight.Links pairing expr expr' →
    scope.Agree (sight.Links pairing) (sight.sees expr) scope' →
    (here scope expr).Matches sight pairing (sight.Links pairing) (there scope' expr')

variable {here there : Evaluator}

theorem matches_enter (he : here.Respects sight pairing there) (kind : CallKind)
    {scope scope' : Scope} (params : Params) {body body' : Value} {args args' : List Value}
    (hb : sight.Links pairing body body')
    (hs : scope.Agree (sight.Links pairing) (sight.sees body) scope')
    (ha : List.Forall₂ (sight.Links pairing) args args') :
    (Call.enter here limit kind scope params body args).Matches sight pairing
      (sight.Links pairing) (Call.enter there limit kind scope' params body' args') := by
  have frames := params.agree_bind? ha
  rw [Call.enter_eq, Call.enter_eq, ← ha.length_eq]
  generalize params.bind? args = frame at frames ⊢
  generalize params.bind? args' = frame' at frames ⊢
  cases frames with
  | some frames => exact he _ _ _ _ hb (Scope.Agree.cons frames hs)
  | none => exact matches_fail limit rfl rfl rfl

/-- Code is produced only when the sight allows that it is expanded. -/
theorem matches_produce (he : here.Respects sight pairing there) {scope scope' : Scope}
    (params : Params) {body body' : Value} {operands operands' : List Value}
    (hb : sight.Links pairing body body')
    (hs : scope.Agree (sight.Links pairing) (sight.sees body) scope')
    (ho : List.Forall₂ (sight.Links pairing) operands operands') :
    (Call.produce here pairing.here limit scope params body operands).Matches sight pairing
      (fun code code' => sight.Links pairing code code' ∧ sight.allows (.expanded code))
      (Call.produce there pairing.there limit scope' params body' operands') :=
  (matches_enter he .form params hb hs ho).bind fun _ _ link =>
    (matches_notice link.paired.inspectDepth_eq).bind fun _ _ allowed =>
      matches_pure ⟨link, allowed⟩

theorem matches_function (he : here.Respects sight pairing there) {callee callee' : Value}
    {args args' : List Value} (hk : callee.callKind? = some .function)
    (hc : sight.Links pairing callee callee')
    (ha : List.Forall₂ (sight.Links pairing) args args') :
    (Call.function here limit callee args).Matches sight pairing (sight.Links pairing)
      (Call.function there limit callee' args') := by
  cases Value.callable_of_callKind? hk with
  | native hop =>
      cases hc
      rw [Call.function_native _ _ _ hop, Call.function_native _ _ _ hop]
      exact matches_native hop ha
  | compound =>
      obtain ⟨birth', scope', body', rfl, hb, hs⟩ := hc.of_compound
      exact matches_enter he .function _ hb hs ha
  | probe hp =>
      cases hc with
      | same known =>
          rw [Call.function_probe _ _ _ hp, Call.function_probe _ _ _ hp]
          exact matches_probe _ ha (sight.hereditary.answer _ _ _ known)
  | stub =>
      cases hc
      exact matches_stop (.same _)

/-- A form is called from scopes that agree on what the whole call sees. What its operands see is
part of that, and so is what the code sees that it produces, if code may be expanded. -/
theorem matches_form (he : here.Respects sight pairing there) {callee callee' : Value}
    {scope scope' : Scope} {operands operands' : List Value} (expr : Value)
    (hk : callee.callKind? = some .form) (hc : sight.Links pairing callee callee')
    (hs : scope.Agree (sight.Links pairing) (sight.sees expr) scope')
    (hw : ∀ operand ∈ operands, ∀ name, sight.sees operand name → sight.sees expr name)
    (ho : List.Forall₂ (sight.Links pairing) operands operands') :
    (Call.form here pairing.here limit callee scope operands).Matches sight pairing
      (sight.Links pairing) (Call.form there pairing.there limit callee' scope' operands') := by
  cases Value.callable_of_callKind? hk with
  | native hop =>
      cases hc
      rw [Call.form_native _ _ _ _ _ hop, Call.form_native _ _ _ _ _ hop]
      exact matches_nativeForm hop ho fun operand member => hs.weaken (hw operand member)
  | @compound birth home params body =>
      obtain ⟨birth', home', body', rfl, hb, hh⟩ := hc.of_compound
      -- Code that is expanded sees no more than the call.
      refine (matches_produce he params hb hh ho).bind fun code code' ⟨link, allowed⟩ =>
        he _ _ _ _ link ?_
      exact hs.weaken fun name => sight.sees_code code expr name allowed
  | probe hp =>
      cases hc with
      | same known =>
          rw [Call.form_probe _ _ _ _ _ hp, Call.form_probe _ _ _ _ _ hp]
          exact matches_probe _ ho (sight.hereditary.answer _ _ _ known)
  | stub =>
      cases hc
      exact matches_stop (.same _)

/-! ## Evaluation -/

theorem Value.Linked.isConstant_eq {births : Birth → Birth → Prop} {v v' : Value}
    (h : v.Linked sight births v') : v.isConstant = v'.isConstant := by
  cases h <;> rfl

theorem matches_evaluateEach {one other : Value → Action Value} {exprs exprs' : List Value}
    (links : List.Forall₂ (sight.Links pairing) exprs exprs')
    (h : ∀ expr ∈ exprs, ∀ expr', sight.Links pairing expr expr' →
      (one expr).Matches sight pairing (sight.Links pairing) (other expr')) :
    (evaluateEach one exprs).Matches sight pairing (List.Forall₂ (sight.Links pairing))
      (evaluateEach other exprs') := by
  induction links with
  | nil => exact matches_pure .nil
  | cons first _ ih =>
      refine (h _ (by simp) _ first).bind fun value value' hv => ?_
      refine (ih fun expr member => h expr (by simp [member])).bind fun values values' hvs => ?_
      exact matches_pure (.cons hv hvs)

theorem matches_callOperator (he : here.Respects sight pairing there) {scope scope' : Scope}
    {operands operands' : List Value} {operator operator' : Value} (expr : Value)
    (hs : scope.Agree (sight.Links pairing) (sight.sees expr) scope')
    (hw : ∀ operand ∈ operands, ∀ name, sight.sees operand name → sight.sees expr name)
    (ho : List.Forall₂ (sight.Links pairing) operands operands')
    (hop : sight.Links pairing operator operator') :
    (callOperator here pairing.here limit scope operands operator).Matches sight pairing
      (sight.Links pairing)
      (callOperator there pairing.there limit scope' operands' operator') := by
  have kinds := hop.paired.callKind?_eq
  cases hk : operator.callKind? with
  | none =>
      rw [callOperator_none hk, callOperator_none (kinds ▸ hk)]
      exact matches_fail limit rfl (congrArg ("not callable: " ++ ·) hop.paired.text_eq)
        hop.paired.textDepth_eq
  | some kind =>
      cases kind with
      | function =>
          rw [callOperator_function hk, callOperator_function (kinds ▸ hk)]
          have args := matches_evaluateEach ho fun operand member operand' link =>
            he scope scope' operand operand' link (hs.weaken (hw operand member))
          exact args.bind fun _ _ links => matches_function he hk hop links
      | form =>
          rw [callOperator_form hk, callOperator_form (kinds ▸ hk)]
          exact matches_form he expr hk hop hs hw ho

theorem respects_evaluateStep (he : here.Respects sight pairing there) :
    (evaluateStep here pairing.here limit).Respects sight pairing
      (evaluateStep there pairing.there limit) := by
  intro scope scope' expr expr' link hs
  cases expr with
  | symbol name =>
      cases link with
      | same known =>
          have found := hs name (sight.sees_symbol name known)
          cases hn : scope.get? name with
          | none =>
              rw [hn] at found
              rw [evaluateStep_unbound hn, evaluateStep_unbound (eq_none_of_rel found)]
              exact matches_fail limit rfl rfl rfl
          | some value =>
              rw [hn] at found
              obtain ⟨value', hn', link⟩ := eq_some_of_rel found
              rw [evaluateStep_bound hn, evaluateStep_bound hn']
              exact matches_pure link
  | quoted inner =>
      obtain ⟨inner', rfl, hi⟩ := link.of_quoted
      exact matches_pure hi
  | cell head tail =>
      obtain ⟨head', tail', rfl, hh, ht⟩ := link.of_cell
      have lists := ht.toList?
      cases hl : tail.toList? with
      | none =>
          rw [hl] at lists
          rw [evaluateStep_improper hl, evaluateStep_improper (eq_none_of_rel lists)]
          exact matches_fail limit rfl rfl rfl
      | some operands =>
          rw [hl] at lists
          obtain ⟨operands', hl', ho⟩ := eq_some_of_rel lists
          have first := he scope scope' head head' hh (hs.weaken (sight.sees_left head tail))
          have within : ∀ operand ∈ operands, ∀ name, sight.sees operand name →
              sight.sees (.cell head tail) name := fun operand member name seen =>
            sight.sees_right head tail name (Value.sees_of_mem_toList? hl member seen)
          rw [evaluateStep_call hl, evaluateStep_call hl']
          exact first.bind fun _ _ operator =>
            matches_callOperator he (.cell head tail) hs within ho operator
  | _ =>
      have constant : expr'.isConstant = true := link.isConstant_eq.symm
      rw [evaluateStep_constant rfl, evaluateStep_constant constant]
      exact matches_pure link

/-- Evaluation takes linked expressions to linked results, at any level of nesting. -/
theorem respects_evaluate (sight : Sight) (pairing : Pairing) (limit : Nat) :
    (evaluate pairing.here limit).Respects sight pairing (evaluate pairing.there limit) := by
  induction limit with
  | zero => exact fun _ _ _ _ _ _ => matches_stop (.same _)
  | succ limit ih => exact respects_evaluateStep ih

end

end MiniLisp
