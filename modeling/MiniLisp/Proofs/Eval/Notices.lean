import MiniLisp.Proofs.Eval.Order

/-! # Notices that are written out

A verbose evaluation writes out the code that forms produce, within the nesting limit. The text of a
chain nests with its length, so a notice can overflow where evaluation does not. Compared to the
evaluation that keeps its notices short, a verbose one is the same run, in which every notice fits
the limit, or the start of it: it overflows in front of the first notice that does not fit. That
passes through sequences, hence to calls and from one level of evaluation to the next.
-/

namespace MiniLisp

section

variable {α β : Type} {limit : Nat}

namespace Run

/-- All code that forms produce during the run can be written out within the limit. -/
def Fits (limit : Nat) (run : Run α) : Prop :=
  ∀ code, .expanded code ∈ run.events → code.inspectDepth ≤ limit

/-- `short` overflows where `long` gives notice of produced code. -/
structure CutShort (short long : Run α) : Prop where
  overflow : short.outcome = .error .overflow
  notice : ∃ code later, long.events = short.events ++ .expanded code :: later

/-- `loud` is `quiet` with the notices written out: the whole of it, where they fit, or the start. -/
def Voices (limit : Nat) (loud quiet : Run α) : Prop :=
  (loud = quiet ∧ quiet.Fits limit) ∨ loud.CutShort quiet

theorem Voices.mono {more : Nat} {loud quiet : Run α} (h : loud.Voices limit quiet)
    (le : limit ≤ more) : loud.Voices more quiet :=
  h.imp_left fun ⟨same, fits⟩ => ⟨same, fun code member => (fits code member).trans le⟩

/-- Produced code that nests too deep to be written out cuts the verbose run short. -/
theorem Voices.cutShort {loud quiet : Run α} (h : loud.Voices limit quiet) {code : Value}
    (member : .expanded code ∈ quiet.events) (deep : limit < code.inspectDepth) :
    loud.CutShort quiet := by
  rcases h with ⟨_, fits⟩ | cut
  · exact absurd (fits code member) (by omega)
  · exact cut

end Run

namespace Action

/-- Every run is that of the other action with the notices written out. -/
def Voices (limit : Nat) (loud quiet : Action α) : Prop :=
  ∀ n, (loud n).Voices limit (quiet n)

theorem Voices.mono {more : Nat} {loud quiet : Action α} (h : loud.Voices limit quiet)
    (le : limit ≤ more) : loud.Voices more quiet :=
  fun n => (h n).mono le

theorem bind_events (first : Action α) (next : α → Action β) (n : Nat) :
    ∃ later, ((first >>= next) n).events = (first n).events ++ later := by
  cases h : (first n).outcome with
  | error reason => exact ⟨[], by rw [bind_eq_of_error h, List.append_nil]⟩
  | ok a => exact ⟨_, by rw [bind_eq_of_ok h]⟩

theorem Voices.bind {first first' : Action α} {next next' : α → Action β}
    (hf : first.Voices limit first') (hn : ∀ a, (next a).Voices limit (next' a)) :
    (first >>= next).Voices limit (first' >>= next') := by
  intro n
  rcases hf n with ⟨same, fits⟩ | ⟨overflow, code, later, events⟩
  · cases h : (first' n).outcome with
    | error reason =>
        have h' : (first n).outcome = .error reason := by rw [same, h]
        rw [bind_eq_of_error h, bind_eq_of_error h', same]
        exact .inl ⟨rfl, fits⟩
    | ok a =>
        have h' : (first n).outcome = .ok a := by rw [same, h]
        rw [bind_eq_of_ok h, bind_eq_of_ok h', same]
        rcases hn a (first' n).built with ⟨rest, fits'⟩ | ⟨overflow, code, later, events⟩
        · rw [rest]
          refine .inl ⟨rfl, fun code member => ?_⟩
          exact (List.mem_append.mp member).elim (fits code) (fits' code)
        · refine .inr ⟨overflow, code, later, ?_⟩
          rw [events, List.append_assoc]
  · rw [bind_eq_of_error overflow]
    obtain ⟨after, whole⟩ := bind_events first' next' n
    refine .inr ⟨rfl, code, later ++ after, ?_⟩
    rw [whole, events, List.append_assoc, List.cons_append]

theorem voices_pure (a : α) : (Pure.pure a : Action α).Voices limit (Pure.pure a) :=
  fun _ => .inl ⟨rfl, fun _ member => nomatch member⟩

theorem voices_stop (reason : Stop) : (stop reason : Action α).Voices limit (stop reason) :=
  fun _ => .inl ⟨rfl, fun _ member => nomatch member⟩

theorem voices_fail (room : Nat) (error : Error) :
    (fail room error : Action α).Voices limit (fail room error) :=
  voices_stop _

theorem voices_ofExcept (result : Except Stop α) :
    (ofExcept result).Voices limit (ofExcept result) := by
  cases result with
  | ok a => exact voices_pure a
  | error reason => exact voices_stop reason

theorem voices_nextSerial : nextSerial.Voices limit nextSerial :=
  fun _ => .inl ⟨rfl, fun _ member => nomatch member⟩

theorem voices_emit {event : Event}
    (fits : ∀ code, event = .expanded code → code.inspectDepth ≤ limit) :
    (emit event).Voices limit (emit event) :=
  fun _ => .inl ⟨rfl, fun code member => fits code (List.mem_singleton.mp member).symm⟩

theorem voices_within (room depth : Nat) : (within room depth).Voices limit (within room depth) := by
  unfold within
  split
  · exact voices_pure ()
  · exact voices_stop _

end Action

end

open MiniLisp.Action

section

variable {limit : Nat} (number : Nat)

/-! ## Calls -/

/-- Produced code is noticed in both turns where it fits. Where it does not, the verbose turn
overflows. -/
theorem voices_notice (code : Value) :
    (Turn.notice ⟨number, true⟩ limit (.expanded code) code).Voices limit
      (Turn.notice ⟨number, false⟩ limit (.expanded code) code) := by
  have brief : Turn.notice ⟨number, false⟩ limit (.expanded code) code = emit (.expanded code) := rfl
  rw [brief]
  by_cases room : code.inspectDepth ≤ limit
  · rw [Turn.notice_of_room _ _ room]
    exact voices_emit fun code' same => by cases same; exact room
  · rw [notice_eq_stop _ rfl (by omega)]
    exact fun n => .inr ⟨rfl, code, [], rfl⟩

theorem voices_build (room : 0 < limit) (kind : CallKind) (scope : Scope) (formals body : Value) :
    (Turn.build ⟨number, true⟩ limit kind scope formals body).Voices limit
      (Turn.build ⟨number, false⟩ limit kind scope formals body) := by
  unfold Turn.build
  refine (voices_ofExcept _).bind fun params => voices_nextSerial.bind fun serial => ?_
  dsimp only
  -- The notice of a callable is one level deep, whatever the callable holds.
  have shallow : (Value.compound kind ⟨number, serial⟩ scope params body).inspectDepth ≤ limit := room
  rw [Turn.notice_of_room _ _ shallow, Turn.notice_of_room _ _ shallow]
  exact (voices_emit fun _ same => by cases same).bind fun _ => voices_pure _

theorem voices_checkArity (callee : String) (arity : Arity) (args : List Value) :
    (Call.checkArity limit callee arity args).Voices limit
      (Call.checkArity limit callee arity args) := by
  unfold Call.checkArity
  split
  · exact voices_pure ()
  · exact voices_fail _ _

theorem voices_native (op : Native) (args : List Value) :
    (Call.native limit op args).Voices limit (Call.native limit op args) := by
  unfold Call.native
  refine (voices_checkArity _ _ _).bind fun _ => ?_
  split
  · exact voices_pure _
  · exact voices_pure _
  · exact voices_fail _ _
  · exact voices_pure _
  · exact voices_fail _ _
  · exact voices_pure _
  · exact voices_stop _

theorem voices_nativeForm (room : 0 < limit) (op : Native) (scope : Scope) (operands : List Value) :
    (Call.nativeForm ⟨number, true⟩ limit op scope operands).Voices limit
      (Call.nativeForm ⟨number, false⟩ limit op scope operands) := by
  unfold Call.nativeForm
  refine (voices_checkArity _ _ _).bind fun _ => ?_
  split
  · exact voices_pure _
  · exact voices_build number room _ _ _ _
  · exact voices_build number room _ _ _ _
  · exact voices_stop _

theorem voices_probe (p : Probe) (answer : Value) (args : List Value) :
    (Call.probe limit p answer args).Voices limit (Call.probe limit p answer args) := by
  unfold Call.probe
  rw [forM_within]
  refine (voices_checkArity _ _ _).bind fun _ => (voices_within _ _).bind fun _ => ?_
  refine (voices_emit fun _ same => by cases same).bind fun _ => ?_
  cases p.fault with
  | some fault => exact voices_fail _ _
  | none => exact voices_pure _

def Evaluator.Voices (limit : Nat) (loud quiet : Evaluator) : Prop :=
  ∀ scope expr, (loud scope expr).Voices limit (quiet scope expr)

variable {loud quiet : Evaluator}

theorem voices_enter (he : loud.Voices limit quiet) (kind : CallKind) (scope : Scope)
    (params : Params) (body : Value) (args : List Value) :
    (Call.enter loud limit kind scope params body args).Voices limit
      (Call.enter quiet limit kind scope params body args) := by
  rw [Call.enter_eq, Call.enter_eq]
  cases params.bind? args with
  | some frame => exact he _ _
  | none => exact voices_fail _ _

theorem voices_produce (he : loud.Voices limit quiet) (scope : Scope) (params : Params)
    (body : Value) (operands : List Value) :
    (Call.produce loud ⟨number, true⟩ limit scope params body operands).Voices limit
      (Call.produce quiet ⟨number, false⟩ limit scope params body operands) := by
  unfold Call.produce
  refine (voices_enter he .form scope params body operands).bind fun code => ?_
  exact (voices_notice number code).bind fun _ => voices_pure _

theorem voices_function (he : loud.Voices limit quiet) {callee : Value}
    (hk : callee.callKind? = some .function) (args : List Value) :
    (Call.function loud limit callee args).Voices limit (Call.function quiet limit callee args) := by
  cases Value.callable_of_callKind? hk with
  | native hop =>
      rw [Call.function_native _ _ _ hop, Call.function_native _ _ _ hop]
      exact voices_native _ args
  | compound => exact voices_enter he .function _ _ _ args
  | probe hp =>
      rw [Call.function_probe _ _ _ hp, Call.function_probe _ _ _ hp]
      exact voices_probe _ _ args
  | stub => exact voices_stop _

theorem voices_form (room : 0 < limit) (he : loud.Voices limit quiet) {callee : Value}
    (hk : callee.callKind? = some .form) (scope : Scope) (operands : List Value) :
    (Call.form loud ⟨number, true⟩ limit callee scope operands).Voices limit
      (Call.form quiet ⟨number, false⟩ limit callee scope operands) := by
  cases Value.callable_of_callKind? hk with
  | native hop =>
      rw [Call.form_native _ _ _ _ _ hop, Call.form_native _ _ _ _ _ hop]
      exact voices_nativeForm number room _ scope operands
  | compound => exact (voices_produce number he _ _ _ operands).bind fun code => he scope code
  | probe hp =>
      rw [Call.form_probe _ _ _ _ _ hp, Call.form_probe _ _ _ _ _ hp]
      exact voices_probe _ _ operands
  | stub => exact voices_stop _

/-! ## Evaluation -/

theorem voices_evaluateEach {one other : Value → Action Value}
    (he : ∀ expr, (one expr).Voices limit (other expr)) (exprs : List Value) :
    (evaluateEach one exprs).Voices limit (evaluateEach other exprs) := by
  induction exprs with
  | nil => exact voices_pure _
  | cons expr exprs ih => exact (he expr).bind fun value => ih.bind fun values => voices_pure _

theorem voices_callOperator (room : 0 < limit) (he : loud.Voices limit quiet) (scope : Scope)
    (operands : List Value) (operator : Value) :
    (callOperator loud ⟨number, true⟩ limit scope operands operator).Voices limit
      (callOperator quiet ⟨number, false⟩ limit scope operands operator) := by
  cases hk : operator.callKind? with
  | none =>
      rw [callOperator_none hk, callOperator_none hk]
      exact voices_fail _ _
  | some kind =>
      cases kind with
      | function =>
          rw [callOperator_function hk, callOperator_function hk]
          exact (voices_evaluateEach (he scope) operands).bind
            fun args => voices_function he hk args
      | form =>
          rw [callOperator_form hk, callOperator_form hk]
          exact voices_form number room he hk scope operands

/-- One level of evaluation, where its calls are as those of the other one. -/
theorem voices_evaluateStep
    (calls : ∀ scope head operands,
      (loud scope head >>= callOperator loud ⟨number, true⟩ limit scope operands).Voices limit
        (quiet scope head >>= callOperator quiet ⟨number, false⟩ limit scope operands)) :
    (evaluateStep loud ⟨number, true⟩ limit).Voices limit
      (evaluateStep quiet ⟨number, false⟩ limit) := by
  intro scope expr
  cases expr with
  | symbol name =>
      cases hn : scope.get? name with
      | some value =>
          rw [evaluateStep_bound hn, evaluateStep_bound hn]
          exact voices_pure _
      | none =>
          rw [evaluateStep_unbound hn, evaluateStep_unbound hn]
          exact voices_fail _ _
  | cell head tail =>
      cases hl : tail.toList? with
      | none =>
          rw [evaluateStep_improper hl, evaluateStep_improper hl]
          exact voices_fail _ _
      | some operands =>
          rw [evaluateStep_call hl, evaluateStep_call hl]
          exact calls scope head operands
  | _ => exact voices_pure _

/-- Verbose evaluation is evaluation with the notices written out. -/
theorem voices_evaluate (limit : Nat) :
    (evaluate ⟨number, true⟩ limit).Voices limit (evaluate ⟨number, false⟩ limit) := by
  induction limit with
  | zero => exact fun _ _ => voices_stop _
  | succ limit ih =>
      refine fun scope expr => (voices_evaluateStep number ?_ scope expr).mono (Nat.le_succ limit)
      intro scope head operands
      rcases Nat.eq_zero_or_pos limit with rfl | room
      -- On the last level the operator overflows before anything is called.
      · exact voices_stop _
      · exact (ih scope head).bind
          fun operator => voices_callOperator number room ih scope operands operator

end

end MiniLisp
