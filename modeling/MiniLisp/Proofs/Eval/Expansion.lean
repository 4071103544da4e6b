import Mathlib.Logic.Relation
import MiniLisp.Proofs.Eval.Limits
import MiniLisp.Proofs.Eval.Locality

/-! # Expansion keeps the meaning

The expansion of a call stops where its evaluation would produce code, and hands the code out. So an
evaluation can be taken up from the code, and from the code that this expands to in turn. Evaluations
at different times build callables with different births; these are compared by what they are made
of, and all others have to be the same.
-/

namespace MiniLisp

open Filter

/-! ## Values up to births -/

/-- Identical but for callables with births in `made`, which are compared by their kinds, parameters
and bodies and by what their scopes bind. -/
def Value.SameBut (made : Birth → Prop) : Value → Value → Prop :=
  Value.Linked (.ofNames fun _ => True) fun birth birth' => made birth ∧ made birth'

section

variable {made : Birth → Prop}

theorem Value.sameBut_refl (v : Value) : Value.SameBut made v v := .same fun _ _ => trivial

theorem Value.SameBut.trans {u v w : Value} (first : Value.SameBut made u v)
    (second : Value.SameBut made v w) : Value.SameBut made u w := by
  induction first generalizing w with
  | same => exact second
  | quoted inner ih =>
      cases second with
      | same => exact .quoted inner
      | quoted inner' => exact .quoted (ih inner')
  | cell left right ihl ihr =>
      cases second with
      | same => exact .cell left right
      | cell left' right' => exact .cell (ihl left') (ihr right')
  | compound births body bound values ihb ihv =>
      cases second with
      | same => exact .compound births body bound values
      | compound births' body' bound' values' =>
          refine .compound ⟨births.1, births'.2⟩ (ihb body') ?_ ?_
          · exact fun name seen => (bound name seen).trans (bound' name seen)
          · intro name v v'' seen here there
            have defined := bound name seen
            rw [here, Option.isSome_some] at defined
            obtain ⟨v', mid⟩ := Option.isSome_iff_exists.mp defined.symm
            exact ihv name v v' seen here mid (values' name v' v'' seen mid there)

theorem Stop.Alike.trans {first second third : Stop} (h : first.Alike second)
    (h' : second.Alike third) : first.Alike third := by
  cases h with
  | same => exact h'
  | error kind message =>
      cases h' with
      | same => exact .error kind message
      | error kind' message' => exact .error (kind.trans kind') (message.trans message')

theorem Outcome.sameBut_refl (outcome : Except Stop Value) :
    Outcome.Alike (Value.SameBut made) outcome outcome := by
  cases outcome with
  | ok value => exact .ok (Value.sameBut_refl value)
  | error reason => exact .error (.same reason)

theorem Outcome.sameBut_trans {first second third : Except Stop Value}
    (h : Outcome.Alike (Value.SameBut made) first second)
    (h' : Outcome.Alike (Value.SameBut made) second third) :
    Outcome.Alike (Value.SameBut made) first third := by
  cases h with
  | ok values =>
      cases h' with
      | ok values' => exact .ok (values.trans values')
  | error stops =>
      cases h' with
      | error stops' => exact .error (stops.trans stops')

end

/-! ## Actions that end alike -/

/-- With enough room each of two actions ends as the other one does: with an error of the same kind
and message, or with the same value but for callables with births in `made`. -/
structure EndAlike (made : Birth → Prop) (here : Nat → Action Value) (n : Nat)
    (there : Nat → Action Value) (m : Nat) : Prop where
  forth : ∀ outcome, Ends here n outcome →
    ∃ outcome', Ends there m outcome' ∧ Outcome.Alike (Value.SameBut made) outcome outcome'
  back : ∀ outcome', Ends there m outcome' →
    ∃ outcome, Ends here n outcome ∧ Outcome.Alike (Value.SameBut made) outcome outcome'

section

variable {made : Birth → Prop} {here mid there : Nat → Action Value} {n k m : Nat}

theorem EndAlike.trans (h : EndAlike made here n mid k) (h' : EndAlike made mid k there m) :
    EndAlike made here n there m := by
  constructor
  · intro outcome ends
    obtain ⟨between, ends', alike⟩ := h.forth outcome ends
    obtain ⟨outcome', ends'', alike'⟩ := h'.forth between ends'
    exact ⟨outcome', ends'', Outcome.sameBut_trans alike alike'⟩
  · intro outcome' ends
    obtain ⟨between, ends', alike'⟩ := h'.back outcome' ends
    obtain ⟨outcome, ends'', alike⟩ := h.back between ends'
    exact ⟨outcome, ends'', Outcome.sameBut_trans alike alike'⟩

/-- Steady actions end alike when each outcome of one, under a limit that is large enough, is one
that the other has under that limit or a higher one. -/
theorem endAlike_of_levels (steady : Steady here) (steady' : Steady there)
    (levels : ∀ᶠ limit in atTop, ∃ level, limit ≤ level ∧
      Outcome.Alike (Value.SameBut made) (here level n).outcome (there limit m).outcome) :
    EndAlike made here n there m := by
  constructor
  · rintro outcome ⟨settled, eventually⟩
    obtain ⟨limit, rfl, level, more, alike⟩ := (eventually.and levels).exists
    rw [(steady more).eq_of_settled settled] at alike
    have settled' := mt alike.overflow_iff.mpr settled
    exact ⟨_, steady'.ends_iff.mpr ⟨settled', limit, rfl⟩, alike⟩
  · rintro outcome' ⟨settled', eventually⟩
    obtain ⟨limit, rfl, level, more, alike⟩ := (eventually.and levels).exists
    have settled := mt alike.overflow_iff.mp settled'
    exact ⟨_, steady.ends_iff.mpr ⟨settled, level, rfl⟩, alike⟩

end

/-! ## Occasions -/

/-- A time to evaluate something: in a turn, once so many callables have been built in it. Those that
are built from then on have births in `made`. -/
structure Occasion (made : Birth → Prop) where
  number : Nat
  built : Nat
  fresh : ∀ serial, built ≤ serial → made ⟨number, serial⟩

namespace Occasion

variable {made : Birth → Prop}

def turn (occasion : Occasion made) (verbose : Bool) : Turn := ⟨occasion.number, verbose⟩

/-- Evaluations on two occasions, which pair what is built on one with what is built on the other. -/
def pairing (here there : Occasion made) (verbose : Bool) : Pairing where
  here := here.turn verbose
  there := there.turn verbose
  verbose := rfl
  counts n m := (∀ serial, n ≤ serial → made ⟨here.number, serial⟩) ∧
    ∀ serial, m ≤ serial → made ⟨there.number, serial⟩
  births birth birth' := made birth ∧ made birth'
  next _ _ fresh := ⟨fun serial later => fresh.1 serial (Nat.le_of_succ_le later),
    fun serial later => fresh.2 serial (Nat.le_of_succ_le later)⟩
  born n m fresh := ⟨fresh.1 n (Nat.le_refl n), fresh.2 m (Nat.le_refl m)⟩

variable (verbose : Bool) (limit : Nat) (scope : Scope) (expr : Value)

theorem evaluate_matches (here there : Occasion made) :
    (evaluate (here.turn verbose) limit scope expr here.built).Matches
      (here.pairing there verbose).counts (Value.SameBut made)
      (evaluate (there.turn verbose) limit scope expr there.built) := by
  refine respects_evaluate (.ofNames fun _ => True) (here.pairing there verbose) limit scope scope
    expr expr (Value.sameBut_refl expr) ?_ here.built there.built ⟨here.fresh, there.fresh⟩
    fun _ _ => trivial
  exact Scope.agree_of_get?_eq fun name _ => ⟨rfl, fun _ _ _ _ => trivial⟩

/-- On any two occasions an expression ends alike. -/
theorem evaluate_endAlike (here there : Occasion made) :
    EndAlike made (fun limit => evaluate (here.turn verbose) limit scope expr)
      here.built (fun limit => evaluate (there.turn verbose) limit scope expr) there.built :=
  endAlike_of_levels (steady_evaluate _ scope expr) (steady_evaluate _ scope expr)
    (.of_forall fun limit =>
      ⟨limit, Nat.le_refl limit, (here.evaluate_matches verbose limit scope expr there).outcome⟩)

end Occasion

/-! ## One expansion -/

/-- What an expansion does once the value of the operator is known. -/
def expandOperator (turn : Turn) (limit : Nat) (operands : List Value) :
    Value → Action (Option Value)
  | .compound .form _ home params body => do
      let code ← Call.produce (evaluate turn limit) turn limit home params body operands
      return some code
  | _ => pure none

section

variable {turn : Turn} {limit n : Nat} {scope : Scope} {head tail : Value} {operands : List Value}

theorem expand_call (listed : tail.toList? = some operands) :
    expand turn limit scope (.cell head tail) =
      (evaluate turn limit scope head >>= expandOperator turn limit operands) := by
  rw [expand, listed]
  dsimp only
  refine congrArg _ (funext fun operator => ?_)
  cases operator with
  | compound kind => cases kind <;> rfl
  | _ => rfl

theorem expand_improper (listed : tail.toList? = none) :
    expand turn limit scope (.cell head tail) = Action.fail limit .improperList := by
  rw [expand, listed]

/-- Only calls of user-defined forms are expanded. -/
theorem expandOperator_cases (operator : Value) :
    (∃ birth home params body, operator = .compound .form birth home params body) ∨
      expandOperator turn limit operands operator = pure none := by
  cases operator with
  | compound kind birth home params body =>
      cases kind with
      | form => exact .inl ⟨birth, home, params, body, rfl⟩
      | function => exact .inr rfl
  | _ => exact .inr rfl

/-- An expression is left as it is, or its expansion stops as its evaluation does, or its evaluation
goes on with the code that the expansion gives. -/
theorem expand_cases (turn : Turn) (limit : Nat) (scope : Scope) (expr : Value) (n : Nat) :
    (expand turn limit scope expr n).outcome = .ok none ∨
    (∃ reason, (expand turn limit scope expr n).outcome = .error reason ∧
      (evaluate turn (limit + 1) scope expr n).outcome = .error reason) ∨
    ∃ code, (expand turn limit scope expr n).outcome = .ok (some code) ∧
      (evaluate turn (limit + 1) scope expr n).outcome =
        (evaluate turn limit scope code (expand turn limit scope expr n).built).outcome := by
  cases expr with
  | cell head tail =>
      rw [evaluate]
      cases listed : tail.toList? with
      | none =>
          rw [expand_improper listed, evaluateStep_improper listed]
          exact .inr (.inl ⟨_, rfl, rfl⟩)
      | some operands =>
          rw [expand_call listed, evaluateStep_call listed]
          rcases h : evaluate turn limit scope head n with ⟨events, m, outcome⟩
          cases outcome with
          | error reason =>
              rw [Action.bind_of_error h, Action.bind_of_error h]
              exact .inr (.inl ⟨reason, rfl, rfl⟩)
          | ok operator =>
              rw [Action.bind_of_ok h, Action.bind_of_ok h]
              dsimp only
              rcases expandOperator_cases operator with ⟨birth, home, params, body, rfl⟩ | unchanged
              · rw [callOperator_form rfl, Call.form, expandOperator]
                rcases produced : Call.produce (evaluate turn limit) turn limit home params body
                  operands m with ⟨more, k, result⟩
                cases result with
                | error reason =>
                    rw [Action.bind_of_error produced, Action.bind_of_error produced]
                    exact .inr (.inl ⟨reason, rfl, rfl⟩)
                | ok code =>
                    rw [Action.bind_of_ok produced, Action.bind_of_ok produced]
                    exact .inr (.inr ⟨code, rfl, rfl⟩)
              · rw [unchanged]
                exact .inl rfl
  | _ => exact .inl rfl

theorem evaluate_of_expand_some {expr code : Value}
    (expanded : (expand turn limit scope expr n).outcome = .ok (some code)) :
    (evaluate turn (limit + 1) scope expr n).outcome =
      (evaluate turn limit scope code (expand turn limit scope expr n).built).outcome := by
  rcases expand_cases turn limit scope expr n with
    unchanged | ⟨reason, stopped, _⟩ | ⟨found, expanded', continues⟩
  · cases expanded.symm.trans unchanged
  · cases expanded.symm.trans stopped
  · cases expanded.symm.trans expanded'
    exact continues

theorem evaluate_of_expand_error {expr : Value} {reason : Stop}
    (stopped : (expand turn limit scope expr n).outcome = .error reason) :
    (evaluate turn (limit + 1) scope expr n).outcome = .error reason := by
  rcases expand_cases turn limit scope expr n with
    unchanged | ⟨reason', stopped', stops⟩ | ⟨code, expanded, _⟩
  · cases stopped.symm.trans unchanged
  · cases stopped.symm.trans stopped'
    exact stops
  · cases stopped.symm.trans expanded

end

/-! ## Callables are only ever added -/

/-- A run of the action does not lower the number of callables built. -/
def Action.Climbs {α : Type} (action : Action α) : Prop := ∀ n, n ≤ (action n).built

section

variable {α β : Type} {turn : Turn} {limit : Nat}

theorem Action.Climbs.bind {first : Action α} {next : α → Action β} (hf : first.Climbs)
    (hn : ∀ a, (next a).Climbs) : (first >>= next).Climbs := by
  intro n
  have below := hf n
  rcases h : first n with ⟨events, m, outcome⟩
  rw [h] at below
  cases outcome with
  | error reason =>
      rw [Action.bind_of_error h]
      exact below
  | ok a =>
      rw [Action.bind_of_ok h]
      exact Nat.le_trans below (hn a m)

theorem Action.climbs_pure (a : α) : (Pure.pure a : Action α).Climbs := Nat.le_refl

theorem Action.climbs_fail (error : Error) : (Action.fail limit error : Action α).Climbs :=
  Nat.le_refl

theorem Turn.climbs_notice (event : Event) (value : Value) :
    (turn.notice limit event value).Climbs := by
  unfold Turn.notice Action.within
  split
  · split
    · exact Nat.le_refl
    · exact Nat.le_refl
  · exact Nat.le_refl

theorem climbs_evaluate (scope : Scope) (expr : Value) : (evaluate turn limit scope expr).Climbs := by
  intro n
  let occasion : Occasion fun birth => n ≤ birth.serial := ⟨turn.number, n, fun _ later => later⟩
  have matched := occasion.evaluate_matches turn.verbose limit scope expr occasion
  exact matched.built.1 _ (Nat.le_refl _)

theorem climbs_produce (home : Scope) (params : Params) (body : Value) (operands : List Value) :
    (Call.produce (evaluate turn limit) turn limit home params body operands).Climbs := by
  unfold Call.produce
  rw [Call.enter_eq]
  refine Action.Climbs.bind ?_ fun code =>
    (Turn.climbs_notice _ code).bind fun _ => Action.climbs_pure code
  split
  · exact climbs_evaluate _ body
  · exact Action.climbs_fail _

theorem climbs_expand (scope : Scope) (expr : Value) : (expand turn limit scope expr).Climbs := by
  cases expr with
  | cell head tail =>
      cases listed : tail.toList? with
      | none =>
          rw [expand_improper listed]
          exact Action.climbs_fail _
      | some operands =>
          rw [expand_call listed]
          refine (climbs_evaluate scope head).bind fun operator => ?_
          rcases expandOperator_cases operator with ⟨birth, home, params, body, rfl⟩ | unchanged
          · exact (climbs_produce home params body operands).bind fun _ => Action.climbs_pure _
          · rw [unchanged]
            exact Action.climbs_pure _
  | _ => exact Nat.le_refl

end

/-! ## Expansions in a row -/

section

variable {made : Birth → Prop} (verbose : Bool) (limit : Nat) (scope : Scope) (expr : Value)

def Occasion.afterExpansion (occasion : Occasion made) : Occasion made where
  number := occasion.number
  built := (expand (occasion.turn verbose) limit scope expr occasion.built).built
  fresh serial later := occasion.fresh serial (Nat.le_trans (climbs_expand scope expr _) later)

theorem steady_expand (turn : Turn) : Steady fun limit => expand turn limit scope expr :=
  fun _ _ more => approximates_expand more turn scope expr

variable {verbose limit scope expr}

/-- Evaluation goes on with the code of an expansion. -/
theorem Occasion.endAlike_code {occasion : Occasion made} {code : Value}
    (expanded : (expand (occasion.turn verbose) limit scope expr occasion.built).outcome =
      .ok (some code)) :
    EndAlike made (fun limit => evaluate (occasion.turn verbose) limit scope expr)
      occasion.built (fun limit => evaluate (occasion.turn verbose) limit scope code)
      (occasion.afterExpansion verbose limit scope expr).built := by
  refine endAlike_of_levels (steady_evaluate _ scope expr) (steady_evaluate _ scope code) ?_
  have settled : (expand (occasion.turn verbose) limit scope expr occasion.built).outcome ≠
      .error .overflow := by
    rw [expanded]
    simp
  filter_upwards [(steady_expand scope expr _).eventually_eq rfl settled] with high same
  refine ⟨high + 1, Nat.le_succ high, ?_⟩
  rw [evaluate_of_expand_some ((congrArg Run.outcome same).trans expanded), same]
  exact Outcome.sameBut_refl _

/-- On some occasion the expression expands to the code, or is left as it is. -/
def Expands (verbose : Bool) (made : Birth → Prop) (scope : Scope) (expr code : Value) : Prop :=
  ∃ (occasion : Occasion made) (limit : Nat) (result : Option Value),
    (expand (occasion.turn verbose) limit scope expr occasion.built).outcome = .ok result ∧
      result.getD expr = code

theorem Occasion.endAlike_of_expands {code : Value} (here there : Occasion made)
    (step : Expands verbose made scope expr code) :
    EndAlike made (fun limit => evaluate (here.turn verbose) limit scope expr)
      here.built (fun limit => evaluate (there.turn verbose) limit scope code) there.built := by
  obtain ⟨occasion, limit, result, expanded, rfl⟩ := step
  cases result with
  | none => exact here.evaluate_endAlike verbose scope expr there
  | some code =>
      have before := here.evaluate_endAlike verbose scope expr occasion
      have between := Occasion.endAlike_code expanded
      have after := (occasion.afterExpansion verbose limit scope expr).evaluate_endAlike verbose
        scope code there
      exact (before.trans between).trans after

theorem Occasion.endAlike_of_expansions {code : Value} (here there : Occasion made)
    (expansions : Relation.ReflTransGen (Expands verbose made scope) expr code) :
    EndAlike made (fun limit => evaluate (here.turn verbose) limit scope expr)
      here.built (fun limit => evaluate (there.turn verbose) limit scope code) there.built := by
  induction expansions generalizing there with
  | refl => exact here.evaluate_endAlike verbose scope expr there
  | tail _ step ih => exact (ih here).trans (here.endAlike_of_expands there step)

def expandFirst (turn : Turn) (limit : Nat) (scope : Scope) (expr : Value) : Action Value := do
  let code ← expand turn limit scope expr
  evaluate turn limit scope (code.getD expr)

theorem Occasion.endAlike_expandFirst (occasion : Occasion made) :
    EndAlike made (fun limit => evaluate (occasion.turn verbose) limit scope expr)
      occasion.built (fun limit => expandFirst (occasion.turn verbose) limit scope expr)
      occasion.built := by
  refine endAlike_of_levels (steady_evaluate _ scope expr) ?_ (.of_forall fun limit => ?_)
  · exact (steady_expand scope expr _).bind fun code => steady_evaluate _ scope (code.getD expr)
  · have again : Outcome.Alike (Value.SameBut made)
        (evaluate (occasion.turn verbose) limit scope expr occasion.built).outcome
        (evaluate (occasion.turn verbose) limit scope expr
          (expand (occasion.turn verbose) limit scope expr occasion.built).built).outcome :=
      (occasion.evaluate_matches verbose limit scope expr
        (occasion.afterExpansion verbose limit scope expr)).outcome
    rcases h : expand (occasion.turn verbose) limit scope expr occasion.built with
      ⟨events, m, outcome⟩
    have ended := congrArg Run.outcome h
    cases outcome with
    | error reason =>
        refine ⟨limit + 1, Nat.le_succ limit, ?_⟩
        rw [expandFirst, Action.bind_of_error h, evaluate_of_expand_error ended]
        exact .error (.same reason)
    | ok result =>
        cases result with
        | none =>
            refine ⟨limit, Nat.le_refl limit, ?_⟩
            rw [h] at again
            rw [expandFirst, Action.bind_of_ok h]
            exact again
        | some code =>
            refine ⟨limit + 1, Nat.le_succ limit, ?_⟩
            rw [expandFirst, Action.bind_of_ok h, evaluate_of_expand_some ended, h]
            exact Outcome.sameBut_refl _

end

/-- Expansion keeps the meaning. Whatever an expression expands to, in any number of expansions,
ends as the expression does, and so does an expansion that fails. Callables that were built on the
way are compared by what their scopes bind. -/
theorem expansion_keeps_meaning (verbose : Bool) (made : Birth → Prop) (scope : Scope)
    (expr : Value) (here : Occasion made) :
    (∀ code, Relation.ReflTransGen (Expands verbose made scope) expr code →
      (∀ there : Occasion made, EndAlike made
        (fun limit => evaluate (here.turn verbose) limit scope expr) here.built
        (fun limit => evaluate (there.turn verbose) limit scope code) there.built) ∧
      ∀ (there : Occasion made) (limit : Nat) (reason : Stop),
        (expand (there.turn verbose) limit scope code there.built).outcome = .error reason →
        reason ≠ .overflow → ∃ reason', reason'.Alike reason ∧
          Ends (fun limit => evaluate (here.turn verbose) limit scope expr) here.built
            (.error reason')) ∧
    ∀ there : Occasion made, EndAlike made
      (fun limit => evaluate (here.turn verbose) limit scope expr) here.built
      (fun limit => expandFirst (there.turn verbose) limit scope expr) there.built := by
  refine ⟨fun code expansions => ⟨?_, ?_⟩, fun there => ?_⟩
  · exact fun there => here.endAlike_of_expansions there expansions
  · intro there limit reason stopped settled
    have stops : Ends (fun limit => evaluate (there.turn verbose) limit scope code) there.built
        (.error reason) :=
      (steady_evaluate _ scope code).ends_iff.mpr
        ⟨by simpa using settled, limit + 1, evaluate_of_expand_error stopped⟩
    obtain ⟨outcome, ends, same⟩ := (here.endAlike_of_expansions there expansions).back _ stops
    cases same with
    | error stops => exact ⟨_, stops, ends⟩
  · exact (here.evaluate_endAlike verbose scope expr there).trans
      there.endAlike_expandFirst

/-- One form expands to the call of another one, which expands to code that builds a function; with
an operand too many the first expansion fails. -/
theorem expansion_keeps_meaning_of_forms :
    let made : Birth → Prop := fun birth => 1 ≤ birth.turn
    let keep : Value := .compound .form ⟨0, 0⟩ builtin ⟨["x"], none⟩ (.symbol "x")
    let wrap : Value := .compound .form ⟨0, 1⟩ builtin ⟨["x"], none⟩
      (.ofList [.symbol "list", .quoted (.symbol "keep"), .symbol "x"])
    let scope : Scope := [("keep", keep), ("wrap", wrap)] :: builtin
    let code : Value := .ofList [.symbol "lambda", .nil, .symbol "keep"]
    let expr : Value := .ofList [.symbol "wrap", code]
    let excess : Value := .ofList [.symbol "wrap", code, code]
    let refusal : Stop := .error (.wrongArity "macro" ⟨1, false⟩ 2)
    let here : Occasion made := ⟨1, 0, fun _ _ => Nat.le_refl 1⟩
    let there : Occasion made := ⟨2, 7, fun _ _ => Nat.le_succ 1⟩
    Relation.ReflTransGen (Expands false made scope) expr code ∧
      (evaluate (here.turn false) 4 scope expr here.built).outcome =
        .ok (.compound .function ⟨1, 0⟩ scope ⟨[], none⟩ (.symbol "keep")) ∧
      EndAlike made (fun limit => evaluate (here.turn false) limit scope expr) here.built
        (fun limit => evaluate (there.turn false) limit scope code) there.built ∧
      ∃ reason, reason.Alike refusal ∧
        Ends (fun limit => evaluate (here.turn false) limit scope excess) here.built
          (.error reason) := by
  intro made keep wrap scope code expr excess refusal here there
  let call : Value := .ofList [.symbol "keep", code]
  have first : Expands false made scope expr call := ⟨here, 2, some call, rfl, rfl⟩
  have second : Expands false made scope call code := ⟨there, 1, some code, rfl, rfl⟩
  have expansions : Relation.ReflTransGen (Expands false made scope) expr code :=
    .tail (.single first) second
  have stopped : (expand (there.turn false) 1 scope excess there.built).outcome =
      .error refusal := rfl
  refine ⟨expansions, rfl, ?_, ?_⟩
  · exact ((expansion_keeps_meaning false made scope expr here).1 code expansions).1 there
  · exact ((expansion_keeps_meaning false made scope excess here).1 excess .refl).2 there 1 refusal
      stopped (by simp [refusal])

end MiniLisp
