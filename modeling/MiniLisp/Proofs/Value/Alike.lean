import MiniLisp.Error.Basic

/-! # Values that differ in captured scopes

Two values are paired when they are identical but for the births and the captured scopes of certain
callables, and alike when these have the same births. No text shows a birth or a captured scope, so
such values have the same texts. Two outcomes are alike when they have related results or stop with
the same message.
-/

namespace MiniLisp

/-- Identical but for the scopes that callables with a birth in `made` have captured. -/
inductive Value.Alike (made : Birth → Prop) : Value → Value → Prop
  | same (v : Value) : Alike made v v
  | quoted {inner inner' : Value} : Alike made inner inner' →
      Alike made (.quoted inner) (.quoted inner')
  | cell {left left' right right' : Value} : Alike made left left' → Alike made right right' →
      Alike made (.cell left right) (.cell left' right')
  | compound {kind : CallKind} {birth : Birth} {scope scope' : Scope} {params : Params}
      {body body' : Value} : made birth → Alike made body body' →
      Alike made (.compound kind birth scope params body)
        (.compound kind birth scope' params body')

/-- Identical but for callables with births that are paired, which may have captured different
scopes. -/
inductive Value.Paired (births : Birth → Birth → Prop) : Value → Value → Prop
  | same (v : Value) : Paired births v v
  | quoted {inner inner' : Value} : Paired births inner inner' →
      Paired births (.quoted inner) (.quoted inner')
  | cell {left left' right right' : Value} : Paired births left left' →
      Paired births right right' → Paired births (.cell left right) (.cell left' right')
  | compound {kind : CallKind} {birth birth' : Birth} {scope scope' : Scope} {params : Params}
      {body body' : Value} : births birth birth' → Paired births body body' →
      Paired births (.compound kind birth scope params body)
        (.compound kind birth' scope' params body')

/-- The births since the number of callables built in a turn was `start`. -/
def Birth.Since (turn start : Nat) (birth : Birth) : Prop :=
  birth.turn = turn ∧ start ≤ birth.serial

/-- Two stops that say the same: errors of one kind with one message, or the same stop. -/
inductive Stop.Alike : Stop → Stop → Prop
  | error {error error' : Error} : error.kind = error'.kind → error.message = error'.message →
      Alike (.error error) (.error error')
  | same (reason : Stop) : Alike reason reason

/-- Two outcomes with related results, or with stops that say the same. -/
inductive Outcome.Alike {α β : Type} (related : α → β → Prop) : Except Stop α → Except Stop β → Prop
  | ok {a : α} {b : β} : related a b → Alike related (.ok a) (.ok b)
  | error {reason reason' : Stop} : reason.Alike reason' →
      Alike related (.error reason) (.error reason')

theorem Outcome.Alike.mono {α β : Type} {related wider : α → β → Prop} {outcome : Except Stop α}
    {outcome' : Except Stop β} (h : Outcome.Alike related outcome outcome')
    (imp : ∀ a b, related a b → wider a b) : Outcome.Alike wider outcome outcome' := by
  cases h with
  | ok results => exact .ok (imp _ _ results)
  | error stops => exact .error stops

theorem Outcome.Alike.overflow_iff {α β : Type} {related : α → β → Prop} {outcome : Except Stop α}
    {outcome' : Except Stop β} (h : Outcome.Alike related outcome outcome') :
    outcome = .error .overflow ↔ outcome' = .error .overflow := by
  cases h with
  | ok => simp
  | error stops => cases stops <;> simp

namespace Value

variable {births : Birth → Birth → Prop} {made : Birth → Prop} {v v' : Value}

theorem Paired.textAt_eq (h : v.Paired births v') (place : Place) :
    v.textAt place = v'.textAt place := by
  induction h generalizing place with
  | same v => rfl
  | quoted _ ih => rw [textAt, textAt, ih]
  | cell _ _ left right => rw [textAt, textAt, left, right]
  | compound => rfl

theorem Paired.text_eq (h : v.Paired births v') : v.text = v'.text := h.textAt_eq .element

theorem Paired.textDepthAt_eq (h : v.Paired births v') (place : Place) :
    v.textDepthAt place = v'.textDepthAt place := by
  induction h generalizing place with
  | same v => rfl
  | quoted _ ih => rw [textDepthAt, textDepthAt, ih]
  | cell _ _ left right => rw [textDepthAt, textDepthAt, left, right]
  | compound => rfl

theorem Paired.textDepth_eq (h : v.Paired births v') : v.textDepth = v'.textDepth :=
  h.textDepthAt_eq .element

theorem Paired.inspect_eq (h : v.Paired births v') : v.inspect = v'.inspect := by
  induction h with
  | same v => rfl
  | quoted _ ih => rw [inspect, inspect, ih]
  | cell _ _ left right => rw [inspect, inspect, left, right]
  | compound => rfl

theorem Paired.inspectDepth_eq (h : v.Paired births v') : v.inspectDepth = v'.inspectDepth := by
  induction h with
  | same v => rfl
  | quoted _ ih => rw [inspectDepth, inspectDepth, ih]
  | cell _ _ left right => rw [inspectDepth, inspectDepth, left, right]
  | compound => rfl

theorem Paired.callKind?_eq (h : v.Paired births v') : v.callKind? = v'.callKind? := by
  cases h <;> rfl

/-- Values are alike when only equal births are paired. -/
theorem Paired.alike (h : v.Paired births v')
    (same : ∀ birth birth', births birth birth' → birth = birth' ∧ made birth) :
    v.Alike made v' := by
  induction h with
  | same v => exact .same v
  | quoted _ ih => exact .quoted ih
  | cell _ _ left right => exact .cell left right
  | compound born _ body =>
      obtain ⟨rfl, fresh⟩ := same _ _ born
      exact .compound fresh body

theorem Alike.paired (h : v.Alike made v') :
    v.Paired (fun birth birth' => birth = birth' ∧ made birth) v' := by
  induction h with
  | same v => exact .same v
  | quoted _ ih => exact .quoted ih
  | cell _ _ left right => exact .cell left right
  | compound born _ body => exact .compound ⟨rfl, born⟩ body

theorem Alike.textDepth_eq (h : v.Alike made v') : v.textDepth = v'.textDepth :=
  h.paired.textDepth_eq

end Value

/-- Two errors that show the same text fail alike, since they nest alike. -/
theorem Stop.ofError_alike {error error' : Error} (limit : Nat) (kind : error.kind = error'.kind)
    (message : error.message = error'.message) (depth : error.messageDepth = error'.messageDepth) :
    (Stop.ofError limit error).Alike (Stop.ofError limit error') := by
  unfold Stop.ofError
  rw [depth]
  split
  · exact .error kind message
  · exact .same _

end MiniLisp
