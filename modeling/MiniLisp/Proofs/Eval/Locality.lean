import MiniLisp.Builtin
import MiniLisp.Proofs.Eval.Simulation
import MiniLisp.Proofs.Value.Mentions

/-! # What evaluation can see of a scope

Evaluation looks up the symbols of the expression, and it evaluates only parts of expressions,
bodies of callables in the scopes that these have captured, and code that user-defined forms
produce. So without such code only the symbols of the expression itself matter, whatever the names
in bodies and in data are bound to; and with it only the names that the expression and the values
bound to such names mention. The turn of an evaluation, and how many callables were built in it
before, show only in the births of the callables that it builds.
-/

namespace MiniLisp

theorem hereditary_true : Hereditary fun _ => True where
  nil := trivial
  cell _ _ := ⟨fun _ => ⟨trivial, trivial⟩, fun _ => trivial⟩
  quoted _ := Iff.rfl
  parts _ _ _ _ _ _ := ⟨fun _ _ _ _ => trivial, trivial⟩
  answer _ _ _ _ := trivial
  build _ _ _ _ _ _ _ _ _ _ _ := trivial

/-- Every value may be met, an expression looks up its own symbols, and no code is expanded. -/
def Sight.lexical : Sight where
  known _ := True
  sees expr name := name ∈ expr.shownNames
  allows event := ∀ code, event ≠ .expanded code
  hereditary := hereditary_true
  sees_symbol name _ := List.mem_singleton_self name
  sees_left _ _ _ seen := List.mem_append.mpr (.inl seen)
  sees_right _ _ _ seen := List.mem_append.mpr (.inr seen)
  sees_code code _ _ allowed := absurd rfl (allowed code)

/-- Only values that mention no other names may be met, and any of the names may be looked up. -/
def Sight.ofNames (names : String → Prop) : Sight where
  known v := ∀ name, v.Mentions name → names name
  sees _ name := names name
  allows _ := True
  hereditary := Value.hereditary_mentions names
  sees_symbol name known := known name .symbol
  sees_left _ _ _ seen := seen
  sees_right _ _ _ seen := seen
  sees_code _ _ _ _ seen := seen

/-- Values that are identical but for the scopes captured by callables built since the start, and
that print alike. -/
def Turn.SameSince (turn : Turn) (start : Nat) (v v' : Value) : Prop :=
  v.Alike (Birth.Since turn.number start) v' ∧ v.text = v'.text

/-- The births of callables that two evaluations build in step: as many after the start of one as
after the start of the other. -/
def Birth.InStep (turn start turn' start' : Nat) (birth birth' : Birth) : Prop :=
  birth.turn = turn ∧ birth'.turn = turn' ∧
    ∃ k, birth.serial = start + k ∧ birth'.serial = start' + k

/-- Values that are identical but for the births and the captured scopes of callables that two
evaluations have built in step, and that print alike. -/
def Turn.SameInStep (turn : Turn) (start : Nat) (turn' : Turn) (start' : Nat) (v v' : Value) :
    Prop :=
  v.Paired (Birth.InStep turn.number start turn'.number start') v' ∧ v.text = v'.text

/-- Evaluations that build callables in step since they started. -/
def Pairing.inStep (turn turn' : Turn) (verbose : turn.verbose = turn'.verbose)
    (start start' : Nat) : Pairing where
  here := turn
  there := turn'
  verbose := verbose
  counts n m := ∃ k, n = start + k ∧ m = start' + k
  births := Birth.InStep turn.number start turn'.number start'
  next _ _ := fun ⟨k, hn, hm⟩ => ⟨k + 1, congrArg (· + 1) hn, congrArg (· + 1) hm⟩
  born _ _ paired := ⟨rfl, rfl, paired⟩

theorem Birth.eq_of_inStep {turn start : Nat} {birth birth' : Birth}
    (paired : InStep turn start turn start birth birth') :
    birth = birth' ∧ Birth.Since turn start birth := by
  obtain ⟨number, serial⟩ := birth
  obtain ⟨number', serial'⟩ := birth'
  obtain ⟨rfl, rfl, k, rfl, rfl⟩ := paired
  exact ⟨rfl, rfl, Nat.le_add_right start k⟩

section

variable {sight : Sight} {turn : Turn} {start limit : Nat} {scope scope' : Scope} {expr : Value}

theorem Scope.agree_of_get?_eq {births : Birth → Birth → Prop} {names : String → Prop}
    (h : ∀ name, names name → scope.get? name = scope'.get? name ∧
      ∀ value, scope.get? name = some value → sight.known value) :
    scope.Agree (Value.Linked sight births) names scope' := by
  intro name seen
  obtain ⟨same, known⟩ := h name seen
  rw [← same]
  cases hn : scope.get? name with
  | none => exact .none
  | some value => exact .some (.same (known value hn))

theorem sameSince_of_links {v v' : Value}
    (h : sight.Links (.inStep turn turn rfl start start) v v') : turn.SameSince start v v' :=
  ⟨h.paired.alike fun _ _ => Birth.eq_of_inStep, h.paired.text_eq⟩

/-- Scopes that bind what the expression sees to the same known values make it end alike. -/
theorem evaluate_ends_alike (sight : Sight) (known : sight.known expr)
    (agree : ∀ name, sight.sees expr name → scope.get? name = scope'.get? name ∧
      ∀ value, scope.get? name = some value → sight.known value)
    (allowed : ∀ event ∈ (evaluate turn limit scope expr start).events, sight.allows event) :
    Outcome.Alike (turn.SameSince start) (evaluate turn limit scope expr start).outcome
      (evaluate turn limit scope' expr start).outcome := by
  have ends := respects_evaluate sight (.inStep turn turn rfl start start) limit scope scope' expr
    expr (.same known) (Scope.agree_of_get?_eq agree) start start ⟨0, rfl, rfl⟩ allowed
  exact ends.outcome.mono fun _ _ => sameSince_of_links

/-- In scopes that bind every name to the same value an expression ends alike, whenever it is
evaluated: the turn and the callables built before only date those that are built on the way. -/
theorem evaluate_ends_in_step (turn turn' : Turn) (verbose : turn.verbose = turn'.verbose)
    (limit : Nat) (same : ∀ name, scope.get? name = scope'.get? name) (expr : Value)
    (start start' : Nat) :
    Outcome.Alike (turn.SameInStep start turn' start')
      (evaluate turn limit scope expr start).outcome
      (evaluate turn' limit scope' expr start').outcome := by
  let pairing := Pairing.inStep turn turn' verbose start start'
  let sight := Sight.ofNames fun _ => True
  have agree : scope.Agree (sight.Links pairing) (sight.sees expr) scope' :=
    Scope.agree_of_get?_eq fun name _ => ⟨same name, fun _ _ _ _ => trivial⟩
  have ends := respects_evaluate sight pairing limit scope scope' expr expr
    (.same fun _ _ => trivial) agree start start' ⟨0, rfl, rfl⟩ fun _ _ => trivial
  exact ends.outcome.mono fun v v' link => ⟨link.paired, link.paired.text_eq⟩

end

/-- Lexical scoping. Unless a user-defined form produces code, only what a scope binds the symbols
of the expression to matters, and not the names in the bodies of functions that are called or in
data. -/
theorem evaluate_lexical (turn : Turn) (limit n : Nat) (scope scope' : Scope) (expr : Value)
    (agree : ∀ name ∈ expr.shownNames, scope.get? name = scope'.get? name)
    (unexpanded : ∀ code, .expanded code ∉ (evaluate turn limit scope expr n).events) :
    Outcome.Alike (turn.SameSince n) (evaluate turn limit scope expr n).outcome
      (evaluate turn limit scope' expr n).outcome := by
  refine evaluate_ends_alike .lexical trivial ?_ ?_
  · exact fun name seen => ⟨agree name seen, fun _ _ => trivial⟩
  · intro event member code same
    exact unexpanded code (same ▸ member)

/-- A function is called that looks up a name where it was built; the callers bind that name to
different values. -/
theorem evaluate_lexical_of_free_name :
    let home : Scope := [("y", .symbol "kept")] :: builtin
    let pair : Value := .compound .function ⟨1, 0⟩ home ⟨["x"], none⟩
      (.ofList [.symbol "cons", .symbol "x", .symbol "y"])
    let scope : Scope := [("pair", pair), ("y", .symbol "one")] :: builtin
    let scope' : Scope := [("pair", pair), ("y", .nil)] :: builtin
    let call : Value := .ofList [.symbol "pair", .quoted (.symbol "a")]
    (evaluate {} 3 scope call 0).outcome = .ok (.cell (.symbol "a") (.symbol "kept")) ∧
      Outcome.Alike (Turn.SameSince {} 0) (evaluate {} 3 scope call 0).outcome
        (evaluate {} 3 scope' call 0).outcome := by
  intro home pair scope scope' call
  have run : evaluate {} 3 scope call 0 =
      ⟨[], 0, .ok (.cell (.symbol "a") (.symbol "kept"))⟩ := by rfl
  have agree : ∀ name ∈ call.shownNames, scope.get? name = scope'.get? name := by
    intro name member
    rcases List.mem_cons.mp member with rfl | member
    · rfl
    · rcases List.mem_cons.mp member with rfl | later
      · rfl
      · cases later
  refine ⟨by rw [run], evaluate_lexical {} 3 0 scope scope' call agree fun code member => ?_⟩
  rw [run] at member
  cases member

end MiniLisp
