import MiniLisp.Proofs.Call.Formals
import MiniLisp.Proofs.Eval.Production
import MiniLisp.Proofs.Session.Locality

/-! # Bindings made by calls

A function that is called where it is written binds its parameters in one frame; a session binds
names one after the other, each in a frame of its own. An expression cannot tell the two apart: as
the body of such a function it ends as it does in the session after the same bindings, in any order.
-/

namespace MiniLisp

/-- The call of a function where it is written: its parameters are the names, its arguments the
values, each behind a quote mark. -/
def Value.application (bindings : List (String × Value)) (body : Value) : Value :=
  .ofList (.ofList [.symbol "lambda", .ofList ((bindings.map Prod.fst).map .symbol), body] ::
    (bindings.map Prod.snd).map .quoted)

section

variable {limit n : Nat} {scope : Scope}

/-! ## One call -/

/-- The call ends as its body does in a frame of the bindings, one level below. -/
theorem evaluate_application (turn : Turn) (resolves : scope.get? "lambda" = some (.native .lambda))
    {bindings : List (String × Value)} (distinct : (bindings.map Prod.fst).Nodup)
    (unmarked : ∀ binding ∈ bindings, restName? binding.1 = none) (body : Value) :
    (evaluate turn (limit + 3) scope (.application bindings body) n).outcome =
      (evaluate turn (limit + 2) (bindings :: scope) body (n + 1)).outcome := by
  have names : ∀ name ∈ bindings.map Prod.fst, restName? name = none := by
    intro name member
    obtain ⟨binding, hb, rfl⟩ := List.mem_map.mp member
    exact unmarked binding hb
  have built := turn.build_of_described (Params.ofValue_unmarked (limit + 1) distinct names)
    .function scope body n
  have frame : (⟨bindings.map Prod.fst, none⟩ : Params).bind? (bindings.map Prod.snd) =
      some bindings := by
    have zipped : (bindings.map Prod.fst).zip (bindings.map Prod.snd) = bindings := by
      rw [← List.unzip_fst, ← List.unzip_snd, List.zip_unzip]
    rw [Params.bind?_fixed _ (by simp), zipped]
  have call : Value.application bindings body = .writtenCall .function
      (.ofList ((bindings.map Prod.fst).map .symbol)) body ((bindings.map Prod.snd).map .quoted) :=
    rfl
  rw [call, evaluate_writtenCall, evaluate_written resolves, Action.bind_of_ok built]
  dsimp only
  rw [callOperator_compound_function, Call.enter_eq, frame]

end

/-! ## Two ways to bind -/

theorem lookup_eq_some_iff_of_nodup {bindings : List (String × Value)}
    (distinct : (bindings.map Prod.fst).Nodup) {name : String} {value : Value} :
    bindings.lookup name = some value ↔ (name, value) ∈ bindings := by
  induction bindings with
  | nil => simp
  | cons binding bindings ih =>
      obtain ⟨key, bound⟩ := binding
      rw [List.map_cons, List.nodup_cons] at distinct
      rw [List.lookup_cons, List.mem_cons]
      by_cases same : name = key
      · subst same
        have absent : (name, value) ∉ bindings := fun member =>
          distinct.1 (List.mem_map.mpr ⟨(name, value), member, rfl⟩)
        simp [absent, eq_comm]
      · have other : (name == key) = false := by simpa using same
        rw [other, ih distinct.2]
        simp [same]

theorem lookup_eq_of_perm {bindings order : List (String × Value)} (perm : order.Perm bindings)
    (distinct : (bindings.map Prod.fst).Nodup) (name : String) :
    order.lookup name = bindings.lookup name := by
  have distinct' : (order.map Prod.fst).Nodup := (perm.map Prod.fst).nodup_iff.mpr distinct
  apply Option.ext
  intro value
  rw [lookup_eq_some_iff_of_nodup distinct', lookup_eq_some_iff_of_nodup distinct, perm.mem_iff]

namespace Session

/-- One frame of bindings means the same as a frame for each of them, in any order. -/
theorem get?_bindAll {bindings order : List (String × Value)} (session : Session)
    (perm : order.Perm bindings) (distinct : (bindings.map Prod.fst).Nodup) (name : String) :
    Scope.get? (bindings :: session.scope) name = (session.bindAll order).scope.get? name := by
  have backwards : order.reverse.Perm bindings := (List.reverse_perm order).trans perm
  rw [bindAll_eq, get?_framesOf, lookup_eq_of_perm backwards distinct]
  rfl

/-- Binding by a call and binding by the host agree: the call of a function where it is written ends
as its body does after the same bindings, in any order. The call builds one callable more and nests
one level deeper. -/
theorem application_ends_as_bindings (session : Session) (bindings order : List (String × Value))
    (body : Value) (resolves : session.scope.get? "lambda" = some (.native .lambda))
    (distinct : (bindings.map Prod.fst).Nodup)
    (unmarked : ∀ binding ∈ bindings, restName? binding.1 = none) (perm : order.Perm bindings)
    (number number' n n' : Nat) :
    let turn : Turn := ⟨number, session.verbose⟩
    let turn' : Turn := ⟨number', session.verbose⟩
    (∀ limit, Outcome.Alike (turn.SameInStep (n + 1) turn' n')
      (evaluate turn (limit + 3) session.scope (.application bindings body) n).outcome
      (evaluate turn' (limit + 2) (session.bindAll order).scope body n').outcome) ∧
    ∀ limit limit',
      (evaluate turn limit session.scope (.application bindings body) n).outcome =
          .error .overflow ∨
        (evaluate turn' limit' (session.bindAll order).scope body n').outcome = .error .overflow ∨
        Outcome.Alike (turn.SameInStep (n + 1) turn' n')
          (evaluate turn limit session.scope (.application bindings body) n).outcome
          (evaluate turn' limit' (session.bindAll order).scope body n').outcome := by
  intro turn turn'
  have level (limit : Nat) : Outcome.Alike (turn.SameInStep (n + 1) turn' n')
      (evaluate turn (limit + 3) session.scope (.application bindings body) n).outcome
      (evaluate turn' (limit + 2) (session.bindAll order).scope body n').outcome := by
    rw [evaluate_application turn resolves distinct unmarked body]
    exact evaluate_ends_in_step turn turn' rfl (limit + 2)
      (session.get?_bindAll perm distinct) body (n + 1) n'
  refine ⟨level, fun limit limit' => ?_⟩
  rcases approximates_evaluate turn (Nat.le_add_right limit 3) session.scope
    (.application bindings body) n with exceeded | same
  · exact .inl exceeded
  · rw [same]
    rcases evaluate_limits turn' (limit + 2) limit' (session.bindAll order).scope body n' with
      exceeded | exceeded | equal
    · exact .inl ((level limit).overflow_iff.mpr exceeded)
    · exact .inr (.inl exceeded)
    · exact .inr (.inr (equal ▸ level limit))

/-- The body builds a function that looks up one of the names; the session binds them the other way
round. -/
theorem application_ends_as_bindings_of_closure :
    let session : Session := {}
    let body : Value := .ofList [.symbol "cons", .symbol "x",
      .ofList [.symbol "lambda", .nil, .symbol "y"]]
    let call := Value.application [("x", .symbol "a"), ("y", .nil)] body
    let there := ((session.bind "y" .nil).bind "x" (.symbol "a")).scope
    (evaluate {} 4 builtin call 0).outcome.toOption.map Value.text = some "(a . #<function>)" ∧
      Outcome.Alike (Turn.SameInStep {} 1 ⟨1, false⟩ 0) (evaluate {} 4 builtin call 0).outcome
        (evaluate ⟨1, false⟩ 3 there body 0).outcome := by
  intro session body call there
  have ends := application_ends_as_bindings session [("x", .symbol "a"), ("y", .nil)]
    [("y", .nil), ("x", .symbol "a")] body rfl (by decide) (by simp; decide) (.swap _ _ _) 0 1 0 0
  exact ⟨by rfl, ends.1 1⟩

end Session

end MiniLisp
