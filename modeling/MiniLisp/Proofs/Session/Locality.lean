import MiniLisp.Proofs.Eval.Locality
import MiniLisp.Proofs.Reader.Spacing
import MiniLisp.Proofs.Session.Limits
import MiniLisp.Proofs.Session.Safety

/-! # What a session can see of its bindings

The reply to a line depends on the scope of the session only through the names that the line and the
values bound to such names mention. So a binding of any other name, the order in which different
names are bound, and bindings that a later one shadows make no difference to it.
-/

namespace MiniLisp

/-! ## Replies -/

section

variable {limit : Nat} {scope scope' : Scope} {names : String → Prop}

/-- Scopes that bind the known names to the same values make a text with no other names end alike. -/
theorem interpret_ends_alike (turn : Turn) {code : String}
    (written : ∀ name, ⟨.symbol, name⟩ ∈ Token.scanText code → names name)
    (agree : ∀ name, names name → scope.get? name = scope'.get? name ∧
      ∀ value, scope.get? name = some value → ∀ other, value.Mentions other → names other) :
    Outcome.Alike (turn.SameSince 0) (interpret turn limit scope code 0).outcome
      (interpret turn limit scope' code 0).outcome := by
  let sight := Sight.ofNames names
  have symbols : ∀ token ∈ Token.scanText code, token.kind = .symbol →
      sight.known (.symbol token.text) := by
    rintro ⟨kind, text⟩ member rfl name mentioned
    cases mentioned
    exact written text member
  have contents := Reader.parse_all limit sight.hereditary symbols
  have read : (Action.ofExcept (Reader.parse limit code)).Matches sight (.inStep turn turn rfl 0 0)
      (fun expr expr' => expr = expr' ∧ sight.known expr)
      (Action.ofExcept (Reader.parse limit code)) := by
    cases h : Reader.parse limit code with
    | error reason => exact Action.matches_stop (.same _)
    | ok expr =>
        rw [h] at contents
        exact Action.matches_pure ⟨rfl, contents⟩
  have matched : (interpret turn limit scope code).Matches sight (.inStep turn turn rfl 0 0)
      (sight.Links (.inStep turn turn rfl 0 0)) (interpret turn limit scope' code) := by
    unfold interpret
    refine read.bind fun expr _ ⟨same, known⟩ => ?_
    subst same
    refine (matches_notice rfl).bind fun _ _ _ => ?_
    exact respects_evaluate sight (.inStep turn turn rfl 0 0) limit scope scope' expr expr
      (.same known) (Scope.agree_of_get?_eq agree)
  have ends := matched 0 0 ⟨0, rfl, rfl⟩ fun _ _ => trivial
  exact ends.outcome.mono fun _ _ => sameSince_of_links

/-- Outcomes that are alike are answered with the same text. -/
theorem Session.replyOf_eq {turn : Turn} {outcome outcome' : Except Stop Value}
    (h : Outcome.Alike (turn.SameSince 0) outcome outcome') :
    replyOf (outcome.bind (Value.textWithin limit)) =
      replyOf (outcome'.bind (Value.textWithin limit)) := by
  cases h with
  | @ok v v' same =>
      have printed : v.textWithin limit = v'.textWithin limit := by
        rw [Value.textWithin, Value.textWithin, same.1.textDepth_eq, same.2]
      exact congrArg replyOf printed
  | error stops =>
      cases stops with
      | same => rfl
      | @error error error' kind message =>
          have line : error.line = error'.line := by rw [Error.line, Error.line, kind, message]
          exact congrArg Except.ok line

theorem Session.evalLine_of_agree (session : Session) (names : String → Prop) {line : String}
    (written : ∀ name, ⟨.symbol, name⟩ ∈ Token.scanText line → names name)
    (agree : ∀ name, names name → scope.get? name = scope'.get? name ∧
      ∀ value, scope.get? name = some value → ∀ other, value.Mentions other → names other) :
    (({ session with scope := scope } : Session).evalLine line).1.outcome =
      (({ session with scope := scope' } : Session).evalLine line).1.outcome := by
  by_cases blank : Text.strip line = ""
  · simp [evalLine, blank]
  · rw [evalLine_eq_replyOf _ blank, evalLine_eq_replyOf _ blank]
    rw [← Token.scanText_strip] at written
    exact replyOf_eq (interpret_ends_alike ⟨session.turn, session.verbose⟩ written agree)

theorem Session.evalLine_of_get?_eq (session : Session) (line : String)
    (same : ∀ name, scope.get? name = scope'.get? name) :
    (({ session with scope := scope } : Session).evalLine line).1.outcome =
      (({ session with scope := scope' } : Session).evalLine line).1.outcome :=
  session.evalLine_of_agree (fun _ => True) (fun _ _ => trivial)
    fun name _ => ⟨same name, fun _ _ _ _ => trivial⟩

end

/-! ## Bindings -/

namespace Session

def bindAll (session : Session) (bindings : List (String × Value)) : Session :=
  bindings.foldl (fun session binding => session.bind binding.1 binding.2) session

def framesOf (bindings : List (String × Value)) (scope : Scope) : Scope :=
  bindings.reverse.map (fun binding => [binding]) ++ scope

theorem bindAll_eq (bindings : List (String × Value)) :
    ∀ session : Session, session.bindAll bindings =
      { session with scope := framesOf bindings session.scope } := by
  induction bindings with
  | nil => exact fun _ => rfl
  | cons binding bindings ih =>
      intro session
      have frames : framesOf bindings ([binding] :: session.scope) =
          framesOf (binding :: bindings) session.scope := by simp [framesOf]
      rw [← frames]
      exact ih (session.bind binding.1 binding.2)

theorem bindAll_bind_eq (session : Session) (name : String) (value : Value)
    (later : List (String × Value)) : (session.bind name value).bindAll later =
      { session with scope := framesOf later ([(name, value)] :: session.scope) } :=
  bindAll_eq later (session.bind name value)

theorem get?_framesOf (bindings : List (String × Value)) (scope : Scope) (name : String) :
    (framesOf bindings scope).get? name =
      (bindings.reverse.lookup name).or (scope.get? name) := by
  unfold framesOf
  induction bindings.reverse with
  | nil => rfl
  | cons binding bindings ih =>
      rw [← List.singleton_append, List.lookup_append, Option.or_assoc, ← ih]
      rfl

theorem get?_bind_of_ne {name other : String} (apart : other ≠ name) (value : Value)
    (scope : Scope) : Scope.get? ([(name, value)] :: scope) other = scope.get? other := by
  have missed : Frame.get? [(name, value)] other = none := by
    rw [Frame.get?, List.lookup_eq_none_iff]
    simpa using apart
  rw [Scope.get?, missed, Option.none_or]

/-- What a name is bound to is decided by the bindings of that name. -/
theorem lookup_eq_head_filter (bindings : List (String × Value)) (name : String) :
    bindings.lookup name =
      (bindings.filter fun binding => binding.1 = name).head?.map Prod.snd := by
  induction bindings with
  | nil => rfl
  | cons binding bindings ih =>
      obtain ⟨key, value⟩ := binding
      by_cases hk : key = name
      · simp [hk]
      · have other : (name == key) = false := by simp [Ne.symm hk]
        rw [List.lookup_cons, other, ih]
        simp [hk]

theorem evalLine_bind_fresh (session : Session) {name line : String} (value : Value)
    {later : List (String × Value)} (unwritten : ⟨.symbol, name⟩ ∉ Token.scanText line)
    (unmentioned : ¬ (session.bindAll later).scope.Mentions name) :
    (((session.bind name value).bindAll later).evalLine line).1.outcome =
      ((session.bindAll later).evalLine line).1.outcome := by
  rw [bindAll_eq] at unmentioned
  rw [bindAll_bind_eq, bindAll_eq]
  -- The names met are those of the line and those mentioned in the scope without the binding.
  refine Eq.symm (session.evalLine_of_agree (fun other => ⟨.symbol, other⟩ ∈ Token.scanText line ∨
    (framesOf later session.scope).Mentions other) (fun _ => .inl) fun other met => ⟨?_, ?_⟩)
  · have apart : other ≠ name := by
      rintro rfl
      rcases met with token | mentioned
      · exact unwritten token
      · exact unmentioned mentioned
    rw [get?_framesOf, get?_framesOf, get?_bind_of_ne apart]
  · have bound : (framesOf later session.scope).All fun v => ∀ third, v.Mentions third →
        (framesOf later session.scope).Mentions third :=
      fun frame hf binding hb third mentioned => ⟨frame, hf, binding, hb, mentioned⟩
    exact fun v hv third mentioned => .inr (bound.get? hv third mentioned)

theorem evalLine_bind_order (session : Session) {bindings bindings' : List (String × Value)}
    (same : ∀ name, (bindings.filter fun binding => binding.1 = name) =
      bindings'.filter fun binding => binding.1 = name) (line : String) :
    ((session.bindAll bindings).evalLine line).1.outcome =
      ((session.bindAll bindings').evalLine line).1.outcome := by
  rw [bindAll_eq, bindAll_eq]
  refine session.evalLine_of_get?_eq line fun name => ?_
  rw [get?_framesOf, get?_framesOf, lookup_eq_head_filter, lookup_eq_head_filter,
    List.filter_reverse, List.filter_reverse, same]

theorem evalLine_bind_shadowed (session : Session) {name : String} (old : Value)
    {later : List (String × Value)} (shadowed : name ∈ later.map Prod.fst) (line : String) :
    (((session.bind name old).bindAll later).evalLine line).1.outcome =
      ((session.bindAll later).evalLine line).1.outcome := by
  rw [bindAll_bind_eq, bindAll_eq]
  refine session.evalLine_of_get?_eq line fun other => ?_
  rw [get?_framesOf, get?_framesOf]
  by_cases same : other = name
  · subst same
    have found : (later.reverse.lookup other).isSome = true := by
      rw [Option.isSome_iff_ne_none]
      intro missed
      obtain ⟨binding, member, rfl⟩ := List.mem_map.mp shadowed
      have apart := List.lookup_eq_none_iff.mp missed binding (List.mem_reverse.mpr member)
      simp at apart
    rw [Option.or_of_isSome found, Option.or_of_isSome found]
  · rw [get?_bind_of_ne same]

end Session

/-- Evaluation depends on a scope only through the names that it can meet. So the reply to a line
ignores bindings of other names, the order of bindings of different names, and bindings that a later
one shadows. -/
theorem Session.only_met_names_matter :
    (∀ (turn : Turn) (limit n : Nat) (scope scope' : Scope) (expr : Value)
        (names : String → Prop), (∀ name, expr.Mentions name → names name) →
      (∀ name, names name → scope.get? name = scope'.get? name ∧
        ∀ value, scope.get? name = some value → ∀ other, value.Mentions other → names other) →
      Outcome.Alike (turn.SameSince n) (evaluate turn limit scope expr n).outcome
        (evaluate turn limit scope' expr n).outcome) ∧
    (∀ (session : Session) (name line : String) (value : Value) (later : List (String × Value)),
      ⟨.symbol, name⟩ ∉ Token.scanText line → ¬ (session.bindAll later).scope.Mentions name →
      (((session.bind name value).bindAll later).evalLine line).1.outcome =
        ((session.bindAll later).evalLine line).1.outcome) ∧
    (∀ (session : Session) (bindings bindings' : List (String × Value)) (line : String),
      (∀ name, (bindings.filter fun binding => binding.1 = name) =
        bindings'.filter fun binding => binding.1 = name) →
      ((session.bindAll bindings).evalLine line).1.outcome =
        ((session.bindAll bindings').evalLine line).1.outcome) ∧
    ∀ (session : Session) (name line : String) (old : Value) (later : List (String × Value)),
      name ∈ later.map Prod.fst →
      (((session.bind name old).bindAll later).evalLine line).1.outcome =
        ((session.bindAll later).evalLine line).1.outcome := by
  refine ⟨fun turn limit n scope scope' expr names known agree => ?_,
    fun session name line value later unwritten unmentioned => ?_,
    fun session bindings bindings' line same => ?_, fun session name line old later shadowed => ?_⟩
  · exact evaluate_ends_alike (.ofNames names) known agree fun _ _ => trivial
  · exact session.evalLine_bind_fresh value unwritten unmentioned
  · exact session.evalLine_bind_order same line
  · exact session.evalLine_bind_shadowed old shadowed line

theorem Scope.not_mentions_builtin (name : String) : ¬ builtin.Mentions name := by
  rintro ⟨frame, hf, binding, hb, mentioned⟩
  rw [builtin, List.mem_singleton] at hf
  subst hf
  rcases List.mem_cons.mp hb with rfl | hb
  · cases mentioned
  · obtain ⟨op, _, rfl⟩ := List.mem_map.mp hb
    cases mentioned

/-- A form that produces its operand is called; a name that is not met is bound beside it, and
bindings are swapped and shadowed. -/
theorem Session.only_met_names_matter_of_expansion :
    let form : Value := .compound .form ⟨0, 0⟩ [] ⟨["code"], none⟩ (.symbol "code")
    let session := ({} : Session).bind "run" form
    let call : Value := .ofList [.symbol "run", .symbol "nil"]
    Outcome.Alike (Turn.SameSince {} 0) (evaluate {} 3 session.scope call 0).outcome
        (evaluate {} 3 ([("other", .symbol "x")] :: session.scope) call 0).outcome ∧
      (((session.bind "other" (.symbol "x")).bindAll []).evalLine "(run nil)").1.outcome =
        ((session.bindAll []).evalLine "(run nil)").1.outcome ∧
      ((session.bindAll [("a", .nil), ("b", form)]).evalLine "(b a)").1.outcome =
        ((session.bindAll [("b", form), ("a", .nil)]).evalLine "(b a)").1.outcome ∧
      (((session.bind "a" form).bindAll [("a", .nil)]).evalLine "(run a)").1.outcome =
        ((session.bindAll [("a", .nil)]).evalLine "(run a)").1.outcome := by
  intro form session call
  obtain ⟨evaluated, fresh, order, shadow⟩ := Session.only_met_names_matter
  have inForm : ∀ name, (Value.compound .form ⟨0, 0⟩ [] ⟨["code"], none⟩
      (.symbol "code")).Mentions name → name = "code" := by
    intro name mentioned
    cases mentioned with
    | formal member => exact List.mem_singleton.mp member
    | body body => cases body; rfl
    | captured frame => cases frame
  have inCall : ∀ name, (Value.ofList [.symbol "run", .symbol "nil"]).Mentions name →
      name = "run" ∨ name = "nil" := by
    intro name mentioned
    cases mentioned with
    | left head => cases head; exact .inl rfl
    | right tail =>
        cases tail with
        | left head => cases head; exact .inr rfl
        | right tail => cases tail
  have unmet : ¬ session.scope.Mentions "other" := by
    rintro ⟨frame, hf, binding, hb, mentioned⟩
    rcases List.mem_cons.mp hf with rfl | hf
    · rw [List.mem_singleton] at hb
      subst hb
      exact absurd (inForm _ mentioned) (by decide)
    · exact Scope.not_mentions_builtin _ ⟨frame, hf, binding, hb, mentioned⟩
  refine ⟨evaluated {} 3 0 session.scope _ call
      (fun name => name = "run" ∨ name = "nil" ∨ name = "code") ?_ ?_,
    fresh session "other" "(run nil)" (.symbol "x") [] (by decide) unmet,
    order session [("a", .nil), ("b", form)] [("b", form), ("a", .nil)] "(b a)" ?_,
    shadow session "a" "(run a)" form [("a", .nil)] (by decide)⟩
  · intro name mentioned
    rcases inCall name mentioned with rfl | rfl
    · exact .inl rfl
    · exact .inr (.inl rfl)
  · rintro name (rfl | rfl | rfl)
    · refine ⟨rfl, fun value found other mentioned => ?_⟩
      cases found
      exact .inr (.inr (inForm other mentioned))
    · refine ⟨rfl, fun value found other mentioned => ?_⟩
      cases found
      cases mentioned
    · refine ⟨rfl, fun value found other mentioned => ?_⟩
      cases found
  · intro name
    by_cases ha : "a" = name
    · subst ha
      rfl
    · by_cases hb : "b" = name
      · subst hb
        rfl
      · simp [ha, hb]

end MiniLisp
