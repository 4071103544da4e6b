import MiniLisp.Console.Basic
import MiniLisp.Proofs.Call.Formals
import MiniLisp.Proofs.Eval.Preservation
import MiniLisp.Proofs.Reader.Contents
import MiniLisp.Scope.Keyed

/-! # Sessions never break

A value is regular when no stub occurs in it, also not in what its callables have captured, and each
user-defined callable has parameters that a list of formals describes. A session that grows from the
builtin scope by bindings of regular values answers every text with a regular value or an error, and
every line with a reply; a conversation therefore goes on to its end.
-/

namespace MiniLisp

/-! ## Keys -/

theorem Frame.insert_of_notMem {frame : Frame} {name : String} (value : Value)
    (h : name ∉ Frame.names frame) : Frame.insert frame name value = frame ++ [(name, value)] := by
  induction frame with
  | nil => rfl
  | cons binding frame ih =>
      simp only [Frame.names, List.map_cons, List.mem_cons, not_or] at h
      have hne : binding.1 ≠ name := fun same => h.1 same.symm
      rw [Frame.insert, if_neg hne, ih h.2]
      rfl

theorem Frame.foldl_insert (frame : Frame) :
    ∀ before : Frame, (Frame.names (before ++ frame)).Nodup →
      frame.foldl (fun made binding => Frame.insert made binding.1 binding.2) before =
        before ++ frame := by
  -- The bindings made so far grow to the right while the rest shrinks.
  induction frame with
  | nil => intro before _; simp
  | cons binding frame ih =>
      intro before nodup
      have fresh : binding.1 ∉ Frame.names before := by
        simp only [Frame.names, List.map_append, List.map_cons] at nodup
        exact fun member => (List.nodup_append.mp nodup).2.2 _ member _ (by simp) rfl
      rw [List.foldl_cons, Frame.insert_of_notMem _ fresh, ih]
      · simp
      · simpa using nodup

/-- A frame whose keys a scope takes as they are. -/
def Frame.Admitted (frame : Frame) : Prop :=
  ∀ limit, Frame.ofKeyed (limit + 1) (frame.map fun binding => (.symbol binding.1, binding.2)) =
    .ok frame

theorem Frame.keyed_symbols (frame : Frame) :
    Frame.keyed (frame.map fun binding => (.symbol binding.1, binding.2)) = .ok frame := by
  induction frame with
  | nil => rfl
  | cons binding frame ih =>
      rw [List.map_cons, Frame.keyed, ih]
      rfl

theorem Frame.admitted_of_nodup {frame : Frame} (h : (Frame.names frame).Nodup) :
    frame.Admitted := by
  intro limit
  have keys : (frame.map fun binding => (Value.symbol binding.1, binding.2)).forM
      (fun binding => discard (binding.1.asKey (limit + 1))) = Except.ok () := by
    induction frame with
    | nil => rfl
    | cons binding frame ih => exact ih (List.nodup_cons.mp h).2
  have made := Frame.foldl_insert frame [] h
  unfold Frame.ofKeyed
  rw [keys, Frame.keyed_symbols]
  exact congrArg Except.ok made

/-! ## Regular values -/

/-- A value without stubs, also in bodies and captured scopes, whose user-defined callables have
parameters that formals describe. -/
inductive Value.Regular : Value → Prop
  | nil : Regular .nil
  | symbol (name : String) : Regular (.symbol name)
  | quoted {inner : Value} : Regular inner → Regular (.quoted inner)
  | cell {left right : Value} : Regular left → Regular right → Regular (.cell left right)
  | number (n : Int) : Regular (.number n)
  | native (op : Native) : Regular (.native op)
  | compound (kind : CallKind) (birth : Birth) {scope : Scope} {params : Params} {body : Value} :
      params.Formed → (∀ frame ∈ scope, ∀ binding ∈ frame, Regular binding.2) → Regular body →
      Regular (.compound kind birth scope params body)
  | probe (birth : Birth) (p : Probe) {answer : Value} : Regular answer →
      Regular (.probe birth p answer)

theorem Value.hereditary_regular : Hereditary Value.Regular where
  nil := .nil
  cell left right :=
    ⟨fun h => by cases h with | cell hl hr => exact ⟨hl, hr⟩, fun h => .cell h.1 h.2⟩
  quoted inner := ⟨fun h => by cases h with | quoted hi => exact hi, .quoted⟩
  parts kind birth scope params body h := by
    cases h with | compound _ _ _ hs hb => exact ⟨hs, hb⟩
  answer birth p answer h := by cases h with | probe _ _ ha => exact ha
  build limit kind birth scope formals params body hp _ hs hb :=
    .compound kind birth (Params.formed_of_ofValue hp) hs hb

/-- A stop of regular values is an error or an overflow. -/
theorem Stop.Grounded.settle {reason : Stop} (h : reason.Grounded Value.Regular) :
    ∃ error, reason.settle = .error error := by
  cases reason with
  | error error => exact ⟨error, rfl⟩
  | overflow => exact ⟨.tooDeep, rfl⟩
  | noRule kind shape =>
      obtain ⟨_, _, stub⟩ := h
      cases stub

/-! ## Sessions -/

/-- The scopes that a session has: the builtin one, extended by bindings of regular values. -/
inductive Scope.Grown : Scope → Prop
  | builtin : Grown builtin
  | bind {scope : Scope} (name : String) {value : Value} : Grown scope → value.Regular →
      Grown ([(name, value)] :: scope)

theorem Scope.Grown.regular {scope : Scope} (h : scope.Grown) :
    Scope.All Value.Regular scope := by
  induction h with
  | builtin =>
      intro frame hf binding hb
      rw [MiniLisp.builtin, List.mem_singleton] at hf
      subst hf
      rcases List.mem_cons.mp hb with rfl | hb
      · exact .nil
      · obtain ⟨op, _, rfl⟩ := List.mem_map.mp hb
        exact .native op
  | bind name _ hv ih =>
      refine Scope.All.cons (fun binding member => ?_) ih
      rw [List.mem_singleton] at member
      rw [member]
      exact hv

theorem Scope.Grown.admitted {scope : Scope} (h : scope.Grown) :
    ∀ frame ∈ scope, Frame.Admitted frame := by
  induction h with
  | builtin =>
      intro frame hf
      rw [MiniLisp.builtin, List.mem_singleton] at hf
      subst hf
      exact Frame.admitted_of_nodup (by decide)
  | bind name _ _ ih =>
      exact List.forall_mem_cons.mpr ⟨Frame.admitted_of_nodup (by simp [Frame.names]), ih⟩

theorem Value.Regular.admits {kind : CallKind} {birth : Birth} {scope : Scope} {params : Params}
    {body : Value} {args : List Value} (h : (Value.compound kind birth scope params body).Regular)
    (accepted : params.arity.accepts args.length = true) :
    ∃ frame, params.bind? args = some frame ∧ Frame.Admitted frame := by
  rw [← Params.bind?_isSome] at accepted
  obtain ⟨frame, hf⟩ := Option.isSome_iff_exists.mp accepted
  refine ⟨frame, hf, Frame.admitted_of_nodup ?_⟩
  cases h with
  | compound _ _ formed _ _ =>
      obtain ⟨formals, hw⟩ := formed
      rw [Params.names_of_bind? hf]
      exact (Params.ofWritten_eq_ok hw).2

/-- Reading and evaluating a text carry a hereditary predicate from its symbols to its value. -/
theorem meets_interpret {good : Value → Prop} (hg : Hereditary good) (turn : Turn) (limit : Nat)
    {scope : Scope} (code : String) (hs : scope.All good)
    (ht : ∀ token ∈ Token.scanText code, token.kind = .symbol → good (.symbol token.text)) :
    (interpret turn limit scope code).Meets good (Stop.Grounded good) := by
  have contents := Reader.parse_all limit hg ht
  have read : (Action.ofExcept (Reader.parse limit code)).Meets good (Stop.Grounded good) := by
    refine Action.meets_ofExcept (fun expr h => ?_) fun reason h => ?_
    · rwa [h] at contents
    · rwa [h] at contents
  unfold interpret
  refine read.bind fun expr hx => (meets_notice _ _).bind fun _ _ => ?_
  exact keeps_evaluate hg turn limit scope expr hs hx

namespace Session

/-- What a hereditary predicate says of the outcome of an evaluation. -/
theorem eval_meets {good : Value → Prop} (hg : Hereditary good) (session : Session) (code : String)
    (hs : session.scope.All good)
    (ht : ∀ token ∈ Token.scanText code, token.kind = .symbol → good (.symbol token.text)) :
    match (session.eval code).1.outcome with
    | .ok value => good value
    | .error reason => ∃ cause : Stop, cause.Grounded good ∧ reason = cause.settle := by
  have h := meets_interpret hg ⟨session.turn, session.verbose⟩ session.limit code hs ht 0
  rw [eval]
  dsimp only
  split at h
  · rename_i value ho
    rw [ho]
    exact h
  · rename_i cause ho
    rw [ho]
    exact ⟨cause, h, rfl⟩

theorem eval_outcome (session : Session) (grown : session.scope.Grown) (code : String) :
    (∃ value, (session.eval code).1.outcome = .ok value ∧ value.Regular) ∨
      ∃ error, (session.eval code).1.outcome = .error (.error error) := by
  have h := session.eval_meets Value.hereditary_regular code grown.regular
    fun token _ _ => .symbol token.text
  cases ho : (session.eval code).1.outcome with
  | ok value =>
      rw [ho] at h
      exact .inl ⟨value, rfl, h⟩
  | error reason =>
      rw [ho] at h
      obtain ⟨cause, grounded, rfl⟩ := h
      obtain ⟨error, settled⟩ := grounded.settle
      exact .inr ⟨error, congrArg Except.error settled⟩

theorem evalLine_of_error (session : Session) {line : String} {error : Error}
    (nonblank : Text.strip line ≠ "")
    (h : (session.eval (Text.strip line)).1.outcome = .error (.error error)) :
    (session.evalLine line).1.outcome = .ok error.line := by
  have filled : (Text.strip line).isEmpty = false := by simpa using nonblank
  unfold evalLine
  simp [filled, h, Except.bind]

/-- The reply to a line with a result is the text of the result, unless that nests too deep. -/
theorem evalLine_of_value (session : Session) {line : String} {value : Value}
    (nonblank : Text.strip line ≠ "")
    (h : (session.eval (Text.strip line)).1.outcome = .ok value) :
    ((session.evalLine line).1.outcome = .ok value.text ∧ value.textDepth ≤ session.limit) ∨
      ((session.evalLine line).1.outcome = .ok Error.tooDeep.line ∧
        session.limit < value.textDepth) := by
  have filled : (Text.strip line).isEmpty = false := by simpa using nonblank
  unfold evalLine
  by_cases room : value.textDepth ≤ session.limit
  · have printed : session.print value = .ok value.text := by
      rw [print, Value.textWithin, if_pos room]
      rfl
    refine .inl ⟨?_, room⟩
    simp [filled, h, Except.bind, printed]
  · have printed : session.print value = .error (.error .tooDeep) := by
      rw [print, Value.textWithin, if_neg room]
      rfl
    refine .inr ⟨?_, by omega⟩
    simp [filled, h, Except.bind, printed]

theorem evalLine_outcome (session : Session) (grown : session.scope.Grown) (line : String) :
    ∃ reply, (session.evalLine line).1.outcome = .ok reply := by
  by_cases blank : Text.strip line = ""
  · refine ⟨"", ?_⟩
    simp [evalLine, blank]
  · rcases session.eval_outcome grown (Text.strip line) with ⟨value, hv, _⟩ | ⟨error, he⟩
    · rcases session.evalLine_of_value blank hv with ⟨printed, _⟩ | ⟨exceeded, _⟩
      · exact ⟨_, printed⟩
      · exact ⟨_, exceeded⟩
    · exact ⟨_, session.evalLine_of_error blank he⟩

theorem evalLine_scope (session : Session) (line : String) :
    (session.evalLine line).2.scope = session.scope := by
  unfold evalLine eval
  dsimp only
  split
  · rfl
  · split <;> rfl

def answers (session : Session) : List String → List (Except Stop String)
  | [] => []
  | line :: rest => (session.evalLine line).1.outcome :: (session.evalLine line).2.answers rest

end Session

namespace Dialogue

theorem hold_of_evalLine {session next : Session} {line reply : String} {events : List Event}
    {built : Nat} (rest : List String) (nonempty : line.isEmpty = false)
    (h : session.evalLine line = (⟨events, built, .ok reply⟩, next)) :
    hold session (line :: rest) =
      { replies := some reply :: (hold next rest).replies
        events := events ++ (hold next rest).events
        brokenBy := (hold next rest).brokenBy } := by
  rw [hold, h]
  simp [nonempty]

/-- A conversation has a reply to every line that is not empty, and is never broken off. -/
theorem hold_outcome (lines : List String) :
    ∀ session : Session, session.scope.Grown →
      (hold session lines).brokenBy = none ∧
        ((hold session lines).replies.filterMap id).map Except.ok =
          session.answers (lines.filter fun line => !line.isEmpty) := by
  induction lines with
  | nil => intro session _; exact ⟨rfl, rfl⟩
  | cons line rest ih =>
      intro session grown
      cases empty : line.isEmpty with
      | true =>
          have later := ih session grown
          rw [List.filter_cons_of_neg (by simp [empty])]
          simpa [hold, empty] using later
      | false =>
          obtain ⟨reply, hr⟩ := session.evalLine_outcome grown line
          have later := ih (session.evalLine line).2 (by rwa [session.evalLine_scope])
          rcases hl : session.evalLine line with ⟨⟨events, built, outcome⟩, next⟩
          rw [hl] at hr later
          cases hr
          rw [List.filter_cons_of_pos (by simp [empty]), hold_of_evalLine rest empty hl,
            Session.answers, hl]
          refine ⟨later.1, ?_⟩
          simpa using later.2

end Dialogue

/-- Host failures are out of reach of a session: evaluation ends with a regular value or an error of
the language, every line has a reply, and every frame that is made has admitted keys. -/
theorem Session.no_host_failure (session : Session) (grown : session.scope.Grown) :
    (∀ code, (∃ value, (session.eval code).1.outcome = .ok value ∧ value.Regular) ∨
        ∃ error, (session.eval code).1.outcome = .error (.error error)) ∧
      (∀ line, ∃ reply, (session.evalLine line).1.outcome = .ok reply) ∧
      (∀ lines ending, ((Dialogue.hold session lines).written ending).map Except.ok =
        session.answers (lines.filter fun line => !line.isEmpty) ++ [.ok ending.marker]) ∧
      (∀ frame ∈ session.scope, Frame.Admitted frame) ∧
      ∀ kind birth scope params body args,
        (Value.compound kind birth scope params body).Regular →
        params.arity.accepts (List.length args) = true →
        ∃ frame, params.bind? args = some frame ∧ Frame.Admitted frame := by
  refine ⟨session.eval_outcome grown, session.evalLine_outcome grown, ?_, grown.admitted, ?_⟩
  · intro lines ending
    obtain ⟨whole, replies⟩ := Dialogue.hold_outcome lines session grown
    rw [Dialogue.written, List.map_append, replies, whole]
    rfl
  · intro kind birth scope params body args regular accepted
    exact regular.admits accepted

/-- A session with a form that collects its operands, called with too few of them. -/
theorem Session.no_host_failure_of_collector :
    let session := ({} : Session).bind "collect"
      (.compound .form ⟨0, 0⟩ builtin ⟨["a"], some "more"⟩ (.symbol "more"))
    session.scope.Grown ∧ ∃ reply, (session.evalLine "(collect)").1.outcome = .ok reply := by
  intro session
  have formed : Params.Formed ⟨["a"], some "more"⟩ := ⟨["a", "*more"], by rfl⟩
  have regular : (Value.compound .form ⟨0, 0⟩ builtin ⟨["a"], some "more"⟩
      (.symbol "more")).Regular :=
    .compound .form ⟨0, 0⟩ formed Scope.Grown.builtin.regular (.symbol "more")
  have grown : session.scope.Grown := .bind "collect" .builtin regular
  exact ⟨grown, (Session.no_host_failure session grown).2.1 "(collect)"⟩

end MiniLisp
