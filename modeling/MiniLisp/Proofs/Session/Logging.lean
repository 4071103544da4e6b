import Mathlib.Data.List.Forall2
import MiniLisp.Proofs.Eval.Notices
import MiniLisp.Proofs.Reader.Acceptance
import MiniLisp.Proofs.Reader.ReadBack
import MiniLisp.Proofs.Session.Limits
import MiniLisp.Proofs.Session.Replies

/-! # What logging does to replies

A log that holds every notice makes evaluation verbose. The notices of a line are written out within
the limit that the line is evaluated with, and the text of a chain nests with its length, so a long
list that is read, evaluated and printed without trouble may be too long to be noticed. Apart from
that the level of the log makes no difference: a reply is the same or says that the line nests too
deep, and with enough room it is the same.
-/

namespace MiniLisp

/-! ## Reading a text and giving notice of it -/

section

variable {turn : Turn} {limit : Nat} {code : String} (scope : Scope)

theorem interpret_of_unread {reason : Stop} (read : Reader.parse limit code = .error reason) :
    interpret turn limit scope code = Action.stop reason := by
  rw [interpret, read]
  rfl

theorem interpret_of_read {expr : Value} (read : Reader.parse limit code = .ok expr) :
    interpret turn limit scope code =
      (turn.notice limit (.parsed expr) expr >>= fun _ => evaluate turn limit scope expr) := by
  rw [interpret, read]
  exact pure_bind expr _

theorem interpret_of_fitting {expr : Value} (read : Reader.parse limit code = .ok expr)
    (room : turn.verbose = true → expr.inspectDepth ≤ limit) (n : Nat) :
    interpret turn limit scope code n =
      ⟨.parsed expr :: (evaluate turn limit scope expr n).events,
        (evaluate turn limit scope expr n).built, (evaluate turn limit scope expr n).outcome⟩ := by
  rw [interpret_of_read scope read, notice_eq_emit room]
  rfl

theorem interpret_of_deep {expr : Value} (read : Reader.parse limit code = .ok expr)
    (verbose : turn.verbose = true) (deep : limit < expr.inspectDepth) :
    interpret turn limit scope code = Action.stop .overflow := by
  rw [interpret_of_read scope read, notice_eq_stop _ verbose deep]
  rfl

end

namespace Session

def aloud (session : Session) : Session := { session with verbose := true }

def silent (session : Session) : Session := { session with verbose := false }

section

variable (session : Session) (code : String)

/-- What it means to a text that its notices are written out: nothing, up to the first notice that
nests deeper than the limit. -/
structure NoticesOnlyOverflow : Prop where
  unread : ∀ reason, Reader.parse session.limit code = .error reason →
    (session.aloud.eval code).1 = (session.silent.eval code).1
  deep : ∀ expr, Reader.parse session.limit code = .ok expr → session.limit < expr.inspectDepth →
    (session.aloud.eval code).1 = ⟨[], 0, .error (.error .tooDeep)⟩
  fitting : ∀ expr, Reader.parse session.limit code = .ok expr →
    expr.inspectDepth ≤ session.limit →
      (session.aloud.eval code).1 = (session.silent.eval code).1 ∨
        (session.aloud.eval code).1.outcome = .error (.error .tooDeep) ∧
          ∃ produced later, (session.silent.eval code).1.events =
            (session.aloud.eval code).1.events ++ .expanded produced :: later
  expansion : ∀ produced, .expanded produced ∈ (session.silent.eval code).1.events →
    session.limit < produced.inspectDepth →
      (session.aloud.eval code).1.outcome = .error (.error .tooDeep)

theorem noticesOnlyOverflow : session.NoticesOnlyOverflow code where
  unread reason read := by
    unfold eval aloud silent
    dsimp only
    rw [interpret_of_unread _ read, interpret_of_unread _ read]
  deep expr read deep := by
    unfold eval aloud
    dsimp only
    rw [interpret_of_deep _ read rfl deep]
    rfl
  fitting expr read room := by
    unfold eval aloud silent
    dsimp only
    rw [interpret_of_fitting _ read (fun _ => room), interpret_of_fitting _ read (by simp)]
    rcases voices_evaluate session.turn session.limit session.scope expr 0 with
      ⟨same, _⟩ | ⟨overflow, produced, later, events⟩
    · rw [same]
      exact .inl rfl
    · refine .inr ⟨congrArg (Except.mapError Stop.settle) overflow, produced, later, ?_⟩
      rw [events]
      rfl
  expansion produced member deeper := by
    unfold eval silent at member
    unfold eval aloud
    dsimp only at member ⊢
    cases read : Reader.parse session.limit code with
    | error reason =>
        rw [interpret_of_unread _ read] at member
        cases member
    | ok expr =>
        rw [interpret_of_fitting _ read (by simp)] at member
        by_cases room : expr.inspectDepth ≤ session.limit
        · rw [interpret_of_fitting _ read (fun _ => room)]
          have evaluated : .expanded produced ∈
              (evaluate ⟨session.turn, false⟩ session.limit session.scope expr 0).events := by
            simpa using member
          have cut := (voices_evaluate session.turn session.limit session.scope expr 0).cutShort
            evaluated deeper
          exact congrArg (Except.mapError Stop.settle) cut.overflow
        · rw [interpret_of_deep _ read rfl (by omega)]
          rfl

/-- A session that writes its notices out gives the same outcome or overflows. -/
theorem eval_aloud :
    (session.aloud.eval code).1.outcome = (session.silent.eval code).1.outcome ∨
      (session.aloud.eval code).1.outcome = .error (.error .tooDeep) := by
  have effect := session.noticesOnlyOverflow code
  cases read : Reader.parse session.limit code with
  | error reason => exact .inl (congrArg Run.outcome (effect.unread reason read))
  | ok expr =>
      by_cases room : expr.inspectDepth ≤ session.limit
      · rcases effect.fitting expr read room with same | ⟨overflow, _⟩
        · exact .inl (congrArg Run.outcome same)
        · exact .inr overflow
      · exact .inr (congrArg Run.outcome (effect.deep expr read (by omega)))

end

/-! ## Replies -/

section

variable {session session' : Session} {line : String}

theorem evalLine_next (session : Session) (line : String) :
    (session.evalLine line).2 =
      { session with turn := session.turn + if (Text.strip line).isEmpty then 0 else 1 } := by
  unfold evalLine eval
  dsimp only
  split
  · rfl
  · split <;> rfl

/-- The reply to a line is settled by what the text of the line evaluates to. -/
theorem evalLine_congr (limit : session.limit = session'.limit)
    (same : (session.eval (Text.strip line)).1.outcome =
      (session'.eval (Text.strip line)).1.outcome) :
    (session.evalLine line).1.outcome = (session'.evalLine line).1.outcome := by
  unfold evalLine
  dsimp only
  split
  · rfl
  · rw [same, show session.print = session'.print by unfold print; rw [limit]]
    split <;> rfl

theorem evalLine_aloud (session : Session) (line : String) :
    (session.aloud.evalLine line).1.outcome = (session.silent.evalLine line).1.outcome ∨
      (session.aloud.evalLine line).1.outcome = .ok Error.tooDeep.line := by
  by_cases blank : Text.strip line = ""
  · exact .inl (by simp [evalLine, blank])
  · rcases session.eval_aloud (Text.strip line) with same | overflow
    · exact .inl (evalLine_congr rfl same)
    · exact .inr (session.aloud.evalLine_of_error blank overflow)

end

end Session

/-! ## Enough room -/

section

open Filter

variable {scope : Scope} {n : Nat}

/-- An evaluation of regular values that does not overflow has a value or fails with an error. -/
theorem exists_finish {turn : Turn} {limit : Nat} {expr : Value} (regular : scope.All Value.Regular)
    (hx : expr.Regular) (settled : (evaluate turn limit scope expr n).outcome ≠ .error .overflow) :
    ∃ finish : Finish Value, evaluate turn limit scope expr n = finish.run := by
  have meets := keeps_evaluate Value.hereditary_regular turn limit scope expr regular hx n
  rcases h : evaluate turn limit scope expr n with ⟨events, built, outcome⟩
  rw [h] at meets settled
  cases outcome with
  | ok value => exact ⟨⟨events, built, .ok value⟩, rfl⟩
  | error reason =>
      cases reason with
      | error error => exact ⟨⟨events, built, .error error⟩, rfl⟩
      | overflow => exact absurd rfl settled
      | noRule kind shape =>
          obtain ⟨_, _, stub⟩ := meets
          cases stub

theorem eventually_evaluate_aloud (number : Nat) {expr : Value}
    (regular : scope.All Value.Regular) (hx : expr.Regular) :
    ∀ᶠ limit in atTop, (evaluate ⟨number, true⟩ limit scope expr n).outcome =
      (evaluate ⟨number, false⟩ limit scope expr n).outcome := by
  by_cases settles : ∃ enough,
      (evaluate ⟨number, false⟩ enough scope expr n).outcome ≠ .error .overflow
  · obtain ⟨enough, settled⟩ := settles
    obtain ⟨finish, ends⟩ := exists_finish regular hx settled
    -- The rules know nothing of notices, and both turns come to what the rules derive.
    have derived := evaluate_sound ⟨number, false⟩ enough scope expr n finish ends
    filter_upwards [derived.eventually true, derived.eventually false] with limit loud quiet
    rw [loud, quiet]
  · push Not at settles
    refine .of_forall fun limit => ?_
    rcases voices_evaluate number limit scope expr n with ⟨same, _⟩ | cut
    · rw [same]
    · rw [cut.overflow, settles limit]

theorem eventually_interpret_aloud (number : Nat) (regular : scope.All Value.Regular)
    (code : String) :
    ∀ᶠ limit in atTop, (interpret ⟨number, true⟩ limit scope code n).outcome =
      (interpret ⟨number, false⟩ limit scope code n).outcome := by
  by_cases settles : ∃ enough, Reader.parse enough code ≠ .error .overflow
  · obtain ⟨enough, settled⟩ := settles
    have steady : ∀ limit, enough ≤ limit → Reader.parse limit code = Reader.parse enough code :=
      fun limit more => ((Reader.parse_limits more code).resolve_left settled).symm
    cases read : Reader.parse enough code with
    | error reason =>
        filter_upwards [eventually_ge_atTop enough] with limit more
        have unread := (steady limit more).trans read
        rw [interpret_of_unread scope unread, interpret_of_unread scope unread]
    | ok expr =>
        have contents := Reader.parse_all enough Value.hereditary_regular
          fun token (_ : token ∈ Token.scanText code) _ => .symbol token.text
        rw [read] at contents
        filter_upwards [eventually_ge_atTop enough, eventually_ge_atTop expr.inspectDepth,
          eventually_evaluate_aloud number regular contents] with limit more room same
        have reads := (steady limit more).trans read
        rw [interpret_of_fitting scope reads (fun _ => room),
          interpret_of_fitting scope reads (by simp)]
        exact same
  · push Not at settles
    refine .of_forall fun limit => ?_
    rw [interpret_of_unread scope (settles limit), interpret_of_unread scope (settles limit)]

/-- With enough room the reply to a line is the same whether or not notices are written out. -/
theorem Session.eventually_evalLine_aloud (session : Session) (grown : session.scope.Grown)
    (line : String) :
    ∀ᶠ limit in atTop,
      (({ session with limit } : Session).aloud.evalLine line).1.outcome =
        (({ session with limit } : Session).silent.evalLine line).1.outcome := by
  filter_upwards [eventually_interpret_aloud session.turn grown.regular (Text.strip line)]
    with limit same
  refine evalLine_congr rfl ?_
  unfold eval aloud silent
  dsimp only
  rw [same]

end

/-! ## Conversations -/

namespace Dialogue

theorem replies_cons_of_empty (session : Session) {line : String} (empty : line.isEmpty = true)
    (rest : List String) :
    (hold session (line :: rest)).replies = none :: (hold session rest).replies := by
  rw [hold, if_pos empty]

/-- In a session that grows from the builtin scope, the reply to a line comes before those to the
lines behind it. -/
theorem replies_cons (session : Session) (grown : session.scope.Grown) {line : String}
    (nonempty : line.isEmpty = false) (rest : List String) :
    ∃ reply, (session.evalLine line).1.outcome = .ok reply ∧
      (hold session (line :: rest)).replies =
        some reply :: (hold (session.evalLine line).2 rest).replies := by
  obtain ⟨reply, outcome⟩ := session.evalLine_outcome grown line
  rcases whole : session.evalLine line with ⟨⟨events, built, result⟩, next⟩
  rw [whole] at outcome
  cases outcome
  exact ⟨reply, rfl, by rw [hold_of_evalLine rest nonempty whole]⟩

/-- Line by line, writing notices out changes a reply at most to the message of an overflow. -/
theorem hold_aloud (lines : List String) :
    ∀ session : Session, session.scope.Grown →
      List.Forall₂ (fun loud quiet => loud = quiet ∨ loud = some Error.tooDeep.line)
        (hold session.aloud lines).replies (hold session.silent lines).replies := by
  induction lines with
  | nil => exact fun _ _ => .nil
  | cons line rest ih =>
      intro session grown
      cases empty : line.isEmpty with
      | true =>
          rw [replies_cons_of_empty _ empty, replies_cons_of_empty _ empty]
          exact .cons (.inl rfl) (ih session grown)
      | false =>
          obtain ⟨loud, hl, loudly⟩ := replies_cons session.aloud grown empty rest
          obtain ⟨quiet, hq, quietly⟩ := replies_cons session.silent grown empty rest
          rw [loudly, quietly, Session.evalLine_next, Session.evalLine_next]
          have reply := session.evalLine_aloud line
          rw [hl, hq] at reply
          refine .cons ?_ (ih { session with turn := _ } grown)
          simpa using reply

theorem eventually_hold_aloud (lines : List String) :
    ∀ session : Session, session.scope.Grown →
      ∀ᶠ limit in Filter.atTop, (hold ({ session with limit } : Session).aloud lines).replies =
        (hold ({ session with limit } : Session).silent lines).replies := by
  induction lines with
  | nil => exact fun _ _ => .of_forall fun _ => rfl
  | cons line rest ih =>
      intro session grown
      cases empty : line.isEmpty with
      | true =>
          filter_upwards [ih session grown] with limit same
          rw [replies_cons_of_empty _ empty, replies_cons_of_empty _ empty, same]
      | false =>
          let turn := session.turn + if (Text.strip line).isEmpty then 0 else 1
          filter_upwards [session.eventually_evalLine_aloud grown line,
            ih { session with turn } grown] with limit reply later
          obtain ⟨loud, hl, loudly⟩ :=
            replies_cons ({ session with limit } : Session).aloud grown empty rest
          obtain ⟨quiet, hq, quietly⟩ :=
            replies_cons ({ session with limit } : Session).silent grown empty rest
          rw [hl, hq] at reply
          cases reply
          rw [loudly, quietly, Session.evalLine_next, Session.evalLine_next]
          exact congrArg _ later

end Dialogue

def Session.logged (env : Environment) (limit : Nat) : Session :=
  { verbose := verboseAt (Settings.logLevel env), limit }

theorem Session.logged_eq (env : Environment) (limit : Nat) :
    logged env limit = if verboseAt (Settings.logLevel env) then ({ limit } : Session).aloud
      else ({ limit } : Session).silent := by
  unfold logged
  cases verboseAt (Settings.logLevel env) <;> rfl

/-- The level of the log costs room and nothing else. Replies under two levels differ only where the
verbose one runs out of room, by a notice of the expression that is read or of code that a form
produces. -/
theorem Dialogue.log_level_costs_only_room (env env' : Environment) (lines : List String) :
    (∀ limit, (hold (.logged env limit) lines).brokenBy = none ∧
      List.Forall₂ (fun reply reply' => reply = reply' ∨
          verboseAt (Settings.logLevel env) ≠ verboseAt (Settings.logLevel env') ∧
            (if verboseAt (Settings.logLevel env) then reply else reply') =
              some "Error: EvalError: maximum recursion depth exceeded")
        (hold (.logged env limit) lines).replies (hold (.logged env' limit) lines).replies) ∧
    (∃ enough, ∀ limit, enough ≤ limit →
      (hold (.logged env limit) lines).replies = (hold (.logged env' limit) lines).replies) ∧
    ∀ (session : Session) (code : String), session.NoticesOnlyOverflow code := by
  refine ⟨fun limit => ⟨?_, ?_⟩, ?_, Session.noticesOnlyOverflow⟩
  · exact (hold_outcome lines (.logged env limit) .builtin).1
  · have replies := hold_aloud lines { limit } .builtin
    rw [Session.logged_eq, Session.logged_eq]
    cases verboseAt (Settings.logLevel env) <;> cases verboseAt (Settings.logLevel env')
    case false.false => exact List.forall₂_same.mpr fun _ _ => .inl rfl
    case true.true => exact List.forall₂_same.mpr fun _ _ => .inl rfl
    case true.false => exact replies.imp fun _ _ => Or.imp_right fun deep => ⟨by simp, deep⟩
    case false.true =>
      exact replies.flip.imp fun _ _ => Or.imp Eq.symm fun deep => ⟨by simp, deep⟩
  · obtain ⟨enough, same⟩ :=
      Filter.eventually_atTop.mp (eventually_hold_aloud lines {} .builtin)
    refine ⟨enough, fun limit more => ?_⟩
    rw [Session.logged_eq, Session.logged_eq]
    cases verboseAt (Settings.logLevel env) <;> cases verboseAt (Settings.logLevel env')
    case false.false => rfl
    case true.true => rfl
    case true.false => exact same limit more
    case false.true => exact (same limit more).symm

/-! ## A line that only some logs let through -/

theorem Value.length_le_inspectDepth (items : List Value) :
    items.length ≤ (ofList items).inspectDepth := by
  induction items with
  | nil => exact Nat.zero_le _
  | cons item items ih =>
      rw [ofList_cons, inspectDepth, List.length_cons]
      omega

theorem Text.strip_ne_of_read {limit : Nat} {line : String} {expr : Value}
    (read : Reader.parse limit line = .ok expr) : strip line ≠ "" := by
  intro blank
  rw [← Reader.parse_strip, blank] at read
  cases read

/-- The quotation of a value whose text nests within the limit, but whose notice does not, is
answered with the text, or not at all if notices are written out. -/
theorem Session.quotation_needs_silence (session : Session) {v : Value} (plain : v.Plain)
    (room : v.quoted.textDepth ≤ session.limit) (deep : session.limit < v.quoted.inspectDepth) :
    (session.silent.evalLine ("'" ++ v.text)).1.outcome = .ok v.text ∧
      (session.aloud.evalLine ("'" ++ v.text)).1.outcome = .ok Error.tooDeep.line := by
  have whole : v.quoted.Plain := .quoted plain
  have read : Reader.parse session.limit ("'" ++ v.text) = .ok v.quoted := by
    have parsed := (Value.parse_text whole.readable room).2.1
    rw [whole.normal_eq] at parsed
    exact parsed
  have nonblank := Text.strip_ne_of_read read
  have shorter : v.textDepth + 1 ≤ session.limit := room
  constructor
  · have evaluated : (session.silent.eval ("'" ++ v.text)).1.outcome = .ok v := by
      unfold eval silent
      dsimp only
      rw [interpret_of_fitting _ read (by simp)]
      obtain ⟨below, hl⟩ : ∃ below, session.limit = below + 1 := ⟨session.limit - 1, by omega⟩
      rw [hl]
      rfl
    rw [← eval_strip] at evaluated
    rcases session.silent.evalLine_of_value nonblank evaluated with ⟨printed, _⟩ | ⟨_, short⟩
    · exact printed
    · have limit : session.silent.limit = session.limit := rfl
      omega
  · have overflow := congrArg Run.outcome ((session.noticesOnlyOverflow _).deep _ read deep)
    rw [← eval_strip] at overflow
    exact session.aloud.evalLine_of_error nonblank overflow

theorem Dialogue.replies_single (session : Session) (grown : session.scope.Grown)
    {line reply : String} (nonempty : line.isEmpty = false)
    (answered : (session.evalLine line).1.outcome = .ok reply) :
    (hold session [line]).replies = [some reply] := by
  obtain ⟨reply', answered', replies⟩ := replies_cons session grown nonempty []
  rw [answered] at answered'
  cases answered'
  exact replies

def Value.row (n : Nat) : Value := ofList (List.replicate n (symbol "a"))

theorem Value.plain_row {n : Nat} (positive : 0 < n) : (row n).Plain := by
  obtain ⟨more, rfl⟩ : ∃ more, n = more + 1 := ⟨n - 1, by omega⟩
  refine .list (symbol "a") (List.replicate more (symbol "a")) fun v member => ?_
  rw [← List.replicate_succ] at member
  rw [List.eq_of_mem_replicate member]
  exact .symbol (by decide)

theorem Value.textDepth_row (n : Nat) : (row n).textDepth ≤ 2 :=
  textDepth_ofList_le fun v member => by
    rw [List.eq_of_mem_replicate member]
    exact Nat.le_refl 1

theorem Value.le_inspectDepth_row (n : Nat) : n ≤ (row n).inspectDepth := by
  have length := length_le_inspectDepth (List.replicate n (symbol "a"))
  rwa [List.length_replicate] at length

theorem Session.logged_unset (limit : Nat) :
    logged (fun _ => none) limit = ({ limit } : Session).silent := rfl

theorem Session.logged_debug (limit : Nat) :
    logged (fun name => if name = "QUILL_LOG_LEVEL" then some "DEBUG" else none) limit =
      ({ limit } : Session).aloud := by
  rw [logged_eq, if_pos (by decide)]

/-- A flat list that is longer than the limit is printed, but not where the log is verbose. -/
theorem Dialogue.row_depends_on_log {n : Nat} (long : defaultLimit < n) :
    (hold (.logged (fun _ => none) defaultLimit) ["'" ++ (Value.row n).text]).replies =
        [some (Value.row n).text] ∧
      (hold (.logged (fun name => if name = "QUILL_LOG_LEVEL" then some "DEBUG" else none)
          defaultLimit) ["'" ++ (Value.row n).text]).replies = [some Error.tooDeep.line] ∧
      ∀ rest, (Value.row n).text ≠ "Error: " ++ rest := by
  have plain : (Value.row n).Plain := Value.plain_row (by omega)
  have flat := Value.textDepth_row n
  have deep := Value.le_inspectDepth_row n
  have limit : defaultLimit = 1000 := rfl
  have room : (Value.row n).textDepth + 1 ≤ defaultLimit := by omega
  have short : defaultLimit < (Value.row n).inspectDepth + 1 := by omega
  obtain ⟨printed, lost⟩ :=
    Session.quotation_needs_silence { limit := defaultLimit } plain room short
  have nonempty : ("'" ++ (Value.row n).text).isEmpty = false := by simp
  rw [Session.logged_unset, Session.logged_debug]
  exact ⟨replies_single _ .builtin nonempty printed, replies_single _ .builtin nonempty lost,
    Value.text_ne_error plain.readable⟩

theorem Dialogue.row_lost_to_log :
    (hold (.logged (fun _ => none) defaultLimit) ["'" ++ (Value.row 3000).text]).replies =
        [some (Value.row 3000).text] ∧
      (hold (.logged (fun name => if name = "QUILL_LOG_LEVEL" then some "DEBUG" else none)
          defaultLimit) ["'" ++ (Value.row 3000).text]).replies =
        [some "Error: EvalError: maximum recursion depth exceeded"] ∧
      (Value.row 3000).text ≠ "Error: EvalError: maximum recursion depth exceeded" := by
  obtain ⟨printed, lost, apart⟩ := row_depends_on_log (n := 3000) (by decide)
  exact ⟨printed, lost, apart "EvalError: maximum recursion depth exceeded"⟩

end MiniLisp
