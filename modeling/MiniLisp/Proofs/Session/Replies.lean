import MiniLisp.Proofs.Reader.Limits
import MiniLisp.Proofs.Reader.Spacing
import MiniLisp.Proofs.Session.Safety
import MiniLisp.Proofs.Value.Mentions

/-! # Replies that can be read again

Evaluation makes up no symbol, so in a session that binds only readable names every result is
printed as a text that reads back. An error is printed as a line that no reader takes for a value.
Hence a result and an error never look alike.
-/

namespace MiniLisp

/-! ## Where symbols come from -/

namespace Session

variable (session : Session)

/-- A symbol in a result was written in the code or is part of a value that the session binds. -/
theorem eval_mentions {code : String} {value : Value}
    (h : (session.eval code).1.outcome = .ok value) :
    ∀ name, value.Mentions name →
      ⟨.symbol, name⟩ ∈ Token.scanText code ∨ session.scope.Mentions name := by
  -- To mention only known names is hereditary, and holds of all that the evaluation starts from.
  let known : String → Prop := fun name =>
    ⟨.symbol, name⟩ ∈ Token.scanText code ∨ session.scope.Mentions name
  have bound : session.scope.All fun v => ∀ name, v.Mentions name → known name :=
    fun frame hf binding hb name hm => .inr ⟨frame, hf, binding, hb, hm⟩
  have written : ∀ token ∈ Token.scanText code, token.kind = .symbol →
      ∀ name, (Value.symbol token.text).Mentions name → known name := by
    rintro ⟨kind, text⟩ member rfl name hm
    cases hm
    exact .inl member
  have carried := session.eval_meets (Value.hereditary_mentions known) code bound written
  rw [h] at carried
  exact carried

theorem legible_of_eval (legible : session.scope.All Value.Legible) {code : String} {value : Value}
    (h : (session.eval code).1.outcome = .ok value) : value.Legible := by
  intro name hm
  rcases session.eval_mentions h name hm with written | ⟨frame, hf, binding, hb, bound⟩
  · exact Token.isReadable_of_mem_scanText written
  · exact legible frame hf binding hb name bound

end Session

theorem Value.Legible.shown {v : Value} (h : v.Legible) :
    ∀ name ∈ v.shownNames, isReadable name = true :=
  fun name member => h name (v.mentions_of_mem_shownNames member)

theorem Scope.legible_builtin : builtin.All Value.Legible := by
  intro frame hf binding hb name hm
  rw [builtin, List.mem_singleton] at hf
  subst hf
  rcases List.mem_cons.mp hb with rfl | hb
  · cases hm
  · obtain ⟨op, _, rfl⟩ := List.mem_map.mp hb
    cases hm

/-! ## Error lines -/

/-- A text that starts as error lines do and that is read as no value. -/
structure Session.FailureReply (text : String) : Prop where
  start : ∃ rest, text = "Error: " ++ rest
  unread : ∀ limit, 0 < limit →
    ∃ error, Reader.parse limit text = .error (.error error) ∧ error.kind = .parse

theorem Token.scanText_error (rest : String) :
    scanText ("Error: " ++ rest) = ⟨.symbol, "Error:"⟩ :: scanText rest := by
  have apart : Breaks (' ' :: rest.toList) := breaks_cons (by simp [CharClass.of_space])
  have readable : isReadable "Error:" = true := by decide
  have scanned := scan_name readable apart
  rw [scan_blank CharClass.of_space] at scanned
  rw [scanText, scanText, ← scanned]
  simp

/-- The reader takes the first word of an error line for a symbol and stops behind it. -/
theorem Reader.read_error {limit : Nat} (room : 0 < limit) (rest : String) :
    read limit (Token.scanText ("Error: " ++ rest)) =
      (.ok (.symbol "Error:"), Token.scanText rest) := by
  rw [Token.scanText_error]
  exact read_of_derives (.symbol "Error:") room (Token.scanText rest)

theorem ErrorKind.head_tag (kind : ErrorKind) :
    ∃ c cs, kind.tag.toList = c :: cs ∧ Text.isBlank c = false := by
  cases kind <;> exact ⟨_, _, rfl, by decide⟩

theorem Error.line_eq (error : Error) :
    ∃ rest, error.line = "Error: " ++ rest ∧ Token.scanText rest ≠ [] := by
  obtain ⟨c, cs, tag, visible⟩ := error.kind.head_tag
  have filled (rest : String) : Token.scanText (error.kind.tag ++ rest) ≠ [] := by
    intro empty
    have blank := Token.isGap_of_scanText empty c (by simp [tag])
    rw [visible] at blank
    cases blank
  unfold line ErrorKind.line
  split
  · exact ⟨error.kind.tag, rfl, by simpa using filled ""⟩
  · exact ⟨error.kind.tag ++ (": " ++ error.message), by simp [String.append_assoc], filled _⟩

theorem Session.failureReply_line (error : Error) : FailureReply error.line := by
  obtain ⟨rest, whole, filled⟩ := error.line_eq
  refine ⟨⟨rest, whole⟩, fun limit room => ?_⟩
  obtain ⟨token, tokens, more⟩ := List.exists_cons_of_ne_nil filled
  refine ⟨.trailingInput token.text, ?_, rfl⟩
  rw [Reader.parse, whole, Reader.read_error room, more]

/-! ## Results -/

/-- A text that nests to some depth, is read as a value with this very text, is the reply to a line
that quotes it unless that nests too deep, and does not start as error lines do. -/
structure Session.ResultReply (depth : Nat) (text : String) : Prop where
  read : ∃ value, ∀ limit, depth ≤ limit →
    Reader.parse limit text = .ok value ∧ value.textWithin limit = .ok text
  quotation : ∃ room, ∀ later : Session,
    (later.evalLine ("'" ++ text)).1.outcome = .ok text ∨
      ((later.evalLine ("'" ++ text)).1.outcome = .ok Error.tooDeep.line ∧ later.limit < room)
  apart : ∀ rest, text ≠ "Error: " ++ rest

theorem Value.text_ne_error {v : Value} (readable : ∀ name ∈ v.shownNames, isReadable name = true)
    (rest : String) : v.text ≠ "Error: " ++ rest := by
  intro same
  have read := (parse_text readable (Nat.le_refl v.textDepth)).2.1
  rw [Reader.parse, same, Reader.read_error (Reader.one_le_textDepth v)] at read
  -- What is read is the one symbol before the blank, and its text is shorter.
  cases hr : Token.scanText rest with
  | cons token tokens => rw [hr] at read; cases read
  | nil =>
      rw [hr] at read
      have whole : v.normal = .symbol "Error:" := (Except.ok.inj read).symm
      have text := text_normal v
      rw [whole, same] at text
      have chars := congrArg String.toList text
      simp [Value.text, textAt, Place.atom] at chars

/-- Printed text is read as what it shows, or nests too deep. -/
theorem Value.parse_text_cases {v : Value}
    (readable : ∀ name ∈ v.shownNames, isReadable name = true) (limit : Nat) :
    Reader.parse limit v.text = .ok v.normal ∨
      (Reader.parse limit v.text = .error .overflow ∧ limit < v.textDepth) := by
  by_cases room : v.textDepth ≤ limit
  · exact .inl (parse_text readable room).2.1
  · have short : limit < v.textDepth := by omega
    rcases Reader.parse_limits (Nat.le_of_lt short) v.text with exceeded | same
    · exact .inr ⟨exceeded, short⟩
    · rw [same]
      exact .inl (parse_text readable (Nat.le_refl _)).2.1

theorem notice_cases (turn : Turn) (limit : Nat) (event : Event) (value : Value) :
    turn.notice limit event value = Action.emit event ∨
      (turn.notice limit event value = Action.stop .overflow ∧ limit < value.inspectDepth) := by
  unfold Turn.notice Action.within
  cases turn.verbose with
  | false => exact .inl rfl
  | true =>
      by_cases room : value.inspectDepth ≤ limit
      · simp only [if_true, room]
        exact .inl rfl
      · simp only [if_true, room, if_false]
        exact .inr ⟨rfl, by omega⟩

/-- The quotation of a printed value evaluates to what the text shows, or nests too deep. -/
theorem interpret_quotation {v : Value} (readable : ∀ name ∈ v.shownNames, isReadable name = true)
    (turn : Turn) (limit : Nat) (scope : Scope) (n : Nat) :
    (interpret turn limit scope v.quoted.text n).outcome = .ok v.normal ∨
      ((interpret turn limit scope v.quoted.text n).outcome = .error .overflow ∧
        limit < max v.quoted.textDepth v.quoted.normal.inspectDepth) := by
  have deep := Reader.one_le_textDepth v.quoted
  unfold interpret
  rcases Value.parse_text_cases (v := v.quoted) readable limit with read | ⟨exceeded, short⟩
  · rw [read, show Action.ofExcept (.ok v.quoted.normal) = pure v.quoted.normal from rfl, pure_bind]
    rcases notice_cases turn limit (.parsed v.quoted.normal) v.quoted.normal with
      shown | ⟨exceeded, short⟩
    · rw [shown]
      cases limit with
      | zero => exact .inr ⟨rfl, by omega⟩
      | succ below => exact .inl rfl
    · rw [exceeded]
      exact .inr ⟨rfl, by omega⟩
  · rw [exceeded]
    exact .inr ⟨rfl, by omega⟩

namespace Session

theorem eval_strip (session : Session) (code : String) :
    session.eval (Text.strip code) = session.eval code := by
  rw [eval, interpret, Reader.parse_strip, eval, interpret]

theorem evalLine_quotation (later : Session) {v : Value}
    (readable : ∀ name ∈ v.shownNames, isReadable name = true) :
    (later.evalLine ("'" ++ v.text)).1.outcome = .ok v.text ∨
      ((later.evalLine ("'" ++ v.text)).1.outcome = .ok Error.tooDeep.line ∧
        later.limit < max v.quoted.textDepth v.quoted.normal.inspectDepth) := by
  have depth : v.normal.textDepth = v.textDepth := Value.textDepthAt_normalAt .element v
  have deeper : v.quoted.textDepth = v.textDepth + 1 := rfl
  -- A line with tokens is not blank.
  have nonblank : Text.strip ("'" ++ v.text) ≠ "" := by
    intro blank
    have scanned := Token.scanText_strip v.quoted.text
    rw [Value.scanText_text (v := v.quoted) readable] at scanned
    rw [show v.quoted.text = "'" ++ v.text from rfl, blank] at scanned
    cases scanned
  rcases interpret_quotation readable ⟨later.turn, later.verbose⟩ later.limit later.scope 0 with
    value | ⟨exceeded, short⟩
  · have evaluated : (later.eval ("'" ++ v.text)).1.outcome = .ok v.normal :=
      congrArg (Except.mapError Stop.settle) value
    rw [← eval_strip] at evaluated
    rcases later.evalLine_of_value nonblank evaluated with ⟨printed, _⟩ | ⟨exceeded, short⟩
    · rw [v.text_normal] at printed
      exact .inl printed
    · exact .inr ⟨exceeded, by omega⟩
  · have evaluated : (later.eval ("'" ++ v.text)).1.outcome = .error (.error .tooDeep) :=
      congrArg (Except.mapError Stop.settle) exceeded
    rw [← eval_strip] at evaluated
    exact .inr ⟨later.evalLine_of_error nonblank evaluated, short⟩

theorem resultReply_text {v : Value} (legible : v.Legible) : ResultReply v.textDepth v.text where
  read := ⟨v.normal, fun _ room => (Value.parse_text legible.shown room).2⟩
  quotation := ⟨_, fun later => later.evalLine_quotation legible.shown⟩
  apart := Value.text_ne_error legible.shown

end Session

/-- Replies can be read again and tell results from errors. With readable symbols in the session,
the text of a result is read as a value with the same text and can be quoted in a later line, while
the reader refuses every error line. -/
theorem Session.replies_unambiguous (session : Session)
    (legible : session.scope.All Value.Legible) (line : String)
    (nonblank : Text.strip line ≠ "") :
    (∀ value, (session.eval line).1.outcome = .ok value →
      (∀ name, value.Mentions name →
        ⟨.symbol, name⟩ ∈ Token.scanText line ∨ session.scope.Mentions name) ∧
      (((session.evalLine line).1.outcome = .ok value.text ∧ value.textDepth ≤ session.limit) ∨
        ((session.evalLine line).1.outcome = .ok Error.tooDeep.line ∧
          session.limit < value.textDepth)) ∧
      ResultReply value.textDepth value.text) ∧
    (∀ error, (session.eval line).1.outcome = .error (.error error) →
      (session.evalLine line).1.outcome = .ok error.line ∧ FailureReply error.line) ∧
    (session.scope.Grown → ∃ reply, (session.evalLine line).1.outcome = .ok reply ∧
      ((∃ depth ≤ session.limit, ResultReply depth reply) ∨ FailureReply reply)) := by
  rw [← session.eval_strip line]
  have legibly {value : Value} (h : (session.eval (Text.strip line)).1.outcome = .ok value) :
      ResultReply value.textDepth value.text :=
    resultReply_text (session.legible_of_eval legible h)
  refine ⟨fun value h => ⟨?_, session.evalLine_of_value nonblank h, legibly h⟩, fun error h => ?_,
    fun grown => ?_⟩
  · rw [session.eval_strip] at h
    exact session.eval_mentions h
  · exact ⟨session.evalLine_of_error nonblank h, failureReply_line error⟩
  · rcases session.eval_outcome grown (Text.strip line) with ⟨value, h, _⟩ | ⟨error, h⟩
    · rcases session.evalLine_of_value nonblank h with ⟨printed, room⟩ | ⟨exceeded, _⟩
      · exact ⟨_, printed, .inl ⟨_, room, legibly h⟩⟩
      · exact ⟨_, exceeded, .inr (failureReply_line .tooDeep)⟩
    · exact ⟨_, session.evalLine_of_error nonblank h, .inr (failureReply_line error)⟩

/-- A function that collects its arguments is bound and called; its result is read again. -/
theorem Session.replies_unambiguous_of_collector :
    let session := ({} : Session).bind "keep"
      (.compound .function ⟨0, 0⟩ builtin ⟨["first"], some "rest"⟩ (.symbol "rest"))
    (session.eval "(keep 'a '(b))").1.outcome = .ok (.ofList [.ofList [.symbol "b"]]) ∧
      ResultReply 3 "((b))" := by
  intro session
  have legible : session.scope.All Value.Legible := by
    refine Scope.All.cons (fun binding member name hm => ?_) Scope.legible_builtin
    rw [List.mem_singleton] at member
    subst member
    cases hm with
    | formal member =>
        have names : ∀ formal ∈ Params.written ⟨["first"], some "rest"⟩, isReadable formal := by
          decide
        exact names name member
    | body h => cases h; decide
    | captured frame binding h => exact Scope.legible_builtin _ frame _ binding name h
  have read : Reader.parse session.limit "(keep 'a '(b))" =
      .ok (.ofList [.symbol "keep", .quoted (.symbol "a"), .quoted (.ofList [.symbol "b"])]) := by
    rfl
  have evaluated : (session.eval "(keep 'a '(b))").1.outcome =
      .ok (.ofList [.ofList [.symbol "b"]]) := by
    rw [eval, interpret, read]
    rfl
  have reply := (Session.replies_unambiguous session legible "(keep 'a '(b))" (by decide)).1
    _ evaluated
  have text : (Value.ofList [.ofList [.symbol "b"]]).text = "((b))" := by decide
  rw [text] at reply
  exact ⟨evaluated, reply.2.2⟩

end MiniLisp
