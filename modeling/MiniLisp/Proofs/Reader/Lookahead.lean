import Mathlib.Data.List.Forall2
import MiniLisp.Proofs.Reader.Acceptance

/-! # Streams keep their place

A stream looks one token ahead, so the next token is sometimes in its lookahead and sometimes still
behind it; where the stream stands does not depend on that. Whatever is asked of a stream, in any
order and also after failed readings, its replies are those of a plain cursor over the tokens.

A reading takes the token at which it ends, be it the last one of a value or one at fault. Only the
token for which a limit leaves no room stays in the stream.
-/

namespace MiniLisp

namespace Reader

/-- The tokens that a reading with this result takes below the pending forms: read by themselves,
they come to the result and none of them is left over. -/
def Uses (limit : Nat) (stack : List Pending) (taken : List Token) : Except Stop Value → Prop
  -- By themselves they only lead to where there is no room for one more token.
  | .error .overflow =>
      ∃ token, readFrom limit stack (taken ++ [token]) = (.error .overflow, [token])
  | result => readFrom limit stack taken = (result, [])

variable {limit : Nat} {stack next : List Pending} {token : Token}

theorem Uses.cons (first : step limit token stack = .ok (.more next)) {taken : List Token}
    {result : Except Stop Value} (later : Uses limit next taken result) :
    Uses limit stack (token :: taken) result := by
  unfold Uses at later ⊢
  split at later
  · obtain ⟨last, exceeded⟩ := later
    exact ⟨last, (readFrom_of_ok first (taken ++ [last])).trans exceeded⟩
  · exact (readFrom_of_ok first taken).trans later

theorem uses_of_error {reason : Stop} (stopped : step limit token stack = .error reason) :
    ∃ taken, (∀ rest, token :: rest = taken ++ unread reason token rest) ∧
      Uses limit stack taken (.error reason) := by
  cases reason with
  | overflow => exact ⟨[], fun rest => rfl, token, readFrom_of_error stopped []⟩
  | error error => exact ⟨[token], fun rest => rfl, readFrom_of_error stopped []⟩
  | noRule kind shape => exact ⟨[token], fun rest => rfl, readFrom_of_error stopped []⟩

/-- A reading takes tokens from the front and leaves the others. -/
theorem readFrom_uses (limit : Nat) (tokens : List Token) (stack : List Pending) :
    ∃ taken, tokens = taken ++ (readFrom limit stack tokens).2 ∧
      Uses limit stack taken (readFrom limit stack tokens).1 := by
  induction tokens generalizing stack with
  | nil => exact ⟨[], rfl, rfl⟩
  | cons token tokens ih =>
      rcases h : step limit token stack with reason | next | value
      · obtain ⟨taken, whole, uses⟩ := uses_of_error h
        rw [readFrom_of_error h]
        exact ⟨taken, whole tokens, uses⟩
      · obtain ⟨taken, whole, uses⟩ := ih next
        rw [readFrom_of_ok h]
        exact ⟨token :: taken, congrArg (token :: ·) whole, uses.cons h⟩
      · rw [readFrom_of_ok h]
        exact ⟨[token], rfl, readFrom_of_ok h []⟩

end Reader

namespace TokenStream

/-! ## Requests and replies -/

/-- What can be asked of a stream. Each reading has a limit of its own. -/
inductive Request
  | peek
  | atEnd
  | advance
  | read (limit : Nat)

inductive Reply
  | token (token : Option Token)
  | ended (answer : Bool)
  | value (result : Except Stop Value)

structure Exchange where
  request : Request
  reply : Reply

namespace Request

def looks : Request → Bool
  | peek | atEnd => true
  | advance | read _ => false

/-- The request with the reply that it has behind the last token. -/
def pastEnd : Request → Exchange
  | peek => ⟨peek, .token none⟩
  | atEnd => ⟨atEnd, .ended true⟩
  | advance => ⟨advance, .token none⟩
  | read limit => ⟨read limit, .value (.error (.error .unexpectedEnd))⟩

end Request

def Exchange.Takes : Exchange → List Token → Prop
  | ⟨.peek, .token _⟩, taken | ⟨.atEnd, .ended _⟩, taken => taken = []
  | ⟨.advance, .token token⟩, taken => taken = token.toList
  | ⟨.read limit, .value result⟩, taken => Reader.Uses limit [] taken result
  | _, _ => False

/-! ## Serving requests -/

section

variable {σ τ : Type} {serve : Request → σ → Reply × σ} {serve' : Request → τ → Reply × τ}

def serveAll (serve : Request → σ → Reply × σ) : List Request → σ → List Exchange × σ
  | [], state => ([], state)
  | request :: requests, state =>
      let (reply, next) := serve request state
      let (exchanges, last) := serveAll serve requests next
      (⟨request, reply⟩ :: exchanges, last)

theorem serveAll_cons (request : Request) (requests : List Request) (state : σ) :
    serveAll serve (request :: requests) state =
      (⟨request, (serve request state).1⟩ :: (serveAll serve requests (serve request state).2).1,
        (serveAll serve requests (serve request state).2).2) := rfl

theorem serveAll_append (requests more : List Request) (state : σ) :
    serveAll serve (requests ++ more) state =
      ((serveAll serve requests state).1 ++
        (serveAll serve more (serveAll serve requests state).2).1,
        (serveAll serve more (serveAll serve requests state).2).2) := by
  induction requests generalizing state with
  | nil => rfl
  | cons request requests ih =>
      rw [List.cons_append, serveAll_cons, ih, serveAll_cons, List.cons_append]

theorem length_serveAll (requests : List Request) (state : σ) :
    (serveAll serve requests state).1.length = requests.length := by
  induction requests generalizing state with
  | nil => rfl
  | cons request requests ih => rw [serveAll_cons, List.length_cons, ih, List.length_cons]

/-- If one request is served alike in related states, so are all that follow. -/
theorem serveAll_of_related {Related : σ → τ → Prop}
    (step : ∀ request state state', Related state state' →
      (serve request state).1 = (serve' request state').1 ∧
        Related (serve request state).2 (serve' request state').2)
    (requests : List Request) {state : σ} {state' : τ} (related : Related state state') :
    (serveAll serve requests state).1 = (serveAll serve' requests state').1 ∧
      Related (serveAll serve requests state).2 (serveAll serve' requests state').2 := by
  induction requests generalizing state state' with
  | nil => exact ⟨rfl, related⟩
  | cons request requests ih =>
      obtain ⟨same, next⟩ := step request state state' related
      obtain ⟨later, last⟩ := ih next
      rw [serveAll_cons, serveAll_cons, same, later]
      exact ⟨rfl, last⟩

end

/-! ## A cursor -/

/-- A plain cursor over the tokens: how many of them are behind it. -/
structure Cursor (tokens : List Token) where
  position : Nat
  within : position ≤ tokens.length

namespace Cursor

variable {tokens : List Token}

def start (tokens : List Token) : Cursor tokens := ⟨0, Nat.zero_le _⟩

def rest (cursor : Cursor tokens) : List Token := tokens.drop cursor.position

def next (cursor : Cursor tokens) : Cursor tokens :=
  ⟨min (cursor.position + 1) tokens.length, Nat.min_le_right _ _⟩

/-- The cursor in front of the last tokens, so many of them. -/
def leaving (tokens : List Token) (count : Nat) : Cursor tokens :=
  ⟨tokens.length - count, Nat.sub_le _ _⟩

def serve (request : Request) (cursor : Cursor tokens) : Reply × Cursor tokens :=
  match request with
  | .peek => (.token tokens[cursor.position]?, cursor)
  | .atEnd => (.ended (cursor.position == tokens.length), cursor)
  | .advance => (.token tokens[cursor.position]?, cursor.next)
  | .read limit =>
      let (result, unread) := Reader.read limit cursor.rest
      (.value result, leaving tokens unread.length)

theorem head?_rest (cursor : Cursor tokens) : cursor.rest.head? = tokens[cursor.position]? :=
  List.head?_drop

theorem rest_next (cursor : Cursor tokens) : cursor.next.rest = cursor.rest.tail := by
  obtain ⟨position, within⟩ := cursor
  simp only [rest, next, List.tail_drop]
  by_cases last : position + 1 ≤ tokens.length
  · rw [Nat.min_eq_left last]
  · have beyond : tokens.length ≤ position + 1 := by omega
    rw [Nat.min_eq_right beyond, List.drop_length, List.drop_eq_nil_of_le beyond]

theorem rest_leaving {unread : List Token} (h : unread <:+ tokens) :
    (leaving tokens unread.length).rest = unread :=
  (List.suffix_iff_eq_drop.mp h).symm

theorem isEmpty_rest (cursor : Cursor tokens) :
    cursor.rest.isEmpty = (cursor.position == tokens.length) := by
  have within := cursor.within
  rw [Bool.eq_iff_iff, List.isEmpty_iff, rest, List.drop_eq_nil_iff, beq_iff_eq]
  omega

end Cursor

/-! ## One request -/

def serve (request : Request) (stream : TokenStream) : Reply × TokenStream :=
  match request with
  | .peek => stream.peek.map .token id
  | .atEnd => stream.atEnd.map .ended id
  | .advance => stream.advance.map .token id
  | .read limit => (stream.readValue limit).map .value id

/-- A stream and a cursor that stand at the same place serve a request alike. -/
theorem serve_eq_cursor {tokens : List Token} (request : Request) (stream : TokenStream)
    (cursor : Cursor tokens) (here : stream.view = cursor.rest) :
    (stream.serve request).1 = (cursor.serve request).1 ∧
      (stream.serve request).2.view = (cursor.serve request).2.rest := by
  cases request with
  | peek => simp [serve, Cursor.serve, here, cursor.head?_rest]
  | atEnd => simp [serve, Cursor.serve, here, cursor.isEmpty_rest]
  | advance => simp [serve, Cursor.serve, here, cursor.head?_rest, cursor.rest_next]
  | read limit =>
      have read := readValue_view limit stream
      rw [here] at read
      obtain ⟨taken, whole, -⟩ := Reader.readFrom_uses limit cursor.rest []
      have unread : (Reader.read limit cursor.rest).2 <:+ tokens :=
        List.IsSuffix.trans ⟨taken, whole.symm⟩ (List.drop_suffix _ _)
      constructor
      · show Reply.value (stream.readValue limit).1 = .value (Reader.read limit cursor.rest).1
        rw [← read]
      · show (stream.readValue limit).2.view =
          (Cursor.leaving tokens (Reader.read limit cursor.rest).2.length).rest
        rw [Cursor.rest_leaving unread, ← read]

/-- Looking leaves the stream where it is. -/
theorem view_serve_of_looks {request : Request} (h : request.looks = true)
    (stream : TokenStream) : (stream.serve request).2.view = stream.view := by
  cases request with
  | peek => exact stream.view_peek
  | atEnd => exact stream.view_atEnd
  | advance => cases h
  | read limit => cases h

/-- What is taken with one request is taken from the front. -/
theorem serve_takes (request : Request) (stream : TokenStream) :
    ∃ taken, Exchange.Takes ⟨request, (stream.serve request).1⟩ taken ∧
      stream.view = taken ++ (stream.serve request).2.view := by
  cases request with
  | peek => exact ⟨[], rfl, stream.view_peek.symm⟩
  | atEnd => exact ⟨[], rfl, stream.view_atEnd.symm⟩
  | advance =>
      refine ⟨stream.view.head?.toList, ?_, ?_⟩
      · simp [serve, Exchange.Takes]
      · cases h : stream.view <;> simp [serve, h]
  | read limit =>
      obtain ⟨taken, whole, uses⟩ := Reader.readFrom_uses limit stream.view []
      have read : Reader.readFrom limit [] stream.view = _ := (readValue_view limit stream).symm
      rw [read] at whole uses
      exact ⟨taken, uses, whole⟩

theorem serve_pastEnd (request : Request) {stream : TokenStream} (exhausted : stream.view = []) :
    ⟨request, (stream.serve request).1⟩ = request.pastEnd ∧
      (stream.serve request).2.view = [] := by
  cases request with
  | peek => simp [serve, Request.pastEnd, exhausted]
  | atEnd => simp [serve, Request.pastEnd, exhausted]
  | advance => simp [serve, Request.pastEnd, exhausted]
  | read limit =>
      have read := readValue_view limit stream
      rw [exhausted] at read
      injection read with failed still
      refine ⟨?_, still⟩
      show Exchange.mk (.read limit) (.value (stream.readValue limit).1) = _
      rw [failed]
      rfl

/-! ## All requests -/

def answers (stream : TokenStream) (requests : List Request) : List Exchange :=
  (serveAll serve requests stream).1

def after (stream : TokenStream) (requests : List Request) : TokenStream :=
  (serveAll serve requests stream).2

variable {stream : TokenStream}

theorem answers_append (requests more : List Request) :
    stream.answers (requests ++ more) =
      stream.answers requests ++ (stream.after requests).answers more := by
  rw [answers, serveAll_append]
  rfl

theorem after_append (requests more : List Request) :
    stream.after (requests ++ more) = (stream.after requests).after more := by
  rw [after, serveAll_append]
  rfl

/-- A stream and a cursor that stand at the same place serve all requests alike. -/
theorem serveAll_eq_cursor {tokens : List Token} (cursor : Cursor tokens)
    (here : stream.view = cursor.rest) (requests : List Request) :
    stream.answers requests = (serveAll Cursor.serve requests cursor).1 ∧
      (stream.after requests).view = (serveAll Cursor.serve requests cursor).2.rest :=
  serveAll_of_related serve_eq_cursor requests here

/-- Only the tokens that are still to come count. -/
theorem answers_of_view_eq {other : TokenStream} (same : stream.view = other.view)
    (requests : List Request) : stream.answers requests = other.answers requests := by
  have first := (serveAll_eq_cursor (.start stream.view) rfl requests).1
  have second := (serveAll_eq_cursor (.start stream.view) same.symm requests).1
  rw [first, second]

/-- Without a look, the other replies are the same. -/
theorem answers_of_look {look : Request} (h : look.looks = true) (before later : List Request) :
    (stream.answers (before ++ look :: later)).eraseIdx before.length =
      stream.answers (before ++ later) := by
  have still : ((stream.after before).serve look).2.view = (stream.after before).view :=
    view_serve_of_looks h _
  have count : (stream.answers before).length = before.length := length_serveAll before stream
  have looked : (stream.after before).answers (look :: later) =
      ⟨look, ((stream.after before).serve look).1⟩ ::
        ((stream.after before).serve look).2.answers later := rfl
  rw [answers_append, answers_append, looked, answers_of_view_eq still,
    List.eraseIdx_append_of_length_le (Nat.le_of_eq count), count, Nat.sub_self,
    List.eraseIdx_cons_zero]

/-- The tokens that are taken are taken from the front, request by request. -/
theorem answers_take (stream : TokenStream) (requests : List Request) :
    ∃ batches, List.Forall₂ Exchange.Takes (stream.answers requests) batches ∧
      stream.view = batches.flatten ++ (stream.after requests).view := by
  induction requests generalizing stream with
  | nil => exact ⟨[], .nil, rfl⟩
  | cons request requests ih =>
      obtain ⟨taken, takes, front⟩ := serve_takes request stream
      obtain ⟨batches, later, whole⟩ := ih (stream.serve request).2
      refine ⟨taken :: batches, .cons takes later, ?_⟩
      rw [front, whole, List.flatten_cons, List.append_assoc]
      rfl

/-- Behind the last token nothing changes. -/
theorem answers_pastEnd (exhausted : stream.view = []) (requests : List Request) :
    stream.answers requests = requests.map Request.pastEnd := by
  induction requests generalizing stream with
  | nil => rfl
  | cons request requests ih =>
      obtain ⟨reply, still⟩ := serve_pastEnd request exhausted
      rw [answers, serveAll_cons, reply, List.map_cons]
      exact congrArg (request.pastEnd :: ·) (ih still)

/-- A reading asks the stream for nothing but looks and takes. -/
theorem readFrom_eq_after (limit : Nat) (stack : List Pending) (stream : TokenStream) :
    ∃ steps, (∀ step ∈ steps, step = Request.peek ∨ step = .advance) ∧
      (readFrom limit stack stream).2 = stream.after steps := by
  fun_induction readFrom limit stack stream with
  | case1 stack stream seen h =>
      refine ⟨[.peek], by simp, ?_⟩
      show seen = stream.peek.2
      rw [h]
  | case2 stack stream token seen h taken outer hs ih =>
      obtain ⟨steps, only, reached⟩ := ih
      refine ⟨.peek :: .advance :: steps, by simpa using only, ?_⟩
      show _ = stream.peek.2.advance.2.after steps
      rw [reached, h]
  | case3 stack stream token seen h taken value hs =>
      refine ⟨[.peek, .advance], by simp, ?_⟩
      show seen.advance.2 = stream.peek.2.advance.2
      rw [h]
  | case4 stack stream token seen h taken hs =>
      refine ⟨[.peek], by simp, ?_⟩
      show seen = stream.peek.2
      rw [h]
  | case5 stack stream token seen h taken reason within hs =>
      refine ⟨[.peek, .advance], by simp, ?_⟩
      show seen.advance.2 = stream.peek.2.advance.2
      rw [h]

/-- A stream replies as a cursor over its tokens: looks are never noticed later, the tokens are
taken in order and each once, and behind the last one there is only the end. A reading, also a
failed one, does nothing but look and take. -/
theorem stream_keeps_place (tokens : List Token) :
    (∀ requests, (ofTokens tokens).answers requests =
        (serveAll Cursor.serve requests (.start tokens)).1 ∧
      ((ofTokens tokens).after requests).view =
        (serveAll Cursor.serve requests (.start tokens)).2.rest) ∧
    (∀ before look later, look.looks = true →
      ((ofTokens tokens).answers (before ++ look :: later)).eraseIdx before.length =
        (ofTokens tokens).answers (before ++ later)) ∧
    (∀ requests, ∃ batches,
      List.Forall₂ Exchange.Takes ((ofTokens tokens).answers requests) batches ∧
        tokens = batches.flatten ++ ((ofTokens tokens).after requests).view) ∧
    (∀ requests more, ((ofTokens tokens).after requests).view = [] →
      (ofTokens tokens).answers (requests ++ more) =
        (ofTokens tokens).answers requests ++ more.map Request.pastEnd) ∧
    ∀ requests limit, ∃ steps, (∀ step ∈ steps, step = .peek ∨ step = .advance) ∧
      (ofTokens tokens).after (requests ++ [.read limit]) =
        (ofTokens tokens).after (requests ++ steps) := by
  refine ⟨fun requests => ?_, fun before look later h => ?_, fun requests => ?_,
    fun requests more exhausted => ?_, fun requests limit => ?_⟩
  · exact serveAll_eq_cursor (.start tokens) rfl requests
  · exact answers_of_look h before later
  · exact (ofTokens tokens).answers_take requests
  · rw [answers_append, answers_pastEnd exhausted]
  · obtain ⟨steps, only, reached⟩ := readFrom_eq_after limit [] ((ofTokens tokens).after requests)
    refine ⟨steps, only, ?_⟩
    rw [after_append, after_append]
    exact reached

/-- A reading exhausts its limit in front of the inner symbol. The next one takes that symbol, and
the one behind it fails on a closing parenthesis. -/
theorem stream_keeps_place_of_failures :
    let tokens : List Token := [⟨.opening, "("⟩, ⟨.symbol, "a"⟩, ⟨.opening, "("⟩, ⟨.symbol, "b"⟩,
      ⟨.closing, ")"⟩, ⟨.closing, ")"⟩]
    let first : Exchange := ⟨.peek, .token (some ⟨.opening, "("⟩)⟩
    let later : List Exchange := [⟨.read 2, .value (.error .overflow)⟩, ⟨.atEnd, .ended false⟩,
      ⟨.read 2, .value (.ok (.symbol "b"))⟩,
      ⟨.read 2, .value (.error (.error .unmatchedClose))⟩,
      ⟨.advance, .token (some ⟨.closing, ")"⟩)⟩]
    let requests : List Request := [.read 2, .atEnd, .read 2, .read 2, .advance]
    (ofTokens tokens).answers (.peek :: requests) = first :: later ∧
      (ofTokens tokens).answers requests = later ∧
      (ofTokens tokens).answers (requests ++ [.peek, .read 2, .atEnd]) =
        later ++ [⟨.peek, .token none⟩, ⟨.read 2, .value (.error (.error .unexpectedEnd))⟩,
          ⟨.atEnd, .ended true⟩] := by
  intro tokens first later requests
  obtain ⟨cursor, looks, -, ends, -⟩ := stream_keeps_place tokens
  have looked : (ofTokens tokens).answers (.peek :: requests) = first :: later :=
    (cursor (.peek :: requests)).1
  have replies : (ofTokens tokens).answers requests = later := by
    have without := looks [] .peek requests rfl
    rw [List.nil_append, looked] at without
    exact without.symm
  have exhausted : ((ofTokens tokens).after requests).view = [] := (cursor requests).2
  refine ⟨looked, replies, ?_⟩
  rw [ends requests _ exhausted, replies]
  rfl

end TokenStream

end MiniLisp
