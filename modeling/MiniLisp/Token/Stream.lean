import MiniLisp.Reader.Basic

/-!
# Token streams

A stream of tokens with one token of lookahead. The token looked at stays in the stream until it is
taken; `view` is the list of tokens that are still to come.
-/

namespace MiniLisp

/-- A stream: the token that was looked at, if any, and the tokens behind it. -/
structure TokenStream where
  ahead : Option Token := none
  pending : List Token

namespace TokenStream

def ofTokens (tokens : List Token) : TokenStream := ⟨none, tokens⟩

/-- The tokens still to come. -/
def view (stream : TokenStream) : List Token := stream.ahead.toList ++ stream.pending

def peek (stream : TokenStream) : Option Token × TokenStream :=
  match stream.ahead, stream.pending with
  | some token, _ => (some token, stream)
  | none, [] => (none, stream)
  | none, token :: rest => (some token, ⟨some token, rest⟩)

def advance (stream : TokenStream) : Option Token × TokenStream :=
  let (token, filled) := stream.peek
  (token, ⟨none, filled.pending⟩)

def atEnd (stream : TokenStream) : Bool × TokenStream :=
  let (token, filled) := stream.peek
  (token.isNone, filled)

/-! Looking shows the first token that is still to come and changes none of them; taking drops it. -/

theorem view_lookahead (tokens : List Token) : view ⟨tokens.head?, tokens.tail⟩ = tokens := by
  cases tokens <;> rfl

/-- Wherever the next token was, behind a look it is ahead. -/
theorem peek_eq (stream : TokenStream) :
    stream.peek = (stream.view.head?, ⟨stream.view.head?, stream.view.tail⟩) := by
  obtain ⟨ahead, pending⟩ := stream
  cases ahead with
  | some token => rfl
  | none => cases pending <;> rfl

@[simp] theorem peek_fst (stream : TokenStream) : stream.peek.1 = stream.view.head? := by
  rw [peek_eq]

@[simp] theorem view_peek (stream : TokenStream) : stream.peek.2.view = stream.view := by
  rw [peek_eq, view_lookahead]

@[simp] theorem advance_fst (stream : TokenStream) : stream.advance.1 = stream.view.head? :=
  stream.peek_fst

@[simp] theorem view_advance (stream : TokenStream) : stream.advance.2.view = stream.view.tail := by
  rw [advance, peek_eq]
  rfl

@[simp] theorem atEnd_fst (stream : TokenStream) : stream.atEnd.1 = stream.view.isEmpty := by
  rw [atEnd, peek_eq]
  cases stream.view <;> rfl

@[simp] theorem view_atEnd (stream : TokenStream) : stream.atEnd.2.view = stream.view :=
  stream.view_peek

theorem view_of_peek_some {stream seen : TokenStream} {token : Token}
    (h : stream.peek = (some token, seen)) : stream.view = token :: seen.advance.2.view := by
  have first : stream.view.head? = some token := by rw [← peek_fst, h]
  have same : seen.view = stream.view := by rw [← view_peek stream, h]
  obtain ⟨rest, whole⟩ := List.head?_eq_some_iff.mp first
  rw [view_advance, same, whole, List.tail_cons]

def readFrom (limit : Nat) (stack : List Pending) (stream : TokenStream) :
    Except Stop Value × TokenStream :=
  match h : stream.peek with
  | (none, seen) => (.error (.error (Reader.endError stack)), seen)
  | (some token, seen) =>
      have : stream.view = token :: seen.advance.2.view := view_of_peek_some h
      match Reader.step limit token stack with
      | .ok (.more stack) => readFrom limit stack seen.advance.2
      | .ok (.done value) => (.ok value, seen.advance.2)
      -- The token was looked at and there is no room to start on it: it stays ahead.
      | .error .overflow => (.error .overflow, seen)
      | .error reason => (.error reason, seen.advance.2)
termination_by stream.view.length
decreasing_by rw [this]; exact Nat.lt_succ_self _

/-- Read one value. A failed attempt leaves the stream behind the token at fault; when the limit is
exhausted, it leaves it in front of the token for which there was no room. -/
def readValue (limit : Nat) (stream : TokenStream) : Except Stop Value × TokenStream :=
  readFrom limit [] stream

end TokenStream

end MiniLisp
