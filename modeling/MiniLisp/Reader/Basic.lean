import MiniLisp.Error.Basic
import MiniLisp.Token.Basic

/-!
# Reading values

The reader takes one token at a time. What it has opened and not yet closed stands on a stack of
pending forms; the limit bounds the height of that stack. `read` runs it over a list of tokens and
leaves what follows the value or the token at fault. A token for which there is no room is left too.
-/

namespace MiniLisp

/-- A form whose end has not been read: a list with its items, last first, or a quote. -/
inductive Pending
  | list (items : List Value)
  | quote

namespace Reader

/-- What a token leads to when it is taken. -/
inductive Progress
  | more (stack : List Pending)
  | done (value : Value)

/-- A complete value joins the innermost pending form; it completes the quotes around it. -/
def complete (value : Value) : List Pending → Progress
  | [] => .done value
  | .quote :: stack => complete (.quoted value) stack
  | .list items :: stack => .more (.list (value :: items) :: stack)

/-- The token starts a value below the pending forms on the stack. -/
def start (limit : Nat) (token : Token) (stack : List Pending) : Except Stop Progress :=
  -- Without room the token is not even looked into: a stray parenthesis is no fault then.
  if limit ≤ stack.length then .error .overflow
  else match token.kind with
    | .symbol => .ok (complete (.symbol token.text) stack)
    | .quote => .ok (.more (.quote :: stack))
    | .opening => .ok (.more (.list [] :: stack))
    | .closing | .other _ => .error (.error .unmatchedClose)

/-- Take one token: it closes the innermost list or starts a value. -/
def step (limit : Nat) (token : Token) (stack : List Pending) : Except Stop Progress :=
  match token.kind, stack with
  | .closing, .list items :: outer => .ok (complete (.ofList items.reverse) outer)
  | _, stack => start limit token stack

/-- What stays unread when a token leads nowhere: a token at fault is taken, one for which there is
no room is not. -/
def unread (reason : Stop) (token : Token) (rest : List Token) : List Token :=
  match reason with
  | .overflow => token :: rest
  | _ => rest

/-- The error when the tokens end before the value does. -/
def endError : List Pending → Error
  | [] => .unexpectedEnd
  | .quote :: _ => .emptyQuote
  | .list _ :: _ => .unmatchedOpen

/-- Read on until the first value is complete; the rest of the tokens stays unread. -/
def readFrom (limit : Nat) (stack : List Pending) : List Token → Except Stop Value × List Token
  | [] => (.error (.error (endError stack)), [])
  | token :: rest =>
      match step limit token stack with
      | .ok (.more stack) => readFrom limit stack rest
      | .ok (.done value) => (.ok value, rest)
      | .error reason => (.error reason, unread reason token rest)

def read (limit : Nat) (tokens : List Token) : Except Stop Value × List Token :=
  readFrom limit [] tokens

/-- The value that a text is, if it is exactly one. -/
def parse (limit : Nat) (text : String) : Except Stop Value :=
  match read limit (Token.scanText text) with
  | (.error reason, _) => .error reason
  | (.ok value, []) => .ok value
  | (.ok _, token :: _) => .error (.error (.trailingInput token.text))

end Reader

end MiniLisp
