import MiniLisp.Text.Blank

/-!
# Tokens

A text is cut into parentheses, quote marks and symbols. A symbol is a maximal run of characters
that are neither blank nor one of the three marks; blanks only separate.
-/

namespace MiniLisp

/-- The kinds of tokens. The scanner never makes an `other`; a host may. -/
inductive TokenKind
  | opening
  | closing
  | quote
  | symbol
  | other (name : String)
  deriving DecidableEq

structure Token where
  kind : TokenKind
  text : String
  deriving DecidableEq

/-- What a character means to the scanner. -/
inductive CharClass
  | blank
  | mark (kind : TokenKind)
  | letter
  deriving DecidableEq

def CharClass.of (c : Char) : CharClass :=
  if c = '(' then mark .opening
  else if c = ')' then mark .closing
  else if c = '\'' then mark .quote
  else if Text.isBlank c then blank
  else letter

namespace Token

def ofMark (kind : TokenKind) (c : Char) : Token := ⟨kind, String.singleton c⟩

/-- The symbol whose letters, last first, are `letters`; no token if there are none. -/
def flush : List Char → List Token
  | [] => []
  | letters => [⟨.symbol, String.ofList letters.reverse⟩]

/-- The tokens of the characters, after the letters of an unfinished symbol, last first. -/
def scan (letters : List Char) : List Char → List Token
  | [] => flush letters
  | c :: rest =>
      match CharClass.of c with
      | .blank => flush letters ++ scan [] rest
      | .mark kind => flush letters ++ ofMark kind c :: scan [] rest
      | .letter => scan (c :: letters) rest

def scanText (text : String) : List Token := scan [] text.toList

end Token

end MiniLisp
