import MiniLisp.Value.Chain

/-!
# Printed text

The canonical text of a value. A chain is written in parentheses, with its terminal after a dot
when it is no proper list; callables are written as placeholders.

Text nests with elements and quotes, not along a chain: `textDepth` says how deep.
-/

namespace MiniLisp

/-- Where a value stands: on its own, or as what follows the last element written. -/
inductive Place
  | element
  | rest
  deriving DecidableEq

namespace Place

/-- A text that is no list. As a rest it stands after a dot. -/
def atom (place : Place) (text : String) : String :=
  match place with
  | element => text
  | rest => " . " ++ text

/-- The inside of a list. As a rest it goes on in the same parentheses. -/
def list (place : Place) (inner : String) : String :=
  match place with
  | element => "(" ++ inner ++ ")"
  | rest => " " ++ inner

/-- The end of a list, which is written only where it stands alone. -/
def empty (place : Place) : String :=
  match place with
  | element => "nil"
  | rest => ""

/-- The level of nesting that a list adds at a place. -/
def level : Place → Nat
  | element => 1
  | rest => 0

end Place

namespace Value

def placeholder : CallKind → String
  | .function => "#<function>"
  | .form => "#<special-form>"

/-- The text of a value at a place; as a rest it brings its own separator. -/
def textAt (place : Place) : Value → String
  | nil => place.empty
  | symbol name => place.atom name
  | quoted inner => place.atom ("'" ++ inner.textAt .element)
  | cell left right => place.list (left.textAt .element ++ right.textAt .rest)
  | number n => place.atom (toString n)
  | native op => place.atom (placeholder op.kind)
  | compound kind .. => place.atom (placeholder kind)
  | probe _ p _ => place.atom (placeholder p.kind)
  | stub kind _ => place.atom (placeholder kind)

def text (v : Value) : String := v.textAt .element

def textDepthAt (place : Place) : Value → Nat
  | nil => place.level
  | quoted inner => inner.textDepthAt .element + 1
  | cell left right => max (left.textDepthAt .element) (right.textDepthAt .rest) + place.level
  | _ => 1

/-- How deep the text of a value nests: through elements, quotes and a dotted terminal. -/
def textDepth (v : Value) : Nat := v.textDepthAt .element

end Value

end MiniLisp
