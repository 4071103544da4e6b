import MiniLisp.Token.Basic
import MiniLisp.Value.Text

/-!
# Readable text

A name is readable when it is a symbol to the scanner. Printing forgets some structure: nil and
callables are written like symbols, and a dotted terminal like two more elements. `normal` is the
value that the text of a value shows; it has the same text.
-/

namespace MiniLisp

/-- Whether a name is read back as one symbol. -/
def isReadable (name : String) : Bool :=
  !name.toList.isEmpty && name.toList.all fun c => CharClass.of c = .letter

namespace Place

/-- What the text of a value that is no list shows at a place. -/
def shownAtom (place : Place) (value : Value) : Value :=
  match place with
  | element => value
  | rest => .ofList [.symbol ".", value]

/-- What the end of a list shows at a place. -/
def shownEmpty : Place → Value
  | element => .symbol "nil"
  | rest => .nil

end Place

namespace Value

/-- What the text of a value shows at a place. -/
def normalAt (place : Place) : Value → Value
  | nil => place.shownEmpty
  | symbol name => place.shownAtom (symbol name)
  | quoted inner => place.shownAtom (quoted (inner.normalAt .element))
  | cell left right => cell (left.normalAt .element) (right.normalAt .rest)
  | number n => place.shownAtom (symbol (toString n))
  | native op => place.shownAtom (symbol (placeholder op.kind))
  | compound kind .. => place.shownAtom (symbol (placeholder kind))
  | probe _ p _ => place.shownAtom (symbol (placeholder p.kind))
  | stub kind _ => place.shownAtom (symbol (placeholder kind))

/-- The value that the text of a value shows. -/
def normal (v : Value) : Value := v.normalAt .element

def shownNames : Value → List String
  | symbol name => [name]
  | quoted inner => inner.shownNames
  | cell left right => left.shownNames ++ right.shownNames
  | _ => []

/-- The values that read back unchanged: readable symbols, quotes of such values, and non-empty
lists of them. -/
inductive Plain : Value → Prop
  | symbol {name : String} : isReadable name = true → Plain (symbol name)
  | quoted {inner : Value} : Plain inner → Plain (quoted inner)
  | list (item : Value) (items : List Value) :
      (∀ v ∈ item :: items, Plain v) → Plain (ofList (item :: items))

theorem textAt_shownAtom (place : Place) (v : Value) :
    (place.shownAtom v).textAt place = place.atom (v.textAt .element) := by
  cases place with
  | element => rfl
  | rest =>
      simp only [Place.shownAtom, ofList, chain_cons, chain_nil, textAt, Place.list, Place.atom,
        Place.empty, String.append_empty]
      rw [← String.append_assoc, ← String.append_assoc]
      rfl

theorem textAt_normalAt (place : Place) (v : Value) :
    (v.normalAt place).textAt place = v.textAt place :=
  match v with
  | nil => by cases place <;> rfl
  | symbol _ | number _ | native _ | compound .. | probe .. | stub .. => textAt_shownAtom place _
  | quoted inner => by
      rw [normalAt, textAt_shownAtom, textAt, textAt, textAt_normalAt .element inner]
      rfl
  | cell left right => by
      rw [normalAt, textAt, textAt, textAt_normalAt .element left, textAt_normalAt .rest right]

/-- The text of a value is the text of what it shows. -/
theorem text_normal (v : Value) : v.normal.text = v.text := textAt_normalAt .element v

end Value

end MiniLisp
