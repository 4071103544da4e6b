import MiniLisp.Value.Basic

/-!
# Chains of cells

Cells linked through their right slot form a chain with a terminal value that is no cell. A chain
that ends in nil is a proper list. Every value is the chain of its `items` and its `terminal`.
-/

namespace MiniLisp.Value

/-- The chain of `items` that ends in `terminal`. -/
def chain (items : List Value) (terminal : Value) : Value := items.foldr cell terminal

def ofList (items : List Value) : Value := chain items nil

def items : Value → List Value
  | cell left right => left :: right.items
  | _ => []

def terminal : Value → Value
  | cell _ right => right.terminal
  | v => v

def cells : Value → List Value
  | cell left right => cell left right :: right.cells
  | _ => []

def isNil : Value → Bool
  | nil => true
  | _ => false

def isProper (v : Value) : Bool := v.terminal.isNil

def toList? (v : Value) : Option (List Value) := if v.isProper then some v.items else none

@[simp] theorem chain_nil (terminal : Value) : chain [] terminal = terminal := rfl

@[simp] theorem chain_cons (item : Value) (items : List Value) (terminal : Value) :
    chain (item :: items) terminal = cell item (chain items terminal) := rfl

/-- Every value is the chain of its items and its terminal. -/
theorem chain_items_terminal (v : Value) : chain v.items v.terminal = v := by
  fun_induction items v with
  | case1 left right ih => simp [terminal, ih]
  | case2 v h =>
      unfold terminal
      split
      · exact absurd rfl (h _ _)
      · rfl

@[simp] theorem ofList_nil : ofList [] = nil := rfl

@[simp] theorem ofList_cons (item : Value) (items : List Value) :
    ofList (item :: items) = cell item (ofList items) := rfl

@[simp] theorem items_ofList (items : List Value) : (ofList items).items = items := by
  induction items with
  | nil => rfl
  | cons item items ih => rw [ofList_cons, Value.items, ih]

@[simp] theorem terminal_ofList (items : List Value) : (ofList items).terminal = nil := by
  induction items with
  | nil => rfl
  | cons item items ih => rw [ofList_cons, terminal, ih]

theorem toList?_ofList (items : List Value) : (ofList items).toList? = some items := by
  simp [toList?, isProper, isNil]

theorem ofList_injective {items items' : List Value} (h : ofList items = ofList items') :
    items = items' := by
  rw [← items_ofList items, h, items_ofList]

end MiniLisp.Value
