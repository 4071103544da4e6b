import MiniLisp.Value.Basic

/-!
# Equality of values

Values are equal when they have the same structure. Builtin callables are equal to themselves;
every other callable is equal only to the one of its kind with its birth.

The comparison walks along chains and descends into elements and quotes, so its nesting is bounded
by a limit: `same?` answers `none` when two values agree to a greater depth than that. `compare?` is
the same comparison as a loop along two chains, which ends early at a cell that both have in common.
-/

namespace MiniLisp.Value

/-- Equality of two values that are not both cells and not both quoted. -/
def sameAtom : Value → Value → Bool
  | nil, nil => true
  | symbol a, symbol b => a == b
  | number a, number b => a == b
  | native a, native b => a == b
  | compound kind a _ _ _, compound kind' b _ _ _ => kind == kind' && a == b
  | probe a p _, probe b q _ => p.kind == q.kind && a == b
  | stub kind a, stub kind' b => kind == kind' && a == b
  | _, _ => false

def same : Value → Value → Bool
  | quoted a, quoted b => same a b
  | cell l r, cell l' r' => same l l' && same r r'
  | a, b => sameAtom a b

/-- Structural equality with at most `limit` levels of nesting. -/
def same? : Nat → Value → Value → Option Bool
  | 0, _, _ => none
  | limit + 1, quoted a, quoted b => same? limit a b
  | limit + 1, cell l r, cell l' r' =>
      match same? limit l l' with
      | some true => same? (limit + 1) r r'
      | answer => answer
  | _ + 1, a, b => some (sameAtom a b)

/-! ## Along two chains -/

/-- A way from a value to one of its parts. -/
inductive Slot
  | left
  | right
  | inner

/-- Which cells of two values are one object, by the way to them from the outside. -/
abbrev Sharing := List Slot → Value → Value → Bool

def differs (found : Option Bool) : Option Bool := found.map (!·)

/-- Go along two chains as long as they both go on. -/
def walk (shared : Sharing) (compare : List Slot → Value → Value → Option Bool)
    (path : List Slot) : Value → Value → Option Bool
  | cell left right, cell left' right' =>
      if shared path (cell left right) (cell left' right') then some true
      else
        match differs (compare (.left :: path) left left') with
        | some true => some false
        | some false => walk shared compare (.right :: path) right right'
        | none => none
  -- One chain goes on where the other one ends, or both end in values that are no cells.
  | a, b => if a.isCell || b.isCell then some false else compare path a b

/-- Compare values within a limit, with a loop along chains. -/
def compare? (shared : Sharing) : Nat → List Slot → Value → Value → Option Bool
  | 0, _, _, _ => none
  | limit + 1, path, quoted a, quoted b => compare? shared limit (.inner :: path) a b
  | limit + 1, path, a, b =>
      if a.isCell || b.isCell then walk shared (compare? shared limit) path a b
      else some (sameAtom a b)

end MiniLisp.Value
