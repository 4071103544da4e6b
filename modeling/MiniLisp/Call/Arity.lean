/-!
# Arity

How many arguments a callable takes: a fixed number, or that number and any more.
-/

namespace MiniLisp

/-- An argument count: exactly `required`, or at least `required` when `variadic`. -/
structure Arity where
  required : Int
  variadic : Bool := false
  deriving DecidableEq

namespace Arity

def accepts (arity : Arity) (count : Int) : Bool :=
  if arity.variadic then decide (arity.required ≤ count) else decide (count = arity.required)

def text (arity : Arity) : String :=
  if arity.variadic then "at least " ++ toString arity.required else toString arity.required

theorem accepts_variadic (required count : Int) :
    accepts ⟨required, true⟩ count = true ↔ required ≤ count := by
  simp [accepts]

theorem accepts_fixed (required count : Int) :
    accepts ⟨required, false⟩ count = true ↔ count = required := by
  simp [accepts]

end Arity

end MiniLisp
