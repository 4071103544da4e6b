import MiniLisp.Value.Basic

/-!
# The builtin scope

The root scope of a session: nil, the list primitives and the native forms.
-/

namespace MiniLisp

def builtinFrame : Frame :=
  ("nil", .nil) ::
    [Native.cons, .car, .cdr, .list, .quote, .lambda, .expander].map fun op => (op.name, .native op)

/-- The scope every session starts from. -/
def builtin : Scope := [builtinFrame]

end MiniLisp
