import MiniLisp.Call.Arity

/-!
# Parameter lists

A callable names its fixed parameters and, last, at most one parameter that collects the rest.
-/

namespace MiniLisp

/-- The parameters of a user-defined callable: fixed names, then a name for the rest. -/
structure Params where
  fixed : List String
  rest : Option String := none
  deriving DecidableEq

/-- The name that a formal written `*name` collects the rest under. A lone `*` is an ordinary
name. -/
def restName? (formal : String) : Option String :=
  match formal.toList with
  | '*' :: c :: cs => some (String.ofList (c :: cs))
  | _ => none

namespace Params

def names (params : Params) : List String := params.fixed ++ params.rest.toList

/-- The formals as they are written, with the mark of the rest parameter. -/
def written (params : Params) : List String :=
  params.fixed ++ (params.rest.map ("*" ++ ·)).toList

def arity (params : Params) : Arity := ⟨params.fixed.length, params.rest.isSome⟩

end Params

end MiniLisp
