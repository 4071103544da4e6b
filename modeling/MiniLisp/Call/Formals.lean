import MiniLisp.Error.Basic

/-!
# From formals to parameters, from arguments to bindings

Formals are a proper list of distinct symbols of which only the last may collect the rest. A call
binds each parameter to its argument, and the rest parameter to the list of the remaining ones.
-/

namespace MiniLisp

/-- The elements of a proper list, or why the value is none. -/
def Value.elements (limit : Nat) (v : Value) : Except Stop (List Value) :=
  match v.toList? with
  | some items => .ok items
  | none => .error (if v.isCell then .error .improperList else .ofError limit (.notList v))

/-- The names of a list of symbols, or the first element that is none. -/
def symbolNames : List Value → Except Value (List String)
  | [] => .ok []
  | .symbol name :: items => (symbolNames items).map (name :: ·)
  | item :: _ => .error item

namespace Params

/-- The parameters written as `formals`, where a rest parameter is marked by its star. -/
def ofWritten (formals : List String) : Except Error Params :=
  let rests := formals.filter fun formal => (restName? formal).isSome
  -- Several marked formals are reported as such, wherever they stand.
  if 1 < rests.length then .error .severalRests
  else
    match formals.getLast?.bind restName? with
    | some rest => distinct ⟨formals.dropLast, some rest⟩
    | none => if rests.isEmpty then distinct ⟨formals, none⟩ else .error .restNotLast
where
  /-- Refuse parameters that bind a name twice. -/
  distinct (params : Params) : Except Error Params :=
    if params.names.Nodup then .ok params else .error (.duplicateFormal params.names)

/-- The parameters that a value of the language describes. -/
def ofValue (limit : Nat) (formals : Value) : Except Stop Params :=
  match formals.elements limit with
  -- The refusal of the elements shows the value, although its message is replaced.
  | .error .overflow => .error .overflow
  | .error _ => .error (.error .formalsNotList)
  | .ok items =>
      match symbolNames items with
      | .error item => .error (.ofError limit (.formalNotSymbol item))
      | .ok names => (ofWritten names).mapError .error

/-- Bind the fixed parameters in order; what is left over is for the rest. -/
def bindFixed : List String → List Value → Option (Frame × List Value)
  | [], args => some ([], args)
  | name :: names, arg :: args =>
      (bindFixed names args).map fun bound => ((name, arg) :: bound.1, bound.2)
  | _ :: _, [] => none

/-- The bindings of a call, if the arguments fit. -/
def bind? (params : Params) (args : List Value) : Option Frame :=
  match bindFixed params.fixed args, params.rest with
  | some (frame, extra), some rest => some (frame ++ [(rest, .ofList extra)])
  | some (frame, []), none => some frame
  | _, _ => none

theorem bindFixed_eq (names : List String) (args : List Value) :
    bindFixed names args =
      if names.length ≤ args.length then some (names.zip args, args.drop names.length)
      else none := by
  induction names generalizing args with
  | nil => simp [bindFixed]
  | cons name names ih =>
      cases args with
      | nil => simp [bindFixed]
      | cons arg args =>
          rw [bindFixed, ih]
          by_cases h : names.length ≤ args.length
          · simp [h]
          · simp [h]

/-- A call binds its parameters exactly when the arity accepts the number of arguments. -/
theorem bind?_isSome (params : Params) (args : List Value) :
    (params.bind? args).isSome = params.arity.accepts args.length := by
  obtain ⟨fixed, rest⟩ := params
  rw [bind?, bindFixed_eq]
  by_cases h : fixed.length ≤ args.length
  · rw [if_pos h]
    cases rest with
    | some rest => simp [Arity.accepts, arity, h]
    | none =>
        cases hd : args.drop fixed.length with
        | nil =>
            have same : args.length = fixed.length := by
              have := List.drop_eq_nil_iff.mp hd
              omega
            simp [Arity.accepts, arity, same]
        | cons extra more =>
            have longer : (args.length : Int) ≠ fixed.length := by
              intro same
              rw [← Int.ofNat.inj same, List.drop_length] at hd
              cases hd
            simp only [Arity.accepts, arity, Option.isSome_none]
            exact (decide_eq_false longer).symm
  · rw [if_neg h]
    cases rest with
    | some rest => simp [Arity.accepts, arity, h]
    | none =>
        have shorter : (args.length : Int) ≠ fixed.length := by omega
        simp only [Arity.accepts, arity, Option.isSome_none]
        exact (decide_eq_false shorter).symm

end Params

end MiniLisp
