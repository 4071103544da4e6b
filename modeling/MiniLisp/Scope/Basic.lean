import MiniLisp.Value.Basic

/-!
# Scopes

A scope is a chain of frames, innermost first. Frames never change: a scope is extended by a new
frame in front of it, and a name means its innermost binding.
-/

namespace MiniLisp

namespace Frame

/-- Bind `name` to `value`. A name that is already bound keeps its position. -/
def insert (frame : Frame) (name : String) (value : Value) : Frame :=
  match frame with
  | [] => [(name, value)]
  | binding :: rest =>
      if binding.1 = name then (name, value) :: rest else binding :: insert rest name value

/-- The frame of `bindings`, made one after the other. -/
def ofList (bindings : List (String × Value)) : Frame :=
  bindings.foldl (fun frame binding => insert frame binding.1 binding.2) []

def get? (frame : Frame) (name : String) : Option Value := List.lookup name frame

theorem get?_cons (binding : String × Value) (frame : Frame) (name : String) :
    Frame.get? (binding :: frame) name =
      if name = binding.1 then some binding.2 else Frame.get? frame name := by
  unfold Frame.get?
  rw [List.lookup_cons]
  by_cases same : name = binding.1
  · simp [same]
  · simp [same, beq_false_of_ne same]

def names (frame : Frame) : List String := frame.map Prod.fst

end Frame

namespace Scope

/-- The innermost scope of the chain that binds `name` itself. -/
def find? (scope : Scope) (name : String) : Option Scope :=
  match scope with
  | [] => none
  | frame :: outer =>
      if (Frame.get? frame name).isSome then some (frame :: outer) else find? outer name

def get? (scope : Scope) (name : String) : Option Value :=
  match scope with
  | [] => none
  | frame :: outer => (Frame.get? frame name).or (get? outer name)

/-- Every visible name once, innermost frame first. -/
def names (scope : Scope) : List String :=
  match scope with
  | [] => []
  | frame :: outer =>
      Frame.names frame ++ (names outer).filter fun name => !(Frame.names frame).contains name

/-- The visible names that begin with `start`, in the order of `names`. -/
def completions (scope : Scope) (start : String) : List String :=
  (names scope).filter fun name => start.toList.isPrefixOf name.toList

/-- The completion of `start` at a position, which counts from the end when it is negative. -/
def completion? (scope : Scope) (start : String) (position : Int) : Option String :=
  let found := completions scope start
  let index := if position < 0 then position + found.length else position
  if index < 0 then none else found[index.toNat]?

def depth (scope : Scope) : Nat := scope.length - 1

end Scope

end MiniLisp
