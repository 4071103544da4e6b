import MiniLisp.Call.Formals
import MiniLisp.Scope.Basic

/-! # Hereditary predicates

A predicate on values is hereditary when it passes between a value and the parts that reading and
evaluation put into it or take out of it. It then passes along lists, look-ups and the bindings of
a call.
-/

namespace MiniLisp

def Scope.All (good : Value → Prop) (scope : Scope) : Prop :=
  ∀ frame ∈ scope, ∀ binding ∈ frame, good binding.2

/-- A predicate that evaluation carries from values to their parts and back. -/
structure Hereditary (good : Value → Prop) : Prop where
  nil : good .nil
  cell : ∀ left right, good (.cell left right) ↔ good left ∧ good right
  quoted : ∀ inner, good (.quoted inner) ↔ good inner
  parts : ∀ kind birth scope params body, good (.compound kind birth scope params body) →
    Scope.All good scope ∧ good body
  answer : ∀ birth probe answer, good (.probe birth probe answer) → good answer
  build : ∀ limit kind birth scope formals params body, Params.ofValue limit formals = .ok params →
    good formals → Scope.All good scope → good body →
      good (.compound kind birth scope params body)

/-- The stops that values in `good` can lead to: no call lacks a rule unless a stub is among them. -/
def Stop.Grounded (good : Value → Prop) : Stop → Prop
  | .noRule .. => ∃ kind birth, good (.stub kind birth)
  | _ => True

section

variable {good : Value → Prop}

theorem Stop.grounded_ofError (limit : Nat) (error : Error) :
    (Stop.ofError limit error).Grounded good := by
  unfold Stop.ofError
  split <;> trivial

theorem Scope.All.cons {frame : Frame} {scope : Scope} (hf : ∀ binding ∈ frame, good binding.2)
    (hs : scope.All good) : Scope.All good (frame :: scope) := by
  intro other member
  rcases List.mem_cons.mp member with rfl | later
  · exact hf
  · exact hs other later

theorem Frame.mem_of_get? {frame : Frame} {name : String} {value : Value}
    (h : Frame.get? frame name = some value) : (name, value) ∈ frame := by
  induction frame with
  | nil => cases h
  | cons binding frame ih =>
      rw [Frame.get?_cons] at h
      by_cases same : name = binding.1
      · rw [if_pos same] at h
        cases h
        simp [same]
      · rw [if_neg same] at h
        exact List.mem_cons_of_mem _ (ih h)

theorem Scope.All.get? {scope : Scope} {name : String} {value : Value} (hs : scope.All good)
    (h : scope.get? name = some value) : good value := by
  induction scope with
  | nil => simp [Scope.get?] at h
  | cons frame outer ih =>
      rw [Scope.get?] at h
      cases hf : Frame.get? frame name with
      | some bound =>
          rw [hf, Option.some_or] at h
          cases h
          exact hs frame (by simp) _ (Frame.mem_of_get? hf)
      | none =>
          rw [hf, Option.none_or] at h
          exact ih (fun other member => hs other (by simp [member])) h

theorem Hereditary.ofList (hg : Hereditary good) (items : List Value) :
    good (.ofList items) ↔ ∀ v ∈ items, good v := by
  induction items with
  | nil => simp [Value.ofList, hg.nil]
  | cons item items ih =>
      unfold Value.ofList at ih ⊢
      rw [Value.chain_cons, hg.cell, ih, List.forall_mem_cons]

theorem Value.ofList_of_toList? {v : Value} {items : List Value} (h : v.toList? = some items) :
    Value.ofList items = v := by
  unfold Value.toList? Value.isProper at h
  split at h
  · rename_i proper
    cases h
    have hn : v.terminal = .nil := by
      cases ht : v.terminal <;> simp [ht, Value.isNil] at proper ⊢
    have whole := v.chain_items_terminal
    rw [hn] at whole
    exact whole
  · cases h

theorem Hereditary.toList? (hg : Hereditary good) {v : Value} {items : List Value}
    (hv : good v) (h : v.toList? = some items) : ∀ item ∈ items, good item := by
  rw [← Value.ofList_of_toList? h] at hv
  exact (hg.ofList items).mp hv

theorem Hereditary.bind? (hg : Hereditary good) {params : Params} {args : List Value}
    {frame : Frame} (ha : ∀ arg ∈ args, good arg) (h : params.bind? args = some frame) :
    ∀ binding ∈ frame, good binding.2 := by
  unfold Params.bind? at h
  rw [Params.bindFixed_eq] at h
  have hz : ∀ binding ∈ params.fixed.zip args, good binding.2 :=
    fun binding member => ha _ (List.of_mem_zip member).2
  split at h
  · rename_i fixed extra rest hb _
    split at hb
    · cases hb
      cases h
      intro binding member
      rcases List.mem_append.mp member with early | last
      · exact hz binding early
      · rw [List.mem_singleton] at last
        subst last
        exact (hg.ofList _).mpr fun v hv => ha v (List.mem_of_mem_drop hv)
    · cases hb
  · rename_i fixed hb _
    split at hb
    · injection hb with hb
      injection hb with hb _
      cases h
      rwa [← hb]
    · cases hb
  · cases h

end

end MiniLisp
