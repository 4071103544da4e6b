import MiniLisp.Proofs.Value.Hereditary
import MiniLisp.Reader.Basic

/-! # What the reader builds

A hereditary predicate that holds of every symbol among the tokens holds of the value that is read
from them. The invariant is carried by the pending forms on the stack.
-/

namespace MiniLisp

/-- Every finished item of a pending form satisfies `good`. -/
def Pending.All (good : Value → Prop) : Pending → Prop
  | .list items => ∀ item ∈ items, good item
  | .quote => True

namespace Reader

variable {good : Value → Prop} (limit : Nat)

def Progress.All (good : Value → Prop) : Progress → Prop
  | .more stack => ∀ pending ∈ stack, pending.All good
  | .done value => good value

def Taken (good : Value → Prop) : Except Stop Progress → Prop
  | .ok progress => progress.All good
  | .error reason => reason.Grounded good

theorem complete_all (hg : Hereditary good) {value : Value} {stack : List Pending}
    (hv : good value) (hs : ∀ pending ∈ stack, pending.All good) :
    (complete value stack).All good := by
  induction stack generalizing value with
  | nil => exact hv
  | cons top stack ih =>
      have later : ∀ pending ∈ stack, pending.All good :=
        fun pending member => hs pending (by simp [member])
      cases top with
      | quote => exact ih ((hg.quoted value).mpr hv) later
      | list items =>
          have first : (Pending.list (value :: items)).All good :=
            List.forall_mem_cons.mpr ⟨hv, hs (.list items) (by simp)⟩
          exact List.forall_mem_cons.mpr ⟨first, later⟩

theorem start_all (hg : Hereditary good) {token : Token} {stack : List Pending}
    (ht : token.kind = .symbol → good (.symbol token.text))
    (hs : ∀ pending ∈ stack, pending.All good) : Taken good (start limit token stack) := by
  unfold start
  split
  · trivial
  · cases hk : token.kind with
    | symbol => exact complete_all hg (ht hk) hs
    | quote => exact List.forall_mem_cons.mpr ⟨trivial, hs⟩
    | opening => exact List.forall_mem_cons.mpr ⟨List.forall_mem_nil _, hs⟩
    | closing => trivial
    | other name => trivial

theorem step_all (hg : Hereditary good) {token : Token} {stack : List Pending}
    (ht : token.kind = .symbol → good (.symbol token.text))
    (hs : ∀ pending ∈ stack, pending.All good) : Taken good (step limit token stack) := by
  unfold step
  split
  · rename_i items outer _
    have closed : good (.ofList items.reverse) :=
      (hg.ofList _).mpr fun item member => hs (.list items) (by simp) item (by simpa using member)
    exact complete_all hg closed fun pending member => hs pending (by simp [member])
  · exact start_all limit hg ht hs

/-- The invariant of a whole reading, from any pending forms. -/
theorem readFrom_all (hg : Hereditary good) {tokens : List Token}
    (ht : ∀ token ∈ tokens, token.kind = .symbol → good (.symbol token.text)) :
    ∀ stack, (∀ pending ∈ stack, Pending.All good pending) →
      match (readFrom limit stack tokens).1 with
      | .ok value => good value
      | .error reason => reason.Grounded good := by
  induction tokens with
  | nil => exact fun _ _ => trivial
  | cons token tokens ih =>
      intro stack hs
      have one := step_all limit hg (ht token (by simp)) hs
      have rest := ih fun other member => ht other (by simp [member])
      unfold readFrom
      rcases h : step limit token stack with reason | next | value
      · rw [h] at one
        exact one
      · rw [h] at one
        exact rest next one
      · rw [h] at one
        exact one

theorem parse_all (hg : Hereditary good) {text : String}
    (ht : ∀ token ∈ Token.scanText text, token.kind = .symbol → good (.symbol token.text)) :
    match parse limit text with
    | .ok value => good value
    | .error reason => reason.Grounded good := by
  have h := readFrom_all limit hg ht [] (List.forall_mem_nil _)
  unfold parse read
  rcases hr : readFrom limit [] (Token.scanText text) with ⟨result, rest⟩
  rw [hr] at h
  cases result with
  | error reason => exact h
  | ok value =>
      cases rest with
      | nil => exact h
      | cons token rest => trivial

end Reader

end MiniLisp
