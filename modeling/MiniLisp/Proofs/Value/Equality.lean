import MiniLisp.Proofs.Value.Comparison
import MiniLisp.Value.Limited

/-! # Values that are found the same

Comparing values takes apart what is compared, level by level. A value whose text nests within the
limit is found the same as itself; a value is discernible when nothing else is.
-/

namespace MiniLisp

namespace Value

theorem same?_self {v : Value} {limit : Nat} (room : v.textDepth ≤ limit) :
    same? limit v v = some true := by
  rcases (same?_agrees limit v v).1 with found | ⟨-, deep, -⟩
  · rw [found, same_iff.mpr (same_refl v)]
  · rw [textDepth] at room
    omega

theorem sameWithin_self {v : Value} {limit : Nat} (room : v.textDepth ≤ limit) :
    v.sameWithin limit v = .ok true := by
  rw [sameWithin, same?_self room]

theorem same?_of_sameWithin {v w : Value} {limit : Nat}
    (h : v.sameWithin limit w = .ok true) : same? limit v w = some true := by
  unfold sameWithin at h
  split at h
  · rename_i answer found
    cases h
    exact found
  · cases h

/-- Only a cell is the same as a cell, with slots that are the same. -/
theorem same?_cell {limit : Nat} {left right w : Value}
    (h : same? limit (cell left right) w = some true) :
    ∃ below left' right', limit = below + 1 ∧ w = cell left' right' ∧
      same? below left left' = some true ∧ same? (below + 1) right right' = some true := by
  cases limit with
  | zero => simp [same?] at h
  | succ below =>
      cases w with
      | cell left' right' =>
          rw [same?] at h
          cases first : same? below left left' with
          | none => simp [first] at h
          | some answer =>
              cases answer with
              | false => simp [first] at h
              | true =>
                  rw [first] at h
                  exact ⟨below, left', right', rfl, rfl, first, h⟩
      | _ => simp [same?, sameAtom] at h

theorem same?_quoted {limit : Nat} {inner w : Value}
    (h : same? limit (quoted inner) w = some true) :
    ∃ below inner', limit = below + 1 ∧ w = quoted inner' ∧
      same? below inner inner' = some true := by
  cases limit with
  | zero => simp [same?] at h
  | succ below =>
      cases w with
      | quoted inner' => exact ⟨below, inner', rfl, rfl, h⟩
      | _ => simp [same?, sameAtom] at h

/-- No other value is ever found the same. -/
def Discernible (v : Value) : Prop := ∀ limit w, same? limit v w = some true → v = w

theorem discernible_nil : nil.Discernible := by
  intro limit w h
  cases limit with
  | zero => simp [same?] at h
  | succ below => cases w <;> simp [same?, sameAtom] at h ⊢

theorem discernible_ofList {items : List Value} (each : ∀ item ∈ items, item.Discernible) :
    (ofList items).Discernible := by
  induction items with
  | nil => exact discernible_nil
  | cons item items ih =>
      intro limit w h
      obtain ⟨below, left, right, rfl, rfl, first, rest⟩ := same?_cell h
      have later := ih fun other member => each other (by simp [member])
      rw [ofList_cons, each item (by simp) below left first, later (below + 1) right rest]

end Value

end MiniLisp
