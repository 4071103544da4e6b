import MiniLisp.Call.Formals
import MiniLisp.Scope.Basic

/-! # Parameters that formals describe

Parameters made from a list of formals are written as that list and bind distinct names; a call
binds exactly those names, in order.
-/

namespace MiniLisp

namespace Params

theorem star_append_of_restName? {formal rest : String} (h : restName? formal = some rest) :
    "*" ++ rest = formal := by
  unfold restName? at h
  split at h
  · rename_i c cs hl
    cases h
    apply String.toList_injective
    simp [hl]
  · cases h

theorem distinct_eq_ok {params found : Params}
    (h : ofWritten.distinct params = .ok found) : found = params ∧ params.names.Nodup := by
  unfold ofWritten.distinct at h
  split at h
  · rename_i nodup
    cases h
    exact ⟨rfl, nodup⟩
  · cases h

theorem ofWritten_eq_ok {formals : List String} {params : Params}
    (h : ofWritten formals = .ok params) : params.written = formals ∧ params.names.Nodup := by
  unfold ofWritten at h
  dsimp only at h
  split at h
  · cases h
  · split at h
    · rename_i rest found
      obtain ⟨rfl, nodup⟩ := distinct_eq_ok h
      obtain ⟨last, hlast, hrest⟩ := Option.bind_eq_some_iff.mp found
      have whole : formals.dropLast ++ [last] = formals := by
        obtain ⟨early, rfl⟩ := List.getLast?_eq_some_iff.mp hlast
        simp
      refine ⟨?_, nodup⟩
      simpa [written, star_append_of_restName? hrest] using whole
    · split at h
      · obtain ⟨rfl, nodup⟩ := distinct_eq_ok h
        exact ⟨by simp [written], nodup⟩
      · cases h

def Formed (params : Params) : Prop := ∃ formals, ofWritten formals = .ok params

theorem elements_eq_ok {limit : Nat} {v : Value} {items : List Value}
    (h : v.elements limit = .ok items) : v.toList? = some items := by
  unfold Value.elements at h
  split at h
  · rename_i found
    cases h
    exact found
  · cases h

theorem ofValue_eq_ok {limit : Nat} {formals : Value} {params : Params}
    (h : ofValue limit formals = .ok params) :
    ∃ items names, formals.toList? = some items ∧ symbolNames items = .ok names ∧
      ofWritten names = .ok params := by
  unfold ofValue at h
  split at h
  · cases h
  · cases h
  · rename_i items hl
    split at h
    · cases h
    · rename_i names hn
      refine ⟨items, names, elements_eq_ok hl, hn, ?_⟩
      cases hw : ofWritten names with
      | error error => rw [hw] at h; cases h
      | ok found => rw [hw] at h; cases h; rfl

theorem symbolNames_symbols (names : List String) :
    symbolNames (names.map .symbol) = .ok names := by
  induction names with
  | nil => rfl
  | cons name names ih => simp [symbolNames, ih, Except.map]

/-- Distinct names without a mark are fixed parameters. -/
theorem ofWritten_unmarked {names : List String} (distinct : names.Nodup)
    (unmarked : ∀ name ∈ names, restName? name = none) : ofWritten names = .ok ⟨names, none⟩ := by
  have rests : names.filter (fun name => (restName? name).isSome) = [] := by
    rw [List.filter_eq_nil_iff]
    intro name member
    simp [unmarked name member]
  have last : names.getLast?.bind restName? = none := by
    cases h : names.getLast? with
    | none => rfl
    | some name => exact unmarked name (List.mem_of_getLast? h)
  unfold ofWritten
  simp [rests, last, ofWritten.distinct, Params.names, distinct]

/-- A list of symbols is read as the formals with their names. -/
theorem ofValue_symbols (limit : Nat) (names : List String) :
    ofValue limit (.ofList (names.map .symbol)) = (ofWritten names).mapError .error := by
  have elements : (Value.ofList (names.map .symbol)).elements limit = .ok (names.map .symbol) := by
    rw [Value.elements, Value.toList?_ofList]
  unfold ofValue
  rw [elements]
  simp only [symbolNames_symbols]

theorem ofValue_unmarked (limit : Nat) {names : List String} (distinct : names.Nodup)
    (unmarked : ∀ name ∈ names, restName? name = none) :
    ofValue limit (.ofList (names.map .symbol)) = .ok ⟨names, none⟩ := by
  rw [ofValue_symbols, ofWritten_unmarked distinct unmarked]
  rfl

theorem bind?_fixed (names : List String) {args : List Value} (h : names.length = args.length) :
    (⟨names, none⟩ : Params).bind? args = some (names.zip args) := by
  unfold bind?
  rw [bindFixed_eq, if_pos (Nat.le_of_eq h), List.drop_of_length_le (Nat.le_of_eq h.symm)]

theorem formed_of_ofValue {limit : Nat} {formals : Value} {params : Params}
    (h : ofValue limit formals = .ok params) : params.Formed := by
  obtain ⟨_, names, _, _, hw⟩ := ofValue_eq_ok h
  exact ⟨names, hw⟩

theorem names_of_bind? {params : Params} {args : List Value} {frame : Frame}
    (h : params.bind? args = some frame) : Frame.names frame = params.names := by
  obtain ⟨fixed, rest⟩ := params
  unfold bind? at h
  rw [bindFixed_eq] at h
  unfold Frame.names names
  by_cases hl : fixed.length ≤ args.length
  · have hz : (fixed.zip args).map Prod.fst = fixed := List.map_fst_zip hl
    rw [if_pos hl] at h
    cases rest with
    | some rest =>
        cases h
        simp [hz]
    | none =>
        cases hd : args.drop fixed.length with
        | nil =>
            rw [hd] at h
            cases h
            simpa using hz
        | cons extra more =>
            rw [hd] at h
            cases h
  · rw [if_neg hl] at h
    cases h

end Params

end MiniLisp
