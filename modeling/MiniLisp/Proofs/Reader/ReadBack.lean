import MiniLisp.Proofs.Reader.Acceptance
import MiniLisp.Proofs.Reader.Contents
import MiniLisp.Proofs.Reader.Spacing
import MiniLisp.Proofs.Value.Equality
import MiniLisp.Proofs.Value.Mentions

/-! # Values that read back unchanged

Exactly the plain values are the same after printing and reading: readable symbols, quotes of plain
values and non-empty lists of them. What is read shows only readable names, whatever was printed, so
a value that reads back is its own normal form; and of what the grammar derives only plain values
are.
-/

namespace MiniLisp

/-- What the grammar derives holds no callables, so nothing else is the same. -/
theorem Derives.discernible {tokens : List Token} {value : Value} (derived : Derives tokens value) :
    value.Discernible := by
  induction derived with
  | symbol name =>
      intro limit w h
      cases limit with
      | zero => simp [Value.same?] at h
      | succ below =>
          cases w <;> simp [Value.same?, Value.sameAtom] at h
          rw [h]
  | quote inner ih =>
      intro limit w h
      obtain ⟨below, other, rfl, rfl, same⟩ := Value.same?_quoted h
      rw [ih below other same]
  | list parts elements ih =>
      refine Value.discernible_ofList fun item member => ?_
      obtain ⟨part, hp, rfl⟩ := List.mem_map.mp member
      exact ih part hp

/-! ## Plain values -/

theorem Value.mem_shownNames_ofList {items : List Value} {name : String} :
    name ∈ (ofList items).shownNames ↔ ∃ item ∈ items, name ∈ item.shownNames := by
  induction items with
  | nil => simp [shownNames]
  | cons item items ih =>
      rw [ofList_cons, shownNames, List.mem_append, ih]
      simp

theorem Value.normal_ofList (item : Value) (items : List Value) :
    (ofList (item :: items)).normal = ofList ((item :: items).map normal) := by
  rw [normal_of_isCell rfl, items_ofList, terminal_ofList]
  simp [dotted, isNil]

theorem Value.map_normal_eq_self_iff {items : List Value} :
    items.map normal = items ↔ ∀ item ∈ items, item.normal = item := by
  have whole : items.map normal = items ↔ items.map normal = items.map id := by rw [List.map_id]
  rw [whole, List.map_inj_left]
  rfl

theorem Value.Plain.readable {v : Value} (plain : v.Plain) :
    ∀ name ∈ v.shownNames, isReadable name = true := by
  induction plain with
  | symbol readable =>
      intro name member
      rw [shownNames, List.mem_singleton] at member
      rw [member, readable]
  | quoted _ ih => exact ih
  | list item items _ ih =>
      intro name member
      obtain ⟨other, ho, shown⟩ := mem_shownNames_ofList.mp member
      exact ih other ho name shown

/-- Plain values are their own normal forms. -/
theorem Value.Plain.normal_eq {v : Value} (plain : v.Plain) : v.normal = v := by
  induction plain with
  | symbol => rfl
  | quoted _ ih => exact congrArg Value.quoted ih
  | list item items _ ih => rw [normal_ofList, map_normal_eq_self_iff.mpr ih]

/-- Of what the grammar derives, with readable names, only plain values are their own normal forms:
the empty list is written as a symbol. -/
theorem Derives.plain {tokens : List Token} {value : Value} (derived : Derives tokens value)
    (readable : ∀ name ∈ value.shownNames, isReadable name = true)
    (canonical : value.normal = value) : value.Plain := by
  induction derived with
  | symbol name => exact .symbol (readable name (by simp [Value.shownNames]))
  | quote inner ih =>
      have same : Value.quoted _ = Value.quoted _ := canonical
      injection same with same
      exact .quoted (ih readable same)
  | list parts elements ih =>
      cases parts with
      | nil => cases canonical
      | cons part parts =>
          have each : ∀ item ∈ (part :: parts).map Prod.snd, item.normal = item := by
            apply Value.map_normal_eq_self_iff.mp
            apply Value.ofList_injective
            rw [List.map_cons, ← Value.normal_ofList]
            exact canonical
          refine .list part.2 (parts.map Prod.snd) fun item member => ?_
          have shown : ∀ name ∈ item.shownNames, isReadable name = true := fun name hn =>
            readable name (Value.mem_shownNames_ofList.mpr ⟨item, member, hn⟩)
          have same : item.normal = item := each item member
          obtain ⟨other, ho, rfl⟩ : ∃ other ∈ part :: parts, other.2 = item :=
            List.mem_map.mp member
          exact ih other ho shown same

/-- What is read shows readable names only. -/
theorem Reader.readable_of_parse {limit : Nat} {text : String} {value : Value}
    (h : parse limit text = .ok value) : ∀ name ∈ value.shownNames, isReadable name = true := by
  have symbols : ∀ token ∈ Token.scanText text, token.kind = .symbol →
      ∀ name, (Value.symbol token.text).Mentions name → isReadable name = true := by
    rintro ⟨kind, name⟩ member rfl other mentioned
    cases mentioned
    exact Token.isReadable_of_mem_scanText member
  have contents := parse_all limit (Value.hereditary_mentions (isReadable · = true)) symbols
  rw [h] at contents
  exact fun name member => contents name (value.mentions_of_mem_shownNames member)

/-- Printing a value and reading the text comes to a value that is the same exactly when the value
is plain and nests within the limit, whatever the names of its symbols are. -/
theorem Value.reads_back_iff (v : Value) (limit : Nat) :
    (∃ text read, v.textWithin limit = .ok text ∧ Reader.parse limit text = .ok read ∧
      read.sameWithin limit v = .ok true) ↔ v.Plain ∧ v.textDepth ≤ limit := by
  constructor
  · rintro ⟨text, read, printed, parsed, same⟩
    obtain ⟨room, rfl⟩ := textWithin_eq_ok_iff.mp printed
    have derived := (Reader.parse_eq_ok_iff.mp parsed).1
    have unchanged : read = v := derived.discernible limit v (same?_of_sameWithin same)
    subst unchanged
    -- What was read shows readable names, so the text of it is read as its normal form.
    have readable := Reader.readable_of_parse parsed
    have normal := (parse_text readable room).2.1
    rw [parsed] at normal
    exact ⟨derived.plain readable (Except.ok.inj normal).symm, room⟩
  · rintro ⟨plain, room⟩
    obtain ⟨printed, read, -⟩ := parse_text plain.readable room
    rw [plain.normal_eq] at read
    exact ⟨v.text, v, printed, read, sameWithin_self room⟩

end MiniLisp
