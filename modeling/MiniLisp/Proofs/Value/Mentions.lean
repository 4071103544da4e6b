import MiniLisp.Proofs.Call.Formals
import MiniLisp.Proofs.Value.Hereditary
import MiniLisp.Value.Readable

/-! # The symbols of a value

A value mentions the names of the symbols in it, also those in the formals, in the body and in the
captured values of its callables. To mention only certain names is hereditary: reading and
evaluation take names over and never make one up.
-/

namespace MiniLisp

/-- A symbol of this name occurs in the value. -/
inductive Value.Mentions (name : String) : Value → Prop
  | symbol : Mentions name (.symbol name)
  | quoted {inner : Value} : Mentions name inner → Mentions name (.quoted inner)
  | left {left right : Value} : Mentions name left → Mentions name (.cell left right)
  | right {left right : Value} : Mentions name right → Mentions name (.cell left right)
  | formal {kind : CallKind} {birth : Birth} {scope : Scope} {params : Params} {body : Value} :
      name ∈ params.written → Mentions name (.compound kind birth scope params body)
  | body {kind : CallKind} {birth : Birth} {scope : Scope} {params : Params} {body : Value} :
      Mentions name body → Mentions name (.compound kind birth scope params body)
  | captured {kind : CallKind} {birth : Birth} {scope : Scope} {params : Params} {body : Value}
      {frame : Frame} {binding : String × Value} : frame ∈ scope → binding ∈ frame →
      Mentions name binding.2 → Mentions name (.compound kind birth scope params body)
  | answer {birth : Birth} {p : Probe} {answer : Value} : Mentions name answer →
      Mentions name (.probe birth p answer)

def Scope.Mentions (scope : Scope) (name : String) : Prop :=
  ∃ frame ∈ scope, ∃ binding ∈ frame, binding.2.Mentions name

namespace Value

theorem mentions_of_symbolNames {items : List Value} :
    ∀ {names : List String}, symbolNames items = .ok names →
      ∀ name ∈ names, (ofList items).Mentions name := by
  induction items with
  | nil =>
      intro names h name member
      cases h
      cases member
  | cons item items ih =>
      intro names h name member
      cases item with
      | symbol first =>
          rw [symbolNames] at h
          cases hn : symbolNames items with
          | error other => rw [hn] at h; cases h
          | ok more =>
              rw [hn] at h
              cases h
              rcases List.mem_cons.mp member with rfl | later
              · exact .left .symbol
              · exact .right (ih hn name later)
      | _ => cases h

/-- The formals that parameters are written with are symbols of the value that describes them. -/
theorem mentions_of_ofValue {limit : Nat} {formals : Value} {params : Params}
    (h : Params.ofValue limit formals = .ok params) :
    ∀ name ∈ params.written, formals.Mentions name := by
  obtain ⟨items, names, hl, hn, hw⟩ := Params.ofValue_eq_ok h
  rw [(Params.ofWritten_eq_ok hw).1, ← ofList_of_toList? hl]
  exact mentions_of_symbolNames hn

theorem hereditary_mentions (allowed : String → Prop) :
    Hereditary fun v => ∀ name, v.Mentions name → allowed name where
  nil name h := by cases h
  cell left right := by
    refine ⟨fun h => ⟨fun name hl => h name (.left hl), fun name hr => h name (.right hr)⟩, ?_⟩
    rintro ⟨hl, hr⟩ name h
    cases h with
    | left h => exact hl name h
    | right h => exact hr name h
  quoted inner := by
    refine ⟨fun h name hi => h name (.quoted hi), fun hi name h => ?_⟩
    cases h with
    | quoted h => exact hi name h
  parts kind birth scope params body h :=
    ⟨fun frame hf binding hb name hm => h name (.captured hf hb hm),
      fun name hm => h name (.body hm)⟩
  answer birth p answer h name hm := h name (.answer hm)
  build limit kind birth scope formals params body hp hf hs hb := by
    intro name h
    cases h with
    | formal member => exact hf name (mentions_of_ofValue hp name member)
    | body h => exact hb name h
    | captured frame binding h => exact hs _ frame _ binding name h

theorem mentions_of_mem_shownNames (v : Value) {name : String} (h : name ∈ v.shownNames) :
    v.Mentions name :=
  match v with
  | symbol other => by
      rw [shownNames, List.mem_singleton] at h
      rw [h]
      exact .symbol
  | quoted inner => .quoted (mentions_of_mem_shownNames inner h)
  | cell left right => by
      rcases List.mem_append.mp h with early | later
      · exact .left (mentions_of_mem_shownNames left early)
      · exact .right (mentions_of_mem_shownNames right later)
  | nil | number _ | native _ | compound .. | probe .. | stub .. => by cases h

def Legible (v : Value) : Prop := ∀ name, v.Mentions name → isReadable name = true

end Value

end MiniLisp
