import Mathlib.Data.List.Forall2
import MiniLisp.Eval.Action
import MiniLisp.Proofs.Value.Alike
import MiniLisp.Proofs.Value.Hereditary

/-! # Values that two evaluations take for each other

A sight says what an evaluation may meet: which values turn up that both sides share, which names an
expression may look up, and which events may happen. Two values are linked in a sight when they are
paired and the scopes that their callables have captured differ only in what the bodies cannot see.
Links pass along lists, look-ups and the bindings of a call.
-/

namespace MiniLisp

/-- What an evaluation may meet. The names that an expression sees are those of its symbols, those
that its parts see, and, where code may be expanded, those that the code sees. -/
structure Sight where
  /-- The values that may be shared as they are. -/
  known : Value → Prop
  /-- The expression may look the name up. -/
  sees : Value → String → Prop
  /-- The event may happen. -/
  allows : Event → Prop
  hereditary : Hereditary known
  sees_symbol : ∀ name, known (.symbol name) → sees (.symbol name) name
  sees_left : ∀ left right name, sees left name → sees (.cell left right) name
  sees_right : ∀ left right name, sees right name → sees (.cell left right) name
  sees_code : ∀ code expr name, allows (.expanded code) → sees code name → sees expr name

/-- Shared, or built alike; callables with births that are paired may have captured different
scopes, in which what their bodies see is linked. -/
inductive Value.Linked (sight : Sight) (births : Birth → Birth → Prop) : Value → Value → Prop
  | same {v : Value} : sight.known v → Linked sight births v v
  | quoted {inner inner' : Value} : Linked sight births inner inner' →
      Linked sight births (.quoted inner) (.quoted inner')
  | cell {left left' right right' : Value} : Linked sight births left left' →
      Linked sight births right right' → Linked sight births (.cell left right) (.cell left' right')
  | compound {kind : CallKind} {birth birth' : Birth} {scope scope' : Scope} {params : Params}
      {body body' : Value} : births birth birth' → Linked sight births body body' →
      (∀ name, sight.sees body name →
        (Scope.get? scope name).isSome = (Scope.get? scope' name).isSome) →
      (∀ name v v', sight.sees body name → Scope.get? scope name = some v →
        Scope.get? scope' name = some v' → Linked sight births v v') →
      Linked sight births (.compound kind birth scope params body)
        (.compound kind birth' scope' params body')

/-- The scopes bind these names to related values, or both leave them unbound. -/
def Scope.Agree (related : Value → Value → Prop) (names : String → Prop) (scope scope' : Scope) :
    Prop :=
  ∀ name, names name → Option.Rel related (scope.get? name) (scope'.get? name)

def Frame.Agree (related : Value → Value → Prop) (frame frame' : Frame) : Prop :=
  List.Forall₂ (fun binding binding' => binding.1 = binding'.1 ∧ related binding.2 binding'.2)
    frame frame'

/-! ## Scopes -/

section

variable {α β γ δ : Type} {r : α → β → Prop} {s : γ → δ → Prop}

theorem rel_isSome {a : Option α} {b : Option β} (h : Option.Rel r a b) : a.isSome = b.isSome := by
  cases h <;> rfl

theorem eq_none_of_rel {b : Option β} (h : Option.Rel r none b) : b = none := by
  cases h
  rfl

theorem eq_some_of_rel {a : α} {b : Option β} (h : Option.Rel r (some a) b) :
    ∃ a', b = some a' ∧ r a a' := by
  cases h with
  | some values => exact ⟨_, rfl, values⟩

theorem rel_or {a c : Option α} {b d : Option β} (first : Option.Rel r a b)
    (second : Option.Rel r c d) : Option.Rel r (a.or c) (b.or d) := by
  cases first with
  | some values => exact .some values
  | none => exact second

theorem rel_map {a : Option α} {b : Option β} {f : α → γ} {g : β → δ} (h : Option.Rel r a b)
    (each : ∀ x y, r x y → s (f x) (g y)) : Option.Rel s (a.map f) (b.map g) := by
  cases h with
  | some values => exact .some (each _ _ values)
  | none => exact .none

end

section

variable {related : Value → Value → Prop} {names : String → Prop}

theorem Frame.Agree.get? {frame frame' : Frame} (h : Frame.Agree related frame frame')
    (name : String) : Option.Rel related (Frame.get? frame name) (Frame.get? frame' name) := by
  induction h with
  | nil => exact .none
  | @cons binding binding' frame frame' first _ ih =>
      obtain ⟨key, values⟩ := first
      rw [Frame.get?_cons, Frame.get?_cons, ← key]
      by_cases same : name = binding.1
      · rw [if_pos same, if_pos same]
        exact .some values
      · rwa [if_neg same, if_neg same]

theorem Scope.Agree.cons {frame frame' : Frame} {scope scope' : Scope}
    (hf : Frame.Agree related frame frame') (hs : scope.Agree related names scope') :
    Scope.Agree related names (frame :: scope) (frame' :: scope') := by
  intro name seen
  rw [Scope.get?, Scope.get?]
  exact rel_or (hf.get? name) (hs name seen)

theorem Scope.Agree.weaken {fewer : String → Prop} {scope scope' : Scope}
    (h : scope.Agree related names scope') (imp : ∀ name, fewer name → names name) :
    scope.Agree related fewer scope' :=
  fun name seen => h name (imp name seen)

end

namespace Value

variable {sight : Sight} {births : Birth → Birth → Prop}

theorem Linked.paired {v v' : Value} (h : Linked sight births v v') : v.Paired births v' := by
  induction h with
  | same => exact .same _
  | quoted _ ih => exact .quoted ih
  | cell _ _ left right => exact .cell left right
  | compound born _ _ _ body _ => exact .compound born body

/-! ## Parts of linked values -/

theorem Linked.of_quoted {inner w : Value} (h : Linked sight births (.quoted inner) w) :
    ∃ inner', w = .quoted inner' ∧ Linked sight births inner inner' := by
  cases h with
  | same known => exact ⟨inner, rfl, .same ((sight.hereditary.quoted inner).mp known)⟩
  | quoted link => exact ⟨_, rfl, link⟩

theorem Linked.of_cell {left right w : Value} (h : Linked sight births (.cell left right) w) :
    ∃ left' right', w = .cell left' right' ∧ Linked sight births left left' ∧
      Linked sight births right right' := by
  cases h with
  | same known =>
      obtain ⟨hl, hr⟩ := (sight.hereditary.cell left right).mp known
      exact ⟨left, right, rfl, .same hl, .same hr⟩
  | cell hl hr => exact ⟨_, _, rfl, hl, hr⟩

theorem agree_same {scope : Scope} (h : scope.All sight.known) (names : String → Prop) :
    scope.Agree (Linked sight births) names scope := by
  intro name _
  cases hn : scope.get? name with
  | none => exact .none
  | some value => exact .some (.same (h.get? hn))

/-- What the body of a callable sees is linked, whether the callable is shared or not. -/
theorem Linked.of_compound {kind : CallKind} {birth : Birth} {scope : Scope} {params : Params}
    {body w : Value} (h : Linked sight births (.compound kind birth scope params body) w) :
    ∃ birth' scope' body', w = .compound kind birth' scope' params body' ∧
      Linked sight births body body' ∧
      scope.Agree (Linked sight births) (sight.sees body) scope' := by
  cases h with
  | same known =>
      obtain ⟨hs, hb⟩ := sight.hereditary.parts _ _ _ _ _ known
      exact ⟨birth, scope, body, rfl, .same hb, agree_same hs _⟩
  | @compound _ _ birth' _ scope' _ _ body' _ link both values =>
      refine ⟨birth', scope', body', rfl, link, fun name seen => ?_⟩
      have bound := both name seen
      have linked := values name
      cases hv : scope.get? name with
      | none =>
          cases hv' : scope'.get? name with
          | none => exact .none
          | some v' => rw [hv, hv'] at bound; cases bound
      | some v =>
          cases hv' : scope'.get? name with
          | none => rw [hv, hv'] at bound; cases bound
          | some v' => exact .some (linked v v' seen hv hv')

theorem linked_compound {kind : CallKind} {birth birth' : Birth} {scope scope' : Scope}
    {params : Params} {body body' : Value} (born : births birth birth')
    (hb : Linked sight births body body')
    (hs : scope.Agree (Linked sight births) (sight.sees body) scope') :
    Linked sight births (.compound kind birth scope params body)
      (.compound kind birth' scope' params body') := by
  refine .compound born hb (fun name seen => ?_) fun name v v' seen hv hv' => ?_
  · exact rel_isSome (hs name seen)
  · have values := hs name seen
    rw [hv, hv'] at values
    cases values with
    | some link => exact link

/-! ## Lists -/

theorem Linked.isCell_eq {v v' : Value} (h : Linked sight births v v') : v.isCell = v'.isCell := by
  cases h <;> rfl

theorem Linked.items {v : Value} : ∀ {v' : Value}, Linked sight births v v' →
    List.Forall₂ (Linked sight births) v.items v'.items ∧ v.isProper = v'.isProper := by
  fun_induction Value.items v with
  | case1 left right ih =>
      intro v' h
      obtain ⟨left', right', rfl, hl, hr⟩ := h.of_cell
      exact ⟨.cons hl (ih hr).1, (ih hr).2⟩
  | case2 v atom =>
      intro v' h
      cases h with
      | same =>
          refine ⟨?_, rfl⟩
          cases v with
          | cell left right => exact absurd rfl (atom left right)
          | _ => exact .nil
      | cell => exact absurd rfl (atom _ _)
      | quoted => exact ⟨.nil, rfl⟩
      | compound => exact ⟨.nil, rfl⟩

theorem Linked.toList? {v v' : Value} (h : Linked sight births v v') :
    Option.Rel (List.Forall₂ (Linked sight births)) v.toList? v'.toList? := by
  obtain ⟨items, proper⟩ := h.items
  unfold Value.toList?
  rw [proper]
  split
  · exact .some items
  · exact .none

theorem Linked.of_one {value : Value} {values : List Value}
    (h : List.Forall₂ (Linked sight births) [value] values) :
    ∃ value', values = [value'] ∧ Linked sight births value value' := by
  cases h with
  | cons first rest =>
      cases rest
      exact ⟨_, rfl, first⟩

theorem Linked.of_two {one two : Value} {values : List Value}
    (h : List.Forall₂ (Linked sight births) [one, two] values) :
    ∃ one' two', values = [one', two'] ∧ Linked sight births one one' ∧
      Linked sight births two two' := by
  cases h with
  | cons first rest =>
      obtain ⟨two', rfl, second⟩ := Linked.of_one rest
      exact ⟨_, two', rfl, first, second⟩

theorem linked_ofList {items items' : List Value}
    (h : List.Forall₂ (Linked sight births) items items') :
    Linked sight births (.ofList items) (.ofList items') := by
  induction h with
  | nil => exact .same sight.hereditary.nil
  | cons first _ ih => exact .cell first ih

/-- An operand sees what the whole list sees. -/
theorem sees_of_mem_toList? {tail operand : Value} {operands : List Value}
    (h : tail.toList? = some operands) (member : operand ∈ operands) {name : String}
    (seen : sight.sees operand name) : sight.sees tail name := by
  rw [← ofList_of_toList? h]
  clear h
  induction operands with
  | nil => cases member
  | cons first operands ih =>
      rcases List.mem_cons.mp member with rfl | later
      · exact sight.sees_left _ _ _ seen
      · exact sight.sees_right _ _ _ (ih later)

end Value

/-! ## Calls -/

section

variable {sight : Sight} {births : Birth → Birth → Prop}

theorem Params.agree_bindFixed (names : List String) : ∀ {args args' : List Value},
    List.Forall₂ (Value.Linked sight births) args args' →
    Option.Rel (fun bound bound' => Frame.Agree (Value.Linked sight births) bound.1 bound'.1 ∧
        List.Forall₂ (Value.Linked sight births) bound.2 bound'.2)
      (bindFixed names args) (bindFixed names args') := by
  induction names with
  | nil => exact fun h => .some ⟨.nil, h⟩
  | cons name names ih =>
      intro args args' h
      cases h with
      | nil => exact .none
      | cons first rest =>
          rw [bindFixed, bindFixed]
          exact rel_map (ih rest) fun _ _ bound => ⟨.cons ⟨rfl, first⟩ bound.1, bound.2⟩

theorem Params.agree_bind? (params : Params) {args args' : List Value}
    (h : List.Forall₂ (Value.Linked sight births) args args') :
    Option.Rel (Frame.Agree (Value.Linked sight births)) (params.bind? args)
      (params.bind? args') := by
  unfold bind?
  have fixed := agree_bindFixed params.fixed h
  generalize bindFixed params.fixed args = bound at fixed ⊢
  generalize bindFixed params.fixed args' = bound' at fixed ⊢
  cases fixed with
  | none => cases params.rest <;> exact .none
  | @some bound bound' both =>
      obtain ⟨frame, extra⟩ := bound
      obtain ⟨frame', extra'⟩ := bound'
      cases params.rest with
      | some rest =>
          exact .some (List.rel_append both.1 (.cons ⟨rfl, Value.linked_ofList both.2⟩ .nil))
      | none =>
          cases both.2 with
          | nil => exact .some both.1
          | cons first more => exact .none

/-- Linked lists of symbols have the same names, or stop at linked values. -/
theorem alike_symbolNames {items items' : List Value}
    (h : List.Forall₂ (Value.Linked sight births) items items') :
    (∃ names, symbolNames items = .ok names ∧ symbolNames items' = .ok names) ∨
      ∃ item item', symbolNames items = .error item ∧ symbolNames items' = .error item' ∧
        item.Linked sight births item' := by
  induction h with
  | nil => exact .inl ⟨[], rfl, rfl⟩
  | @cons item item' items items' first _ ih =>
      cases first with
      | same known =>
          cases item with
          | symbol name =>
              rw [symbolNames, symbolNames]
              rcases ih with ⟨names, here, there⟩ | ⟨other, other', here, there, link⟩
              · rw [here, there]
                exact .inl ⟨name :: names, rfl, rfl⟩
              · rw [here, there]
                exact .inr ⟨other, other', rfl, rfl, link⟩
          | _ => exact .inr ⟨_, _, rfl, rfl, .same known⟩
      | quoted link => exact .inr ⟨_, _, rfl, rfl, .quoted link⟩
      | cell hl hr => exact .inr ⟨_, _, rfl, rfl, .cell hl hr⟩
      | compound born link both values =>
          exact .inr ⟨_, _, rfl, rfl, .compound born link both values⟩

theorem alike_elements (limit : Nat) {v v' : Value} (h : v.Linked sight births v') :
    Outcome.Alike (List.Forall₂ (Value.Linked sight births)) (v.elements limit)
      (v'.elements limit) := by
  have lists := h.toList?
  unfold Value.elements
  rw [← h.isCell_eq]
  generalize v.toList? = items at lists ⊢
  generalize v'.toList? = items' at lists ⊢
  cases lists with
  | some links => exact .ok links
  | none =>
      cases v.isCell with
      | true => exact .error (.same _)
      | false =>
          have message : (Error.notList v).message = (Error.notList v').message :=
            congrArg ("Expected a list, got " ++ ·) h.paired.inspect_eq
          exact .error (Stop.ofError_alike limit rfl message h.paired.inspectDepth_eq)

theorem Params.alike_ofValue (limit : Nat) {formals formals' : Value}
    (h : formals.Linked sight births formals') :
    Outcome.Alike (· = ·) (Params.ofValue limit formals) (Params.ofValue limit formals') := by
  have elements := alike_elements limit h
  unfold Params.ofValue
  generalize formals.elements limit = items at elements ⊢
  generalize formals'.elements limit = items' at elements ⊢
  cases elements with
  | @error reason _ stops =>
      -- Whatever is wrong with the list, the formals are no list; only an overflow stays one.
      cases stops with
      | error => exact .error (.same _)
      | same => cases reason <;> exact .error (.same _)
  | ok links =>
      dsimp only
      rcases alike_symbolNames links with ⟨names, here, there⟩ | ⟨item, item', here, there, link⟩
      · rw [here, there]
        dsimp only
        cases ofWritten names with
        | error error => exact .error (.same _)
        | ok params => exact .ok rfl
      · rw [here, there]
        have message : (Error.formalNotSymbol item).message =
            (Error.formalNotSymbol item').message :=
          congrArg ("Formal parameter must be a symbol, got " ++ ·) link.paired.inspect_eq
        exact .error (Stop.ofError_alike limit rfl message link.paired.inspectDepth_eq)

end

end MiniLisp
