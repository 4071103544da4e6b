import Mathlib.Logic.ExistsUnique
import MiniLisp.Proofs.Call.Formals
import MiniLisp.Proofs.Value.Equality
import MiniLisp.Proofs.Value.Hereditary

/-! # Views of a chain

A value is the chain of some items with a terminal that is no cell, in one way only. Its terminal,
its cells, its elements and its text are found by going along the chain, each on its own; all of them
stop at that terminal and show those items. So chains are put together and taken apart like lists,
whatever their items are: nil, chains of their own, or dotted pairs.
-/

namespace MiniLisp.Value

/-! ## One way to be a chain -/

/-- The value is the chain of the items, and it ends in a terminal that is no cell. -/
structure IsChain (v : Value) (items : List Value) (terminal : Value) : Prop where
  whole : v = chain items terminal
  ends : terminal.isCell = false

theorem isCell_terminal (v : Value) : v.terminal.isCell = false := by
  fun_induction terminal v with
  | case1 left right ih => exact ih
  | case2 v atom =>
      cases v with
      | cell left right => exact absurd rfl (atom left right)
      | _ => rfl

theorem isChain_self (v : Value) : v.IsChain v.items v.terminal :=
  ⟨v.chain_items_terminal.symm, v.isCell_terminal⟩

theorem chain_append (items more : List Value) (terminal : Value) :
    chain (items ++ more) terminal = chain items (chain more terminal) := List.foldr_append

theorem isNil_iff {v : Value} : v.isNil = true ↔ v = nil := by
  cases v <;> simp [isNil]

/-! ## Along a chain

The terminal of a chain may be a chain again: a view of the whole shows the items, and goes on with
what it shows of the terminal. -/

section

variable (items : List Value) (terminal : Value)

theorem items_chain : (chain items terminal).items = items ++ terminal.items := by
  induction items with
  | nil => rfl
  | cons item items ih => rw [chain_cons, Value.items, ih, List.cons_append]

theorem terminal_chain : (chain items terminal).terminal = terminal.terminal := by
  induction items with
  | nil => rfl
  | cons item items ih => rw [chain_cons, Value.terminal, ih]

theorem length_cells_chain :
    (chain items terminal).cells.length = items.length + terminal.cells.length := by
  induction items with
  | nil => rw [chain_nil, List.length_nil, Nat.zero_add]
  | cons item items ih =>
      rw [chain_cons, cells, List.length_cons, ih, List.length_cons]
      omega

/-- The cell of an item holds it to the left, and the chain of the later ones to the right. -/
theorem cells_chain_of_item {item : Value} {i : Nat} (here : items[i]? = some item) :
    (chain items terminal).cells[i]? = some (cell item (chain (items.drop (i + 1)) terminal)) := by
  induction items generalizing i with
  | nil => cases here
  | cons first items ih =>
      rw [chain_cons, cells]
      cases i with
      | zero =>
          cases here
          rfl
      | succ i => exact ih here

/-- The inside of the parentheses of a chain. -/
theorem textAt_chain_rest (item : Value) :
    item.textAt .element ++ (chain items terminal).textAt .rest =
      " ".intercalate ((item :: items).map text) ++ terminal.textAt .rest := by
  induction items generalizing item with
  | nil =>
      rw [chain_nil, List.map_singleton, String.intercalate_singleton, text]
  | cons next items ih =>
      have onward : (chain (next :: items) terminal).textAt .rest =
          " " ++ (next.textAt .element ++ (chain items terminal).textAt .rest) := rfl
      rw [onward, ih]
      simp only [List.map_cons, String.intercalate_cons_cons, String.append_assoc]
      rfl

end

/-! ## At the terminal -/

section

variable {terminal : Value} (ends : terminal.isCell = false)

include ends

theorem items_of_not_isCell : terminal.items = [] := by
  cases terminal with
  | cell => cases ends
  | _ => rfl

theorem terminal_of_not_isCell : terminal.terminal = terminal := by
  cases terminal with
  | cell => cases ends
  | _ => rfl

theorem cells_of_not_isCell : terminal.cells = [] := by
  cases terminal with
  | cell => cases ends
  | _ => rfl

theorem textAt_rest_of_not_isCell :
    terminal.textAt .rest = if terminal.isNil then "" else " . " ++ terminal.text := by
  cases terminal with
  | cell => cases ends
  | _ => rfl

end

/-! ## What the views show -/

variable {v : Value} {items : List Value} {terminal : Value}

theorem IsChain.items_eq (h : v.IsChain items terminal) : v.items = items := by
  rw [h.whole, items_chain, items_of_not_isCell h.ends, List.append_nil]

theorem IsChain.terminal_eq (h : v.IsChain items terminal) : v.terminal = terminal := by
  rw [h.whole, terminal_chain, terminal_of_not_isCell h.ends]

theorem existsUnique_isChain (v : Value) :
    ∃! parts : List Value × Value, v.IsChain parts.1 parts.2 := by
  refine ⟨(v.items, v.terminal), v.isChain_self, fun parts other => ?_⟩
  rw [other.items_eq, other.terminal_eq]

theorem IsChain.nil_iff (h : v.IsChain items terminal) : items = [] ↔ v.isCell = false := by
  cases items with
  | nil => simp [h.whole, h.ends]
  | cons item items => simp [h.whole, isCell]

theorem IsChain.isProper_iff (h : v.IsChain items terminal) :
    v.isProper = true ↔ terminal = nil := by
  rw [isProper, h.terminal_eq, isNil_iff]

theorem IsChain.toList?_eq (h : v.IsChain items terminal) :
    v.toList? = if terminal.isNil then some items else none := by
  rw [toList?, isProper, h.terminal_eq, h.items_eq]

theorem IsChain.elements_eq (h : v.IsChain items terminal) (limit : Nat) :
    v.elements limit = if terminal.isNil then .ok items
      else .error (.ofError limit (if items.isEmpty then .notList v else .improperList)) := by
  rw [elements, h.toList?_eq]
  cases terminal.isNil with
  | true => rfl
  | false =>
      cases items with
      | nil =>
          have atom : v.isCell = false := h.nil_iff.mp rfl
          simp [atom]
      | cons item items =>
          have cell : v.isCell = true := by rw [h.whole]; rfl
          simp [cell, Stop.ofError, Error.messageDepth]

theorem IsChain.text_eq (h : v.IsChain items terminal) (filled : items ≠ []) :
    v.text = "(" ++ " ".intercalate (items.map text) ++
      (if terminal.isNil then "" else " . " ++ terminal.text) ++ ")" := by
  obtain ⟨item, later, rfl⟩ := List.exists_cons_of_ne_nil filled
  have enclosed : v.text =
      "(" ++ (item.textAt .element ++ (chain later terminal).textAt .rest) ++ ")" := by
    rw [h.whole]
    rfl
  rw [enclosed, textAt_chain_rest, textAt_rest_of_not_isCell h.ends]
  simp only [String.append_assoc]

/-- One and the same value, and found so by every comparison that has room for it. -/
structure Equals (a b : Value) : Prop where
  eq : a = b
  found : ∀ limit, a.textDepth ≤ limit → a.sameWithin limit b = .ok true

theorem equals_of_eq {a b : Value} (h : a = b) : a.Equals b := by
  subst h
  exact ⟨rfl, fun limit room => sameWithin_self room⟩

/-- All views of the value show these items and this terminal. -/
structure Shows (v : Value) (items : List Value) (terminal : Value) : Prop where
  empty : items = [] ↔ v.isCell = false
  last : v.terminal = terminal
  count : v.cells.length = items.length
  slots : ∀ i item, items[i]? = some item →
    v.cells[i]? = some (cell item (chain (items.drop (i + 1)) terminal))
  proper : v.isProper = true ↔ terminal = nil
  listed : ∀ limit found, v.elements limit = .ok found ↔ terminal = nil ∧ found = items
  refused : terminal ≠ nil → ∀ limit, v.elements limit =
    .error (.ofError limit (if items.isEmpty then .notList v else .improperList))
  rebuilt : ∀ limit found, v.elements limit = .ok found → (ofList found).Equals v
  written : items ≠ [] → v.text = "(" ++ " ".intercalate (items.map text) ++
    (if terminal.isNil then "" else " . " ++ terminal.text) ++ ")"

theorem IsChain.shows (h : v.IsChain items terminal) : v.Shows items terminal where
  empty := h.nil_iff
  last := h.terminal_eq
  count := by
    rw [h.whole, length_cells_chain, cells_of_not_isCell h.ends, List.length_nil, Nat.add_zero]
  slots i item here := by
    rw [h.whole]
    exact cells_chain_of_item items terminal here
  proper := h.isProper_iff
  listed limit found := by
    rw [h.elements_eq, ← isNil_iff]
    cases terminal.isNil with
    | true => simp [eq_comm]
    | false => simp
  refused dotted limit := by
    have last : terminal.isNil = false := by rwa [← Bool.not_eq_true, isNil_iff]
    rw [h.elements_eq, last]
    rfl
  rebuilt limit found listed :=
    equals_of_eq (ofList_of_toList? (Params.elements_eq_ok listed))
  written := h.text_eq

/-- The views of a chain agree. Every value is a chain in exactly one way, and whatever looks along
a chain shows these items and this terminal; making chains and taking them apart are inverse. -/
theorem chain_views_agree :
    (∀ v : Value, ∃! parts : List Value × Value, v.IsChain parts.1 parts.2) ∧
    (∀ (v : Value) (items : List Value) (terminal : Value),
      v.IsChain items terminal → v.Shows items terminal) ∧
    (∀ (items more : List Value) (terminal : Value),
      (chain items (chain more terminal)).Equals (chain (items ++ more) terminal)) ∧
    ∀ (items : List Value) (limit : Nat), (ofList items).elements limit = .ok items := by
  refine ⟨existsUnique_isChain, fun v items terminal h => h.shows, ?_, fun items limit => ?_⟩
  · intro items more terminal
    exact equals_of_eq (chain_append items more terminal).symm
  · rw [elements, toList?_ofList]

/-- A chain of nil, a list and a dotted pair, with a terminal of its own and without one. -/
theorem chain_views_agree_of_dotted :
    let items : List Value := [.nil, .ofList [.symbol "a"], .cell (.symbol "a") (.symbol "b")]
    let dotted : Value := .chain items (.symbol "c")
    (dotted.IsChain items (.symbol "c") ∧ dotted.cells.length = 3 ∧
      dotted.elements 0 = .error (.error .improperList) ∧
      dotted.text = "(nil (a) (a . b) . c)") ∧
    ((ofList items).IsChain items .nil ∧ (ofList items).elements 0 = .ok items ∧
      (ofList items).text = "(nil (a) (a . b))") := by
  intro items dotted
  have whole : dotted.IsChain items (.symbol "c") := ⟨rfl, rfl⟩
  have listed : (ofList items).IsChain items .nil := ⟨rfl, rfl⟩
  obtain ⟨-, views, -, lists⟩ := chain_views_agree
  have shown := views dotted items (.symbol "c") whole
  have shown' := views (ofList items) items .nil listed
  have filled : items ≠ [] := by simp [items]
  refine ⟨⟨whole, shown.count, shown.refused (by simp) 0, ?_⟩, listed, lists items 0, ?_⟩
  · rw [shown.written filled]
    decide
  · rw [shown'.written filled]
    decide

end MiniLisp.Value
