import Mathlib.Data.List.Induction
import Mathlib.Logic.Function.Basic
import MiniLisp.Scope.Keyed
import MiniLisp.Session

/-! # Scopes as overlaid maps

A host grows a scope layer by layer: a root, children of it, bindings of a session. The scope then
means one partial map, the layers written over each other from the root inward. Looking up a name,
asking whether it is bound and finding the frame that binds it are walks of their own along the
chain; they all answer from that map, and the names that a scope lists or completes are its domain,
each once and innermost layer first.
-/

namespace MiniLisp

/-! ## Names without repetition -/

theorem eraseDups_concat (names : List String) (name : String) :
    (names ++ [name]).eraseDups =
      if name ∈ names then names.eraseDups else names.eraseDups ++ [name] := by
  rw [List.eraseDups_append]
  by_cases member : name ∈ names
  · simp [List.removeAll, member]
  · simp [List.removeAll, member, List.eraseDups_cons]

theorem nodup_eraseDups (names : List String) : names.eraseDups.Nodup := by
  induction names using List.reverseRecOn with
  | nil => simp
  | append_singleton names name ih =>
      rw [eraseDups_concat]
      by_cases member : name ∈ names
      · rwa [if_pos member]
      · rw [if_neg member]
        have fresh : name ∉ names.eraseDups := fun listed => member (List.mem_eraseDups.mp listed)
        rw [List.nodup_append]
        refine ⟨ih, by simp, ?_⟩
        intro listed member other single same
        rw [List.mem_singleton.mp single] at same
        exact fresh (same ▸ member)

theorem filter_eraseDups (keep : String → Bool) (names : List String) :
    names.eraseDups.filter keep = (names.filter keep).eraseDups := by
  induction names using List.reverseRecOn with
  | nil => simp
  | append_singleton names name ih =>
      rw [eraseDups_concat, List.filter_append]
      by_cases member : name ∈ names
      · rw [if_pos member, ih]
        by_cases kept : keep name
        · simp [kept, member, eraseDups_concat]
        · simp [kept]
      · rw [if_neg member, List.filter_append, ih]
        by_cases kept : keep name
        · simp [kept, member, eraseDups_concat]
        · simp [kept]

/-! ## Frames -/

/-- The map with entries written over it, one after the other. -/
def overwrite (map : String → Option Value) (entries : List (String × Value)) :
    String → Option Value :=
  entries.foldl (fun map entry => Function.update map entry.1 (some entry.2)) map

theorem overwrite_concat (map : String → Option Value) (entries : List (String × Value))
    (entry : String × Value) :
    overwrite map (entries ++ [entry]) =
      Function.update (overwrite map entries) entry.1 (some entry.2) := by
  simp [overwrite]

theorem overwrite_eq_or (map : String → Option Value) (entries : List (String × Value))
    (name : String) :
    overwrite map entries name = (overwrite (fun _ => none) entries name).or (map name) := by
  induction entries using List.reverseRecOn with
  | nil => rfl
  | append_singleton entries entry ih =>
      rw [overwrite_concat, overwrite_concat, Function.update_apply, Function.update_apply]
      by_cases same : name = entry.1
      · simp [same]
      · rw [if_neg same, if_neg same, ih]

namespace Frame

theorem get?_isSome_iff (frame : Frame) (name : String) :
    (Frame.get? frame name).isSome ↔ name ∈ Frame.names frame := by
  induction frame with
  | nil => simp [Frame.get?, Frame.names]
  | cons binding frame ih =>
      rw [get?_cons]
      by_cases same : name = binding.1
      · simp [same, Frame.names]
      · rw [if_neg same, ih]
        simp [same, Frame.names]

theorem get?_insert (frame : Frame) (name : String) (value : Value) :
    Frame.get? (Frame.insert frame name value) =
      Function.update (Frame.get? frame) name (some value) := by
  funext other
  induction frame with
  | nil => rw [Frame.insert, get?_cons, Function.update_apply]
  | cons binding frame ih =>
      rw [Frame.insert, Function.update_apply, get?_cons]
      by_cases bound : binding.1 = name
      · rw [if_pos bound, get?_cons, bound]
        by_cases same : other = name
        · simp [same]
        · simp [same]
      · -- The name is bound further on, or not at all; the first binding stays.
        rw [if_neg bound, get?_cons, ih, Function.update_apply]
        by_cases same : other = name
        · have apart : other ≠ binding.1 := fun eq => bound (eq ▸ same)
          rw [if_neg apart, if_pos same, if_pos same]
        · simp [same]

theorem names_cons (binding : String × Value) (frame : Frame) :
    Frame.names (binding :: frame) = binding.1 :: Frame.names frame := rfl

theorem names_insert (frame : Frame) (name : String) (value : Value) :
    Frame.names (Frame.insert frame name value) =
      if name ∈ Frame.names frame then Frame.names frame else Frame.names frame ++ [name] := by
  induction frame with
  | nil => rfl
  | cons binding frame ih =>
      rw [Frame.insert]
      by_cases bound : binding.1 = name
      · simp [bound, Frame.names]
      · have apart : name ≠ binding.1 := Ne.symm bound
        rw [if_neg bound, names_cons, names_cons, ih]
        by_cases member : name ∈ Frame.names frame
        · simp [member]
        · simp [member, apart]

theorem ofList_concat (bindings : List (String × Value)) (binding : String × Value) :
    Frame.ofList (bindings ++ [binding]) =
      Frame.insert (Frame.ofList bindings) binding.1 binding.2 := by
  simp [Frame.ofList]

theorem get?_ofList (bindings : List (String × Value)) :
    Frame.get? (Frame.ofList bindings) = overwrite (fun _ => none) bindings := by
  -- The last binding is made last, so the induction is on the bindings before it.
  induction bindings using List.reverseRecOn with
  | nil => rfl
  | append_singleton bindings binding ih =>
      rw [ofList_concat, overwrite_concat, get?_insert, ih]

theorem names_ofList (bindings : List (String × Value)) :
    Frame.names (Frame.ofList bindings) = (bindings.map Prod.fst).eraseDups := by
  induction bindings using List.reverseRecOn with
  | nil => rfl
  | append_singleton bindings binding ih =>
      rw [ofList_concat, names_insert, ih, List.map_append, List.map_singleton, eraseDups_concat]
      simp only [List.mem_eraseDups]

end Frame

/-! ## Chains -/

theorem Value.asKey_symbol (limit : Nat) (name : String) :
    (Value.symbol name).asKey (limit + 1) = .ok (.symbol name) :=
  if_pos (Nat.le_add_left 1 limit)

namespace Scope

theorem find?_eq_drop (scope : Scope) (name : String) :
    scope.find? name =
      (scope.findIdx? fun frame => (Frame.get? frame name).isSome).map scope.drop := by
  induction scope with
  | nil => rfl
  | cons frame outer ih =>
      rw [find?, List.findIdx?_cons]
      by_cases bound : (Frame.get? frame name).isSome
      · simp [bound]
      · rw [if_neg bound, if_neg bound, ih, Option.map_map]
        rfl

theorem find?_isSome (scope : Scope) (name : String) :
    (scope.find? name).isSome = (scope.get? name).isSome := by
  induction scope with
  | nil => rfl
  | cons frame outer ih =>
      rw [find?, get?]
      by_cases bound : (Frame.get? frame name).isSome
      · simp [bound]
      · rw [if_neg bound, ih, Option.isSome_or]
        simp [bound]

theorem mem_names_iff (scope : Scope) (name : String) :
    name ∈ scope.names ↔ (scope.get? name).isSome := by
  induction scope with
  | nil => simp [names, get?]
  | cons frame outer ih =>
      rw [names, get?, Option.isSome_or, Bool.or_eq_true, Frame.get?_isSome_iff, ← ih,
        List.mem_append, List.mem_filter]
      by_cases bound : name ∈ Frame.names frame
      · simp [bound]
      · simp [bound]

theorem completion?_natCast (scope : Scope) (start : String) (position : Nat) :
    scope.completion? start position =
      (scope.names.filter fun name => start.toList <+: name.toList)[position]? := by
  have same : scope.completions start =
      scope.names.filter fun name => start.toList <+: name.toList := by
    apply List.filter_congr
    intro name _
    rw [Bool.eq_iff_iff, List.isPrefixOf_iff_prefix, decide_eq_true_iff]
  have forward : ¬ (position : Int) < 0 := by omega
  simp only [completion?, same, if_neg forward, Int.toNat_natCast]

theorem findKey_symbol (scope : Scope) (limit : Nat) (name : String) :
    scope.findKey (limit + 1) (.value (.symbol name)) = .ok (scope.find? name) := by
  rw [findKey, Value.asKey_symbol]
  rfl

end Scope

/-! ## Layers -/

/-- The name that a key stands for. -/
def Key.symbol? : Key → Option String
  | .text name => some name
  | .value (.symbol name) => some name
  | .value _ => none

theorem Key.symbol?_eq_some_iff {key : Key} {name : String} :
    key.symbol? = some name ↔ key.toValue = .symbol name := by
  cases key with
  | text text => simp [Key.symbol?, Key.toValue]
  | value value => cases value <;> simp [Key.symbol?, Key.toValue]

theorem Scope.containsKey_named (scope : Scope) (limit : Nat) {key : Key} {name : String}
    (named : key.symbol? = some name) :
    scope.containsKey (limit + 1) key = .ok (scope.get? name).isSome := by
  rw [Scope.containsKey, Key.symbol?_eq_some_iff.mp named, Scope.findKey_symbol,
    ← Scope.find?_isSome]
  rfl

theorem Scope.lookup_named (scope : Scope) (limit : Nat) {key : Key} {name : String}
    (named : key.symbol? = some name) :
    scope.lookup (limit + 1) key = match scope.get? name with
      | some value => .ok (some value)
      | none => .error (.error (.unbound name)) := by
  rw [Scope.lookup, Key.symbol?_eq_some_iff.mp named, Value.asKey_symbol]
  simp only [bind, Except.bind]
  cases scope.get? name with
  | none => rfl
  | some value => rfl

abbrev Layer := List (Key × Value)

namespace Layer

/-- What the layer says of names, in the order in which it says it. -/
def entries (layer : Layer) : List (String × Value) :=
  layer.filterMap fun binding => binding.1.symbol?.map fun name => (name, binding.2)

def binds (layer : Layer) (name : String) : Bool := (layer.entries.map Prod.fst).contains name

end Layer

/-- The map of layers that are written over each other, the last one first. -/
def overlay (layers : List Layer) : String → Option Value :=
  layers.foldr (fun layer below => overwrite below layer.entries) fun _ => none

/-- The names of layers, each at its first place. -/
def layerNames (layers : List Layer) : List String :=
  ((layers.flatMap Layer.entries).map Prod.fst).eraseDups

def Scope.ofLayers (layers : List Layer) : Scope :=
  layers.map fun layer => Frame.ofList layer.entries

theorem get?_ofLayers (layers : List Layer) (name : String) :
    (Scope.ofLayers layers).get? name = overlay layers name := by
  induction layers with
  | nil => rfl
  | cons layer layers ih =>
      calc (Scope.ofLayers (layer :: layers)).get? name
          = (Frame.get? (Frame.ofList layer.entries) name).or ((Scope.ofLayers layers).get? name) :=
            rfl
        _ = overwrite (overlay layers) layer.entries name := by
          rw [ih, Frame.get?_ofList, ← overwrite_eq_or]
        _ = overlay (layer :: layers) name := rfl

theorem find?_ofLayers (layers : List Layer) (name : String) :
    (Scope.ofLayers layers).find? name =
      (layers.findIdx? fun layer => layer.binds name).map (Scope.ofLayers layers).drop := by
  have bound (layer : Layer) :
      (Frame.get? (Frame.ofList layer.entries) name).isSome = layer.binds name := by
    rw [Bool.eq_iff_iff, Frame.get?_isSome_iff, Frame.names_ofList, List.mem_eraseDups, Layer.binds,
      List.contains_iff_mem]
  rw [Scope.find?_eq_drop]
  unfold Scope.ofLayers
  rw [List.findIdx?_map]
  simp only [Function.comp_def, bound]

theorem names_ofLayers (layers : List Layer) :
    (Scope.ofLayers layers).names = layerNames layers := by
  induction layers with
  | nil => rfl
  | cons layer layers ih =>
      -- Shadowed names may be taken out before or after repetitions are.
      have split : (layerNames layers).filter (fun name =>
          !(layer.entries.map Prod.fst).eraseDups.contains name) =
          (((layers.flatMap Layer.entries).map Prod.fst).removeAll
            (layer.entries.map Prod.fst)).eraseDups := by
        rw [layerNames, filter_eraseDups, List.removeAll]
        congr 1
        apply List.filter_congr
        intro name _
        simp
      calc (Scope.ofLayers (layer :: layers)).names
          = Frame.names (Frame.ofList layer.entries) ++ (Scope.ofLayers layers).names.filter
              (fun name => !(Frame.names (Frame.ofList layer.entries)).contains name) := rfl
        _ = layerNames (layer :: layers) := by
          rw [ih, Frame.names_ofList, split, layerNames, List.flatMap_cons, List.map_append,
            List.eraseDups_append]

/-! ## Scopes that are grown -/

theorem eq_map_of_keyed {bindings : List (Value × Value)} {entries : List (String × Value)}
    (h : Frame.keyed bindings = .ok entries) :
    bindings = entries.map fun entry => (.symbol entry.1, entry.2) := by
  fun_induction Frame.keyed bindings generalizing entries with
  | case1 => cases h; rfl
  | case2 name value rest ih =>
      cases made : Frame.keyed rest with
      | error key => rw [made] at h; cases h
      | ok entries' =>
          rw [made] at h
          cases h
          rw [ih made]
          rfl
  | case3 => cases h

theorem ofKeyed_eq_ok {limit : Nat} {bindings : List (Value × Value)} {frame : Frame}
    (h : Frame.ofKeyed limit bindings = .ok frame) :
    ∃ entries, Frame.keyed bindings = .ok entries ∧ frame = Frame.ofList entries := by
  unfold Frame.ofKeyed at h
  cases admitted : bindings.forM fun binding => discard (binding.1.asKey limit) with
  | error reason => rw [admitted] at h; cases h
  | ok _ =>
      rw [admitted] at h
      cases keyed : Frame.keyed bindings with
      | error key => rw [keyed] at h; cases h
      | ok entries =>
          rw [keyed] at h
          cases h
          exact ⟨entries, rfl, rfl⟩

theorem entries_of_toValue {layer : Layer} {entries : List (String × Value)}
    (h : layer.map (fun binding => (binding.1.toValue, binding.2)) =
      entries.map fun entry => (.symbol entry.1, entry.2)) : layer.entries = entries := by
  induction layer generalizing entries with
  | nil =>
      rw [List.map_nil, eq_comm, List.map_eq_nil_iff] at h
      rw [h]
      rfl
  | cons binding layer ih =>
      cases entries with
      | nil => simp at h
      | cons entry entries =>
          rw [List.map_cons, List.map_cons, List.cons.injEq, Prod.mk.injEq] at h
          obtain ⟨⟨named, same⟩, rest⟩ := h
          rw [Layer.entries, List.filterMap_cons, Key.symbol?_eq_some_iff.mpr named, same]
          exact congrArg (entry :: ·) (ih rest)

theorem eq_of_extend {limit : Nat} {outer scope : Scope} {layer : Layer}
    (h : outer.extend limit layer = .ok scope) : scope = Frame.ofList layer.entries :: outer := by
  unfold Scope.extend at h
  cases made : Frame.ofKeyed limit (layer.map fun binding => (binding.1.toValue, binding.2)) with
  | error reason => rw [made] at h; cases h
  | ok frame =>
      rw [made] at h
      cases h
      obtain ⟨entries, keyed, rfl⟩ := ofKeyed_eq_ok made
      rw [entries_of_toValue (eq_map_of_keyed keyed)]

/-- The scope is grown from a root by `layers`, innermost first: each is the bindings of a new root
or child, or what a session binds. -/
inductive Scope.Built : Scope → List Layer → Prop
  | root {limit : Nat} {scope : Scope} {layer : Layer} :
      Scope.extend limit [] layer = .ok scope → Built scope [layer]
  | child {limit : Nat} {outer scope : Scope} {layer : Layer} {layers : List Layer} :
      Built outer layers → outer.extend limit layer = .ok scope → Built scope (layer :: layers)
  | bind {session : Session} {layers : List Layer} (name : String) (value : Value) :
      Built session.scope layers →
      Built (session.bind name value).scope ([(.text name, value)] :: layers)

theorem Scope.Built.eq_ofLayers {scope : Scope} {layers : List Layer} (h : scope.Built layers) :
    scope = Scope.ofLayers layers := by
  induction h with
  | root made => exact eq_of_extend made
  | child _ made ih => rw [eq_of_extend made, ih]; rfl
  | bind name value _ ih => rw [Session.bind, ih]; rfl

/-- The answers of a scope are those of its overlaid layers, for names given as texts or as symbols.
Only the search for a frame compares keys as they are: a text as such is in no frame. -/
theorem Scope.built_answers_from_overlay {scope : Scope} {layers : List Layer}
    (built : scope.Built layers) :
    (∀ (limit : Nat) (key : Key) (name : String), key.symbol? = some name →
      (scope.lookup (limit + 1) key = match overlay layers name with
        | some value => .ok (some value)
        | none => .error (.error (.unbound name))) ∧
      scope.containsKey (limit + 1) key = .ok (overlay layers name).isSome) ∧
    (∀ (limit : Nat) (name : String),
      scope.findKey (limit + 1) (.value (.symbol name)) =
        .ok ((layers.findIdx? fun layer => layer.binds name).map scope.drop) ∧
      scope.findKey (limit + 1) (.text name) = .ok none) ∧
    scope.names = layerNames layers ∧ scope.names.Nodup ∧
    (∀ name, name ∈ scope.names ↔ (overlay layers name).isSome) ∧
    ∀ (start : String) (position : Nat), scope.completion? start position =
      (scope.names.filter fun name => start.toList <+: name.toList)[position]? := by
  cases built.eq_ofLayers
  refine ⟨?_, ?_, names_ofLayers layers, ?_, ?_, ?_⟩
  · intro limit key name named
    rw [Scope.lookup_named _ limit named, Scope.containsKey_named _ limit named, get?_ofLayers]
    exact ⟨rfl, rfl⟩
  · intro limit name
    rw [Scope.findKey_symbol, find?_ofLayers]
    exact ⟨rfl, rfl⟩
  · rw [names_ofLayers]
    exact nodup_eraseDups _
  · intro name
    rw [Scope.mem_names_iff, get?_ofLayers]
  · intro start position
    exact Scope.completion?_natCast _ start position

/-- A name bound twice in the root, once as a text and once as a symbol, and again by a session. -/
theorem Scope.built_answers_from_overlay_of_shadowing :
    ∃ scope : Scope, scope.Built
        [[(.text "x", .nil)],
          [(.text "x", .number 1), (.value (.symbol "y"), .number 2),
            (.value (.symbol "x"), .number 3)]] ∧
      scope.lookup 1 (.value (.symbol "x")) = .ok (some .nil) ∧
      scope.findKey 1 (.value (.symbol "y")) = .ok (some (scope.drop 1)) ∧
      scope.names = ["x", "y"] := by
  have root : Scope.extend 1 [] [(.text "x", .number 1), (.value (.symbol "y"), .number 2),
      (.value (.symbol "x"), .number 3)] = .ok [[("x", .number 3), ("y", .number 2)]] := rfl
  have built := @Scope.Built.bind { scope := [[("x", .number 3), ("y", .number 2)]] } _ "x" .nil
    (.root root)
  obtain ⟨named, found, names, _⟩ := Scope.built_answers_from_overlay built
  refine ⟨_, built, ?_, ?_, ?_⟩
  · exact (named 0 (.value (.symbol "x")) "x" rfl).1
  · exact (found 0 "y").1
  · exact names.trans (by decide)

/-- A text names what a scope binds, and still no frame has it as a key. -/
theorem Scope.findKey_misses_text :
    ∃ scope : Scope, scope.Built [[(.value (.symbol "x"), .nil)]] ∧
      (Key.text "x").symbol? = some "x" ∧
      scope.findKey 1 (.text "x") ≠ .ok
        (([[(.value (.symbol "x"), .nil)]].findIdx? fun layer : Layer => layer.binds "x").map
          scope.drop) := by
  have root : Scope.extend 1 [] [(.value (.symbol "x"), .nil)] = .ok [[("x", .nil)]] := rfl
  refine ⟨_, .root root, rfl, ?_⟩
  intro same
  cases same

end MiniLisp
