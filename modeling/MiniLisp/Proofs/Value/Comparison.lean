import MiniLisp.Reader.Grammar
import MiniLisp.Value.Equality

/-! # Equality is structure

Two values are the same when they have the same structure down to their atoms; of callables only the
kind and the birth count, which tell which callable it is. However values are compared, this is what
the comparison finds: by plain recursion, or by a loop along two chains that stops at cells which are
one object and at the end of the shorter chain. A limit can only keep a comparison from ending.
-/

namespace MiniLisp

/-! ## Values of one structure -/

/-- The same structure: the same atoms in the same places. -/
inductive Value.Same : Value → Value → Prop
  | nil : Same .nil .nil
  | symbol (name : String) : Same (.symbol name) (.symbol name)
  | number (n : Int) : Same (.number n) (.number n)
  | quoted {inner inner' : Value} : Same inner inner' → Same (.quoted inner) (.quoted inner')
  | cell {left left' right right' : Value} : Same left left' → Same right right' →
      Same (.cell left right) (.cell left' right')
  | native (op : Native) : Same (.native op) (.native op)
  | compound {kind : CallKind} {birth : Birth} {scope scope' : Scope} {params params' : Params}
      {body body' : Value} :
      Same (.compound kind birth scope params body) (.compound kind birth scope' params' body')
  | probe {birth : Birth} {p p' : Probe} {answer answer' : Value} : p.kind = p'.kind →
      Same (.probe birth p answer) (.probe birth p' answer')
  | stub {kind : CallKind} {birth : Birth} : Same (.stub kind birth) (.stub kind birth)

namespace Value

variable {a b c : Value}

theorem same_refl : ∀ v : Value, v.Same v
  | nil => .nil
  | symbol name => .symbol name
  | quoted inner => .quoted (same_refl inner)
  | cell left right => .cell (same_refl left) (same_refl right)
  | number n => .number n
  | native op => .native op
  | compound .. => .compound
  | probe .. => .probe rfl
  | stub .. => .stub

theorem Same.symm (h : a.Same b) : b.Same a := by
  induction h with
  | nil => exact .nil
  | symbol name => exact .symbol name
  | number n => exact .number n
  | quoted _ ih => exact .quoted ih
  | cell _ _ left right => exact .cell left right
  | native op => exact .native op
  | compound => exact .compound
  | probe kind => exact .probe kind.symm
  | stub => exact .stub

theorem Same.trans (h : a.Same b) (h' : b.Same c) : a.Same c := by
  induction h generalizing c with
  | quoted _ ih =>
      cases h' with
      | quoted inner => exact .quoted (ih inner)
  | cell _ _ left right =>
      cases h' with
      | cell first rest => exact .cell (left first) (right rest)
  | compound =>
      cases h' with
      | compound => exact .compound
  | probe kind =>
      cases h' with
      | probe kind' => exact .probe (kind.trans kind')
  | _ => exact h'

theorem Same.textAt_eq (h : a.Same b) (place : Place) : a.textAt place = b.textAt place := by
  induction h generalizing place with
  | quoted _ ih => rw [textAt, textAt, ih]
  | cell _ _ left right => rw [textAt, textAt, left, right]
  | probe kind => rw [textAt, textAt, kind]
  | _ => rfl

/-! ## Plain recursion -/

theorem same_of_sameAtom (h : sameAtom a b = true) : a.Same b := by
  unfold sameAtom at h
  split at h
  · exact .nil
  · exact eq_of_beq h ▸ .symbol _
  · exact eq_of_beq h ▸ .number _
  · exact eq_of_beq h ▸ .native _
  · obtain ⟨kind, birth⟩ := Bool.and_eq_true_iff.mp h
    cases eq_of_beq kind
    cases eq_of_beq birth
    exact .compound
  · obtain ⟨kind, birth⟩ := Bool.and_eq_true_iff.mp h
    cases eq_of_beq birth
    exact .probe (eq_of_beq kind)
  · obtain ⟨kind, birth⟩ := Bool.and_eq_true_iff.mp h
    cases eq_of_beq kind
    cases eq_of_beq birth
    exact .stub
  · cases h

/-- Plain recursion finds values the same that have the same structure. -/
theorem same_iff : same a b = true ↔ a.Same b := by
  constructor
  · intro h
    fun_induction same a b with
    | case1 a b ih => exact .quoted (ih h)
    | case2 left right left' right' first rest =>
        obtain ⟨hl, hr⟩ := Bool.and_eq_true_iff.mp h
        exact .cell (first hl) (rest hr)
    | case3 a b => exact same_of_sameAtom h
  · intro h
    induction h with
    | quoted _ ih => rw [same, ih]
    | cell _ _ left right => rw [same, left, right, Bool.and_self]
    | probe kind => simp [same, sameAtom, kind]
    | _ => simp [same, sameAtom]

/-! ## Within a limit -/

/-- A comparison at a place finds what plain recursion does, or nothing, if both values nest deeper
than the limit. -/
def Agrees (limit : Nat) (place : Place) (a b : Value) (found : Option Bool) : Prop :=
  found = some (same a b) ∨
    (found = none ∧ limit < a.textDepthAt place ∧ limit < b.textDepthAt place)

section

variable {limit : Nat} {left left' right right' : Value} {first found : Option Bool}

theorem Agrees.weaken {place : Place} (h : Agrees (limit + 1) place a b found) :
    Agrees limit place a b found := by
  rcases h with same | ⟨missing, deep, deep'⟩
  · exact .inl same
  · exact .inr ⟨missing, Nat.lt_of_succ_lt deep, Nat.lt_of_succ_lt deep'⟩

theorem Agrees.quoted (h : Agrees limit .element a b found) (place : Place) :
    Agrees (limit + 1) place (.quoted a) (.quoted b) found := by
  rcases h with rfl | ⟨rfl, deep, deep'⟩
  · exact .inl (by rw [same])
  · exact .inr ⟨rfl, Nat.succ_lt_succ deep, Nat.succ_lt_succ deep'⟩

/-- Left slots are compared first; only if they are the same do the rests of the chains count. -/
theorem Agrees.cell (lefts : Agrees limit .element left left' first)
    (stops : first ≠ some true → found = first)
    (goes : first = some true → Agrees limit .rest right right' found) :
    Agrees limit .rest (.cell left right) (.cell left' right') found := by
  unfold Agrees
  rw [same]
  simp only [textDepthAt, Place.level]
  rcases lefts with rfl | ⟨rfl, deep, deep'⟩
  · cases answer : same left left' with
    | false =>
        rw [stops (by simp [answer]), answer]
        exact .inl rfl
    | true =>
        rcases goes (congrArg some answer) with rfl | ⟨rfl, deep, deep'⟩
        · exact .inl (by rw [Bool.true_and])
        · exact .inr ⟨rfl, by omega, by omega⟩
  · rw [stops (by simp)]
    exact .inr ⟨rfl, by omega, by omega⟩

/-- A list that stands alone has one level more than one that goes on. -/
theorem Agrees.element (h : Agrees limit .rest (.cell left right) (.cell left' right') found) :
    Agrees (limit + 1) .element (.cell left right) (.cell left' right') found := by
  rcases h with same | ⟨missing, deep, deep'⟩
  · exact .inl same
  · exact .inr ⟨missing, Nat.succ_lt_succ deep, Nat.succ_lt_succ deep'⟩

end

/-- Values that are not both quoted and not both cells are compared at once. -/
theorem agrees_atoms (quotes : ∀ a' b', a = quoted a' → b = quoted b' → False)
    (cells : ∀ l r l' r', a = cell l r → b = cell l' r' → False) (limit : Nat) (place : Place) :
    Agrees limit place a b (some (sameAtom a b)) := by
  rw [← same.eq_3 a b quotes cells]
  exact .inl rfl

theorem agrees_zero (a b : Value) : Agrees 0 .element a b none :=
  .inr ⟨rfl, Reader.one_le_textDepth a, Reader.one_le_textDepth b⟩

/-- The comparison within a limit finds what plain recursion does. Behind an element it has one
level more than the rest of the chain needs. -/
theorem same?_agrees (limit : Nat) (a b : Value) :
    Agrees limit .element a b (same? limit a b) ∧
      ∀ below, limit = below + 1 → Agrees below .rest a b (same? limit a b) := by
  fun_induction same? limit a b with
  | case1 a b => exact ⟨agrees_zero a b, fun below h => by cases h⟩
  | case2 limit a b ih =>
      refine ⟨ih.1.quoted .element, fun below h => ?_⟩
      cases h
      exact (ih.1.quoted .rest).weaken
  | case3 limit l r l' r' same first rest =>
      have chains : Agrees limit .rest (.cell l r) (.cell l' r') (same? (limit + 1) r r') :=
        first.1.cell (fun differ => absurd same differ) fun _ => rest.2 limit rfl
      refine ⟨chains.element, fun below h => ?_⟩
      cases h
      exact chains
  | case4 limit l r l' r' differ first =>
      have chains : Agrees limit .rest (.cell l r) (.cell l' r') (same? limit l l') :=
        first.1.cell (fun _ => rfl) fun same => absurd same differ
      refine ⟨chains.element, fun below h => ?_⟩
      cases h
      exact chains
  | case5 limit a b quotes cells =>
      exact ⟨agrees_atoms quotes cells _ _, fun below _ => agrees_atoms quotes cells _ _⟩

/-! ## Along two chains -/

/-- One object is the same value in both. -/
def Sharing.Sound (shared : Sharing) : Prop := ∀ path a b, shared path a b = true → a = b

theorem eq_of_differs {found : Option Bool} {answer : Bool} (h : differs found = some answer) :
    found = some (!answer) := by
  obtain ⟨same, rfl, rfl⟩ := Option.map_eq_some_iff.mp h
  rw [Bool.not_not]

theorem sameAtom_of_isCell (h : (a.isCell || b.isCell) = true) : sameAtom a b = false := by
  unfold sameAtom
  split
  case h_8 => rfl
  all_goals cases h

/-- Only nil nests less at the end of a chain than elsewhere. -/
theorem textDepthAt_rest {v : Value} (h : v.isCell = false) (deep : 1 < v.textDepthAt .element) :
    v.textDepthAt .rest = v.textDepthAt .element := by
  cases v with
  | nil => cases Nat.lt_irrefl _ deep
  | cell => cases h
  | _ => rfl

/-- The loop finds what plain recursion does, if comparing elements does. It takes the end of two
chains for elements, which needs some room. -/
theorem agrees_walk {shared : Sharing} (sound : shared.Sound) {limit : Nat}
    (below : ∀ path a b, Agrees limit .element a b (compare? shared limit path a b))
    (path : List Slot) (a b : Value) (room : (a.isCell || b.isCell) = true ∨ 0 < limit) :
    Agrees limit .rest a b (walk shared (compare? shared limit) path a b) := by
  fun_induction walk shared (compare? shared limit) path a b with
  | case1 path left right left' right' one =>
      rw [sound _ _ _ one]
      exact .inl (congrArg some (same_iff.mpr (same_refl _)).symm)
  | case2 path left right left' right' _ found =>
      have differ := eq_of_differs found
      exact (below _ left left').cell (fun _ => differ.symm) fun same => by
        cases differ.symm.trans same
  | case3 path left right left' right' _ found ih =>
      have same := eq_of_differs found
      have some_room : 0 < limit := by
        cases limit with
        | zero => cases same
        | succ limit => exact Nat.succ_pos limit
      exact (below _ left left').cell (fun differ => absurd same differ) fun _ =>
        ih (.inr some_room)
  | case4 path left right left' right' _ found =>
      have missing := Option.map_eq_none_iff.mp found
      exact (below _ left left').cell (fun _ => missing.symm) fun same => by
        cases missing.symm.trans same
  | case5 path a b chains cell =>
      have atoms := sameAtom_of_isCell cell
      rw [← atoms]
      apply agrees_atoms
      · rintro a' b' rfl rfl
        cases cell
      · exact fun l r l' r' ha hb => chains l r l' r' ha hb
  | case6 path a b chains elements =>
      have some_room := room.resolve_left elements
      simp only [Bool.or_eq_true, not_or, Bool.not_eq_true] at elements
      rcases below path a b with same | ⟨missing, deep, deep'⟩
      · exact .inl same
      · rw [Agrees, textDepthAt_rest elements.1 (by omega), textDepthAt_rest elements.2 (by omega)]
        exact .inr ⟨missing, deep, deep'⟩

/-- Comparing with a loop along chains finds what plain recursion does, whatever is shared. -/
theorem compare?_agrees {shared : Sharing} (sound : shared.Sound) (limit : Nat) (path : List Slot)
    (a b : Value) : Agrees limit .element a b (compare? shared limit path a b) := by
  induction limit generalizing path a b with
  | zero => exact agrees_zero a b
  | succ limit ih =>
      -- Only two cells or two quotes take more than a look at both values.
      cases a with
      | cell left right =>
          cases b with
          | cell left' right' => exact (agrees_walk sound ih path _ _ (.inl rfl)).element
          | _ => exact .inl rfl
      | quoted inner =>
          cases b with
          | quoted inner' => exact (ih (.inner :: path) inner inner').quoted .element
          | _ => exact .inl rfl
      | _ => cases b <;> exact .inl rfl

/-! ## What a comparison decides -/

structure Decides (compare : Nat → Value → Value → Option Bool) : Prop where
  equal : ∀ limit a b answer, compare limit a b = some answer → (answer = true ↔ a.Same b)
  unequal : ∀ limit a b answer, differs (compare limit a b) = some answer →
    (answer = true ↔ ¬ a.Same b)
  /-- It ends if one of the values nests within the limit. -/
  ends : ∀ limit a b, min a.textDepth b.textDepth ≤ limit → (compare limit a b).isSome = true

theorem decides_of_agrees {compare : Nat → Value → Value → Option Bool}
    (h : ∀ limit a b, Agrees limit .element a b (compare limit a b)) : Decides compare := by
  have answered {limit : Nat} {a b : Value} {answer : Bool}
      (found : compare limit a b = some answer) : answer = same a b := by
    rcases h limit a b with same | ⟨missing, -⟩
    · exact Option.some.inj (found.symm.trans same)
    · cases found.symm.trans missing
  constructor
  case equal =>
    intro limit a b answer found
    rw [answered found, same_iff]
  case unequal =>
    intro limit a b answer found
    rw [← same_iff, ← answered (eq_of_differs found)]
    simp
  case ends =>
    intro limit a b room
    rcases h limit a b with same | ⟨-, deep, deep'⟩
    · rw [same, Option.isSome_some]
    · rw [textDepth, textDepth] at room
      omega

def birth? : Value → Option Birth
  | compound _ birth .. | probe birth .. | stub _ birth => some birth
  | _ => none

/-- Every callable that the value holds is the one with its birth. -/
def Registered (who : Birth → Value) : Value → Prop
  | quoted inner => inner.Registered who
  | cell left right => left.Registered who ∧ right.Registered who
  | v => ∀ birth, v.birth? = some birth → v = who birth

/-- Where a birth stands for one callable, the same structure is the same value. -/
theorem Same.eq_of_registered {who : Birth → Value} (h : a.Same b) (ha : a.Registered who)
    (hb : b.Registered who) : a = b := by
  induction h with
  | quoted _ ih => rw [ih ha hb]
  | cell _ _ left right => rw [left ha.1 hb.1, right ha.2 hb.2]
  | compound => exact (ha _ rfl).trans (hb _ rfl).symm
  | probe => exact (ha _ rfl).trans (hb _ rfl).symm
  | _ => rfl

/-- Equality is structure. Every comparison, whichever cells are one object, answers whether two
values have the same structure, and answers unless both nest deeper than the limit. -/
theorem equality_is_structural :
    (∀ shared : Sharing, shared.Sound → ∀ path, Decides fun limit => compare? shared limit path) ∧
    Decides same? ∧
    (∀ a b, same a b = true ↔ a.Same b) ∧
    Equivalence Same ∧
    (∀ a b : Value, a.Same b → a.text = b.text) ∧
    ∀ who (a b : Value), a.Registered who → b.Registered who → (a.Same b ↔ a = b) := by
  refine ⟨fun shared sound path => ?_, ?_, fun a b => same_iff, ?_, ?_, ?_⟩
  · exact decides_of_agrees fun limit a b => compare?_agrees sound limit path a b
  · exact decides_of_agrees fun limit a b => (same?_agrees limit a b).1
  · exact ⟨same_refl, Same.symm, Same.trans⟩
  · exact fun a b same => same.textAt_eq .element
  · intro who a b ha hb
    refine ⟨fun same => same.eq_of_registered ha hb, ?_⟩
    rintro rfl
    exact same_refl a

/-- Two chains share their last cell, and a third goes on behind the same elements. -/
theorem equality_is_structural_of_shared_tail :
    let tail : Value := .cell (.symbol "y") .nil
    let shared : Sharing := fun _ a b =>
      match a, b with
      | .cell (.symbol "y") .nil, .cell (.symbol "y") .nil => true
      | _, _ => false
    let short : Value := .cell (.symbol "x") tail
    let long : Value := .ofList [.symbol "x", .symbol "y", .symbol "z"]
    shared.Sound ∧ compare? shared 2 [] short short = some true ∧ short.Same short ∧
      compare? shared 2 [] long short = some false ∧ ¬ long.Same short := by
  intro tail shared short long
  have sound : shared.Sound := by
    intro path a b one
    simp only [shared] at one
    split at one
    · rfl
    · cases one
  have decides := equality_is_structural.1 shared sound []
  have found : compare? shared 2 [] short short = some true := rfl
  have other : compare? shared 2 [] long short = some false := rfl
  refine ⟨sound, found, (decides.equal 2 short short true found).mp rfl, other, ?_⟩
  exact fun same => Bool.false_ne_true ((decides.equal 2 long short false other).mpr same)

end Value

end MiniLisp
