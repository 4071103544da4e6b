import MiniLisp.Reader.Basic

/-!
# The grammar

Which tokens stand for which value, said without a reader: a symbol is one token, a quote mark
precedes what it quotes, and a list is the tokens of its elements between parentheses. The reader
accepts what the grammar derives, and stops right behind it.
-/

namespace MiniLisp

/-- The tokens stand for the value. -/
inductive Derives : List Token → Value → Prop
  | symbol (name : String) : Derives [⟨.symbol, name⟩] (.symbol name)
  | quote {mark : String} {tokens : List Token} {value : Value} (inner : Derives tokens value) :
      Derives (⟨.quote, mark⟩ :: tokens) (.quoted value)
  | list {opening closing : String} (parts : List (List Token × Value))
      (elements : ∀ part ∈ parts, Derives part.1 part.2) :
      Derives (⟨.opening, opening⟩ :: (parts.map Prod.fst).flatten ++ [⟨.closing, closing⟩])
        (.ofList (parts.map Prod.snd))

theorem Value.textDepth_ofList_cons (item : Value) (items : List Value) (limit : Nat) :
    (Value.ofList (item :: items)).textDepth ≤ limit + 1 ↔
      item.textDepth ≤ limit ∧ (items = [] ∨ (Value.ofList items).textDepth ≤ limit + 1) := by
  cases items with
  | nil => simp [Value.ofList, Value.textDepth, Value.textDepthAt, Place.level]
  | cons next items =>
      let rest := (next.cell (.ofList items)).textDepthAt .rest
      have deeper : (Value.ofList (next :: items)).textDepth = rest + 1 := rfl
      rw [or_iff_right (List.cons_ne_nil next items), deeper, Nat.add_le_add_iff_right]
      show max item.textDepth rest + 1 ≤ limit + 1 ↔ _
      rw [Nat.add_le_add_iff_right, Nat.max_le]

namespace Reader

/-- Go on reading from what a token led to. -/
def resume (limit : Nat) (progress : Progress) (rest : List Token) :
    Except Stop Value × List Token :=
  match progress with
  | .more stack => readFrom limit stack rest
  | .done value => (.ok value, rest)

theorem readFrom_of_ok {limit : Nat} {stack : List Pending} {token : Token} {progress : Progress}
    (h : step limit token stack = .ok progress) (rest : List Token) :
    readFrom limit stack (token :: rest) = resume limit progress rest := by
  rw [readFrom, h]
  cases progress <;> rfl

theorem readFrom_of_error {limit : Nat} {stack : List Pending} {token : Token} {reason : Stop}
    (h : step limit token stack = .error reason) (rest : List Token) :
    readFrom limit stack (token :: rest) = (.error reason, unread reason token rest) := by
  rw [readFrom, h]

theorem start_of_room {limit : Nat} {stack : List Pending} (room : stack.length < limit)
    (token : Token) :
    start limit token stack = match token.kind with
      | .symbol => .ok (complete (.symbol token.text) stack)
      | .quote => .ok (.more (.quote :: stack))
      | .opening => .ok (.more (.list [] :: stack))
      | .closing | .other _ => .error (.error .unmatchedClose) :=
  if_neg (Nat.not_le_of_lt room)

theorem one_le_textDepth (value : Value) : 1 ≤ value.textDepth := by
  cases value <;> simp [Value.textDepth, Value.textDepthAt, Place.level]

/-- The elements of an open list are read one after the other. -/
theorem readFrom_elements (limit : Nat) (outer : List Pending)
    (parts : List (List Token × Value))
    (elements : ∀ part ∈ parts, ∀ items rest,
      readFrom limit (.list items :: outer) (part.1 ++ rest) =
        readFrom limit (.list (part.2 :: items) :: outer) rest) :
    ∀ items rest,
      readFrom limit (.list items :: outer) ((parts.map Prod.fst).flatten ++ rest) =
        readFrom limit (.list ((parts.map Prod.snd).reverse ++ items) :: outer) rest := by
  induction parts with
  | nil => intro items rest; simp
  | cons part parts ih =>
      intro items rest
      have first := elements part (by simp)
      have later := ih fun part member => elements part (by simp [member])
      simp only [List.map_cons, List.flatten_cons, List.append_assoc, List.reverse_cons]
      rw [first, later]
      simp

/-- Below any pending forms, the tokens of a value are read as that value. -/
theorem readFrom_of_derives {limit : Nat} {tokens : List Token} {value : Value}
    (derived : Derives tokens value) :
    ∀ (stack : List Pending) (rest : List Token), stack.length + value.textDepth ≤ limit →
      readFrom limit stack (tokens ++ rest) = resume limit (complete value stack) rest := by
  induction derived with
  | symbol name =>
      intro stack rest room
      have depth := one_le_textDepth (.symbol name)
      have fits : stack.length < limit := by omega
      have taken : step limit ⟨.symbol, name⟩ stack = .ok (complete (.symbol name) stack) :=
        start_of_room fits ⟨.symbol, name⟩
      exact readFrom_of_ok taken rest
  | quote inner ih =>
      intro stack rest room
      rename_i mark tokens value
      have depth : (Value.quoted value).textDepth = value.textDepth + 1 := rfl
      have fits : stack.length < limit := by omega
      have opened : step limit ⟨.quote, mark⟩ stack = .ok (.more (.quote :: stack)) :=
        start_of_room fits ⟨.quote, mark⟩
      rw [List.cons_append, readFrom_of_ok opened]
      exact ih (.quote :: stack) rest (by simp only [List.length_cons]; omega)
  | list parts elements ih =>
      intro stack rest room
      rename_i opening closing
      have depth := one_le_textDepth (.ofList (parts.map Prod.snd))
      have each : ∀ part ∈ parts, stack.length + 1 + part.2.textDepth ≤ limit := by
        clear ih elements
        induction parts with
        | nil => simp
        | cons part parts more =>
            obtain ⟨slack, rfl⟩ : ∃ slack, limit = stack.length + (slack + 1) :=
              ⟨limit - stack.length - 1, by omega⟩
            have room' := (Value.textDepth_ofList_cons part.2 (parts.map Prod.snd) slack).mp
              (by simp only [List.map_cons] at room; omega)
            intro other member
            rcases List.mem_cons.mp member with rfl | later
            · omega
            · rcases room'.2 with empty | room''
              · simp at empty
                subst empty
                simp at later
              · exact more (by omega) (one_le_textDepth _) other later
      have inside := readFrom_elements limit stack parts (fun part member items rest => by
        rw [ih part member (.list items :: stack) rest
          (by simp only [List.length_cons]; exact each part member)]
        simp [complete, resume]) [] (⟨.closing, closing⟩ :: rest)
      have fits : stack.length < limit := by omega
      have opened : step limit ⟨.opening, opening⟩ stack = .ok (.more (.list [] :: stack)) :=
        start_of_room fits ⟨.opening, opening⟩
      simp only [List.append_nil] at inside
      rw [List.cons_append, List.cons_append, readFrom_of_ok opened, resume, List.append_assoc,
        List.singleton_append, inside, readFrom_of_ok rfl, List.reverse_reverse]

/-- What the grammar derives is read, and nothing behind it is touched. -/
theorem read_of_derives {limit : Nat} {tokens : List Token} {value : Value}
    (derived : Derives tokens value) (room : value.textDepth ≤ limit) (rest : List Token) :
    read limit (tokens ++ rest) = (.ok value, rest) := by
  rw [read, readFrom_of_derives derived [] rest (by simpa using room)]
  rfl

end Reader

end MiniLisp
