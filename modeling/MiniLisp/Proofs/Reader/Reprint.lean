import MiniLisp.Proofs.Reader.ReadBack

/-! # Printing what was read

The text of a value that was read has the tokens of the text it was read from, except that an empty
list is written `nil`. So two texts that can be read are printed alike exactly when they differ in
nothing but blanks and in how they spell the empty list.
-/

namespace MiniLisp

namespace Token

/-- The tokens with `nil` in place of every parenthesis that is closed right after it is opened. -/
def nilSpelled : List Token → List Token
  | [] => []
  | [token] => [token]
  | token :: next :: rest =>
      if token.kind = .opening ∧ next.kind = .closing then ⟨.symbol, "nil"⟩ :: nilSpelled rest
      else token :: nilSpelled (next :: rest)

/-- No empty list is open at the end of the tokens. -/
def Closed (tokens : List Token) : Prop := ∀ token ∈ tokens.getLast?, token.kind ≠ .opening

theorem nilSpelled_empty {opening closing : Token} (ho : opening.kind = .opening)
    (hc : closing.kind = .closing) (rest : List Token) :
    nilSpelled (opening :: closing :: rest) = ⟨.symbol, "nil"⟩ :: nilSpelled rest := by
  simp [nilSpelled, ho, hc]

theorem nilSpelled_cons {token : Token} {rest : List Token}
    (h : token.kind = .opening → ∀ next ∈ rest.head?, next.kind ≠ .closing) :
    nilSpelled (token :: rest) = token :: nilSpelled rest := by
  cases rest with
  | nil => rfl
  | cons next rest =>
      have apart : ¬ (token.kind = .opening ∧ next.kind = .closing) :=
        fun both => h both.1 next (by simp) both.2
      rw [nilSpelled, if_neg apart]

theorem nilSpelled_append {tokens : List Token} (closed : Closed tokens) (rest : List Token) :
    nilSpelled (tokens ++ rest) = nilSpelled tokens ++ nilSpelled rest := by
  fun_induction nilSpelled tokens with
  | case1 => rfl
  | case2 token =>
      have other : token.kind ≠ .opening := closed token (by simp)
      exact nilSpelled_cons fun opening => absurd opening other
  | case3 token next more pair ih =>
      have later : Closed more := by
        cases more with
        | nil => simp [Closed]
        | cons last more => simpa [Closed] using closed
      rw [List.cons_append, List.cons_append, nilSpelled_empty pair.1 pair.2, ih later]
      rfl
  | case4 token next more apart ih =>
      have later : Closed (next :: more) := by simpa [Closed] using closed
      rw [List.cons_append, nilSpelled_cons, ih later, List.cons_append]
      intro opening other first closing
      rw [List.cons_append, List.head?_cons, Option.mem_some_iff] at first
      exact apart ⟨opening, first ▸ closing⟩

end Token

/-! ## Tokens of derivations -/

theorem Derives.head_kind {tokens : List Token} {value : Value} (derived : Derives tokens value) :
    ∃ first rest, tokens = first :: rest ∧ first.kind ≠ .closing := by
  cases derived with
  | symbol name => exact ⟨_, [], rfl, by simp⟩
  | quote inner => exact ⟨_, _, rfl, by simp⟩
  | list parts elements => exact ⟨_, _, rfl, by simp⟩

theorem Derives.closed {tokens : List Token} {value : Value} (derived : Derives tokens value) :
    Token.Closed tokens := by
  induction derived with
  | symbol name => simp [Token.Closed]
  | @quote mark tokens value inner ih =>
      obtain ⟨first, rest, rfl, -⟩ := inner.head_kind
      simpa [Token.Closed] using ih
  | list parts elements ih =>
      unfold Token.Closed
      rw [List.getLast?_concat]
      simp

theorem Value.tokensAt_rest_ofList (items : List Value) :
    (ofList items).tokensAt .rest = (items.map (tokensAt .element)).flatten := by
  induction items with
  | nil => rfl
  | cons item items ih =>
      rw [ofList_cons, tokensAt, ih]
      rfl

/-- The parts of a list are spelled one by one, since none of them ends with an open list. -/
theorem Derives.nilSpelled_parts {parts : List (List Token × Value)}
    (derived : ∀ part ∈ parts, Derives part.1 part.2)
    (each : ∀ part ∈ parts, Token.nilSpelled part.1 = part.2.tokensAt .element)
    (rest : List Token) :
    Token.nilSpelled ((parts.map Prod.fst).flatten ++ rest) =
      ((parts.map Prod.snd).map (Value.tokensAt .element)).flatten ++ Token.nilSpelled rest := by
  induction parts with
  | nil => rfl
  | cons part parts ih =>
      have first := each part (by simp)
      have later := ih (fun other member => derived other (by simp [member]))
        fun other member => each other (by simp [member])
      have closed := (derived part (by simp)).closed
      simp only [List.map_cons, List.flatten_cons, List.append_assoc]
      rw [Token.nilSpelled_append closed, first, later]

/-- The tokens of a derivation, with the empty lists spelled out, are those that the value is
written with. -/
theorem Derives.nilSpelled_eq {tokens : List Token} {value : Value} (derived : Derives tokens value)
    (lexemes : ∀ token ∈ tokens, token.IsLexeme) :
    Token.nilSpelled tokens = value.tokensAt .element := by
  induction derived with
  | symbol name => rfl
  | @quote mark tokens value inner ih =>
      have text : mark = "'" := lexemes ⟨.quote, mark⟩ (by simp)
      rw [Token.nilSpelled_cons (by simp), ih fun token member => lexemes token (by simp [member]),
        text]
      rfl
  | @list opening closing parts elements ih =>
      have opens : opening = "(" := lexemes ⟨.opening, opening⟩ (by simp)
      have closes : closing = ")" := lexemes ⟨.closing, closing⟩ (by simp)
      subst opens closes
      cases parts with
      | nil => rfl
      | cons part parts =>
          have each : ∀ other ∈ part :: parts, Token.nilSpelled other.1 =
              other.2.tokensAt .element := by
            intro other member
            refine ih other member fun token inside => lexemes token ?_
            have among : token ∈ ((part :: parts).map Prod.fst).flatten :=
              List.mem_flatten.mpr ⟨other.1, List.mem_map.mpr ⟨other, member, rfl⟩, inside⟩
            simp only [List.mem_cons, List.mem_append]
            exact .inl (.inr among)
          -- The parenthesis is not empty: the first part does not begin with a closing one.
          have apart : ∀ next ∈ (((part :: parts).map Prod.fst).flatten ++
              [(⟨.closing, ")"⟩ : Token)]).head?, next.kind ≠ .closing := by
            obtain ⟨first, rest, whole, other⟩ := (elements part (by simp)).head_kind
            simpa [whole] using other
          rw [List.cons_append, Token.nilSpelled_cons fun _ => apart,
            Derives.nilSpelled_parts elements each]
          rw [List.map_cons, Value.ofList_cons, Value.tokensAt, Value.tokensAt_rest_ofList]
          rfl

/-! ## Texts -/

namespace Reader

variable {limit : Nat} {text text' : String} {v v' : Value}

theorem nilSpelled_scanText (h : parse limit text = .ok v) :
    Token.nilSpelled (Token.scanText text) = v.tokensAt .element :=
  (parse_eq_ok_iff.mp h).1.nilSpelled_eq (Token.layout_scanText text).isLexeme

theorem scanText_text_of_parse (h : parse limit text = .ok v) :
    Token.scanText v.text = Token.nilSpelled (Token.scanText text) := by
  rw [Value.scanText_text (readable_of_parse h), nilSpelled_scanText h]

/-- Values with the same tokens show the same, so they are printed alike. -/
theorem text_eq_of_tokensAt (same : v.tokensAt .element = v'.tokensAt .element) :
    v.text = v'.text := by
  have here : Derives (v.tokensAt .element) v.normal := v.reads_tokensAt .element
  have there : Derives (v'.tokensAt .element) v'.normal := v'.reads_tokensAt .element
  have normal : v.normal = v'.normal :=
    (here.unique there (congrArg (· ++ []) same)).2.1
  rw [← v.text_normal, normal, v'.text_normal]

/-- Printing what was read keeps the tokens, except that an empty list is spelled `nil`. So two
texts are printed alike exactly when their tokens are the same up to that spelling. -/
theorem print_of_parse_keeps_tokens (limit : Nat) :
    (∀ (text : String) (v : Value), parse limit text = .ok v →
      v.textWithin limit = .ok v.text ∧
        Token.scanText v.text = Token.nilSpelled (Token.scanText text)) ∧
    ∀ (text text' : String) (v v' : Value), parse limit text = .ok v →
      parse limit text' = .ok v' →
      (v.text = v'.text ↔
        Token.nilSpelled (Token.scanText text) = Token.nilSpelled (Token.scanText text')) := by
  constructor
  · intro text v h
    have room : v.textDepth ≤ limit := (parse_eq_ok_iff.mp h).2
    exact ⟨Value.textWithin_eq_ok_iff.mpr ⟨room, rfl⟩, scanText_text_of_parse h⟩
  · intro text text' v v' h h'
    constructor
    · intro same
      rw [← scanText_text_of_parse h, ← scanText_text_of_parse h', same]
    · intro same
      rw [nilSpelled_scanText h, nilSpelled_scanText h'] at same
      exact text_eq_of_tokensAt same

/-- Empty lists with and without a blank inside them, in a list and behind a quote mark. -/
theorem print_of_parse_keeps_tokens_of_empty :
    let v : Value := .ofList [.nil, .quoted .nil, .symbol "a"]
    let v' : Value := .ofList [.symbol "nil", .quoted .nil, .symbol "a"]
    parse 3 "(( )'() a)" = .ok v ∧ parse 3 "( nil '()a )" = .ok v' ∧
      Token.scanText v.text = Token.scanText "(nil 'nil a)" ∧ v.text = v'.text := by
  intro v v'
  have read : parse 3 "(( )'() a)" = .ok v := by rfl
  have read' : parse 3 "( nil '()a )" = .ok v' := by rfl
  obtain ⟨keeps, alike⟩ := print_of_parse_keeps_tokens 3
  refine ⟨read, read', (keeps _ v read).2.trans (by decide), ?_⟩
  exact (alike _ _ v v' read read').mpr (by decide)

end Reader

end MiniLisp
