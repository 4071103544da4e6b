import MiniLisp.Proofs.Reader.Limits
import MiniLisp.Reader.Grammar
import MiniLisp.Token.Stream

/-! # The reader accepts the grammar

What the reader returns is derived by the grammar from the tokens that it has taken, and what the
grammar derives is returned, as long as it nests within the limit. The tokens taken so far are
accounted for by the pending forms on the stack; one token keeps the account, so a whole reading
does. No derivation is the beginning of another one.
-/

namespace MiniLisp

theorem Value.textDepth_ofList_le {limit : Nat} {items : List Value}
    (h : ∀ item ∈ items, item.textDepth ≤ limit) : (ofList items).textDepth ≤ limit + 1 := by
  induction items with
  | nil => exact Nat.le_add_left 1 limit
  | cons item items ih =>
      have later := ih fun other member => h other (by simp [member])
      exact (textDepth_ofList_cons item items limit).mpr ⟨h item (by simp), .inr later⟩

/-! ## From readings to derivations -/

namespace Reader

/-- The tokens stand for the pending forms: for each one the token that opened it and the tokens of
its finished items, which nest within what the limit leaves them. -/
inductive Accounts (limit : Nat) : List Pending → List Token → Prop
  | nil : Accounts limit [] []
  | quote {mark : String} {stack : List Pending} {tokens : List Token} :
      Accounts limit stack tokens → Accounts limit (.quote :: stack) (tokens ++ [⟨.quote, mark⟩])
  | list {opening : String} {stack : List Pending} {tokens : List Token}
      (parts : List (List Token × Value)) : Accounts limit stack tokens → stack.length < limit →
      (∀ part ∈ parts, Derives part.1 part.2 ∧ stack.length + 1 + part.2.textDepth ≤ limit) →
      Accounts limit (.list (parts.map Prod.snd).reverse :: stack)
        (tokens ++ ⟨.opening, opening⟩ :: (parts.map Prod.fst).flatten)

def Progress.Accounts (limit : Nat) (tokens : List Token) : Progress → Prop
  | .more stack => Reader.Accounts limit stack tokens
  | .done value => Derives tokens value ∧ value.textDepth ≤ limit

variable {limit : Nat}

theorem complete_accounts {stack : List Pending} {before tokens : List Token} {value : Value}
    (account : Accounts limit stack before) (derived : Derives tokens value)
    (room : stack.length + value.textDepth ≤ limit) :
    (complete value stack).Accounts limit (before ++ tokens) := by
  -- The value finishes the quotes that wait for it, and goes into the list below them.
  induction account generalizing value tokens with
  | nil =>
      rw [List.nil_append]
      exact ⟨derived, by simpa using room⟩
  | @quote mark stack earlier _ ih =>
      have deeper : (Value.quoted value).textDepth = value.textDepth + 1 := rfl
      have fits : stack.length + (Value.quoted value).textDepth ≤ limit := by
        rw [List.length_cons] at room
        omega
      rw [List.append_assoc, List.singleton_append]
      exact ih (.quote derived) fits
  | @list opening stack earlier parts account fits items =>
      have whole : Accounts limit (.list ((parts ++ [(tokens, value)]).map Prod.snd).reverse :: stack)
          (earlier ++ ⟨.opening, opening⟩ ::
            ((parts ++ [(tokens, value)]).map Prod.fst).flatten) := by
        refine .list _ account fits fun part member => ?_
        rcases List.mem_append.mp member with early | last
        · exact items part early
        · rw [List.mem_singleton] at last
          subst last
          exact ⟨derived, by simpa using room⟩
      simpa [complete, Progress.Accounts] using whole

theorem start_accounts {stack : List Pending} {before : List Token} {token : Token}
    {progress : Progress} (account : Accounts limit stack before)
    (taken : start limit token stack = .ok progress) :
    progress.Accounts limit (before ++ [token]) := by
  obtain ⟨kind, text⟩ := token
  by_cases full : limit ≤ stack.length
  · rw [start, if_pos full] at taken
    cases taken
  · rw [start_of_room (Nat.lt_of_not_le full)] at taken
    cases kind with
    | symbol =>
        cases taken
        have fits : stack.length + (Value.symbol text).textDepth ≤ limit := by
          rw [show (Value.symbol text).textDepth = 1 from rfl]
          omega
        exact complete_accounts account (.symbol text) fits
    | quote =>
        cases taken
        exact .quote account
    | opening =>
        cases taken
        exact .list [] account (by omega) (List.forall_mem_nil _)
    | closing => cases taken
    | other name => cases taken

/-- One token keeps the account. -/
theorem step_accounts {stack : List Pending} {before : List Token} {token : Token}
    {progress : Progress} (account : Accounts limit stack before)
    (taken : step limit token stack = .ok progress) :
    progress.Accounts limit (before ++ [token]) := by
  unfold step at taken
  split at taken
  · rename_i items outer hk
    obtain ⟨kind, closing⟩ := token
    cases hk
    cases taken
    cases account with
    | @list opening _ earlier parts account fits derived =>
        have closed : Derives (⟨.opening, opening⟩ :: (parts.map Prod.fst).flatten ++
            [⟨.closing, closing⟩]) (.ofList (parts.map Prod.snd)) :=
          .list parts fun part member => (derived part member).1
        obtain ⟨below, rfl⟩ : ∃ below, limit = outer.length + 1 + below :=
          ⟨limit - outer.length - 1, by omega⟩
        have depth : (Value.ofList (parts.map Prod.snd)).textDepth ≤ below + 1 := by
          refine Value.textDepth_ofList_le fun value member => ?_
          obtain ⟨part, hp, rfl⟩ := List.mem_map.mp member
          have room := (derived part hp).2
          omega
        have done := complete_accounts account closed (by omega)
        simpa using done
  · exact start_accounts account taken

/-- What is read below any pending forms is derived from their tokens and those that were taken. -/
theorem derives_of_readFrom {tokens : List Token} :
    ∀ {stack : List Pending} {before rest : List Token} {value : Value},
      Accounts limit stack before → readFrom limit stack tokens = (.ok value, rest) →
      ∃ taken, tokens = taken ++ rest ∧ Derives (before ++ taken) value ∧
        value.textDepth ≤ limit := by
  induction tokens with
  | nil =>
      intro stack before rest value _ h
      cases h
  | cons token tokens ih =>
      intro stack before rest value account h
      rcases hs : step limit token stack with reason | next | found
      · rw [readFrom_of_error hs] at h
        cases h
      · rw [readFrom_of_ok hs] at h
        obtain ⟨taken, rfl, derived, depth⟩ := ih (step_accounts account hs) h
        rw [List.append_assoc] at derived
        exact ⟨token :: taken, rfl, derived, depth⟩
      · rw [readFrom_of_ok hs] at h
        cases h
        exact ⟨[token], rfl, step_accounts account hs⟩

/-- A reading returns a value exactly when the grammar derives it from a beginning of the tokens and
it nests within the limit; the rest of the tokens stays unread. -/
theorem read_eq_ok_iff {tokens rest : List Token} {value : Value} :
    read limit tokens = (.ok value, rest) ↔
      ∃ taken, tokens = taken ++ rest ∧ Derives taken value ∧ value.textDepth ≤ limit := by
  constructor
  · intro h
    exact derives_of_readFrom .nil h
  · rintro ⟨taken, rfl, derived, room⟩
    exact read_of_derives derived room rest

/-- What is derived and nests too deep exhausts the limit. -/
theorem read_of_deep {tokens : List Token} {value : Value} (derived : Derives tokens value)
    (deep : limit < value.textDepth) (rest : List Token) :
    (read limit (tokens ++ rest)).1 = .error .overflow := by
  have full := read_of_derives derived (Nat.le_refl _) rest
  rcases readFrom_limits (Nat.le_of_lt deep) (tokens ++ rest) [] with exceeded | same
  · exact exceeded
  · have read : read limit (tokens ++ rest) = (.ok value, rest) := same.trans full
    obtain ⟨_, _, _, room⟩ := read_eq_ok_iff.mp read
    omega

theorem parse_eq_ok_iff {text : String} {value : Value} :
    parse limit text = .ok value ↔
      Derives (Token.scanText text) value ∧ value.textDepth ≤ limit := by
  have whole : parse limit text = .ok value ↔
      read limit (Token.scanText text) = (.ok value, []) := by
    unfold parse
    rcases read limit (Token.scanText text) with ⟨result, rest⟩
    cases result with
    | error reason => simp
    | ok found => cases rest <;> simp
  rw [whole, read_eq_ok_iff]
  simp

end Reader

/-- Derivations from the same tokens, whatever follows each of them, are of the same value and end
at the same token. -/
theorem Derives.unique {tokens tokens' rest rest' : List Token} {value value' : Value}
    (derived : Derives tokens value) (derived' : Derives tokens' value')
    (same : tokens ++ rest = tokens' ++ rest') :
    tokens = tokens' ∧ value = value' ∧ rest = rest' := by
  -- One reading, with room for both, comes to both.
  have first := Reader.read_of_derives derived (Nat.le_max_left _ value'.textDepth) rest
  have second := Reader.read_of_derives derived' (Nat.le_max_right value.textDepth _) rest'
  rw [same, second] at first
  injection first with results ends
  subst ends
  exact ⟨List.append_cancel_right same, (Except.ok.inj results).symm, rfl⟩

/-! ## Streams -/

namespace TokenStream

/-- Reading from a stream is reading the tokens that are still to come. -/
theorem readFrom_view (limit : Nat) (stack : List Pending) (stream : TokenStream) :
    (readFrom limit stack stream).map id view = Reader.readFrom limit stack stream.view := by
  fun_induction readFrom limit stack stream with
  | case1 stack stream seen h =>
      have none_left : stream.view = [] := by
        rw [← List.head?_eq_none_iff, ← peek_fst, h]
      have still : seen.view = [] := by rw [← none_left, ← view_peek stream, h]
      rw [none_left, Prod.map_apply, still, Reader.readFrom, id]
  | case2 stack stream token seen h taken outer hs ih =>
      rw [ih, taken, Reader.readFrom_of_ok hs]
      rfl
  | case3 stack stream token seen h taken value hs =>
      rw [taken, Reader.readFrom_of_ok hs]
      rfl
  | case4 stack stream token seen h taken hs =>
      have still : seen.view = stream.view := by rw [← view_peek stream, h]
      rw [Prod.map_apply, still, taken, Reader.readFrom_of_error hs]
      rfl
  | case5 stack stream token seen h taken reason within hs =>
      rw [taken, Reader.readFrom_of_error hs]
      cases reason with
      | overflow => exact absurd rfl within
      | error error => rfl
      | noRule kind shape => rfl

theorem readValue_view (limit : Nat) (stream : TokenStream) :
    ((readValue limit stream).1, (readValue limit stream).2.view) =
      Reader.read limit stream.view :=
  readFrom_view limit [] stream

/-- A stream gives a value exactly when the grammar derives it from the tokens that are taken and it
nests within the limit; a text is a value if all its tokens are. Derivations are unambiguous. -/
theorem readValue_iff_derives (limit : Nat) :
    (∀ (stream : TokenStream) (value : Value) (rest : List Token),
      ((readValue limit stream).1 = .ok value ∧ (readValue limit stream).2.view = rest) ↔
        ∃ tokens, stream.view = tokens ++ rest ∧ Derives tokens value ∧
          value.textDepth ≤ limit) ∧
    (∀ (stream : TokenStream) (tokens rest : List Token) (value : Value),
      stream.view = tokens ++ rest → Derives tokens value → limit < value.textDepth →
        (readValue limit stream).1 = .error .overflow) ∧
    (∀ (text : String) (value : Value), Reader.parse limit text = .ok value ↔
      Derives (Token.scanText text) value ∧ value.textDepth ≤ limit) ∧
    ∀ (tokens tokens' rest rest' : List Token) (value value' : Value),
      Derives tokens value → Derives tokens' value' → tokens ++ rest = tokens' ++ rest' →
        tokens = tokens' ∧ value = value' ∧ rest = rest' := by
  refine ⟨fun stream value rest => ?_, fun stream tokens rest value whole derived deep => ?_,
    fun text value => Reader.parse_eq_ok_iff, fun _ _ _ _ _ _ => Derives.unique⟩
  · rw [← Reader.read_eq_ok_iff, ← readValue_view, Prod.mk.injEq]
  · have exceeded := Reader.read_of_deep derived deep rest
    rwa [← whole, ← readValue_view] at exceeded

/-- A quote in a list, with a token already looked at and one more behind the list. -/
theorem readValue_iff_derives_of_lookahead :
    let tokens : List Token := [⟨.opening, "("⟩, ⟨.quote, "'"⟩, ⟨.symbol, "a"⟩, ⟨.closing, ")"⟩]
    let stream : TokenStream := ⟨tokens.head?, tokens.tail ++ [⟨.other "remark", "?"⟩]⟩
    let value : Value := .ofList [.quoted (.symbol "a")]
    Derives tokens value ∧ (readValue 3 stream).1 = .ok value ∧
      (readValue 2 stream).1 = .error .overflow := by
  intro tokens stream value
  have derived : Derives tokens value :=
    .list [([⟨.quote, "'"⟩, ⟨.symbol, "a"⟩], .quoted (.symbol "a"))] (by
      intro part member
      rw [List.mem_singleton] at member
      subst member
      exact .quote (.symbol "a"))
  have read := ((readValue_iff_derives 3).1 stream value [⟨.other "remark", "?"⟩]).mpr
    ⟨tokens, rfl, derived, by decide⟩
  exact ⟨derived, read.1,
    (readValue_iff_derives 2).2.1 stream tokens [⟨.other "remark", "?"⟩] value rfl derived (by decide)⟩

end TokenStream

end MiniLisp
