import MiniLisp.Proofs.Reader.Viability

/-! # Scanning is exact

A text is the layout of exactly one list of tokens, and these are the ones that the scanner finds.
That it finds a layout is known; here a layout is scanned back, token by token. A symbol in it ends
where the scanner ends it, since a blank, a mark or the end of the text comes next. What follows for
layouts follows for the scanner: the tokens are made of the characters that are not blank, and texts
that meet outside a symbol can be scanned apart.
-/

namespace MiniLisp

/-- Letters are all characters but blanks and marks. -/
theorem CharClass.of_eq_letter_iff (c : Char) :
    CharClass.of c = .letter ↔ Text.isBlank c = false ∧ c ≠ '(' ∧ c ≠ ')' ∧ c ≠ '\'' := by
  unfold CharClass.of
  grind

namespace Token

variable {token : Token} {tokens : List Token} {cs : List Char}

/-! ## Layouts are scanned back -/

/-- A lexeme that is no symbol is a mark. -/
theorem IsLexeme.eq_ofMark (lexeme : token.IsLexeme) (mark : token.kind ≠ .symbol) :
    ∃ c, token = ofMark token.kind c ∧ CharClass.of c = .mark token.kind := by
  obtain ⟨kind, text⟩ := token
  cases kind with
  | opening => exact ⟨'(', congrArg (Token.mk _) lexeme, CharClass.of_opening⟩
  | closing => exact ⟨')', congrArg (Token.mk _) lexeme, CharClass.of_closing⟩
  | quote => exact ⟨'\'', congrArg (Token.mk _) lexeme, CharClass.of_apostrophe⟩
  | symbol => exact absurd rfl mark
  | other name => exact lexeme.elim

theorem toList_text_ofMark (kind : TokenKind) (c : Char) : (ofMark kind c).text.toList = [c] :=
  String.toList_singleton c

theorem breaks_of_blank {c : Char} (blank : Text.isBlank c = true) : Breaks (c :: cs) :=
  breaks_cons (by simp [CharClass.of_isBlank blank])

/-- Where a symbol may end in front of a layout, the layout breaks it off. -/
theorem Layout.breaks (layout : Layout tokens cs)
    (apart : StartsWithSymbol tokens → ∃ c ∈ cs.head?, Text.isBlank c = true) : Breaks cs := by
  cases layout with
  | nil _ blank =>
      cases cs with
      | nil => exact breaks_nil
      | cons c cs => exact breaks_of_blank (blank c (by simp))
  | cons gap token blank lexeme rest _ =>
      cases gap with
      | cons c gap => exact breaks_of_blank (blank c (by simp))
      | nil =>
          by_cases symbol : token.kind = .symbol
          · -- Two symbols have a blank between them, and here is no gap for one.
            obtain ⟨c, first, isBlank⟩ := apart ⟨token, rfl, symbol⟩
            intro d head
            have same : d = c := Option.some.inj (head.symm.trans first)
            rw [same, CharClass.of_isBlank isBlank]
            simp
          · obtain ⟨c, whole, mark⟩ := lexeme.eq_ofMark symbol
            rw [whole, toList_text_ofMark]
            exact breaks_cons (by simp [mark])

theorem scan_lexeme {rest : List Char} (lexeme : token.IsLexeme)
    (breaks : token.kind = .symbol → Breaks rest) :
    scan [] (token.text.toList ++ rest) = token :: scan [] rest := by
  by_cases symbol : token.kind = .symbol
  · obtain ⟨kind, name⟩ := token
    cases symbol
    exact scan_name (isReadable_of_letters lexeme.1 lexeme.2) (breaks rfl)
  · obtain ⟨c, whole, mark⟩ := lexeme.eq_ofMark symbol
    have scanned := scan_mark mark rest
    rw [← whole] at scanned
    rw [whole, toList_text_ofMark, ← whole]
    exact scanned

/-- A layout is scanned into the tokens that it is a layout of. -/
theorem Layout.scan_eq (layout : Layout tokens cs) : scan [] cs = tokens := by
  induction layout with
  | nil gap blank =>
      have skipped := scan_gap blank []
      rw [List.append_nil] at skipped
      exact skipped
  | cons gap token blank lexeme rest apart ih =>
      rw [List.append_assoc, scan_gap blank,
        scan_lexeme lexeme fun symbol => rest.breaks (apart symbol), ih]

theorem layout_iff_scanText (text : String) :
    Layout tokens text.toList ↔ tokens = scanText text := by
  constructor
  · intro layout
    exact layout.scan_eq.symm
  · rintro rfl
    exact layout_scanText text

/-! ## Characters -/

theorem IsLexeme.not_blank (lexeme : token.IsLexeme) :
    ∀ c ∈ token.text.toList, Text.isBlank c = false := by
  intro c member
  by_cases symbol : token.kind = .symbol
  · obtain ⟨kind, name⟩ := token
    cases symbol
    exact ((CharClass.of_eq_letter_iff c).mp (lexeme.2 c member)).1
  · obtain ⟨d, whole, mark⟩ := lexeme.eq_ofMark symbol
    rw [whole, toList_text_ofMark, List.mem_singleton] at member
    subst member
    cases blank : Text.isBlank c with
    | false => rfl
    | true =>
        rw [CharClass.of_isBlank blank] at mark
        cases mark

/-- The tokens of a layout hold all its characters but the blanks, in order. -/
theorem Layout.flatMap_text (layout : Layout tokens cs) :
    tokens.flatMap (fun token => token.text.toList) = cs.filter fun c => !Text.isBlank c := by
  have skipped {gap : List Char} (blank : IsGap gap) :
      (gap.filter fun c => !Text.isBlank c) = [] :=
    List.filter_eq_nil_iff.mpr fun c member => by simp [blank c member]
  induction layout with
  | nil gap blank => rw [skipped blank, List.flatMap_nil]
  | cons gap token blank lexeme rest _ ih =>
      have kept : (token.text.toList.filter fun c => !Text.isBlank c) = token.text.toList :=
        List.filter_eq_self.mpr fun c member => by simp [lexeme.not_blank c member]
      rw [List.flatMap_cons, ih, List.filter_append, List.filter_append, skipped blank, kept,
        List.nil_append]

/-! ## Texts scanned apart -/

theorem scan_cons_of_ne_letter {c : Char} (h : CharClass.of c ≠ .letter) (cs : List Char) :
    scan [] (c :: cs) = scan [] [c] ++ scan [] cs := by
  cases hc : CharClass.of c with
  | blank => simp [scan, hc, flush]
  | mark kind => simp [scan, hc, flush]
  | letter => exact absurd hc h

theorem scan_append_of_breaks {more : List Char} (breaks : Breaks more) :
    scan [] (cs ++ more) = scan [] cs ++ scan [] more := by
  obtain ⟨finished, pending, whole, goes⟩ := scan_append [] cs
  rw [goes, whole, scan_of_breaks breaks, List.append_assoc]

/-- Texts that do not meet inside a symbol can be scanned apart. -/
theorem scanText_append_of_apart {text more : String}
    (apart : (∀ c ∈ text.toList.getLast?, CharClass.of c ≠ .letter) ∨ Breaks more.toList) :
    scanText (text ++ more) = scanText text ++ scanText more := by
  unfold scanText
  rw [String.toList_append]
  rcases apart with ends | breaks
  · rcases List.eq_nil_or_concat text.toList with empty | ⟨front, c, whole⟩
    · rw [empty]
      rfl
    · have last : CharClass.of c ≠ .letter := ends c (by simp [whole])
      -- The last character of the text breaks off what stands in front of it.
      rw [whole, List.concat_eq_append, List.append_assoc, List.singleton_append,
        scan_append_of_breaks (breaks_cons last), scan_append_of_breaks (breaks_cons last),
        scan_cons_of_ne_letter last, List.append_assoc]
  · exact scan_append_of_breaks breaks

/-- The scanner is exact: the text is a layout of the tokens that it finds and of no others, and
only blanks are left out. Two texts can be scanned apart unless a letter ends the one and a letter
begins the other. -/
theorem scanText_exact (text : String) :
    (∀ c, CharClass.of c = .letter ↔
      Text.isBlank c = false ∧ c ≠ '(' ∧ c ≠ ')' ∧ c ≠ '\'') ∧
    (∀ tokens, Layout tokens text.toList ↔ tokens = scanText text) ∧
    (scanText text).flatMap (fun token => token.text.toList) =
      (text.toList.filter fun c => !Text.isBlank c) ∧
    ∀ more : String,
      (∀ c ∈ text.toList.getLast?, CharClass.of c ≠ .letter) ∨
        (∀ c ∈ more.toList.head?, CharClass.of c ≠ .letter) →
      scanText (text ++ more) = scanText text ++ scanText more := by
  refine ⟨CharClass.of_eq_letter_iff, fun tokens => layout_iff_scanText text, ?_, ?_⟩
  · exact (layout_scanText text).flatMap_text
  · intro more apart
    exact scanText_append_of_apart apart

/-- A quote mark ends the one text, and a letter begins the other; an ideographic space stands
between two symbols. -/
theorem scanText_exact_of_quote :
    let tokens : List Token := [⟨.opening, "("⟩, ⟨.symbol, "a"⟩, ⟨.symbol, "b"⟩, ⟨.quote, "'"⟩]
    scanText "(a\u3000b'" = tokens ∧
      scanText ("(a\u3000b'" ++ "c )") =
        tokens ++ [⟨.symbol, "c"⟩, ⟨.closing, ")"⟩] := by
  intro tokens
  have front : scanText "(a\u3000b'" = tokens := by decide
  have back : scanText "c )" = [⟨.symbol, "c"⟩, ⟨.closing, ")"⟩] := by decide
  have last : "(a\u3000b'".toList.getLast? = some '\'' := by decide
  have ends : ∀ c ∈ "(a\u3000b'".toList.getLast?, CharClass.of c ≠ .letter := by
    intro c member
    cases last.symm.trans member
    decide
  have apart := (scanText_exact "(a\u3000b'").2.2.2 "c )" (.inl ends)
  rw [front, back] at apart
  exact ⟨front, apart⟩

end Token

end MiniLisp
