import MiniLisp.Token.Basic

/-!
# Layouts

Which texts the tokens of a list can be written as, said without a scanner: the tokens in order,
with blanks anywhere around them, and at least one between two symbols. The scanner finds tokens of
which the text is a layout.
-/

namespace MiniLisp

def IsGap (cs : List Char) : Prop := ∀ c ∈ cs, Text.isBlank c = true

namespace Token

/-- Whether a token can be written: a mark by its character, a symbol by its letters. -/
def IsLexeme (token : Token) : Prop :=
  match token.kind with
  | .opening => token.text = "("
  | .closing => token.text = ")"
  | .quote => token.text = "'"
  | .symbol => token.text.toList ≠ [] ∧ ∀ c ∈ token.text.toList, CharClass.of c = .letter
  | .other _ => False

def StartsWithSymbol (tokens : List Token) : Prop :=
  ∃ token, tokens.head? = some token ∧ token.kind = .symbol

inductive Layout : List Token → List Char → Prop
  | nil (gap : List Char) : IsGap gap → Layout [] gap
  | cons (gap : List Char) (token : Token) {tokens : List Token} {rest : List Char} :
      IsGap gap → token.IsLexeme → Layout tokens rest →
      (token.kind = .symbol → StartsWithSymbol tokens → ∃ c ∈ rest.head?, Text.isBlank c = true) →
      Layout (token :: tokens) (gap ++ token.text.toList ++ rest)

theorem Layout.blank {tokens : List Token} {cs : List Char} {c : Char}
    (layout : Layout tokens cs) (h : Text.isBlank c = true) : Layout tokens (c :: cs) := by
  cases layout with
  | nil _ gap =>
      refine .nil _ fun d member => ?_
      rcases List.mem_cons.mp member with rfl | later
      · exact h
      · exact gap d later
  | cons _ token gap lexeme rest apart =>
      rw [← List.cons_append, ← List.cons_append]
      refine .cons _ token (fun d member => ?_) lexeme rest apart
      rcases List.mem_cons.mp member with rfl | later
      · exact h
      · exact gap d later

/-- A finished symbol stands in front of a layout that does not go on with a letter. -/
theorem Layout.flush {tokens : List Token} {cs letters : List Char} (layout : Layout tokens cs)
    (all : ∀ c ∈ letters, CharClass.of c = .letter)
    (apart : StartsWithSymbol tokens → ∃ c ∈ cs.head?, Text.isBlank c = true) :
    Layout (Token.flush letters ++ tokens) (letters.reverse ++ cs) := by
  cases letters with
  | nil => simpa [Token.flush] using layout
  | cons c letters =>
      have lexeme : IsLexeme ⟨.symbol, String.ofList (c :: letters).reverse⟩ :=
        ⟨by simp, fun d member => all d (by simpa [or_comm] using member)⟩
      have symbol := Layout.cons [] _ (by simp [IsGap]) lexeme layout fun _ => apart
      simpa [Token.flush] using symbol

theorem charClass_blank {c : Char} (h : CharClass.of c = .blank) : Text.isBlank c = true := by
  unfold CharClass.of at h
  grind

theorem isLexeme_ofMark {c : Char} {kind : TokenKind} (h : CharClass.of c = .mark kind) :
    (ofMark kind c).IsLexeme ∧ kind ≠ .symbol := by
  unfold CharClass.of at h
  split at h
  · cases h; subst_vars; exact ⟨rfl, by simp⟩
  · split at h
    · cases h; subst_vars; exact ⟨rfl, by simp⟩
    · split at h
      · cases h; subst_vars; exact ⟨rfl, by simp⟩
      · split at h <;> cases h

theorem layout_scan (cs : List Char) :
    ∀ letters : List Char, (∀ c ∈ letters, CharClass.of c = .letter) →
      Layout (scan letters cs) (letters.reverse ++ cs) := by
  induction cs with
  | nil =>
      intro letters all
      have layout := (Layout.nil [] (by simp [IsGap])).flush all (by simp [StartsWithSymbol])
      simpa [scan] using layout
  | cons c cs ih =>
      intro letters all
      have rest := ih [] (by simp)
      simp only [List.reverse_nil, List.nil_append] at rest
      cases h : CharClass.of c with
      | blank =>
          have blank := charClass_blank h
          simpa [scan, h] using (rest.blank blank).flush all fun _ => ⟨c, by simp, blank⟩
      | mark kind =>
          obtain ⟨lexeme, mark⟩ := isLexeme_ofMark h
          have layout := Layout.cons [] _ (by simp [IsGap]) lexeme rest
            fun symbol => absurd symbol mark
          have whole := layout.flush all fun ⟨token, first, symbol⟩ => by
            simp at first
            subst first
            exact absurd symbol mark
          simpa [scan, h, ofMark] using whole
      | letter =>
          have layout := ih (c :: letters) fun d member => by
            rcases List.mem_cons.mp member with rfl | later
            · exact h
            · exact all d later
          simpa [scan, h] using layout

/-- Every text is a layout of its tokens. -/
theorem layout_scanText (text : String) : Layout (scanText text) text.toList :=
  layout_scan text.toList [] (by simp)

end Token

end MiniLisp
