import MiniLisp.Proofs.Reader.RoundTrip
import MiniLisp.Token.Layout

/-! # Blanks around tokens

The scanner passes over blanks: those that surround a text are not part of its tokens, and a text
without tokens is nothing but blanks. A symbol that it finds has a readable name.
-/

namespace MiniLisp

theorem CharClass.of_isBlank {c : Char} (h : Text.isBlank c = true) : CharClass.of c = .blank := by
  have other : ∀ d : Char, Text.isBlank d = false → c ≠ d := by
    intro d hd same
    rw [same, hd] at h
    cases h
  simp [CharClass.of, h, other '(' (by decide), other ')' (by decide), other '\'' (by decide)]

namespace Token

theorem scan_gap {gap : List Char} (h : IsGap gap) (cs : List Char) :
    scan [] (gap ++ cs) = scan [] cs := by
  induction gap with
  | nil => rfl
  | cons c gap ih =>
      have hc := CharClass.of_isBlank (h c (by simp))
      have later : IsGap gap := fun d member => h d (by simp [member])
      rw [List.cons_append, scan_blank hc, ih later]

theorem scan_append_gap {gap : List Char} (h : IsGap gap) (cs : List Char) :
    ∀ letters, scan letters (cs ++ gap) = scan letters cs := by
  induction cs with
  | nil =>
      intro letters
      have only : scan [] gap = [] := by simpa [scan, flush] using scan_gap h []
      have breaks : Breaks gap := by
        cases gap with
        | nil => exact breaks_nil
        | cons c gap => exact breaks_cons (by simp [CharClass.of_isBlank (h c (by simp))])
      rw [List.nil_append, scan_of_breaks breaks, only, List.append_nil, scan]
  | cons c cs ih =>
      intro letters
      rw [List.cons_append, scan, scan, ih [], ih (c :: letters)]

end Token

namespace Text

theorem isGap_takeWhile (cs : List Char) : IsGap (cs.takeWhile isBlank) :=
  List.all_eq_true.mp List.all_takeWhile

/-- What is trimmed off stands in front and behind, and is blank. -/
theorem eq_append_trim (cs : List Char) :
    ∃ front back, IsGap front ∧ IsGap back ∧ cs = front ++ (trim isBlank cs ++ back) := by
  let middle := cs.dropWhile isBlank
  refine ⟨cs.takeWhile isBlank, (middle.reverse.takeWhile isBlank).reverse, isGap_takeWhile cs,
    fun c member => isGap_takeWhile _ c (List.mem_reverse.mp member), ?_⟩
  have back : trim isBlank cs ++ (middle.reverse.takeWhile isBlank).reverse = middle := by
    rw [trim, ← List.reverse_append, List.takeWhile_append_dropWhile, List.reverse_reverse]
  rw [back, List.takeWhile_append_dropWhile]

end Text

namespace Token

theorem scanText_strip (text : String) : scanText (Text.strip text) = scanText text := by
  obtain ⟨front, back, hf, hb, whole⟩ := Text.eq_append_trim text.toList
  have trimmed : scan [] text.toList = scan [] (Text.trim Text.isBlank text.toList) := by
    rw [whole, scan_gap hf, scan_append_gap hb, ← whole]
  rw [scanText, scanText, trimmed, Text.strip, String.toList_ofList]

theorem Layout.isLexeme {tokens : List Token} {cs : List Char} (layout : Layout tokens cs) :
    ∀ token ∈ tokens, token.IsLexeme := by
  induction layout with
  | nil => exact List.forall_mem_nil _
  | cons gap token _ lexeme _ _ ih => exact List.forall_mem_cons.mpr ⟨lexeme, ih⟩

theorem isReadable_of_mem_scanText {text name : String}
    (member : ⟨.symbol, name⟩ ∈ scanText text) : isReadable name = true := by
  have lexeme := (layout_scanText text).isLexeme _ member
  exact isReadable_of_letters lexeme.1 lexeme.2

theorem isGap_of_scanText {text : String} (h : scanText text = []) : IsGap text.toList := by
  have layout := layout_scanText text
  rw [h] at layout
  generalize text.toList = cs at layout
  cases layout with
  | nil _ gap => exact gap

end Token

theorem Reader.parse_strip (limit : Nat) (text : String) :
    parse limit (Text.strip text) = parse limit text := by
  rw [parse, Token.scanText_strip, parse]

end MiniLisp
