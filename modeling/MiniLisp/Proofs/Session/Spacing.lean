import Mathlib.Data.List.TakeWhile
import MiniLisp.Proofs.Reader.Scanning
import MiniLisp.Proofs.Session.Limits

/-! # Spacing in the lines of a session

A session strips a line before it looks at it, and the scanner skips blanks on its own. Both know
the same blanks, so a line is blank after stripping exactly when it has no tokens. Everything else
that a session makes of a line goes through its tokens: lines with the same tokens have the same
reply, in whatever way they are spaced.
-/

namespace MiniLisp

theorem Text.strip_of_isGap {text : String} (gap : IsGap text.toList) : strip text = "" := by
  have dropped : text.toList.dropWhile isBlank = [] := List.dropWhile_eq_nil_iff.mpr gap
  unfold strip trim
  rw [dropped]
  rfl

/-- What is left of a line is empty exactly when the line has no tokens. -/
theorem Token.strip_eq_empty_iff (line : String) : Text.strip line = "" ↔ scanText line = [] := by
  constructor
  · intro empty
    rw [← scanText_strip, empty]
    rfl
  · intro blank
    exact Text.strip_of_isGap (isGap_of_scanText blank)

theorem Token.scanText_surrounded {front back : String} (before : IsGap front.toList)
    (behind : IsGap back.toList) (line : String) :
    scanText (front ++ line ++ back) = scanText line := by
  unfold scanText
  rw [String.toList_append, String.toList_append, List.append_assoc, scan_gap before,
    scan_append_gap behind]

theorem interpret_of_tokens_eq {code code' : String}
    (same : Token.scanText code = Token.scanText code') (turn : Turn) (limit : Nat)
    (scope : Scope) :
    interpret turn limit scope code = interpret turn limit scope code' := by
  have parsed : Reader.parse limit code = Reader.parse limit code' := by
    unfold Reader.parse
    rw [same]
  unfold interpret
  rw [parsed]

namespace Session

variable (session : Session) {line line' : String}

theorem evalLine_of_blank (blank : Text.strip line = "") :
    session.evalLine line = (⟨[], 0, .ok ""⟩, session) := by
  simp [evalLine, blank]

/-- A line that is not blank is evaluated as it is after stripping; only its failure is left to note
after that. -/
theorem evalLine_of_nonblank (nonblank : Text.strip line ≠ "") :
    (session.evalLine line).2 = (session.eval (Text.strip line)).2 ∧
      ∃ later, (session.evalLine line).1.events =
        .started (Text.strip line) :: ((session.eval (Text.strip line)).1.events ++ later) := by
  have filled : (Text.strip line).isEmpty = false := by simpa using nonblank
  unfold evalLine
  simp only [filled, Bool.false_eq_true, if_false]
  split
  · exact ⟨rfl, _, rfl⟩
  · exact ⟨rfl, [], by rw [List.append_nil]⟩

/-- The blank lines are those that a session passes over. -/
theorem evalLine_eq_self_iff :
    session.evalLine line = (⟨[], 0, .ok ""⟩, session) ↔ Token.scanText line = [] := by
  rw [← Token.strip_eq_empty_iff]
  constructor
  · intro passed
    by_contra nonblank
    obtain ⟨-, later, started⟩ := session.evalLine_of_nonblank nonblank
    rw [passed] at started
    cases started
  · exact session.evalLine_of_blank

theorem evalLine_of_tokens_eq (same : Token.scanText line = Token.scanText line') :
    (session.evalLine line).1.outcome = (session.evalLine line').1.outcome ∧
      (session.evalLine line).2 = (session.evalLine line').2 := by
  by_cases blank : Text.strip line = ""
  · have blank' : Text.strip line' = "" := by
      rw [Token.strip_eq_empty_iff, ← same, ← Token.strip_eq_empty_iff]
      exact blank
    rw [session.evalLine_of_blank blank, session.evalLine_of_blank blank']
    exact ⟨rfl, rfl⟩
  · have nonblank' : Text.strip line' ≠ "" := by
      rw [ne_eq, Token.strip_eq_empty_iff, ← same, ← Token.strip_eq_empty_iff]
      exact blank
    have stripped : Token.scanText (Text.strip line) = Token.scanText (Text.strip line') := by
      rw [Token.scanText_strip, Token.scanText_strip, same]
    constructor
    · rw [session.evalLine_eq_replyOf blank, session.evalLine_eq_replyOf nonblank',
        interpret_of_tokens_eq stripped]
    · -- However its evaluation ends, a line takes one turn.
      rw [(session.evalLine_of_nonblank blank).1, (session.evalLine_of_nonblank nonblank').1]
      rfl

/-- Spacing never matters to a session: all that counts of a line is its tokens. A line without
tokens is passed over, and of any other line a text with the same tokens is evaluated. -/
theorem spacing_never_matters :
    (∀ line line', Token.scanText line = Token.scanText line' →
      (session.evalLine line).1.outcome = (session.evalLine line').1.outcome ∧
        (session.evalLine line).2 = (session.evalLine line').2) ∧
    (∀ tokens (line line' : String), Token.Layout tokens line.toList →
      Token.Layout tokens line'.toList →
        (session.evalLine line).1.outcome = (session.evalLine line').1.outcome) ∧
    (∀ front line back : String, IsGap front.toList → IsGap back.toList →
      (session.evalLine (front ++ line ++ back)).1.outcome = (session.evalLine line).1.outcome) ∧
    (∀ line, session.evalLine line = (⟨[], 0, .ok ""⟩, session) ↔ Token.scanText line = []) ∧
    ∀ line, Token.scanText line ≠ [] →
      ∃ text later, Token.scanText text = Token.scanText line ∧
        (session.evalLine line).2 = (session.eval text).2 ∧
        (session.evalLine line).1.events =
          .started text :: ((session.eval text).1.events ++ later) := by
  refine ⟨fun line line' => session.evalLine_of_tokens_eq, ?_, ?_, fun line =>
    session.evalLine_eq_self_iff, ?_⟩
  · intro tokens line line' layout layout'
    have same : Token.scanText line = Token.scanText line' :=
      layout.scan_eq.trans layout'.scan_eq.symm
    exact (session.evalLine_of_tokens_eq same).1
  · intro front line back before behind
    exact (session.evalLine_of_tokens_eq (Token.scanText_surrounded before behind line)).1
  · intro line tokens
    have nonblank : Text.strip line ≠ "" := mt (Token.strip_eq_empty_iff line).mp tokens
    obtain ⟨next, later, events⟩ := session.evalLine_of_nonblank nonblank
    exact ⟨Text.strip line, later, Token.scanText_strip line, next, events⟩

end Session

/-- A malformed line with odd blanks around it and in it has the reply of the line without them; a
line of such blanks has none. -/
theorem Session.spacing_never_matters_of_malformed :
    let session : Session := {}
    (session.evalLine "\u2003(car'a\u00a0\u3000").1.outcome =
        .ok "Error: ParseError: Unmatched '('" ∧
      session.evalLine "\u2003\u00a0" = (⟨[], 0, .ok ""⟩, session) := by
  intro session
  obtain ⟨same, -, -, blank, -⟩ := session.spacing_never_matters
  have tokens : Token.scanText "\u2003(car'a\u00a0\u3000" = Token.scanText "(car 'a" := by decide
  have replied : (session.evalLine "(car 'a").1.outcome =
      .ok "Error: ParseError: Unmatched '('" := by rfl
  exact ⟨(same _ _ tokens).1.trans replied, (blank _).mpr (by decide)⟩

end MiniLisp
