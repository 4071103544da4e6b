import MiniLisp.Eval.Action

/-!
# Log records

Events and incidents as lines of a log. A record is written when its severity reaches the level of
the log.
-/

namespace MiniLisp

inductive Severity
  | debug
  | info
  | warning
  deriving DecidableEq

namespace Severity

def level : Severity → Nat
  | debug => 10
  | info => 20
  | warning => 30

def name : Severity → String
  | debug => "DEBUG"
  | info => "INFO"
  | warning => "WARNING"

end Severity

/-- A record of the log: how severe, from which part of the program, and what. -/
structure Record where
  severity : Severity
  source : String
  message : String

def Record.text (record : Record) : String :=
  record.severity.name ++ " " ++ record.source ++ ": " ++ record.message

/-- The record of an event; calls of the host leave none. -/
def Event.record? : Event → Option Record
  | started line => some ⟨.debug, "quill.interpreter", "eval: " ++ line⟩
  | parsed value => some ⟨.debug, "quill.reader.parser", "parsed " ++ value.inspect⟩
  | built callable =>
      let source := match callable.callKind? with
        | some .form => "quill.evaluation.special_forms.macro_form"
        | _ => "quill.evaluation.special_forms.lambda_form"
      some ⟨.debug, source, "built " ++ callable.inspect⟩
  | expanded code => some ⟨.debug, "quill.evaluation.apply", "macro expanded to " ++ code.inspect⟩
  | called _ => none
  | failed error line =>
      some ⟨.info, "quill.interpreter", error.line ++ " on input " ++ Text.quoted line⟩

def Record.atLevel (level : Nat) (records : List Record) : List Record :=
  records.filter fun record => level ≤ record.severity.level

/-- Whether a log of the given level holds every notice of evaluation. -/
def verboseAt (level : Nat) : Bool := level ≤ Severity.debug.level

end MiniLisp
