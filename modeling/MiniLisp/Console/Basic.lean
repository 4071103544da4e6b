import MiniLisp.Console.History
import MiniLisp.Console.Log
import MiniLisp.Session
import MiniLisp.Settings.Basic

/-!
# The console

The console reads a line, answers it and goes on until the input ends. All it does is a function of
its settings, its input and the history it finds: what it prints, what it logs and what it leaves.
-/

namespace MiniLisp

inductive Ending
  | endOfInput
  | interrupt
  deriving DecidableEq

def Ending.marker : Ending → String
  | endOfInput => "CTRL-D"
  | interrupt => "CTRL-C"

/-- A conversation: the reply to each line, `none` where there is none, and all that happened. It
breaks off early if a host callable cannot be called. -/
structure Dialogue where
  replies : List (Option String) := []
  events : List Event := []
  brokenBy : Option Stop := none

namespace Dialogue

/-- Answer the lines one after the other; an empty line gets no reply. -/
def hold (session : Session) : List String → Dialogue
  | [] => {}
  | line :: rest =>
      if line.isEmpty then
        let later := hold session rest
        { later with replies := none :: later.replies }
      else
        match session.evalLine line with
        | (⟨events, _, .ok reply⟩, next) =>
            let later := hold next rest
            { later with replies := some reply :: later.replies, events := events ++ later.events }
        | (⟨events, _, .error reason⟩, _) => ⟨[], events, some reason⟩

/-- The replies, and the marker of the end. -/
def written (dialogue : Dialogue) (ending : Ending) : List String :=
  dialogue.replies.filterMap id ++ (if dialogue.brokenBy.isSome then [] else [ending.marker])

/-- The conversation on a screen: the prompt before each line, each reply on a line of its own. -/
def screen (dialogue : Dialogue) (prompt : String) (ending : Ending) : String :=
  let shown (reply : Option String) := prompt ++ (reply.map (· ++ "\n")).getD ""
  let last := if dialogue.brokenBy.isSome then prompt else prompt ++ ending.marker ++ "\n"
  String.join (dialogue.replies.map shown) ++ last

end Dialogue

namespace Console

/-- The lines of an input text; what follows the last line break counts if it is not empty. -/
def splitLines (text : String) : List String :=
  go [] text.toList
where
  /-- Split on, after the characters of an unfinished line, last first. -/
  go (line : List Char) : List Char → List String
    | [] => if line.isEmpty then [] else [String.ofList line.reverse]
    | '\n' :: rest => String.ofList line.reverse :: go [] rest
    | c :: rest => go (c :: line) rest

structure Report where
  screen : String
  log : List Record
  history : History
  /-- The history length in force, or why the console did not start. -/
  historyLength : Except Settings.Refusal Nat

def missingHistory : String := "No previous history.\n"

def historyRecord (verb file reason : String) : Record :=
  ⟨.warning, "quill.repl", "could not " ++ verb ++ " history " ++ file ++ ": " ++ reason⟩

/-- Run the console on an input. The history is kept in `default` unless the environment says
otherwise, and `history` is what stands there. -/
def run (env : Environment) (default : String) (history : History) (input : String)
    (ending : Ending) (homes : Homes := {}) : Report :=
  match Settings.setup env default homes with
  | .error refusal => ⟨"", [], history, .error refusal⟩
  | .ok setup =>
      let dialogue := Dialogue.hold { verbose := verboseAt setup.logLevel }
        ((splitLines input).map Text.strip)
      let found := if setup.historyFile.isSome then history else .off
      let file := setup.historyFile.getD default
      let opening := if found.isMissing then missingHistory else ""
      let loading := found.loadFault?.toList.map (historyRecord "read" file)
      let saving := found.saveFault?.toList.map (historyRecord "save" file)
      { screen := opening ++ dialogue.screen setup.prompt ending
        log := Record.atLevel setup.logLevel
          (loading ++ dialogue.events.filterMap Event.record? ++ saving)
        history := found.saved setup.historyLength
        historyLength := .ok setup.historyLength }

end Console

end MiniLisp
