import MiniLisp.Settings.Path
import MiniLisp.Text.Numeral
import MiniLisp.Text.UpperCase

/-!
# Settings

The console is set up by environment variables. A history length or log level that makes no sense
counts as its default. A history file whose home is not known, and a history longer than can be
kept, keep the console from starting.
-/

namespace MiniLisp

abbrev Environment := String → Option String

namespace Settings

/-- A file name below a home directory that cannot be told. -/
structure UnknownHome where
  deriving DecidableEq

def UnknownHome.message (_ : UnknownHome) : String := "Could not determine home directory."

/-- The homes under an environment, which may set the user's own. -/
def homesIn (env : Environment) (homes : Homes) : Homes :=
  { homes with own? := (env "HOME").or homes.own? }

/-- The history file of a user whose settings name none. -/
def defaultHistoryFile? (env : Environment) (homes : Homes := {}) : Option String := do
  let home ← (Path.ofString "~").expandHome? (homesIn env homes)
  return Path.text ⟨home.root, home.parts ++ [".quill_history"]⟩

/-- The history file. Unset, it is `default`; set to blanks, no history is kept. -/
def historyFile (env : Environment) (default : String) (homes : Homes := {}) :
    Except UnknownHome (Option String) :=
  match env "QUILL_HISTORY_FILE" with
  | none => .ok (some default)
  | some raw =>
      let name := Text.strip raw
      if name.isEmpty then .ok none
      else
        match (Path.ofString name).expandHome? (homesIn env homes) with
        | some path => .ok (some path.text)
        | none => .error ⟨⟩

def defaultHistoryLength : Nat := 1000

/-- How many entries the history keeps: a positive number. -/
def historyLength (env : Environment) : Nat :=
  match Text.integer? ((env "QUILL_HISTORY_LENGTH").getD "") with
  | some (Int.ofNat (n + 1)) => n + 1
  | _ => defaultHistoryLength

theorem historyLength_pos (env : Environment) : 0 < historyLength env := by
  unfold historyLength
  split
  · exact Nat.succ_pos _
  · decide

def maxHistoryLength : Nat := 2147483647

def prompt (env : Environment) : String := (env "QUILL_PROMPT").getD ">> "

def levelNames : List (String × Nat) :=
  [("CRITICAL", 50), ("FATAL", 50), ("ERROR", 40), ("WARNING", 30), ("WARN", 30), ("INFO", 20),
   ("DEBUG", 10), ("NOTSET", 0)]

def defaultLogLevel : Nat := 30

/-- The level of the log, by name in any case. -/
def logLevel (env : Environment) : Nat :=
  match env "QUILL_LOG_LEVEL" with
  | none => defaultLogLevel
  | some raw => (levelNames.lookup (Text.upper (Text.strip raw))).getD defaultLogLevel

/-- Why a console does not start. -/
inductive Refusal
  | unknownHome
  | historyTooLong
  deriving DecidableEq

/-- What the host says when it refuses a setting. -/
def Refusal.message : Refusal → String
  | unknownHome => UnknownHome.message ⟨⟩
  | historyTooLong => "Python int too large to convert to C int"

structure Setup where
  /-- Where the history is kept, if it is. -/
  historyFile : Option String
  historyLength : Nat
  prompt : String
  logLevel : Nat
  historyLength_pos : 0 < historyLength
  historyLength_le : historyLength ≤ maxHistoryLength

/-- The settings together, or why a console does not start with them. -/
def setup (env : Environment) (default : String) (homes : Homes := {}) : Except Refusal Setup :=
  -- The file comes first: without a home it is refused, whatever the length is.
  match historyFile env default homes with
  | .error _ => .error .unknownHome
  | .ok file =>
      if h : historyLength env ≤ maxHistoryLength then
        .ok ⟨file, historyLength env, prompt env, logLevel env, historyLength_pos env, h⟩
      else .error .historyTooLong

end Settings

end MiniLisp
