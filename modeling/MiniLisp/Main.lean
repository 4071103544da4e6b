import MiniLisp.Console.Basic
import Std.Time.Format

/-!
# The command line

The console on a terminal or a pipe: lines come from standard input, replies go to standard output
and the log to standard error. Everything that is said is said by the console's own functions; this
module moves it in and out.
-/

namespace MiniLisp.CommandLine

def settingNames : List String :=
  ["HOME", "QUILL_HISTORY_FILE", "QUILL_HISTORY_LENGTH", "QUILL_PROMPT", "QUILL_LOG_LEVEL"]

def readEnvironment : IO Environment := do
  let bindings ← settingNames.mapM fun name => do return (name, ← IO.getEnv name)
  return fun name => (bindings.lookup name).join

/-- The number of the user who runs the program, as the system reports it. -/
def readUserNumber : IO (Option String) := do
  let lines ← try IO.FS.lines "/proc/self/status" catch _ => pure #[]
  return lines.toList.findSome? fun line =>
    match line.splitOn "\t" with
    | "Uid:" :: number :: _ => some number
    | _ => none

def readHomes : IO Homes := do
  let lines ← try IO.FS.lines "/etc/passwd" catch _ => pure #[]
  let entries := lines.toList.filterMap fun line =>
    match line.splitOn ":" with
    | [user, _, number, _, _, home, _] => some (user, number, home)
    | _ => none
  let byNumber := entries.map fun (_, number, home) => (number, home)
  let byName := entries.map fun (user, _, home) => (user, home)
  return ⟨(← readUserNumber).bind (List.lookup · byNumber), (List.lookup · byName)⟩

def log (level : Nat) (records : List Record) : IO Unit := do
  for record in Record.atLevel level records do
    let now ← Std.Time.PlainDateTime.now
    IO.eprintln (now.format "uuuu-MM-dd HH:mm:ss,SSS" ++ " " ++ record.text)

/-- The lines of the history file, or none with a remark why. -/
def loadHistory (level : Nat) (file : String) : IO (List String) := do
  try
    let text ← IO.FS.readFile file
    return History.entries (Console.splitLines text)
  catch
    | .noFileOrDirectory .. =>
        IO.print Console.missingHistory
        return []
    | error =>
        log level [Console.historyRecord "read" file (toString error)]
        return []

def saveHistory (level : Nat) (file : String) (count : Nat) (entries : List String) : IO Unit := do
  try
    IO.FS.writeFile file (String.join ((History.keepLast count entries).map (· ++ "\n")))
  catch error => log level [Console.historyRecord "save" file (toString error)]

partial def converse (prompt : String) (level : Nat) (session : Session) : IO Unit := do
  let stdout ← IO.getStdout
  stdout.putStr prompt
  stdout.flush
  let line ← (← IO.getStdin).getLine
  if line.isEmpty then
    IO.println Ending.endOfInput.marker
  else
    let line := Text.strip line
    if line.isEmpty then
      converse prompt level session
    else
      let (run, next) := session.evalLine line
      log level (run.events.filterMap Event.record?)
      match run.outcome with
      | .ok reply => IO.println reply
      | .error _ => pure ()
      converse prompt level next

def start (setup : Settings.Setup) : IO UInt32 := do
  let entries ← match setup.historyFile with
    | some file => loadHistory setup.logLevel file
    | none => pure []
  converse setup.prompt setup.logLevel { verbose := verboseAt setup.logLevel }
  match setup.historyFile with
  | some file => saveHistory setup.logLevel file setup.historyLength entries
  | none => pure ()
  return 0

end MiniLisp.CommandLine

def main : IO UInt32 := do
  let env ← MiniLisp.CommandLine.readEnvironment
  let homes ← MiniLisp.CommandLine.readHomes
  let setup := match MiniLisp.Settings.defaultHistoryFile? env homes with
    | some default => MiniLisp.Settings.setup env default homes
    | none => .error .unknownHome
  match setup with
  | .ok setup => MiniLisp.CommandLine.start setup
  | .error refusal =>
      IO.eprintln refusal.message
      return 1
