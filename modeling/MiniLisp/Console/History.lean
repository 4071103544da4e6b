/-!
# The history file

What the console finds where its history is kept, and what it leaves there. The entries are loaded
at the start and the most recent ones are saved at the end.
-/

namespace MiniLisp

/-- What stands at the place of the history file. -/
inductive History
  | off
  | absent
  | directory
  /-- The directory of the file does not exist. -/
  | unreachable
  | lines (lines : List String)

namespace History

/-- Whether a line begins with a number sign and a digit, as time stamps do. -/
def isStamp (line : String) : Bool :=
  match line.toList with
  | '#' :: c :: _ => c.isDigit
  | _ => false

/-- The entry on a line: what precedes a carriage return at its end, and any null character. -/
def entry (line : String) : String :=
  let cs := line.toList
  let cs := if cs.getLast? = some '\r' then cs.dropLast else cs
  String.ofList (cs.takeWhile (· != '\x00'))

/-- The entries of a file. Empty lines are none; neither are time stamps if the file starts with
one. -/
def entries (lines : List String) : List String :=
  let stamped := (lines.head?.map isStamp).getD false
  (lines.map entry).filter fun entry => !entry.isEmpty && !(stamped && isStamp entry)

def keepLast (count : Nat) (entries : List String) : List String :=
  entries.drop (entries.length - count)

/-- What the console leaves behind when it keeps `count` entries. -/
def saved (count : Nat) : History → History
  | absent => lines []
  | lines ls => lines (keepLast count (entries ls))
  | place => place

/-- Whether a start without a file is worth a remark. -/
def isMissing : History → Bool
  | absent | unreachable => true
  | _ => false

def loadFault? : History → Option String
  | directory => some "[Errno 22] Invalid argument"
  | _ => none

def saveFault? : History → Option String
  | directory => some "[Errno 21] Is a directory"
  | unreachable => some "[Errno 2] No such file or directory"
  | _ => none

end History

end MiniLisp
