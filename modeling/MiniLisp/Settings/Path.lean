/-!
# File paths

A path is a root and its parts. Empty parts and single dots carry no meaning and are dropped; two
leading slashes are a root of their own. A first part that begins with a tilde names a home.
-/

namespace MiniLisp

/-- The home directories that are known: that of the user of the program, and those of users by
name. -/
structure Homes where
  own? : Option String := none
  user? : String → Option String := fun _ => none

/-- The directory that a tilde with this name behind it stands for. -/
def Homes.of? (homes : Homes) (user : String) : Option String :=
  if user.isEmpty then homes.own? else homes.user? user

/-- A path: the slashes it starts with and the parts below. -/
structure Path where
  root : String
  parts : List String
  deriving DecidableEq

namespace Path

def pieces : List Char → List (List Char)
  | [] => [[]]
  | '/' :: rest => [] :: pieces rest
  | c :: rest =>
      match pieces rest with
      | [] => [[c]]
      | piece :: more => (c :: piece) :: more

/-- Whether a part leads anywhere. -/
def isPart (part : String) : Bool := !part.isEmpty && part != "."

def rootOf (cs : List Char) : String :=
  match cs with
  | ['/', '/'] => "//"
  | '/' :: '/' :: c :: _ => if c = '/' then "/" else "//"
  | '/' :: _ => "/"
  | _ => ""

def ofString (text : String) : Path :=
  let cs := text.toList
  ⟨rootOf cs, ((pieces cs).map String.ofList).filter isPart⟩

def text (path : Path) : String :=
  if path.root.isEmpty && path.parts.isEmpty then "."
  else path.root ++ "/".intercalate path.parts

/-- The path below a home directory, without the slashes at its end. -/
def ofHome (home : String) : Path :=
  let cs := (home.toList.reverse.dropWhile (· = '/')).reverse
  ofString (if cs.isEmpty then "/" else String.ofList cs)

/-- Replace a tilde and the name behind it by the directory that they stand for. Fails on a home that
is not known. -/
def expandHome? (homes : Homes) (path : Path) : Option Path :=
  match path.root.isEmpty, path.parts with
  | true, first :: rest =>
      match first.toList with
      | '~' :: user =>
          match homes.of? (String.ofList user) with
          | some directory =>
              -- Such a home would have to be replaced itself: it counts as not known.
              if "~".toList.isPrefixOf directory.toList then none
              else
                let base := ofHome directory
                some ⟨base.root, base.parts ++ rest⟩
          | none => none
      | _ => some path
  | _, _ => some path

end Path

end MiniLisp
