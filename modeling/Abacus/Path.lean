import Abacus.Fault

/-!
# Paths

A path names what stands in a tree of directories: from the root if it begins with a slash, else
from the directory that is worked in.  Two slashes in front are kept apart from one, and names that
say nothing are left out.

* `Path`            the slashes in front and the names;
* `Path.ofText`     the path that a text writes;
* `Path.text`       the text of a path, without names that say nothing;
* `Entity`          what stands at a path;
* `Path.reach`      what stands at the end of a path, found name by name.
-/

namespace Abacus

/-- the slashes in front, none for a path from the directory that is worked in, and the names -/
structure Path where
  slashes : Nat
  names : List String
  deriving DecidableEq, Repr

/-! ## Texts -/

def piecesOf (divider : Char) : List Char → List (List Char)
  | [] => [[]]
  | c :: cs =>
    match piecesOf divider cs with
    | [] => [[c]]
    | piece :: rest => if c = divider then [] :: piece :: rest else (c :: piece) :: rest

/-- the slashes that a path keeps of those in front: more than two count as one -/
def keptSlashes (count : Nat) : Nat := if count ≤ 2 then count else 1

namespace Path

def ofText (text : String) : Path where
  slashes := keptSlashes (text.toList.takeWhile (· == '/')).length
  names := ((piecesOf '/' text.toList).map String.ofList).filter fun n => n != "" && n != "."

def text (p : Path) : String :=
  if p.slashes = 0 && p.names.isEmpty then "."
  else String.ofList (List.replicate p.slashes '/') ++ "/".intercalate p.names

/-- the paths on the way to a path, from its beginning to the path itself -/
def stages (p : Path) : List Path :=
  (List.range (p.names.length + 1)).map fun k => ⟨p.slashes, p.names.take k⟩

end Path

/-! ## What stands there -/

inductive Entity where
  | file (content : String)
  | directory
  deriving DecidableEq, Repr

def longestName : Nat := 255

def longestPath : Nat := 4095

namespace Path

/-- what stands at the end of the names that go on from a path; only a directory has names in it,
and it refuses one that is too long for the name of a file -/
def reachFrom (look : Path → Option Entity) (whole here : Path) :
    List String → Except Fault (Option Entity)
  | [] => .ok (look here)
  | name :: rest =>
    match look here with
    | some .directory =>
      if longestName < name.utf8ByteSize then .error (.nameTooLong whole.text)
      else reachFrom look whole ⟨here.slashes, here.names ++ [name]⟩ rest
    | _ => .ok none

/-- **What stands at the end of a path**, where `look` says what stands at a path that leads through
directories.  A path that is too long as a whole is refused before its names are followed. -/
def reach (look : Path → Option Entity) (p : Path) : Except Fault (Option Entity) :=
  if longestPath < p.text.utf8ByteSize then .error (.nameTooLong p.text)
  else reachFrom look p ⟨p.slashes, []⟩ p.names

end Path

end Abacus
