import Mathlib.Data.List.SplitOn
import OnceBuild.Lib.Disk

/-!
# Paths as bytes

The system reads a path as its parts between slashes; empty parts and single dots stay where they
are.  `components` is what a program sees of it: a dot counts only at the beginning of the path.
-/

namespace OnceBuild.Lib

abbrev OsPath := List UInt8

def slash : UInt8 := 47
def dot : UInt8 := 46

def isAbsolute (path : OsPath) : Bool := path.head? = some slash

/-- `std::path::Component`. -/
inductive Component where
  | rootDir
  | curDir
  | parentDir
  | normal (name : OsPath)
  deriving DecidableEq

/-- What a part of a path names; nothing for an empty part and for a dot. -/
def Component.ofPart (part : OsPath) : Option Component :=
  if part = [] ∨ part = [dot] then none
  else if part = [dot, dot] then some .parentDir
  else some (.normal part)

/-- What a path begins with: the root, a dot of its own, or neither. -/
def leading (path : OsPath) : List Component :=
  if isAbsolute path then [.rootDir]
  else if (path.splitOn slash).head? = some [dot] then [.curDir]
  else []

/-- `Path::components`. -/
def components (path : OsPath) : List Component :=
  leading path ++ (path.splitOn slash).filterMap Component.ofPart

def Component.name? : Component → Option OsPath
  | .normal name => some name
  | _ => none

/-- The names among the components, which say where a path without `..` leads. -/
def namesOf (parts : List Component) : List OsPath := parts.filterMap Component.name?

def stepOf (part : OsPath) : PathStep OsPath :=
  if part = [] ∨ part = [dot] then .cur
  else if part = [dot, dot] then .parent
  else .name part

instance : LinkText OsPath OsPath where
  target text := { absolute := isAbsolute text, steps := (text.splitOn slash).map stepOf }

/-- The order of names, byte by byte. -/
def bytesLe : OsPath → OsPath → Bool
  | [], _ => true
  | _ :: _, [] => false
  | a :: s, b :: t => a < b || (a == b && bytesLe s t)

def absoluteText (names : List OsPath) : OsPath := names.flatMap (slash :: ·)

end OnceBuild.Lib
