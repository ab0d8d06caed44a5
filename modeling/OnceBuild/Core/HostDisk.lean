import OnceBuild.Cas.Blob
import OnceBuild.Core.Action
import OnceBuild.Lib.BytePath
import OnceBuild.Lib.Utf8

/-!
# The disk that actions work on

Names and texts of links are bytes.  Directories have a mode, files a mode and a content.
-/

namespace OnceBuild.Core

open Lib
open Cas (Bytes)

structure FileData where
  mode : Nat
  content : Bytes
  deriving DecidableEq

abbrev Place := List OsPath
abbrev Disk := Lib.Disk OsPath Nat FileData OsPath
abbrev Node := Lib.DiskNode Nat FileData OsPath
abbrev Io := Fallible Disk Errno

def names (p : WorkspacePath) : Place := p.1.map Lib.utf8Encode

/-- `WorkspacePath::resolve`. -/
def resolve (p : WorkspacePath) (root : Place) : Place := root ++ names p

end OnceBuild.Core
