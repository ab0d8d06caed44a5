import OnceBuild.Analysis.Expansion

/-!
# The workspace on disk
-/

namespace OnceBuild.Analysis

open Lib

/-- A file's size in bytes, and its text when it is UTF-8. -/
structure FileContent where
  size : Nat
  text : Option Text
  deriving DecidableEq

/-- A workspace: its entries, and the content of its regular files. -/
structure Disk where
  tree : Tree
  content : List Text → FileContent

def Disk.view (d : Disk) (p : RelPath) : Option Node × FileContent :=
  (d.tree.node p.1, d.content p.1)

end OnceBuild.Analysis
