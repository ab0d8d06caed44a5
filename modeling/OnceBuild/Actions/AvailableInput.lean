import OnceBuild.Cas.Digest

/-!
# Outputs that a later action can take as input
-/

namespace OnceBuild.Actions

/-- A slash-separated path relative to the workspace root, by its components. -/
abbrev Path := List Lib.Text

/-- An output recorded by an earlier action: the blob that holds it, whether an action of the same
target produced it, and whether it is on disk. -/
structure AvailableInput where
  blobDigest : Cas.Digest
  sameTarget : Bool
  materialized : Bool
  deriving DecidableEq

/-- `BTreeMap<String, AvailableInput>`. -/
abbrev AvailableInputs := Path → Option AvailableInput

end OnceBuild.Actions
