import Mathlib.Data.Int.Notation

/-!
# Machine words

Bounds of the fixed-width integers, and the operations that stop at them.
-/

namespace OnceBuild.Lib

/-- `u64::MAX`. -/
def u64Max : Nat := 18446744073709551615

/-- `i64::MAX`. -/
def i64Max : Nat := 9223372036854775807

def saturatingAdd (a b : Nat) : Nat := min (a + b) u64Max

def saturatingMul (a b : Nat) : Nat := min (a * b) u64Max

/-- The values of an `i64`. -/
def IsI64 (n : Int) : Prop := -i64Max - 1 ≤ n ∧ n ≤ i64Max

lemma isI64_of_le {n : Nat} (h : n ≤ i64Max) : IsI64 n := by
  unfold IsI64
  omega

lemma isI64_one : IsI64 (1 : Nat) := isI64_of_le (by decide)

end OnceBuild.Lib
