import Mathlib.Data.List.Basic

/-!
# Classic BPF

The part of the machine that filters of system calls use: load a word of the data into the
accumulator, compare the accumulator with a constant, return a constant.  A jump names how many of
the following instructions it skips.
-/

namespace OnceBuild.Lib.Bpf

open List

/-- `struct sock_filter`. -/
structure Instruction where
  code : UInt16
  jt : UInt8
  jf : UInt8
  k : UInt32
  deriving DecidableEq

def ldWAbs : UInt16 := 0x20

def jeqK : UInt16 := 0x15

def jsetK : UInt16 := 0x45

def retK : UInt16 := 0x06

def stmt (code : UInt16) (k : UInt32) : Instruction := ⟨code, 0, 0, k⟩

def jump (code : UInt16) (k : UInt32) (jt jf : UInt8) : Instruction := ⟨code, jt, jf, k⟩

variable {load : UInt32 → Option UInt32} {a k : UInt32} {jt jf : UInt8} {rest : List Instruction}

/-- Skip some of the instructions that are left and run on with the accumulator `a`.  `none`: the
run left the program, read outside the data, or met an instruction of another kind. -/
def exec (load : UInt32 → Option UInt32) (a : UInt32) : Nat → List Instruction → Option UInt32
  | _, [] => none
  | skip + 1, _ :: rest => exec load a skip rest
  | 0, i :: rest =>
    if i.code = ldWAbs then
      match load i.k with
      | some word => exec load word 0 rest
      | none => none
    else if i.code = jeqK then exec load a (if a = i.k then i.jt else i.jf).toNat rest
    else if i.code = jsetK then exec load a (if a &&& i.k ≠ 0 then i.jt else i.jf).toNat rest
    else if i.code = retK then some i.k
    else none

lemma exec_skip (skip : Nat) (i : Instruction) :
    exec load a (skip + 1) (i :: rest) = exec load a skip rest := by
  simp only [exec]

lemma exec_ldWAbs {word : UInt32} (h : load k = some word) :
    exec load a 0 (stmt ldWAbs k :: rest) = exec load word 0 rest := by
  simp [exec, stmt, h]

lemma exec_jeqK : exec load a 0 (jump jeqK k jt jf :: rest) =
      exec load a (if a = k then jt else jf).toNat rest := rfl

lemma exec_jsetK : exec load a 0 (jump jsetK k jt jf :: rest) =
      exec load a (if a &&& k ≠ 0 then jt else jf).toNat rest := rfl

lemma exec_retK : exec load a 0 (stmt retK k :: rest) = some k := rfl

/-- `if a == k { return value }`. -/
def returnIf (k value : UInt32) : List Instruction := [jump jeqK k 0 1, stmt retK value]

/-- A list of such checks answers for the constants that it names and falls through otherwise. -/
lemma exec_returnIf (value : UInt32) (constants : List UInt32) :
    exec load a 0 (constants.flatMap (returnIf · value) ++ rest) =
      if a ∈ constants then some value else exec load a 0 rest := by
  induction constants with
  | nil => simp
  | cons constant constants ih =>
    rw [flatMap_cons, append_assoc, returnIf, cons_append, cons_append, nil_append, exec_jeqK]
    by_cases hconstant : a = constant
    · rw [if_pos hconstant, if_pos (by simp [hconstant])]
      exact exec_retK
    · -- the jump skips the return
      rw [if_neg hconstant, show (1 : UInt8).toNat = 0 + 1 from rfl, exec_skip, ih]
      simp [hconstant]

end OnceBuild.Lib.Bpf
