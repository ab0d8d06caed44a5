import OnceBuild.Lib.Bpf

/-!
# The filter that denies network access

Model of `deny_network`: the filter is built from a table of system call numbers.  A foreign calling
convention kills the process, sockets other than Unix ones and the denied calls fail with an access
error, and the unavailable calls fail as if the kernel did not have them.
-/

namespace OnceBuild.Network

open Lib.Bpf List

def retAllow : UInt32 := 0x7fff0000

def retErrno : UInt32 := 0x00050000

def retKillProcess : UInt32 := 0x80000000

def eacces : UInt32 := 13

def enosys : UInt32 := 38

def afUnix : UInt32 := 1

def nrOffset : UInt32 := 0

def archOffset : UInt32 := 4

def arg0LowOffset : UInt32 := 16

/-- The system call numbers and audit identifier of one architecture. -/
structure Abi where
  arch : UInt32
  alternateAbiBit : Option UInt32
  socket : UInt32
  socketpair : UInt32
  denied : List UInt32
  unavailable : List UInt32

def checkNumbers (abi : Abi) : List Instruction :=
  abi.denied.flatMap (returnIf · (retErrno ||| eacces)) ++
    (abi.unavailable.flatMap (returnIf · (retErrno ||| enosys)) ++ [stmt retK retAllow])

def checkSockets (abi : Abi) : List Instruction :=
  [jump jeqK abi.socket 1 0, jump jeqK abi.socketpair 0 4, stmt ldWAbs arg0LowOffset,
    jump jeqK afUnix 0 1, stmt retK retAllow, stmt retK (retErrno ||| eacces)]

def checkAlternateAbi : Option UInt32 → List Instruction
  | some bit => [jump jsetK bit 0 1, stmt retK retKillProcess]
  | none => []

def denyNetwork (abi : Abi) : List Instruction :=
  [stmt ldWAbs archOffset, jump jeqK abi.arch 1 0, stmt retK retKillProcess,
    stmt ldWAbs nrOffset] ++
    (checkAlternateAbi abi.alternateAbiBit ++ (checkSockets abi ++ checkNumbers abi))

/-- `struct seccomp_data`. -/
structure SeccompData where
  nr : UInt32
  arch : UInt32
  instructionPointer : UInt64
  args : Fin 6 → UInt64

def low (word : UInt64) : UInt32 := word.toUInt32

def high (word : UInt64) : UInt32 := (word >>> 32).toUInt32

/-- The record as the words that a filter can load, on a little-endian machine. -/
def SeccompData.words (data : SeccompData) : List UInt32 :=
  [data.nr, data.arch, low data.instructionPointer, high data.instructionPointer] ++
    (finRange 6).flatMap fun i => [low (data.args i), high (data.args i)]

/-- The kernel only accepts filters that load at multiples of four. -/
def SeccompData.load (data : SeccompData) (offset : UInt32) : Option UInt32 :=
  if offset.toNat % 4 = 0 then data.words[offset.toNat / 4]? else none

/-- What the filter decides about a call. -/
def run (program : List Instruction) (data : SeccompData) : Option UInt32 :=
  exec data.load 0 0 program

variable {abi : Abi} {data : SeccompData} {a : UInt32} {rest : List Instruction}

lemma exec_checkSockets : exec data.load a 0 (checkSockets abi ++ rest) =
      if a = abi.socket ∨ a = abi.socketpair then
        if low (data.args 0) = afUnix then some retAllow else some (retErrno ||| eacces)
      else exec data.load a 0 rest := by
  have hload : data.load arg0LowOffset = some (low (data.args 0)) := rfl
  -- both numbers lead to the load of the address family
  have hfamily : exec data.load a 0 ((checkSockets abi).drop 2 ++ rest) =
      if low (data.args 0) = afUnix then some retAllow else some (retErrno ||| eacces) := by
    change exec data.load a 0 (stmt ldWAbs arg0LowOffset :: jump jeqK afUnix 0 1 ::
      stmt retK retAllow :: stmt retK (retErrno ||| eacces) :: rest) = _
    rw [exec_ldWAbs hload, exec_jeqK]
    split
    · exact exec_retK
    · exact exec_retK
  change exec data.load a 0 (jump jeqK abi.socket 1 0 :: jump jeqK abi.socketpair 0 4 ::
    ((checkSockets abi).drop 2 ++ rest)) = _
  rw [exec_jeqK]
  by_cases hsocket : a = abi.socket
  · rw [if_pos hsocket, if_pos (Or.inl hsocket), show (1 : UInt8).toNat = 0 + 1 from rfl, exec_skip,
      hfamily]
  · rw [if_neg hsocket, show (0 : UInt8).toNat = 0 from rfl, exec_jeqK]
    by_cases hpair : a = abi.socketpair
    · rw [if_pos hpair, if_pos (Or.inr hpair)]
      exact hfamily
    · rw [if_neg hpair, if_neg (not_or.mpr ⟨hsocket, hpair⟩)]
      rfl

/-- Whether a call came through the alternate calling convention. -/
def Abi.alternate (abi : Abi) (nr : UInt32) : Bool :=
  abi.alternateAbiBit.any fun bit => nr &&& bit ≠ 0

lemma exec_checkAlternateAbi :
    exec data.load a 0 (checkAlternateAbi abi.alternateAbiBit ++ rest) =
      if abi.alternate a then some retKillProcess else exec data.load a 0 rest := by
  unfold Abi.alternate
  cases abi.alternateAbiBit with
  | none => rfl
  | some bit =>
    rw [checkAlternateAbi, cons_append, exec_jsetK, Option.any_some]
    by_cases hset : a &&& bit ≠ 0
    · rw [if_pos hset, if_pos (decide_eq_true hset)]
      exact exec_retK
    · rw [if_neg hset, if_neg (by simpa using hset)]
      rfl

lemma run_denyNetwork : run (denyNetwork abi) data = if data.arch = abi.arch then
        if abi.alternate data.nr then some retKillProcess
        else if data.nr = abi.socket ∨ data.nr = abi.socketpair then
          if low (data.args 0) = afUnix then some retAllow else some (retErrno ||| eacces)
        else if data.nr ∈ abi.denied then some (retErrno ||| eacces)
        else if data.nr ∈ abi.unavailable then some (retErrno ||| enosys)
        else some retAllow
      else some retKillProcess := by
  have harch : data.load archOffset = some data.arch := rfl
  have hnr : data.load nrOffset = some data.nr := rfl
  change exec data.load 0 0 (stmt ldWAbs archOffset :: jump jeqK abi.arch 1 0 ::
    stmt retK retKillProcess :: stmt ldWAbs nrOffset ::
    (checkAlternateAbi abi.alternateAbiBit ++ (checkSockets abi ++ checkNumbers abi))) = _
  rw [exec_ldWAbs harch, exec_jeqK]
  split
  · rw [show (1 : UInt8).toNat = 0 + 1 from rfl, exec_skip, exec_ldWAbs hnr, exec_checkAlternateAbi,
      exec_checkSockets, checkNumbers, exec_returnIf, exec_returnIf, exec_retK]
  · exact exec_retK

/-- The filter decides every call, without a jump past its end, and decides it as the table says. -/
theorem denyNetwork_exact (abi : Abi)
    (hdistinct : (abi.socket :: abi.socketpair :: (abi.denied ++ abi.unavailable)).Nodup)
    (data : SeccompData) :
    (data.arch ≠ abi.arch ∨ abi.alternate data.nr = true →
      run (denyNetwork abi) data = some retKillProcess) ∧
    (data.arch = abi.arch → abi.alternate data.nr = false →
      (data.nr = abi.socket ∨ data.nr = abi.socketpair → run (denyNetwork abi) data =
          if low (data.args 0) = afUnix then some retAllow else some (retErrno ||| eacces)) ∧
      (data.nr ∈ abi.denied → run (denyNetwork abi) data = some (retErrno ||| eacces)) ∧
      (data.nr ∈ abi.unavailable → run (denyNetwork abi) data = some (retErrno ||| enosys)) ∧
      (data.nr ∉ abi.socket :: abi.socketpair :: (abi.denied ++ abi.unavailable) →
        run (denyNetwork abi) data = some retAllow)) := by
  rw [nodup_cons, nodup_cons, nodup_append] at hdistinct
  obtain ⟨hsocket, hpair, _, _, hdisjoint⟩ := hdistinct
  rw [run_denyNetwork]
  refine ⟨?_, ?_⟩
  · intro hforeign
    by_cases harch : data.arch = abi.arch
    · rw [if_pos harch, if_pos (hforeign.resolve_left (not_not.mpr harch))]
    · exact if_neg harch
  · intro harch halternate
    rw [if_pos harch, if_neg (Bool.not_eq_true _ ▸ halternate)]
    -- a denied or unavailable number is not that of a socket call
    have hother : data.nr ∈ abi.denied ++ abi.unavailable →
        ¬ (data.nr = abi.socket ∨ data.nr = abi.socketpair) := by
      rintro hlisted (hnr | hnr)
      · exact hsocket (mem_cons_of_mem _ (hnr ▸ hlisted))
      · exact hpair (hnr ▸ hlisted)
    refine ⟨?_, ?_, ?_, ?_⟩
    · intro hsockets
      exact if_pos hsockets
    · intro hdenied
      rw [if_neg (hother (mem_append_left _ hdenied)), if_pos hdenied]
    · intro hunavailable
      have hdenied : data.nr ∉ abi.denied := fun h => hdisjoint _ h _ hunavailable rfl
      rw [if_neg (hother (mem_append_right _ hunavailable)), if_neg hdenied, if_pos hunavailable]
    · intro hnone
      simp only [mem_cons, mem_append, not_or] at hnone
      rw [if_neg (not_or.mpr ⟨hnone.1, hnone.2.1⟩), if_neg hnone.2.2.1, if_neg hnone.2.2.2]

/-- The table of `x86_64`. -/
def x8664 : Abi where
  arch := 0xc000003e
  alternateAbiBit := some 0x40000000
  socket := 41
  socketpair := 53
  denied := [47, 307, 299, 438]
  unavailable := [425, 426, 427]

theorem denyNetwork_exact_recvmsg :
    run (denyNetwork x8664) ⟨47, 0xc000003e, 0, fun _ => 0⟩ = some (retErrno ||| eacces) :=
  ((denyNetwork_exact x8664 (by decide) _).2 rfl (by decide)).2.1 (by decide)

end OnceBuild.Network
