import Mathlib.Algebra.Order.Ring.Int
import OnceBuild.Core.Action

/-!
# Commands as JSON

What the derived serializer of a command writes and the derived deserializer reads, field by field
in the order of the source.  Fields that hold their default are left out.
-/

namespace OnceBuild.Core

open Lib FieldCodec ResourceRequest Codec
open Cas (Digest)
open Actions (PreparePathMode)

/-! ## Numbers and texts -/

def uint8 : Codec UInt8 :=
  .ranged 0 (2 ^ 8) (fun n => n.toNat) (fun i => .ofNat i.toNat)
    (fun n => by have := n.toNat_lt; omega) fun _ => UInt8.ofNat_toNat

def uint32 : Codec UInt32 :=
  .ranged 0 (2 ^ 32) (fun n => n.toNat) (fun i => .ofNat i.toNat)
    (fun n => by have := n.toNat_lt; omega) fun _ => UInt32.ofNat_toNat

def uint64 : Codec UInt64 :=
  .ranged 0 (2 ^ 64) (fun n => n.toNat) (fun i => .ofNat i.toNat)
    (fun n => by have := n.toNat_lt; omega) fun _ => UInt64.ofNat_toNat

def int32 : Codec Int32 :=
  .ranged (-2 ^ 31) (2 ^ 31) Int32.toInt Int32.ofInt (fun n => ⟨n.le_toInt, n.toInt_lt⟩)
    Int32.ofInt_toInt

def workspacePath : Codec WorkspacePath :=
  text.via WorkspacePath.asStr (fun raw => (WorkspacePath.tryFrom raw).toOption)
    fun p => congrArg Except.toOption p.tryFrom_asStr

def digest : Codec Digest := text.via Digest.hex Digest.fromHex Digest.fromHex_hex

/-! ## Fields that are left out -/

lemma uint64_ne_null (n : UInt64) : uint64.write n ≠ .null := nofun

def optionalText : FieldCodec (Option Text) := .optional .text nofun
def optionalPath : FieldCodec (Option WorkspacePath) := .optional workspacePath nofun
def optionalDigest : FieldCodec (Option Digest) := .optional digest nofun

/-- `skip_serializing_if = "Vec::is_empty"`. -/
def unlessEmpty {α : Type} (c : Codec α) : FieldCodec (List α) :=
  .skipped List.isEmpty [] (.list c) fun _ => List.isEmpty_iff.mp

/-- `skip_serializing_if = "BTreeMap::is_empty"`. -/
def unlessEmptyMap {α : Type} (c : Codec α) : FieldCodec (SortedMap Text α) :=
  .skipped SortedMap.isEmpty .empty (.map c) fun _ => SortedMap.eq_empty

/-! ## Settings -/

def OutputSymlinkMode.name : OutputSymlinkMode → Text
  | .preserve => "preserve".toList
  | .materializeExternal => "materialize-external".toList

def outputSymlinkMode : Codec OutputSymlinkMode :=
  .enumeration [.preserve, .materializeExternal] OutputSymlinkMode.name
    fun mode => by cases mode <;> decide

def SandboxMode.name : SandboxMode → Text
  | .off => "off".toList
  | .inputs => "inputs".toList
  | .copiedInputs => "copied-inputs".toList

def sandboxMode : Codec SandboxMode :=
  .enumeration [.off, .inputs, .copiedInputs] SandboxMode.name
    fun mode => by cases mode <;> decide

def NetworkPolicy.name : NetworkPolicy → Text
  | .unrestricted => "unrestricted".toList
  | .deny => "deny".toList

def networkPolicy : Codec NetworkPolicy :=
  .enumeration [.unrestricted, .deny] NetworkPolicy.name
    fun policy => by cases policy <;> decide

namespace ResourceRequest

def pieces (r : ResourceRequest) : List (Text × Option Json) :=
  [("cpu_slots".toList, (required uint64).write r.cpuSlots),
    ("memory_bytes".toList, (required uint64).write r.memoryBytes),
    ("slots".toList, (unlessEmptyMap uint64).write r.slots)]

def readFields (fields : List (Text × Json)) : Option ResourceRequest := do
  let cpuSlots ← (required uint64).readIn fields "cpu_slots".toList
  let memoryBytes ← (required uint64).readIn fields "memory_bytes".toList
  let slots ← (unlessEmptyMap uint64).readIn fields "slots".toList
  some { cpuSlots, memoryBytes, slots }

def codec : Codec ResourceRequest := .record pieces readFields fun r => by simp [readFields, pieces]

lemma eq_default (r : ResourceRequest) (h : r.isDefault = true) : r = default := by
  unfold isDefault at h
  simp only [Bool.and_eq_true, decide_eq_true_eq] at h
  obtain ⟨⟨hcpu, hmemory⟩, hslots⟩ := h
  cases r
  simp only at hcpu hmemory hslots
  rw [hcpu, hmemory, SortedMap.eq_empty hslots]
  rfl

end ResourceRequest

namespace RemoteExecution

def pieces (r : RemoteExecution) : List (Text × Option Json) :=
  [("provider".toList, (required text).write r.provider),
    ("executor".toList, optionalText.write r.executor),
    ("environment".toList, optionalText.write r.environment),
    ("account".toList, optionalText.write r.account),
    ("project".toList, optionalText.write r.project),
    ("properties".toList, (unlessEmptyMap value).write r.properties)]

def readFields (fields : List (Text × Json)) : Option RemoteExecution := do
  let provider ← (required text).readIn fields "provider".toList
  let executor ← optionalText.readIn fields "executor".toList
  let environment ← optionalText.readIn fields "environment".toList
  let account ← optionalText.readIn fields "account".toList
  let project ← optionalText.readIn fields "project".toList
  let properties ← (unlessEmptyMap value).readIn fields "properties".toList
  some { provider, executor, environment, account, project, properties }

def codec : Codec RemoteExecution := .record pieces readFields fun r => by simp [readFields, pieces]

end RemoteExecution

lemma remote_ne_null (r : RemoteExecution) : RemoteExecution.codec.write r ≠ .null := nofun

/-! ## Commands -/

def outputSymlinkModeField : FieldCodec OutputSymlinkMode :=
  .skipped OutputSymlinkMode.isDefault .materializeExternal outputSymlinkMode
    fun _ => of_decide_eq_true

def resourcesField : FieldCodec ResourceRequest := .skipped isDefault .default codec eq_default

def sandboxField : FieldCodec SandboxMode :=
  .skipped SandboxMode.isDefault .off sandboxMode fun _ => of_decide_eq_true

def networkField : FieldCodec NetworkPolicy :=
  .skipped NetworkPolicy.isDefault .unrestricted networkPolicy fun _ => of_decide_eq_true

def successExitCodesField : FieldCodec (List Int32) :=
  .skipped isDefaultSuccessExitCodes defaultSuccessExitCodes (.list int32)
    fun _ => of_decide_eq_true

namespace RunCommand

def pieces (c : RunCommand) : List (Text × Option Json) :=
  [("argv".toList, (required (.list .text)).write c.argv),
    ("env".toList, (unlessEmptyMap text).write c.env), ("cwd".toList, optionalPath.write c.cwd),
    ("input_digest".toList, optionalDigest.write c.inputDigest),
    ("inputs".toList, (unlessEmpty workspacePath).write c.inputs),
    ("outputs".toList, (unlessEmpty workspacePath).write c.outputs),
    ("stdout_path".toList, optionalPath.write c.stdoutPath),
    ("stderr_path".toList, optionalPath.write c.stderrPath),
    ("output_symlink_mode".toList, outputSymlinkModeField.write c.outputSymlinkMode),
    ("resources".toList, resourcesField.write c.resources),
    ("sandbox".toList, sandboxField.write c.sandbox),
    ("network".toList, networkField.write c.network),
    ("timeout_ms".toList, (optional uint64 uint64_ne_null).write c.timeoutMs),
    ("success_exit_codes".toList, successExitCodesField.write c.successExitCodes),
    ("remote".toList, (optional RemoteExecution.codec remote_ne_null).write c.remote)]

def readFields (fields : List (Text × Json)) : Option RunCommand := do
  let argv ← (required (.list .text)).readIn fields "argv".toList
  let env ← (unlessEmptyMap text).readIn fields "env".toList
  let cwd ← optionalPath.readIn fields "cwd".toList
  let inputDigest ← optionalDigest.readIn fields "input_digest".toList
  let inputs ← (unlessEmpty workspacePath).readIn fields "inputs".toList
  let outputs ← (unlessEmpty workspacePath).readIn fields "outputs".toList
  let stdoutPath ← optionalPath.readIn fields "stdout_path".toList
  let stderrPath ← optionalPath.readIn fields "stderr_path".toList
  let outputSymlinkMode ← outputSymlinkModeField.readIn fields "output_symlink_mode".toList
  let resources ← resourcesField.readIn fields "resources".toList
  let sandbox ← sandboxField.readIn fields "sandbox".toList
  let network ← networkField.readIn fields "network".toList
  let timeoutMs ← (optional uint64 uint64_ne_null).readIn fields "timeout_ms".toList
  let successExitCodes ← successExitCodesField.readIn fields "success_exit_codes".toList
  let remote ← (optional RemoteExecution.codec remote_ne_null).readIn fields "remote".toList
  some ⟨argv, env, cwd, inputDigest, inputs, outputs, stdoutPath,
    stderrPath, outputSymlinkMode, resources, sandbox, network, timeoutMs, successExitCodes, remote⟩

@[simp] lemma readFields_written (c : RunCommand) : readFields (written c.pieces) = some c := by
  simp [readFields, pieces]

end RunCommand

end OnceBuild.Core
