import Mathlib.Algebra.GroupWithZero.Nat
import Mathlib.Data.Char
import Mathlib.Data.List.Lex
import OnceBuild.Lib.Assoc
import OnceBuild.Lib.PathText
import OnceBuild.Lib.Words

/-!
# What an action asks for

`ResourceLimits` is the budget of a pool and `ResourceRequest` what one action reserves.  A request
is either an estimate, which `boundedBy` clamps to the pool, or a minimum, which `requiredWithin`
rejects when the pool can never provide it.
-/

namespace OnceBuild.Resources

open Lib

def defaultActionMemoryBytes : Nat := 250 * 1024 * 1024

/-- `BTreeMap<String, usize>`. -/
structure SlotMap where
  entries : List (Text × Nat)
  sorted : entries.Pairwise fun a b => a.1 < b.1

namespace SlotMap

def empty : SlotMap := ⟨[], List.Pairwise.nil⟩

def get (m : SlotMap) (name : Text) : Option Nat := m.entries.lookup name

/-- `for (name, count) in &mut slots`. -/
def mapCounts (m : SlotMap) (f : Text → Nat → Nat) : SlotMap where
  entries := m.entries.map fun entry => (entry.1, f entry.1 entry.2)
  sorted := List.pairwise_map.mpr m.sorted

lemma nodup (m : SlotMap) : (m.entries.map Prod.fst).Nodup :=
  List.pairwise_map.mpr (m.sorted.imp fun hlt => ne_of_lt hlt)

end SlotMap

/-- The budget every action is admitted against. -/
structure ResourceLimits where
  cpuSlots : Nat
  /-- Zero disables the memory axis. -/
  memoryBytes : Nat
  defaultActionMemoryBytes : Nat
  slotLimits : SlotMap
  memory_u64 : memoryBytes ≤ u64Max

namespace ResourceLimits

def slotLimit (limits : ResourceLimits) (name : Text) (defaultValue : Nat) : Nat :=
  (limits.slotLimits.get name).getD defaultValue

/-- Unpublished slots have a pool of one. -/
def slotCapacity (limits : ResourceLimits) (name : Text) : Nat := max (limits.slotLimit name 1) 1

/-- Memory reserved for an action that declares no estimate. -/
def undeclaredMemoryBytes (limits : ResourceLimits) : Nat :=
  let configured := if limits.defaultActionMemoryBytes = 0 then Resources.defaultActionMemoryBytes
    else limits.defaultActionMemoryBytes
  if limits.memoryBytes = 0 then configured else min configured limits.memoryBytes

/-- The budget that `ResourcePool::new` keeps. -/
def forPool (limits : ResourceLimits) : ResourceLimits :=
  { limits with cpuSlots := max limits.cpuSlots 1 }

end ResourceLimits

/-- What one action reserves before it is allowed to start. -/
structure ResourceRequest where
  cpuSlots : Nat
  memoryBytes : Nat
  slots : SlotMap

/-- `Error::ResourceRequirementUnsatisfied`. -/
structure ResourceRequirementUnsatisfied where
  resource : Text
  requested : Nat
  capacity : Nat
  deriving DecidableEq

/-- `Ord::clamp`. -/
def clamp (lower upper value : Nat) : Nat :=
  if value < lower then lower else if upper < value then upper else value

namespace ResourceRequest

def estimatedMemory (request : ResourceRequest) (limits : ResourceLimits) : Nat :=
  if request.memoryBytes = 0 then limits.undeclaredMemoryBytes else request.memoryBytes

/-- The request as an estimate: oversized dimensions are clamped to the pool. -/
def boundedBy (request : ResourceRequest) (limits : ResourceLimits) : ResourceRequest where
  cpuSlots := clamp 1 limits.cpuSlots request.cpuSlots
  memoryBytes :=
    if limits.memoryBytes = 0 then request.estimatedMemory limits
    else min (request.estimatedMemory limits) limits.memoryBytes
  slots := request.slots.mapCounts fun name requested =>
    clamp 1 (limits.slotCapacity name) requested

/-- The request as a minimum: a dimension the pool can never provide is an error. -/
def requiredWithin (request : ResourceRequest) (limits : ResourceLimits) :
    Except ResourceRequirementUnsatisfied ResourceRequest :=
  let cpuSlots := max request.cpuSlots 1
  let memoryBytes := request.estimatedMemory limits
  if limits.cpuSlots < cpuSlots then
    .error ⟨"cpu slots".toList, cpuSlots, limits.cpuSlots⟩
  else if limits.memoryBytes ≠ 0 ∧ limits.memoryBytes < memoryBytes then
    .error ⟨"memory bytes".toList, memoryBytes, limits.memoryBytes⟩
  else
    match request.slots.entries.find? fun entry =>
      decide (limits.slotCapacity entry.1 < entry.2) with
    | some (name, requested) =>
      .error ⟨"slot `".toList ++ name ++ "`".toList, requested, limits.slotCapacity name⟩
    | none => .ok ⟨cpuSlots, memoryBytes, request.slots⟩

/-- The request of `acquire_client`: buffers and host-wide slots, no CPUs. -/
def client (memoryBytes : Nat) (slots : SlotMap) (limits : ResourceLimits) : ResourceRequest :=
  { boundedBy ⟨0, memoryBytes, slots⟩ limits with cpuSlots := 0 }

/-! ## Requests that fit in an empty pool -/

structure Within (request : ResourceRequest) (limits : ResourceLimits) : Prop where
  cpuSlots : request.cpuSlots ≤ limits.cpuSlots
  memoryBytes : limits.memoryBytes ≠ 0 → request.memoryBytes ≤ limits.memoryBytes
  slots : ∀ entry ∈ request.slots.entries, entry.2 ≤ limits.slotCapacity entry.1

lemma clamp_le {lower upper : Nat} (h : lower ≤ upper) (value : Nat) :
    clamp lower upper value ≤ upper := by
  unfold clamp
  split
  · exact h
  · split <;> omega

variable {limits : ResourceLimits}

lemma within_boundedBy (request : ResourceRequest) (hcpu : 1 ≤ limits.cpuSlots) :
    (request.boundedBy limits).Within limits where
  cpuSlots := clamp_le hcpu _
  memoryBytes hlimited := by
    simp only [boundedBy, if_neg hlimited]
    exact Nat.min_le_right _ _
  slots entry hentry := by
    obtain ⟨before, -, rfl⟩ := List.mem_map.mp hentry
    exact clamp_le (Nat.le_max_right _ _) _

lemma within_client (memoryBytes : Nat) (slots : SlotMap) (hcpu : 1 ≤ limits.cpuSlots) :
    (client memoryBytes slots limits).Within limits where
  cpuSlots := Nat.zero_le _
  memoryBytes := (within_boundedBy _ hcpu).memoryBytes
  slots := (within_boundedBy ⟨0, memoryBytes, slots⟩ hcpu).slots

lemma within_of_required {request admitted : ResourceRequest}
    (h : request.requiredWithin limits = .ok admitted) : admitted.Within limits := by
  unfold requiredWithin at h
  dsimp only at h
  split at h
  case isTrue => cases h
  case isFalse hcpu =>
    split at h
    case isTrue => cases h
    case isFalse hmemory =>
      split at h
      case h_1 => cases h
      case h_2 hslots =>
        cases h
        refine ⟨Nat.not_lt.mp hcpu, fun hlimited => ?_, fun entry hentry => ?_⟩
        · exact Nat.not_lt.mp fun hlt => hmemory ⟨hlimited, hlt⟩
        · have := List.find?_eq_none.mp hslots entry hentry
          simpa using this

end ResourceRequest
end OnceBuild.Resources
