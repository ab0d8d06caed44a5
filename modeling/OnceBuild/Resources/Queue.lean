import OnceBuild.Lib.Admission
import OnceBuild.Resources.ResourceRequest

/-!
# The admission queue

`Queue` of the resource pool.  Waiters are considered in arrival order; a waiter that does not fit
reserves what it needs from the capacity that is free.  A slot that has no entry counts as not in
use, so the maps of slots are total functions here, and `Free` looks a slot up when it is asked.
-/

namespace OnceBuild.Resources

open Lib ResourceRequest

/-- Capacity currently granted. -/
structure Usage where
  cpuSlots : Nat
  memoryBytes : Nat
  slots : Text → Nat

namespace Usage

def zero : Usage := ⟨0, 0, fun _ => 0⟩

def add (used : Usage) (request : ResourceRequest) : Usage where
  cpuSlots := used.cpuSlots + request.cpuSlots
  memoryBytes := saturatingAdd used.memoryBytes request.memoryBytes
  slots := adjustAll (· + ·) used.slots request.slots.entries

/-- Every subtraction saturates. -/
def remove (used : Usage) (request : ResourceRequest) : Usage where
  cpuSlots := used.cpuSlots - request.cpuSlots
  memoryBytes := used.memoryBytes - request.memoryBytes
  slots := adjustAll (· - ·) used.slots request.slots.entries

end Usage

structure Waiter where
  id : Nat
  request : ResourceRequest
  granted : Bool
  waker : Option Nat

/-- The waiter after `dispatch` has granted it and taken its waker. -/
def Waiter.grant (waiter : Waiter) : Waiter := { waiter with granted := true, waker := none }

def Waiter.polled (id waker : Nat) (waiter : Waiter) : Waiter :=
  if waiter.id == id then { waiter with waker := some waker } else waiter

@[simp] lemma Waiter.polled_id (id waker : Nat) (waiter : Waiter) :
    (waiter.polled id waker).id = waiter.id := by
  unfold polled
  split <;> rfl

@[simp] lemma Waiter.polled_request (id waker : Nat) (waiter : Waiter) :
    (waiter.polled id waker).request = waiter.request := by
  unfold polled
  split <;> rfl

@[simp] lemma Waiter.polled_granted (id waker : Nat) (waiter : Waiter) :
    (waiter.polled id waker).granted = waiter.granted := by
  unfold polled
  split <;> rfl

structure Queue where
  used : Usage
  waiters : List Waiter
  nextId : Nat

/-! ## Free capacity -/

/-- Capacity not yet granted or reserved during one dispatch pass.  The memory axis has a value only
when it is limited. -/
structure Free (limits : ResourceLimits) where
  cpuSlots : Nat
  memoryBytes : Option Nat
  slots : Text → Nat
  memory_limited : memoryBytes.isSome = true ↔ limits.memoryBytes ≠ 0

namespace Free

variable {limits : ResourceLimits}

def new (limits : ResourceLimits) (used : Usage) : Free limits where
  cpuSlots := limits.cpuSlots - used.cpuSlots
  memoryBytes :=
    if limits.memoryBytes ≠ 0 then some (limits.memoryBytes - used.memoryBytes) else none
  slots := fun name => limits.slotCapacity name - used.slots name
  memory_limited := by
    split
    case isTrue h => simp [h]
    case isFalse h => simp [h]

def fits (free : Free limits) (request : ResourceRequest) : Bool :=
  decide (request.cpuSlots ≤ free.cpuSlots) &&
    (free.memoryBytes.all fun memory => decide (request.memoryBytes ≤ memory)) &&
    request.slots.entries.all fun entry => decide (entry.2 ≤ free.slots entry.1)

def take (free : Free limits) (request : ResourceRequest) : Free limits where
  cpuSlots := free.cpuSlots - request.cpuSlots
  memoryBytes := free.memoryBytes.map fun memory => memory - request.memoryBytes
  slots := adjustAll (· - ·) free.slots request.slots.entries
  memory_limited := by rw [Option.isSome_map]; exact free.memory_limited

end Free

/-! ## Operations -/

/-- The loop of `dispatch`: the waiters after it, the requests it granted and their wakers. -/
def dispatchFrom {limits : ResourceLimits} :
    Free limits → List Waiter → List Waiter × List ResourceRequest × List Nat
  | _, [] => ([], [], [])
  | free, waiter :: waiters =>
    if waiter.granted then
      let rest := dispatchFrom free waiters
      (waiter :: rest.1, rest.2)
    else
      let fits := free.fits waiter.request
      -- either way the share of the request leaves the free capacity
      let rest := dispatchFrom (free.take waiter.request) waiters
      if fits then
        (waiter.grant :: rest.1, waiter.request :: rest.2.1, waiter.waker.toList ++ rest.2.2)
      else (waiter :: rest.1, rest.2)

namespace Queue

def empty : Queue := ⟨Usage.zero, [], 0⟩

variable (queue : Queue)

def enqueue (request : ResourceRequest) : Queue × Nat :=
  ({ queue with
      waiters := queue.waiters ++ [⟨queue.nextId, request, false, none⟩]
      nextId := queue.nextId + 1 }, queue.nextId)

/-- `position`, with the waiter found there. -/
def find (id : Nat) : Option Waiter := queue.waiters.find? fun w => w.id == id

def removeWaiter (id : Nat) : Queue :=
  { queue with waiters := queue.waiters.eraseP fun w => w.id == id }

def setWaker (id waker : Nat) : Queue :=
  { queue with waiters := queue.waiters.map (Waiter.polled id waker) }

/-- Whether the waiter is ready; polling a waiter that left the queue is unreachable. -/
def poll (id waker : Nat) : Option (Queue × Bool) :=
  match queue.find id with
  | none => none
  | some waiter =>
    if waiter.granted then some (queue.removeWaiter id, true)
    else some (queue.setWaker id waker, false)

/-- Abandon a waiter, and tell whether anything changed. -/
def cancel (id : Nat) : Queue × Bool :=
  match queue.find id with
  | none => (queue, false)
  | some waiter =>
    let removed := queue.removeWaiter id
    if waiter.granted then ({ removed with used := removed.used.remove waiter.request }, true)
    else (removed, true)

def release (request : ResourceRequest) : Queue :=
  { queue with used := queue.used.remove request }

/-- Grant every waiter that fits without taking capacity an earlier waiter is waiting for, and
return the wakers to call. -/
def dispatch (limits : ResourceLimits) (queue : Queue) : Queue × List Nat :=
  let pass := dispatchFrom (Free.new limits queue.used) queue.waiters
  ({ queue with waiters := pass.1, used := pass.2.1.foldl Usage.add queue.used }, pass.2.2)

end Queue

/-! ## Waiters that leave -/

variable {queue : Queue} {id : Nat}

lemma Queue.cancel_of_none (h : queue.find id = none) : queue.cancel id = (queue, false) := by
  simp only [cancel, h]

lemma Queue.cancel_of_granted {waiter : Waiter} (h : queue.find id = some waiter)
    (hgranted : waiter.granted = true) :
    queue.cancel id =
      ({ queue.removeWaiter id with used := queue.used.remove waiter.request }, true) := by
  simp only [cancel, h, hgranted, if_true]
  rfl

lemma Queue.cancel_of_waiting {waiter : Waiter} (h : queue.find id = some waiter)
    (hgranted : waiter.granted = false) : queue.cancel id = (queue.removeWaiter id, true) := by
  simp only [cancel, h, hgranted, Bool.false_eq_true, if_false]

/-! ## Axes -/

inductive Axis where
  | cpu
  | memory
  | slot (name : Text)

variable (limits : ResourceLimits)

/-- What the pool can hand out; without a memory limit the axis stays empty. -/
def ResourceLimits.capacity : Axis → Nat
  | .cpu => limits.cpuSlots
  | .memory => limits.memoryBytes
  | .slot name => limits.slotCapacity name

def ResourceRequest.slotCount (request : ResourceRequest) (name : Text) : Nat :=
  (request.slots.get name).getD 0

def ResourceRequest.on (request : ResourceRequest) : Axis → Nat
  | .cpu => request.cpuSlots
  | .memory => if limits.memoryBytes = 0 then 0 else request.memoryBytes
  | .slot name => request.slotCount name

def Usage.on (used : Usage) : Axis → Nat
  | .cpu => used.cpuSlots
  | .memory => if limits.memoryBytes = 0 then 0 else used.memoryBytes
  | .slot name => used.slots name

def Free.level {limits : ResourceLimits} (free : Free limits) : Axis → Nat
  | .cpu => free.cpuSlots
  | .memory => free.memoryBytes.getD 0
  | .slot name => free.slots name

lemma slots_add (g : Text → Nat) (request : ResourceRequest) (name : Text) :
    adjustAll (· + ·) g request.slots.entries name = g name + request.slotCount name := by
  rw [adjustAll_apply request.slots.nodup, slotCount, SlotMap.get]
  cases request.slots.entries.lookup name <;> rfl

lemma slots_sub (g : Text → Nat) (request : ResourceRequest) (name : Text) :
    adjustAll (· - ·) g request.slots.entries name = g name - request.slotCount name := by
  rw [adjustAll_apply request.slots.nodup, slotCount, SlotMap.get]
  cases request.slots.entries.lookup name <;> rfl

lemma slots_le_iff {request : ResourceRequest} {g : Text → Nat} :
    (∀ entry ∈ request.slots.entries, entry.2 ≤ g entry.1) ↔
      ∀ name, request.slotCount name ≤ g name := by
  constructor
  · intro h name
    rw [slotCount, SlotMap.get]
    cases hget : request.slots.entries.lookup name with
    | none => exact Nat.zero_le _
    | some count => exact h _ (mem_of_lookup hget)
  · intro h entry hentry
    have hcount := h entry.1
    rwa [slotCount, SlotMap.get, lookup_of_mem request.slots.nodup hentry]
      at hcount

namespace Free

variable {limits : ResourceLimits}

lemma level_new (used : Usage) (axis : Axis) :
    (Free.new limits used).level axis = limits.capacity axis - used.on limits axis := by
  cases axis with
  | cpu | slot name => rfl
  | memory =>
    by_cases hlimit : limits.memoryBytes = 0
    · simp [Free.new, Free.level, ResourceLimits.capacity, hlimit]
    · simp [Free.new, Free.level, ResourceLimits.capacity, Usage.on, hlimit]

lemma level_take (free : Free limits) (request : ResourceRequest) (axis : Axis) :
    (free.take request).level axis = free.level axis - request.on limits axis := by
  cases axis with
  | cpu => rfl
  | slot name => exact slots_sub _ _ _
  | memory =>
    have hlimited := free.memory_limited
    cases hmemory : free.memoryBytes with
    | none => simp [take, level, hmemory]
    | some memory =>
      have : limits.memoryBytes ≠ 0 := hlimited.mp (by rw [hmemory]; rfl)
      simp [take, level, hmemory, on, this]

lemma fits_iff (free : Free limits) (request : ResourceRequest) :
    free.fits request = true ↔ ∀ axis, request.on limits axis ≤ free.level axis := by
  have hmemory : (free.memoryBytes.all fun memory => decide (request.memoryBytes ≤ memory)) = true ↔
      request.on limits .memory ≤ free.level .memory := by
    have hlimited := free.memory_limited
    cases hvalue : free.memoryBytes with
    | none =>
      have hzero : limits.memoryBytes = 0 := by
        rw [hvalue] at hlimited
        simpa using hlimited
      simp [on, hzero]
    | some memory =>
      have hne : limits.memoryBytes ≠ 0 := hlimited.mp (by rw [hvalue]; rfl)
      simp [on, level, hvalue, hne]
  simp only [fits, Bool.and_eq_true, decide_eq_true_eq, List.all_eq_true, hmemory, slots_le_iff]
  constructor
  · rintro ⟨⟨hcpu, hmem⟩, hslots⟩ axis
    cases axis with
    | cpu => exact hcpu
    | memory => exact hmem
    | slot name => exact hslots name
  · intro h
    exact ⟨⟨h .cpu, h .memory⟩, fun name => h (.slot name)⟩

end Free

def budget : Budget (Free limits) Waiter Axis where
  level := Free.level
  demand waiter := waiter.request.on limits
  fits free waiter := free.fits waiter.request
  take free waiter := free.take waiter.request
  granted := Waiter.granted
  grant := Waiter.grant
  fits_iff free waiter := free.fits_iff waiter.request
  level_take free waiter := free.level_take waiter.request
  granted_grant _ := rfl
  demand_grant _ _ := rfl

/-- The loop of `dispatch` is one sweep. -/
lemma dispatchFrom_waiters {limits : ResourceLimits} (free : Free limits)
    (waiters : List Waiter) :
    (dispatchFrom free waiters).1 = (budget limits).sweep free waiters := by
  induction waiters generalizing free with
  | nil => rfl
  | cons waiter waiters ih =>
    cases hgranted : waiter.granted with
    | true =>
      rw [Budget.sweep_cons_of_granted hgranted, ← ih]
      simp [dispatchFrom, hgranted]
    | false =>
      have hrest := ih (free.take waiter.request)
      cases hfits : free.fits waiter.request with
      | true =>
        refine Eq.trans ?_ (Budget.sweep_cons_of_fits hgranted
          hfits waiters).symm
        simp only [dispatchFrom, hgranted, hfits, Bool.false_eq_true, if_false, if_true, hrest]
        rfl
      | false =>
        refine Eq.trans ?_ (Budget.sweep_cons_of_blocked hgranted
          hfits waiters).symm
        simp only [dispatchFrom, hgranted, hfits, Bool.false_eq_true, if_false, hrest]
        rfl

lemma dispatch_waiters (queue : Queue) : (queue.dispatch limits).1.waiters =
      (budget limits).sweep (Free.new limits queue.used) queue.waiters :=
  dispatchFrom_waiters _ _

end OnceBuild.Resources
