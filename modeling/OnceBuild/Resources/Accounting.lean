import OnceBuild.Resources.Pool

/-!
# The record of the pool

The usage that the queue records is what live permits and granted waiters hold, on every axis that
has a limit.  Without a memory limit the record of that axis saturates and is then smaller than what
is held; nothing reads it.  From the record follows that the queue never stalls: whoever waits does
so because of capacity that is in use.
-/

namespace OnceBuild.Resources

open Lib List ResourceRequest

/-! ## Usage by axis -/

variable {requests : List ResourceRequest}

namespace Usage

variable {limits : ResourceLimits} {used : Usage} {axis : Axis}

lemma on_zero (limits : ResourceLimits) (axis : Axis) : Usage.zero.on limits axis = 0 := by
  cases axis with
  | memory => exact ite_self _
  | _ => rfl

lemma on_remove (limits : ResourceLimits) (used : Usage) (request : ResourceRequest)
    (axis : Axis) :
    (used.remove request).on limits axis = used.on limits axis - request.on limits axis := by
  cases axis with
  | cpu => rfl
  | slot name => exact slots_sub _ _ _
  | memory =>
    by_cases hlimit : limits.memoryBytes = 0
    · simp [Usage.on, ResourceRequest.on, hlimit]
    · simp [Usage.on, ResourceRequest.on, hlimit, remove]

lemma on_add {request : ResourceRequest}
    (h : used.on limits axis + request.on limits axis ≤ limits.capacity axis) :
    (used.add request).on limits axis = used.on limits axis + request.on limits axis := by
  cases axis with
  | cpu => rfl
  | slot name => exact slots_add _ _ _
  | memory =>
    by_cases hlimit : limits.memoryBytes = 0
    · simp [Usage.on, ResourceRequest.on, hlimit]
    · -- a limited axis does not reach the point where it saturates
      have hbound := limits.memory_u64
      simp only [Usage.on, ResourceRequest.on, hlimit, if_false, ResourceLimits.capacity] at h ⊢
      exact Nat.min_eq_left (h.trans hbound)

lemma addAll_of_add (measure : Usage → Nat) {amount : ResourceRequest → Nat} {bound : Nat}
    (hadd : ∀ used request, measure used + amount request ≤ bound →
      measure (used.add request) = measure used + amount request)
    (h : measure used + (requests.map amount).sum ≤ bound) :
    measure (requests.foldl Usage.add used) = measure used + (requests.map amount).sum := by
  induction requests generalizing used with
  | nil => rfl
  | cons request requests ih =>
    rw [map_cons, sum_cons] at h ⊢
    have hone := hadd used request (by omega)
    rw [foldl_cons, ih (by omega), hone, Nat.add_assoc]

lemma on_addAll
    (h : used.on limits axis + (requests.map fun request => request.on limits axis).sum ≤
      limits.capacity axis) :
    (requests.foldl Usage.add used).on limits axis =
      used.on limits axis + (requests.map fun request => request.on limits axis).sum :=
  addAll_of_add (·.on limits axis) (fun _ _ => on_add) h

lemma memory_addAll_le (used : Usage) (requests : List ResourceRequest) :
    (requests.foldl Usage.add used).memoryBytes ≤
      used.memoryBytes + (requests.map ResourceRequest.memoryBytes).sum := by
  induction requests generalizing used with
  | nil => exact Nat.le_refl _
  | cons request requests ih =>
    have hone : (used.add request).memoryBytes ≤ used.memoryBytes + request.memoryBytes :=
      Nat.min_le_left _ _
    rw [map_cons, sum_cons]
    exact (ih (used.add request)).trans (by omega)

lemma memory_addAll
    (h : used.memoryBytes + (requests.map ResourceRequest.memoryBytes).sum ≤ u64Max) :
    (requests.foldl Usage.add used).memoryBytes =
      used.memoryBytes + (requests.map ResourceRequest.memoryBytes).sum :=
  addAll_of_add Usage.memoryBytes (fun _ _ => Nat.min_eq_left) h

end Usage

/-! ## The record is exact -/

namespace Pool

def total (pool : Pool) (amount : ResourceRequest → Nat) : Nat := (pool.live.map amount).sum

structure Exact (pool : Pool) : Prop where
  used : ∀ axis, pool.queue.used.on pool.limits axis =
    pool.total fun request => request.on pool.limits axis
  within : ∀ axis, pool.queue.used.on pool.limits axis ≤ pool.limits.capacity axis
  memory_le : pool.queue.used.memoryBytes ≤ pool.total memoryBytes

variable {pool pool' : Pool}

lemma total_of_perm (h : pool'.live.Perm pool.live) (amount : ResourceRequest → Nat) :
    pool'.total amount = pool.total amount :=
  (h.map amount).sum_eq

lemma total_of_freed {request : ResourceRequest} (h : pool.live.Perm (request :: pool'.live))
    (amount : ResourceRequest → Nat) : pool.total amount = amount request + pool'.total amount :=
  (h.map amount).sum_eq.trans (by simp [total])

lemma total_of_granted (h : pool'.live.Perm (requests ++ pool.live))
    (amount : ResourceRequest → Nat) :
    pool'.total amount = (requests.map amount).sum + pool.total amount :=
  (h.map amount).sum_eq.trans (by simp [total])

lemma exact_new (limits : ResourceLimits) : Exact (new limits) where
  used _ := Usage.on_zero _ _
  within axis := (Usage.on_zero limits.forPool axis).le.trans (Nat.zero_le _)
  memory_le := Nat.zero_le _

lemma Exact.change (hexact : Exact pool) (hlimits : pool'.limits = pool.limits)
    (h : Change pool pool') : Exact pool' := by
  have hused := hexact.used
  have hwithin := hexact.within
  have hmemory := hexact.memory_le
  cases h with
  | same hlive heq =>
    refine ⟨fun axis => ?_, fun axis => ?_, ?_⟩
    · rw [hlimits, heq, total_of_perm hlive, hused]
    · rw [hlimits, heq]
      exact hwithin axis
    · rw [heq, total_of_perm hlive]
      exact hmemory
  | freed request hlive heq =>
    have htotal := fun amount => total_of_freed hlive amount
    refine ⟨fun axis => ?_, fun axis => ?_, ?_⟩
    · rw [hlimits, heq, Usage.on_remove, hused, htotal, Nat.add_sub_cancel_left]
    · rw [hlimits, heq, Usage.on_remove]
      exact (Nat.sub_le _ _).trans (hwithin axis)
    · rw [htotal] at hmemory
      rw [heq]
      exact Nat.sub_le_of_le_add (by omega)
  | granted requests hlive heq hfits =>
    have htotal := fun amount => total_of_granted hlive amount
    have hbound : ∀ axis, pool.queue.used.on pool.limits axis +
        (requests.map fun request => request.on pool.limits axis).sum ≤
          pool.limits.capacity axis := by
      intro axis
      have := hfits axis
      have := hwithin axis
      omega
    refine ⟨fun axis => ?_, fun axis => ?_, ?_⟩
    · rw [hlimits, heq, Usage.on_addAll (hbound axis), htotal, hused, Nat.add_comm]
    · rw [hlimits, heq, Usage.on_addAll (hbound axis)]
      exact hbound axis
    · have := Usage.memory_addAll_le pool.queue.used requests
      rw [heq, htotal]
      omega

lemma Exact.step (h : Exact pool) (event : Event) : Exact (pool.step event) :=
  h.change (step_limits pool event) (change_step pool event)

lemma Exact.run (h : Exact pool) (events : List Event) : Exact (pool.run events) := by
  induction events generalizing pool with
  | nil => exact h
  | cons event events ih => exact ih (h.step event)

lemma run_limits (pool : Pool) (events : List Event) : (pool.run events).limits = pool.limits := by
  induction events generalizing pool with
  | nil => rfl
  | cons event events ih => exact (ih (pool.step event)).trans (step_limits pool event)

lemma run_concat (pool : Pool) (events : List Event) (event : Event) :
    pool.run (events ++ [event]) = (pool.run events).step event := by
  simp [run]

/-- While what is held stays below the point of saturation, the memory record is exact even without
a limit. -/
lemma memory_step {event : Event}
    (h : pool.queue.used.memoryBytes = pool.total memoryBytes)
    (hbound : (pool.step event).total memoryBytes ≤ u64Max) :
    (pool.step event).queue.used.memoryBytes = (pool.step event).total memoryBytes := by
  cases change_step pool event with
  | same hlive heq => rw [heq, total_of_perm hlive, h]
  | freed request hlive heq =>
    have htotal := total_of_freed hlive memoryBytes
    have hremoved : (pool.queue.used.remove request).memoryBytes =
        pool.queue.used.memoryBytes - request.memoryBytes := rfl
    rw [heq]
    omega
  | granted requests hlive heq =>
    have htotal := total_of_granted hlive memoryBytes
    rw [heq, Usage.memory_addAll (by omega)]
    omega

lemma memory_run (limits : ResourceLimits) {events : List Event}
    (hbound : ∀ before, before <+: events → ((new limits).run before).total memoryBytes ≤ u64Max) :
    ((new limits).run events).queue.used.memoryBytes =
      ((new limits).run events).total memoryBytes := by
  induction events using reverseRecOn with
  | nil => rfl
  | append_singleton events event ih =>
    have hbefore := ih fun before hle => hbound before (hle.trans (prefix_append _ _))
    have hlast := hbound _ (prefix_refl _)
    rw [run_concat] at hlast ⊢
    exact memory_step hbefore hlast

/-- In every run the record of each axis is what is held there and stays within the limit, where a
CPU or slot limit of zero counts as one; the memory record is exact when there is a limit, or when
no more was ever held than the record can count.  With nothing held the record is zero. -/
theorem usage_is_held (limits : ResourceLimits) (events : List Event) :
    (((new limits).run events).queue.used.cpuSlots = ((new limits).run events).total cpuSlots ∧
      ((new limits).run events).queue.used.cpuSlots ≤ max limits.cpuSlots 1) ∧
    (∀ name, ((new limits).run events).queue.used.slots name =
        (((new limits).run events).total fun request => request.slotCount name) ∧
      ((new limits).run events).queue.used.slots name ≤ limits.slotCapacity name) ∧
    (limits.memoryBytes ≠ 0 → ((new limits).run events).queue.used.memoryBytes =
        ((new limits).run events).total memoryBytes ∧
      ((new limits).run events).queue.used.memoryBytes ≤ limits.memoryBytes) ∧
    ((∀ before, before <+: events → ((new limits).run before).total memoryBytes ≤ u64Max) →
      ((new limits).run events).queue.used.memoryBytes =
        ((new limits).run events).total memoryBytes) ∧
    (((new limits).run events).reservations = [] → ((new limits).run events).queue.waiters = [] →
      ((new limits).run events).queue.used = Usage.zero) := by
  have hexact := (exact_new limits).run events
  have hlimits : ((new limits).run events).limits = limits.forPool := run_limits _ _
  have hused := hexact.used
  have hwithin := hexact.within
  rw [hlimits] at hused hwithin
  refine ⟨⟨hused .cpu, hwithin .cpu⟩, fun name => ⟨hused (.slot name), hwithin (.slot name)⟩,
    fun hlimit => ?_, fun hbound => memory_run limits hbound, fun hpermits hwaiters => ?_⟩
  · have hlimit : limits.forPool.memoryBytes ≠ 0 := hlimit
    have hmemory := hused .memory
    have hle := hwithin .memory
    simp only [Usage.on, on, hlimit, if_false] at hmemory hle
    exact ⟨hmemory, hle⟩
  · -- nothing is held, so every sum is empty
    have hnil : ((new limits).run events).live = [] := by rw [live, hpermits, hwaiters]; rfl
    have hzero : ∀ amount, ((new limits).run events).total amount = 0 := by
      intro amount
      rw [total, hnil]
      rfl
    have hcpu := (hused .cpu).trans (hzero _)
    have hmemory := Nat.le_zero.mp (hexact.memory_le.trans (hzero _).le)
    have hslots := fun name => (hused (.slot name)).trans (hzero _)
    generalize ((new limits).run events).queue.used = used at hcpu hmemory hslots
    cases used
    simp only [Usage.zero, Usage.mk.injEq]
    exact ⟨hcpu, hmemory, funext hslots⟩

/-- One CPU for each of two permits, and no memory limit. -/
def unlimitedMemory : ResourceLimits := ⟨2, 0, 0, SlotMap.empty, by decide⟩

def hugeRequest : ResourceRequest := ⟨1, u64Max, SlotMap.empty⟩

/-- The record of an unlimited memory axis is lost when it saturated: two permits were taken, one of
them was dropped, and the record says that nothing is held. -/
theorem saturated_memory_record_is_not_what_is_held :
    ((new unlimitedMemory).run [.enqueue hugeRequest, .enqueue hugeRequest, .dispatch, .poll 0 0,
      .poll 1 0, .drop 0]).queue.used.memoryBytes = 0 ∧
    ((new unlimitedMemory).run [.enqueue hugeRequest, .enqueue hugeRequest, .dispatch, .poll 0 0,
      .poll 1 0, .drop 0]).total memoryBytes = u64Max := by
  decide

end Pool
end OnceBuild.Resources
