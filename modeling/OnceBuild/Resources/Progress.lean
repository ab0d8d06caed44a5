import OnceBuild.Resources.Accounting

/-!
# The queue never stalls

Every operation of the pool that frees capacity or takes a waiter out of the queue dispatches
again.  So after each operation a further pass would grant nothing, and as every request fits in an
empty pool, whoever waits does so because of capacity that is in use.
-/

namespace OnceBuild.Resources

open List ResourceRequest Lib.Budget

variable {request : ResourceRequest} {limits : ResourceLimits}

lemma ResourceRequest.Within.on_le (h : request.Within limits) (axis : Axis) :
    request.on limits axis ≤ limits.capacity axis := by
  cases axis with
  | cpu => exact h.cpuSlots
  | slot name => exact slots_le_iff.mp h.slots name
  | memory =>
    simp only [on, ResourceLimits.capacity]
    split
    case isTrue => exact Nat.zero_le _
    case isFalse hlimit => exact h.memoryBytes hlimit

lemma dispatchFrom_of_settled {free : Free limits} {waiters : List Waiter}
    (h : (budget limits).Settled free waiters) : dispatchFrom free waiters = (waiters, [], []) := by
  induction waiters generalizing free with
  | nil => rfl
  | cons waiter waiters ih =>
    cases hgranted : waiter.granted with
    | true =>
      have hrest := ih ((settled_cons_of_granted hgranted).mp h)
      simp only [dispatchFrom, hgranted, if_true, hrest]
    | false =>
      have hblocked := (settled_cons_of_waiting hgranted).mp h
      have hfits : free.fits waiter.request = false := hblocked.1
      have hrest : dispatchFrom (free.take waiter.request) waiters = (waiters, [], []) :=
        ih hblocked.2
      simp only [dispatchFrom, hgranted, Bool.false_eq_true, if_false, hfits, hrest]

namespace Pool

/-- A pass over the queue would grant nothing. -/
def Settled (pool : Pool) : Prop :=
  (budget pool.limits).Settled (Free.new pool.limits pool.queue.used) pool.queue.waiters

variable {pool : Pool}

lemma Settled.dispatch (h : Settled pool) : pool.queue.dispatch pool.limits = (pool.queue, []) := by
  simp only [Queue.dispatch, dispatchFrom_of_settled h]
  rfl

/-- After `dispatch` the queue is settled, as the record shows what the pass granted. -/
lemma settled_dispatch (h : Exact pool) : Settled (pool.step .dispatch) := by
  have hafter := h.step .dispatch
  unfold Settled
  rw [step_limits]
  change (budget pool.limits).Settled _ (pool.queue.dispatch pool.limits).1.waiters
  rw [dispatch_waiters]
  refine settled_sweep fun axis => ?_
  have hlevel : ∀ used, (budget pool.limits).level (Free.new pool.limits used) axis =
      pool.limits.capacity axis - used.on pool.limits axis :=
    fun used => Free.level_new used axis
  rw [hlevel, hlevel]
  -- the capacity in use before and after the pass, by permits and by waiters
  have hheld : ∀ pool : Pool, pool.total (fun request => request.on pool.limits axis) =
      (pool.reservations.map fun r => r.request.on pool.limits axis).sum +
        (budget pool.limits).held pool.queue.waiters axis := by
    intro pool
    simp only [total, live, map_append, sum_append, map_map]
    rfl
  have hbefore := (h.used axis).trans (hheld pool)
  have husage := (hafter.used axis).trans (hheld _)
  rw [step_limits] at husage
  have hpermits : (pool.step .dispatch).reservations = pool.reservations := rfl
  have hwaiters : (pool.step .dispatch).queue.waiters =
      (budget pool.limits).sweep (Free.new pool.limits pool.queue.used) pool.queue.waiters :=
    dispatch_waiters _ _
  rw [hpermits, hwaiters] at husage
  have hgrown := held_le_held_sweep (B := budget pool.limits)
    (Free.new pool.limits pool.queue.used) pool.queue.waiters axis
  omega

variable {event : Event}

lemma request_of_step {waiter : Waiter} (h : waiter ∈ (pool.step event).queue.waiters) :
    event = .enqueue waiter.request ∨
      ∃ before ∈ pool.queue.waiters, before.request = waiter.request := by
  have hsame : ∀ w ∈ pool.queue.waiters, event = .enqueue w.request ∨
      ∃ before ∈ pool.queue.waiters, before.request = w.request :=
    fun w hw => .inr ⟨w, hw, rfl⟩
  have herased : ∀ id, ∀ w ∈ (pool.queue.removeWaiter id).waiters, w ∈ pool.queue.waiters :=
    fun id w hw => mem_of_mem_eraseP hw
  cases event with
  | enqueue request =>
    rcases mem_append.mp h with hold | hnew
    · exact .inr ⟨waiter, hold, rfl⟩
    · exact .inl (by rw [mem_singleton.mp hnew])
  | clone id => exact hsame waiter h
  | dispatch =>
    have hmap : waiter.request ∈ (pool.queue.dispatch pool.limits).1.waiters.map Waiter.request :=
      mem_map.mpr ⟨waiter, h, rfl⟩
    rw [dispatch_waiters, map_sweep fun _ => rfl] at hmap
    rcases mem_map.mp hmap with ⟨before, hbefore, heq⟩
    exact .inr ⟨before, hbefore, heq⟩
  | poll id waker =>
    simp only [step] at h
    cases hfind : pool.queue.find id with
    | none =>
      rw [pollTicket_of_none hfind] at h
      exact hsame waiter h
    | some found =>
      cases hgranted : found.granted with
      | true =>
        rw [pollTicket_of_granted hfind hgranted] at h
        exact hsame waiter (herased id waiter h)
      | false =>
        rw [pollTicket_of_waiting hfind hgranted] at h
        rcases mem_map.mp h with ⟨before, hbefore, rfl⟩
        exact .inr ⟨before, hbefore, (before.polled_request id waker).symm⟩
  | cancel id =>
    simp only [step] at h
    cases hfind : pool.queue.find id with
    | none =>
      rw [Queue.cancel_of_none hfind] at h
      exact hsame waiter h
    | some found =>
      cases hgranted : found.granted with
      | true =>
        rw [Queue.cancel_of_granted hfind hgranted] at h
        exact hsame waiter (herased id waiter h)
      | false =>
        rw [Queue.cancel_of_waiting hfind hgranted] at h
        exact hsame waiter (herased id waiter h)
  | drop id =>
    have hqueue : (pool.dropReservation id).queue.waiters = pool.queue.waiters := by
      unfold dropReservation
      split
      · rfl
      · split <;> rfl
    exact hsame waiter (hqueue ▸ h)

/-! ## Operations -/

/-- What holds after every operation of a pool. -/
structure Served (pool : Pool) : Prop where
  exact : Exact pool
  settled : Settled pool
  cpuSlots : 1 ≤ pool.limits.cpuSlots
  within : ∀ waiter ∈ pool.queue.waiters, waiter.request.Within pool.limits

lemma served_new (limits : ResourceLimits) : Served (new limits) where
  exact := exact_new limits
  settled := trivial
  cpuSlots := Nat.le_max_right _ _
  within _ h := by cases h

lemma Served.quiet (h : Served pool) (hevent : ∀ request, event ≠ .enqueue request)
    (hsettled : Settled (pool.step event)) : Served (pool.step event) where
  exact := h.exact.step event
  settled := hsettled
  cpuSlots := by rw [step_limits]; exact h.cpuSlots
  within waiter hwaiter := by
    rw [step_limits]
    rcases request_of_step hwaiter with hnew | ⟨before, hbefore, heq⟩
    · exact absurd hnew (hevent _)
    · exact heq ▸ h.within before hbefore

/-- An event followed by `dispatch`. -/
lemma Served.dispatched (h : Served pool)
    (hevent : ∀ request, event = .enqueue request → request.Within pool.limits) :
    Served (pool.run [event, .dispatch]) where
  exact := (h.exact.step event).step .dispatch
  settled := settled_dispatch (h.exact.step event)
  cpuSlots := by rw [run_limits]; exact h.cpuSlots
  within waiter hwaiter := by
    rw [run_limits]
    have hlast : waiter ∈ ((pool.step event).step .dispatch).queue.waiters := hwaiter
    rcases request_of_step hlast with hnew | ⟨before, hbefore, heq⟩
    · cases hnew
    · rcases request_of_step hbefore with hnew | ⟨first, hfirst, heq'⟩
      · exact heq ▸ hevent _ hnew
      · exact heq ▸ heq' ▸ h.within first hfirst

lemma within_of_queued (hcpu : 1 ≤ pool.limits.cpuSlots) {op : Operation}
    (h : pool.queued op = some request) : request.Within pool.limits := by
  cases op with
  | acquire estimate =>
    cases h
    exact within_boundedBy estimate hcpu
  | acquireClient memoryBytes slots =>
    cases h
    exact within_client memoryBytes slots hcpu
  | acquireRequired minimum =>
    cases hrequired : minimum.requiredWithin pool.limits with
    | error unsatisfied => simp [queued, hrequired, Except.toOption] at h
    | ok admitted =>
      simp only [queued, hrequired, Except.toOption, Option.some.injEq] at h
      exact h ▸ within_of_required hrequired
  | _ => cases h

lemma settled_poll (h : Settled pool) (id waker : Nat) : Settled (pool.step (.poll id waker)) := by
  simp only [step]
  cases hfind : pool.queue.find id with
  | none =>
    rw [pollTicket_of_none hfind]
    exact h
  | some waiter =>
    cases hgranted : waiter.granted with
    | true =>
      -- the waiter becomes a permit: the record stays as it is
      rw [pollTicket_of_granted hfind hgranted]
      rcases Lib.split_of_find? hfind with ⟨before, after, hsplit, herase, -⟩
      unfold Settled at h ⊢
      simp only [Queue.removeWaiter, herase]
      rw [hsplit] at h
      exact h.erase hgranted
    | false =>
      rw [pollTicket_of_waiting hfind hgranted]
      refine Lib.Budget.Settled.map h (fun w => w.polled_granted id waker)
        (fun free w => ?_) (fun free w => ?_)
      · exact congrArg free.fits (w.polled_request id waker)
      · exact congrArg free.take (w.polled_request id waker)

lemma Served.perform (h : Served pool) (op : Operation) : Served (pool.perform op) := by
  simp only [Pool.perform, events]
  cases hqueued : pool.queued op with
  | some request =>
    refine h.dispatched fun other heq => ?_
    cases heq
    exact within_of_queued h.cpuSlots hqueued
  | none =>
    cases op with
    | acquire request | acquireClient memoryBytes slots => cases hqueued
    | acquireRequired request => exact h
    | poll id waker =>
      have hevent : ∀ request, Event.poll id waker ≠ .enqueue request := fun _ heq => by cases heq
      exact h.quiet hevent (settled_poll h.settled id waker)
    | clonePermit id =>
      have hevent : ∀ request, Event.clone id ≠ .enqueue request := fun _ heq => by cases heq
      exact h.quiet hevent h.settled
    | dropTicket id =>
      dsimp only
      split
      case isTrue => exact h.dispatched fun _ heq => by cases heq
      case isFalse => exact h
    | dropPermit id =>
      dsimp only
      cases hfind : pool.findReservation id with
      | none => exact h
      | some reservation =>
        dsimp only
        split
        case isTrue => exact h.dispatched fun _ heq => by cases heq
        case isFalse hclones =>
          have hevent : ∀ request, Event.drop id ≠ .enqueue request := fun _ heq => by cases heq
          refine h.quiet hevent ?_
          -- other clones are left, so nothing is released
          have hstep : pool.step (.drop id) = pool.setClones id (· - 1) := by
            simp only [step, dropReservation, hfind, if_neg hclones]
          rw [hstep]
          exact h.settled

lemma Served.performAll (h : Served pool) (ops : List Operation) :
    Served (pool.performAll ops) := by
  induction ops generalizing pool with
  | nil => exact h
  | cons op ops ih => exact ih (h.perform op)

/-- The waiter that `dispatch` considers first. -/
def oldestWaiting (pool : Pool) : Option Waiter :=
  pool.queue.waiters.find? fun waiter => !waiter.granted

/-- After any operations on a pool another `dispatch` changes nothing and wakes nobody.  If somebody
waits then the oldest of those does not fit, and there is capacity in use. -/
theorem queue_never_stalls (limits : ResourceLimits) (ops : List Operation) :
    ((new limits).performAll ops).queue.dispatch ((new limits).performAll ops).limits =
        (((new limits).performAll ops).queue, []) ∧
      ∀ waiter ∈ ((new limits).performAll ops).queue.waiters, waiter.granted = false →
        ∃ oldest, ((new limits).performAll ops).oldestWaiting = some oldest ∧
          (Free.new ((new limits).performAll ops).limits
            ((new limits).performAll ops).queue.used).fits oldest.request = false ∧
          ((new limits).performAll ops).live ≠ [] ∧
          ∃ axis, 0 < ((new limits).performAll ops).queue.used.on
            ((new limits).performAll ops).limits axis := by
  have h := (served_new limits).performAll ops
  generalize (new limits).performAll ops = pool at h ⊢
  refine ⟨h.settled.dispatch, fun waiter hwaiter hwaiting => ?_⟩
  have hsome : (pool.oldestWaiting).isSome = true := by
    simp only [oldestWaiting, find?_isSome]
    exact ⟨waiter, hwaiter, by rw [hwaiting]; rfl⟩
  rcases Option.isSome_iff_exists.mp hsome with ⟨oldest, holdest⟩
  rcases find?_eq_some_iff_append.mp holdest with ⟨hnot, before, after, hsplit, hbefore⟩
  have hsettled := h.settled
  unfold Settled at hsettled
  rw [hsplit] at hsettled
  have hgranted : ∀ w ∈ before, w.granted = true := fun w hw => by simpa using hbefore w hw
  have hlast : oldest.granted = false := by simpa using hnot
  have hblocked : (Free.new pool.limits pool.queue.used).fits oldest.request = false :=
    hsettled.not_fits hgranted hlast
  have hwithin := h.within oldest (hsplit ▸ mem_append_right _ mem_cons_self)
  -- an axis on which it does not fit is in use, as the whole capacity would do
  have haxis : ∃ axis, 0 < pool.queue.used.on pool.limits axis := by
    by_contra hnone
    rw [← Bool.not_eq_true, Free.fits_iff] at hblocked
    refine hblocked fun axis => ?_
    have hzero : pool.queue.used.on pool.limits axis = 0 :=
      Nat.eq_zero_of_not_pos fun hpos => hnone ⟨axis, hpos⟩
    rw [Free.level_new, hzero]
    exact hwithin.on_le axis
  refine ⟨oldest, holdest, hblocked, fun hnil => ?_, haxis⟩
  rcases haxis with ⟨axis, hpos⟩
  rw [h.exact.used axis, total, hnil] at hpos
  cases hpos

end Pool
end OnceBuild.Resources
