import OnceBuild.Resources.Queue

/-!
# The resource pool

A pool with the permits that are alive.  `Event` are the steps that happen under the lock of the
queue, in any order; `Operation` are the calls and drops of the pool, each a short list of events.
A permit and its clones share one reservation, which is released with the last of them.
-/

namespace OnceBuild.Resources

open List Queue

structure Reservation where
  id : Nat
  request : ResourceRequest
  /-- The clones of the permit beside the first. -/
  clones : Nat

structure Pool where
  limits : ResourceLimits
  queue : Queue
  reservations : List Reservation

inductive Event where
  | enqueue (request : ResourceRequest)
  | poll (id waker : Nat)
  | cancel (id : Nat)
  | clone (id : Nat)
  | drop (id : Nat)
  | dispatch

namespace Pool

/-- `ResourcePool::new`. -/
def new (limits : ResourceLimits) : Pool := ⟨limits.forPool, empty, []⟩

variable (pool : Pool)

def findReservation (id : Nat) : Option Reservation :=
  pool.reservations.find? fun reservation => reservation.id == id

def setClones (id : Nat) (change : Nat → Nat) : Pool :=
  { pool with reservations := pool.reservations.map fun reservation =>
      if reservation.id == id then { reservation with clones := change reservation.clones }
      else reservation }

/-- A ticket that finds its waiter granted becomes a permit. -/
def pollTicket (id waker : Nat) : Pool :=
  match pool.queue.find id, pool.queue.poll id waker with
  | some waiter, some (queue, true) =>
    { pool with
      queue := queue
      reservations := pool.reservations ++ [⟨id, waiter.request, 0⟩] }
  | _, some (queue, false) => { pool with queue := queue }
  | _, _ => pool

def dropReservation (id : Nat) : Pool :=
  match pool.findReservation id with
  | none => pool
  | some reservation =>
    if reservation.clones = 0 then
      { pool with
        queue := pool.queue.release reservation.request
        reservations := pool.reservations.eraseP fun other => other.id == id }
    else pool.setClones id (· - 1)

def step : Event → Pool
  | .enqueue request => { pool with queue := (pool.queue.enqueue request).1 }
  | .poll id waker => pool.pollTicket id waker
  | .cancel id => { pool with queue := (pool.queue.cancel id).1 }
  | .clone id => pool.setClones id (· + 1)
  | .drop id => pool.dropReservation id
  | .dispatch => { pool with queue := (pool.queue.dispatch pool.limits).1 }

def run (events : List Event) : Pool := events.foldl step pool

end Pool

/-- What a user of the pool does. -/
inductive Operation where
  | acquire (request : ResourceRequest)
  | acquireRequired (request : ResourceRequest)
  | acquireClient (memoryBytes : Nat) (slots : SlotMap)
  | poll (id waker : Nat)
  | dropTicket (id : Nat)
  | clonePermit (id : Nat)
  | dropPermit (id : Nat)

namespace Pool

/-- The request that an operation queues, if it queues one. -/
def queued (pool : Pool) : Operation → Option ResourceRequest
  | .acquire request => some (request.boundedBy pool.limits)
  | .acquireRequired request => (request.requiredWithin pool.limits).toOption
  | .acquireClient memoryBytes slots => some (.client memoryBytes slots pool.limits)
  | _ => none

/-- What an operation does under the lock; every change that may let somebody in is followed by
`dispatch`. -/
def events (pool : Pool) (op : Operation) : List Event :=
  match pool.queued op with
  | some request => [.enqueue request, .dispatch]
  | none =>
    match op with
    | .poll id waker => [.poll id waker]
    | .dropTicket id => if (pool.queue.cancel id).2 then [.cancel id, .dispatch] else []
    | .clonePermit id => [.clone id]
    | .dropPermit id =>
      match pool.findReservation id with
      | none => []
      | some reservation =>
        if reservation.clones = 0 then [.drop id, .dispatch] else [.drop id]
    | _ => []

def perform (pool : Pool) (op : Operation) : Pool := pool.run (pool.events op)

def performAll (pool : Pool) (ops : List Operation) : Pool := ops.foldl perform pool

/-- The requests that hold capacity: of live permits, and granted but not yet observed. -/
def live (pool : Pool) : List ResourceRequest :=
  pool.reservations.map Reservation.request ++
    (pool.queue.waiters.filter Waiter.granted).map Waiter.request

end Pool

/-! ## What an event can do -/

lemma live_dispatchFrom {limits : ResourceLimits} (free : Free limits) (waiters : List Waiter) :
    (((dispatchFrom free waiters).1.filter Waiter.granted).map Waiter.request).Perm
      ((dispatchFrom free waiters).2.1 ++ (waiters.filter Waiter.granted).map Waiter.request) := by
  induction waiters generalizing free with
  | nil => exact Perm.refl _
  | cons waiter waiters ih =>
    cases hgranted : waiter.granted with
    | true =>
      simp only [dispatchFrom, hgranted, if_true, filter_cons, map_cons]
      exact ((ih free).cons _).trans perm_middle.symm
    | false =>
      have hrest := ih (free.take waiter.request)
      cases hfits : free.fits waiter.request with
      | true =>
        simp only [dispatchFrom, hgranted, hfits, if_true, Bool.false_eq_true, if_false,
          filter_cons, Waiter.grant, map_cons, cons_append]
        exact hrest.cons _
      | false =>
        simp only [dispatchFrom, hgranted, hfits, Bool.false_eq_true, if_false, filter_cons]
        exact hrest

lemma sum_dispatchFrom_le {limits : ResourceLimits} (free : Free limits)
    (waiters : List Waiter) (axis : Axis) :
    ((dispatchFrom free waiters).2.1.map fun request => request.on limits axis).sum ≤
      free.level axis := by
  have hperm := ((live_dispatchFrom free waiters).map fun request =>
    request.on limits axis).sum_eq
  have hle := Lib.Budget.held_sweep_le (B := budget limits) free waiters axis
  rw [← dispatchFrom_waiters] at hle
  simp only [map_append, sum_append, map_map] at hperm
  have hheld : ∀ ws : List Waiter, (budget limits).held ws axis =
      ((ws.filter Waiter.granted).map ((fun request => request.on limits axis) ∘
        Waiter.request)).sum := fun _ => rfl
  rw [hheld, hheld] at hle
  have hlevel : (budget limits).level free axis = free.level axis := rfl
  omega

namespace Pool

variable {pool : Pool} {id : Nat}

lemma pollTicket_of_none (h : pool.queue.find id = none) (waker : Nat) :
    pool.pollTicket id waker = pool := by
  simp only [pollTicket, poll, h]

variable {waiter : Waiter}

lemma pollTicket_of_granted (h : pool.queue.find id = some waiter)
    (hgranted : waiter.granted = true) (waker : Nat) :
    pool.pollTicket id waker = { pool with
        queue := pool.queue.removeWaiter id
        reservations := pool.reservations ++ [⟨id, waiter.request, 0⟩] } := by
  simp only [pollTicket, poll, h, hgranted, if_true]

lemma pollTicket_of_waiting (h : pool.queue.find id = some waiter)
    (hgranted : waiter.granted = false) (waker : Nat) :
    pool.pollTicket id waker = { pool with queue := pool.queue.setWaker id waker } := by
  simp only [pollTicket, poll, h, hgranted, Bool.false_eq_true, if_false]

/-- Capacity held and capacity recorded change together. -/
inductive Change (pool pool' : Pool) : Prop
  | same (hlive : pool'.live.Perm pool.live) (hused : pool'.queue.used = pool.queue.used)
  | freed (request : ResourceRequest) (hlive : pool.live.Perm (request :: pool'.live))
      (hused : pool'.queue.used = pool.queue.used.remove request)
  | granted (requests : List ResourceRequest) (hlive : pool'.live.Perm (requests ++ pool.live))
      (hused : pool'.queue.used = requests.foldl Usage.add pool.queue.used)
      (hfits : ∀ axis, (requests.map fun request => request.on pool.limits axis).sum ≤
        pool.limits.capacity axis - pool.queue.used.on pool.limits axis)

lemma step_limits (pool : Pool) (event : Event) : (pool.step event).limits = pool.limits := by
  cases event with
  | enqueue request | cancel id | clone id | dispatch => rfl
  | poll id waker =>
    simp only [step, pollTicket]
    split <;> rfl
  | drop id =>
    simp only [step, dropReservation]
    split
    · rfl
    · split <;> rfl

lemma live_setClones (pool : Pool) (id : Nat) (change : Nat → Nat) :
    (pool.setClones id change).live = pool.live := by
  have hmap : (pool.setClones id change).reservations.map Reservation.request =
      pool.reservations.map Reservation.request := by
    simp only [setClones, map_map]
    refine map_congr_left fun reservation _ => ?_
    simp only [Function.comp_apply]
    split <;> rfl
  rw [live, hmap]
  rfl

lemma live_setWaker (waiters : List Waiter) (id waker : Nat) :
    ((waiters.map (Waiter.polled id waker)).filter Waiter.granted).map Waiter.request =
      (waiters.filter Waiter.granted).map Waiter.request := by
  rw [filter_map, map_map]
  have hgranted : Waiter.granted ∘ Waiter.polled id waker = Waiter.granted :=
    funext fun w => w.polled_granted id waker
  have hrequest : Waiter.request ∘ Waiter.polled id waker = Waiter.request :=
    funext fun w => w.polled_request id waker
  rw [hgranted, hrequest]

lemma live_split (h : pool.queue.find id = some waiter) :
    pool.live.Perm ((if waiter.granted then [waiter.request] else []) ++
      (pool.reservations.map Reservation.request ++
        ((pool.queue.removeWaiter id).waiters.filter Waiter.granted).map Waiter.request)) := by
  rcases Lib.split_of_find? h with ⟨before, after, hsplit, herase, -⟩
  simp only [live, removeWaiter, herase]
  rw [hsplit]
  simp only [filter_append, map_append, filter_cons]
  cases waiter.granted with
  | true =>
    simp only [if_true, map_cons, singleton_append, ← append_assoc]
    exact perm_middle
  | false => simp

lemma change_poll (pool : Pool) (id waker : Nat) : Change pool (pool.pollTicket id waker) := by
  cases hfind : pool.queue.find id with
  | none =>
    rw [pollTicket_of_none hfind]
    exact .same (Perm.refl _) rfl
  | some waiter =>
    have hsplit := live_split hfind
    cases hgranted : waiter.granted with
    | true =>
      -- the request moves from the queue to the permits
      rw [pollTicket_of_granted hfind hgranted]
      rw [hgranted] at hsplit
      refine .same (Perm.trans ?_ hsplit.symm) rfl
      simp only [live, map_append, map_cons, map_nil]
      exact perm_append_comm.append_right _
    | false =>
      rw [pollTicket_of_waiting hfind hgranted]
      refine .same (Perm.of_eq ?_) rfl
      simp only [live, setWaker, live_setWaker]

lemma change_cancel (pool : Pool) (id : Nat) :
    Change pool { pool with queue := (pool.queue.cancel id).1 } := by
  cases hfind : pool.queue.find id with
  | none =>
    rw [cancel_of_none hfind]
    exact .same (Perm.refl _) rfl
  | some waiter =>
    have hsplit := live_split hfind
    cases hgranted : waiter.granted with
    | true =>
      rw [cancel_of_granted hfind hgranted]
      rw [hgranted] at hsplit
      exact .freed waiter.request hsplit rfl
    | false =>
      rw [cancel_of_waiting hfind hgranted]
      rw [hgranted] at hsplit
      exact .same hsplit.symm rfl

lemma change_drop (pool : Pool) (id : Nat) : Change pool (pool.dropReservation id) := by
  unfold dropReservation
  cases hfind : pool.findReservation id with
  | none => exact .same (Perm.refl _) rfl
  | some reservation =>
    dsimp only
    split
    case isTrue =>
      rcases Lib.split_of_find? hfind with ⟨before, after, hsplit, herase, -⟩
      refine .freed reservation.request ?_ rfl
      simp only [live, herase]
      rw [hsplit]
      simp only [map_append, map_cons, release]
      exact perm_middle.append_right _
    case isFalse => exact .same (Perm.of_eq (live_setClones _ _ _)) rfl

lemma change_dispatch (pool : Pool) :
    Change pool { pool with queue := (pool.queue.dispatch pool.limits).1 } := by
  refine .granted (dispatchFrom (Free.new pool.limits pool.queue.used) pool.queue.waiters).2.1
    ?_ rfl fun axis => ?_
  · refine ((live_dispatchFrom _ pool.queue.waiters).append_left _).trans ?_
    simp only [live, ← append_assoc]
    exact perm_append_comm.append_right _
  · rw [← Free.level_new]
    exact sum_dispatchFrom_le _ _ _

lemma change_step (pool : Pool) (event : Event) : Change pool (pool.step event) := by
  cases event with
  | enqueue request =>
    refine .same (Perm.of_eq ?_) rfl
    simp [live, step, enqueue]
  | poll id waker => exact change_poll pool id waker
  | cancel id => exact change_cancel pool id
  | clone id => exact .same (Perm.of_eq (live_setClones _ _ _)) rfl
  | drop id => exact change_drop pool id
  | dispatch => exact change_dispatch pool

end Pool
end OnceBuild.Resources
