import OnceBuild.Resources.Progress

/-!
# Waiters and permits by their ids

Apart from `enqueue` and `dispatch`, the events of a pool are about one request.  What they do to
the waiters and permits of any set of ids depends on those alone.
-/

namespace OnceBuild.Resources

open List Pool Lib.Budget

/-- Who waits and who holds a permit. -/
structure Tenants where
  waiters : List Waiter
  reservations : List Reservation

def Pool.tenants (pool : Pool) : Tenants := ⟨pool.queue.waiters, pool.reservations⟩

def Event.subject : Event → Option Nat
  | .enqueue _ => none
  | .poll id _ => some id
  | .cancel id => some id
  | .clone id => some id
  | .drop id => some id
  | .dispatch => none

/-- A reservation after the number of its clones changed. -/
def Reservation.recount (id : Nat) (change : Nat → Nat) (reservation : Reservation) : Reservation :=
  if reservation.id == id then { reservation with clones := change reservation.clones }
  else reservation

lemma Reservation.recount_id (id : Nat) (change : Nat → Nat) (reservation : Reservation) :
    (reservation.recount id change).id = reservation.id := by
  unfold recount
  split <;> rfl

lemma Reservation.recount_request (id : Nat) (change : Nat → Nat) (reservation : Reservation) :
    (reservation.recount id change).request = reservation.request := by
  unfold recount
  split <;> rfl

namespace Tenants

variable (t : Tenants)

def find (id : Nat) : Option Waiter := t.waiters.find? fun w => w.id == id

def findReservation (id : Nat) : Option Reservation :=
  t.reservations.find? fun reservation => reservation.id == id

def leave (id : Nat) : List Waiter := t.waiters.eraseP fun w => w.id == id

def recount (id : Nat) (change : Nat → Nat) : Tenants :=
  { t with reservations := t.reservations.map (Reservation.recount id change) }

def step : Event → Tenants
  | .poll id waker =>
    match t.find id with
    | none => t
    | some waiter =>
      if waiter.granted then ⟨t.leave id, t.reservations ++ [⟨id, waiter.request, 0⟩]⟩
      else { t with waiters := t.waiters.map (Waiter.polled id waker) }
  | .cancel id => { t with waiters := t.leave id }
  | .clone id => t.recount id (· + 1)
  | .drop id =>
    match t.findReservation id with
    | none => t
    | some reservation =>
      if reservation.clones = 0 then
        { t with reservations := t.reservations.eraseP fun other => other.id == id }
      else t.recount id (· - 1)
  | _ => t

def only (p : Nat → Bool) : Tenants :=
  ⟨t.waiters.filter fun w => p w.id, t.reservations.filter fun r => p r.id⟩

end Tenants

/-! ## The events of a pool -/

lemma Pool.tenants_step (pool : Pool) {event : Event} {id : Nat} (h : event.subject = some id) :
    (pool.step event).tenants = pool.tenants.step event := by
  cases event with
  | enqueue request | dispatch => cases h
  | clone id => rfl
  | poll id waker =>
    have hfind : pool.tenants.find id = pool.queue.find id := rfl
    simp only [step, Tenants.step, hfind]
    cases hcase : pool.queue.find id with
    | none => rw [pollTicket_of_none hcase]
    | some waiter =>
      cases hgranted : waiter.granted with
      | true =>
        rw [pollTicket_of_granted hcase hgranted]
        simp only [hgranted, if_true]
        rfl
      | false =>
        rw [pollTicket_of_waiting hcase hgranted]
        simp only [hgranted, Bool.false_eq_true, if_false]
        rfl
  | cancel id =>
    simp only [step, Tenants.step]
    cases hcase : pool.queue.find id with
    | some waiter =>
      cases hgranted : waiter.granted with
      | true => rw [Queue.cancel_of_granted hcase hgranted]; rfl
      | false => rw [Queue.cancel_of_waiting hcase hgranted]; rfl
    | none =>
      -- nobody has the id, so nobody leaves
      have hnone : pool.tenants.leave id = pool.queue.waiters :=
        eraseP_of_forall_not (find?_eq_none.mp hcase)
      rw [Queue.cancel_of_none hcase, hnone]
      rfl
  | drop id =>
    have hfind : pool.tenants.findReservation id = pool.findReservation id := rfl
    simp only [step, Tenants.step, dropReservation, hfind]
    cases pool.findReservation id with
    | none => rfl
    | some reservation =>
      dsimp only
      split <;> rfl

/-! ## Parts -/

namespace Tenants

variable {p : Nat → Bool} {id : Nat}

lemma only_recount (t : Tenants) (change : Nat → Nat) :
    (t.recount id change).only p = (t.only p).recount id change := by
  simp only [recount, only, Lib.filter_map_key (Reservation.recount_id id change)]

lemma only_recount_of_notMem (t : Tenants) (change : Nat → Nat) (h : p id = false) :
    (t.recount id change).only p = t.only p := by
  have hother : ∀ r : Reservation, r.id ≠ id → r.recount id change = r :=
    fun r hne => if_neg (by simpa using hne)
  simp only [recount, only, Lib.filter_map_of_key_ne hother (Reservation.recount_id id change) h]

lemma only_step (t : Tenants) {event : Event} (hsubject : event.subject = some id)
    (h : p id = true) : (t.step event).only p = (t.only p).step event := by
  cases event with
  | enqueue request | dispatch => cases hsubject
  | clone other =>
    exact only_recount t _
  | cancel other =>
    cases hsubject
    simp only [step, leave, only, Lib.eraseP_filter_key h]
  | poll other waker =>
    cases hsubject
    have hfind : (t.only p).find id = t.find id := Lib.find?_filter_key h
    simp only [step, hfind]
    cases t.find id with
    | none => rfl
    | some waiter =>
      dsimp only
      split
      case isTrue =>
        simp only [leave, only, Lib.eraseP_filter_key h, filter_append,
          filter_cons, h, if_true, filter_nil]
      case isFalse => simp only [only, Lib.filter_map_key (Waiter.polled_id id waker)]
  | drop other =>
    cases hsubject
    have hfind : (t.only p).findReservation id = t.findReservation id := Lib.find?_filter_key h
    simp only [step, hfind]
    cases t.findReservation id with
    | none => rfl
    | some reservation =>
      dsimp only
      split
      case isTrue => simp only [only, Lib.eraseP_filter_key h]
      case isFalse => exact only_recount t _

lemma only_step_of_notMem (t : Tenants) {event : Event} (hsubject : event.subject = some id)
    (h : p id = false) : (t.step event).only p = t.only p := by
  cases event with
  | enqueue request | dispatch => cases hsubject
  | clone other =>
    cases hsubject
    exact only_recount_of_notMem t _ h
  | cancel other =>
    cases hsubject
    simp only [step, leave, only, Lib.eraseP_filter_of_key h]
  | poll other waker =>
    cases hsubject
    have hother : ∀ w : Waiter, w.id ≠ id → w.polled id waker = w :=
      fun w hne => if_neg (by simpa using hne)
    simp only [step]
    cases t.find id with
    | none => rfl
    | some waiter =>
      dsimp only
      split
      case isTrue => simp [leave, only, Lib.eraseP_filter_of_key h, h]
      case isFalse =>
        simp only [only, Lib.filter_map_of_key_ne hother (Waiter.polled_id id waker) h]
  | drop other =>
    cases hsubject
    simp only [step]
    cases t.findReservation id with
    | none => rfl
    | some reservation =>
      dsimp only
      split
      case isTrue => simp only [only, Lib.eraseP_filter_of_key h]
      case isFalse => exact only_recount_of_notMem t _ h

/-! ## Amounts -/

variable (limits : ResourceLimits)

def held (t : Tenants) (axis : Axis) : Nat :=
  (t.reservations.map fun r => r.request.on limits axis).sum + (budget limits).held t.waiters axis

def claimed (t : Tenants) (axis : Axis) : Nat :=
  t.held limits axis + (budget limits).wanted t.waiters axis

lemma claimed_leave {t : Tenants} {waiter : Waiter} (h : t.find id = some waiter) (axis : Axis) :
    (budget limits).held t.waiters axis =
        (if waiter.granted then waiter.request.on limits axis else 0) +
          (budget limits).held (t.leave id) axis ∧
      (budget limits).wanted t.waiters axis =
        (if waiter.granted then 0 else waiter.request.on limits axis) +
          (budget limits).wanted (t.leave id) axis := by
  rcases Lib.split_of_find? h with ⟨before, after, hsplit, herase, -⟩
  have hleave : t.leave id = before ++ after := herase
  rw [hleave, hsplit]
  simp only [held_append, wanted_append, held_cons, wanted_cons]
  have hgranted : (budget limits).granted waiter = waiter.granted := rfl
  have hdemand : (budget limits).demand waiter axis = waiter.request.on limits axis := rfl
  rw [hgranted, hdemand]
  omega

lemma leave_of_none {t : Tenants} (h : t.find id = none) : t.leave id = t.waiters :=
  eraseP_of_forall_not (find?_eq_none.mp h)

lemma sum_recount (t : Tenants) (id : Nat) (change : Nat → Nat) (axis : Axis) :
    ((t.recount id change).reservations.map fun r => r.request.on limits axis).sum =
      (t.reservations.map fun r => r.request.on limits axis).sum := by
  simp only [recount, map_map]
  congr 2
  funext r
  simp only [Function.comp_apply, Reservation.recount_request]

lemma held_polled (waiters : List Waiter) (id waker : Nat) (axis : Axis) :
    (budget limits).held (waiters.map (Waiter.polled id waker)) axis =
        (budget limits).held waiters axis ∧
      (budget limits).wanted (waiters.map (Waiter.polled id waker)) axis =
        (budget limits).wanted waiters axis := by
  induction waiters with
  | nil => exact ⟨rfl, rfl⟩
  | cons waiter waiters ih =>
    have hdemand : (budget limits).demand (waiter.polled id waker) axis =
        (budget limits).demand waiter axis :=
      congrArg (fun r => ResourceRequest.on limits r axis) (waiter.polled_request id waker)
    have hgranted : (budget limits).granted (waiter.polled id waker) =
        (budget limits).granted waiter := waiter.polled_granted id waker
    rw [map_cons]
    simp only [held_cons, wanted_cons, hgranted, hdemand, ih.1, ih.2, and_self]

lemma amounts_step_le (t : Tenants) (event : Event) (axis : Axis) :
    (t.step event).held limits axis ≤ t.held limits axis ∧
      (t.step event).claimed limits axis ≤ t.claimed limits axis := by
  simp only [claimed, held]
  cases event with
  | enqueue request | dispatch => exact ⟨le_rfl, le_rfl⟩
  | clone id =>
    have := sum_recount limits t id (· + 1) axis
    simp only [step]
    rw [this]
    exact ⟨le_rfl, le_rfl⟩
  | cancel id =>
    simp only [step]
    cases hfind : t.find id with
    | none =>
      rw [leave_of_none hfind]
      exact ⟨le_rfl, le_rfl⟩
    | some waiter =>
      have hleave := claimed_leave limits hfind axis
      omega
  | poll id waker =>
    simp only [step]
    cases hfind : t.find id with
    | none => exact ⟨le_rfl, le_rfl⟩
    | some waiter =>
      have hleave := claimed_leave limits hfind axis
      dsimp only
      cases hgranted : waiter.granted with
      | true =>
        simp only [hgranted, if_true] at hleave ⊢
        simp only [map_append, map_cons, map_nil, sum_append, sum_cons, sum_nil]
        omega
      | false =>
        have hpolled := held_polled limits t.waiters id waker axis
        simp only [Bool.false_eq_true, if_false]
        omega
  | drop id =>
    simp only [step]
    cases hfind : t.findReservation id with
    | none => exact ⟨le_rfl, le_rfl⟩
    | some reservation =>
      dsimp only
      split
      case isTrue =>
        rcases Lib.split_of_find? hfind with ⟨before, after, hsplit, herase, -⟩
        have hsum := congrArg (fun l => (map (fun r : Reservation =>
          r.request.on limits axis) l).sum) hsplit
        simp only [map_append, map_cons, sum_append, sum_cons] at hsum
        rw [herase]
        simp only [map_append, sum_append]
        omega
      case isFalse =>
        have := sum_recount limits t id (· - 1) axis
        rw [this]
        exact ⟨le_rfl, le_rfl⟩

lemma held_only_add (t : Tenants) (p : Nat → Bool) (axis : Axis) :
    t.held limits axis = (t.only p).held limits axis + (t.only fun id =>
      !p id).held limits axis := by
  have hpermits := ((filter_append_perm (fun r : Reservation => p r.id)
    t.reservations).map fun r => r.request.on limits axis).sum_eq
  have hwaiters := held_perm (B := budget limits)
    (filter_append_perm (fun w : Waiter => p w.id) t.waiters) axis
  rw [held_append] at hwaiters
  rw [map_append, sum_append] at hpermits
  simp only [held, only]
  omega

end Tenants

lemma Pool.total_eq_held (pool : Pool) (axis : Axis) :
    (pool.total fun request => request.on pool.limits axis) =
      pool.tenants.held pool.limits axis := by
  simp only [total, live, map_append, sum_append, map_map]
  rfl

end OnceBuild.Resources
