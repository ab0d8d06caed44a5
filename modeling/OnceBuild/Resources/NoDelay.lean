import OnceBuild.Resources.SideBySide

/-!
# Later requests never delay earlier ones

A run of a pool is compared with the run that is left of it without the requests that were queued
after a given one.  `moments` lists what each step of a run granted.
-/

namespace OnceBuild.Resources

open List Pool

/-! ## When requests are granted -/

def Tenants.holders (t : Tenants) : List Nat :=
  (t.waiters.filter Waiter.granted).map Waiter.id ++ t.reservations.map Reservation.id

lemma Tenants.holders_only (t : Tenants) (p : Nat → Bool) :
    (t.only p).holders = t.holders.filter p := by
  simp only [holders, only, filter_append, filter_map, filter_filter]
  congr 1
  congr 1
  refine filter_congr fun w _ => ?_
  exact Bool.and_comm _ _

/-- The requests up to `r` that a step granted. -/
def newGrants (r : Nat) (before after : Pool) : List Nat :=
  (after.tenants.holders.filter (earlier r)).filter fun id => !before.tenants.holders.contains id

lemma newGrants_of_same {r : Nat} {before after : Pool}
    (h : after.tenants.only (earlier r) = before.tenants.only (earlier r)) :
    newGrants r before after = [] := by
  rw [newGrants, ← Tenants.holders_only, h, Tenants.holders_only, filter_filter]
  refine filter_eq_nil_iff.mpr fun id hid => ?_
  simp [hid]

lemma newGrants_congr {r : Nat} {before after before' after' : Pool}
    (hbefore : before'.tenants = before.tenants.only (earlier r))
    (hafter : after'.tenants = after.tenants.only (earlier r)) :
    newGrants r before' after' = newGrants r before after := by
  unfold newGrants
  rw [hbefore, hafter, Tenants.holders_only, Tenants.holders_only]
  simp only [filter_filter]
  refine filter_congr fun id _ => ?_
  cases hid : earlier r id with
  | false => simp
  | true => simp [hid]

section runs

variable {α : Type} (step : Pool → α → Pool) (isLater : Pool → α → Bool) (r : Nat)

/-- What happened at one point of a run. -/
structure Moment (α : Type) where
  action : α
  /-- Whether it is about a request that was queued after `r`. -/
  isLater : Bool
  grants : List Nat

def moments : Pool → List α → List (Moment α)
  | _, [] => []
  | pool, action :: actions =>
    ⟨action, isLater pool action, newGrants r pool (step pool action)⟩ ::
      moments (step pool action) actions

/-- The run without the requests queued after `r`. -/
def withoutLater : Pool → List α → List α
  | _, [] => []
  | pool, action :: actions =>
    if isLater pool action then withoutLater (step pool action) actions
    else action :: withoutLater (step pool action) actions

/-- Requests up to `r` are granted at the same points with and without the later ones. -/
def Undelayed (pool : Pool) (actions : List α) : Prop :=
  (∀ moment ∈ moments step isLater r pool actions, moment.isLater = true → moment.grants = []) ∧
  (moments step isLater r pool actions).filter (fun moment => !moment.isLater) =
    moments step isLater r pool (withoutLater step isLater pool actions)

variable {step isLater r}

lemma moments_beside {R : Pool → Pool → Prop}
    (hbeside : ∀ full kept, R full kept → Beside r full kept)
    (hskip : ∀ full kept action, R full kept → isLater full action = true →
      R (step full action) kept)
    (hboth : ∀ full kept action, R full kept → isLater full action = false →
      R (step full action) (step kept action) ∧ isLater kept action = false) :
    ∀ (actions : List α) {full kept : Pool}, R full kept →
      (∀ moment ∈ moments step isLater r full actions, moment.isLater = true → moment.grants = []) ∧
      (moments step isLater r full actions).filter (fun moment => !moment.isLater) =
        moments step isLater r kept (withoutLater step isLater full actions) := by
  intro actions
  induction actions with
  | nil =>
    intro full kept _
    exact ⟨fun _ hmem => (by cases hmem), rfl⟩
  | cons action actions ih =>
    intro full kept hR
    have hbefore := (hbeside _ _ hR).tenants
    cases hlater : isLater full action with
    | true =>
      have hnext := hskip full kept action hR hlater
      have hrest := ih hnext
      have hnone : newGrants r full (step full action) = [] :=
        newGrants_of_same ((hbeside _ _ hnext).tenants.symm.trans hbefore)
      refine ⟨fun moment hmem hflag => ?_, ?_⟩
      · rcases mem_cons.mp hmem with rfl | hmem
        · exact hnone
        · exact hrest.1 moment hmem hflag
      · simp only [moments, withoutLater, hlater, if_true]
        exact hrest.2
    | false =>
      have hnext := hboth full kept action hR hlater
      have hrest := ih hnext.1
      refine ⟨fun moment hmem hflag => ?_, ?_⟩
      · rcases mem_cons.mp hmem with rfl | hmem
        · rw [hlater] at hflag
          cases hflag
        · exact hrest.1 moment hmem hflag
      · have hsame := newGrants_congr hbefore (hbeside _ _ hnext.1).tenants
        simp only [moments, withoutLater, hlater, Bool.false_eq_true, if_false, hnext.2, hsame]
        rw [filter_cons_of_pos (by rfl), hrest.2]

end runs

/-! ## Events and operations -/

/-- Whether an event is about a request queued after `r`; `dispatch` is not about one. -/
def Pool.isLaterEvent (r : Nat) (pool : Pool) : Event → Bool
  | .enqueue _ => later r pool.queue.nextId
  | event => event.subject.any (later r)

def Operation.subject : Operation → Option Nat
  | .poll id _ => some id
  | .dropTicket id => some id
  | .clonePermit id => some id
  | .dropPermit id => some id
  | _ => none

/-- Whether an operation is about a request queued after `r`. -/
def Pool.isLater (r : Nat) (pool : Pool) (op : Operation) : Bool :=
  match pool.queued op with
  | some _ => later r pool.queue.nextId
  | none => op.subject.any (later r)

namespace Beside

variable {r : Nat} {full kept : Pool}

variable {event : Event}

section

variable (h : Beside r full kept)
include h

lemma skip_event (hlater : full.isLaterEvent r event = true) : Beside r (full.step event) kept := by
  cases event with
  | enqueue request => exact h.enqueue_skip request (later_iff.mp hlater)
  | dispatch => cases hlater
  | poll id waker | cancel id | clone id | drop id => exact h.skip rfl (later_iff.mp hlater)

lemma nextId_le (hid : full.queue.nextId ≤ r) : kept.queue.nextId ≤ r := by
  rw [h.nextId]
  omega

lemma both_event (hlater : full.isLaterEvent r event = false) :
    Beside r (full.step event) (kept.step event) ∧ kept.isLaterEvent r event = false := by
  cases event with
  | enqueue request =>
    have hid := not_later_iff.mp hlater
    exact ⟨h.enqueue_both request hid, not_later_iff.mpr (h.nextId_le hid)⟩
  | dispatch => exact ⟨h.dispatch_both, rfl⟩
  | poll id waker | cancel id | clone id | drop id =>
    exact ⟨h.both rfl (not_later_iff.mp hlater), hlater⟩

/-! ## Operations -/

lemma find_eq {id : Nat} (hid : id ≤ r) : kept.queue.find id = full.queue.find id := by
  have hkept : kept.queue.find id = kept.tenants.find id := rfl
  rw [hkept, h.tenants]
  exact Lib.find?_filter_key (earlier_of_le hid).1

lemma findReservation_eq {id : Nat} (hid : id ≤ r) :
    kept.findReservation id = full.findReservation id := by
  have hkept : kept.findReservation id = kept.tenants.findReservation id := rfl
  rw [hkept, h.tenants]
  exact Lib.find?_filter_key (earlier_of_le hid).1

lemma queued_eq (op : Operation) : kept.queued op = full.queued op := by
  cases op with
  | acquire request | acquireRequired request | acquireClient memoryBytes slots =>
    simp only [queued, h.limits]
  | _ => rfl

end

lemma cancel_changes (queue : Queue) (id : Nat) : (queue.cancel id).2 = (queue.find id).isSome := by
  unfold Queue.cancel
  cases queue.find id with
  | none => rfl
  | some waiter =>
    dsimp only
    split <;> rfl

variable {op : Operation}

lemma events_eq (h : Beside r full kept) (hlater : full.isLater r op = false) :
    kept.events op = full.events op := by
  simp only [events, h.queued_eq]
  cases hqueued : full.queued op with
  | some request => rfl
  | none =>
    cases op with
    | dropTicket id =>
      have hfind := h.find_eq (not_later_iff.mp hlater)
      simp only [cancel_changes, hfind]
    | dropPermit id => simp only [h.findReservation_eq (not_later_iff.mp hlater)]
    | _ => rfl

lemma mem_events {pool : Pool} (hqueued : pool.queued op = none) (h : event ∈ pool.events op) :
    event = .dispatch ∨ ∃ id, event.subject = some id ∧ op.subject = some id := by
  simp only [events, hqueued] at h
  have hpair : ∀ {first : Event} {id : Nat}, first.subject = some id → op.subject = some id →
      event ∈ [first, .dispatch] →
        event = .dispatch ∨ ∃ id, event.subject = some id ∧ op.subject = some id := by
    intro first id hfirst hop hmem
    rcases mem_cons.mp hmem with rfl | hmem
    · exact .inr ⟨id, hfirst, hop⟩
    · exact .inl (mem_singleton.mp hmem)
  have hone : ∀ {first : Event} {id : Nat}, first.subject = some id → op.subject = some id →
      event ∈ [first] → event = .dispatch ∨ ∃ id, event.subject = some id ∧ op.subject = some id :=
    fun hfirst hop hmem =>
      .inr ⟨_, (mem_singleton.mp hmem).symm ▸ hfirst, hop⟩
  cases op with
  | acquire request | acquireClient memoryBytes slots => cases hqueued
  | acquireRequired request => cases h
  | poll id waker | clonePermit id => exact hone rfl rfl h
  | dropTicket id =>
    dsimp only at h
    split at h
    · exact hpair rfl rfl h
    · cases h
  | dropPermit id =>
    dsimp only at h
    split at h
    · cases h
    · split at h
      · exact hpair rfl rfl h
      · exact hone rfl rfl h

section

variable (h : Beside r full kept)
include h

lemma both_run {events : List Event}
    (hevents : ∀ event ∈ events, event = .dispatch ∨ ∃ id, event.subject = some id ∧ id ≤ r) :
    Beside r (full.run events) (kept.run events) := by
  induction events generalizing full kept with
  | nil => exact h
  | cons event events ih =>
    have hrest := fun e he => hevents e (mem_cons_of_mem _ he)
    rcases hevents event mem_cons_self with rfl | ⟨id, hsubject, hid⟩
    · exact ih h.dispatch_both hrest
    · exact ih (h.both hsubject hid) hrest

lemma skip_run (hsettled : kept.Settled) {events : List Event}
    (hevents : ∀ event ∈ events, event = .dispatch ∨ ∃ id, event.subject = some id ∧ r < id) :
    Beside r (full.run events) kept := by
  induction events generalizing full with
  | nil => exact h
  | cons event events ih =>
    have hrest := fun e he => hevents e (mem_cons_of_mem _ he)
    rcases hevents event mem_cons_self with rfl | ⟨id, hsubject, hid⟩
    · exact ih (h.dispatch_skip hsettled) hrest
    · exact ih (h.skip hsubject hid) hrest

lemma both_operation (hlater : full.isLater r op = false) :
    Beside r (full.perform op) (kept.perform op) ∧ kept.isLater r op = false := by
  have hevents := h.events_eq hlater
  unfold perform
  rw [hevents]
  unfold isLater at hlater ⊢
  rw [h.queued_eq]
  cases hqueued : full.queued op with
  | some request =>
    rw [hqueued] at hlater
    have hid := not_later_iff.mp hlater
    simp only [events, hqueued]
    exact ⟨(h.enqueue_both request hid).dispatch_both, not_later_iff.mpr (h.nextId_le hid)⟩
  | none =>
    rw [hqueued] at hlater
    refine ⟨h.both_run fun event hevent => ?_, hlater⟩
    rcases mem_events hqueued hevent with hdispatch | ⟨id, hsubject, hop⟩
    · exact .inl hdispatch
    · rw [hop] at hlater
      exact .inr ⟨id, hsubject, not_later_iff.mp hlater⟩

lemma skip_operation (hsettled : kept.Settled)
    (hlater : full.isLater r op = true) : Beside r (full.perform op) kept := by
  unfold isLater at hlater
  unfold perform
  cases hqueued : full.queued op with
  | some request =>
    rw [hqueued] at hlater
    simp only [events, hqueued]
    exact (h.enqueue_skip request (later_iff.mp hlater)).dispatch_skip hsettled
  | none =>
    rw [hqueued] at hlater
    refine h.skip_run hsettled fun event hevent => ?_
    rcases mem_events hqueued hevent with hdispatch | ⟨id, hsubject, hop⟩
    · exact .inl hdispatch
    · rw [hop] at hlater
      exact .inr ⟨id, hsubject, later_iff.mp hlater⟩

end

end Beside

/-- Whatever is queued after a request, that request and all before it are granted at the same
points of the run: in runs of the pool, and in runs of its queue in which `dispatch` happens at any
time. -/
theorem later_requests_never_delay (limits : ResourceLimits) (r : Nat) :
    (∀ ops, Undelayed perform (isLater r) r (new limits) ops) ∧
      ∀ events, Undelayed step (isLaterEvent r) r (new limits) events := by
  refine ⟨fun ops => ?_, fun events => ?_⟩
  · -- the run without later requests is settled between operations, so it misses no pass
    refine moments_beside (R := fun full kept => Beside r full kept ∧ kept.Served)
      (fun _ _ h => h.1) (fun full kept op h hlater => ?_) (fun full kept op h hlater => ?_) ops
      ⟨Beside.start r limits, served_new limits⟩
    · exact ⟨h.1.skip_operation h.2.settled hlater, h.2⟩
    · have hboth := h.1.both_operation hlater
      exact ⟨⟨hboth.1, h.2.perform op⟩, hboth.2⟩
  · refine moments_beside (fun _ _ h => h) (fun full kept event h hlater => ?_)
      (fun full kept event h hlater => ?_) events (Beside.start r limits)
    · exact h.skip_event hlater
    · exact h.both_event hlater

end OnceBuild.Resources
