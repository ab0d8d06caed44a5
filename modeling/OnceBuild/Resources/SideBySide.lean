import OnceBuild.Resources.Tenants

/-!
# A pool with and without its later requests

Two runs of a pool side by side: one with all requests and one without those that were queued after
a given request.  What the later ones hold is on each axis either nothing or beside everything that
the earlier ones hold and wait for.  So a dispatch pass grants the same earlier requests in both
runs.
-/

namespace OnceBuild.Resources

open List Tenants

variable {pool : Pool} {id : Nat}

/-! ## Ids are given out in order -/

namespace Tenants

lemma map_id_recount (t : Tenants) (id : Nat) (change : Nat → Nat) :
    (t.recount id change).reservations.map Reservation.id = t.reservations.map Reservation.id := by
  simp only [recount, map_map]
  exact map_congr_left fun r _ => r.recount_id id change

/-- Nobody new comes in, and a permit goes to someone who waited. -/
lemma ids_step (t : Tenants) (event : Event) :
    ((t.step event).waiters.map Waiter.id).Sublist (t.waiters.map Waiter.id) ∧
      ∀ id ∈ (t.step event).reservations.map Reservation.id,
        id ∈ t.reservations.map Reservation.id ∨ id ∈ t.waiters.map Waiter.id := by
  have hsame : (t.waiters.map Waiter.id).Sublist (t.waiters.map Waiter.id) ∧
      ∀ id ∈ t.reservations.map Reservation.id,
        id ∈ t.reservations.map Reservation.id ∨ id ∈ t.waiters.map Waiter.id :=
    ⟨.refl _, fun _ => .inl⟩
  cases event with
  | enqueue request | dispatch => exact hsame
  | clone id => exact map_id_recount t id _ ▸ hsame
  | cancel id => exact ⟨eraseP_sublist.map _, hsame.2⟩
  | poll id waker =>
    simp only [step]
    cases hfind : t.find id with
    | none => exact hsame
    | some waiter =>
      dsimp only
      split
      case isTrue =>
        refine ⟨eraseP_sublist.map _, fun other hother => ?_⟩
        simp only [map_append, map_cons, map_nil, mem_append, mem_singleton] at hother
        refine hother.imp_right fun heq => mem_map.mpr ⟨waiter, mem_of_find?_eq_some hfind, ?_⟩
        have hid := find?_some hfind
        rw [heq, eq_of_beq hid]
      case isFalse =>
        have hids : (t.waiters.map (Waiter.polled id waker)).map Waiter.id =
            t.waiters.map Waiter.id := by
          rw [map_map]
          exact map_congr_left fun w _ => w.polled_id id waker
        rw [hids]
        exact hsame
  | drop id =>
    simp only [step]
    cases t.findReservation id with
    | none => exact hsame
    | some reservation =>
      dsimp only
      split
      case isTrue => exact ⟨hsame.1, fun _ hid => .inl ((eraseP_sublist.map _).subset hid)⟩
      case isFalse =>
        rw [map_id_recount]
        exact hsame

end Tenants

namespace Pool

structure Ordered (pool : Pool) : Prop where
  sorted : (pool.queue.waiters.map Waiter.id).Pairwise (· < ·)
  waiters : ∀ id ∈ pool.queue.waiters.map Waiter.id, id < pool.queue.nextId
  reservations : ∀ id ∈ pool.reservations.map Reservation.id, id < pool.queue.nextId

lemma ordered_new (limits : ResourceLimits) : Ordered (new limits) where
  sorted := Pairwise.nil
  waiters _ h := by cases h
  reservations _ h := by cases h

lemma Ordered.mono {pool' : Pool} (h : Ordered pool)
    (hnext : pool'.queue.nextId = pool.queue.nextId)
    (hwaiters : (pool'.queue.waiters.map Waiter.id).Sublist (pool.queue.waiters.map Waiter.id))
    (hreservations : ∀ id ∈ pool'.reservations.map Reservation.id,
      id ∈ pool.reservations.map Reservation.id ∨ id ∈ pool.queue.waiters.map Waiter.id) :
    Ordered pool' where
  sorted := h.sorted.sublist hwaiters
  waiters id hid := hnext ▸ h.waiters id (hwaiters.subset hid)
  reservations id hid := by
    rw [hnext]
    rcases hreservations id hid with hold | hwaited
    · exact h.reservations id hold
    · exact h.waiters id hwaited

lemma nextId_step {event : Event} (h : event.subject = some id) :
    (pool.step event).queue.nextId = pool.queue.nextId := by
  cases event with
  | enqueue request => cases h
  | dispatch | clone id => rfl
  | cancel id =>
    simp only [step, Queue.cancel]
    split
    · rfl
    · split <;> rfl
  | poll id waker =>
    simp only [step]
    cases hfind : pool.queue.find id with
    | none => rw [pollTicket_of_none hfind]
    | some waiter =>
      cases hgranted : waiter.granted with
      | true => rw [pollTicket_of_granted hfind hgranted]; rfl
      | false => rw [pollTicket_of_waiting hfind hgranted]; rfl
  | drop id =>
    simp only [step, dropReservation]
    split
    · rfl
    · split <;> rfl

lemma Ordered.step (h : Ordered pool) (event : Event) : Ordered (pool.step event) := by
  have hsubject : ∀ event id, Event.subject event = some id → Ordered (pool.step event) := by
    intro event id hid
    obtain ⟨hwaiters, hreservations⟩ := pool.tenants.ids_step event
    rw [← pool.tenants_step hid] at hwaiters hreservations
    exact h.mono (nextId_step hid) hwaiters hreservations
  cases event with
  | enqueue request =>
    have hmap : (pool.queue.enqueue request).1.waiters.map Waiter.id =
        pool.queue.waiters.map Waiter.id ++ [pool.queue.nextId] := by
      simp [Queue.enqueue]
    refine ⟨?_, fun id hid => ?_, fun id hid => ?_⟩
    · simp only [Pool.step]
      rw [hmap, pairwise_append]
      refine ⟨h.sorted, pairwise_singleton _ _, fun id hid other hother => ?_⟩
      rw [mem_singleton.mp hother]
      exact h.waiters id hid
    · simp only [Pool.step] at hid
      rw [hmap, mem_append, mem_singleton] at hid
      rcases hid with hold | rfl
      · exact Nat.lt_succ_of_lt (h.waiters id hold)
      · exact Nat.lt_succ_self _
    · exact Nat.lt_succ_of_lt (h.reservations id hid)
  | dispatch =>
    have hids : (pool.step .dispatch).queue.waiters.map Waiter.id =
        pool.queue.waiters.map Waiter.id := by
      simp only [Pool.step]
      rw [dispatch_waiters]
      exact Lib.Budget.map_sweep (fun _ => rfl) _ _
    refine h.mono rfl ?_ fun other hother => .inl hother
    rw [hids]
  | clone id | cancel id | poll id waker | drop id => exact hsubject _ id rfl

end Pool

/-! ## Earlier and later requests -/

/-- The requests up to `r`, and those queued after it. -/
def earlier (r id : Nat) : Bool := decide (id ≤ r)

def later (r id : Nat) : Bool := !earlier r id

variable {r : Nat}

lemma earlier_of_le (h : id ≤ r) : earlier r id = true ∧ later r id = false := by
  simp [earlier, later, h]

lemma later_of_lt (h : r < id) : earlier r id = false ∧ later r id = true := by
  simp [earlier, later, h]

lemma later_iff : later r id = true ↔ r < id := by
  simp [later, earlier]

lemma not_later_iff : later r id = false ↔ id ≤ r := by
  simp [later, earlier]

lemma split_earlier {waiters : List Waiter} (h : (waiters.map Waiter.id).Pairwise (· < ·))
    (r : Nat) : waiters = (waiters.filter fun w => earlier r w.id) ++
      waiters.filter fun w => later r w.id := by
  induction waiters with
  | nil => rfl
  | cons waiter waiters ih =>
    rw [map_cons, pairwise_cons] at h
    rcases Nat.lt_or_ge r waiter.id with hlt | hle
    · -- all that follow are later too
      have hrest : ∀ w ∈ waiters, r < w.id :=
        fun w hw => hlt.trans (h.1 w.id (mem_map.mpr ⟨w, hw, rfl⟩))
      have hnone : (waiters.filter fun w => earlier r w.id) = [] :=
        filter_eq_nil_iff.mpr fun w hw => by simp [(later_of_lt (hrest w hw)).1]
      have hall : (waiters.filter fun w => later r w.id) = waiters :=
        filter_eq_self.mpr fun w hw => (later_of_lt (hrest w hw)).2
      simp [later_of_lt hlt, hnone, hall]
    · simp only [filter_cons, earlier_of_le hle, if_true, Bool.false_eq_true, if_false,
        cons_append, ← ih h.2]

/-- A pool with all requests and one with the earlier ones only. -/
structure Beside (r : Nat) (full kept : Pool) : Prop where
  limits : kept.limits = full.limits
  nextId : kept.queue.nextId = min full.queue.nextId (r + 1)
  tenants : kept.tenants = full.tenants.only (earlier r)
  ordered : full.Ordered
  exactFull : full.Exact
  exactKept : kept.Exact
  /-- What the later ones hold is beside all that the earlier ones hold and wait for. -/
  room : ∀ axis, (full.tenants.only (later r)).held full.limits axis = 0 ∨
    kept.tenants.claimed full.limits axis + (full.tenants.only (later r)).held full.limits axis ≤
      full.limits.capacity axis

namespace Beside

variable {r id : Nat} {full kept : Pool} {event : Event}

lemma start (r : Nat) (limits : ResourceLimits) : Beside r (Pool.new limits) (Pool.new limits) where
  limits := rfl
  nextId := (Nat.zero_min _).symm
  tenants := rfl
  ordered := Pool.ordered_new limits
  exactFull := Pool.exact_new limits
  exactKept := Pool.exact_new limits
  room _ := .inl rfl

lemma both (h : Beside r full kept) (hsubject : event.subject = some id) (hid : id ≤ r) :
    Beside r (full.step event) (kept.step event) := by
  have hlater : ((full.step event).tenants.only (later r)) = full.tenants.only (later r) := by
    rw [full.tenants_step hsubject]
    exact only_step_of_notMem _ hsubject (earlier_of_le hid).2
  refine ⟨?_, ?_, ?_, h.ordered.step event, h.exactFull.step event, h.exactKept.step event,
    fun axis => ?_⟩
  · rw [Pool.step_limits, Pool.step_limits, h.limits]
  · rw [Pool.nextId_step hsubject, Pool.nextId_step hsubject, h.nextId]
  · rw [full.tenants_step hsubject, kept.tenants_step hsubject, h.tenants]
    exact (only_step _ hsubject (earlier_of_le hid).1).symm
  · rw [Pool.step_limits, hlater, kept.tenants_step hsubject]
    have hclaimed := (amounts_step_le full.limits kept.tenants event axis).2
    rcases h.room axis with hnone | hroom
    · exact .inl hnone
    · exact .inr (le_trans (by omega) hroom)

lemma skip (h : Beside r full kept) (hsubject : event.subject = some id) (hid : r < id) :
    Beside r (full.step event) kept := by
  refine ⟨?_, ?_, ?_, h.ordered.step event, h.exactFull.step event, h.exactKept, fun axis => ?_⟩
  · rw [Pool.step_limits, h.limits]
  · rw [Pool.nextId_step hsubject, h.nextId]
  · rw [full.tenants_step hsubject, h.tenants]
    exact (only_step_of_notMem _ hsubject (later_of_lt hid).1).symm
  · rw [Pool.step_limits, full.tenants_step hsubject, only_step _ hsubject (later_of_lt hid).2]
    have hheld := (amounts_step_le full.limits (full.tenants.only (later r)) event
      axis).1
    rcases h.room axis with hnone | hroom
    · exact .inl (Nat.le_zero.mp (hheld.trans hnone.le))
    · exact .inr (le_trans (by omega) hroom)

/-- Before `r` is queued both are the same. -/
lemma later_empty (h : Beside r full kept) (hid : full.queue.nextId ≤ r) :
    full.tenants.only (later r) = ⟨[], []⟩ := by
  have hwaiters : (full.queue.waiters.filter fun w => later r w.id) = [] :=
    filter_eq_nil_iff.mpr fun w hw => by
      have hlt := h.ordered.waiters w.id (mem_map.mpr ⟨w, hw, rfl⟩)
      simp [(earlier_of_le (hlt.le.trans hid)).2]
  have hreservations : (full.reservations.filter fun x => later r x.id) = [] :=
    filter_eq_nil_iff.mpr fun x hx => by
      have hlt := h.ordered.reservations x.id (mem_map.mpr ⟨x, hx, rfl⟩)
      simp [(earlier_of_le (hlt.le.trans hid)).2]
  simp only [only, Pool.tenants, hwaiters, hreservations]

lemma only_enqueue (pool : Pool) (request : ResourceRequest) (p : Nat → Bool) :
    (pool.step (.enqueue request)).tenants.only p = ⟨(pool.tenants.only p).waiters ++
          (if p pool.queue.nextId then [⟨pool.queue.nextId, request, false, none⟩] else []),
        (pool.tenants.only p).reservations⟩ := by
  simp only [Pool.step, Queue.enqueue, Pool.tenants, only, filter_append]
  cases hp : p pool.queue.nextId <;> simp [hp]

lemma enqueue_both (h : Beside r full kept) (request : ResourceRequest)
    (hid : full.queue.nextId ≤ r) :
    Beside r (full.step (.enqueue request)) (kept.step (.enqueue request)) := by
  have hnext : kept.queue.nextId = full.queue.nextId := by
    rw [h.nextId]
    omega
  refine ⟨h.limits, ?_, ?_, h.ordered.step _, h.exactFull.step _, h.exactKept.step _,
    fun axis => .inl ?_⟩
  · change kept.queue.nextId + 1 = min (full.queue.nextId + 1) (r + 1)
    omega
  · have hkept : (kept.step (.enqueue request)).tenants =
        ⟨kept.tenants.waiters ++ [⟨kept.queue.nextId, request, false, none⟩],
          kept.tenants.reservations⟩ := rfl
    rw [only_enqueue, (earlier_of_le hid).1, hkept, h.tenants, hnext]
    rfl
  · rw [only_enqueue, (earlier_of_le hid).2, h.later_empty hid]
    rfl

lemma enqueue_skip (h : Beside r full kept) (request : ResourceRequest)
    (hid : r < full.queue.nextId) : Beside r (full.step (.enqueue request)) kept := by
  refine ⟨h.limits, ?_, ?_, h.ordered.step _, h.exactFull.step _, h.exactKept, fun axis => ?_⟩
  · change kept.queue.nextId = min (full.queue.nextId + 1) (r + 1)
    rw [h.nextId]
    omega
  · rw [only_enqueue, (later_of_lt hid).1, h.tenants]
    simp
  · -- a request that only waits holds nothing
    have hheld : ((full.step (.enqueue request)).tenants.only (later r)).held full.limits axis =
        (full.tenants.only (later r)).held full.limits axis := by
      rw [only_enqueue, (later_of_lt hid).2]
      simp only [held, if_true, Lib.Budget.held_append]
      rfl
    have hlimits : (full.step (.enqueue request)).limits = full.limits := rfl
    rw [hlimits, hheld]
    exact h.room axis

/-! ## Dispatch -/

variable {limits : ResourceLimits}

lemma side_sweep (p : Nat → Bool) {ws : List Waiter} (h : ∀ w ∈ ws, p w.id = true)
    (free : Free limits) : ∀ w ∈ (budget limits).sweep free ws, p w.id = true := by
  intro w hw
  have hmem : w.id ∈ ((budget limits).sweep free ws).map Waiter.id := mem_map.mpr ⟨w, hw, rfl⟩
  rw [Lib.Budget.map_sweep fun _ => rfl] at hmem
  rcases mem_map.mp hmem with ⟨before, hbefore, heq⟩
  exact heq ▸ h before hbefore

lemma filter_append_of_sides {p : Waiter → Bool} {xs ys : List Waiter}
    (hxs : ∀ w ∈ xs, p w = true) (hys : ∀ w ∈ ys, p w = false) : (xs ++ ys).filter p = xs := by
  rw [filter_append, filter_eq_self.mpr hxs,
    filter_eq_nil_iff.mpr fun w hw => by simp [hys w hw], append_nil]

lemma filter_append_of_sides' {p : Waiter → Bool} {xs ys : List Waiter}
    (hxs : ∀ w ∈ xs, p w = false) (hys : ∀ w ∈ ys, p w = true) : (xs ++ ys).filter p = ys := by
  rw [filter_append, filter_eq_self.mpr hys,
    filter_eq_nil_iff.mpr fun w hw => by simp [hxs w hw], nil_append]

lemma waiters_dispatch (h : pool.limits = limits) : (pool.step .dispatch).queue.waiters =
      (budget limits).sweep (Free.new limits pool.queue.used) pool.queue.waiters := by
  subst h
  exact dispatch_waiters _ _

lemma used_eq_held (hexact : pool.Exact) (h : pool.limits = limits) (axis : Axis) :
    pool.queue.used.on limits axis = pool.tenants.held limits axis := by
  subst h
  exact (hexact.used axis).trans (pool.total_eq_held axis)

/-- What a pass over all requests leaves to the later ones. -/
def leftover (full kept : Pool) : Free full.limits :=
  (budget full.limits).reserve (Free.new full.limits full.queue.used) kept.queue.waiters

def lateSweep (r : Nat) (full kept : Pool) : List Waiter :=
  (budget full.limits).sweep (leftover full kept) (full.queue.waiters.filter fun w => later r w.id)

section

variable (h : Beside r full kept)
include h

lemma kept_waiters : kept.queue.waiters = full.queue.waiters.filter fun w => earlier r w.id :=
  congrArg waiters h.tenants

lemma level_free (axis : Axis) :
    (budget full.limits).level (Free.new full.limits full.queue.used) axis =
        full.limits.capacity axis - (kept.tenants.held full.limits axis +
          (full.tenants.only (later r)).held full.limits axis) ∧
      (budget full.limits).level (Free.new full.limits kept.queue.used) axis =
        full.limits.capacity axis - kept.tenants.held full.limits axis := by
  have hlevel : ∀ used, (budget full.limits).level (Free.new full.limits used) axis =
      full.limits.capacity axis - used.on full.limits axis :=
    fun used => Free.level_new used axis
  rw [hlevel, hlevel, used_eq_held h.exactFull rfl, used_eq_held h.exactKept h.limits,
    full.tenants.held_only_add full.limits (earlier r) axis, ← h.tenants]
  exact ⟨rfl, rfl⟩

lemma sweep_split : (full.step .dispatch).queue.waiters =
      (kept.step .dispatch).queue.waiters ++ lateSweep r full kept := by
  have hsplit := split_earlier h.ordered.sorted r
  rw [← h.kept_waiters] at hsplit
  unfold lateSweep
  generalize (full.queue.waiters.filter fun w => later r w.id) = late at hsplit ⊢
  rw [waiters_dispatch rfl, waiters_dispatch h.limits, hsplit, Lib.Budget.sweep_append]
  congr 1
  refine Lib.Budget.sweep_congr fun axis => ?_
  rw [(h.level_free axis).1, (h.level_free axis).2]
  have hroom := h.room axis
  have hclaimed : kept.tenants.claimed full.limits axis =
      kept.tenants.held full.limits axis + (budget full.limits).wanted kept.queue.waiters
        axis := rfl
  omega

lemma earlier_side : ∀ w ∈ (kept.step .dispatch).queue.waiters, earlier r w.id = true := by
  rw [waiters_dispatch h.limits]
  refine side_sweep (earlier r) (fun w hw => ?_) _
  rw [h.kept_waiters] at hw
  exact (mem_filter.mp hw).2

end

lemma later_side (r : Nat) (full kept : Pool) : ∀ w ∈ lateSweep r full kept, later r w.id = true :=
  side_sweep (later r) (fun _ hw => (mem_filter.mp hw).2) _

section

variable (h : Beside r full kept)
include h

lemma only_later_dispatch : (full.step .dispatch).tenants.only (later r) =
      ⟨lateSweep r full kept, (full.tenants.only (later r)).reservations⟩ := by
  have hside : ∀ w ∈ (kept.step .dispatch).queue.waiters, later r w.id = false :=
    fun w hw => by rw [later, h.earlier_side w hw]; rfl
  simp only [only, Pool.tenants]
  rw [h.sweep_split, filter_append_of_sides' hside (later_side r full kept)]
  rfl

lemma room_dispatch (axis : Axis) :
    ((full.step .dispatch).tenants.only (later r)).held full.limits axis = 0 ∨
      (kept.step .dispatch).tenants.claimed full.limits axis +
          ((full.step .dispatch).tenants.only (later r)).held full.limits axis ≤
        full.limits.capacity axis := by
  have hkept : (kept.step .dispatch).tenants.claimed full.limits axis =
      kept.tenants.claimed full.limits axis := by
    have hsame := Lib.Budget.held_add_wanted_sweep (B := budget full.limits)
      (Free.new full.limits kept.queue.used) kept.queue.waiters axis
    rw [← waiters_dispatch h.limits] at hsame
    have hpermits : (kept.step .dispatch).tenants.reservations = kept.tenants.reservations := rfl
    simp only [claimed, held, hpermits]
    simp only [Pool.tenants]
    omega
  have hheld : ∀ t : Tenants, t.held full.limits axis =
      (t.reservations.map fun x => x.request.on full.limits axis).sum +
        (budget full.limits).held t.waiters axis := fun _ => rfl
  have hclaimed : kept.tenants.claimed full.limits axis =
      kept.tenants.held full.limits axis + (budget full.limits).wanted kept.queue.waiters
        axis := rfl
  have hgranted : (budget full.limits).held (lateSweep r full kept) axis ≤
      (budget full.limits).held (full.tenants.only (later r)).waiters axis +
        (budget full.limits).level (leftover full kept) axis :=
    Lib.Budget.held_sweep_le _ _ _
  rw [leftover, Lib.Budget.level_reserve, (h.level_free axis).1] at hgranted
  have hroom := h.room axis
  have hbefore := hheld (full.tenants.only (later r))
  rw [h.only_later_dispatch, hheld]
  dsimp only
  omega

lemma dispatch_both : Beside r (full.step .dispatch) (kept.step .dispatch) := by
  refine ⟨h.limits, h.nextId, ?_, h.ordered.step _, h.exactFull.step _, h.exactKept.step _,
    h.room_dispatch⟩
  have hside : ∀ w ∈ lateSweep r full kept, earlier r w.id = false :=
    fun w hw => by simpa [later] using later_side r full kept w hw
  have hpermits : kept.reservations = full.reservations.filter fun x => earlier r x.id :=
    congrArg reservations h.tenants
  simp only [only, Pool.tenants]
  rw [h.sweep_split, filter_append_of_sides h.earlier_side hside]
  exact congrArg _ hpermits

lemma dispatch_skip (hsettled : kept.Settled) : Beside r (full.step .dispatch) kept := by
  have hsame : kept.step .dispatch = kept := by
    simp only [Pool.step, hsettled.dispatch]
  rw [← hsame]
  exact h.dispatch_both

end

end Beside

end OnceBuild.Resources
