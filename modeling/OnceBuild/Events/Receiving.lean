import OnceBuild.Events.SequenceNumbers

/-!
# Taking events from the producers

`can_receive` asks for room in bytes for all the events that a log chunk may be split into, and in
number for half of the ring.  One event never displaces another then, but a chunk that is split into
more events than the ring has places left does.
-/

namespace OnceBuild.Events

open Lib List Option
open RingBuffer (totalLen toEvict toKeep full)

variable {B : Type} {wire : Wire B} {s s' : EventSession B}

/-- `RunEventBus::MAX_LOG_CHUNK_BYTES`. -/
def maxPublishedBytes : Nat := 16 * 1024

namespace EventSession

/-- The events that a log chunk may be split into. -/
def logFragments (limits : SessionLimits) : Nat :=
  (maxPublishedBytes + (max limits.maxLogChunkBytes 1 - 1)) / max limits.maxLogChunkBytes 1

def canReceive (s : EventSession B) : Bool :=
  let headroom := min (s.limits.maxEventBytes * logFragments s.limits) u64Max
  decide (s.ring.events.length < max (s.limits.ordinaryCapacity / 2) 1) &&
    decide (s.ring.encodedBytes ≤ s.limits.maxUnackedBytes - headroom)

/-! ## The ring of a session has the limits of the session -/

structure Configured (limits : SessionLimits) (ring : RingBuffer B) : Prop where
  capacity : ring.ordinaryCapacity = max limits.ordinaryCapacity 1
  maxBytes : ring.maxEncodedBytes = limits.maxUnackedBytes

lemma Configured.of_kept (h : Configured s.limits s.ring) (hkept : Kept s s') :
    Configured s'.limits s'.ring := by
  refine ⟨?_, ?_⟩
  · rw [hkept.capacity, hkept.limits, h.capacity]
  · rw [hkept.maxBytes, hkept.limits, h.maxBytes]

variable {seq : Nat}

lemma Configured.acknowledgeUpTo (h : Configured s.limits s.ring)
    (hs' : acknowledgeUpTo wire s seq = some s') : Configured s'.limits s'.ring := by
  obtain ⟨ring, hring, hs'⟩ := bind_eq_some_iff.mp hs'
  obtain ⟨left, -, hring⟩ := bind_eq_some_iff.mp hring
  cases hring
  cases hs'
  exact ⟨h.capacity, h.maxBytes⟩

lemma Configured.acknowledgeWhen {nonzero : Bool} (h : Configured s.limits s.ring)
    (hs' : acknowledgeWhen wire nonzero s seq = some s') : Configured s'.limits s'.ring := by
  unfold EventSession.acknowledgeWhen at hs'
  split at hs'
  · exact h.acknowledgeUpTo hs'
  · cases hs'
    exact h

lemma unfold_kept (s : EventSession B) (payload : Payload B) : Kept s (s.unfold payload).2 := by
  unfold EventSession.unfold
  split
  · split <;> exact ⟨rfl, rfl, rfl, rfl⟩
  · exact .refl s

lemma Configured.step {op : SessionOp B} (h : Configured s.limits s.ring)
    (hs' : step wire s op = some s') : Configured s'.limits s'.ring := by
  cases op with
  | ordinary payload epochMs monoNs =>
    obtain ⟨⟨seq, s₁⟩, hpush, rfl⟩ := map_eq_some_iff.mp hs'
    exact h.of_kept ((s.unfold_kept payload).trans (pushAll_kept hpush))
  | terminal result epochMs monoNs =>
    obtain ⟨⟨seq, s₁⟩, hpush, rfl⟩ := map_eq_some_iff.mp hs'
    unfold pushTerminal at hpush
    split at hpush
    · cases hpush
      exact h
    · split at hpush <;> cases hpush
      exact ⟨h.capacity, h.maxBytes⟩
  | producerLoss count =>
    cases hs'
    exact h
  | batch =>
    cases hs'
    unfold nextBatch
    repeat' split
    all_goals exact h
  | ack ack =>
    obtain ⟨⟨action, s₁⟩, hrun, rfl⟩ := map_eq_some_iff.mp hs'
    unfold handleAck at hrun
    split at hrun
    · cases hrun
      exact h
    · split at hrun
      · obtain ⟨s₂, hs₂, heq⟩ := bind_eq_some_iff.mp hrun
        cases heq
        have h₂ := Configured.acknowledgeUpTo (by exact h) hs₂
        exact h₂
      · obtain ⟨s₂, hs₂, heq⟩ := bind_eq_some_iff.mp hrun
        cases heq
        exact Configured.acknowledgeWhen (by exact h) hs₂
      all_goals
        cases hrun
        exact h
  | runAck ack =>
    obtain ⟨⟨action, s₁⟩, hrun, rfl⟩ := map_eq_some_iff.mp hs'
    unfold handleGetRunAck at hrun
    split at hrun
    · cases hrun
      exact h
    · obtain ⟨s₂, hs₂, heq⟩ := bind_eq_some_iff.mp hrun
      cases heq
      exact Configured.acknowledgeWhen (by exact h) hs₂

lemma Configured.run {ops : List (SessionOp B)} (h : Configured s.limits s.ring)
    (hs' : run wire s ops = some s') : Configured s'.limits s'.ring := by
  induction ops generalizing s with
  | nil =>
    cases hs'
    exact h
  | cons op rest ih =>
    simp only [EventSession.run] at hs'
    split at hs'
    · cases hs'
    next s₁ hstep => exact ih (h.step hstep) hs'

/-! ## What a push makes of the ring -/

/-- The event that is queued for a payload with a number, if it is. -/
def queuedAs (wire : Wire B) (limits : SessionLimits) (event : RunEvent B) :
    List (PendingEvent B) :=
  match placement wire limits event with
  | .queue queued => [⟨event.seq, queued⟩]
  | _ => []

/-- The events that are queued for payloads, which take the numbers from `seq` on. -/
def queuedFor (wire : Wire B) (limits : SessionLimits) (epochMs monoNs : Int) :
    Nat → List (Payload B) → List (PendingEvent B)
  | _, [] => []
  | seq, payload :: rest =>
    queuedAs wire limits ⟨seq, epochMs, monoNs, payload⟩ ++
      queuedFor wire limits epochMs monoNs (seq + 1) rest

/-- The events that a push is going to queue. -/
def queuedBy (wire : Wire B) (s : EventSession B) (payload : Payload B) (epochMs monoNs : Int) :
    List (PendingEvent B) :=
  if s.finalizedLocally then []
  else queuedFor wire s.limits epochMs monoNs s.nextSeq (s.unfold payload).1

lemma encodedLen_le_of_queue {limits : SessionLimits} {event queued : RunEvent B}
    (h : placement wire limits event = .queue queued) :
    wire.encodedLen queued ≤ limits.maxEventBytes := by
  unfold placement at h
  split at h
  · cases h
  · split at h
    · cases h
    next hsize =>
      cases h
      exact not_lt.mp hsize

lemma totalLen_drop_le (events : List (PendingEvent B)) (n : Nat) :
    totalLen wire (events.drop n) ≤ totalLen wire events := by
  have hsplit := RingBuffer.totalLen_append wire (events.take n) (events.drop n)
  rw [take_append_drop] at hsplit
  omega

/-- A ring that has room for the bytes gives up at most its oldest event. -/
lemma toEvict_eq_take {capacity maxBytes bytes : Nat} {events : List (PendingEvent B)}
    (hcount : events.length ≤ capacity) (hbytes : totalLen wire events + bytes ≤ maxBytes) :
    toEvict wire capacity maxBytes bytes events = events.take (events.length + 1 - capacity) := by
  induction events with
  | nil => rw [toEvict, take_nil]
  | cons e rest ih =>
    rw [length_cons] at hcount
    have hrest := ih (by omega) (by rw [RingBuffer.totalLen_cons] at hbytes; omega)
    rw [Nat.sub_eq_zero_of_le hcount] at hrest
    unfold toEvict full
    rw [decide_eq_false (not_lt.mpr hbytes), hrest, length_cons]
    by_cases hfull : capacity ≤ rest.length + 1
    · rw [decide_eq_true hfull, show rest.length + 1 + 1 - capacity = 1 by omega]
      rfl
    · rw [decide_eq_false hfull, Nat.sub_eq_zero_of_le (by omega)]
      rfl

variable {payload : Payload B}

/-- With room for the bytes, an event goes through and the ring is cut to its capacity. -/
lemma pushEvent_eq (epochMs monoNs : Int) (h : Accounted wire s)
    (hfinal : s.finalizedLocally = false)
    (hpayload : payload.isRunCompleted = false) (hnext : s.nextSeq < u64Max)
    (hcount : s.ring.events.length ≤ s.ring.ordinaryCapacity)
    (hbytes : s.ring.encodedBytes + s.limits.maxEventBytes ≤ s.ring.maxEncodedBytes) :
    ∃ s', pushEvent wire s payload epochMs monoNs = some (s.nextSeq, s') ∧
      s'.nextSeq = s.nextSeq + 1 ∧ s'.finalizedLocally = false ∧
      s'.ring.events =
        (s.ring.events ++ queuedAs wire s.limits ⟨s.nextSeq, epochMs, monoNs, payload⟩).drop
          (s.ring.events.length +
            (queuedAs wire s.limits ⟨s.nextSeq, epochMs, monoNs, payload⟩).length -
              s.ring.ordinaryCapacity) := by
  have hpush : pushEvent wire s payload epochMs monoNs =
      (place wire { s with nextSeq := s.nextSeq + 1 } s.nextSeq
        (placement wire s.limits ⟨s.nextSeq, epochMs, monoNs, payload⟩)).bind
          fun s' => some (s.nextSeq, s') := by
    unfold pushEvent
    rw [if_neg (Bool.eq_false_iff.mp hfinal), if_neg (Bool.eq_false_iff.mp hpayload),
      if_neg (not_le.mpr hnext)]
    rfl
  have hnone : s.ring.events = (s.ring.events ++ []).drop
      (s.ring.events.length + ([] : List (PendingEvent B)).length - s.ring.ordinaryCapacity) := by
    rw [append_nil, length_nil, Nat.add_zero, Nat.sub_eq_zero_of_le hcount, drop_zero]
  unfold queuedAs
  cases hplacement : placement wire s.limits ⟨s.nextSeq, epochMs, monoNs, payload⟩ with
  | start event =>
    rw [hpush, hplacement]
    exact ⟨_, rfl, rfl, hfinal, hnone⟩
  | oversized =>
    obtain ⟨loss, hloss⟩ := h.exists_loseNext hfinal .oversizedEvent
    rw [hpush, hplacement]
    refine ⟨{ s with nextSeq := s.nextSeq + 1, loss := loss }, ?_, rfl, hfinal, hnone⟩
    simp [place, lose, hloss]
  | queue event =>
    have hlen := encodedLen_le_of_queue hplacement
    have hsize : ¬s.ring.maxEncodedBytes < wire.encodedLen event := by omega
    have hseq : event.seq = s.nextSeq := by
      rcases placement_cases s.limits ⟨s.nextSeq, epochMs, monoNs, payload⟩ with
        ⟨hplace, -⟩ | hplace | ⟨queued, hplace, hseq⟩
      all_goals cases hplacement.symm.trans hplace
      exact hseq
    have hevict : toEvict wire s.ring.ordinaryCapacity s.ring.maxEncodedBytes
        (wire.encodedLen event) s.ring.events =
          s.ring.events.take (s.ring.events.length + 1 - s.ring.ordinaryCapacity) :=
      toEvict_eq_take hcount (by rw [← h.encodedBytes_eq]; omega)
    have hone : s.ring.events.length + 1 - s.ring.ordinaryCapacity ≤ 1 := by omega
    have hdisplaced : Consecutive ((displaced wire s.ring event).map PendingEvent.seq) := by
      unfold displaced
      rw [if_neg hsize, hevict]
      apply consecutive_of_length_le_one
      rw [length_map, length_take]
      exact (Nat.min_le_left _ _).trans hone
    obtain ⟨s', hs'⟩ := (enqueue_spec h hfinal hnext hseq).iff.mpr hdisplaced
    refine ⟨s', by rw [hpush, hplacement]; exact bind_eq_some_iff.mpr ⟨s', hs', rfl⟩, ?_⟩
    have hcut : s.ring.events.length + 1 - s.ring.ordinaryCapacity ≤ s.ring.events.length := by
      have := h.capacity_pos
      omega
    rw [enqueue_eq h, if_neg hsize] at hs'
    simp only [length_singleton, drop_append_of_le_length hcut]
    split at hs'
    · obtain ⟨loss, -, heq⟩ := bind_eq_some_iff.mp hs'
      cases heq
      refine ⟨rfl, hfinal, ?_⟩
      simp only [withEvents, toKeep, hevict, length_take, Nat.min_eq_left hcut]
    next hroom =>
      cases hs'
      unfold full at hroom
      rw [Bool.or_eq_true, decide_eq_true_eq] at hroom
      refine ⟨rfl, hfinal, ?_⟩
      rw [Nat.sub_eq_zero_of_le (by omega)]
      rfl

lemma totalLen_queuedAs_le (wire : Wire B) (limits : SessionLimits) (event : RunEvent B) :
    totalLen wire (queuedAs wire limits event) ≤ limits.maxEventBytes := by
  unfold queuedAs
  split
  next queued h => exact encodedLen_le_of_queue h
  · exact Nat.zero_le _

variable {payloads : List (Payload B)}

/-- With room for the bytes of all its events a push goes through, and the ring is cut to its
capacity. -/
lemma pushAll_eq (epochMs monoNs : Int) (last : Nat) (h : Accounted wire s)
    (hfinal : s.finalizedLocally = false)
    (hpayloads : ∀ payload ∈ payloads, payload.isRunCompleted = false)
    (hnext : s.nextSeq + payloads.length ≤ u64Max)
    (hcount : s.ring.events.length ≤ s.ring.ordinaryCapacity)
    (hbytes : s.ring.encodedBytes + payloads.length * s.limits.maxEventBytes ≤
      s.ring.maxEncodedBytes) :
    ∃ seq s', pushAll wire epochMs monoNs last s payloads = some (seq, s') ∧
      s'.ring.events = (s.ring.events ++
        queuedFor wire s.limits epochMs monoNs s.nextSeq payloads).drop (s.ring.events.length +
          (queuedFor wire s.limits epochMs monoNs s.nextSeq payloads).length -
            s.ring.ordinaryCapacity) := by
  induction payloads generalizing s last with
  | nil =>
    refine ⟨last, s, rfl, ?_⟩
    rw [queuedFor, append_nil, length_nil, Nat.add_zero, Nat.sub_eq_zero_of_le hcount, drop_zero]
  | cons payload rest ih =>
    rw [length_cons, Nat.succ_mul] at hbytes
    rw [length_cons] at hnext
    obtain ⟨s₁, hpush, hnext₁, hfinal₁, hevents⟩ := pushEvent_eq epochMs monoNs h hfinal
      (hpayloads _ mem_cons_self) (by omega) hcount (by omega)
    have h₁ : Accounted wire s₁ := (pushEvent_spec h payload epochMs monoNs).keeps _ hpush
    have hkept := pushEvent_kept hpush
    have hbytes₁ : s₁.ring.encodedBytes ≤ s.ring.encodedBytes + s.limits.maxEventBytes := by
      have hone := totalLen_queuedAs_le wire s.limits ⟨s.nextSeq, epochMs, monoNs, payload⟩
      rw [h₁.encodedBytes_eq, h.encodedBytes_eq, hevents]
      refine (totalLen_drop_le _ _).trans ?_
      rw [RingBuffer.totalLen_append]
      omega
    have hcount₁ : s₁.ring.events.length ≤ s₁.ring.ordinaryCapacity := by
      rw [hevents, hkept.capacity, length_drop, length_append]
      omega
    obtain ⟨seq, s', hrest, heq⟩ := ih s.nextSeq h₁ hfinal₁
      (fun p hp => hpayloads p (mem_cons_of_mem _ hp)) (by omega) hcount₁
      (by rw [hkept.limits, hkept.maxBytes]; omega)
    refine ⟨seq, s', bind_eq_some_iff.mpr ⟨_, hpush, hrest⟩, ?_⟩
    rw [heq, hkept.limits, hkept.capacity, hnext₁, hevents, queuedFor]
    -- cut twice is cut once
    rw [← drop_append_of_le_length, drop_drop, append_assoc]
    congr 1
    · simp only [length_append, length_drop]
      omega
    · rw [length_append]
      omega

/-! ## Admitted events -/

lemma length_chunksUpTo_le {size : Nat} (hsize : 1 ≤ size) (fuel : Nat) (bytes : List UInt8) :
    (chunksUpTo size fuel bytes).length ≤ (bytes.length + (size - 1)) / size := by
  induction fuel generalizing bytes with
  | zero => exact Nat.zero_le _
  | succ fuel ih =>
    unfold chunksUpTo
    cases bytes with
    | nil => exact Nat.zero_le _
    | cons b bytes =>
      rw [isEmpty_cons, if_neg Bool.false_ne_true, length_cons, Nat.le_div_iff_mul_le hsize,
        length_cons, Nat.succ_mul]
      have hrest := ih ((b :: bytes).drop size)
      rw [length_drop, length_cons] at hrest
      by_cases hle : size ≤ bytes.length + 1
      · rw [Nat.le_div_iff_mul_le hsize] at hrest
        omega
      · -- the last chunk
        rw [Nat.div_eq_of_lt (by omega)] at hrest
        rw [Nat.le_zero.mp hrest]
        omega

/-- A payload that a producer may publish. -/
def Published : Payload B → Prop
  | .logChunk chunk => chunk.bytes.length ≤ maxPublishedBytes
  | payload => payload.isRunCompleted = false

lemma one_le_logFragments (limits : SessionLimits) : 1 ≤ logFragments limits := by
  have hsize : 1 ≤ max limits.maxLogChunkBytes 1 := Nat.le_max_right _ _
  unfold logFragments
  rw [Nat.le_div_iff_mul_le hsize]
  have : 1 ≤ maxPublishedBytes := by decide
  omega

lemma unfold_published (hpublished : Published payload) :
    (s.unfold payload).1.length ≤ logFragments s.limits ∧
      ∀ p ∈ (s.unfold payload).1, p.isRunCompleted = false := by
  cases payload with
  | logChunk chunk =>
    cases hfinal : s.finalizedLocally with
    | true =>
      simp only [EventSession.unfold, hfinal, if_true]
      exact ⟨Nat.zero_le _, fun p hp => nomatch hp⟩
    | false =>
      have hsize : 1 ≤ max s.limits.maxLogChunkBytes 1 := Nat.le_max_right _ _
      have hchunks := length_chunksUpTo_le hsize chunk.bytes.length chunk.bytes
      simp only [EventSession.unfold, hfinal, fragments]
      refine ⟨?_, fun p hp => ?_⟩
      · rw [if_neg Bool.false_ne_true, length_map, length_zipIdx]
        exact hchunks.trans (Nat.div_le_div_right (Nat.add_le_add_right hpublished _))
      · obtain ⟨part, -, rfl⟩ := mem_map.mp hp
        rfl
  | _ =>
    refine ⟨one_le_logFragments s.limits, fun p hp => ?_⟩
    cases mem_singleton.mp hp
    exact hpublished

/-- A session that can receive has room in bytes, unless nothing is queued. -/
lemma Accounted.room (h : Accounted wire s) (hsizes : ∀ event : RunEvent B, 1 ≤ event.seq →
      0 < wire.encodedLen event) (hlimits : s.limits.maxUnackedBytes ≤ u64Max)
    (hadmits : s.canReceive = true) {e : PendingEvent B} (he : e ∈ s.ring.events) :
    s.ring.encodedBytes + logFragments s.limits * s.limits.maxEventBytes ≤
      s.limits.maxUnackedBytes := by
  have hpos : 0 < s.ring.encodedBytes := by
    have hseq : 1 ≤ e.event.seq := by
      rw [h.stamped e he]
      exact h.expected_pos.trans (h.ring_range e he).1
    have hlen := hsizes e.event hseq
    obtain ⟨before, after, hsplit⟩ := append_of_mem he
    rw [h.encodedBytes_eq, hsplit, RingBuffer.totalLen_append, RingBuffer.totalLen_cons]
    omega
  have hbytes := (Bool.and_eq_true_iff.mp hadmits).2
  rw [decide_eq_true_eq] at hbytes
  rw [Nat.mul_comm]
  -- the product saturates only above every limit
  omega

lemma le_seq_of_mem_queuedFor {limits : SessionLimits} {epochMs monoNs : Int}
    {x : PendingEvent B} (hx : x ∈ queuedFor wire limits epochMs monoNs seq payloads) :
    seq ≤ x.seq := by
  induction payloads generalizing seq with
  | nil => cases hx
  | cons payload rest ih =>
    rcases mem_append.mp hx with hx | hx
    · unfold queuedAs at hx
      split at hx
      · rw [mem_singleton.mp hx]
      · cases hx
    · exact (Nat.le_succ _).trans (ih hx)

/-- In every state of a session that can receive, a push from a producer goes through and leaves
everything that is queued, if and only if the ring has places left for the events that it queues. -/
theorem admitted_push_keeps_iff (wire : Wire B)
    (hsizes : ∀ event : RunEvent B, 1 ≤ event.seq → 0 < wire.encodedLen event) (runId : Text)
    (limits : SessionLimits) (ops : List (SessionOp B)) (s : EventSession B)
    (hrun : run wire (new runId limits) ops = some s)
    (hlimits : s.limits.maxUnackedBytes ≤ u64Max) (hadmits : s.canReceive = true)
    (payload : Payload B) (hpublished : Published payload) (epochMs monoNs : Int)
    (hnumbers : s.nextSeq + logFragments s.limits ≤ u64Max) :
    (∀ e ∈ s.ring.events, ∃ seq s', pushOrdinary wire s payload epochMs monoNs = some (seq, s') ∧
        e ∈ s'.ring.events) ↔
      s.ring.events = [] ∨ s.ring.events.length + (queuedBy wire s payload epochMs monoNs).length ≤
        s.ring.ordinaryCapacity := by
  have h := (run_spec (accounted_new wire runId limits) ops).keeps s hrun
  have hconfigured := Configured.run ⟨rfl, rfl⟩ hrun
  have hcount : s.ring.events.length ≤ s.ring.ordinaryCapacity := by
    have := of_decide_eq_true (Bool.and_eq_true_iff.mp hadmits).1
    rw [hconfigured.capacity]
    omega
  -- the session with the offsets counted has the same books
  have hsame := s.sameBooks_unfold payload
  have hkept := s.unfold_kept payload
  have h₁ := hsame.accounted h
  obtain ⟨hlength, hcompleted⟩ := unfold_published hpublished
  have hbytes : ∀ e ∈ s.ring.events, s.ring.encodedBytes +
      (s.unfold payload).1.length * s.limits.maxEventBytes ≤ s.ring.maxEncodedBytes := by
    intro e he
    rw [hconfigured.maxBytes]
    exact (Nat.add_le_add_left (Nat.mul_le_mul_right _ hlength) _).trans
      (h.room hsizes hlimits hadmits he)
  unfold queuedBy pushOrdinary
  cases hfinal : s.finalizedLocally with
  | true =>
    have hpush : ∃ seq, pushAll wire epochMs monoNs (s.nextSeq - 1) (s.unfold payload).2
        (s.unfold payload).1 = some (seq, (s.unfold payload).2) :=
      pushAll_of_finalized (hsame.finalized.trans hfinal) _ _
    obtain ⟨seq, hpush⟩ := hpush
    refine ⟨fun _ => .inr hcount, fun _ e he => ⟨seq, _, hpush, ?_⟩⟩
    rw [hsame.ring]
    exact he
  | false =>
    rw [if_neg Bool.false_ne_true]
    cases hevents : s.ring.events with
    | nil => exact ⟨fun _ => .inl rfl, fun _ => nofun⟩
    | cons e rest =>
      have he : e ∈ s.ring.events := by
        rw [hevents]
        exact mem_cons_self
      obtain ⟨seq, s', hpush, hring⟩ := pushAll_eq epochMs monoNs (s.nextSeq - 1) h₁
        (hsame.finalized.trans hfinal) hcompleted (by rw [hsame.nextSeq]; omega)
        (by rw [hsame.ring]; exact hcount)
        (by rw [hsame.ring, hkept.limits]; exact hbytes e he)
      rw [hsame.ring, hkept.limits, hsame.nextSeq, hevents] at hring
      constructor
      · intro hkeeps
        obtain ⟨seq', s'', hpush', he'⟩ := hkeeps e mem_cons_self
        cases hpush.symm.trans hpush'
        refine .inr (not_lt.mp fun hgt => ?_)
        -- the oldest event is gone: it has the least number
        obtain ⟨k, hk⟩ := Nat.exists_eq_succ_of_ne_zero (Nat.sub_ne_zero_of_lt hgt)
        rw [hring, hk, cons_append] at he'
        rcases mem_append.mp (mem_of_mem_drop he') with hmem | hmem
        · have horder := h.ring_order
          rw [hevents] at horder
          exact absurd ((pairwise_cons.mp horder).1 e hmem) (lt_irrefl _)
        · exact absurd (le_seq_of_mem_queuedFor hmem) (not_le.mpr (h.ring_lt_next hfinal he))
      · rintro (hempty | hroom) x hx
        · cases hempty
        · refine ⟨seq, s', hpush, ?_⟩
          rw [hring, Nat.sub_eq_zero_of_le hroom]
          exact mem_append_left _ hx

/-- Events of one size. -/
def evenWire : Wire Unit := ⟨fun _ => 8, fun _ _ body => body⟩

def smallLimits : SessionLimits := ⟨4, 4, 512, 1024, 4, 8388608⟩

def smallChunk (bytes : List UInt8) : Payload Unit := .logChunk ⟨[], 1, 0, bytes⟩

theorem admitted_push_keeps_iff_three : ∃ s,
    run evenWire (new [] smallLimits) [.ordinary (.other ()) 0 0] = some s ∧
      s.canReceive = true ∧ ∀ e ∈ s.ring.events, ∃ seq s',
        pushOrdinary evenWire s (smallChunk (replicate 12 0)) 0 0 = some (seq, s') ∧
          e ∈ s'.ring.events := by
  have hpublished : Published (smallChunk (replicate 12 0)) := by
    change 12 ≤ maxPublishedBytes
    decide
  refine ⟨_, rfl, by decide, ?_⟩
  refine (admitted_push_keeps_iff evenWire (fun _ _ => Nat.succ_pos 7) [] smallLimits
    [.ordinary (.other ()) 0 0] _ rfl (by decide) (by decide) _ hpublished 0 0 (by decide)).mpr
      (.inr ?_)
  decide

/-- One event is queued, in a ring for four, when a chunk comes that is split into four. -/
theorem split_chunk_displaces : ∃ s seq s' e,
    run evenWire (new [] smallLimits) [.ordinary (.other ()) 0 0] = some s ∧
      s.canReceive = true ∧ Published (smallChunk (replicate 16 0)) ∧
      pushOrdinary evenWire s (smallChunk (replicate 16 0)) 0 0 = some (seq, s') ∧
      e ∈ s.ring.events ∧ e ∉ s'.ring.events := by
  refine ⟨_, _, _, _, rfl, ?_, ?_, rfl, mem_cons_self, ?_⟩
  · decide
  · change 16 ≤ maxPublishedBytes
    decide
  · decide

end EventSession

end OnceBuild.Events
