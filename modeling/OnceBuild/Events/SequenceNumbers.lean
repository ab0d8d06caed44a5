import OnceBuild.Events.SessionAccounts

/-!
# Where the numbers of a session are

Each number that the server still expects is in one place of the session, and stays in one place
whatever happens, except that a push may panic.
-/

namespace OnceBuild.Events

open Lib Option

variable {B : Type} {wire : Wire B} {s s' : EventSession B}

/-- The places of a session that have numbers. -/
inductive Place (B : Type) where
  | start (event : RunEvent B)
  | queued (event : PendingEvent B)
  | finalizing (event : PendingEvent B)
  | terminal (event : PendingEvent B)
  | lost (interval : LossInterval LossReason)

namespace EventSession

def At (s : EventSession B) (n : Nat) : Place B → Prop
  | .start event => s.started = some event ∧ event.seq = n
  | .queued event => event ∈ s.ring.events ∧ event.seq = n
  | .finalizing event => s.ring.finalizingSlot = some event ∧ event.seq = n
  | .terminal event => s.ring.terminalSlot = some event ∧ event.seq = n
  | .lost interval => interval ∈ s.loss.intervals ∧ interval.Covers n

variable {n : Nat}

lemma Accounted.exists_place (h : Accounted wire s) (hle : s.serverExpectedNextSeq ≤ n)
    (hlt : n < s.nextSeq) : ∃ p, At s n p := by
  by_cases hend : n < s.ordinaryEnd
  · rcases h.held n hle hend with ⟨e, he, hseq⟩ | ⟨e, he, hseq⟩ | ⟨r, i, hi, hin, -⟩
    · exact ⟨.start e, he, hseq⟩
    · exact ⟨.queued e, he, hseq⟩
    · exact ⟨.lost i, hi, hin⟩
  · -- the two last numbers of a run that has ended
    have hfinal : s.finalizedLocally = true := by
      by_contra hnot
      rw [ordinaryEnd_of_not (Bool.eq_false_iff.mpr hnot)] at hend
      exact hend hlt
    unfold ordinaryEnd at hend
    rw [if_pos hfinal] at hend
    by_cases hlast : n + 1 = s.nextSeq
    · obtain ⟨e, he⟩ := h.held_terminal hfinal (by omega)
      have hseq := (h.terminal e he).2.1
      exact ⟨.terminal e, he, by omega⟩
    · obtain ⟨e, he⟩ := h.held_finalizing hfinal (by omega)
      have hseq := (h.finalizing e he).2.1
      exact ⟨.finalizing e, he, by omega⟩

lemma eq_of_ring_order {events : List (PendingEvent B)}
    (h : events.Pairwise fun a b => a.seq < b.seq) {a b : PendingEvent B} (ha : a ∈ events)
    (hb : b ∈ events) (heq : a.seq = b.seq) : a = b := by
  induction events with
  | nil => cases ha
  | cons x events ih =>
    obtain ⟨hx, hrest⟩ := List.pairwise_cons.mp h
    rcases List.mem_cons.mp ha with rfl | ha'
    · rcases List.mem_cons.mp hb with rfl | hb'
      · rfl
      · have := hx b hb'
        omega
    · rcases List.mem_cons.mp hb with rfl | hb'
      · have := hx a ha'
        omega
      · exact ih hrest ha' hb'

def Suits (s : EventSession B) (n : Nat) : Place B → Prop
  | .start _ => n = 1 ∧ n < s.ordinaryEnd ∧ s.started ≠ none
  | .queued _ => n < s.ordinaryEnd ∧ (∀ r, ¬s.loss.Lost n r) ∧ (s.started ≠ none → 1 < n)
  | .finalizing _ => s.ordinaryEnd = n
  | .terminal _ => s.ordinaryEnd + 1 = n
  | .lost i => n < s.ordinaryEnd ∧ s.loss.Lost n i.reason ∧ (s.started ≠ none → 1 < n)

lemma Accounted.suits (h : Accounted wire s) {p : Place B} (hp : At s n p) : Suits s n p := by
  have hstart : ∀ {P : Prop}, (∀ e, s.started = some e → P) → s.started ≠ none → P := by
    intro P hP hsome
    obtain ⟨e, he⟩ := ne_none_iff_exists'.mp hsome
    exact hP e he
  cases p with
  | start e =>
    obtain ⟨he, rfl⟩ := hp
    obtain ⟨hseq, -, hone, -⟩ := h.start e he
    exact ⟨hseq, by omega, he ▸ some_ne_none _⟩
  | queued e =>
    obtain ⟨he, rfl⟩ := hp
    exact ⟨(h.ring_range e he).2, h.apart e he, hstart fun e' he' => (h.start e' he').2.2.2.1 e he⟩
  | finalizing e =>
    obtain ⟨he, rfl⟩ := hp
    obtain ⟨hfinal, hseq, -⟩ := h.finalizing e he
    change s.ordinaryEnd = e.seq
    unfold ordinaryEnd
    rw [if_pos hfinal]
    omega
  | terminal e =>
    obtain ⟨he, rfl⟩ := hp
    obtain ⟨hfinal, hseq, -⟩ := h.terminal e he
    have := h.finalized hfinal
    change s.ordinaryEnd + 1 = e.seq
    unfold ordinaryEnd
    rw [if_pos hfinal]
    omega
  | lost i =>
    obtain ⟨hi, hin⟩ := hp
    have hlost : s.loss.Lost n i.reason := ⟨i, hi, hin, rfl⟩
    refine ⟨(h.lost_range n _ hlost).2, hlost, hstart fun e he => ?_⟩
    exact (h.start e he).2.2.2.2 n _ hlost

lemma Accounted.place_unique (h : Accounted wire s) {p q : Place B} (hp : At s n p)
    (hq : At s n q) : p = q := by
  have hp' := h.suits hp
  have hq' := h.suits hq
  -- places of different kinds have different numbers
  cases p with
  | start e =>
    obtain ⟨hone, hend, hsome⟩ := hp'
    cases q with
    | start e' => exact congrArg Place.start (some.inj (hp.1.symm.trans hq.1))
    | queued e' | lost i => exact absurd (hq'.2.2 hsome) (by omega)
    | finalizing e' => exact absurd (show s.ordinaryEnd = n from hq') (by omega)
    | terminal e' => exact absurd (show s.ordinaryEnd + 1 = n from hq') (by omega)
  | queued e =>
    obtain ⟨hend, hnot, hlt⟩ := hp'
    cases q with
    | start e' =>
      have := hlt hq'.2.2
      exact absurd hq'.1 (by omega)
    | queued e' =>
      exact congrArg Place.queued
        (eq_of_ring_order h.ring_order hp.1 hq.1 (hp.2.trans hq.2.symm))
    | finalizing e' => exact absurd (show s.ordinaryEnd = n from hq') (by omega)
    | terminal e' => exact absurd (show s.ordinaryEnd + 1 = n from hq') (by omega)
    | lost i => exact absurd hq'.2.1 (hnot _)
  | finalizing e =>
    have hn : s.ordinaryEnd = n := hp'
    cases q with
    | start e' => exact absurd hq'.2.1 (by omega)
    | queued e' | lost i => exact absurd hq'.1 (by omega)
    | finalizing e' => exact congrArg Place.finalizing (some.inj (hp.1.symm.trans hq.1))
    | terminal e' => exact absurd (show s.ordinaryEnd + 1 = n from hq') (by omega)
  | terminal e =>
    have hn : s.ordinaryEnd + 1 = n := hp'
    cases q with
    | start e' => exact absurd hq'.2.1 (by omega)
    | queued e' | lost i => exact absurd hq'.1 (by omega)
    | finalizing e' => exact absurd (show s.ordinaryEnd = n from hq') (by omega)
    | terminal e' => exact congrArg Place.terminal (some.inj (hp.1.symm.trans hq.1))
  | lost i =>
    obtain ⟨hend, hlost, hlt⟩ := hp'
    cases q with
    | start e' =>
      have := hlt hq'.2.2
      exact absurd hq'.1 (by omega)
    | queued e' => exact absurd hlost (hq'.2.1 _)
    | finalizing e' => exact absurd (show s.ordinaryEnd = n from hq') (by omega)
    | terminal e' => exact absurd (show s.ordinaryEnd + 1 = n from hq') (by omega)
    | lost j => exact congrArg Place.lost (s.loss.separate.eq_of_covers hp.1 hq.1 hp.2 hq.2)

/-! ## What an operation leaves alone -/

variable {last : Nat}

/-- What a push leaves alone. -/
structure Kept (s s' : EventSession B) : Prop where
  expected : s'.serverExpectedNextSeq = s.serverExpectedNextSeq
  limits : s'.limits = s.limits
  capacity : s'.ring.ordinaryCapacity = s.ring.ordinaryCapacity
  maxBytes : s'.ring.maxEncodedBytes = s.ring.maxEncodedBytes

lemma Kept.refl (s : EventSession B) : Kept s s := ⟨rfl, rfl, rfl, rfl⟩

lemma Kept.trans {s₁ : EventSession B} (h : Kept s s₁) (h₁ : Kept s₁ s') : Kept s s' :=
  ⟨h₁.expected.trans h.expected, h₁.limits.trans h.limits, h₁.capacity.trans h.capacity,
    h₁.maxBytes.trans h.maxBytes⟩

lemma lose_kept {first : Nat} {reason : LossReason} (h : lose s first last reason = some s') :
    Kept s s' := by
  obtain ⟨loss, -, hs'⟩ := bind_eq_some_iff.mp h
  cases hs'
  exact ⟨rfl, rfl, rfl, rfl⟩

lemma ring_kept {ring : RingBuffer B} {event : PendingEvent B} {outcome : RingPushOutcome}
    (h : s.ring.pushOrdinary wire event = some (outcome, ring)) :
      Kept s { s with ring := ring } := by
  unfold RingBuffer.pushOrdinary at h
  dsimp only at h
  split at h
  · cases h
    exact .refl s
  · split at h
    · obtain ⟨left, -, h⟩ := bind_eq_some_iff.mp h
      cases h
      exact ⟨rfl, rfl, rfl, rfl⟩
    · cases h
      exact ⟨rfl, rfl, rfl, rfl⟩

variable {seq : Nat}

lemma place_kept {placement : Placement B} (h : place wire s seq placement = some s') :
    Kept s s' := by
  cases placement with
  | start event =>
    cases h
    exact ⟨rfl, rfl, rfl, rfl⟩
  | oversized => exact lose_kept h
  | queue event =>
    obtain ⟨⟨outcome, ring⟩, hring, hs'⟩ := bind_eq_some_iff.mp h
    have hkept := ring_kept hring
    cases outcome with
    | accepted =>
      cases hs'
      exact hkept
    | overflowDropped first last | oversizedDropped seq => exact hkept.trans (lose_kept hs')

variable {epochMs monoNs : Int}

lemma pushEvent_kept {payload : Payload B}
    (h : pushEvent wire s payload epochMs monoNs = some (seq, s')) : Kept s s' := by
  unfold pushEvent at h
  split at h
  · cases h
    exact .refl s
  · split at h
    · cases h
    · split at h
      · cases h
      · obtain ⟨s₁, hplace, hs'⟩ := bind_eq_some_iff.mp h
        cases hs'
        have hkept := place_kept hplace
        exact ⟨hkept.expected, hkept.limits, hkept.capacity, hkept.maxBytes⟩

lemma pushAll_kept {payloads : List (Payload B)}
    (h : pushAll wire epochMs monoNs last s payloads = some (seq, s')) : Kept s s' := by
  induction payloads generalizing s last with
  | nil =>
    cases h
    exact .refl _
  | cons payload rest ih =>
    obtain ⟨⟨seq₁, s₁⟩, hpush, hrest⟩ := bind_eq_some_iff.mp h
    exact (pushEvent_kept hpush).trans (ih hrest)

lemma pushAll_of_finalized (hfinal : s.finalizedLocally = true) (payloads : List (Payload B))
    (last : Nat) : ∃ seq, pushAll wire epochMs monoNs last s payloads = some (seq, s) := by
  induction payloads generalizing last with
  | nil => exact ⟨last, rfl⟩
  | cons payload rest ih =>
    obtain ⟨seq, hrest⟩ := ih (s.nextSeq - 1)
    exact ⟨seq, bind_eq_some_iff.mpr ⟨_, if_pos hfinal, hrest⟩⟩

/-- The server's number does not fall, and a slot is freed only by its acknowledgement. -/
structure Onward (s s' : EventSession B) : Prop where
  expected : s.serverExpectedNextSeq ≤ s'.serverExpectedNextSeq
  finalizing : ∀ e, s.ring.finalizingSlot = some e →
    s'.ring.finalizingSlot = some e ∨ e.seq < s'.serverExpectedNextSeq
  terminal : ∀ e, s.ring.terminalSlot = some e →
    s'.ring.terminalSlot = some e ∨ e.seq < s'.serverExpectedNextSeq

lemma SameBooks.onward (h : SameBooks s s') : Onward s s' := by
  refine ⟨h.expected.ge, fun e he => .inl ?_, fun e he => .inl ?_⟩
  · rw [h.ring, he]
  · rw [h.ring, he]

lemma Answered.onward (h : Answered wire s s') (hs : Accounted wire s) : Onward s s' := by
  rcases h with hsame | ⟨expected, acked, dirty, hacks, rfl⟩
  · exact hsame.onward
  · -- what is acknowledged is below the number that the server expects next
    have hslot : ∀ (e : PendingEvent B) (slot : Option (PendingEvent B)), slot = some e →
        e.seq < s.nextSeq → RingBuffer.acknowledgeSlot acked slot = some e ∨ e.seq < expected := by
      intro e slot he hlt
      by_cases hle : expected ≤ e.seq
      · exact .inl (acknowledgeSlot_eq_some.mpr ⟨he, hacks.stops e.seq hle hlt⟩)
      · exact .inr (not_le.mp hle)
    refine ⟨hacks.le, fun e he => hslot e _ he ?_, fun e he => hslot e _ he ?_⟩
    · have := (hs.finalizing e he).2.1
      omega
    · have := (hs.terminal e he).2.1
      omega

lemma step_onward (hs : Accounted wire s) {op : SessionOp B} (h : step wire s op = some s') :
    Onward s s' := by
  cases op with
  | ordinary payload epochMs monoNs =>
    obtain ⟨⟨seq, s₁⟩, hpush, rfl⟩ := map_eq_some_iff.mp h
    have hsame := s.sameBooks_unfold payload
    have hexpected := (pushAll_kept hpush).expected.trans hsame.expected
    -- a slot is taken only once the run has ended
    have hslot : s.finalizedLocally = true → s₁.ring = s.ring := by
      intro hfinal
      obtain ⟨_, heq⟩ := pushAll_of_finalized (hsame.finalized.trans hfinal) (s.unfold payload).1 _
      cases heq.symm.trans hpush
      exact hsame.ring
    refine ⟨hexpected.ge, fun e he => .inl ?_, fun e he => .inl ?_⟩
    · rw [hslot (hs.finalizing e he).1, he]
    · rw [hslot (hs.terminal e he).1, he]
  | terminal result epochMs monoNs =>
    obtain ⟨⟨seq, s₁⟩, hpush, rfl⟩ := map_eq_some_iff.mp h
    unfold pushTerminal at hpush
    split at hpush
    · cases hpush
      exact (SameBooks.refl s).onward
    next hfinal =>
      have hnone := hs.slots_none (Bool.eq_false_iff.mpr hfinal)
      split at hpush
      · cases hpush
      · cases hpush
        refine ⟨le_refl _, fun e he => ?_, fun e he => ?_⟩
        · exact nomatch hnone.1.symm.trans he
        · exact nomatch hnone.2.symm.trans he
  | producerLoss count =>
    cases h
    exact SameBooks.onward ⟨rfl, rfl, rfl, rfl, rfl, rfl⟩
  | batch =>
    cases h
    exact (sameBooks_nextBatch wire s).onward
  | ack ack =>
    obtain ⟨action, s₁, hrun, hanswered, -⟩ := handleAck_spec hs ack
    obtain ⟨⟨action', s₂⟩, hrun', rfl⟩ := map_eq_some_iff.mp h
    cases hrun.symm.trans hrun'
    exact hanswered.onward hs
  | runAck ack =>
    obtain ⟨action, s₁, hrun, hanswered, -⟩ := handleGetRunAck_spec hs ack
    obtain ⟨⟨action', s₂⟩, hrun', rfl⟩ := map_eq_some_iff.mp h
    cases hrun.symm.trans hrun'
    exact hanswered.onward hs

/-! ## The books of every session -/

/-- Every number is in one place, and operations keep to their rules. -/
structure Sound (wire : Wire B) (s : EventSession B) : Prop where
  placed : ∀ n, s.serverExpectedNextSeq ≤ n → n < s.nextSeq → ∃! p, At s n p
  expected_le : s.serverExpectedNextSeq ≤ s.nextSeq
  onward : ∀ op s', step wire s op = some s' → Onward s s'
  rejectedBatch : ∀ ack s', handleAck wire s ack = some (.invalidRejected, s') → s' = s
  rejectedRun : ∀ ack s', handleGetRunAck wire s ack = some (.invalidRejected, s') → s' = s
  ends : ∀ result epochMs monoNs seq s', s.finalizedLocally = false →
    pushTerminal s result epochMs monoNs = some (seq, s') →
      s'.ring.terminalSlot = some ⟨seq, ⟨seq, epochMs, monoNs, .runCompleted result⟩⟩

lemma Accounted.sound (h : Accounted wire s) : Sound wire s where
  placed := by
    intro n hle hlt
    obtain ⟨p, hp⟩ := h.exists_place hle hlt
    exact ⟨p, hp, fun q hq => h.place_unique hq hp⟩
  expected_le := h.expected_le
  onward := fun _ _ hstep => step_onward h hstep
  rejectedBatch := by
    intro ack s' hrun
    obtain ⟨action, s₁, hrun', -, hsame⟩ := handleAck_spec h ack
    cases hrun'.symm.trans hrun
    exact hsame rfl
  rejectedRun := by
    intro ack s' hrun
    obtain ⟨action, s₁, hrun', -, hsame⟩ := handleGetRunAck_spec h ack
    cases hrun'.symm.trans hrun
    exact hsame rfl
  ends := by
    intro result epochMs monoNs seq s' hfinal hpush
    unfold pushTerminal at hpush
    rw [if_neg (by rw [hfinal]; exact Bool.false_ne_true)] at hpush
    split at hpush
    · cases hpush
    · cases hpush
      rfl

/-- A run of a session goes through without a panic if and only if each push leaves the ring by
consecutive numbers and there are numbers left; and whatever is reached is in order. -/
theorem session_sound_iff_clear (wire : Wire B) (runId : Text) (limits : SessionLimits)
    (ops : List (SessionOp B)) :
    ((∃ s, run wire (new runId limits) ops = some s) ↔ ClearRun wire (new runId limits) ops) ∧
      ∀ s, run wire (new runId limits) ops = some s → Sound wire s := by
  obtain ⟨hiff, hkeeps⟩ := run_spec (accounted_new wire runId limits) ops
  exact ⟨hiff, fun s hs => (hkeeps s hs).sound⟩

def sizedWire : Wire Nat where
  encodedLen event :=
    match event.payload with
    | .other size => size
    | _ => 1
  fitAction _ _ body := body

/-- An event is too large, and later the events on both sides of it have to go for another. -/
theorem straddling_push_panics : run sizedWire (new [] ⟨4, 4, 5, 100, 4, 6⟩)
        [.ordinary (.other 2) 0 0, .ordinary (.other 9) 0 0, .ordinary (.other 2) 0 0,
          .ordinary (.other 5) 0 0] = none := by
  decide

def isDrained (s : EventSession B) : Bool :=
  s.started.isNone && s.ring.isEmpty && s.loss.isEmpty && !s.producerLossDirty

/-- The server has every number, and the count of what producers lost. -/
theorem isDrained_iff (wire : Wire B) {runId : Text} {limits : SessionLimits}
    (ops : List (SessionOp B)) (h : run wire (new runId limits) ops = some s) :
    s.isDrained ↔ s.serverExpectedNextSeq = s.nextSeq ∧ s.producerLossDirty = false := by
  have hs := (run_spec (accounted_new wire _ _) ops).2 s h
  simp only [isDrained, RingBuffer.isEmpty, LossIntervals.isEmpty, Bool.and_eq_true,
    isNone_iff_eq_none, eq_none_iff_forall_ne_some, List.isEmpty_iff,
      List.eq_nil_iff_forall_not_mem]
  constructor
  · intro hd
    by_contra hne
    obtain ⟨p, hp⟩ := hs.exists_place le_rfl (by grind [hs.expected_le])
    cases p <;> simp_all [At]
  · intro hall
    have hlost := fun i hi => hs.lost_range i.first _
      ⟨i, hi, ⟨le_rfl, s.loss.separate.nonempty i hi⟩, rfl⟩
    grind [ordinaryEnd, → hs.start, → hs.ring_range, → hs.finalizing, → hs.terminal]

def pushAndSend : List (SessionOp Nat) := [.ordinary (.other 2) 0 0, .batch]

/-- A session that pushed and sent an event is drained once that is acknowledged. -/
theorem isDrained_acknowledged :
    (∃ s, run sizedWire (new [] ⟨4, 4, 5, 9, 4, 6⟩) pushAndSend = some s ∧ ¬s.isDrained) ∧
    ∃ s, run sizedWire (new [] ⟨4, 4, 5, 9, 4, 6⟩)
      (pushAndSend ++ [.ack ⟨[], .accepted, 1, 2, 0⟩]) = some s ∧ s.isDrained := by
  refine ⟨?_, ?_⟩
  · obtain ⟨s, hs⟩ : ∃ s, run sizedWire (new [] ⟨4, 4, 5, 9, 4, 6⟩) pushAndSend = some s := ⟨_, rfl⟩
    refine ⟨s, hs, (isDrained_iff sizedWire _ hs).not.mpr ?_⟩
    cases hs
    decide
  · obtain ⟨s, hs⟩ : ∃ s, run sizedWire (new [] ⟨4, 4, 5, 9, 4, 6⟩)
        (pushAndSend ++ [.ack ⟨[], .accepted, 1, 2, 0⟩]) = some s := ⟨_, rfl⟩
    refine ⟨s, hs, (isDrained_iff sizedWire _ hs).mpr ?_⟩
    cases hs
    decide

end EventSession

end OnceBuild.Events
