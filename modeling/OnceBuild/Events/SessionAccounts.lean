import OnceBuild.Events.SessionRuns

/-!
# What a session keeps to

The server only moves the session on, and what it acknowledges is what the session lets go of.
Together with the pushes this gives the books of every session that can be reached, and the runs
that go through without a panic.
-/

namespace OnceBuild.Events

open Lib Option List
open RingBuffer (totalLen toEvict toKeep full leastFrom greatestFrom acknowledgeSlot)

variable {B : Type} {wire : Wire B} {s s' : EventSession B}

namespace EventSession

/-! ## Acknowledgements -/

/-- The numbers below `expected` are acknowledged, and none of the others. -/
structure Acks (s : EventSession B) (expected acked : Nat) : Prop where
  le : s.serverExpectedNextSeq ≤ expected
  next : expected ≤ s.nextSeq
  reaches : expected ≤ acked + 1
  stops : ∀ n, expected ≤ n → n < s.nextSeq → acked < n

def acknowledged (wire : Wire B) (s : EventSession B) (expected acked : Nat) : EventSession B :=
  { s with
    serverExpectedNextSeq := expected
    started := if 1 ≤ acked then none else s.started
    ring :=
      { s.ring with
        events := s.ring.events.dropWhile fun e => decide (e.seq ≤ acked)
        encodedBytes := totalLen wire (s.ring.events.dropWhile fun e => decide (e.seq ≤ acked))
        finalizingSlot := acknowledgeSlot acked s.ring.finalizingSlot
        terminalSlot := acknowledgeSlot acked s.ring.terminalSlot }
    loss := s.loss.acknowledgeUpTo acked }

lemma acknowledgeUpTo_eq (h : Accounted wire s) (expected acked : Nat) (dirty : Bool) :
    acknowledgeUpTo wire { s with serverExpectedNextSeq := expected, producerLossDirty := dirty }
        acked =
      some { acknowledged wire s expected acked with producerLossDirty := dirty } := by
  unfold acknowledgeUpTo RingBuffer.acknowledgeUpTo
  rw [h.encodedBytes_eq, RingBuffer.acknowledgeLoop_eq]
  rfl

variable {acked : Nat}

lemma mem_dropWhile_seq {events : List (PendingEvent B)}
    (h : events.Pairwise fun a b => a.seq < b.seq) {e : PendingEvent B} :
    e ∈ events.dropWhile (fun e => decide (e.seq ≤ acked)) ↔ e ∈ events ∧ acked < e.seq := by
  induction events with
  | nil => simp
  | cons x events ih =>
    obtain ⟨hx, hrest⟩ := pairwise_cons.mp h
    by_cases hle : x.seq ≤ acked
    · rw [dropWhile_cons, if_pos (decide_eq_true hle), ih hrest]
      constructor
      · rintro ⟨he, hlt⟩
        exact ⟨mem_cons_of_mem _ he, hlt⟩
      · rintro ⟨he, hlt⟩
        rcases mem_cons.mp he with rfl | he
        · omega
        · exact ⟨he, hlt⟩
    · rw [dropWhile_cons, if_neg (by simpa using hle)]
      constructor
      · intro he
        refine ⟨he, ?_⟩
        rcases mem_cons.mp he with rfl | he
        · omega
        · have := hx e he
          omega
      · exact And.left

lemma acknowledgeSlot_eq_some {slot : Option (PendingEvent B)} {e : PendingEvent B} :
    acknowledgeSlot acked slot = some e ↔ slot = some e ∧ acked < e.seq := by
  unfold acknowledgeSlot
  rw [filter_eq_some_iff, decide_eq_true_eq]

lemma ordinaryEnd_le (s : EventSession B) : s.ordinaryEnd ≤ s.nextSeq := by
  unfold ordinaryEnd
  split
  · exact Nat.sub_le _ _
  · exact le_refl _

variable {expected : Nat}

lemma Accounted.acknowledged (h : Accounted wire s) (hacks : Acks s expected acked) :
    Accounted wire (s.acknowledged wire expected acked) := by
  have hend : (s.acknowledged wire expected acked).ordinaryEnd = s.ordinaryEnd := rfl
  have hring : ∀ e, e ∈ (s.acknowledged wire expected acked).ring.events ↔
      e ∈ s.ring.events ∧ acked < e.seq := fun e => mem_dropWhile_seq h.ring_order
  have hlost : ∀ n r, (s.acknowledged wire expected acked).loss.Lost n r ↔
      s.loss.Lost n r ∧ acked < n := s.loss.lost_acknowledgeUpTo acked
  have hle := hacks.le
  have hreaches := hacks.reaches
  have hpos := h.expected_pos
  have hbelow := s.ordinaryEnd_le
  exact { h with
    expected_pos := hpos.trans hle
    expected_le := hacks.next
    encodedBytes_eq := rfl
    stamped := fun e he => h.stamped e ((hring e).mp he).1
    ring_order := h.ring_order.sublist (dropWhile_sublist _)
    ring_range := by
      intro e he
      obtain ⟨he, hlt⟩ := (hring e).mp he
      have := h.ring_range e he
      change expected ≤ e.seq ∧ _
      omega
    lost_range := by
      intro n r hl
      obtain ⟨hl, hlt⟩ := (hlost n r).mp hl
      have := h.lost_range n r hl
      change expected ≤ n ∧ _
      omega
    apart := fun e he r hl => h.apart e ((hring e).mp he).1 r ((hlost _ r).mp hl).1
    overflow_before := fun n hl e he =>
      h.overflow_before n ((hlost n _).mp hl).1 e ((hring e).mp he).1
    start := by
      intro e he
      change (if 1 ≤ acked then none else s.started) = some e at he
      split at he
      · cases he
      next hzero =>
        obtain ⟨hseq, hexpected, hone, hrings, hlosts⟩ := h.start e he
        refine ⟨hseq, ?_, hone, fun e' he' => hrings e' ((hring e').mp he').1,
          fun n r hl => hlosts n r ((hlost n r).mp hl).1⟩
        change expected = 1
        omega
    finalizing := by
      intro e he
      obtain ⟨he, hlt⟩ := acknowledgeSlot_eq_some.mp he
      obtain ⟨hfinal, hseq, hstamped, -⟩ := h.finalizing e he
      refine ⟨hfinal, hseq, hstamped, ?_⟩
      change expected ≤ e.seq
      omega
    terminal := by
      intro e he
      obtain ⟨he, hlt⟩ := acknowledgeSlot_eq_some.mp he
      obtain ⟨hfinal, hseq, hstamped, -⟩ := h.terminal e he
      refine ⟨hfinal, hseq, hstamped, ?_⟩
      change expected ≤ e.seq
      omega
    held := by
      intro n hn hlt
      have hkeep : acked < n := hacks.stops n hn (by omega)
      rcases h.held n (by omega) hlt with ⟨e, he, hseq⟩ | ⟨e, he, hseq⟩ | ⟨r, hl⟩
      · refine .inl ⟨e, ?_, hseq⟩
        change (if 1 ≤ acked then none else s.started) = some e
        rw [if_neg, he]
        have := (h.start e he).1
        omega
      · exact .inr (.inl ⟨e, (hring e).mpr ⟨he, by omega⟩, hseq⟩)
      · exact .inr (.inr ⟨r, (hlost n r).mpr ⟨hl, hkeep⟩⟩)
    held_finalizing := by
      intro hf hn
      change expected + 2 ≤ s.nextSeq at hn
      obtain ⟨e, he⟩ := h.held_finalizing hf (by omega)
      have hseq := (h.finalizing e he).2.1
      exact ⟨e, acknowledgeSlot_eq_some.mpr ⟨he, hacks.stops e.seq (by omega) (by omega)⟩⟩
    held_terminal := by
      intro hf hn
      change expected + 1 ≤ s.nextSeq at hn
      obtain ⟨e, he⟩ := h.held_terminal hf (by omega)
      have hseq := (h.terminal e he).2.1
      exact ⟨e, acknowledgeSlot_eq_some.mpr ⟨he, hacks.stops e.seq (by omega) (by omega)⟩⟩ }

lemma Accounted.acks (h : Accounted wire s) {runId : Text}
    (hrefuses : s.refuses runId acked expected = false) : Acks s expected acked := by
  unfold refuses at hrefuses
  simp only [Bool.or_eq_false_iff, decide_eq_false_iff_not] at hrefuses
  have hmax := h.next_le
  refine ⟨by omega, by omega, by omega, fun n hn hlt => ?_⟩
  -- the number saturates only where nothing is left to acknowledge
  omega

lemma Acks.pred (h : Acks s expected acked) (hpos : 0 < expected) :
    Acks s expected (expected - 1) :=
  ⟨h.le, h.next, by omega, fun n hn _ => by omega⟩

structure SameBooks (s s' : EventSession B) : Prop where
  nextSeq : s'.nextSeq = s.nextSeq
  expected : s'.serverExpectedNextSeq = s.serverExpectedNextSeq
  ring : s'.ring = s.ring
  started : s'.started = s.started
  loss : s'.loss = s.loss
  finalized : s'.finalizedLocally = s.finalizedLocally

lemma SameBooks.accounted (hsame : SameBooks s s') (h : Accounted wire s) : Accounted wire s' :=
  h.of_eq hsame.nextSeq hsame.expected hsame.ring hsame.started hsame.loss hsame.finalized

lemma SameBooks.refl (s : EventSession B) : SameBooks s s := ⟨rfl, rfl, rfl, rfl, rfl, rfl⟩

/-- The session moved on with an acknowledgement, or kept its books. -/
def Answered (wire : Wire B) (s s' : EventSession B) : Prop :=
  SameBooks s s' ∨ ∃ expected acked dirty, Acks s expected acked ∧
    s' = { s.acknowledged wire expected acked with producerLossDirty := dirty }

lemma handleAck_spec (h : Accounted wire s) (ack : BatchAck) :
    ∃ action s', handleAck wire s ack = some (action, s') ∧ Answered wire s s' ∧
      (action = .invalidRejected → s' = s) := by
  unfold handleAck
  cases hrefuses : s.refuses ack.runId ack.ackedSeq ack.expectedNextSeq with
  | true => exact ⟨_, _, rfl, .inl (.refl s), fun _ => rfl⟩
  | false =>
    have hacks := h.acks hrefuses
    cases ack.disposition with
    | unspecified | rejectedInvalid => exact ⟨_, _, rfl, .inl (.refl s), fun _ => rfl⟩
    | needsResync => exact ⟨_, _, rfl, .inl (.refl s), nofun⟩
    | accepted =>
      have hrun := acknowledgeUpTo_eq h ack.expectedNextSeq ack.ackedSeq s.producerLossDirty
      refine ⟨_, _, bind_eq_some_iff.mpr ⟨_, hrun, rfl⟩, .inr ⟨_, _, _, hacks, rfl⟩, ?_⟩
      exact nofun
    | rejectedStale =>
      have hpos : 0 < ack.expectedNextSeq := h.expected_pos.trans hacks.le
      have hrun := acknowledgeUpTo_eq h ack.expectedNextSeq (ack.expectedNextSeq - 1)
        s.producerLossDirty
      rw [decide_eq_true hpos]
      refine ⟨_, _, bind_eq_some_iff.mpr ⟨_, hrun, rfl⟩, .inr ⟨_, _, _, hacks.pred hpos, rfl⟩, ?_⟩
      exact nofun

lemma handleGetRunAck_spec (h : Accounted wire s) (ack : RunEventAck) :
    ∃ action s', handleGetRunAck wire s ack = some (action, s') ∧ Answered wire s s' ∧
      (action = .invalidRejected → s' = s) := by
  unfold handleGetRunAck
  cases hrefuses : s.refuses ack.runId ack.ackedSeq ack.expectedNextSeq with
  | true => exact ⟨_, _, rfl, .inl (.refl s), fun _ => rfl⟩
  | false =>
    have hacks := h.acks hrefuses
    by_cases hpos : 0 < ack.ackedSeq
    · have hrun := acknowledgeUpTo_eq h ack.expectedNextSeq ack.ackedSeq
        (decide (0 < s.producerDroppedEvents))
      rw [decide_eq_true hpos]
      refine ⟨_, _, bind_eq_some_iff.mpr ⟨_, hrun, rfl⟩, .inr ⟨_, _, _, hacks, rfl⟩, ?_⟩
      exact nofun
    · -- the server has nothing yet
      have hexpected : ack.expectedNextSeq = s.serverExpectedNextSeq := by
        have := hacks.le
        have := hacks.reaches
        have := h.expected_pos
        omega
      rw [decide_eq_false hpos]
      refine ⟨_, _, bind_eq_some_iff.mpr ⟨_, rfl, rfl⟩,
        .inl ⟨rfl, hexpected, rfl, rfl, rfl, rfl⟩, ?_⟩
      exact nofun

lemma Answered.accounted (h : Answered wire s s') (hs : Accounted wire s) : Accounted wire s' := by
  rcases h with hsame | ⟨expected, acked, dirty, hacks, rfl⟩
  · exact hsame.accounted hs
  · exact (hs.acknowledged hacks).of_eq rfl rfl rfl rfl rfl rfl

lemma sameBooks_nextBatch (wire : Wire B) (s : EventSession B) :
    SameBooks s (nextBatch wire s).2 := by
  unfold nextBatch
  split
  · exact .refl s
  · split
    · exact ⟨rfl, rfl, rfl, rfl, rfl, rfl⟩
    · split
      · exact .refl s
      · exact ⟨rfl, rfl, rfl, rfl, rfl, rfl⟩

/-! ## The end of a run -/

lemma pushTerminal_spec (h : Accounted wire s) (result : B) (epochMs monoNs : Int) :
    GoesThrough (pushTerminal s result epochMs monoNs)
      (s.finalizedLocally = true ∨ s.nextSeq + 2 ≤ u64Max) fun r => Accounted wire r.2 := by
  unfold pushTerminal
  by_cases hfinal : s.finalizedLocally = true
  · rw [if_pos hfinal]
    exact .done (.inl hfinal) h
  rw [if_neg hfinal]
  have hnot : s.finalizedLocally = false := Bool.eq_false_iff.mpr hfinal
  obtain ⟨hfree, -⟩ := h.slots_none hnot
  by_cases hmax : u64Max < s.nextSeq + 2
  · rw [if_pos hmax]
    exact .fails (by simp [hfinal, not_le.mpr hmax])
  rw [if_neg hmax]
  refine .done (.inr (not_lt.mp hmax)) ?_
  have hend := ordinaryEnd_of_not hnot
  have hpos := h.expected_pos
  have hle := h.expected_le
  -- the ordinary numbers end where they did
  refine { h with
    expected_pos := hpos
    expected_le := by exact hle.trans (Nat.le_add_right _ 2)
    next_le := by exact not_lt.mp hmax
    ring_range := fun e he => ?_
    lost_range := fun n r hl => ?_
    start := fun e he => ?_
    finalized := fun _ => ?_
    finalizing := fun e he => ?_
    terminal := fun e he => ?_
    held := fun n hn hlt => ?_
    held_finalizing := fun _ _ => ⟨_, rfl⟩
    held_terminal := fun _ _ => ⟨_, rfl⟩ }
  · have := h.ring_range e he
    rw [hend] at this
    exact this
  · have := h.lost_range n r hl
    rw [hend] at this
    exact this
  · obtain ⟨hseq, hexpected, hone, hrest⟩ := h.start e he
    rw [hend] at hone
    exact ⟨hseq, hexpected, hone, hrest⟩
  · change 3 ≤ s.nextSeq + 2
    omega
  · -- the slot was free
    change some (s.ring.finalizingSlot.getD _) = some e at he
    rw [hfree] at he
    cases he
    exact ⟨rfl, rfl, rfl, hle⟩
  · cases he
    exact ⟨rfl, rfl, rfl, Nat.le_succ_of_le hle⟩
  · refine h.held n hn ?_
    rw [hend]
    exact hlt

/-! ## Runs -/

/-- Each of the events can be pushed when its turn comes. -/
def ClearAll (wire : Wire B) (epochMs monoNs : Int) : EventSession B → List (Payload B) → Prop
  | _, [] => True
  | s, payload :: rest =>
    Clear wire s payload epochMs monoNs ∧
      ∀ seq s', pushEvent wire s payload epochMs monoNs = some (seq, s') →
        ClearAll wire epochMs monoNs s' rest

def ClearOp (wire : Wire B) (s : EventSession B) : SessionOp B → Prop
  | .ordinary payload epochMs monoNs =>
    ClearAll wire epochMs monoNs (s.unfold payload).2 (s.unfold payload).1
  | .terminal _ _ _ => s.finalizedLocally = true ∨ s.nextSeq + 2 ≤ u64Max
  | _ => True

/-- Each operation of a run goes through when its turn comes. -/
def ClearRun (wire : Wire B) : EventSession B → List (SessionOp B) → Prop
  | _, [] => True
  | s, op :: rest => ClearOp wire s op ∧ ∀ s', step wire s op = some s' → ClearRun wire s' rest

lemma sameBooks_unfold (s : EventSession B) (payload : Payload B) :
    SameBooks s (s.unfold payload).2 := by
  unfold EventSession.unfold
  split
  · split
    · exact .refl s
    · exact ⟨rfl, rfl, rfl, rfl, rfl, rfl⟩
  · exact .refl s

lemma pushAll_spec (epochMs monoNs : Int) (h : Accounted wire s) (last : Nat)
    (payloads : List (Payload B)) :
    GoesThrough (pushAll wire epochMs monoNs last s payloads)
      (ClearAll wire epochMs monoNs s payloads) fun r => Accounted wire r.2 := by
  induction payloads generalizing s last with
  | nil => exact .done trivial h
  | cons payload rest ih =>
    refine ((pushEvent_spec h payload epochMs monoNs).bind fun r hr => ih hr r.1).congr ?_
    simp only [ClearAll, Prod.forall]

/-- An operation goes through if and only if it is clear, and keeps the books. -/
lemma step_spec (h : Accounted wire s) (op : SessionOp B) :
    GoesThrough (step wire s op) (ClearOp wire s op) (Accounted wire) := by
  -- what the server says is always taken in
  have hanswer : ∀ {α : Type} {x : Option (α × EventSession B)} {P : α → EventSession B → Prop},
      (∃ action s', x = some (action, s') ∧ Answered wire s s' ∧ P action s') →
        GoesThrough (x.map Prod.snd) True (Accounted wire) := by
    rintro α x P ⟨action, s₁, rfl, hanswered, -⟩
    exact .done trivial (hanswered.accounted h)
  cases op with
  | ordinary payload epochMs monoNs =>
    exact (pushAll_spec epochMs monoNs ((s.sameBooks_unfold payload).accounted h)
      (s.nextSeq - 1) (s.unfold payload).1).map fun _ hr => hr
  | terminal result epochMs monoNs =>
    exact (pushTerminal_spec h result epochMs monoNs).map fun _ hr => hr
  | producerLoss count => exact .done trivial (h.of_eq rfl rfl rfl rfl rfl rfl)
  | batch => exact .done trivial ((sameBooks_nextBatch wire s).accounted h)
  | ack ack => exact hanswer (handleAck_spec h ack)
  | runAck ack => exact hanswer (handleGetRunAck_spec h ack)

lemma run_spec (h : Accounted wire s) (ops : List (SessionOp B)) :
    GoesThrough (run wire s ops) (ClearRun wire s ops) (Accounted wire) := by
  induction ops generalizing s with
  | nil => exact .done trivial h
  | cons op rest ih =>
    have hbind : run wire s (op :: rest) = (step wire s op).bind (run wire · rest) := by
      rw [run]
      cases step wire s op <;> rfl
    rw [hbind]
    exact (step_spec h op).bind fun s' hs' => ih hs'

end EventSession

end OnceBuild.Events
