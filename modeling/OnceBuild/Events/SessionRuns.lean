import OnceBuild.Events.Accounting

/-!
# Runs of a session

What each operation does to the bookkeeping, and when it panics.
-/

namespace OnceBuild.Events

open Lib List Option
open RingBuffer (totalLen toEvict toKeep full leastFrom greatestFrom)

variable {B : Type} {wire : Wire B} {s s' : EventSession B}

namespace EventSession

lemma Accounted.of_eq (h : Accounted wire s) (hnext : s'.nextSeq = s.nextSeq)
    (hexpected : s'.serverExpectedNextSeq = s.serverExpectedNextSeq) (hring : s'.ring = s.ring)
    (hstarted : s'.started = s.started) (hloss : s'.loss = s.loss)
    (hfinal : s'.finalizedLocally = s.finalizedLocally) : Accounted wire s' := by
  cases s
  cases hnext
  cases hexpected
  cases hring
  cases hstarted
  cases hloss
  cases hfinal
  exact ⟨h.1, h.2, h.3, h.4, h.5, h.6, h.7, h.8, h.9, h.10, h.11, h.12, h.13, h.14, h.15, h.16,
    h.17, h.18⟩

/-! ## Ordinary events -/

def displaced (wire : Wire B) (ring : RingBuffer B) (event : RunEvent B) : List (PendingEvent B) :=
  if ring.maxEncodedBytes < wire.encodedLen event then []
  else toEvict wire ring.ordinaryCapacity ring.maxEncodedBytes (wire.encodedLen event) ring.events

/-- The push of an event goes through: there is a number left, and the events that it displaces have
consecutive numbers. -/
def Clear (wire : Wire B) (s : EventSession B) (payload : Payload B) (epochMs monoNs : Int) :
    Prop :=
  s.finalizedLocally = true ∨ (payload.isRunCompleted = false ∧ s.nextSeq < u64Max ∧
      ∀ event, placement wire s.limits ⟨s.nextSeq, epochMs, monoNs, payload⟩ = .queue event →
        Consecutive ((displaced wire s.ring event).map PendingEvent.seq))

lemma present_seq (limits : SessionLimits) (event : RunEvent B) :
    (present wire limits event).seq = event.seq := by
  unfold present
  split <;> rfl

lemma placement_cases (limits : SessionLimits) (event : RunEvent B) :
    (placement wire limits event = .start event ∧ event.seq = 1) ∨
      placement wire limits event = .oversized ∨
      ∃ queued, placement wire limits event = .queue queued ∧ queued.seq = event.seq := by
  unfold placement
  split
  next hstart => exact .inl ⟨rfl, hstart.1⟩
  · split
    · exact .inr (.inl rfl)
    · exact .inr (.inr ⟨_, rfl, present_seq limits event⟩)

variable {seqs : List Nat}

lemma leastFrom_of_le {first : Nat} (h : ∀ n ∈ seqs, first ≤ n) : leastFrom first seqs = first := by
  induction seqs with
  | nil => rfl
  | cons n seqs ih =>
    have hn := h n mem_cons_self
    unfold leastFrom
    rw [foldl_cons, if_neg (not_lt.mpr hn)]
    exact ih fun m hm => h m (mem_cons_of_mem _ hm)

lemma leastFrom_sorted {n : Nat} (h : (n :: seqs).Pairwise (· < ·)) (hn : n ≤ u64Max) :
    leastFrom u64Max (n :: seqs) = n := by
  have hfirst : (if n < u64Max then n else u64Max) = n := by
    split <;> omega
  unfold leastFrom
  rw [foldl_cons, hfirst]
  exact leastFrom_of_le fun m hm => ((pairwise_cons.mp h).1 m hm).le

lemma greatestFrom_sorted {n : Nat} (h : (n :: seqs).Pairwise (· < ·)) {last : Nat}
    (hlast : last ≤ n) : greatestFrom last (n :: seqs) = seqs.getLastD n := by
  have hfirst : (if last < n then n else last) = n := by
    split <;> omega
  unfold greatestFrom
  rw [foldl_cons, hfirst]
  induction seqs generalizing n with
  | nil => rfl
  | cons m seqs ih =>
    obtain ⟨hn, hrest⟩ := pairwise_cons.mp h
    have hm := hn m mem_cons_self
    rw [foldl_cons, if_pos hm, getLastD_cons]
    exact ih hrest (by omega) (if_pos (by omega))

lemma enqueue_eq (h : Accounted wire s) (seq : Nat) (event : RunEvent B) :
    enqueue wire { s with nextSeq := s.nextSeq + 1 } ⟨seq, event⟩ =
      if s.ring.maxEncodedBytes < wire.encodedLen event then
        lose { s with nextSeq := s.nextSeq + 1 } seq seq .bufferByteLimit
      else if full s.ring.ordinaryCapacity s.ring.maxEncodedBytes (wire.encodedLen event)
          s.ring.events.length s.ring.encodedBytes = true then
        lose
          { withEvents wire s (toKeep wire s.ring.ordinaryCapacity s.ring.maxEncodedBytes
              (wire.encodedLen event) s.ring.events ++ [⟨seq, event⟩]) with
            nextSeq := s.nextSeq + 1 }
          (leastFrom u64Max ((displaced wire s.ring event).map PendingEvent.seq))
          (greatestFrom 0 ((displaced wire s.ring event).map PendingEvent.seq)) .bufferOverflow
      else
        some { withEvents wire s (s.ring.events ++ [⟨seq, event⟩]) with
          nextSeq := s.nextSeq + 1 } := by
  have hlen : ∀ events : List (PendingEvent B),
      totalLen wire (events ++ [⟨seq, event⟩]) = totalLen wire events + wire.encodedLen event := by
    intro events
    rw [RingBuffer.totalLen_append]
    rfl
  unfold enqueue RingBuffer.pushOrdinary
  by_cases hsize : s.ring.maxEncodedBytes < wire.encodedLen event
  · simp only [hsize, if_true]
    rfl
  · simp only [hsize, if_false]
    by_cases hfull : full s.ring.ordinaryCapacity s.ring.maxEncodedBytes (wire.encodedLen event)
        s.ring.events.length s.ring.encodedBytes = true
    · simp only [hfull, if_true]
      rw [h.encodedBytes_eq, RingBuffer.evict_eq wire h.capacity_pos (not_lt.mp hsize)]
      simp only [withEvents, displaced, if_neg hsize, hlen]
      rfl
    · simp only [hfull]
      rw [h.encodedBytes_eq]
      simp only [withEvents, hlen]
      rfl

variable {event : RunEvent B}

section

variable (h : Accounted wire s)
include h

lemma exists_displaced (hsize : ¬s.ring.maxEncodedBytes < wire.encodedLen event)
    (hfull : full s.ring.ordinaryCapacity s.ring.maxEncodedBytes (wire.encodedLen event)
      s.ring.events.length s.ring.encodedBytes = true) :
    ∃ e rest, displaced wire s.ring event = e :: rest := by
  unfold displaced
  rw [if_neg hsize]
  rw [h.encodedBytes_eq] at hfull
  cases hevents : s.ring.events with
  | nil =>
    -- an empty ring has room
    rw [hevents] at hfull
    unfold full at hfull
    rw [Bool.or_eq_true, decide_eq_true_eq, decide_eq_true_eq] at hfull
    have hcapacity := h.capacity_pos
    simp only [length_nil, RingBuffer.totalLen_nil] at hfull
    omega
  | cons e rest =>
    rw [hevents] at hfull
    refine ⟨e, toEvict wire s.ring.ordinaryCapacity s.ring.maxEncodedBytes
      (wire.encodedLen event) rest, ?_⟩
    exact if_pos hfull

lemma displaced_eq_nil
    (hroom : ¬full s.ring.ordinaryCapacity s.ring.maxEncodedBytes (wire.encodedLen event)
      s.ring.events.length s.ring.encodedBytes = true) : displaced wire s.ring event = [] := by
  unfold displaced
  split
  · rfl
  · rw [h.encodedBytes_eq] at hroom
    cases hevents : s.ring.events with
    | nil => rfl
    | cons e rest =>
      rw [hevents] at hroom
      exact if_neg hroom

/-- The numbers that are displaced are recorded without a panic if and only if they are
consecutive. -/
lemma record_displaced {dropped kept : List (PendingEvent B)}
    {e : PendingEvent B} (hsplit : s.ring.events = (e :: dropped) ++ kept) :
    (∃ loss, s.loss.record e.seq ((dropped.map PendingEvent.seq).getLastD e.seq) .bufferOverflow
        = some loss) ↔
      Consecutive ((e :: dropped).map PendingEvent.seq) := by
  have hmem : ∀ x ∈ e :: dropped, x ∈ s.ring.events := by
    intro x hx
    rw [hsplit]
    exact mem_append_left _ hx
  have horder : ((e :: dropped).map PendingEvent.seq).Pairwise (· < ·) := by
    have hring := h.ring_order
    rw [hsplit] at hring
    exact pairwise_map.mpr (pairwise_append.mp hring).1
  have hlast := le_getLastD horder
  constructor
  · rintro ⟨loss, hloss⟩
    by_contra hnot
    -- a hole in the ring was lost before, and not for want of room
    obtain ⟨n, hfirst, hn, hhole⟩ := exists_hole horder hnot
    have hrange := h.ring_range e (hmem e mem_cons_self)
    have hend : n < s.ordinaryEnd := by
      have hlastmem : (dropped.map PendingEvent.seq).getLastD e.seq ∈
          (e :: dropped).map PendingEvent.seq := by
        rw [getLastD_eq_getLast?]
        cases hl : (dropped.map PendingEvent.seq).getLast? with
        | none => exact mem_cons_self
        | some m => exact mem_cons_of_mem _ (mem_of_getLast? hl)
      obtain ⟨x, hx, hxseq⟩ := mem_map.mp hlastmem
      have := (h.ring_range x (hmem x hx)).2
      omega
    have hlost : ∃ r, s.loss.Lost n r := by
      rcases h.held n (by omega) hend with ⟨start, hstart, hseq⟩ | ⟨x, hx, hxseq⟩ | hlost
      · -- the start event has the first number of all
        have hone := h.start start hstart
        omega
      · rw [hsplit] at hx
        rcases mem_append.mp hx with hx | hx
        · exact absurd (mem_map.mpr ⟨x, hx, hxseq⟩) hhole
        · -- what is kept comes after all that is displaced
          have hring := h.ring_order
          rw [hsplit] at hring
          have hafter := (pairwise_append.mp hring).2.2
          have : (dropped.map PendingEvent.seq).getLastD e.seq < x.seq := by
            rw [getLastD_eq_getLast?]
            cases hl : (dropped.map PendingEvent.seq).getLast? with
            | none => exact hafter e mem_cons_self x hx
            | some m =>
              obtain ⟨y, hy, rfl⟩ := mem_map.mp (mem_of_getLast? hl)
              exact hafter y (mem_cons_of_mem _ hy) x hx
          omega
      · exact hlost
    obtain ⟨r, hlost⟩ := hlost
    have hreason : r ≠ .bufferOverflow := by
      rintro rfl
      have := h.overflow_before n hlost e (hmem e mem_cons_self)
      omega
    have hpanic := s.loss.record_panics (h.apart e (hmem e mem_cons_self))
      ⟨hfirst.le, hn.le⟩ hlost hreason
    exact nomatch hloss.symm.trans hpanic
  · intro hconsecutive
    refine s.loss.exists_record hlast fun n r hfirst hn hlost => ?_
    have hn' : n ∈ (e :: dropped).map PendingEvent.seq := hconsecutive.mem hfirst hn
    obtain ⟨x, hx, rfl⟩ := mem_map.mp hn'
    exact absurd hlost (h.apart x (hmem x hx) r)

/-- Queueing an event goes through if and only if what it displaces is consecutive. -/
lemma enqueue_spec (hfinal : s.finalizedLocally = false)
    (hnext : s.nextSeq < u64Max) (hevent : event.seq = s.nextSeq) :
    GoesThrough (enqueue wire { s with nextSeq := s.nextSeq + 1 } ⟨s.nextSeq, event⟩)
      (Consecutive ((displaced wire s.ring event).map PendingEvent.seq)) (Accounted wire) := by
  rw [enqueue_eq h]
  by_cases hsize : s.ring.maxEncodedBytes < wire.encodedLen event
  · -- the event itself is dropped
    have hnone : displaced wire s.ring event = [] := if_pos hsize
    rw [if_pos hsize, hnone]
    obtain ⟨loss, hloss⟩ := h.exists_loseNext hfinal .bufferByteLimit
    have hlose : lose { s with nextSeq := s.nextSeq + 1 } s.nextSeq s.nextSeq .bufferByteLimit =
        some { s with nextSeq := s.nextSeq + 1, loss := loss } := by
      unfold lose
      rw [hloss]
      rfl
    rw [hlose]
    exact .done consecutive_nil (h.loseNext hfinal hnext (by exact nofun) hloss)
  · rw [if_neg hsize]
    by_cases hfull : full s.ring.ordinaryCapacity s.ring.maxEncodedBytes (wire.encodedLen event)
        s.ring.events.length s.ring.encodedBytes = true
    · rw [if_pos hfull]
      obtain ⟨e, dropped, hdisplaced⟩ := exists_displaced h hsize hfull
      have hsplit : s.ring.events = (e :: dropped) ++ toKeep wire s.ring.ordinaryCapacity
          s.ring.maxEncodedBytes (wire.encodedLen event) s.ring.events := by
        rw [← hdisplaced]
        unfold displaced
        rw [if_neg hsize]
        exact (prefix_iff_eq_append.mp (RingBuffer.toEvict_isPrefix wire _ _ _ _)).symm
      have he : e ∈ s.ring.events := by
        rw [hsplit]
        exact mem_append_left _ mem_cons_self
      have horder : ((e :: dropped).map PendingEvent.seq).Pairwise (· < ·) := by
        have hring := h.ring_order
        rw [hsplit] at hring
        exact pairwise_map.mpr (pairwise_append.mp hring).1
      have hbound : e.seq ≤ u64Max := by
        have := h.ring_lt_next hfinal he
        omega
      rw [hdisplaced, map_cons, leastFrom_sorted horder hbound,
        greatestFrom_sorted horder (Nat.zero_le _)]
      have hrecord := record_displaced h hsplit
      refine (GoesThrough.bind ⟨hrecord, fun loss hloss => hloss⟩ fun loss hloss =>
        .done trivial ?_).congr (and_iff_left fun _ _ => trivial)
      -- the displaced events go first, then the new one comes
      have hlost : ∀ n r, loss.Lost n r ↔
          s.loss.Lost n r ∨ (∃ x ∈ e :: dropped, x.seq = n) ∧ r = .bufferOverflow := by
        intro n r
        rw [LossIntervals.lost_record hloss]
        refine or_congr Iff.rfl (and_congr ?_ Iff.rfl)
        constructor
        · rintro ⟨hfirst, hlast⟩
          exact mem_map.mp ((hrecord.mp ⟨loss, hloss⟩).mem hfirst hlast)
        · rintro ⟨x, hx, rfl⟩
          exact between_of_mem horder (mem_map_of_mem hx)
      exact (h.dropFront hsplit hlost).queueNext (by exact hfinal) (by exact hnext)
        (by exact hevent)
    · rw [if_neg hfull, displaced_eq_nil h hfull]
      exact .done consecutive_nil (h.queueNext hfinal hnext hevent)

/-- A push goes through if and only if it is clear, and keeps the books. -/
lemma pushEvent_spec (payload : Payload B) (epochMs monoNs : Int) :
    GoesThrough (pushEvent wire s payload epochMs monoNs) (Clear wire s payload epochMs monoNs)
      fun r => Accounted wire r.2 := by
  unfold pushEvent Clear
  by_cases hfinal : s.finalizedLocally = true
  · rw [if_pos hfinal]
    exact .done (.inl hfinal) h
  rw [if_neg hfinal]
  have hnot : s.finalizedLocally = false := Bool.eq_false_iff.mpr hfinal
  by_cases hcompleted : payload.isRunCompleted = true
  · rw [if_pos hcompleted]
    exact .fails (by simp [hfinal, hcompleted])
  rw [if_neg hcompleted]
  by_cases hnext : u64Max ≤ s.nextSeq
  · rw [if_pos hnext]
    exact .fails (by simp [hfinal, not_lt.mpr hnext])
  rw [if_neg hnext]
  have hlt := not_le.mp hnext
  have hclear : ∀ P : Prop, (s.finalizedLocally = true ∨
      payload.isRunCompleted = false ∧ s.nextSeq < u64Max ∧ P) ↔ P := by
    simp [hfinal, hcompleted, hlt]
  rw [hclear]
  rcases placement_cases s.limits ⟨s.nextSeq, epochMs, monoNs, payload⟩ with
    ⟨hplace, hone⟩ | hplace | ⟨queued, hplace, hseq⟩
  · rw [hplace]
    exact .done nofun (h.startNext hnot hone hone)
  · rw [hplace]
    obtain ⟨loss, hloss⟩ := h.exists_loseNext hnot .oversizedEvent
    have hlose : place wire { s with nextSeq := s.nextSeq + 1 } s.nextSeq .oversized =
        some { s with nextSeq := s.nextSeq + 1, loss := loss } := by
      unfold place lose
      rw [hloss]
      rfl
    rw [hlose]
    exact .done nofun (h.loseNext hnot hlt (by exact nofun) hloss)
  · rw [hplace]
    refine .congr (.bind (enqueue_spec h hnot hlt hseq) fun s' hs' => .done trivial hs') ?_
    simp

end

end EventSession

end OnceBuild.Events
