import OnceBuild.Events.Session
import OnceBuild.Lib.Consecutive
import OnceBuild.Lib.Runs

/-!
# Every number is accounted for

In a session each number from the one that the server expects up to the next one is in one place.
A push that has to drop events records their numbers as one interval, from the least to the
greatest.  If another number was lost between them the interval runs into its record, which is a
panic; so a session goes on without a panic exactly as long as the events to be dropped are
consecutive.
-/

namespace OnceBuild.Events

open Lib List
open RingBuffer (totalLen toEvict toKeep full)

variable {B : Type} {wire : Wire B} {s s' : EventSession B}

namespace EventSession

/-- The end of the numbers of ordinary events; the last two of a run end it. -/
def ordinaryEnd (s : EventSession B) : Nat :=
  if s.finalizedLocally then s.nextSeq - 2 else s.nextSeq

/-- The bookkeeping of a session. -/
structure Accounted (wire : Wire B) (s : EventSession B) : Prop where
  expected_pos : 1 ≤ s.serverExpectedNextSeq
  expected_le : s.serverExpectedNextSeq ≤ s.nextSeq
  next_le : s.nextSeq ≤ u64Max
  capacity_pos : 1 ≤ s.ring.ordinaryCapacity
  encodedBytes_eq : s.ring.encodedBytes = totalLen wire s.ring.events
  stamped : ∀ e ∈ s.ring.events, e.event.seq = e.seq
  ring_order : s.ring.events.Pairwise fun a b => a.seq < b.seq
  ring_range : ∀ e ∈ s.ring.events, s.serverExpectedNextSeq ≤ e.seq ∧ e.seq < s.ordinaryEnd
  lost_range : ∀ n r, s.loss.Lost n r → s.serverExpectedNextSeq ≤ n ∧ n < s.ordinaryEnd
  apart : ∀ e ∈ s.ring.events, ∀ r, ¬s.loss.Lost e.seq r
  /-- What was dropped for want of room is older than what is queued. -/
  overflow_before : ∀ n, s.loss.Lost n .bufferOverflow → ∀ e ∈ s.ring.events, n < e.seq
  start : ∀ e, s.started = some e → e.seq = 1 ∧ s.serverExpectedNextSeq = 1 ∧ 1 < s.ordinaryEnd ∧
    (∀ e ∈ s.ring.events, 1 < e.seq) ∧ ∀ n r, s.loss.Lost n r → 1 < n
  finalized : s.finalizedLocally = true → 3 ≤ s.nextSeq
  finalizing : ∀ e, s.ring.finalizingSlot = some e →
    s.finalizedLocally = true ∧ e.seq + 2 = s.nextSeq ∧ e.event.seq = e.seq ∧
      s.serverExpectedNextSeq ≤ e.seq
  terminal : ∀ e, s.ring.terminalSlot = some e →
    s.finalizedLocally = true ∧ e.seq + 1 = s.nextSeq ∧ e.event.seq = e.seq ∧
      s.serverExpectedNextSeq ≤ e.seq
  held : ∀ n, s.serverExpectedNextSeq ≤ n → n < s.ordinaryEnd →
    (∃ e, s.started = some e ∧ e.seq = n) ∨ (∃ e ∈ s.ring.events, e.seq = n) ∨ ∃ r, s.loss.Lost n r
  held_finalizing : s.finalizedLocally = true → s.serverExpectedNextSeq + 2 ≤ s.nextSeq →
    ∃ e, s.ring.finalizingSlot = some e
  held_terminal : s.finalizedLocally = true → s.serverExpectedNextSeq + 1 ≤ s.nextSeq →
    ∃ e, s.ring.terminalSlot = some e

lemma not_lost_new {n : Nat} {r : LossReason} : ¬(LossIntervals.new).Lost n r := by
  rintro ⟨i, hi, -⟩
  cases hi

lemma accounted_new (wire : Wire B) (runId : Text) (limits : SessionLimits) :
    Accounted wire (new runId limits : EventSession B) where
  expected_pos := le_refl _
  expected_le := le_refl _
  next_le := by
    change 1 ≤ u64Max
    decide
  capacity_pos := Nat.le_max_right _ _
  encodedBytes_eq := rfl
  stamped := nofun
  ring_order := Pairwise.nil
  ring_range := nofun
  lost_range := fun _ _ h => absurd h not_lost_new
  apart := nofun
  overflow_before := nofun
  start := nofun
  finalized := nofun
  finalizing := nofun
  terminal := nofun
  held := by
    intro n hle hlt
    change 1 ≤ n at hle
    change n < 1 at hlt
    omega
  held_finalizing := nofun
  held_terminal := nofun

lemma ordinaryEnd_of_not (h : s.finalizedLocally = false) : s.ordinaryEnd = s.nextSeq := by
  unfold ordinaryEnd
  rw [h, if_neg Bool.false_ne_true]

section

variable (h : Accounted wire s)
include h

section

variable (hfinal : s.finalizedLocally = false)
include hfinal

lemma Accounted.slots_none : s.ring.finalizingSlot = none ∧ s.ring.terminalSlot = none := by
  constructor
  · cases hslot : s.ring.finalizingSlot with
    | none => rfl
    | some e => exact nomatch hfinal.symm.trans (h.finalizing e hslot).1
  · cases hslot : s.ring.terminalSlot with
    | none => rfl
    | some e => exact nomatch hfinal.symm.trans (h.terminal e hslot).1

/-! ## Taking the next number -/

lemma Accounted.next_not_lost (r : LossReason) : ¬s.loss.Lost s.nextSeq r := by
  intro hlost
  have := (h.lost_range _ _ hlost).2
  rw [ordinaryEnd_of_not hfinal] at this
  omega

lemma Accounted.exists_loseNext
    (reason : LossReason) : ∃ loss, s.loss.record s.nextSeq s.nextSeq reason = some loss := by
  refine s.loss.exists_record (le_refl _) fun n r hle hge hlost => ?_
  rw [Nat.le_antisymm hge hle] at hlost
  exact absurd hlost (h.next_not_lost hfinal r)

lemma Accounted.ring_lt_next {e : PendingEvent B} (he : e ∈ s.ring.events) : e.seq < s.nextSeq := by
  have := (h.ring_range e he).2
  rwa [ordinaryEnd_of_not hfinal] at this

lemma Accounted.startNext (hone : s.nextSeq = 1) {event : RunEvent B} (hevent : event.seq = 1) :
    Accounted wire { s with nextSeq := s.nextSeq + 1, started := some event } := by
  have hend := ordinaryEnd_of_not hfinal
  have hexpected : s.serverExpectedNextSeq = 1 := by
    have := h.expected_pos
    have := h.expected_le
    omega
  -- nothing has a number yet
  have hring : ∀ e, e ∉ s.ring.events := by
    intro e he
    have := h.ring_range e he
    omega
  have hlost : ∀ n r, ¬s.loss.Lost n r := by
    intro n r hl
    have := h.lost_range n r hl
    omega
  have hend' : ordinaryEnd { s with nextSeq := s.nextSeq + 1, started := some event } = 2 := by
    rw [ordinaryEnd_of_not (by exact hfinal), hone]
  exact { h with
    expected_le := Nat.le_succ_of_le h.expected_le
    next_le := by
      change s.nextSeq + 1 ≤ u64Max
      rw [hone]
      decide
    ring_range := fun e he => absurd he (hring e)
    lost_range := fun n r hl => absurd hl (hlost n r)
    start := by
      intro e he
      cases he
      refine ⟨hevent, hexpected, by rw [hend']; decide, fun e he => absurd he (hring e), ?_⟩
      exact fun n r hl => absurd hl (hlost n r)
    finalized := fun hf => nomatch hfinal.symm.trans hf
    finalizing := fun e he => nomatch (h.slots_none hfinal).1.symm.trans he
    terminal := fun e he => nomatch (h.slots_none hfinal).2.symm.trans he
    held := by
      intro n hle hlt
      change s.serverExpectedNextSeq ≤ n at hle
      exact .inl ⟨event, rfl, by omega⟩
    held_finalizing := fun hf => nomatch hfinal.symm.trans hf
    held_terminal := fun hf => nomatch hfinal.symm.trans hf }

end

end

variable {loss : LossIntervals LossReason}

lemma Accounted.loseNext (h : Accounted wire s) (hfinal : s.finalizedLocally = false)
    (hnext : s.nextSeq < u64Max) {reason : LossReason} (hreason : reason ≠ .bufferOverflow)
    (hloss : s.loss.record s.nextSeq s.nextSeq reason = some loss) :
    Accounted wire { s with nextSeq := s.nextSeq + 1, loss := loss } := by
  have hend := ordinaryEnd_of_not hfinal
  have hend' : ordinaryEnd { s with nextSeq := s.nextSeq + 1, loss := loss } = s.nextSeq + 1 :=
    ordinaryEnd_of_not (by exact hfinal)
  have hlost : ∀ n r, loss.Lost n r ↔ s.loss.Lost n r ∨ n = s.nextSeq ∧ r = reason := by
    intro n r
    rw [LossIntervals.lost_record hloss]
    refine or_congr Iff.rfl (and_congr ?_ Iff.rfl)
    omega
  exact { h with
    expected_le := Nat.le_succ_of_le h.expected_le
    next_le := hnext
    ring_range := by
      intro e he
      have := h.ring_range e he
      exact ⟨this.1, by omega⟩
    lost_range := by
      intro n r hl
      rw [hend']
      change s.serverExpectedNextSeq ≤ n ∧ n < s.nextSeq + 1
      rcases (hlost n r).mp hl with hl | ⟨rfl, -⟩
      · have := h.lost_range n r hl
        omega
      · exact ⟨h.expected_le, Nat.lt_succ_self _⟩
    apart := by
      intro e he r hl
      rcases (hlost e.seq r).mp hl with hl | ⟨heq, -⟩
      · exact h.apart e he r hl
      · have := h.ring_lt_next hfinal he
        omega
    overflow_before := by
      intro n hl
      rcases (hlost n _).mp hl with hl | ⟨-, heq⟩
      · exact h.overflow_before n hl
      · exact absurd heq.symm hreason
    start := by
      intro e he
      obtain ⟨hseq, hexpected, hone, hring, hlosts⟩ := h.start e he
      refine ⟨hseq, hexpected, by omega, hring, fun n r hl => ?_⟩
      rcases (hlost n r).mp hl with hl | ⟨rfl, -⟩
      · exact hlosts n r hl
      · omega
    finalized := fun hf => nomatch hfinal.symm.trans hf
    finalizing := fun e he => nomatch (h.slots_none hfinal).1.symm.trans he
    terminal := fun e he => nomatch (h.slots_none hfinal).2.symm.trans he
    held := by
      intro n hle hlt
      by_cases heq : n = s.nextSeq
      · exact .inr (.inr ⟨reason, (hlost n reason).mpr (.inr ⟨heq, rfl⟩)⟩)
      · rcases h.held n hle (by omega) with hs | hr | ⟨r, hl⟩
        · exact .inl hs
        · exact .inr (.inl hr)
        · exact .inr (.inr ⟨r, (hlost n r).mpr (.inl hl)⟩)
    held_finalizing := fun hf => nomatch hfinal.symm.trans hf
    held_terminal := fun hf => nomatch hfinal.symm.trans hf }

def withEvents (wire : Wire B) (s : EventSession B) (events : List (PendingEvent B)) :
    EventSession B :=
  { s with ring := { s.ring with events := events, encodedBytes := totalLen wire events } }

lemma Accounted.queueNext (h : Accounted wire s) (hfinal : s.finalizedLocally = false)
    (hnext : s.nextSeq < u64Max) {event : RunEvent B} (hevent : event.seq = s.nextSeq) :
    Accounted wire
      { withEvents wire s (s.ring.events ++ [⟨s.nextSeq, event⟩]) with
        nextSeq := s.nextSeq + 1 } := by
  have hend := ordinaryEnd_of_not hfinal
  have hend' : ordinaryEnd { withEvents wire s (s.ring.events ++ [⟨s.nextSeq, event⟩]) with
      nextSeq := s.nextSeq + 1 } = s.nextSeq + 1 := ordinaryEnd_of_not (by exact hfinal)
  have hmem : ∀ e, e ∈ s.ring.events ++ [⟨s.nextSeq, event⟩] ↔
      e ∈ s.ring.events ∨ e = ⟨s.nextSeq, event⟩ := by simp
  exact { h with
    expected_le := Nat.le_succ_of_le h.expected_le
    next_le := hnext
    encodedBytes_eq := rfl
    stamped := by
      intro e he
      rcases (hmem e).mp he with he | rfl
      · exact h.stamped e he
      · exact hevent
    ring_order := by
      refine pairwise_append.mpr ⟨h.ring_order, pairwise_singleton _ _, ?_⟩
      intro a ha b hb
      rw [mem_singleton.mp hb]
      exact h.ring_lt_next hfinal ha
    ring_range := by
      intro e he
      rw [hend']
      rcases (hmem e).mp he with he | rfl
      · have := h.ring_range e he
        exact ⟨this.1, by omega⟩
      · exact ⟨h.expected_le, Nat.lt_succ_self _⟩
    lost_range := by
      intro n r hl
      have := h.lost_range n r hl
      exact ⟨this.1, by omega⟩
    apart := by
      intro e he r
      rcases (hmem e).mp he with he | rfl
      · exact h.apart e he r
      · exact h.next_not_lost hfinal r
    overflow_before := by
      intro n hl e he
      rcases (hmem e).mp he with he | rfl
      · exact h.overflow_before n hl e he
      · have := (h.lost_range n _ hl).2
        change n < s.nextSeq
        omega
    start := by
      intro e he
      obtain ⟨hseq, hexpected, hone, hring, hlosts⟩ := h.start e he
      refine ⟨hseq, hexpected, by omega, fun e' he' => ?_, hlosts⟩
      rcases (hmem e').mp he' with he' | rfl
      · exact hring e' he'
      · change 1 < s.nextSeq
        omega
    finalized := fun hf => nomatch hfinal.symm.trans hf
    finalizing := fun e he => nomatch (h.slots_none hfinal).1.symm.trans he
    terminal := fun e he => nomatch (h.slots_none hfinal).2.symm.trans he
    held := by
      intro n hle hlt
      by_cases heq : n = s.nextSeq
      · exact .inr (.inl ⟨_, (hmem _).mpr (.inr rfl), heq.symm⟩)
      · rcases h.held n hle (by omega) with hs | ⟨e, he, hseq⟩ | hl
        · exact .inl hs
        · exact .inr (.inl ⟨e, (hmem e).mpr (.inl he), hseq⟩)
        · exact .inr (.inr hl)
    held_finalizing := fun hf => nomatch hfinal.symm.trans hf
    held_terminal := fun hf => nomatch hfinal.symm.trans hf }

/-! ## Making room -/

lemma Accounted.dropFront (h : Accounted wire s) {dropped kept : List (PendingEvent B)}
    (hsplit : s.ring.events = dropped ++ kept)
    (hlost : ∀ n r, loss.Lost n r ↔
      s.loss.Lost n r ∨ (∃ e ∈ dropped, e.seq = n) ∧ r = .bufferOverflow) :
    Accounted wire { withEvents wire s kept with loss := loss } := by
  have hdropped : ∀ e ∈ dropped, e ∈ s.ring.events := by
    intro e he
    rw [hsplit]
    exact mem_append_left _ he
  have hkept : ∀ e ∈ kept, e ∈ s.ring.events := by
    intro e he
    rw [hsplit]
    exact mem_append_right _ he
  have horder := h.ring_order
  rw [hsplit] at horder
  obtain ⟨-, horderKept, hbefore⟩ := pairwise_append.mp horder
  exact { h with
    encodedBytes_eq := rfl
    stamped := fun e he => h.stamped e (hkept e he)
    ring_order := horderKept
    ring_range := fun e he => h.ring_range e (hkept e he)
    lost_range := by
      intro n r hl
      rcases (hlost n r).mp hl with hl | ⟨⟨e, he, rfl⟩, -⟩
      · exact h.lost_range n r hl
      · exact h.ring_range e (hdropped e he)
    apart := by
      intro e he r hl
      rcases (hlost e.seq r).mp hl with hl | ⟨⟨e', he', heq⟩, -⟩
      · exact h.apart e (hkept e he) r hl
      · have := hbefore e' he' e he
        omega
    overflow_before := by
      intro n hl e he
      rcases (hlost n _).mp hl with hl | ⟨⟨e', he', rfl⟩, -⟩
      · exact h.overflow_before n hl e (hkept e he)
      · exact hbefore e' he' e he
    start := by
      intro e he
      obtain ⟨hseq, hexpected, hone, hring, hlosts⟩ := h.start e he
      refine ⟨hseq, hexpected, hone, fun e' he' => hring e' (hkept e' he'), fun n r hl => ?_⟩
      rcases (hlost n r).mp hl with hl | ⟨⟨e', he', rfl⟩, -⟩
      · exact hlosts n r hl
      · exact hring e' (hdropped e' he')
    held := by
      intro n hle hlt
      rcases h.held n hle hlt with hs | ⟨e, he, hseq⟩ | ⟨r, hl⟩
      · exact .inl hs
      · rw [hsplit] at he
        rcases mem_append.mp he with he | he
        · exact .inr (.inr ⟨_, (hlost n _).mpr (.inr ⟨⟨e, he, hseq⟩, rfl⟩)⟩)
        · exact .inr (.inl ⟨e, he, hseq⟩)
      · exact .inr (.inr ⟨r, (hlost n r).mpr (.inl hl)⟩)
    held_terminal := h.held_terminal }

end EventSession

end OnceBuild.Events
