import OnceBuild.Events.SequenceNumbers

/-!
# Batches skip nothing

A batch begins where the server stands.  It has the losses up to the first event that is held, as
far as they fit, and then the events that follow without a hole.
-/

namespace OnceBuild.Events

open Lib List

variable {B : Type} {wire : Wire B} {s s' : EventSession B}

/-! ## Filling a batch -/

lemma fill_spec {α : Type} (wire : Wire B) (limit : Nat)
    (add : RunEventBatch B → α → RunEventBatch B)
    (batch : RunEventBatch B) (items : List α) :
    ∃ taken rest, items = taken ++ rest ∧ fill wire limit add batch items = taken.foldl add batch ∧
      (batch.encodedLen wire ≤ limit → (taken.foldl add batch).encodedLen wire ≤ limit) ∧
      (taken = [] → ∀ first, items.head? = some first →
        limit < (add batch first).encodedLen wire) := by
  induction items generalizing batch with
  | nil => exact ⟨[], [], rfl, rfl, id, by simp⟩
  | cons item items ih =>
    unfold fill
    split
    next hover =>
      refine ⟨[], item :: items, rfl, rfl, id, fun _ first hfirst => ?_⟩
      cases hfirst
      exact hover
    next hfits =>
      obtain ⟨taken, rest, hsplit, hfill, hlimit, -⟩ := ih (add batch item)
      refine ⟨item :: taken, rest, by rw [hsplit, cons_append], hfill, fun _ => ?_, nofun⟩
      exact hlimit (not_lt.mp hfits)

lemma foldl_addGap (batch : RunEventBatch B) (gaps : List GapAdvance) :
    gaps.foldl RunEventBatch.addGap batch =
      { batch with gapAdvances := batch.gapAdvances ++ gaps } := by
  induction gaps generalizing batch with
  | nil => simp
  | cons gap gaps ih =>
    rw [foldl_cons, ih]
    simp [RunEventBatch.addGap]

lemma foldl_addEvent (batch : RunEventBatch B) (events : List (RunEvent B)) :
    events.foldl RunEventBatch.addEvent batch =
      { batch with events := batch.events ++ events } := by
  induction events generalizing batch with
  | nil => simp
  | cons event events ih =>
    rw [foldl_cons, ih]
    simp [RunEventBatch.addEvent]

/-! ## Lengths -/

lemma varintLen_mono {m n : Nat} (h : m ≤ n) : varintLen m ≤ varintLen n := by
  refine Nat.add_le_add_left ?_ 1
  refine (monotone_filter_right _ fun bits hbits => ?_).length_le
  exact decide_eq_true ((of_decide_eq_true hbits).trans h)

lemma uint64Len_mono {m n : Nat} (h : m ≤ n) : uint64Len m ≤ uint64Len n := by
  unfold uint64Len
  split
  · exact Nat.zero_le _
  · rw [if_neg (by omega)]
    exact Nat.add_le_add_left (varintLen_mono h) 1

lemma encodedLen_seqFrom (wire : Wire B) (batch : RunEventBatch B) {seqFrom : Nat}
    (h : seqFrom ≤ batch.seqFrom) :
    ({ batch with seqFrom := seqFrom } : RunEventBatch B).encodedLen wire ≤
      batch.encodedLen wire := by
  have := uint64Len_mono h
  unfold RunEventBatch.encodedLen
  simp only
  omega

/-! ## What is held -/

namespace EventSession

def heldEvents (s : EventSession B) : List (PendingEvent B) :=
  s.ring.events ++ s.ring.finalizingSlot.toList ++ s.ring.terminalSlot.toList

lemma snapshot_eq (s : EventSession B) :
    s.snapshot = s.heldEvents.take (max s.limits.maxEventsPerBatch 1) := by
  unfold snapshot RingBuffer.snapshotUpTo heldEvents
  have hslot : ∀ slot : Option (PendingEvent B), slot.toList.length ≤ 1 := by
    intro slot
    cases slot <;> simp
  have hfinalizing := hslot s.ring.finalizingSlot
  have hterminal := hslot s.ring.terminalSlot
  generalize max s.limits.maxEventsPerBatch 1 = most
  by_cases hring : s.ring.events.length < most
  · have htake : s.ring.events.take most = s.ring.events := take_of_length_le hring.le
    simp only [htake, if_pos hring]
    have hlength : (s.ring.events ++ s.ring.finalizingSlot.toList).length ≤ most := by
      rw [length_append]
      omega
    split
    next hless =>
      rw [take_of_length_le]
      rw [length_append]
      omega
    next hfull => rw [take_append_of_le_length (by omega), take_of_length_le hlength]
  · have hlength : ¬(s.ring.events.take most).length < most := by
      rw [length_take]
      omega
    simp only [if_neg hlength]
    rw [append_assoc, take_append_of_le_length (not_lt.mp hring)]

variable {e : PendingEvent B}

lemma mem_heldEvents : e ∈ s.heldEvents ↔ e ∈ s.ring.events ∨ s.ring.finalizingSlot = some e ∨
      s.ring.terminalSlot = some e := by
  unfold heldEvents
  rw [mem_append, mem_append, Option.mem_toList, Option.mem_toList, or_assoc]

lemma Accounted.heldEvents_order (h : Accounted wire s) :
    s.heldEvents.Pairwise fun a b => a.seq < b.seq := by
  have hslot : ∀ slot : Option (PendingEvent B),
      slot.toList.Pairwise fun a b : PendingEvent B => a.seq < b.seq := by
    intro slot
    cases slot <;> simp
  have hend : s.finalizedLocally = true → s.ordinaryEnd = s.nextSeq - 2 := fun hfinal =>
    if_pos hfinal
  refine pairwise_append.mpr ⟨pairwise_append.mpr ⟨h.ring_order, hslot _, ?_⟩, hslot _, ?_⟩
  · intro a ha b hb
    obtain ⟨hfinal, hseq, -⟩ := h.finalizing b (Option.mem_toList.mp hb)
    have := (h.ring_range a ha).2
    rw [hend hfinal] at this
    omega
  · intro a ha b hb
    obtain ⟨hfinal, hseq, -⟩ := h.terminal b (Option.mem_toList.mp hb)
    rcases mem_append.mp ha with ha | ha
    · have := (h.ring_range a ha).2
      rw [hend hfinal] at this
      omega
    · have := (h.finalizing a (Option.mem_toList.mp ha)).2.1
      omega

lemma Accounted.heldEvents_spec (h : Accounted wire s) (he : e ∈ s.heldEvents) :
    e.event.seq = e.seq ∧ (s.serverExpectedNextSeq ≤ e.seq ∧ e.seq < s.nextSeq) ∧
      ∀ r, ¬s.loss.Lost e.seq r := by
  have hend := s.ordinaryEnd_le
  have hafter : s.finalizedLocally = true → s.nextSeq ≤ e.seq + 2 → ∀ r, ¬s.loss.Lost e.seq r := by
    intro hfinal hseq r hlost
    have := (h.lost_range _ r hlost).2
    unfold ordinaryEnd at this
    rw [if_pos hfinal] at this
    omega
  rcases mem_heldEvents.mp he with he | he | he
  · have := h.ring_range e he
    exact ⟨h.stamped e he, by omega, h.apart e he⟩
  · obtain ⟨hfinal, hseq, hstamped, hexpected⟩ := h.finalizing e he
    exact ⟨hstamped, by omega, hafter hfinal (by omega)⟩
  · obtain ⟨hfinal, hseq, hstamped, hexpected⟩ := h.terminal e he
    exact ⟨hstamped, by omega, hafter hfinal (by omega)⟩

lemma firstSeq_eq (s : EventSession B) :
    s.firstSeq = (s.heldEvents.head?.map PendingEvent.seq).getD s.nextSeq := by
  unfold firstSeq
  rw [snapshot_eq, head?_take, if_neg (by omega)]

lemma Accounted.firstSeq_le (h : Accounted wire s) :
    s.serverExpectedNextSeq ≤ s.firstSeq ∧ s.firstSeq ≤ s.nextSeq ∧
      ∀ e ∈ s.heldEvents, s.firstSeq ≤ e.seq := by
  rw [firstSeq_eq]
  have horder := h.heldEvents_order
  have hspec := fun e => h.heldEvents_spec (e := e)
  cases hheld : s.heldEvents with
  | nil => exact ⟨h.expected_le, le_refl _, nofun⟩
  | cons first rest =>
    rw [hheld] at horder hspec
    obtain ⟨hexpected, hnext⟩ := (hspec first mem_cons_self).2.1
    refine ⟨hexpected, hnext.le, fun e he => ?_⟩
    rcases mem_cons.mp he with rfl | he
    · exact le_refl _
    · exact ((pairwise_cons.mp horder).1 e he).le

lemma Accounted.firstSeq_not_lost (h : Accounted wire s) (r : LossReason) :
    ¬s.loss.Lost s.firstSeq r := by
  have hspec := fun e => h.heldEvents_spec (e := e)
  rw [firstSeq_eq]
  cases hheld : s.heldEvents with
  | nil =>
    intro hlost
    have hlt := (h.lost_range _ r hlost).2
    have := s.ordinaryEnd_le
    change s.nextSeq < s.ordinaryEnd at hlt
    omega
  | cons first rest =>
    rw [hheld] at hspec
    exact (hspec first mem_cons_self).2.2 r

/-- The gaps are the numbers from the one that the server expects to the first event. -/
lemma Accounted.gaps_cover (h : Accounted wire s) (hstarted : s.started = none) (n : Nat) :
    (∃ g ∈ s.gaps, g.Covers n) ↔ s.serverExpectedNextSeq ≤ n ∧ n < s.firstSeq := by
  constructor
  · rintro ⟨g, hg, hgn⟩
    obtain ⟨hmem, hbefore⟩ := mem_filter.mp hg
    obtain ⟨-, hlast⟩ := Bool.and_eq_true_iff.mp hbefore
    have hlast := of_decide_eq_true hlast
    have := hgn.2
    exact ⟨(h.lost_range n g.reason ⟨g, hmem, hgn, rfl⟩).1, by omega⟩
  · rintro ⟨hle, hlt⟩
    obtain ⟨-, hnext, hfirst⟩ := h.firstSeq_le
    obtain ⟨p, hp⟩ := h.exists_place hle (by omega)
    -- what is held comes later
    have hheld : ∀ e ∈ s.heldEvents, e.seq ≠ n := by
      intro e he heq
      have := hfirst e he
      omega
    cases p with
    | start e => exact nomatch hstarted.symm.trans hp.1
    | queued e => exact absurd hp.2 (hheld e (mem_heldEvents.mpr (.inl hp.1)))
    | finalizing e => exact absurd hp.2 (hheld e (mem_heldEvents.mpr (.inr (.inl hp.1))))
    | terminal e => exact absurd hp.2 (hheld e (mem_heldEvents.mpr (.inr (.inr hp.1))))
    | lost i =>
      obtain ⟨hi, hin⟩ := hp
      have hbegin := hin.1
      -- an interval that begins before the first event ends before it
      have hend : i.last < s.firstSeq := by
        by_contra hge
        exact h.firstSeq_not_lost i.reason ⟨i, hi, ⟨by omega, not_lt.mp hge⟩, rfl⟩
      refine ⟨i, mem_filter.mpr ⟨hi, ?_⟩, hin⟩
      rw [decide_eq_true (by omega : i.first < s.firstSeq), decide_eq_true hend]
      rfl

lemma gaps_separate (s : EventSession B) : Separate s.gaps := s.loss.separate.filter _

lemma gaps_before {s : EventSession B} {g : GapAdvance} (hg : g ∈ s.gaps) :
    g.last < s.firstSeq := by
  obtain ⟨-, hbefore⟩ := mem_filter.mp hg
  exact of_decide_eq_true (Bool.and_eq_true_iff.mp hbefore).2

/-! ## Events in a row -/

variable {l : List (PendingEvent B)}

lemma takeConsecutive_seq (previous : Nat) (hstamped : ∀ e ∈ l, e.event.seq = e.seq) :
    (takeConsecutive (some previous) l).map RunEvent.seq =
      List.range' (previous + 1) (takeConsecutive (some previous) l).length := by
  induction l generalizing previous with
  | nil => rfl
  | cons e l ih =>
    unfold takeConsecutive
    split
    · rfl
    next hnext =>
      have hseq : previous + 1 = e.seq := by simpa using hnext
      have hevent := hstamped e mem_cons_self
      have hrest := ih e.event.seq fun x hx => hstamped x (mem_cons_of_mem _ hx)
      rw [map_cons, hrest, length_cons, range'_succ, hevent, hseq]

variable {event : RunEvent B}

lemma mem_takeConsecutive {previous : Option Nat} (h : event ∈ takeConsecutive previous l) :
    ∃ e ∈ l, e.event = event := by
  induction l generalizing previous with
  | nil => cases h
  | cons e l ih =>
    unfold takeConsecutive at h
    split at h
    · cases h
    · rcases mem_cons.mp h with rfl | h
      · exact ⟨e, mem_cons_self, rfl⟩
      · obtain ⟨e', he', heq⟩ := ih h
        exact ⟨e', mem_cons_of_mem _ he', heq⟩

/-- The events of a batch before they are cut to its size. -/
def row (s : EventSession B) : List (RunEvent B) :=
  takeConsecutive none (s.snapshot.take (max s.limits.maxEventsPerBatch 1))

lemma mem_row (h : event ∈ s.row) : ∃ e ∈ s.heldEvents, e.event = event := by
  obtain ⟨e, he, heq⟩ := mem_takeConsecutive h
  have he := mem_of_mem_take he
  rw [snapshot_eq] at he
  exact ⟨e, mem_of_mem_take he, heq⟩

lemma Accounted.row_seq (h : Accounted wire s) :
    s.row.map RunEvent.seq = List.range' s.firstSeq s.row.length ∧
      (s.row = [] → s.heldEvents = []) ∧
      (s.row.head?.map RunEvent.seq).getD s.nextSeq = s.firstSeq := by
  have htake : s.snapshot.take (max s.limits.maxEventsPerBatch 1) = s.snapshot := by
    rw [snapshot_eq, take_take, Nat.min_self]
  have hmost : max s.limits.maxEventsPerBatch 1 = (max s.limits.maxEventsPerBatch 1 - 1) + 1 := by
    omega
  have hspec := fun e => h.heldEvents_spec (e := e)
  unfold row
  rw [htake, snapshot_eq, firstSeq_eq, hmost]
  cases hheld : s.heldEvents with
  | nil => exact ⟨rfl, fun _ => rfl, rfl⟩
  | cons first rest =>
    rw [hheld] at hspec
    have hfirst := (hspec first mem_cons_self).1
    have hstamped : ∀ e ∈ rest.take (max s.limits.maxEventsPerBatch 1 - 1), e.event.seq = e.seq :=
      fun e he => (hspec e (mem_cons_of_mem _ (mem_of_mem_take he))).1
    rw [take_succ_cons]
    simp only [takeConsecutive, Option.any_none, Bool.false_eq_true, if_false]
    refine ⟨?_, nofun, hfirst⟩
    rw [map_cons, takeConsecutive_seq _ hstamped, hfirst]
    rfl

/-! ## The batch -/

/-- A single event or gap fits in a batch, and so does neither. -/
structure SingleFits (wire : Wire B) (s : EventSession B) : Prop where
  none : ∀ seqFrom ≤ s.nextSeq, (s.header seqFrom).encodedLen wire ≤ s.limits.maxBatchBytes
  event : ∀ event, s.started = some event ∨ (∃ e ∈ s.heldEvents, e.event = event) →
    ((s.header event.seq).addEvent event).encodedLen wire ≤ s.limits.maxBatchBytes
  gap : ∀ gap ∈ s.loss.intervals, ∀ seqFrom ≤ s.nextSeq,
    ((s.header seqFrom).addGap gap).encodedLen wire ≤ s.limits.maxBatchBytes

/-- The batch goes on from where the server stands, and skips nothing. -/
structure Contiguous (wire : Wire B) (s : EventSession B) (batch : RunEventBatch B) : Prop where
  consecutive : batch.events.map RunEvent.seq = List.range' batch.seqFrom batch.events.length
  sorted : batch.gapAdvances.Pairwise fun a b => a.last < b.first
  before : ∀ g ∈ batch.gapAdvances, g.first ≤ g.last ∧ g.last < batch.seqFrom
  covers : ∀ n, ((∃ g ∈ batch.gapAdvances, g.Covers n) ∨ ∃ e ∈ batch.events, e.seq = n) ↔
    s.serverExpectedNextSeq ≤ n ∧ n < batch.seqFrom + batch.events.length
  nonempty : s.serverExpectedNextSeq < batch.seqFrom + batch.events.length ∨
    batch.gapAdvances = [] ∧ batch.events = [] ∧ s.producerLossDirty = true
  size : batch.encodedLen wire ≤ s.limits.maxBatchBytes

/-- The batch ends with a gap, since the next one does not fit. -/
lemma Accounted.contiguous_cut (h : Accounted wire s) (hstarted : s.started = none)
    {taken rest : List GapAdvance} (hsplit : s.gaps = taken ++ rest) (htaken : taken ≠ [])
    (hsize : ({ s.header s.firstSeq with gapAdvances := taken } : RunEventBatch B).encodedLen wire ≤
      s.limits.maxBatchBytes) :
    Contiguous wire s
      { s.header (s.resumeAt taken) with gapAdvances := taken } := by
  obtain ⟨init, last, rfl⟩ := (eq_nil_or_concat taken).resolve_left htaken
  rw [concat_eq_append] at hsplit hsize ⊢
  have hresume : s.resumeAt (init ++ [last]) = last.last + 1 := by
    unfold resumeAt
    rw [getLast?_concat]
    rfl
  have hmem : ∀ g ∈ init ++ [last], g ∈ s.gaps := by
    intro g hg
    rw [hsplit]
    exact mem_append_left _ hg
  obtain ⟨horder, hnonempty⟩ := s.gaps_separate
  rw [hsplit] at horder
  obtain ⟨hsorted, -, hrest⟩ := pairwise_append.mp horder
  obtain ⟨-, -, hinit⟩ := pairwise_append.mp hsorted
  have hlast : last ∈ init ++ [last] := mem_append_right _ (mem_singleton_self _)
  have hbefore := gaps_before (hmem last hlast)
  have hlastNonempty := hnonempty last (hmem last hlast)
  have hend : ∀ g ∈ init ++ [last], g.last ≤ last.last := by
    intro g hg
    rcases mem_append.mp hg with hg | hg
    · have := hinit g hg last (mem_singleton_self _)
      omega
    · rw [mem_singleton.mp hg]
  have hexpected := ((h.gaps_cover hstarted last.last).mp
    ⟨last, hmem last hlast, hlastNonempty, le_refl _⟩).1
  rw [hresume]
  refine ⟨rfl, hsorted, fun g hg => ⟨hnonempty g (hmem g hg), Nat.lt_succ_of_le (hend g hg)⟩,
    fun n => ⟨?_, fun hn => .inl ?_⟩, .inl (Nat.lt_succ_of_le hexpected), ?_⟩
  · rintro (⟨g, hg, hgn⟩ | ⟨e, he, -⟩)
    · have hn := hgn.2.trans (hend g hg)
      exact ⟨((h.gaps_cover hstarted n).mp ⟨g, hmem g hg, hgn⟩).1, Nat.lt_succ_of_le hn⟩
    · exact nomatch he
  · obtain ⟨hle, hlt⟩ := hn
    have hlt : n < last.last + 1 := hlt
    obtain ⟨g, hg, hgn⟩ := (h.gaps_cover hstarted n).mpr ⟨hle, by omega⟩
    rw [hsplit] at hg
    rcases mem_append.mp hg with hg | hg
    · exact ⟨g, hg, hgn⟩
    · -- the gaps that are left begin later
      have := hrest last hlast g hg
      have := hgn.1
      omega
  · exact (encodedLen_seqFrom wire { s.header s.firstSeq with gapAdvances := init ++ [last] }
      hbefore).trans hsize

lemma Accounted.contiguous_all (h : Accounted wire s) (hstarted : s.started = none)
    {taken rest : List (RunEvent B)} (hsplit : s.row = taken ++ rest)
    (hsome : s.gaps = [] → taken = [] → s.producerLossDirty = true)
    (hsize : ({ s.header s.firstSeq with gapAdvances := s.gaps, events := taken } :
      RunEventBatch B).encodedLen wire ≤ s.limits.maxBatchBytes) :
    Contiguous wire s { s.header s.firstSeq with gapAdvances := s.gaps, events := taken } := by
  obtain ⟨hrow, -, -⟩ := h.row_seq
  obtain ⟨hexpected, -, -⟩ := h.firstSeq_le
  obtain ⟨horder, hnonempty⟩ := s.gaps_separate
  have htaken : taken.map RunEvent.seq = range' s.firstSeq taken.length := by
    rw [hsplit, map_append, length_append, ← range'_append_1] at hrow
    exact (append_inj hrow (by simp)).1
  refine ⟨htaken, horder, fun g hg => ⟨hnonempty g hg, gaps_before hg⟩, fun n => ?_, ?_, hsize⟩
  · change (∃ g ∈ s.gaps, g.Covers n) ∨ (∃ e ∈ taken, e.seq = n) ↔
      s.serverExpectedNextSeq ≤ n ∧ n < s.firstSeq + taken.length
    rw [h.gaps_cover hstarted, ← mem_map, htaken, mem_range'_1]
    omega
  · by_cases hempty : s.gaps = [] ∧ taken = []
    · exact .inr ⟨hempty.1, hempty.2, hsome hempty.1 hempty.2⟩
    · refine .inl ?_
      change s.serverExpectedNextSeq < s.firstSeq + taken.length
      rcases not_and_or.mp hempty with hgaps | htakes
      · obtain ⟨g, hg⟩ := exists_mem_of_ne_nil _ hgaps
        have := (h.gaps_cover hstarted g.first).mp ⟨g, hg, le_refl _, hnonempty g hg⟩
        omega
      · have := length_pos_of_ne_nil htakes
        omega

lemma Accounted.contiguous_composeBatch (h : Accounted wire s) (hstarted : s.started = none)
    (hfits : SingleFits wire s)
    (hsend : (s.snapshot.isEmpty && s.gaps.isEmpty && !s.producerLossDirty) = false) :
    Contiguous wire s (s.composeBatch wire) := by
  obtain ⟨hrow, hheld, hfirst⟩ := h.row_seq
  obtain ⟨-, hnext, -⟩ := h.firstSeq_le
  unfold composeBatch
  rw [show takeConsecutive none (s.snapshot.take (max s.limits.maxEventsPerBatch 1)) =
    s.row from rfl]
  simp only [hfirst]
  obtain ⟨taken, rest, hsplit, hfill, hsize, hover⟩ := fill_spec wire s.limits.maxBatchBytes
    RunEventBatch.addGap (s.header s.firstSeq) s.gaps
  rw [foldl_addGap] at hfill hsize
  have hsize := hsize (hfits.none s.firstSeq hnext)
  rw [hfill]
  change Contiguous wire s (if taken.length < s.gaps.length then _ else _)
  split
  next hcut =>
    refine h.contiguous_cut hstarted hsplit (fun hnil => ?_) hsize
    -- the first gap fits by itself
    obtain ⟨g, gs, hgaps⟩ := exists_cons_of_length_pos (Nat.zero_lt_of_lt hcut)
    have hg : g ∈ s.gaps := by
      rw [hgaps]
      exact mem_cons_self
    have hlt := hover hnil g (by rw [hgaps]; rfl)
    exact absurd (hfits.gap g (mem_filter.mp hg).1 s.firstSeq hnext) (not_le.mpr hlt)
  next hall =>
    have hrest : rest = [] := by
      have hlength := congrArg length hsplit
      rw [length_append] at hlength
      exact eq_nil_of_length_eq_zero (by omega)
    rw [hrest, append_nil] at hsplit
    cases hsplit
    obtain ⟨taken, rest, hsplit, hfill, hsize', hover⟩ := fill_spec wire s.limits.maxBatchBytes
      RunEventBatch.addEvent { s.header s.firstSeq with gapAdvances := s.gaps } s.row
    rw [foldl_addEvent] at hfill hsize'
    change Contiguous wire s (fill wire _ RunEventBatch.addEvent
      { s.header s.firstSeq with gapAdvances := s.gaps } s.row)
    rw [hfill]
    refine h.contiguous_all hstarted hsplit (fun hgaps hnil => ?_) (hsize' hsize)
    -- the first event fits by itself, so there is none
    have hempty : s.row = [] := by
      cases hevents : s.row with
      | nil => rfl
      | cons event events =>
        have hevent : event ∈ s.row := by
          rw [hevents]
          exact mem_cons_self
        have hseq : event.seq = s.firstSeq := by
          rw [← hfirst, hevents]
          rfl
        have hlt := hover hnil event (by rw [hevents]; rfl)
        have hle := hfits.event event (.inr (mem_row hevent))
        rw [hseq] at hle
        rw [hgaps] at hlt
        exact absurd hle (not_le.mpr hlt)
    have hsnapshot : s.snapshot = [] := by rw [snapshot_eq, hheld hempty, take_nil]
    rw [hsnapshot, hgaps] at hsend
    simpa using hsend

/-- Each batch of each session skips nothing. -/
theorem nextBatch_contiguous (wire : Wire B) (runId : Text) (limits : SessionLimits)
    (ops : List (SessionOp B)) (hs : run wire (new runId limits) ops = some s)
    (hfits : SingleFits wire s) {batch : RunEventBatch B}
      (hbatch : nextBatch wire s = (some batch, s')) :
    Contiguous wire s batch := by
  have h := (run_spec (accounted_new wire runId limits) ops).keeps s hs
  unfold nextBatch at hbatch
  split at hbatch
  · cases hbatch
  split at hbatch
  next started hstarted =>
    cases hbatch
    obtain ⟨hseq, hexpected, -⟩ := h.start started hstarted
    have hsize := hfits.event started (.inl hstarted)
    rw [hseq] at hsize
    refine ⟨?_, Pairwise.nil, nofun, fun n => ?_, .inl ?_, hsize⟩
    · exact congrArg (· :: []) hseq
    · change (∃ g ∈ ([] : List GapAdvance), g.Covers n) ∨ (∃ e ∈ [started], e.seq = n) ↔
        s.serverExpectedNextSeq ≤ n ∧ n < 1 + 1
      simp only [not_mem_nil, false_and, exists_false, false_or, mem_singleton,
        exists_eq_left, hseq]
      omega
    · change s.serverExpectedNextSeq < 1 + 1
      omega
  next hstarted =>
    split at hbatch
    · cases hbatch
    next hsend =>
      cases hbatch
      exact h.contiguous_composeBatch hstarted hfits (Bool.eq_false_iff.mpr hsend)

/-- An event is too large, and the batch with the next one says so. -/
theorem nextBatch_contiguous_oversized : ∃ s batch s', run sizedWire (new [] ⟨4, 4, 5, 100, 4, 6⟩)
        [.ordinary (.other 9) 0 0, .ordinary (.other 2) 0 0] = some s ∧
      SingleFits sizedWire s ∧ nextBatch sizedWire s = (some batch, s') ∧
      Contiguous sizedWire s batch := by
  have hfits : ∀ s, run sizedWire (new [] ⟨4, 4, 5, 100, 4, 6⟩)
      [.ordinary (.other 9) 0 0, .ordinary (.other 2) 0 0] = some s → SingleFits sizedWire s := by
    intro s hs
    cases hs
    refine ⟨by decide, ?_, ?_⟩
    · rintro event (hevent | ⟨e, he, rfl⟩)
      · cases hevent
      · cases he with
        | head => decide
        | tail _ he => cases he
    · intro gap hgap
      cases hgap with
      | head => decide
      | tail _ hgap => cases hgap
  exact ⟨_, _, _, rfl, hfits _ rfl, rfl, nextBatch_contiguous sizedWire [] ⟨4, 4, 5, 100, 4, 6⟩
      [.ordinary (.other 9) 0 0, .ordinary (.other 2) 0 0] rfl (hfits _ rfl) rfl⟩

end EventSession

end OnceBuild.Events
