import Mathlib.Algebra.GroupWithZero.Nat
import Mathlib.Algebra.BigOperators.Group.List.Lemmas
import Mathlib.Data.List.ReduceOption
import OnceBuild.Lib.Runs

/-!
# The queue of batch downloads

Readers put their requests in a queue; whoever finds it empty spawns a batch start, and a batch
start that leaves requests in the queue spawns the next one.  A reader that is gone closes its
request and leaves it where it is.  Each request belongs to one owner: the queue, a batch or a
stream of its own.
-/

namespace OnceBuild.Tuist

open List

structure PendingDownload where
  id : Nat
  sizeBytes : Int
  deriving DecidableEq

/-- What a batch start finds in the queue. -/
structure CollectedBatch where
  requests : List PendingDownload
  rest : List PendingDownload

/-- The loop of `start_download_batch`. -/
def collectBatch (limit : Nat) (closed : List Nat) :
    Nat → List PendingDownload → CollectedBatch
  | _, [] => ⟨[], []⟩
  | bytes, next :: pending =>
    if next.id ∈ closed then collectBatch limit closed bytes pending
    else if limit < bytes + next.sizeBytes.toNat then ⟨[], next :: pending⟩
    else
      let collected := collectBatch limit closed (bytes + next.sizeBytes.toNat) pending
      { collected with requests := next :: collected.requests }

structure BatchDownloads where
  pending : List PendingDownload
  /-- Batch starts that are spawned and have not locked the queue yet. -/
  starts : Nat
  /-- The batches that are being read, with a hole for each cancelled request. -/
  batches : List (List (Option PendingDownload))
  /-- Requests that are streamed one by one. -/
  streamed : List PendingDownload
  /-- Requests whose reader is gone. -/
  closed : List Nat
  answered : List Nat
  /-- The requests so far, those of them that were queued, and the batches that were started. -/
  fresh : Nat
  queued : List Nat
  started : List (List PendingDownload)

/-- How the turn of a request in a batch that was read ends. -/
inductive Ingested where
  | completed
  | retried

inductive BatchOp where
  | cancelled (index : Nat)
  | failed
  | unsupported
  | ingest (outcome : Ingested)
  | leave

inductive DownloadOp where
  | enqueue (sizes : List Int)
  | close (id : Nat)
  | start
  | batch (index : Nat) (op : BatchOp)
  | stream (request : PendingDownload) (completed : Bool)

namespace BatchDownloads

def initial : BatchDownloads := ⟨[], 0, [], [], [], [], 0, [], []⟩

/-- The requests of a window, each with a channel of its own. -/
def window (fresh : Nat) (sizes : List Int) : List PendingDownload :=
  (sizes.zipIdx fresh).map fun size => ⟨size.2, size.1⟩

def Batched (limit : Nat) (request : PendingDownload) : Prop :=
  0 ≤ request.sizeBytes ∧ request.sizeBytes ≤ limit

instance (limit : Nat) : DecidablePred (Batched limit) := fun _ =>
    inferInstanceAs (Decidable (_ ∧ _))

/-- What becomes of the requests of a batch: those that stay, are answered, or are streamed. -/
structure Progress where
  batch : List (Option PendingDownload)
  answered : List Nat
  streamed : List PendingDownload

def progress (closed : List Nat) (batch : List (Option PendingDownload)) : BatchOp → Progress
  | .cancelled index =>
    match batch[index]? with
    | some (some request) =>
      ⟨if request.id ∈ closed then batch.set index none else batch, [], []⟩
    | _ => ⟨batch, [], []⟩
  | .failed => ⟨[], batch.reduceOption.map PendingDownload.id, []⟩
  | .unsupported => ⟨[], [], batch.reduceOption⟩
  | .ingest outcome =>
    match batch with
    | some request :: rest =>
      if request.id ∈ closed then ⟨rest, [], []⟩
      else
        match outcome with
        | .completed => ⟨rest, [request.id], []⟩
        | .retried => ⟨rest, [], [request]⟩
    | _ => ⟨batch.tail, [], []⟩
  | .leave => ⟨[], [], []⟩

def step (limit : Nat) (s : BatchDownloads) : DownloadOp → Option BatchDownloads
  | .enqueue sizes =>
    let requests := window s.fresh sizes
    let pending := s.pending ++ requests.filter (Batched limit ·)
    some { s with
      pending := pending
      starts := if s.pending.isEmpty && !pending.isEmpty then s.starts + 1 else s.starts
      streamed := s.streamed ++ requests.filter (¬Batched limit ·)
      fresh := s.fresh + sizes.length
      queued := s.queued ++ (requests.filter (Batched limit ·)).map PendingDownload.id }
  | .close id => if id < s.fresh then some { s with closed := id :: s.closed } else none
  | .start =>
    if s.starts = 0 then none
    else
      let collected := collectBatch limit s.closed 0 s.pending
      some { s with
        pending := collected.rest
        starts := s.starts - 1 + if collected.rest.isEmpty then 0 else 1
        batches := s.batches ++ [collected.requests.map some]
        started := s.started ++ [collected.requests] }
  | .batch index op => do
    let batch ← s.batches[index]?
    let next := progress s.closed batch op
    some { s with
      batches := s.batches.set index next.batch
      answered := s.answered ++ next.answered
      streamed := s.streamed ++ next.streamed }
  | .stream request completed =>
    if request ∉ s.streamed then none
    else some { s with
        streamed := s.streamed.erase request
        -- a reader that is gone ends the stream
        answered := if completed then s.answered ++ [request.id] else s.answered }

/-! ## What a batch start takes -/

/-- How often a request is among some requests. -/
def among (requests : List PendingDownload) (id : Nat) : Nat :=
  (requests.map PendingDownload.id).count id

@[simp] lemma among_nil (id : Nat) : among [] id = 0 := rfl

@[simp] lemma among_cons (r : PendingDownload) (requests : List PendingDownload) (id : Nat) :
    among (r :: requests) id = among requests id + if r.id = id then 1 else 0 := by
  simp [among, count_cons]

@[simp] lemma among_append (requests more : List PendingDownload) (id : Nat) :
    among (requests ++ more) id = among requests id + among more id := by
  simp [among]

def totalBytes (requests : List PendingDownload) : Nat :=
  (requests.map fun r => r.sizeBytes.toNat).sum

structure Collects (limit : Nat) (closed : List Nat) (bytes : Nat) (pending : List PendingDownload)
    (c : CollectedBatch) : Prop where
  le : ∀ id, among c.requests id + among c.rest id ≤ among pending id
  all : ∀ id ∉ closed, among pending id ≤ among c.requests id + among c.rest id
  bytes_le : bytes + totalBytes c.requests ≤ limit
  rest : c.rest <:+ pending

lemma collectBatch_spec {limit : Nat} (closed : List Nat) {bytes : Nat} (hbytes : bytes ≤ limit)
    (pending : List PendingDownload) :
    Collects limit closed bytes pending (collectBatch limit closed bytes pending) := by
  induction pending generalizing bytes with
  | nil => exact ⟨fun _ => le_refl _, fun _ _ => le_refl _, hbytes, suffix_refl _⟩
  | cons next pending ih =>
    unfold collectBatch
    split
    next hclosed =>
      have h := ih hbytes
      refine ⟨fun id => ?_, fun id hid => ?_, h.bytes_le, h.rest.trans (suffix_cons _ _)⟩
      · have := h.le id
        rw [among_cons]
        omega
      · have hne : next.id ≠ id := fun heq => hid (heq ▸ hclosed)
        have := h.all id hid
        rw [among_cons, if_neg hne]
        omega
    · split
      · exact ⟨fun _ => by simp, fun _ _ => by simp, hbytes, suffix_refl _⟩
      next hroom =>
        have h := ih (not_lt.mp hroom)
        refine ⟨fun id => ?_, fun id hid => ?_, ?_, h.rest.trans (suffix_cons _ _)⟩
        · have := h.le id
          simp only [among_cons]
          omega
        · have := h.all id hid
          simp only [among_cons]
          omega
        · have := h.bytes_le
          simp only [totalBytes, map_cons, sum_cons] at this ⊢
          omega

/-- A request that was admitted to the queue always fits an empty batch. -/
lemma length_collectBatch_lt {limit : Nat} (closed : List Nat) {pending : List PendingDownload}
    (hne : pending ≠ []) (hadmitted : ∀ r ∈ pending, Batched limit r) :
    (collectBatch limit closed 0 pending).rest.length < pending.length := by
  obtain ⟨next, pending, rfl⟩ := exists_cons_of_ne_nil hne
  have hsize := hadmitted next mem_cons_self
  unfold Batched at hsize
  unfold collectBatch
  split
  · exact Nat.lt_succ_of_le (collectBatch_spec closed (Nat.zero_le _) pending).rest.length_le
  · have hfits : ¬limit < 0 + next.sizeBytes.toNat := by omega
    rw [if_neg hfits]
    exact Nat.lt_succ_of_le
      (collectBatch_spec closed (not_lt.mp hfits) pending).rest.length_le

/-! ## Every request has one owner -/

def inSlot (id : Nat) : Option PendingDownload → Nat
  | none => 0
  | some request => if request.id = id then 1 else 0

def inBatch (id : Nat) (batch : List (Option PendingDownload)) : Nat := (batch.map (inSlot id)).sum

def owners (s : BatchDownloads) (id : Nat) : Nat :=
  among s.pending id + (s.batches.map (inBatch id)).sum + among s.streamed id + s.answered.count id

lemma among_reduceOption (id : Nat) (batch : List (Option PendingDownload)) :
    among batch.reduceOption id = inBatch id batch := by
  induction batch with
  | nil => rfl
  | cons slot batch ih =>
    unfold inBatch at ih ⊢
    cases slot with
    | none => simpa [inSlot] using ih
    | some request => simp [inSlot, ih, Nat.add_comm]

lemma inBatch_some (id : Nat) (requests : List PendingDownload) :
    inBatch id (requests.map some) = among requests id := by
  rw [← among_reduceOption, reduceOption, filterMap_map, Function.id_comp, filterMap_some]

lemma sum_set {α : Type} (f : α → Nat) {l : List α} {i : Nat} {x : α} (h : l[i]? = some x) (y : α) :
    ((l.set i y).map f).sum + f x = (l.map f).sum + f y := by
  induction l generalizing i with
  | nil => cases h
  | cons z l ih =>
    cases i with
    | zero =>
      cases h
      simp only [set_cons_zero, map_cons, sum_cons]
      omega
    | succ i =>
      have := ih (by simpa using h)
      simp only [set_cons_succ, map_cons, sum_cons]
      omega

lemma progress_spec (closed : List Nat) (batch : List (Option PendingDownload)) (op : BatchOp)
    (id : Nat) :
    inBatch id (progress closed batch op).batch + (progress closed batch op).answered.count id +
      among (progress closed batch op).streamed id ≤ inBatch id batch := by
  cases op with
  | cancelled index =>
    simp only [progress]
    split
    next request hslot =>
      have := sum_set (inSlot id) hslot none
      split
      · unfold inBatch
        simp only [inSlot, count_nil, among_nil] at this ⊢
        omega
      · exact le_refl _
    · exact le_refl _
  | failed | unsupported =>
    rw [← among_reduceOption id batch]
    exact (Nat.zero_add _).le
  | leave => exact Nat.zero_le _
  | ingest outcome =>
    match batch with
    | [] => exact le_refl _
    | none :: rest => simp [progress, inBatch, inSlot]
    | some request :: rest =>
      simp only [progress]
      split
      · simp [inBatch]
      · cases outcome <;> simp [inBatch, inSlot, count_cons, Nat.add_comm]

lemma among_window (fresh : Nat) (sizes : List Int) (id : Nat) :
    among (window fresh sizes) id ≤ if fresh ≤ id ∧ id < fresh + sizes.length then 1 else 0 := by
  have hids : (window fresh sizes).map PendingDownload.id = range' fresh sizes.length := by
    unfold window
    rw [map_map]
    exact zipIdx_map_snd fresh sizes
  unfold among
  rw [hids]
  split
  · exact nodup_iff_count_le_one.mp nodup_range' id
  next hnot => exact (count_eq_zero_of_not_mem fun hmem => hnot (by simpa using hmem)).le

lemma among_filter (limit : Nat) (requests : List PendingDownload) (id : Nat) :
    among (requests.filter (Batched limit ·)) id + among (requests.filter (¬Batched limit ·)) id =
      among requests id := by
  have hperm := filter_append_perm (fun r => decide (Batched limit r)) requests
  have hcount := (hperm.map PendingDownload.id).count_eq id
  rw [map_append, count_append] at hcount
  simpa only [among, decide_not] using hcount

/-! ## The invariant -/

structure Accounted (limit : Nat) (s : BatchDownloads) : Prop where
  starts : s.starts = if s.pending.isEmpty then 0 else 1
  admitted : ∀ r ∈ s.pending, Batched limit r
  bytes_le : ∀ batch ∈ s.started, totalBytes batch ≤ limit
  owners_le : ∀ id, s.owners id ≤ if id < s.fresh then 1 else 0
  queued_le : ∀ id, s.queued.count id ≤ if id < s.fresh then 1 else 0
  taken_le : ∀ id, among s.pending id + among s.started.flatten id ≤ s.queued.count id
  taken : ∀ id ∉ s.closed, s.queued.count id ≤ among s.pending id + among s.started.flatten id

lemma Accounted.step {limit : Nat} {s s' : BatchDownloads} {op : DownloadOp}
    (h : Accounted limit s) (hs' : s.step limit op = some s') : Accounted limit s' := by
  cases op with
  | enqueue sizes =>
    cases hs'
    refine ⟨?_, ?_, h.bytes_le, fun id => ?_, fun id => ?_, fun id => ?_, fun id hid => ?_⟩
    · rw [h.starts]
      cases s.pending with
      | nil =>
        rw [nil_append]
        cases ((window s.fresh sizes).filter (Batched limit ·)).isEmpty <;> rfl
      | cons r rest => rfl
    · intro r hr
      rcases mem_append.mp hr with hr | hr
      · exact h.admitted r hr
      · exact of_decide_eq_true (mem_filter.mp hr).2
    · have := h.owners_le id
      have := among_filter limit (window s.fresh sizes) id
      have := among_window s.fresh sizes id
      unfold owners at *
      simp only [among_append]
      split_ifs at * <;> omega
    · have := h.queued_le id
      have := among_filter limit (window s.fresh sizes) id
      have := among_window s.fresh sizes id
      unfold among at *
      simp only [count_append]
      split_ifs at * <;> omega
    · have := h.taken_le id
      unfold among at *
      simp only [count_append, map_append]
      omega
    · have := h.taken id hid
      unfold among at *
      simp only [count_append, map_append]
      omega
  | close id =>
    simp only [BatchDownloads.step] at hs'
    split at hs'
    · cases hs'
      exact { h with taken := fun id hid => h.taken id (not_mem_of_not_mem_cons hid) }
    · cases hs'
  | start =>
    simp only [BatchDownloads.step] at hs'
    split at hs'
    · cases hs'
    next hstarts =>
      cases hs'
      have hcollects := collectBatch_spec s.closed (Nat.zero_le limit) s.pending
      have hstarts' := h.starts
      refine ⟨?_, ?_, ?_, ?_, h.queued_le, ?_, ?_⟩
      · split at hstarts'
        · exact absurd hstarts' hstarts
        · rw [hstarts', Nat.zero_add]
      · exact fun r hr => h.admitted r (hcollects.rest.subset hr)
      · intro batch hbatch
        rcases mem_append.mp hbatch with hbatch | hbatch
        · exact h.bytes_le batch hbatch
        · rw [mem_singleton.mp hbatch]
          exact (Nat.le_add_left _ _).trans hcollects.bytes_le
      · intro id
        have := h.owners_le id
        have := hcollects.le id
        unfold owners at *
        simp only [map_append, sum_append, map_cons, map_nil, sum_cons, sum_nil, inBatch_some]
        omega
      · intro id
        have := h.taken_le id
        have := hcollects.le id
        simp only [flatten_append, flatten_cons, flatten_nil, among_append, append_nil]
        omega
      · intro id hid
        have := h.taken id hid
        have := hcollects.all id hid
        simp only [flatten_append, flatten_cons, flatten_nil, among_append, append_nil]
        omega
  | batch index op =>
    obtain ⟨batch, hbatch, heq⟩ := Option.bind_eq_some_iff.mp hs'
    cases heq
    refine { h with owners_le := fun id => ?_ }
    have := h.owners_le id
    have := progress_spec s.closed batch op id
    have := sum_set (inBatch id) hbatch (progress s.closed batch op).batch
    unfold owners at *
    simp only [among_append, count_append]
    omega
  | stream request completed =>
    simp only [BatchDownloads.step] at hs'
    split at hs'
    · cases hs'
    next hmem =>
      cases hs'
      refine { h with owners_le := fun id => ?_ }
      have := h.owners_le id
      have hcount := ((perm_cons_erase (not_not.mp hmem)).map PendingDownload.id).count_eq id
      rw [map_cons, count_cons] at hcount
      unfold owners among at *
      cases completed
      · simp only [Bool.false_eq_true, if_false]
        omega
      · simp only [if_true, count_append, count_cons, count_nil]
        omega

/-- The queue keeps going: there is one batch start for a queue that is not empty, which takes
something off it; batches keep to the limit; and no request is answered or put in a batch twice. -/
structure Sound (limit : Nat) (s : BatchDownloads) : Prop where
  oneStart : s.starts = if s.pending.isEmpty then 0 else 1
  shrinks : ∀ s', s.step limit .start = some s' → s'.pending.length < s.pending.length
  bytes_le : ∀ batch ∈ s.started, totalBytes batch ≤ limit
  answered : s.answered.Nodup
  inBatches : ∀ id, among s.started.flatten id ≤ 1
  inOne : ∀ id ∈ s.queued, id ∉ s.pending.map PendingDownload.id → id ∉ s.closed →
    among s.started.flatten id = 1

lemma Accounted.sound {limit : Nat} {s : BatchDownloads} (h : Accounted limit s) :
    Sound limit s where
  oneStart := h.starts
  shrinks := by
    intro s' hs'
    have hstarts := h.starts
    simp only [BatchDownloads.step] at hs'
    split at hs'
    · cases hs'
    next hpos =>
      cases hs'
      refine length_collectBatch_lt s.closed (fun hempty => ?_) h.admitted
      rw [hempty] at hstarts
      exact hpos hstarts
  bytes_le := h.bytes_le
  answered := by
    refine nodup_iff_count_le_one.mpr fun id => ?_
    have := h.owners_le id
    unfold owners at this
    split at this <;> omega
  inBatches := by
    intro id
    have := h.taken_le id
    have := h.queued_le id
    split at this <;> omega
  inOne := by
    intro id hid hpending hclosed
    have hone := count_pos_iff.mpr hid
    have hnone : among s.pending id = 0 := count_eq_zero_of_not_mem hpending
    have := h.taken id hclosed
    have := h.taken_le id
    have := h.queued_le id
    split at this <;> omega

/-- In every state that the queue reaches with a batch limit. -/
theorem neither_stalls_nor_spins (limit : Nat) {s : BatchDownloads}
    (h : Lib.Reachable (step limit) (fun _ _ => True) initial s) : Sound limit s := by
  have hinit : Accounted limit initial := by
    refine ⟨rfl, nofun, nofun, fun _ => Nat.zero_le _, fun _ => Nat.zero_le _, ?_, ?_⟩
    · exact fun _ => le_refl _
    · exact fun _ _ => le_refl _
  exact (h.invariant hinit fun _ _ _ hs _ hstep => hs.step hstep).sound

/-- A reader leaves, and of the other requests one is too large for a batch. -/
theorem neither_stalls_nor_spins_three : ∃ s,
    Lib.runSteps (step 4) initial [.enqueue [3, 4, 5], .close 0, .start, .batch 0 .failed] =
      some s ∧
      s.answered = [1] ∧ Sound 4 s := by
  have hrun : Lib.runSteps (step 4) initial
      [.enqueue [3, 4, 5], .close 0, .start, .batch 0 .failed] = some _ := rfl
  exact ⟨_, hrun, rfl, neither_stalls_nor_spins 4 (Lib.Reachable.start.runSteps hrun)⟩

end BatchDownloads

end OnceBuild.Tuist
