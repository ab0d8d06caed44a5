import OnceBuild.Materialization.Paths

/-!
# The window of results that are being restored

`restore_recovering` keeps a window of results that are being restored at the same time.  An empty
window is filled with a batch; a window with room takes the next result when that one overlaps none
of those in it.  Only when no result can be added does the loop wait for one to end, and any of
those in the window may be the first.  After a failure nothing is added.

Footprints are taken from the workspace as it is when the loop looks at them, which is not how it is
when the wait ends.

`active` stands for both the set of indices and the futures, which the loop changes together.  The
log records what happened, in order.
-/

namespace OnceBuild.Materialization

open Lib List

open Actions (Path PathHost)

variable {α : Type}

inductive Mark where
  | started (index : Nat)
  | ended (index : Nat) (ok : Bool)
  deriving DecidableEq

structure Window where
  next : Nat
  active : List Nat
  /-- The loop waits for a restore to end. -/
  waiting : Bool
  /-- The first result that failed. -/
  failure : Option Nat
  log : List Mark
  deriving DecidableEq

/-- What `restore_recovering` is called with. -/
structure Job where
  windows : Bool
  workspace : Path
  /-- The canonical path of the workspace. -/
  realWorkspace : Path
  maxParallelActions : Nat
  results : List Result

namespace Job

variable (job : Job)

def limit : Nat := max job.maxParallelActions 1

def resultAt (i : Nat) : Result := job.results.getD i []

/-- How paths compare while the workspace is `t`. -/
def hostAt (t : FileTree Text α) : PathHost where
  windows := job.windows
  workspace := job.workspace
  resolveExistingAncestors path :=
    (resolveExistingAncestors t (path.drop job.workspace.length)).map (job.realWorkspace ++ ·)

/-- How paths compare when no file is in the way of any. -/
def host : PathHost where
  windows := job.windows
  workspace := job.workspace
  resolveExistingAncestors path := some (job.realWorkspace ++ path.drop job.workspace.length)

def Overlap (i j : Nat) : Prop := ¬ Separate job.host (job.resultAt i) (job.resultAt j)

end Job

namespace Window

inductive Event where
  | launch
  | wait
  | finish (index : Nat) (ok : Bool)
  deriving DecidableEq

def empty : Window := ⟨0, [], false, none, []⟩

/-- The results that the loop starts before it looks again. -/
def startable (job : Job) (t : FileTree Text α) (w : Window) : List Nat :=
  if w.failure.isSome || decide (job.results.length ≤ w.next) then []
  else if w.active.isEmpty then
    List.range' w.next (batchLen (job.hostAt t) job.limit (job.results.drop w.next))
  else if decide (w.active.length < job.limit) &&
      disjointFromResults (job.hostAt t) (job.resultAt w.next) (w.active.map job.resultAt) then
    [w.next]
  else []

def start (w : Window) (indices : List Nat) : Window :=
  { w with
    next := w.next + indices.length
    active := w.active ++ indices
    log := w.log ++ indices.map .started }

def finish (w : Window) (index : Nat) (ok : Bool) : Window :=
  { w with
    active := w.active.erase index
    waiting := false
    failure := if ok then w.failure else some (w.failure.getD index)
    log := w.log ++ [.ended index ok] }

def step (job : Job) (t : FileTree Text α) (w : Window) : Event → Option Window
  | .launch =>
    if w.waiting || (w.startable job t).isEmpty then none
    else some (w.start (w.startable job t))
  | .wait =>
    if !w.waiting && (w.startable job t).isEmpty && !w.active.isEmpty then
      some { w with waiting := true }
    else none
  | .finish index ok =>
    if w.waiting && w.active.contains index then some (w.finish index ok) else none

def Done (job : Job) (w : Window) : Prop :=
  w.active = [] ∧ (w.failure.isSome ∨ job.results.length ≤ w.next)

variable {job : Job} {t : FileTree Text α} {w w' : Window}

/-! ## What is started -/

/-- Results are started in their order, only while none has failed and there is room for them, and
they overlap neither those in the window nor each other. -/
structure Startable (job : Job) (w : Window) (indices : List Nat) : Prop where
  consecutive : indices = List.range' w.next indices.length
  running : w.failure = none
  inside : w.next + indices.length ≤ job.results.length
  room : w.active.length + indices.length ≤ job.limit
  active : ∀ i ∈ w.active, ∀ j ∈ indices, ¬ job.Overlap i j
  pairwise : indices.Pairwise fun i j => ¬ job.Overlap i j

lemma separate_host {left right : Result} (h : Separate (job.hostAt t) left right) :
    Separate job.host left right := by
  refine h.mono fun path own hown => ?_
  simp only [Actions.footprint, Job.hostAt, Option.map] at hown
  split at hown
  case h_1 => cases hown
  case h_2 canonical hcanonical =>
    simp only [resolveExistingAncestors] at hcanonical
    split_ifs at hcanonical
    cases hcanonical
    exact hown

lemma separate_range' {start len : Nat} (hle : start + len ≤ job.results.length)
    (h : ((job.results.drop start).take len).Pairwise (Separate (job.hostAt t))) :
    (List.range' start len).Pairwise fun i j => ¬ job.Overlap i j := by
  rw [pairwise_iff_getElem] at h ⊢
  intro i j hi hj hij
  simp only [length_range'] at hi hj
  have hlen : ((job.results.drop start).take len).length = len := by
    rw [length_take, length_drop]
    omega
  have hsep := separate_host (h i j (hlen.symm ▸ hi) (hlen.symm ▸ hj) hij)
  have hi' : start + i < job.results.length := by omega
  have hj' : start + j < job.results.length := by omega
  simpa [Job.Overlap, Job.resultAt, hi', hj'] using hsep

lemma startable_spec (h : (w.startable job t).isEmpty = false) :
    Startable job w (w.startable job t) := by
  unfold startable at h ⊢
  split at h
  case isTrue => cases h
  case isFalse hopen =>
    simp only [Bool.or_eq_true, decide_eq_true_eq, not_or, Bool.not_eq_true,
      Option.isSome_eq_false_iff,
      Option.isNone_iff_eq_none, not_le] at hopen
    obtain ⟨hfailure, hnext⟩ := hopen
    rw [if_neg (by simp [hfailure, hnext])]
    split at h
    case isTrue hempty =>
      -- the window is empty: a batch is opened
      have hactive : w.active = [] := isEmpty_iff.mp hempty
      have hrest : job.results.drop w.next ≠ [] := by
        simpa [drop_eq_nil_iff] using hnext
      have hlen : w.next + batchLen (job.hostAt t) job.limit (job.results.drop w.next) ≤
          job.results.length := by
        have hle : batchLen (job.hostAt t) job.limit (job.results.drop w.next) ≤
            (job.results.drop w.next).length := batchLen_le_length hrest
        rw [length_drop] at hle
        omega
      rw [if_pos hempty]
      refine ⟨by rw [length_range'], hfailure, by rwa [length_range'], ?_, ?_,
        separate_range' hlen (separate_batch _)⟩
      · rw [hactive, length_nil, Nat.zero_add, length_range']
        refine (batchLen_le _).trans ?_
        simp [Job.limit]
      · rw [hactive]
        exact fun i hi => absurd hi not_mem_nil
    case isFalse hempty =>
      rw [if_neg hempty]
      split at h
      case isFalse => cases h
      case isTrue hroom =>
        -- the next result joins those in the window
        rw [if_pos hroom]
        obtain ⟨hroom, hdisjoint⟩ := Bool.and_eq_true_iff.mp hroom
        refine ⟨rfl, hfailure, hnext, of_decide_eq_true hroom, ?_, pairwise_singleton _ _⟩
        intro i hi j hj
        rw [mem_singleton.mp hj]
        exact not_not_intro
          (separate_host (separate_of_disjointFromResults hdisjoint (mem_map_of_mem hi)))

lemma step_cases {event : Event} (h : step job t w event = some w') :
    (∃ indices, event = .launch ∧ Startable job w indices ∧ w' = w.start indices) ∨
      (event = .wait ∧ w' = { w with waiting := true }) ∨
      ∃ index ok, event = .finish index ok ∧ index ∈ w.active ∧ w' = w.finish index ok := by
  cases event with
  | launch =>
    simp only [step] at h
    split at h
    · cases h
    case isFalse hsome =>
      rw [Bool.or_eq_true, not_or] at hsome
      exact .inl ⟨_, rfl, startable_spec (Bool.eq_false_iff.mpr hsome.2), (Option.some.inj h).symm⟩
  | wait =>
    simp only [step] at h
    split at h
    · exact .inr (.inl ⟨rfl, (Option.some.inj h).symm⟩)
    · cases h
  | finish index ok =>
    simp only [step] at h
    split at h
    case isTrue hready =>
      have hmem : index ∈ w.active := by
        simpa using (Bool.and_eq_true_iff.mp hready).2
      exact .inr (.inr ⟨index, ok, rfl, hmem, (Option.some.inj h).symm⟩)
    · cases h

variable {indices : List Nat}

lemma Startable.mem_iff (h : Startable job w indices) {j : Nat} :
    j ∈ indices ↔ w.next ≤ j ∧ j < w.next + indices.length := by
  rw [h.consecutive, mem_range'_1, length_range']

lemma Startable.not_overlap (h : Startable job w indices) {i j : Nat} (hi : i ∈ indices)
    (hj : j ∈ indices) (hij : i < j) : ¬ job.Overlap i j := by
  obtain ⟨k, hk, rfl⟩ := getElem_of_mem hi
  obtain ⟨l, hl, rfl⟩ := getElem_of_mem hj
  have hval : ∀ n (hn : n < indices.length), indices[n] = w.next + n := by
    intro n hn
    have hget : indices[n]? = some (w.next + n) := by
      rw [h.consecutive, getElem?_range' hn, Nat.one_mul]
    exact (List.getElem?_eq_some_iff.mp hget).2
  rw [hval k hk, hval l hl] at hij
  exact pairwise_iff_getElem.mp h.pairwise k l hk hl (Nat.lt_of_add_lt_add_left hij)

/-! ## What the log shows -/

def starts (log : List Mark) : List Nat :=
  log.filterMap fun
    | .started index => some index
    | .ended _ _ => none

/-- A result is started only after every earlier one that it overlaps has ended. -/
def Ordered (job : Job) (log : List Mark) : Prop :=
  ∀ before i j, before ++ [.started j] <+: log → i < j → job.Overlap i j →
    ∃ ok, .ended i ok ∈ before

def StopsAtFailure (log : List Mark) : Prop :=
  log.Pairwise fun earlier later => ∀ i j, earlier = .ended i false → later ≠ .started j

lemma starts_append (log more : List Mark) : starts (log ++ more) = starts log ++ starts more :=
  filterMap_append

lemma starts_started (indices : List Nat) : starts (indices.map .started) = indices := by
  simp [starts, filterMap_map]

lemma Ordered.append {log more : List Mark} (h : Ordered job log)
    (hnew : ∀ i j, .started j ∈ more → i < j → job.Overlap i j → ∃ ok, .ended i ok ∈ log) :
    Ordered job (log ++ more) := by
  intro before i j hbefore hij hoverlap
  rcases prefix_or_prefix_of_prefix hbefore (prefix_append log more) with hold | hlog
  · exact h before i j hold hij hoverlap
  · rcases prefix_concat_iff.mp hlog with heq | ⟨rest, rfl⟩
    · exact h before i j (heq ▸ prefix_refl _) hij hoverlap
    · -- the start is one of the new marks and all of the old log is before it
      rw [append_assoc, prefix_append_right_inj] at hbefore
      have hmem : Mark.started j ∈ more := hbefore.subset (mem_append_right _ mem_cons_self)
      obtain ⟨ok, hended⟩ := hnew i j hmem hij hoverlap
      exact ⟨ok, mem_append_left _ hended⟩

/-! ## Invariant of the loop -/

structure Sound (job : Job) (w : Window) : Prop where
  next_le : w.next ≤ job.results.length
  active_lt : ∀ i ∈ w.active, i < w.next
  nodup : w.active.Nodup
  room : w.active.length ≤ job.limit
  starts : starts w.log = List.range w.next
  ended : ∀ i < w.next, i ∉ w.active → ∃ ok, .ended i ok ∈ w.log
  clear : ∀ i ∈ w.active, ∀ j < w.next, i < j → ¬ job.Overlap i j
  failure : w.failure = none → ∀ i, .ended i false ∉ w.log
  ordered : Ordered job w.log
  stops : StopsAtFailure w.log

lemma sound_empty (job : Job) : Sound job empty where
  next_le := Nat.zero_le _
  active_lt _ hi := absurd hi not_mem_nil
  nodup := nodup_nil
  room := Nat.zero_le _
  starts := rfl
  ended _ hi := absurd hi (Nat.not_lt_zero _)
  clear _ hi := absurd hi not_mem_nil
  failure _ _ := not_mem_nil
  ordered before i j h := by
    have hlen := h.length_le
    simp [empty] at hlen
  stops := Pairwise.nil

lemma Sound.start (h : Sound job w) (hs : Startable job w indices) :
    Sound job (w.start indices) where
  next_le := hs.inside
  active_lt i hi := by
    rcases mem_append.mp hi with hi | hi
    · exact Nat.lt_of_lt_of_le (h.active_lt i hi) (Nat.le_add_right _ _)
    · exact (hs.mem_iff.mp hi).2
  nodup := by
    refine nodup_append.mpr ⟨h.nodup, ?_, fun i hi j hj heq => ?_⟩
    · rw [hs.consecutive]
      exact nodup_range'
    · have hlt := h.active_lt i hi
      have hge := (hs.mem_iff.mp hj).1
      omega
  room := by
    rw [Window.start, length_append]
    exact hs.room
  starts := by
    rw [Window.start, starts_append, starts_started, h.starts, range_eq_range',
      range_eq_range', ← range'_append_1, Nat.zero_add, ← hs.consecutive]
  ended i hi hnot := by
    obtain ⟨hactive, hindices⟩ := not_or.mp (mt mem_append.mpr hnot)
    have hold : i < w.next := by
      by_contra hge
      exact hindices (hs.mem_iff.mpr ⟨Nat.le_of_not_lt hge, hi⟩)
    obtain ⟨ok, hended⟩ := h.ended i hold hactive
    exact ⟨ok, mem_append_left _ hended⟩
  clear i hi j hj hij := by
    have hnew : w.next ≤ j → j ∈ indices := fun hge => hs.mem_iff.mpr ⟨hge, hj⟩
    rcases mem_append.mp hi with hi | hi
    · rcases Nat.lt_or_ge j w.next with hold | hge
      · exact h.clear i hi j hold hij
      · exact hs.active i hi j (hnew hge)
    · exact hs.not_overlap hi (hnew ((hs.mem_iff.mp hi).1.trans hij.le)) hij
  failure hnone i hended := by
    rcases mem_append.mp hended with hended | hended
    · exact h.failure hs.running i hended
    · obtain ⟨j, -, heq⟩ := mem_map.mp hended
      cases heq
  ordered := by
    refine h.ordered.append fun i j hj hij hoverlap => ?_
    obtain ⟨j', hj, heq⟩ := mem_map.mp hj
    cases heq
    have hold : i < w.next := by
      by_contra hge
      have hi : i ∈ indices := hs.mem_iff.mpr ⟨Nat.le_of_not_lt hge, hij.trans (hs.mem_iff.mp hj).2⟩
      exact hs.not_overlap hi hj hij hoverlap
    exact h.ended i hold fun hi => hs.active i hi j hj hoverlap
  stops := by
    refine pairwise_append.mpr ⟨h.stops, ?_, fun m hm _ _ i j heq => ?_⟩
    · refine pairwise_map.mpr (pairwise_of_forall fun _ _ i j heq => ?_)
      cases heq
    · -- no failure has been seen before the start
      exact absurd (heq ▸ hm) (h.failure hs.running i)

lemma Sound.wait (h : Sound job w) : Sound job { w with waiting := true } :=
  ⟨h.next_le, h.active_lt, h.nodup, h.room, h.starts, h.ended, h.clear, h.failure, h.ordered,
    h.stops⟩

lemma Sound.finish {index : Nat} (h : Sound job w) (hmem : index ∈ w.active) (ok : Bool) :
    Sound job (w.finish index ok) where
  next_le := h.next_le
  active_lt i hi := h.active_lt i (mem_of_mem_erase hi)
  nodup := h.nodup.erase index
  room := (length_erase_le).trans h.room
  starts := by
    rw [Window.finish, starts_append, h.starts]
    exact append_nil _
  ended i hi hnot := by
    rcases eq_or_ne i index with rfl | hne
    · exact ⟨ok, mem_append_right _ mem_cons_self⟩
    · have hactive : i ∉ w.active := fun hi => hnot ((mem_erase_of_ne hne).mpr hi)
      obtain ⟨ok', hended⟩ := h.ended i hi hactive
      exact ⟨ok', mem_append_left _ hended⟩
  clear i hi := h.clear i (mem_of_mem_erase hi)
  failure hnone i hended := by
    cases ok with
    | false => cases hnone
    | true =>
      rcases mem_append.mp hended with hended | hended
      · exact h.failure hnone i hended
      · cases mem_singleton.mp hended
  ordered := by
    refine h.ordered.append fun i j hj => ?_
    cases mem_singleton.mp hj
  stops := by
    refine pairwise_append.mpr ⟨h.stops, pairwise_singleton _ _, ?_⟩
    intro m _ m' hm' i j _ heq
    rw [mem_singleton.mp hm'] at heq
    cases heq

end Window

end OnceBuild.Materialization
