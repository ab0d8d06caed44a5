import OnceBuild.Actions.AvailableInput
import OnceBuild.Scheduler.Ranking

/-!
# State of a graph build

Model of `BuildState`: counters of the dependencies a target still waits for, counters of the
readers an outcome still has, the heap of ready targets and the outcomes that someone will still
read.
-/

namespace OnceBuild.Scheduler

open List

open Actions (AvailableInputs)

/-- The dependency lists of a target: the `deps` role and the named roles. -/
structure GraphTarget where
  deps : List TargetId
  dependencyEdges : List (String × List TargetId)
  deriving DecidableEq

def GraphTarget.dependencyIds (t : GraphTarget) : List TargetId :=
  t.deps ++ t.dependencyEdges.flatMap Prod.snd

variable {P : Type}

/-- What a finished target hands to its dependents; `P` is the type of provider values. -/
structure BuildOutcome (P : Type) where
  provider : P
  actionDigest : Cas.Digest
  availableInputs : AvailableInputs

structure DependencyInputs (P : Type) where
  providers : List P
  providersByRole : List (String × List P)
  actionDigests : List (TargetId × Cas.Digest)
  availableInputs : AvailableInputs

structure BuildState (P : Type) where
  remainingDeps : TargetId → Option Nat
  dependents : TargetId → Option (List TargetId)
  criticalDepths : AList fun _ : TargetId => Nat
  remainingReaders : TargetId → Option Nat
  ready : List (Nat × TargetId)
  outcomes : TargetId → Option (BuildOutcome P)
  completed : Nat

/-! ## Construction -/

/-- Dependencies of `t` that belong to the build, as often as they are listed. -/
def reachableDeps (targets : TargetId → Option GraphTarget) (reachable : List TargetId)
    (t : TargetId) : List TargetId :=
  match targets t with
  | none => []
  | some target => target.dependencyIds.filter (· ∈ reachable)

/-- Readers of each outcome: one per edge, and the caller for a retained target. -/
def countReaders (dependents : TargetId → Option (List TargetId)) (retained : List TargetId) :
    TargetId → Option Nat :=
  retained.foldl (fun readers t => Function.update readers t (some ((readers t).getD 0 + 1)))
    fun t => (dependents t).map List.length

/-- `BuildState::new`.  The first loop returns at the first target that is not in the graph. -/
def BuildState.new (targets : TargetId → Option GraphTarget) (reachable retained : List TargetId) :
    Except BuildError (BuildState P) :=
  match reachable.find? fun t => (targets t).isNone with
  | some t => .error (.vanished t)
  | none =>
    let deps := reachableDeps targets reachable
    let dependents := Lib.invert deps reachable
    match Scheduler.criticalDepths reachable dependents with
    | .error e => .error e
    | .ok depths =>
      .ok {
        remainingDeps := fun t => if t ∈ reachable then some (deps t).length else none
        dependents := dependents
        criticalDepths := depths
        remainingReaders := countReaders dependents retained
        ready := (reachable.filter fun t => (deps t).length = 0).map fun t =>
          ((depths.lookup t).getD 1, t)
        outcomes := fun _ => none
        completed := 0 }

/-! ## Completion -/

def BuildState.recordCompletion (s : BuildState P) (t : TargetId) (outcome : BuildOutcome P) :
    Except BuildError (BuildState P) :=
  match Lib.countdown s.remainingDeps ((s.dependents t).getD []) with
  | .error (.missing v) => .error (.missingDependencyCount v)
  | .error fault => .error (.panicked fault)
  | .ok (remaining, pushed) =>
    .ok { s with
      remainingDeps := remaining
      ready := s.ready ++ pushed.map fun v => ((s.criticalDepths.lookup v).getD 1, v)
      outcomes := Function.update s.outcomes t (some outcome)
      completed := s.completed + 1 }

/-! ## Reading dependencies -/

def BuildState.readDependency (s : BuildState P) (d : TargetId) :
    Except BuildError (BuildOutcome P × BuildState P) :=
  match s.remainingReaders d with
  | none => .error (.missingReaderCount d)
  | some 0 => .error (.noRemainingReaders d)
  | some (k + 1) =>
    match s.outcomes d with
    | none => .error (.missingOutcome d)
    | some outcome =>
      .ok (outcome, { s with
          remainingReaders := Function.update s.remainingReaders d (some k)
          outcomes := if k = 0 then Function.update s.outcomes d none else s.outcomes })

def BuildState.readAll (s : BuildState P) :
    List TargetId → Except BuildError (List (TargetId × BuildOutcome P) × BuildState P)
  | [] => .ok ([], s)
  | d :: ids =>
    match s.readDependency d with
    | .error e => .error e
    | .ok (outcome, s) =>
      match s.readAll ids with
      | .error e => .error e
      | .ok (outcomes, s) => .ok ((d, outcome) :: outcomes, s)

def BuildState.readRoles (s : BuildState P) (reachable : List TargetId) :
    List (String × List TargetId) →
      Except BuildError (List (String × List (TargetId × BuildOutcome P)) × BuildState P)
  | [] => .ok ([], s)
  | (role, ids) :: roles =>
    match s.readAll (ids.filter (· ∈ reachable)) with
    | .error e => .error e
    | .ok (outcomes, s) =>
      match s.readRoles reachable roles with
      | .error e => .error e
      | .ok (rest, s) => .ok ((role, outcomes) :: rest, s)

/-- Later inputs replace earlier ones, and none of them is the reader's own. -/
def extendInputs (inputs : AvailableInputs) (outcome : BuildOutcome P) : AvailableInputs :=
  fun path =>
    match outcome.availableInputs path with
    | some input => some { input with sameTarget := false }
    | none => inputs path

def BuildState.dependencyInputs (s : BuildState P) (target : GraphTarget)
    (reachable : List TargetId) : Except BuildError (DependencyInputs P × BuildState P) :=
  match s.readAll (target.deps.filter (· ∈ reachable)) with
  | .error e => .error e
  | .ok (deps, s) =>
    match s.readRoles reachable target.dependencyEdges with
    | .error e => .error e
    | .ok (roles, s) =>
      let read := deps ++ roles.flatMap Prod.snd
      .ok ({
        providers := deps.map fun d => d.2.provider
        providersByRole := roles.map fun r => (r.1, r.2.map fun d => d.2.provider)
        actionDigests := read.map fun d => (d.1, d.2.actionDigest)
        availableInputs := (read.map Prod.snd).foldl extendInputs fun _ => none }, s)

/-! ## What reading does to the counters and the outcomes -/

/-- `s'` is `s` after the dependencies `ids` were read, each as often as it is listed. -/
structure Reads (ids : List TargetId) (s s' : BuildState P) : Prop where
  same_deps : s'.remainingDeps = s.remainingDeps
  same_dependents : s'.dependents = s.dependents
  same_depths : s'.criticalDepths = s.criticalDepths
  same_ready : s'.ready = s.ready
  same_completed : s'.completed = s.completed
  readers : ∀ d n, s.remainingReaders d = some n → s'.remainingReaders d = some (n - ids.count d)
  readers_none : ∀ d, s.remainingReaders d = none → s'.remainingReaders d = none
  outcomes : ∀ d n, s.remainingReaders d = some n →
    s'.outcomes d = if d ∈ ids ∧ n = ids.count d then none else s.outcomes d
  outcomes_other : ∀ d ∉ ids, s'.outcomes d = s.outcomes d

/-- The state can serve the reads `ids`: counters are large enough and outcomes are there. -/
def Serves (ids : List TargetId) (s : BuildState P) : Prop :=
  ∀ d ∈ ids, (∃ n, s.remainingReaders d = some n ∧ ids.count d ≤ n) ∧ (s.outcomes d).isSome = true

lemma Reads.nil (s : BuildState P) : Reads [] s s where
  same_deps := rfl
  same_dependents := rfl
  same_depths := rfl
  same_ready := rfl
  same_completed := rfl
  readers := by simp
  readers_none := by simp
  outcomes := by simp
  outcomes_other := by simp

variable {ids more : List TargetId} {s : BuildState P}

lemma Reads.append {s' s'' : BuildState P} (h : Reads ids s s') (h' : Reads more s' s'')
    (hserves : Serves (ids ++ more) s) : Reads (ids ++ more) s s'' where
  same_deps := h'.same_deps.trans h.same_deps
  same_dependents := h'.same_dependents.trans h.same_dependents
  same_depths := h'.same_depths.trans h.same_depths
  same_ready := h'.same_ready.trans h.same_ready
  same_completed := h'.same_completed.trans h.same_completed
  readers := by
    intro d n hn
    rw [h'.readers d _ (h.readers d n hn), count_append, Nat.sub_sub]
  readers_none := fun d hd => h'.readers_none d (h.readers_none d hd)
  outcomes := by
    intro d n hn
    rw [h'.outcomes d _ (h.readers d n hn), h.outcomes d n hn]
    by_cases hids : d ∈ ids
    · obtain ⟨⟨k, hk, hle⟩, -⟩ := hserves d (mem_append_left more hids)
      obtain rfl : n = k := by simpa [hn] using hk
      rw [count_append] at hle ⊢
      by_cases hmore : d ∈ more
      · simp only [hmore, true_and, hids, mem_append, true_or]
        split_ifs <;> first | rfl | omega
      · have hzero := count_eq_zero_of_not_mem hmore
        simp [hmore, hids, hzero]
    · have hzero := count_eq_zero_of_not_mem hids
      simp [hids, hzero]
  outcomes_other := by
    intro d hd
    rw [mem_append, not_or] at hd
    rw [h'.outcomes_other d hd.2, h.outcomes_other d hd.1]

lemma readDependency_ok {d : TargetId} (h : Serves [d] s) :
    ∃ outcome s', s.readDependency d = .ok (outcome, s') ∧ Reads [d] s s' := by
  obtain ⟨⟨n, hn, hle⟩, hsome⟩ := h d (by simp)
  obtain ⟨outcome, houtcome⟩ := Option.isSome_iff_exists.mp hsome
  obtain ⟨k, rfl⟩ : ∃ k, n = k + 1 := ⟨n - 1, by simp at hle; omega⟩
  refine ⟨outcome, _, by simp only [BuildState.readDependency, hn, houtcome]; rfl, ?_⟩
  refine ⟨rfl, rfl, rfl, rfl, rfl, ?_, ?_, ?_, ?_⟩
  · intro x m hm
    by_cases hx : x = d
    · subst hx
      obtain rfl : k + 1 = m := by simpa [hn] using hm
      simp
    · simp [hx, Ne.symm hx, hm]
  · intro x hx
    have hxd : x ≠ d := by rintro rfl; simp [hn] at hx
    simp [hxd, hx]
  · intro x m hm
    by_cases hx : x = d
    · subst hx
      obtain rfl : k + 1 = m := by simpa [hn] using hm
      by_cases hk : k = 0 <;> simp [hk]
    · by_cases hk : k = 0 <;> simp [hk, hx]
  · intro x hx
    have hxd : x ≠ d := by simpa using hx
    by_cases hk : k = 0 <;> simp [hk, hxd]

lemma Serves.tail {s' : BuildState P} (h : Serves (ids ++ more) s) (hr : Reads ids s s') :
    Serves more s' := by
  intro d hd
  obtain ⟨⟨n, hn, hle⟩, hsome⟩ := h d (mem_append_right ids hd)
  rw [count_append] at hle
  refine ⟨⟨n - ids.count d, hr.readers d n hn, by omega⟩, ?_⟩
  have hpos := count_pos_iff.mpr hd
  rw [hr.outcomes d n hn, if_neg (by omega)]
  exact hsome

lemma Serves.head (h : Serves (ids ++ more) s) : Serves ids s := by
  intro d hd
  obtain ⟨⟨n, hn, hle⟩, hsome⟩ := h d (mem_append_left more hd)
  rw [count_append] at hle
  exact ⟨⟨n, hn, by omega⟩, hsome⟩

lemma readAll_ok (h : Serves ids s) :
    ∃ outcomes s', s.readAll ids = .ok (outcomes, s') ∧ Reads ids s s' := by
  induction ids generalizing s with
  | nil => exact ⟨[], s, rfl, Reads.nil s⟩
  | cons d ids ih =>
    have h' : Serves ([d] ++ ids) s := h
    obtain ⟨outcome, s₁, hread, hr⟩ := readDependency_ok h'.head
    obtain ⟨outcomes, s₂, hrest, hr'⟩ := ih (h'.tail hr)
    exact ⟨(d, outcome) :: outcomes, s₂, by simp [BuildState.readAll, hread, hrest],
      hr.append hr' h'⟩

lemma readRoles_ok {reachable : List TargetId} {roles : List (String × List TargetId)}
    (h : Serves ((roles.flatMap Prod.snd).filter (· ∈ reachable)) s) :
    ∃ outcomes s', s.readRoles reachable roles = .ok (outcomes, s') ∧
      Reads ((roles.flatMap Prod.snd).filter (· ∈ reachable)) s s' := by
  induction roles generalizing s with
  | nil => exact ⟨[], s, rfl, Reads.nil s⟩
  | cons role roles ih =>
    rw [flatMap_cons, filter_append] at h ⊢
    obtain ⟨outcomes, s₁, hread, hr⟩ := readAll_ok h.head
    obtain ⟨rest, s₂, hrest, hr'⟩ := ih (h.tail hr)
    exact ⟨(role.1, outcomes) :: rest, s₂, by simp [BuildState.readRoles, hread, hrest],
      hr.append hr' h⟩

/-- `dependency_inputs` reads every listed dependency of the build once per listing. -/
lemma dependencyInputs_ok {reachable : List TargetId} {target : GraphTarget}
    (h : Serves (target.dependencyIds.filter (· ∈ reachable)) s) :
    ∃ inputs s', s.dependencyInputs target reachable = .ok (inputs, s') ∧
      Reads (target.dependencyIds.filter (· ∈ reachable)) s s' := by
  unfold GraphTarget.dependencyIds at h ⊢
  rw [filter_append] at h ⊢
  obtain ⟨deps, s₁, hread, hr⟩ := readAll_ok h.head
  obtain ⟨roles, s₂, hroles, hr'⟩ := readRoles_ok (h.tail hr)
  exact ⟨_, s₂, by simp only [BuildState.dependencyInputs, hread, hroles]; rfl, hr.append hr' h⟩

end OnceBuild.Scheduler
