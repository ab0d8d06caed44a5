import Mathlib.Data.Fintype.EquivFin
import Mathlib.Order.WellFounded

/-!
# Counting down prerequisites

A finite multigraph is given by the list of prerequisites of each vertex, repetitions included.
`countdown` is the loop that a completed vertex runs over the vertices waiting for it: it takes one
off the counter of each and collects those that reach zero.  `Frontier` is the invariant of every
algorithm built on it, whether a vertex completes as soon as it is ready or only later:

* the counters are the numbers of outstanding prerequisites,
* the active vertices are those that wait for nothing and are not done.

When nothing is active, everything is done or the graph has a cycle.
-/

namespace OnceBuild.Lib

open List

universe u

variable {V : Type u} [DecidableEq V]

/-! ## The loop -/

inductive CountFault (V : Type u) where
  | missing (v : V)
  | underflow (v : V)
  deriving DecidableEq

/-- `for v in l { remaining[v] -= 1; if remaining[v] == 0 { push(v) } }`, with the pushed vertices
in order. -/
def countdown : (V → Option Nat) → List V → Except (CountFault V) ((V → Option Nat) × List V)
  | remaining, [] => .ok (remaining, [])
  | remaining, v :: l =>
    match remaining v with
    | none => .error (.missing v)
    | some 0 => .error (.underflow v)
    | some (k + 1) =>
      match countdown (Function.update remaining v (some k)) l with
      | .error e => .error e
      | .ok (remaining, pushed) => .ok (remaining, if k = 0 then v :: pushed else pushed)

/-- With large enough counters the loop takes off the multiplicities and pushes each vertex whose
counter is used up, once. -/
lemma countdown_ok {l : List V} {remaining : V → Option Nat} {k : V → Nat}
    (hk : ∀ v ∈ l, remaining v = some (k v)) (hle : ∀ v ∈ l, l.count v ≤ k v) :
    ∃ remaining' pushed, countdown remaining l = .ok (remaining', pushed) ∧
      (∀ v ∈ l, remaining' v = some (k v - l.count v)) ∧
      (∀ v ∉ l, remaining' v = remaining v) ∧ pushed.Nodup ∧
      ∀ v, v ∈ pushed ↔ v ∈ l ∧ k v = l.count v := by
  induction l generalizing remaining k with
  | nil => exact ⟨remaining, [], rfl, by simp, by simp, nodup_nil, by simp⟩
  | cons x l ih =>
    have hpos : 0 < k x := lt_of_lt_of_le (by simp) (hle x mem_cons_self)
    obtain ⟨n, hn⟩ : ∃ n, k x = n + 1 := ⟨k x - 1, by omega⟩
    have hx : remaining x = some (n + 1) := by rw [hk x mem_cons_self, hn]
    let k' : V → Nat := Function.update k x n
    have hk' : ∀ v ∈ l, Function.update remaining x (some n) v = some (k' v) := by
      intro v hv
      by_cases hvx : v = x
      · subst hvx; simp [k']
      · simp [k', hvx, hk v (mem_cons_of_mem x hv)]
    have hle' : ∀ v ∈ l, l.count v ≤ k' v := by
      intro v hv
      have := hle v (mem_cons_of_mem x hv)
      by_cases hvx : v = x
      · subst hvx
        simp only [count_cons_self] at this
        simp only [k', Function.update_self]
        omega
      · simpa [k', hvx, Ne.symm hvx] using this
    obtain ⟨r, pushed, hrun, hin, hout, hnodup, hmem⟩ := ih hk' hle'
    have hxr : r x = some (n - l.count x) := by
      by_cases hxl : x ∈ l
      · simpa [k'] using hin x hxl
      · simp [hout x hxl, count_eq_zero_of_not_mem hxl]
    have hxpushed : x ∈ pushed ↔ x ∈ l ∧ n = l.count x := by simpa [k'] using hmem x
    refine ⟨r, if n = 0 then x :: pushed else pushed, by simp [countdown, hx, hrun], ?_, ?_, ?_, ?_⟩
    · intro v hv
      by_cases hvx : v = x
      · subst hvx
        rw [hxr, count_cons_self]
        congr 1
        omega
      · have hvl : v ∈ l := (mem_cons.mp hv).resolve_left hvx
        simpa [k', hvx, Ne.symm hvx] using hin v hvl
    · intro v hv
      rw [mem_cons, not_or] at hv
      simp [hout v hv.2, hv.1]
    · split
      case isTrue h0 =>
        -- a counter that is already zero cannot be pushed again by the rest of the loop
        refine nodup_cons.mpr ⟨fun hin => ?_, hnodup⟩
        obtain ⟨hxl, heq⟩ := hxpushed.mp hin
        have := count_pos_iff.mpr hxl
        omega
      case isFalse => exact hnodup
    · intro v
      by_cases hvx : v = x
      · subst hvx
        have hzero : v ∉ l ↔ l.count v = 0 := by rw [count_eq_zero]
        split
        case isTrue h0 =>
          have := hle v mem_cons_self
          simp only [count_cons_self] at this
          simp [hn, h0, show l.count v = 0 by omega]
        case isFalse h0 =>
          rw [hxpushed, hn, count_cons_self]
          by_cases hvl : v ∈ l
          · simp [hvl]
          · have := hzero.mp hvl
            omega
      · have hpush : v ∈ (if n = 0 then x :: pushed else pushed) ↔ v ∈ pushed := by
          split <;> simp [hvx]
        rw [hpush, hmem v]
        simp [k', hvx, Ne.symm hvx]

/-! ## Outstanding prerequisites -/

section Graph

variable (prereqs : V → List V)

/-- How many prerequisites of `v` are not done, with multiplicity. -/
def outstanding (done : List V) (v : V) : Nat := ((prereqs v).filter (· ∉ done)).length

@[simp] lemma outstanding_nil (v : V) : outstanding prereqs [] v = (prereqs v).length := by
  simp [outstanding]

variable {done : List V} {v : V}

lemma outstanding_eq_zero : outstanding prereqs done v = 0 ↔ ∀ u ∈ prereqs v, u ∈ done := by
  simp [outstanding, filter_eq_nil_iff]

variable {u : V}

lemma outstanding_cons (hu : u ∉ done) (v : V) :
    outstanding prereqs (u :: done) v + (prereqs v).count u = outstanding prereqs done v := by
  unfold outstanding
  induction prereqs v with
  | nil => rfl
  | cons x l ih =>
    by_cases hxu : x = u
    · subst hxu
      simp only [mem_cons, true_or, not_true_eq_false, decide_false,
        filter_cons, hu, not_false_eq_true, decide_true, if_true, length_cons, count_cons_self]
      simp only [mem_cons] at ih
      simp only [Bool.false_eq_true, if_false]
      omega
    · by_cases hxd : x ∈ done
      · simpa [hxd, hxu] using ih
      · simp only [filter_cons, mem_cons, hxu, hxd, or_self, not_false_eq_true,
          decide_true, if_true, length_cons, count_cons_of_ne (Ne.symm hxu).symm]
        simp only [mem_cons] at ih
        omega

/-- The graph restricted to `vertices` has a cycle. -/
def Cyclic (vertices : List V) : Prop :=
  ∃ v ∈ vertices, Relation.TransGen (fun a b => b ∈ prereqs a) v v

/-- Vertices done latest first, each after all its prerequisites. -/
inductive Ordered : List V → Prop
  | nil : Ordered []
  | cons {v : V} {done : List V} (fresh : v ∉ done) (before : ∀ u ∈ prereqs v, u ∈ done)
      (rest : Ordered done) : Ordered (v :: done)

variable {prereqs}

omit [DecidableEq V] in
lemma Ordered.nodup (h : Ordered prereqs done) : done.Nodup := by
  induction h with
  | nil => exact nodup_nil
  | cons fresh _ _ ih => exact nodup_cons.mpr ⟨fresh, ih⟩

omit [DecidableEq V] in
lemma Ordered.closed (h : Ordered prereqs done) (hv : v ∈ done) (hu : u ∈ prereqs v) :
    u ∈ done := by
  induction h with
  | nil => cases hv
  | cons _ before _ ih =>
    rcases mem_cons.mp hv with rfl | hv
    · exact mem_cons_of_mem _ (before u hu)
    · exact mem_cons_of_mem _ (ih hv)

omit [DecidableEq V] in
lemma Ordered.not_cycle (h : Ordered prereqs done) (hv : v ∈ done) :
    ¬ Relation.TransGen (fun a b => b ∈ prereqs a) v v := by
  induction h with
  | nil => cases hv
  | @cons x done fresh before rest ih =>
    rcases mem_cons.mp hv with rfl | hv
    · intro hcycle
      have hreach : ∀ u, Relation.TransGen (fun a b => b ∈ prereqs a) v u → u ∈ done := by
        intro u hu
        induction hu with
        | single hstep => exact before _ hstep
        | tail _ hstep ih => exact rest.closed ih hstep
      exact fresh (hreach v hcycle)
    · exact ih hv

lemma exists_outstanding_eq_zero {vertices : List V}
    (hclosed : ∀ v ∈ vertices, ∀ u ∈ prereqs v, u ∈ vertices) (hacyclic : ¬ Cyclic prereqs vertices)
    (hv : v ∈ vertices) (hdone : v ∉ done) :
    ∃ w ∈ vertices, w ∉ done ∧ outstanding prereqs done w = 0 := by
  let S := { w : V // w ∈ vertices ∧ w ∉ done }
  let R : S → S → Prop := fun b a => Relation.TransGen (fun x y => y ∈ prereqs x) a.1 b.1
  have : Finite S := Finite.of_injective
    (fun w : S => (⟨w.1, w.2.1⟩ : { w : V // w ∈ vertices })) fun a b h =>
      Subtype.ext (Subtype.mk.inj h)
  have : Std.Irrefl R := ⟨fun a h => hacyclic ⟨a.1, a.2.1, h⟩⟩
  have hwf : WellFounded R := Finite.wellFounded_of_trans_of_irrefl R
  obtain ⟨w, -, hmin⟩ := hwf.has_min Set.univ ⟨⟨v, hv, hdone⟩, trivial⟩
  refine ⟨w.1, w.2.1, w.2.2, (outstanding_eq_zero prereqs).mpr fun u hu => ?_⟩
  by_contra hud
  exact hmin ⟨u, hclosed w.1 w.2.1 u hu, hud⟩ trivial (Relation.TransGen.single hu)

/-! ## The frontier -/

/-- State of a traversal that has completed `done` and may complete any of `active` next. -/
structure Frontier (vertices : List V) (prereqs : V → List V) (done active : List V)
    (remaining : V → Option Nat) : Prop where
  ordered : Ordered prereqs done
  done_mem : ∀ v ∈ done, v ∈ vertices
  counts : ∀ v ∈ vertices, remaining v = some (outstanding prereqs done v)
  active_nodup : active.Nodup
  active_iff : ∀ v, v ∈ active ↔ v ∈ vertices ∧ v ∉ done ∧ outstanding prereqs done v = 0

variable {vertices done active : List V} {remaining : V → Option Nat}

lemma Frontier.perm {active' : List V} (h : Frontier vertices prereqs done active remaining)
    (hp : active'.Perm active) : Frontier vertices prereqs done active' remaining :=
  ⟨h.ordered, h.done_mem, h.counts, hp.nodup_iff.mpr h.active_nodup,
    fun v => hp.mem_iff.trans (h.active_iff v)⟩

/-- Completing an active vertex: no counter is missing or underflows, and the vertices pushed are
those that now wait for nothing. -/
lemma Frontier.complete (h : Frontier vertices prereqs done active remaining) (hu : u ∈ active)
    {succs : List V} (hs : ∀ v, succs.count v = if v ∈ vertices then (prereqs v).count u else 0) :
    ∃ remaining' pushed, countdown remaining succs = .ok (remaining', pushed) ∧
      Frontier vertices prereqs (u :: done) (active.erase u ++ pushed) remaining' := by
  obtain ⟨huv, hud, huz⟩ := (h.active_iff u).mp hu
  have hmem : ∀ v, v ∈ succs ↔ v ∈ vertices ∧ u ∈ prereqs v := by
    intro v
    rw [← count_pos_iff, hs v]
    split
    case isTrue hv => simp [hv, count_pos_iff]
    case isFalse hv => simp [hv]
  have hstep := fun v => outstanding_cons prereqs hud v
  obtain ⟨r, pushed, hrun, hin, hout, hnodup, hpushed⟩ :=
    countdown_ok
      (fun v hv => h.counts v ((hmem v).mp hv).1)
      (fun v hv => by
        have := hstep v
        rw [hs v, if_pos ((hmem v).mp hv).1]
        omega)
  have hcount : ∀ v ∈ vertices, succs.count v = (prereqs v).count u := fun v hv => by
    rw [hs v, if_pos hv]
  have hnew : ∀ v, v ∈ pushed ↔ v ∈ vertices ∧ u ∈ prereqs v ∧
      outstanding prereqs (u :: done) v = 0 := by
    intro v
    rw [hpushed v, hmem v, and_assoc]
    refine and_congr_right fun hv => and_congr_right fun _ => ?_
    have := hstep v
    rw [hcount v hv]
    omega
  refine ⟨r, pushed, hrun, ⟨.cons hud ((outstanding_eq_zero prereqs).mp huz) h.ordered, ?_, ?_,
    ?_, ?_⟩⟩
  · intro v hv
    rcases mem_cons.mp hv with rfl | hv
    · exact huv
    · exact h.done_mem v hv
  · intro v hv
    by_cases hvs : v ∈ succs
    · have := hstep v
      rw [hin v hvs, hcount v hv]
      congr 1
      omega
    · have hzero : (prereqs v).count u = 0 := by
        rw [← hcount v hv, count_eq_zero_of_not_mem hvs]
      have := hstep v
      rw [hout v hvs, h.counts v hv]
      congr 1
      omega
  · refine nodup_append.mpr ⟨h.active_nodup.erase u, hnodup, ?_⟩
    rintro v hv _ hv' rfl
    have hz := ((h.active_iff v).mp (mem_of_mem_erase hv)).2.2
    have hpre := ((hnew v).mp hv').2.1
    exact hud ((outstanding_eq_zero prereqs).mp hz u hpre)
  · intro v
    rw [mem_append, h.active_nodup.mem_erase_iff, h.active_iff v, hnew v, mem_cons, not_or]
    have hle := hstep v
    constructor
    · rintro (⟨hne, hv, hd, hz⟩ | ⟨hv, hpre, hz⟩)
      · exact ⟨hv, ⟨hne, hd⟩, by omega⟩
      · refine ⟨hv, ⟨?_, fun hd => ?_⟩, hz⟩
        · rintro rfl
          exact hud ((outstanding_eq_zero prereqs).mp huz v hpre)
        · exact hud (h.ordered.closed hd hpre)
    · rintro ⟨hv, ⟨hne, hd⟩, hz⟩
      by_cases hpre : u ∈ prereqs v
      · exact Or.inr ⟨hv, hpre, hz⟩
      · rw [count_eq_zero_of_not_mem hpre] at hle
        exact Or.inl ⟨hne, hv, hd, by omega⟩

/-- A traversal with nothing active has finished, unless the graph has a cycle. -/
lemma Frontier.finished_iff (h : Frontier vertices prereqs done [] remaining)
    (hclosed : ∀ v ∈ vertices, ∀ u ∈ prereqs v, u ∈ vertices) :
    (∀ v ∈ vertices, v ∈ done) ↔ ¬ Cyclic prereqs vertices := by
  constructor
  · rintro hall ⟨v, hv, hcycle⟩
    exact h.ordered.not_cycle (hall v hv) hcycle
  · intro hacyclic v hv
    by_contra hvd
    obtain ⟨w, hw, hwd, hwz⟩ := exists_outstanding_eq_zero hclosed hacyclic hv hvd
    simpa using (h.active_iff w).mpr ⟨hw, hwd, hwz⟩

lemma Frontier.length_le (h : Frontier vertices prereqs done active remaining) :
    done.length ≤ vertices.length :=
  (h.ordered.nodup.subperm h.done_mem).length_le

lemma Frontier.finished_of_length (h : Frontier vertices prereqs done active remaining)
    (hlen : done.length = vertices.length) : ∀ v ∈ vertices, v ∈ done := by
  intro v hv
  exact ((h.ordered.nodup.subperm h.done_mem).perm_of_length_le (by omega)).symm.subset hv

end Graph

end OnceBuild.Lib
