import OnceBuild.Lib.Adjacency
import OnceBuild.Lib.Countdown
import OnceBuild.Lib.PathText

/-!
# Topology of a plan

A plan lists its nodes with the indices of the nodes they depend on, possibly several times.
`Topology.new` counts the dependencies of each node, lists its dependents, and rejects a plan with
an index out of bounds or with a cycle.
-/

namespace OnceBuild.Plans

open Lib List

/-- `PlanNode`; `A` is the type of actions. -/
structure PlanNode (A : Type) where
  label : Text
  action : A
  deps : List Nat

structure Plan (A : Type) where
  nodes : List (PlanNode A)

/-- `PlanError` over the errors of the core and of tasks; `panicked` stands for a subtraction below
zero or an index out of bounds in the scheduler itself. -/
inductive PlanError (E J : Type) where
  | cycle
  | badDep (dependency count : Nat)
  | failed (label : Text) (exitCode : Int)
  | task (error : J)
  | core (error : E)
  | panicked (fault : CountFault Nat)

variable {A E J : Type}

namespace Plan

def count (plan : Plan A) : Nat := plan.nodes.length

def indices (plan : Plan A) : List Nat := List.range plan.count

def deps (plan : Plan A) (index : Nat) : List Nat :=
  match plan.nodes[index]? with
  | some node => node.deps
  | none => []

end Plan

structure Topology where
  dependents : Nat → List Nat
  remaining : Nat → Option Nat

/-- The loop of `validate`: the number of nodes it visits.  Every round visits another node, so the
number of nodes bounds the rounds. -/
def validateLoop (dependents : Nat → List Nat) :
    Nat → (Nat → Option Nat) → List Nat → Nat → Except (CountFault Nat) Nat
  | 0, _, _, visited => .ok visited
  | fuel + 1, remaining, ready, visited =>
    match ready.getLast? with
    | none => .ok visited
    | some index =>
      match countdown remaining (dependents index) with
      | .error fault => .error fault
      | .ok (remaining, pushed) =>
        validateLoop dependents fuel remaining (ready.dropLast ++ pushed) (visited + 1)

def Topology.roots (topology : Topology) (plan : Plan A) : List Nat :=
  plan.indices.filter fun index => topology.remaining index == some 0

def Topology.validate (topology : Topology) (plan : Plan A) : Except (PlanError E J) Unit :=
  match validateLoop topology.dependents (plan.count + 1) topology.remaining
      (topology.roots plan) 0 with
  | .error fault => .error (.panicked fault)
  | .ok visited => if visited ≠ plan.count then .error .cycle else .ok ()

/-- The tables that `Topology::new` fills. -/
def Topology.tables (plan : Plan A) : Topology where
  dependents index := (invert plan.deps plan.indices index).getD []
  remaining index := plan.nodes[index]?.map fun node => node.deps.length

def Topology.new (plan : Plan A) : Except (PlanError E J) Topology :=
  match (plan.nodes.flatMap PlanNode.deps).find? fun d => decide (plan.count ≤ d) with
  | some dependency => .error (.badDep dependency plan.count)
  | none =>
    match (Topology.tables plan).validate plan with
    | .error error => .error error
    | .ok () => .ok (Topology.tables plan)

/-! ## What the tables say -/

variable {index : Nat}

namespace Plan

variable {plan : Plan A}

lemma mem_indices : index ∈ plan.indices ↔ index < plan.count := mem_range

lemma nodup_indices (plan : Plan A) : plan.indices.Nodup := nodup_range

/-- Every dependency is a node. -/
def Closed (plan : Plan A) : Prop := ∀ index, ∀ d ∈ plan.deps index, d ∈ plan.indices

lemma deps_of_get {node : PlanNode A} (h : plan.nodes[index]? = some node) :
    plan.deps index = node.deps := by
  simp only [deps, h]

lemma exists_deps {d : Nat} (h : d ∈ plan.nodes.flatMap PlanNode.deps) :
    ∃ index, d ∈ plan.deps index := by
  obtain ⟨node, hnode, hd⟩ := mem_flatMap.mp h
  obtain ⟨index, hindex⟩ := mem_iff_getElem?.mp hnode
  exact ⟨index, (deps_of_get hindex).symm ▸ hd⟩

lemma closed_of_find
    (h : (plan.nodes.flatMap PlanNode.deps).find? (fun d => decide (plan.count ≤ d)) = none) :
    plan.Closed := by
  intro index d hd
  cases hnode : plan.nodes[index]? with
  | none => simp [deps, hnode] at hd
  | some node =>
    rw [deps_of_get hnode] at hd
    have hmem : d ∈ plan.nodes.flatMap PlanNode.deps :=
      mem_flatMap.mpr ⟨node, mem_of_getElem? hnode, hd⟩
    have hlt := find?_eq_none.mp h d hmem
    exact mem_indices.mpr (by simpa using hlt)

end Plan

namespace Topology

variable (plan : Plan A)

lemma remaining_tables (h : index ∈ plan.indices) :
    (tables plan).remaining index = some (plan.deps index).length := by
  have hlt : index < plan.nodes.length := Plan.mem_indices.mp h
  have hnode := getElem?_eq_getElem hlt
  simp only [tables, hnode, Plan.deps, Option.map_some]

lemma dependents_tables (index : Nat) :
    (tables plan).dependents index = incoming plan.deps plan.indices index :=
  (tabulates_invert plan.deps plan.indices).getD index

lemma count_dependents (index v : Nat) : ((tables plan).dependents index).count v =
      if v ∈ plan.indices then (plan.deps v).count index else 0 := by
  rw [dependents_tables]
  exact count_incoming plan.deps plan.nodup_indices index v

lemma frontier_tables :
    Frontier plan.indices plan.deps [] ((tables plan).roots plan) (tables plan).remaining where
  ordered := Ordered.nil
  done_mem _ h := by cases h
  counts v hv := by rw [remaining_tables plan hv, outstanding_nil]
  active_nodup := plan.nodup_indices.filter _
  active_iff v := by
    rw [roots, mem_filter]
    constructor
    · rintro ⟨hv, hzero⟩
      rw [remaining_tables plan hv] at hzero
      exact ⟨hv, not_mem_nil, by simpa using hzero⟩
    · rintro ⟨hv, -, hzero⟩
      rw [outstanding_nil] at hzero
      rw [remaining_tables plan hv, hzero]
      exact ⟨hv, rfl⟩

lemma validateLoop_ok (fuel : Nat) {remaining : Nat → Option Nat} {ready done : List Nat}
    (h : Frontier plan.indices plan.deps done ready remaining)
    (hfuel : plan.count < done.length + fuel) :
    ∃ done' remaining', validateLoop (tables plan).dependents fuel remaining ready done.length =
        .ok done'.length ∧ Frontier plan.indices plan.deps done' [] remaining' := by
  induction fuel generalizing remaining ready done with
  | zero =>
    have hle := h.length_le
    rw [Plan.indices, length_range] at hle
    omega
  | succ fuel ih =>
    cases hlast : ready.getLast? with
    | none =>
      rw [getLast?_eq_none_iff] at hlast
      subst hlast
      exact ⟨done, remaining, rfl, h⟩
    | some index =>
      have hready : ready = ready.dropLast ++ [index] := (dropLast_append_getLast? index hlast).symm
      have hmem : index ∈ ready := mem_of_getLast? hlast
      rcases h.complete hmem (count_dependents plan index) with
        ⟨remaining', pushed, hrun, hnext⟩
      -- popping the last entry takes the node off the frontier
      have hperm : (ready.dropLast ++ pushed).Perm (ready.erase index ++ pushed) := by
        refine Perm.append_right pushed ?_
        have herase := perm_cons_erase hmem
        have hsplit : ready.Perm (index :: ready.dropLast) := by
          conv_lhs => rw [hready]
          exact perm_append_singleton index _
        exact (hsplit.symm.trans herase).cons_inv
      rcases ih (hnext.perm hperm) (by simp only [length_cons]; omega) with
        ⟨done', remaining'', hloop, hfinal⟩
      refine ⟨done', remaining'', ?_, hfinal⟩
      simp only [validateLoop, hlast, hrun]
      exact hloop

/-- `Topology::new` accepts exactly the plans without bad indices and cycles, and never panics. -/
lemma new_cases : (plan.Closed ∧ ¬ Cyclic plan.deps plan.indices ∧
      (Topology.new plan : Except (PlanError E J) Topology) = .ok (tables plan)) ∨
    (∃ d, ¬ plan.Closed ∧
      (Topology.new plan : Except (PlanError E J) Topology) = .error (.badDep d plan.count)) ∨
    ((plan.Closed ∧ Cyclic plan.deps plan.indices) ∧
      (Topology.new plan : Except (PlanError E J) Topology) = .error .cycle) := by
  unfold Topology.new
  cases hfind : (plan.nodes.flatMap PlanNode.deps).find? fun d => decide (plan.count ≤ d) with
  | some d =>
    refine .inr (.inl ⟨d, fun hclosed => ?_, rfl⟩)
    obtain ⟨index, hd⟩ := Plan.exists_deps (mem_of_find?_eq_some hfind)
    have hlt := Plan.mem_indices.mp (hclosed index d hd)
    have hge := find?_some hfind
    simp only [decide_eq_true_eq] at hge
    omega
  | none =>
    have hclosed := Plan.closed_of_find hfind
    have hframe : ∀ v ∈ plan.indices, ∀ u ∈ plan.deps v, u ∈ plan.indices :=
      fun v _ u hu => hclosed v u hu
    rcases validateLoop_ok plan (plan.count + 1) (frontier_tables plan) (by simp) with
      ⟨done, remaining, hloop, hfinal⟩
    have hvalidate : validateLoop (tables plan).dependents (plan.count + 1)
        (tables plan).remaining ((tables plan).roots plan) 0 = .ok done.length := hloop
    have hcount : plan.indices.length = plan.count := by simp [Plan.indices]
    by_cases hall : done.length = plan.count
    · refine .inl ⟨hclosed, ?_, ?_⟩
      · exact (hfinal.finished_iff hframe).mp (hfinal.finished_of_length (hall.trans hcount.symm))
      · simp only [Topology.validate, hvalidate, hall, ne_eq, not_true_eq_false, if_false]
    · refine .inr (.inr ⟨⟨hclosed, ?_⟩, ?_⟩)
      · by_contra hacyclic
        have hdone := (hfinal.finished_iff hframe).mpr hacyclic
        have hle := (plan.nodup_indices.subperm hdone).length_le
        have hle' := hfinal.length_le
        omega
      · simp only [Topology.validate, hvalidate, ne_eq, hall, not_false_eq_true, if_true]

/-- Which plans are accepted, and what is wrong with the others. -/
theorem new_exact (plan : Plan A) :
    ((∃ topology, (Topology.new plan : Except (PlanError E J) Topology) = .ok topology) ↔
      (∀ index, ∀ d ∈ plan.deps index, d < plan.count) ∧ ¬ Cyclic plan.deps plan.indices) ∧
    ((∃ d count, (Topology.new plan : Except (PlanError E J) Topology) = .error (.badDep d count)) ↔
      ∃ index, ∃ d ∈ plan.deps index, plan.count ≤ d) ∧
    ((Topology.new plan : Except (PlanError E J) Topology) = .error .cycle ↔
      (∀ index, ∀ d ∈ plan.deps index, d < plan.count) ∧ Cyclic plan.deps plan.indices) := by
  have hrange : (∀ index, ∀ d ∈ plan.deps index, d < plan.count) ↔ plan.Closed :=
    forall_congr' fun _ => forall₂_congr fun _ _ => Plan.mem_indices.symm
  have hbad : (∃ index, ∃ d ∈ plan.deps index, plan.count ≤ d) ↔ ¬ plan.Closed := by
    rw [← hrange]
    push Not
    rfl
  rw [hrange, hbad]
  -- each outcome excludes the other two
  rcases new_cases plan with ⟨hclosed, hacyclic, h⟩ | ⟨d, hopen, h⟩ |
    ⟨⟨hclosed, hcyclic⟩, h⟩
  · rw [h]
    simp [hclosed, hacyclic]
  · rw [h]
    simp [hopen]
  · rw [h]
    simp [hclosed, hcyclic]

end Topology
end OnceBuild.Plans
