import Mathlib.Data.List.Induction
import Mathlib.Order.Lattice

/-!
# Programs that take turns on a shared state

A program is a tree of operations that goes on according to what each operation answers.  Several
programs share one state and a schedule says whose turn it is.

Turns of programs whose operations commute can be swapped.  When in a schedule a later program only
gets ahead of an earlier one that it is independent of, all turns of the first program move to the
front, then those of the second, and so on: the schedule ends as the programs one after the other.
-/

namespace OnceBuild.Lib

open List Function

universe u v w x y

/-! ## Programs -/

/-- A program that performs operations of `Ω`, is answered in `R` and ends with a value. -/
inductive Program (Ω : Type u) (R : Type v) (β : Type x) where
  | done (value : β)
  | op (o : Ω) (next : R → Program Ω R β)

namespace Program

variable {Ω : Type u} {R : Type v} {β γ : Type x}

protected def bind : Program Ω R β → (β → Program Ω R γ) → Program Ω R γ
  | done value, f => f value
  | op o next, f => op o fun r => (next r).bind f

instance : Monad (Program Ω R) where
  pure := done
  bind := Program.bind

@[simp] lemma pure_eq (value : β) : (pure value : Program Ω R β) = done value := rfl

def perform (o : Ω) : Program Ω R R := op o done

/-- Every operation the program can come to meets `P`. -/
def Uses (P : Ω → Prop) : Program Ω R β → Prop
  | done _ => True
  | op o next => P o ∧ ∀ r, (next r).Uses P

variable {P : Ω → Prop} {p : Program Ω R β}

lemma Uses.mono {Q : Ω → Prop} (hPQ : ∀ o, P o → Q o) (h : p.Uses P) : p.Uses Q := by
  induction p with
  | done value => trivial
  | op o next ih => exact ⟨hPQ o h.1, fun r => ih r (h.2 r)⟩

variable {f : β → Program Ω R γ}

lemma Uses.bind (hp : p.Uses P) (hf : ∀ value, (f value).Uses P) : (p >>= f).Uses P := by
  induction p with
  | done value => exact hf value
  | op o next ih => exact ⟨hp.1, fun r => ih r (hp.2 r)⟩

/-- Whatever the answers, the program ends with a value that meets `Q`. -/
def Ends (Q : β → Prop) : Program Ω R β → Prop
  | done value => Q value
  | op _ next => ∀ r, (next r).Ends Q

lemma ends_true (p : Program Ω R β) : p.Ends fun _ => True := by
  induction p with
  | done value => trivial
  | op o next ih => exact ih

lemma Ends.bind {Q : β → Prop} {Q' : γ → Prop} (hp : p.Ends Q)
    (hf : ∀ value, Q value → (f value).Ends Q') : (p >>= f).Ends Q' := by
  induction p with
  | done value => exact hf value hp
  | op o next ih => exact fun r => ih r (hp r)

lemma Uses.bind_of_ends {Q : β → Prop} (hp : p.Uses P) (hends : p.Ends Q)
    (hf : ∀ value, Q value → (f value).Uses P) : (p >>= f).Uses P := by
  induction p with
  | done value => exact hf value hends
  | op o next ih => exact ⟨hp.1, fun r => ih r (hp.2 r) (hends r)⟩

/-- Run the program by itself: the state it leaves, what its operations answered and its value. -/
def alone {σ : Type w} (apply : Ω → σ → σ × R) : Program Ω R β → σ → σ × List R × β
  | done value, t => (t, [], value)
  | op o next, t =>
    let answer := apply o t
    let rest := (next answer.2).alone apply answer.1
    (rest.1, answer.2 :: rest.2.1, rest.2.2)

end Program

/-! ## Taking turns -/

structure Shared (ι : Type y) (σ : Type w) (Ω : Type u) (R : Type v) (β : Type x) where
  state : σ
  programs : ι → Program Ω R β
  /-- What the operations of each program have answered so far. -/
  seen : ι → List R

section Turns

variable {ι : Type y} {σ : Type w} {Ω : Type u} {R : Type v} {β : Type x} [DecidableEq ι]
variable (apply : Ω → σ → σ × R)

namespace Shared

variable (s : Shared ι σ Ω R β)

/-- One operation of program `i`; nothing when it is done. -/
def turn (i : ι) : Shared ι σ Ω R β :=
  match s.programs i with
  | .done _ => s
  | .op o next =>
    ⟨(apply o s.state).1, Function.update s.programs i (next (apply o s.state).2),
      Function.update s.seen i (s.seen i ++ [(apply o s.state).2])⟩

def exec (schedule : List ι) : Shared ι σ Ω R β := schedule.foldl (turn apply) s

/-- Program `i` from here to its end. -/
def toEnd (i : ι) : Shared ι σ Ω R β :=
  let run := (s.programs i).alone apply s.state
  ⟨run.1, Function.update s.programs i (.done run.2.2),
    Function.update s.seen i (s.seen i ++ run.2.1)⟩

def inOrder (order : List ι) : Shared ι σ Ω R β := order.foldl (toEnd apply) s

def Finished : Prop := ∀ i, ∃ value, s.programs i = .done value

end Shared

/-- In either order the two operations leave the same state and answer the same. -/
def Commute (o o' : Ω) : Prop :=
  ∀ t, (apply o' (apply o t).1).1 = (apply o (apply o' t).1).1 ∧
    (apply o (apply o' t).1).2 = (apply o t).2 ∧ (apply o' (apply o t).1).2 = (apply o' t).2

def KeepsTo (allowed : ι → Ω → Prop) (s : Shared ι σ Ω R β) : Prop :=
  ∀ i, (s.programs i).Uses (allowed i)

variable {apply} {allowed : ι → Ω → Prop} {s : Shared ι σ Ω R β}

variable {i : ι} {value : β}

lemma turn_of_done (h : s.programs i = .done value) : s.turn apply i = s := by
  simp only [Shared.turn, h]

variable {o : Ω}

variable {next : R → Program Ω R β}

lemma turn_of_op (h : s.programs i = .op o next) : s.turn apply i =
      ⟨(apply o s.state).1, Function.update s.programs i (next (apply o s.state).2),
        Function.update s.seen i (s.seen i ++ [(apply o s.state).2])⟩ := by
  simp only [Shared.turn, h]

variable {j : ι}

lemma programs_turn_of_ne (hij : i ≠ j) : (s.turn apply j).programs i = s.programs i := by
  cases hj : s.programs j with
  | done value => rw [turn_of_done hj]
  | op o next =>
    rw [turn_of_op hj]
    exact update_of_ne hij _ _

omit [DecidableEq ι] in
lemma KeepsTo.uses_op (h : KeepsTo allowed s) (hi : s.programs i = .op o next) :
    allowed i o ∧ ∀ r, (next r).Uses (allowed i) := by
  have huses := h i
  rw [hi] at huses
  exact huses

lemma KeepsTo.turn (h : KeepsTo allowed s) (i : ι) : KeepsTo allowed (s.turn apply i) := by
  cases hi : s.programs i with
  | done value => rwa [turn_of_done hi]
  | op o next =>
    intro j
    rcases eq_or_ne j i with rfl | hj
    · rw [turn_of_op hi]
      simpa using (h.uses_op hi).2 _
    · rw [programs_turn_of_ne hj]
      exact h j

lemma KeepsTo.exec (h : KeepsTo allowed s) (schedule : List ι) :
    KeepsTo allowed (s.exec apply schedule) := by
  induction schedule generalizing s with
  | nil => exact h
  | cons i schedule ih => exact ih (h.turn i)

lemma exec_pair (hij : i ≠ j) {o' : Ω} (hi : s.programs i = .op o fun _ => .done value)
    (hj : s.programs j = .op o' fun _ => .done value)
    (hrest : ∀ k, k ≠ i → k ≠ j → s.programs k = .done value) :
    (s.exec apply [i, j]).Finished ∧
      (s.exec apply [i, j]).seen i = s.seen i ++ [(apply o s.state).2] ∧
      (s.exec apply [i, j]).seen j = s.seen j ++ [(apply o' (apply o s.state).1).2] := by
  have hj' : (s.turn apply i).programs j = .op o' fun _ => .done value :=
    (programs_turn_of_ne hij.symm).trans hj
  simp only [Shared.exec, foldl_cons, foldl_nil, turn_of_op hj']
  simp only [turn_of_op hi]
  refine ⟨fun k => ⟨value, ?_⟩, ?_, ?_⟩
  · rcases eq_or_ne k j with rfl | hkj
    · exact update_self _ _ _
    · refine (update_of_ne hkj _ _).trans ?_
      rcases eq_or_ne k i with rfl | hki
      · exact update_self _ _ _
      · exact (update_of_ne hki _ _).trans (hrest k hki hkj)
  · rw [update_of_ne hij, update_self]
  · rw [update_self, update_of_ne hij.symm]

/-! ## Reordering schedules -/

/-- Whatever the two programs do, their operations commute. -/
def Independent (apply : Ω → σ → σ × R) (allowed : ι → Ω → Prop) (i j : ι) : Prop :=
  ∀ o o', allowed i o → allowed j o' → Commute apply o o'

lemma exec_append (schedule more : List ι) :
    s.exec apply (schedule ++ more) = (s.exec apply schedule).exec apply more :=
  foldl_append

lemma turn_comm (h : KeepsTo allowed s) (hij : i ≠ j) (hcomm : Independent apply allowed i j) :
    (s.turn apply i).turn apply j = (s.turn apply j).turn apply i := by
  have hi' : (s.turn apply j).programs i = s.programs i := programs_turn_of_ne hij
  have hj' : (s.turn apply i).programs j = s.programs j := programs_turn_of_ne hij.symm
  cases hi : s.programs i with
  | done value => rw [turn_of_done hi, turn_of_done (hi'.trans hi)]
  | op o next =>
    cases hj : s.programs j with
    | done value => rw [turn_of_done hj, turn_of_done (hj'.trans hj)]
    | op o' next' =>
      obtain ⟨hstate, hfirst, hsecond⟩ := hcomm o o' (h.uses_op hi).1 (h.uses_op hj).1 s.state
      rw [turn_of_op (hi'.trans hi), turn_of_op (hj'.trans hj), turn_of_op hi, turn_of_op hj]
      simp only [hstate, hfirst, hsecond, update_of_ne hij, update_of_ne hij.symm, update_comm hij]

lemma exec_turn_comm {schedule : List ι} (h : KeepsTo allowed s)
    (hcomm : ∀ j ∈ schedule, j ≠ i ∧ Independent apply allowed j i) :
    (s.exec apply schedule).turn apply i = (s.turn apply i).exec apply schedule := by
  induction schedule generalizing s with
  | nil => rfl
  | cons j schedule ih =>
    obtain ⟨hji, hindep⟩ := hcomm j mem_cons_self
    calc ((s.turn apply j).exec apply schedule).turn apply i
        = ((s.turn apply j).turn apply i).exec apply schedule :=
          ih (h.turn j) fun k hk => hcomm k (mem_cons_of_mem _ hk)
      _ = ((s.turn apply i).turn apply j).exec apply schedule := by
          rw [turn_comm h hji hindep]

/-- All turns of `i` move to the front when those before them are independent of `i`. -/
lemma exec_extract {schedule : List ι} (h : KeepsTo allowed s)
    (hcomm : schedule.Pairwise fun x y => y = i → x = i ∨ Independent apply allowed x i) :
    s.exec apply schedule = s.exec apply (schedule.filter (· = i) ++ schedule.filter (· ≠ i)) := by
  induction schedule using reverseRecOn with
  | nil => rfl
  | append_singleton schedule x ih =>
    obtain ⟨hinit, -, hlast⟩ := pairwise_append.mp hcomm
    rw [exec_append, ih hinit]
    rcases eq_or_ne x i with rfl | hx
    · -- the new turn passes over the turns of the others
      have hover : ∀ j ∈ schedule.filter (· ≠ x), j ≠ x ∧ Independent apply allowed j x := by
        intro j hj
        obtain ⟨hj, hne⟩ := mem_filter.mp hj
        have hne : j ≠ x := by simpa using hne
        exact ⟨hne, (hlast j hj x mem_cons_self rfl).resolve_left hne⟩
      have hkeeps : KeepsTo allowed (s.exec apply (schedule.filter (· = x))) := h.exec _
      have hpass := exec_turn_comm hkeeps hover
      simpa [Shared.exec] using hpass
    · simp [Shared.exec, hx]

/-! ## One program after the other -/

lemma exec_replicate_of_done (h : s.programs i = .done value) (n : Nat) :
    s.exec apply (List.replicate n i) = s := by
  induction n with
  | zero => rfl
  | succ n ih =>
    rw [replicate_succ, Shared.exec, foldl_cons, turn_of_done h]
    exact ih

lemma exists_exec_eq_toEnd (apply : Ω → σ → σ × R) (s : Shared ι σ Ω R β) (i : ι) :
    ∃ n, s.exec apply (List.replicate n i) = s.toEnd apply i := by
  generalize hp : s.programs i = p
  induction p generalizing s with
  | done value =>
    refine ⟨0, ?_⟩
    have hsame : update s.programs i (.done value) = s.programs := by
      rw [← hp, update_eq_self]
    simp [Shared.exec, Shared.toEnd, hp, Program.alone, hsame]
  | op o next ih =>
    have hnext : (s.turn apply i).programs i = next (apply o s.state).2 := by
      simp [turn_of_op hp]
    obtain ⟨n, hn⟩ := ih _ (s.turn apply i) hnext
    refine ⟨n + 1, ?_⟩
    refine hn.trans ?_
    simp [Shared.toEnd, hp, turn_of_op hp, Program.alone]

lemma exec_replicate_eq_toEnd {n : Nat}
    (h : (s.exec apply (List.replicate n i)).programs i = .done value) :
    s.exec apply (List.replicate n i) = s.toEnd apply i := by
  obtain ⟨m, hm⟩ := exists_exec_eq_toEnd apply s i
  have hdone : (s.exec apply (replicate m i)).programs i =
      .done ((s.programs i).alone apply s.state).2.2 := by
    rw [hm]
    exact update_self _ _ _
  have hboth : s.exec apply (replicate (n + m) i) = s.exec apply (replicate n i) := by
    rw [← replicate_append_replicate, exec_append, exec_replicate_of_done h]
  rw [← hboth, Nat.add_comm, ← replicate_append_replicate, exec_append,
    exec_replicate_of_done hdone, hm]

lemma programs_exec_of_notMem {schedule : List ι} (h : i ∉ schedule) :
    (s.exec apply schedule).programs i = s.programs i := by
  induction schedule generalizing s with
  | nil => rfl
  | cons j schedule ih =>
    have hij : i ≠ j := fun heq => h (heq ▸ mem_cons_self)
    have hrest : i ∉ schedule := fun hi => h (mem_cons_of_mem _ hi)
    exact (ih hrest).trans (programs_turn_of_ne hij)

end Turns

section Ordered

variable {ι : Type y} {σ : Type w} {Ω : Type u} {R : Type v} {β : Type x} [LinearOrder ι]
variable {apply : Ω → σ → σ × R} {allowed : ι → Ω → Prop} {s : Shared ι σ Ω R β}

lemma KeepsTo.toEnd (h : KeepsTo allowed s) (i : ι) : KeepsTo allowed (s.toEnd apply i) := by
  obtain ⟨n, hn⟩ := exists_exec_eq_toEnd apply s i
  rw [← hn]
  exact h.exec _

/-- A schedule in which a later program takes its turn before an earlier one only when the two are
independent ends, once all are done, as running them one after the other. -/
lemma exec_eq_inOrder {schedule order : List ι} (h : KeepsTo allowed s)
    (hsorted : order.Pairwise (· < ·)) (hmem : ∀ i ∈ schedule, i ∈ order)
    (hordered : schedule.Pairwise fun x y => x ≤ y ∨ Independent apply allowed x y)
    (hfin : (s.exec apply schedule).Finished) : s.exec apply schedule = s.inOrder apply order := by
  induction order generalizing s schedule with
  | nil =>
    obtain rfl : schedule = [] := eq_nil_iff_forall_not_mem.mpr fun i hi => by
      simpa using hmem i hi
    rfl
  | cons i order ih =>
    obtain ⟨hfirst, hrest⟩ := pairwise_cons.mp hsorted
    -- `i` is the first of all programs, so its turns move to the front
    have hextract : s.exec apply schedule =
        s.exec apply (schedule.filter (· = i) ++ schedule.filter (· ≠ i)) := by
      refine exec_extract h (hordered.imp_of_mem fun {x y} hx _ hxy hy => ?_)
      subst hy
      rcases mem_cons.mp (hmem x hx) with rfl | hx
      · exact Or.inl rfl
      · exact Or.inr (hxy.resolve_left (not_le.mpr (hfirst x hx)))
    have hfront : schedule.filter (· = i) = replicate (schedule.filter (· = i)).length i :=
      eq_replicate_iff.mpr ⟨rfl, fun j hj => by simpa using (mem_filter.mp hj).2⟩
    have hnot : i ∉ schedule.filter (· ≠ i) := by simp
    rw [hextract, exec_append] at hfin ⊢
    obtain ⟨value, hdone⟩ := hfin i
    rw [programs_exec_of_notMem hnot] at hdone
    rw [hfront] at hdone hfin ⊢
    rw [exec_replicate_eq_toEnd hdone] at hfin ⊢
    refine ih (h.toEnd i) hrest (fun j hj => ?_) (hordered.filter _) hfin
    obtain ⟨hj, hne⟩ := mem_filter.mp hj
    exact (mem_cons.mp (hmem j hj)).resolve_left (by simpa using hne)

end Ordered

end OnceBuild.Lib
