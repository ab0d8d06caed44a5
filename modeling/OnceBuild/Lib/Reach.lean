import Mathlib.Logic.Relation
import Mathlib.Data.List.Basic

/-!
# Reachability in a finite set of edges

The search keeps a stack of vertices to look at and the vertices it has already expanded.  Every
round takes one vertex off the stack, and what it pushes are edges no later round can push again,
so as many rounds as there are edges, and one for the start, are enough.

A set of edges stays free of cycles when an edge is added whose target does not reach its source.
-/

namespace OnceBuild.Lib

open List

universe u

section Search

variable {V : Type u} [DecidableEq V]

/-! ## The search -/

def Edge (edges : List (V × V)) (v w : V) : Prop := (v, w) ∈ edges

def successors (edges : List (V × V)) (v : V) : List V :=
  (edges.filter (fun e => e.1 = v)).map Prod.snd

variable {edges : List (V × V)}

lemma mem_successors {v w : V} : w ∈ successors edges v ↔ Edge edges v w := by
  simp [successors, Edge]

/-- Depth-first search for `goal` from the vertices on the stack. -/
def search (edges : List (V × V)) (goal : V) : Nat → List V → List V → Bool
  | 0, _, _ => false
  | _ + 1, [], _ => false
  | fuel + 1, v :: stack, seen =>
    if v = goal then true
    else if v ∈ seen then search edges goal fuel stack seen
    else search edges goal fuel (successors edges v ++ stack) (v :: seen)

/-- Edges that leave a vertex the search has not expanded. -/
def unexpanded (edges : List (V × V)) (seen : List V) : List (V × V) :=
  edges.filter (fun e => e.1 ∉ seen)

lemma length_unexpanded_cons (edges : List (V × V)) {v : V} {seen : List V} (hv : v ∉ seen) :
    (unexpanded edges (v :: seen)).length + (successors edges v).length =
      (unexpanded edges seen).length := by
  induction edges with
  | nil => rfl
  | cons e edges ih =>
    rcases e with ⟨x, y⟩
    simp only [unexpanded, successors, length_map] at ih ⊢
    by_cases hx : x = v
    · subst hx
      simp [hv] at ih ⊢
      omega
    · by_cases hs : x ∈ seen
      · simpa [hx, hs] using ih
      · simp [hx, hs] at ih ⊢
        omega

variable {goal : V}

lemma search_sound {fuel : Nat} {stack seen : List V}
    (h : search edges goal fuel stack seen = true) :
    ∃ v ∈ stack, Relation.ReflTransGen (Edge edges) v goal := by
  induction fuel generalizing stack seen with
  | zero => cases h
  | succ fuel ih =>
    cases stack with
    | nil => cases h
    | cons v stack =>
      simp only [search] at h
      split_ifs at h with hgoal hseen
      · exact ⟨v, mem_cons_self, hgoal ▸ Relation.ReflTransGen.refl⟩
      · obtain ⟨w, hw, hreach⟩ := ih h
        exact ⟨w, mem_cons_of_mem _ hw, hreach⟩
      · obtain ⟨w, hw, hreach⟩ := ih h
        rcases mem_append.mp hw with hnext | hrest
        · -- found through an edge out of `v`
          exact ⟨v, mem_cons_self, Relation.ReflTransGen.head (mem_successors.mp hnext) hreach⟩
        · exact ⟨w, mem_cons_of_mem _ hrest, hreach⟩

/-- With enough rounds a miss leaves a set around what was looked at that no edge leaves and that
does not hold the goal. -/
lemma search_complete {fuel : Nat} {stack seen : List V}
    (hfuel : stack.length + (unexpanded edges seen).length ≤ fuel) (hgoal : goal ∉ seen)
    (hseen : ∀ v ∈ seen, ∀ w, Edge edges v w → w ∈ seen ∨ w ∈ stack)
    (h : search edges goal fuel stack seen = false) :
    ∃ closed : List V, (∀ v, v ∈ seen ∨ v ∈ stack → v ∈ closed) ∧ goal ∉ closed ∧
      ∀ v ∈ closed, ∀ w, Edge edges v w → w ∈ closed := by
  induction fuel generalizing stack seen with
  | zero =>
    obtain rfl : stack = [] := length_eq_zero_iff.mp (by omega)
    exact ⟨seen, by simp, hgoal, fun v hv w hw => by simpa using hseen v hv w hw⟩
  | succ fuel ih =>
    cases stack with
    | nil => exact ⟨seen, by simp, hgoal, fun v hv w hw => by simpa using hseen v hv w hw⟩
    | cons v stack =>
      simp only [search] at h
      simp only [length_cons] at hfuel
      split_ifs at h with hv hin
      · -- already expanded: dropping it from the stack loses nothing
        have hkept : ∀ w, w ∈ seen ∨ w ∈ v :: stack → w ∈ seen ∨ w ∈ stack := by
          rintro w (hw | hw)
          · exact .inl hw
          · rcases mem_cons.mp hw with rfl | hw
            · exact .inl hin
            · exact .inr hw
        obtain ⟨closed, hall, hrest⟩ :=
          ih (by omega) hgoal (fun x hx w hw => hkept w (hseen x hx w hw)) h
        exact ⟨closed, fun w hw => hall w (hkept w hw), hrest⟩
      · -- expanded now: its edges move from the uncounted ones onto the stack
        have hcount := length_unexpanded_cons edges hin
        have hkept : ∀ w, w ∈ seen ∨ w ∈ v :: stack →
            w ∈ v :: seen ∨ w ∈ successors edges v ++ stack := by
          rintro w (hw | hw)
          · exact .inl (mem_cons_of_mem _ hw)
          · rcases mem_cons.mp hw with rfl | hw
            · exact .inl mem_cons_self
            · exact .inr (mem_append_right _ hw)
        obtain ⟨closed, hall, hrest⟩ := ih (by simp only [length_append]; omega)
          (by simp [hgoal, Ne.symm hv]) (fun x hx w hw => by
            rcases mem_cons.mp hx with rfl | hx
            · exact .inr (mem_append_left _ (mem_successors.mpr hw))
            · exact hkept w (hseen x hx w hw)) h
        exact ⟨closed, fun w hw => hall w (hkept w hw), hrest⟩

/-- Whether `goal` is `start` or reached from it. -/
def reaches (edges : List (V × V)) (start goal : V) : Bool :=
  search edges goal (edges.length + 1) [start] []

lemma reaches_iff {start : V} :
    reaches edges start goal = true ↔ Relation.ReflTransGen (Edge edges) start goal := by
  constructor
  · intro h
    obtain ⟨v, hv, hreach⟩ := search_sound h
    rw [mem_singleton.mp hv] at hreach
    exact hreach
  · intro hreach
    by_contra hmiss
    obtain ⟨closed, hall, hgoal, hclosed⟩ :=
      search_complete (by simp [unexpanded]; omega) (by simp) (by simp)
        (Bool.eq_false_iff.mpr hmiss)
    have hstays : ∀ v, Relation.ReflTransGen (Edge edges) start v → v ∈ closed := by
      intro v hv
      induction hv with
      | refl => exact hall start (.inr mem_cons_self)
      | tail _ hedge ih => exact hclosed _ ih _ hedge
    exact hgoal (hstays goal hreach)

end Search

/-! ## Cycles -/

section Cycles

variable {V : Type u} {r : V → V → Prop} {a b : V}

/-- Adding the edge `a → b` adds only the paths that go through it, and through it once when `b`
does not reach `a`. -/
lemma reach_with_edge (hback : ¬ Relation.ReflTransGen r b a) {v w : V}
    (h : Relation.ReflTransGen (fun x y => r x y ∨ (x = a ∧ y = b)) v w) :
    Relation.ReflTransGen r v w ∨ (Relation.ReflTransGen r v a ∧ Relation.ReflTransGen r b w) := by
  induction h with
  | refl => exact .inl Relation.ReflTransGen.refl
  | tail _ hstep ih =>
    rcases hstep with hstep | ⟨rfl, rfl⟩
    · rcases ih with ih | ⟨hva, hbx⟩
      · exact .inl (ih.tail hstep)
      · exact .inr ⟨hva, hbx.tail hstep⟩
    · rcases ih with ih | ⟨_, hba⟩
      · exact .inr ⟨ih, Relation.ReflTransGen.refl⟩
      · exact absurd hba hback

def Acyclic (r : V → V → Prop) : Prop := ∀ v, ¬ Relation.TransGen r v v

lemma Acyclic.mono {r' : V → V → Prop} (h : Acyclic r) (hsub : ∀ v w, r' v w → r v w) :
    Acyclic r' :=
  fun v hv => h v (Relation.TransGen.mono hsub v v hv)

lemma Acyclic.with_edge (h : Acyclic r) (hback : ¬ Relation.ReflTransGen r b a) :
    Acyclic (fun x y => r x y ∨ (x = a ∧ y = b)) := by
  intro v hcycle
  obtain ⟨w, hstep, hrest⟩ := Relation.TransGen.head'_iff.mp hcycle
  rcases hstep with hstep | ⟨rfl, rfl⟩
  · rcases reach_with_edge hback hrest with hold | ⟨hwa, hbv⟩
    · exact h v (Relation.TransGen.head' hstep hold)
    · -- the cycle passes through the new edge, so `b` reached `a` without it
      exact hback ((hbv.tail hstep).trans hwa)
  · rcases reach_with_edge hback hrest with hold | ⟨hold, _⟩
    · exact hback hold
    · exact hback hold

end Cycles

end OnceBuild.Lib
