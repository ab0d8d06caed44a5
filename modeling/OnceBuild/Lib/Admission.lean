import Mathlib.Algebra.BigOperators.Group.List.Basic
import Mathlib.Algebra.GroupWithZero.Nat

/-!
# Admission in order of arrival, with reservations

Waiters ask for capacity on several axes at once.  One pass over the queue grants a waiter when it
fits in what is left; granted or not, its share leaves what the later waiters are offered.  So a
later waiter only gets what no earlier one is waiting for.

A `Budget` says how the free capacity of a concrete queue is read on each axis.  The lemmas are the
ones a queue needs: what a pass grants is covered by the free capacity, a second pass grants nothing
more, and waiters at the end of the queue do not matter for those before them as long as they leave
room for what those are waiting for.
-/

namespace OnceBuild.Lib

universe u v w

/-- Free capacity `F`, waiters `W` and axes `A`. -/
structure Budget (F : Type u) (W : Type v) (A : Type w) where
  level : F → A → Nat
  demand : W → A → Nat
  fits : F → W → Bool
  take : F → W → F
  granted : W → Bool
  grant : W → W
  fits_iff : ∀ f w, fits f w = true ↔ ∀ a, demand w a ≤ level f a
  level_take : ∀ f w a, level (take f w) a = level f a - demand w a
  granted_grant : ∀ w, granted (grant w) = true
  demand_grant : ∀ w a, demand (grant w) a = demand w a

namespace Budget

variable {F : Type u} {W : Type v} {A : Type w} (B : Budget F W A)

/-- One pass over the queue. -/
def sweep : F → List W → List W
  | _, [] => []
  | f, w :: ws =>
    if B.granted w then w :: sweep f ws
    else (if B.fits f w then B.grant w else w) :: sweep (B.take f w) ws

def reserve : F → List W → F
  | f, [] => f
  | f, w :: ws => if B.granted w then reserve f ws else reserve (B.take f w) ws

def held (ws : List W) (a : A) : Nat := ((ws.filter B.granted).map fun w => B.demand w a).sum

def wanted (ws : List W) (a : A) : Nat :=
  ((ws.filter fun w => !B.granted w).map fun w => B.demand w a).sum

/-! ## Lists -/

@[simp] lemma held_nil (a : A) : B.held [] a = 0 := rfl

@[simp] lemma wanted_nil (a : A) : B.wanted [] a = 0 := rfl

variable {B}

variable {w : W}

lemma held_cons (w : W) (ws : List W) (a : A) :
    B.held (w :: ws) a = (if B.granted w then B.demand w a else 0) + B.held ws a := by
  cases hw : B.granted w <;> simp [held, hw]

lemma wanted_cons (w : W) (ws : List W) (a : A) :
    B.wanted (w :: ws) a = (if B.granted w then 0 else B.demand w a) + B.wanted ws a := by
  cases hw : B.granted w <;> simp [wanted, hw]

lemma held_append (xs ys : List W) (a : A) : B.held (xs ++ ys) a = B.held xs a + B.held ys a := by
  simp [held]

lemma wanted_append (xs ys : List W) (a : A) :
    B.wanted (xs ++ ys) a = B.wanted xs a + B.wanted ys a := by
  simp [wanted]

variable {xs ys : List W}

lemma held_perm (h : xs.Perm ys) (a : A) : B.held xs a = B.held ys a := ((h.filter _).map _).sum_eq

/-! ## One pass -/

lemma sweep_cons_of_granted (h : B.granted w = true) (f : F) (ws : List W) :
    B.sweep f (w :: ws) = w :: B.sweep f ws := by
  simp [sweep, h]

variable {f : F}

lemma sweep_cons_of_fits (h : B.granted w = false) (hfits : B.fits f w = true) (ws : List W) :
    B.sweep f (w :: ws) = B.grant w :: B.sweep (B.take f w) ws := by
  simp [sweep, h, hfits]

lemma sweep_cons_of_blocked (h : B.granted w = false) (hfits : B.fits f w = false) (ws : List W) :
    B.sweep f (w :: ws) = w :: B.sweep (B.take f w) ws := by
  simp [sweep, h, hfits]

lemma level_reserve (f : F) (ws : List W) (a : A) :
    B.level (B.reserve f ws) a = B.level f a - B.wanted ws a := by
  induction ws generalizing f with
  | nil => simp [reserve]
  | cons w ws ih =>
    rw [reserve, wanted_cons]
    split
    case isTrue => rw [ih, Nat.zero_add]
    case isFalse => rw [ih, B.level_take, Nat.sub_sub]

lemma sweep_append (f : F) (xs ys : List W) :
    B.sweep f (xs ++ ys) = B.sweep f xs ++ B.sweep (B.reserve f xs) ys := by
  induction xs generalizing f with
  | nil => rfl
  | cons w ws ih =>
    cases hw : B.granted w with
    | true | false => simp [sweep, reserve, hw, ih]

lemma map_sweep {X : Type w} {g : W → X} (hg : ∀ w, g (B.grant w) = g w) (f : F) (ws : List W) :
    (B.sweep f ws).map g = ws.map g := by
  induction ws generalizing f with
  | nil => rfl
  | cons w ws ih =>
    cases hw : B.granted w with
    | true => simp only [sweep_cons_of_granted hw, List.map_cons, ih]
    | false =>
      cases hfits : B.fits f w with
      | true => simp only [sweep_cons_of_fits hw hfits, List.map_cons, ih, hg]
      | false => simp only [sweep_cons_of_blocked hw hfits, List.map_cons, ih]

lemma held_sweep_cons (w : W) (f : F) (ws : List W) (a : A) :
    B.held (B.sweep f (w :: ws)) a =
      if B.granted w then B.demand w a + B.held (B.sweep f ws) a
      else (if B.fits f w then B.demand w a else 0) + B.held (B.sweep (B.take f w) ws) a := by
  cases hw : B.granted w <;> cases hfits : B.fits f w <;>
    simp [sweep, held_cons, hw, hfits, B.granted_grant, B.demand_grant]

lemma held_add_wanted_sweep (f : F) (ws : List W) (a : A) :
    B.held (B.sweep f ws) a + B.wanted (B.sweep f ws) a = B.held ws a + B.wanted ws a := by
  induction ws generalizing f with
  | nil => rfl
  | cons w ws ih =>
    have hgranted := ih f
    have hwaiting := ih (B.take f w)
    cases hw : B.granted w <;> cases hfits : B.fits f w <;>
      simp only [sweep, held_cons, wanted_cons, hw, hfits, B.granted_grant, B.demand_grant, if_true,
        Bool.false_eq_true, if_false] <;> omega

lemma held_le_held_sweep (f : F) (ws : List W) (a : A) : B.held ws a ≤ B.held (B.sweep f ws) a := by
  induction ws generalizing f with
  | nil => exact Nat.le_refl _
  | cons w ws ih =>
    have hgranted := ih f
    have hwaiting := ih (B.take f w)
    rw [held_sweep_cons, held_cons]
    split <;> omega

lemma held_sweep_le (f : F) (ws : List W) (a : A) :
    B.held (B.sweep f ws) a ≤ B.held ws a + B.level f a := by
  induction ws generalizing f with
  | nil => simp [sweep]
  | cons w ws ih =>
    have hgranted := ih f
    have hwaiting := ih (B.take f w)
    rw [B.level_take] at hwaiting
    rw [held_sweep_cons, held_cons]
    split
    case isTrue => omega
    case isFalse =>
      split
      case isTrue hfits =>
        have := (B.fits_iff f w).mp hfits a
        omega
      case isFalse => omega

variable {g : F}

lemma fits_congr
    (h : ∀ a, B.level f a = B.level g a ∨ B.demand w a ≤ B.level f a ∧ B.demand w a ≤ B.level g a) :
    B.fits f w = B.fits g w := by
  rw [Bool.eq_iff_iff, B.fits_iff, B.fits_iff]
  refine forall_congr' fun a => ?_
  rcases h a with heq | ⟨hf, hg⟩
  · rw [heq]
  · exact iff_of_true hf hg

variable {ws : List W}

lemma sweep_congr
    (h : ∀ a, B.level f a = B.level g a ∨ B.wanted ws a ≤ B.level f a ∧ B.wanted ws a ≤
      B.level g a) :
    B.sweep f ws = B.sweep g ws := by
  induction ws generalizing f g with
  | nil => rfl
  | cons w ws ih =>
    simp only [wanted_cons] at h
    cases hw : B.granted w with
    | true =>
      simp only [hw, if_true, Nat.zero_add] at h
      rw [sweep_cons_of_granted hw, sweep_cons_of_granted hw, ih h]
    | false =>
      simp only [hw, Bool.false_eq_true, if_false] at h
      have hfits : B.fits f w = B.fits g w := by
        refine fits_congr fun a => ?_
        have := h a
        omega
      have hrest : B.sweep (B.take f w) ws = B.sweep (B.take g w) ws := by
        refine ih fun a => ?_
        rw [B.level_take, B.level_take]
        have := h a
        omega
      simp only [sweep, hw, Bool.false_eq_true, if_false, hfits, hrest]

/-! ## Queues on which a pass grants nothing -/

/-- No waiter fits in what is left for it. -/
def Settled (B : Budget F W A) : F → List W → Prop
  | _, [] => True
  | f, w :: ws =>
    if B.granted w then Settled B f ws else B.fits f w = false ∧ Settled B (B.take f w) ws

lemma settled_cons_of_granted (h : B.granted w = true) :
    B.Settled f (w :: ws) ↔ B.Settled f ws := by
  simp [Settled, h]

lemma settled_cons_of_waiting (h : B.granted w = false) :
    B.Settled f (w :: ws) ↔ B.fits f w = false ∧ B.Settled (B.take f w) ws := by
  simp [Settled, h]

/-- A second pass over what the grants of the first left free grants nothing. -/
lemma settled_sweep
    (h : ∀ a, B.level g a ≤ B.level f a - (B.held (B.sweep f ws) a - B.held ws a)) :
    B.Settled g (B.sweep f ws) := by
  induction ws generalizing f g with
  | nil => trivial
  | cons w ws ih =>
    simp only [held_sweep_cons, held_cons] at h
    cases hw : B.granted w with
    | true =>
      simp only [hw, if_true] at h
      rw [sweep_cons_of_granted hw]
      refine (settled_cons_of_granted hw).mpr (ih fun a => ?_)
      have := h a
      omega
    | false =>
      simp only [hw, Bool.false_eq_true, if_false] at h
      cases hfits : B.fits f w with
      | true =>
        simp only [hfits, if_true] at h
        rw [sweep_cons_of_fits hw hfits]
        refine (settled_cons_of_granted (B.granted_grant w)).mpr (ih fun a => ?_)
        have hgrown := held_le_held_sweep (B := B) (B.take f w) ws a
        have := h a
        rw [B.level_take]
        omega
      | false =>
        rw [sweep_cons_of_blocked hw hfits]
        -- what did not fit before fits even less now
        have hblocked : B.fits g w = false := by
          rw [← Bool.not_eq_true, B.fits_iff] at hfits ⊢
          refine fun hall => hfits fun a => ?_
          have := h a
          have := hall a
          omega
        refine (settled_cons_of_waiting hw).mpr ⟨hblocked, ih fun a => ?_⟩
        have := h a
        rw [B.level_take, B.level_take]
        omega

/-- The first waiter that is not granted does not fit. -/
lemma Settled.not_fits (h : B.Settled f (xs ++ w :: ys)) (hxs : ∀ x ∈ xs, B.granted x = true)
    (hw : B.granted w = false) : B.fits f w = false := by
  induction xs with
  | nil => exact ((settled_cons_of_waiting hw).mp h).1
  | cons x xs ih =>
    exact ih ((settled_cons_of_granted (hxs x List.mem_cons_self)).mp h)
      fun x hx => hxs x (List.mem_cons_of_mem _ hx)

lemma Settled.erase (h : B.Settled f (xs ++ w :: ys)) (hw : B.granted w = true) :
    B.Settled f (xs ++ ys) := by
  induction xs generalizing f with
  | nil => exact (settled_cons_of_granted hw).mp h
  | cons x xs ih =>
    cases hx : B.granted x with
    | true => exact (settled_cons_of_granted hx).mpr (ih ((settled_cons_of_granted hx).mp h))
    | false =>
      have hblocked := (settled_cons_of_waiting hx).mp h
      exact (settled_cons_of_waiting hx).mpr ⟨hblocked.1, ih hblocked.2⟩

lemma Settled.map (h : B.Settled f ws) {change : W → W}
    (hgranted : ∀ w, B.granted (change w) = B.granted w)
    (hfits : ∀ f w, B.fits f (change w) = B.fits f w)
    (htake : ∀ f w, B.take f (change w) = B.take f w) : B.Settled f (ws.map change) := by
  induction ws generalizing f with
  | nil => trivial
  | cons w ws ih =>
    cases hw : B.granted w with
    | true =>
      exact (settled_cons_of_granted ((hgranted w).trans hw)).mpr
        (ih ((settled_cons_of_granted hw).mp h))
    | false =>
      have hblocked := (settled_cons_of_waiting hw).mp h
      refine (settled_cons_of_waiting ((hgranted w).trans hw)).mpr ⟨?_, ?_⟩
      · exact (hfits f w).trans hblocked.1
      · rw [htake]
        exact ih hblocked.2

end Budget
end OnceBuild.Lib
