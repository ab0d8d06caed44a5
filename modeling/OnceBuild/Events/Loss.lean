import Mathlib.Data.List.Basic
import Mathlib.Order.Lattice

/-!
# Loss intervals

The numbers of dropped events, as intervals with the reason of the loss.  A new interval takes up
those with its own reason that it overlaps or touches; an interval with another reason may be
touched but not overlapped, which is a panic.

`None` stands for a panic here and in what follows.
-/

namespace OnceBuild.Events

open List Option

/-- An entry of the map: `first` is its key. -/
structure LossInterval (R : Type) where
  first : Nat
  last : Nat
  reason : R
  deriving DecidableEq

variable {R : Type}

def LossInterval.Covers (i : LossInterval R) (n : Nat) : Prop := i.first ≤ n ∧ n ≤ i.last

/-- The intervals are in order and do not overlap. -/
structure Separate (s : List (LossInterval R)) : Prop where
  order : s.Pairwise fun a b => a.last < b.first
  nonempty : ∀ i ∈ s, i.first ≤ i.last

variable (s : List (LossInterval R))

/-- Intervals with the same reason do not touch. -/
def Merged : Prop := ∀ i ∈ s, ∀ j ∈ s, i.reason = j.reason → i.last + 1 ≠ j.first

def LostAs (n : Nat) (reason : R) : Prop := ∃ i ∈ s, i.Covers n ∧ i.reason = reason

variable {i : LossInterval R} {n : Nat}

namespace Separate

lemma nil : Separate ([] : List (LossInterval R)) := ⟨Pairwise.nil, by simp⟩

variable {s : List (LossInterval R)}

lemma filter (h : Separate s) (keep : LossInterval R → Bool) : Separate (s.filter keep) :=
  ⟨h.order.filter keep, fun i hi => h.nonempty i (mem_filter.mp hi).1⟩

lemma tail (h : Separate (i :: s)) : Separate s :=
  ⟨(pairwise_cons.mp h.order).2, fun j hj => h.nonempty j (mem_cons_of_mem _ hj)⟩

variable {j : LossInterval R}

section

variable (h : Separate s)
include h

lemma before_or_after (hi : i ∈ s) (hj : j ∈ s) : i = j ∨ i.last < j.first ∨ j.last < i.first := by
  induction s with
  | nil => cases hi
  | cons k s ih =>
    obtain ⟨hfirst, -⟩ := pairwise_cons.mp h.order
    rcases mem_cons.mp hi with rfl | hi'
    · rcases mem_cons.mp hj with rfl | hj'
      · exact .inl rfl
      · exact .inr (.inl (hfirst j hj'))
    · rcases mem_cons.mp hj with rfl | hj'
      · exact .inr (.inr (hfirst i hi'))
      · exact ih h.tail hi' hj'

lemma last_lt (hi : i ∈ s) (hj : j ∈ s) (hlt : i.first < j.first) : i.last < j.first := by
  have hj' := h.nonempty j hj
  rcases h.before_or_after hi hj with rfl | hbefore | hafter
  · exact absurd hlt (Nat.lt_irrefl _)
  · exact hbefore
  · omega

lemma eq_of_first (hi : i ∈ s) (hj : j ∈ s) (heq : i.first = j.first) : i = j := by
  have hi' := h.nonempty i hi
  have hj' := h.nonempty j hj
  rcases h.before_or_after hi hj with rfl | hbefore | hafter
  · rfl
  · omega
  · omega

lemma eq_of_covers (hi : i ∈ s) (hj : j ∈ s) (hin : i.Covers n) (hjn : j.Covers n) : i = j := by
  obtain ⟨hi₁, hi₂⟩ := hin
  obtain ⟨hj₁, hj₂⟩ := hjn
  rcases h.before_or_after hi hj with rfl | hbefore | hafter
  · rfl
  · omega
  · omega

end

end Separate

/-! ## Recording a loss -/

def leftNeighbour (key : Nat) : Option (LossInterval R) :=
  (s.filter fun i => decide (i.first < key)).getLast?

def removeInterval (key : Nat) : List (LossInterval R) := s.filter fun i => decide (i.first ≠ key)

/-- `BTreeMap::insert`. -/
def insertInterval (new : LossInterval R) : List (LossInterval R) → List (LossInterval R)
  | [] => [new]
  | i :: rest =>
    if new.first < i.first then new :: i :: rest
    else if new.first = i.first then new :: rest
    else i :: insertInterval new rest

/-- The intervals that are left, and the new one as far as it has grown. -/
structure Growing (R : Type) where
  kept : List (LossInterval R)
  first : Nat
  last : Nat

def Growing.absorb (g : Growing R) (i : LossInterval R) : Growing R :=
  ⟨removeInterval g.kept i.first, min g.first i.first, max g.last i.last⟩

def absorbLeft [DecidableEq R] (first last : Nat) (reason : R) : Option (Growing R) :=
  match leftNeighbour s first with
  | none => some ⟨s, first, last⟩
  | some i =>
    if first ≤ i.last ∧ i.reason ≠ reason then none  -- overlapping loss causes
    else if first ≤ i.last + 1 ∧ i.reason = reason then
      some (Growing.absorb ⟨s, first, last⟩ i)
    else some ⟨s, first, last⟩

def touched (g : Growing R) : List (LossInterval R) :=
  g.kept.filter fun i => decide (g.first ≤ i.first ∧ i.first ≤ g.last + 1)

def absorbRight [DecidableEq R] (g : Growing R) (reason : R) : Option (Growing R) :=
  if (touched g).any fun i => decide (i.first ≤ g.last ∧ i.reason ≠ reason) then none
  else some (((touched g).filter fun i => decide (i.reason = reason)).foldl Growing.absorb g)

def recordInterval [DecidableEq R] (first last : Nat) (reason : R) :
    Option (List (LossInterval R)) :=
  if last < first then none  -- loss range must be non-empty
  else do
    let g ← absorbLeft s first last reason
    let g ← absorbRight g reason
    some (insertInterval ⟨g.first, g.last, reason⟩ g.kept)

/-- What the new interval has grown to, against what it was to begin with. -/
structure Grows (s : List (LossInterval R)) (first last : Nat) (reason : R) (g : Growing R) :
    Prop where
  separate : Separate g.kept
  le : g.first ≤ g.last
  covers : ∀ n r, LostAs g.kept n r ∨ ((g.first ≤ n ∧ n ≤ g.last) ∧ r = reason) ↔
    LostAs s n r ∨ ((first ≤ n ∧ n ≤ last) ∧ r = reason)
  subset : ∀ i ∈ g.kept, i ∈ s
  foreign : ∀ i ∈ s, i.reason ≠ reason → i ∈ g.kept

variable {s : List (LossInterval R)} {first last : Nat} {reason : R} {g : Growing R}

variable {key : Nat}

lemma mem_removeInterval : i ∈ removeInterval s key ↔ i ∈ s ∧ i.first ≠ key := by
  simp [removeInterval]

lemma Grows.refl (h : Separate s) (hle : first ≤ last) :
    Grows s first last reason ⟨s, first, last⟩ :=
  ⟨h, hle, fun _ _ => Iff.rfl, fun _ hi => hi, fun _ hi _ => hi⟩

lemma Grows.absorb (h : Grows s first last reason g) (hi : i ∈ g.kept)
    (hreason : i.reason = reason) (hright : i.first ≤ g.last + 1) (hleft : g.first ≤ i.last + 1) :
    Grows s first last reason (g.absorb i) := by
  have hi' := h.separate.nonempty i hi
  refine ⟨h.separate.filter _, ?_, fun n r => ?_, ?_, ?_⟩
  · change min g.first i.first ≤ max g.last i.last
    omega
  · rw [← h.covers n r]
    -- the grown interval is the union of the two, since they touch
    have hunion : (min g.first i.first ≤ n ∧ n ≤ max g.last i.last) ↔
        (g.first ≤ n ∧ n ≤ g.last) ∨ (i.first ≤ n ∧ n ≤ i.last) := by omega
    change LostAs (removeInterval g.kept i.first) n r ∨
      ((min g.first i.first ≤ n ∧ n ≤ max g.last i.last) ∧ r = reason) ↔ _
    rw [hunion]
    constructor
    · rintro (⟨j, hj, hjn, hjr⟩ | ⟨hn | hn, rfl⟩)
      · exact .inl ⟨j, (mem_removeInterval.mp hj).1, hjn, hjr⟩
      · exact .inr ⟨hn, rfl⟩
      · exact .inl ⟨i, hi, hn, hreason⟩
    · rintro (⟨j, hj, hjn, hjr⟩ | ⟨hn, rfl⟩)
      · by_cases hkey : j.first = i.first
        · obtain rfl := h.separate.eq_of_first hj hi hkey
          exact .inr ⟨.inr hjn, hjr.symm.trans hreason⟩
        · exact .inl ⟨j, mem_removeInterval.mpr ⟨hj, hkey⟩, hjn, hjr⟩
      · exact .inr ⟨.inl hn, rfl⟩
  · exact fun j hj => h.subset j (mem_removeInterval.mp hj).1
  · intro j hj hjr
    refine mem_removeInterval.mpr ⟨h.foreign j hj hjr, fun hkey => hjr ?_⟩
    rw [h.separate.eq_of_first (h.foreign j hj hjr) hi hkey, hreason]

variable {l : List (LossInterval R)}

lemma Grows.foldl_absorb (h : Grows s first last reason g)
    (hnodup : l.Pairwise fun a b => a.first ≠ b.first)
    (hl : ∀ i ∈ l, i ∈ g.kept ∧ i.reason = reason ∧ i.first ≤ g.last + 1 ∧ g.first ≤ i.last + 1) :
    Grows s first last reason (l.foldl Growing.absorb g) := by
  induction l generalizing g with
  | nil => exact h
  | cons i l ih =>
    obtain ⟨hkept, hreason, hright, hleft⟩ := hl i mem_cons_self
    obtain ⟨hfirst, hrest⟩ := pairwise_cons.mp hnodup
    refine ih (h.absorb hkept hreason hright hleft) hrest fun j hj => ?_
    obtain ⟨hj₁, hj₂, hj₃, hj₄⟩ := hl j (mem_cons_of_mem _ hj)
    refine ⟨mem_removeInterval.mpr ⟨hj₁, (hfirst j hj).symm⟩, hj₂, ?_, ?_⟩
    · change j.first ≤ max g.last i.last + 1
      omega
    · change min g.first i.first ≤ j.last + 1
      omega

lemma mem_foldl_absorb :
    i ∈ (l.foldl Growing.absorb g).kept ↔ i ∈ g.kept ∧ ∀ j ∈ l, i.first ≠ j.first := by
  induction l generalizing g with
  | nil => simp
  | cons j l ih =>
    rw [foldl_cons, ih]
    change (i ∈ removeInterval g.kept j.first ∧ _) ↔ _
    rw [mem_removeInterval, and_assoc, forall_mem_cons]

lemma last_foldl_absorb (hg : g.last < n) (hl : ∀ i ∈ l, i.last < n) :
    (l.foldl Growing.absorb g).last < n := by
  induction l generalizing g with
  | nil => exact hg
  | cons i l ih =>
    refine ih ?_ fun j hj => hl j (mem_cons_of_mem _ hj)
    have hi := hl i mem_cons_self
    change max g.last i.last < n
    omega

lemma first_foldl_absorb (hl : ∀ i ∈ l, g.first ≤ i.first) :
    (l.foldl Growing.absorb g).first = g.first := by
  induction l generalizing g with
  | nil => rfl
  | cons i l ih =>
    have hi : min g.first i.first = g.first := Nat.min_eq_left (hl i mem_cons_self)
    rw [foldl_cons, ih]
    · exact hi
    · intro j hj
      change min g.first i.first ≤ j.first
      rw [hi]
      exact hl j (mem_cons_of_mem _ hj)

lemma leftNeighbour_spec (h : Separate s) (hi : leftNeighbour s key = some i) :
    i ∈ s ∧ i.first < key ∧ ∀ j ∈ s, j.first < key → j.first ≤ i.first := by
  obtain ⟨before, hsplit⟩ := getLast?_eq_some_iff.mp hi
  have hmem : i ∈ s.filter fun i => decide (i.first < key) := by
    rw [hsplit]
    simp
  obtain ⟨his, hlt⟩ := mem_filter.mp hmem
  refine ⟨his, of_decide_eq_true hlt, fun j hj hjlt => ?_⟩
  have hj' : j ∈ before ++ [i] := by
    rw [← hsplit]
    exact mem_filter.mpr ⟨hj, decide_eq_true hjlt⟩
  rcases mem_append.mp hj' with hjb | hji
  · have horder := (h.filter fun i => decide (i.first < key)).order
    rw [hsplit] at horder
    have := (pairwise_append.mp horder).2.2 j hjb i (by simp)
    have := h.nonempty j hj
    omega
  · rw [mem_singleton.mp hji]

lemma leftNeighbour_eq_none (h : leftNeighbour s key = none) : ∀ j ∈ s, key ≤ j.first := by
  intro j hj
  by_contra hlt
  have hmem : j ∈ s.filter fun i => decide (i.first < key) :=
    mem_filter.mpr ⟨hj, decide_eq_true (not_le.mp hlt)⟩
  rw [getLast?_eq_none_iff.mp h] at hmem
  cases hmem

lemma mem_insertInterval {new : LossInterval R} (hnew : ∀ j ∈ s, j.first ≠ new.first) :
    i ∈ insertInterval new s ↔ i = new ∨ i ∈ s := by
  induction s with
  | nil => simp [insertInterval]
  | cons j s ih =>
    have hj := hnew j mem_cons_self
    unfold insertInterval
    split
    · simp
    · rw [if_neg (Ne.symm hj), mem_cons, ih fun k hk => hnew k (mem_cons_of_mem _ hk), mem_cons]
      exact or_left_comm

lemma lostAs_cons :
    LostAs (i :: s) n reason ↔ (i.Covers n ∧ i.reason = reason) ∨ LostAs s n reason := by
  simp [LostAs]

lemma lostAs_insertInterval {new : LossInterval R} (hnew : ∀ j ∈ s, j.first ≠ new.first) :
    LostAs (insertInterval new s) n reason ↔
      (new.Covers n ∧ new.reason = reason) ∨ LostAs s n reason := by
  simp [LostAs, mem_insertInterval hnew]

lemma separate_insertInterval {new : LossInterval R} (h : Separate s)
    (hnew : new.first ≤ new.last) (hfree : ∀ i ∈ s, i.last < new.first ∨ new.last < i.first) :
    Separate (insertInterval new s) := by
  have hkeys : ∀ j ∈ s, j.first ≠ new.first := by
    intro j hj
    have := h.nonempty j hj
    rcases hfree j hj with hbefore | hafter <;> omega
  refine ⟨?_, fun i hi => ?_⟩
  · induction s with
    | nil => exact pairwise_singleton _ _
    | cons j s ih =>
      obtain ⟨hfirst, hrest⟩ := pairwise_cons.mp h.order
      have hj := h.nonempty j mem_cons_self
      unfold insertInterval
      split
      next hlt =>
        have hjnew : new.last < j.first := by
          rcases hfree j mem_cons_self with hbefore | hafter
          · omega
          · exact hafter
        refine pairwise_cons.mpr ⟨fun k hk => ?_, h.order⟩
        rcases mem_cons.mp hk with rfl | hk
        · exact hjnew
        · have := hfirst k hk
          omega
      next hlt =>
        rw [if_neg (Ne.symm (hkeys j mem_cons_self))]
        have hfree' := fun k hk => hfree k (mem_cons_of_mem _ hk)
        have hkeys' := fun k hk => hkeys k (mem_cons_of_mem _ hk)
        refine pairwise_cons.mpr ⟨fun k hk => ?_, ih h.tail hfree' hkeys'⟩
        rcases (mem_insertInterval hkeys').mp hk with rfl | hk
        · rcases hfree j mem_cons_self with hbefore | hafter
          · exact hbefore
          · omega
        · exact hfirst k hk
  · rcases (mem_insertInterval hkeys).mp hi with rfl | hi
    · exact hnew
    · exact h.nonempty i hi

section

variable [DecidableEq R]

lemma absorbLeft_spec (h : Separate s) (hle : first ≤ last)
    (hg : absorbLeft s first last reason = some g) :
    Grows s first last reason g ∧ g.first ≤ first ∧ last ≤ g.last ∧
      ∀ i ∈ g.kept, i.first < g.first →
        i.last < g.first ∧ (Merged s → i.reason = reason → i.last + 1 ≠ g.first) := by
  unfold absorbLeft at hg
  split at hg
  next hnone =>
    obtain rfl := some.inj hg
    refine ⟨.refl h hle, le_refl _, le_refl _, fun i hi hlt => ?_⟩
    exact absurd (leftNeighbour_eq_none hnone i hi) (not_le.mpr hlt)
  next i hi =>
    obtain ⟨his, hilt, hmost⟩ := leftNeighbour_spec h hi
    -- what begins before the new interval begins no later than its left neighbour
    split at hg
    · cases hg
    next hoverlap =>
      split at hg
      next htouch =>
        obtain rfl := some.inj hg
        have hle' : first ≤ i.last + 1 := htouch.1
        refine ⟨(Grows.refl h hle).absorb his htouch.2 ?_ hle', Nat.min_le_left _ _,
          Nat.le_max_left _ _, fun j hj hlt => ?_⟩
        · change i.first ≤ last + 1
          omega
        · obtain ⟨hjs, hkey⟩ := mem_removeInterval.mp hj
          have hfirst : (Growing.absorb ⟨s, first, last⟩ i).first = i.first :=
            Nat.min_eq_right hilt.le
          rw [hfirst] at hlt ⊢
          exact ⟨h.last_lt hjs his hlt, fun hm hr => hm j hjs i his (hr.trans htouch.2.symm)⟩
      next htouch =>
        obtain rfl := some.inj hg
        refine ⟨.refl h hle, le_refl _, le_refl _, fun j hj hlt => ?_⟩
        change j.last < first ∧ (Merged s → j.reason = reason → j.last + 1 ≠ first)
        have hi' : i.last < first ∧ (i.reason = reason → i.last + 1 ≠ first) := by
          by_cases hr : i.reason = reason
          · have : ¬first ≤ i.last + 1 := fun hle' => htouch ⟨hle', hr⟩
            omega
          · exact ⟨not_le.mp fun hle' => hoverlap ⟨hle', hr⟩, fun hr' => absurd hr' hr⟩
        rcases Nat.lt_or_eq_of_le (hmost j hj hlt) with hbefore | heq
        · have := h.last_lt hj his hbefore
          omega
        · rw [h.eq_of_first hj his heq]
          exact ⟨hi'.1, fun _ => hi'.2⟩

lemma absorbRight_spec (h : Grows s first last reason g)
    (hleft : ∀ i ∈ g.kept, i.first < g.first →
      i.last < g.first ∧ (Merged s → i.reason = reason → i.last + 1 ≠ g.first)) {g' : Growing R}
    (hg : absorbRight g reason = some g') :
    Grows s first last reason g' ∧ ∀ i ∈ g'.kept, (i.last < g'.first ∨ g'.last < i.first) ∧
      (Merged s → i.reason = reason → i.last + 1 ≠ g'.first ∧ g'.last + 1 ≠ i.first) := by
  unfold absorbRight at hg
  split at hg
  · cases hg
  next hforeign =>
    obtain rfl := some.inj hg
    have hfits : ∀ i ∈ touched g, i ∈ g.kept ∧ g.first ≤ i.first ∧ i.first ≤ g.last + 1 := by
      intro i hi
      obtain ⟨hkept, hrange⟩ := mem_filter.mp hi
      exact ⟨hkept, of_decide_eq_true hrange⟩
    have hnodup : ((touched g).filter fun i => decide (i.reason = reason)).Pairwise
        fun a b => a.first ≠ b.first := by
      refine Pairwise.imp_of_mem ?_ ((h.separate.filter _).filter _).order
      intro a b ha _ hlt
      have := h.separate.nonempty a (hfits a (mem_filter.mp ha).1).1
      omega
    have hgrows := h.foldl_absorb hnodup fun i hi => by
      obtain ⟨htouched, hreason⟩ := mem_filter.mp hi
      obtain ⟨hkept, hge, hle⟩ := hfits i htouched
      have := h.separate.nonempty i hkept
      exact ⟨hkept, of_decide_eq_true hreason, hle, by omega⟩
    refine ⟨hgrows, fun i hi => ?_⟩
    have hle := hgrows.le
    obtain ⟨hkept, hnot⟩ := mem_foldl_absorb.mp hi
    rw [first_foldl_absorb fun j hj => (hfits j (mem_filter.mp hj).1).2.1] at hle ⊢
    by_cases hlt : i.first < g.first
    · obtain ⟨hbefore, hapart⟩ := hleft i hkept hlt
      exact ⟨.inl hbefore, fun hm hr => ⟨hapart hm hr, by omega⟩⟩
    · -- an interval that was not taken up begins after the new one and after all it took up
      have hgt : g.last < i.first ∧ (i.reason = reason → g.last + 1 < i.first) := by
        have htouched (hle : i.first ≤ g.last + 1) : i ∈ touched g :=
          mem_filter.mpr ⟨hkept, decide_eq_true ⟨not_lt.mp hlt, hle⟩⟩
        by_cases hr : i.reason = reason
        · have := not_le.mp fun hle => hnot i (mem_filter.mpr ⟨htouched hle, decide_eq_true hr⟩) rfl
          omega
        · refine ⟨not_le.mp fun hle => hforeign (any_eq_true.mpr ⟨i, ?_⟩), fun hr' => absurd hr' hr⟩
          exact ⟨htouched (by omega), decide_eq_true ⟨hle, hr⟩⟩
      have hbefore : ∀ j ∈ (touched g).filter fun i => decide (i.reason = reason),
          j.last < i.first := fun j hj => by
        obtain ⟨hjkept, -, hjle⟩ := hfits j (mem_filter.mp hj).1
        refine h.separate.last_lt hjkept hkept ?_
        have := hnot j hj
        omega
      refine ⟨.inr (last_foldl_absorb hgt.1 hbefore), fun hm hr => ?_⟩
      have hlast := last_foldl_absorb (Nat.lt_sub_of_add_lt (hgt.2 hr)) fun j hj => by
        obtain ⟨htouched, hjr⟩ := mem_filter.mp hj
        have hsame : j.reason = i.reason :=
          (of_decide_eq_true hjr : j.reason = reason).trans hr.symm
        have := hm j (h.subset j (hfits j htouched).1) i (h.subset i hkept) hsame
        have := hbefore j hj
        omega
      have := h.separate.nonempty i hkept
      omega

lemma recordInterval_spec {s' : List (LossInterval R)} (h : Separate s)
    (hs : recordInterval s first last reason = some s') :
    Separate s' ∧
      (∀ n r, LostAs s' n r ↔ LostAs s n r ∨ ((first ≤ n ∧ n ≤ last) ∧ r = reason)) ∧
      (Merged s → Merged s') := by
  unfold recordInterval at hs
  split at hs
  · cases hs
  next hle =>
    obtain ⟨g₁, hg₁, hs⟩ := bind_eq_some_iff.mp hs
    obtain ⟨g, hg, hs⟩ := bind_eq_some_iff.mp hs
    obtain rfl := some.inj hs
    obtain ⟨hgrows₁, -, -, hleft⟩ := absorbLeft_spec h (not_lt.mp hle) hg₁
    obtain ⟨hgrows, hfree⟩ := absorbRight_spec hgrows₁ hleft hg
    have hkeys : ∀ j ∈ g.kept, j.first ≠ g.first := by
      intro j hj
      have := hgrows.separate.nonempty j hj
      have := hgrows.le
      rcases (hfree j hj).1 with hbefore | hafter <;> omega
    refine ⟨separate_insertInterval hgrows.separate hgrows.le fun j hj => (hfree j hj).1,
      fun n r => ?_, fun hm i hi j hj hr => ?_⟩
    · rw [← hgrows.covers n r, lostAs_insertInterval hkeys, or_comm, eq_comm (a := r)]
      rfl
    · have := hgrows.le
      rcases (mem_insertInterval hkeys).mp hi with rfl | hi <;>
        rcases (mem_insertInterval hkeys).mp hj with rfl | hj
      · change g.last + 1 ≠ g.first
        omega
      · exact ((hfree j hj).2 hm hr.symm).2
      · exact ((hfree i hi).2 hm hr).1
      · exact hm i (hgrows.subset i hi) j (hgrows.subset j hj) hr

lemma recordInterval_ne_none (h : Separate s) (hle : first ≤ last)
    (hfree : ∀ i ∈ s, i.reason = reason ∨ i.last < first ∨ last < i.first) :
    recordInterval s first last reason ≠ none := by
  unfold recordInterval
  rw [if_neg (not_lt.mpr hle)]
  cases hg : absorbLeft s first last reason with
  | none =>
    -- the left neighbour ends before the new interval
    unfold absorbLeft at hg
    split at hg
    · cases hg
    next i hi =>
      obtain ⟨his, hilt, -⟩ := leftNeighbour_spec h hi
      split at hg
      next hoverlap =>
        have := (hfree i his).resolve_left hoverlap.2
        omega
      · split at hg <;> cases hg
  | some g =>
    obtain ⟨hgrows, -⟩ := absorbLeft_spec h hle hg
    have hnone :
        ¬(touched g).any (fun i => decide (i.first ≤ g.last ∧ i.reason ≠ reason)) = true := by
      intro hany
      obtain ⟨i, hi, hforeign⟩ := any_eq_true.mp hany
      obtain ⟨hik, hrange⟩ := mem_filter.mp hi
      have hrange := of_decide_eq_true hrange
      have hforeign := of_decide_eq_true hforeign
      have his := hgrows.subset i hik
      have hi' := h.nonempty i his
      rcases (hgrows.covers i.first reason).mp (.inr ⟨⟨hrange.1, hforeign.1⟩, rfl⟩) with
        ⟨j, hj, hcovers, rfl⟩ | ⟨hin, -⟩
      · exact hforeign.2 (congrArg _ (h.eq_of_covers his hj ⟨le_refl _, hi'⟩ hcovers))
      · have := (hfree i his).resolve_left hforeign.2
        omega
    have hright : absorbRight g reason = some _ := if_neg hnone
    change (absorbRight g reason >>= _) ≠ none
    rw [hright]
    exact some_ne_none _

/-- A loss that begins before another with a different reason and runs into it is a panic. -/
lemma recordInterval_eq_none (h : Separate s) (hi : i ∈ s) (hfirst : first ≤ i.first)
    (hlast : i.first ≤ last) (hreason : i.reason ≠ reason) :
    recordInterval s first last reason = none := by
  unfold recordInterval
  split
  · rfl
  next hle =>
    cases hg : absorbLeft s first last reason with
    | none => rfl
    | some g =>
      obtain ⟨hgrows, hge, hle', -⟩ := absorbLeft_spec h (not_lt.mp hle) hg
      have hany : (touched g).any (fun i => decide (i.first ≤ g.last ∧ i.reason ≠ reason))
          = true := by
        refine any_eq_true.mpr ⟨i, mem_filter.mpr ⟨hgrows.foreign i hi hreason, ?_⟩, ?_⟩
        · exact decide_eq_true ⟨by omega, by omega⟩
        · exact decide_eq_true ⟨by omega, hreason⟩
      have hnone : absorbRight g reason = none := if_pos hany
      change (absorbRight g reason >>= _) = none
      rw [hnone]
      rfl

end

/-! ## Acknowledging a loss -/

def acknowledgeIntervals (seq : Nat) : List (LossInterval R) → List (LossInterval R)
  | [] => []
  | i :: rest =>
    if seq < i.first then i :: rest
    else if seq < i.last then insertInterval { i with first := seq + 1 } rest
    else acknowledgeIntervals seq rest

lemma acknowledgeIntervals_spec (h : Separate s) (seq : Nat) :
    Separate (acknowledgeIntervals seq s) ∧
      (∀ n r, LostAs (acknowledgeIntervals seq s) n r ↔ LostAs s n r ∧ seq < n) ∧
      ∀ i ∈ acknowledgeIntervals seq s, ∃ j ∈ s,
        j.last = i.last ∧ j.reason = i.reason ∧ (i.first = j.first ∨ i.first = seq + 1) := by
  induction s with
  | nil => exact ⟨.nil, fun n r => by simp [acknowledgeIntervals, LostAs], fun i hi => nomatch hi⟩
  | cons i s ih =>
    obtain ⟨hfirst, -⟩ := pairwise_cons.mp h.order
    have hi := h.nonempty i mem_cons_self
    -- the other intervals are after this one
    have hs : ∀ n r, LostAs s n r → i.last < n := by
      rintro n r ⟨j, hj, ⟨hjn, -⟩, -⟩
      exact (hfirst j hj).trans_le hjn
    unfold acknowledgeIntervals
    split
    next hlt =>
      -- nothing is acknowledged
      refine ⟨h, fun n r => ⟨fun hlost => ⟨hlost, ?_⟩, And.left⟩,
        fun j hj => ⟨j, hj, rfl, rfl, .inl rfl⟩⟩
      rcases lostAs_cons.mp hlost with ⟨hin, -⟩ | hlost
      · exact hlt.trans_le hin.1
      · have := hs n r hlost
        omega
    next hge =>
      split
      next hlt =>
        -- the interval is cut
        have hkeys : ∀ j ∈ s, j.first ≠ seq + 1 := by
          intro j hj
          have := hfirst j hj
          omega
        refine ⟨separate_insertInterval h.tail (by exact hlt) fun j hj => .inr (hfirst j hj),
          fun n r => ?_, fun j hj => ?_⟩
        · rw [lostAs_insertInterval hkeys, lostAs_cons]
          constructor
          · rintro (⟨⟨hn, hle⟩, hr⟩ | hlost)
            · change seq < n at hn
              exact ⟨.inl ⟨⟨by omega, hle⟩, hr⟩, hn⟩
            · exact ⟨.inr hlost, hlt.trans (hs n r hlost)⟩
          · rintro ⟨⟨hin, hr⟩ | hlost, hn⟩
            · exact .inl ⟨⟨hn, hin.2⟩, hr⟩
            · exact .inr hlost
        · rcases (mem_insertInterval hkeys).mp hj with rfl | hj
          · exact ⟨i, mem_cons_self, rfl, rfl, .inr rfl⟩
          · exact ⟨j, mem_cons_of_mem _ hj, rfl, rfl, .inl rfl⟩
      next hge' =>
        -- the interval goes
        obtain ⟨hseparate, hlost, hfrom⟩ := ih h.tail
        refine ⟨hseparate, fun n r => ?_, fun j hj => (hfrom j hj).imp fun _ => .imp_left (.tail i)⟩
        rw [hlost n r, lostAs_cons]
        refine and_congr_left fun hn => ⟨.inr, ?_⟩
        rintro (⟨hin, -⟩ | hlost)
        · have := hin.2
          omega
        · exact hlost

/-! ## The set of intervals -/

structure LossIntervals (R : Type) where
  intervals : List (LossInterval R)
  separate : Separate intervals

namespace LossIntervals

def new : LossIntervals R := ⟨[], .nil⟩

def acknowledgeUpTo (s : LossIntervals R) (seq : Nat) : LossIntervals R :=
  ⟨acknowledgeIntervals seq s.intervals, (acknowledgeIntervals_spec s.separate seq).1⟩

def isEmpty (s : LossIntervals R) : Bool := s.intervals.isEmpty

def snapshotBefore (s : LossIntervals R) (before : Nat) : List (LossInterval R) :=
  s.intervals.filter fun i => decide (i.first < before) && decide (i.last < before)

def Lost (s : LossIntervals R) (n : Nat) (reason : R) : Prop := LostAs s.intervals n reason

lemma lost_acknowledgeUpTo (s : LossIntervals R) (seq n : Nat) (r : R) :
    (s.acknowledgeUpTo seq).Lost n r ↔ s.Lost n r ∧ seq < n :=
  (acknowledgeIntervals_spec s.separate seq).2.1 n r

lemma merged_acknowledgeUpTo {s : LossIntervals R} (seq : Nat) (hm : Merged s.intervals) :
    Merged (s.acknowledgeUpTo seq).intervals := by
  intro i hi j hj hr
  -- what is left of an interval keeps its end, and all ends are above what is acknowledged
  obtain ⟨-, hlost, hfrom⟩ := acknowledgeIntervals_spec s.separate seq
  obtain ⟨i', hi', hlast, hreason, -⟩ := hfrom i hi
  obtain ⟨j', hj', -, hreason', hfirst⟩ := hfrom j hj
  have hi₁ := (s.acknowledgeUpTo seq).separate.nonempty i hi
  have habove := ((hlost i.last i.reason).mp ⟨i, hi, ⟨hi₁, le_refl _⟩, rfl⟩).2
  have := hm i' hi' j' hj' ((hreason.trans hr).trans hreason'.symm)
  omega

variable [DecidableEq R] {first last : Nat} {reason : R} {s : LossIntervals R}

lemma separate_recorded (hl : l ∈ recordInterval s.intervals first last reason) : Separate l :=
  (recordInterval_spec s.separate hl).1

def record (s : LossIntervals R) (first last : Nat) (reason : R) : Option (LossIntervals R) :=
  (recordInterval s.intervals first last reason).pmap LossIntervals.mk fun _ hl =>
    separate_recorded hl

variable {s' : LossIntervals R}

lemma record_eq_some : s.record first last reason = some s' ↔
      recordInterval s.intervals first last reason = some s'.intervals := by
  unfold record
  rw [pmap_eq_some_iff]
  constructor
  · rintro ⟨l, hl, heq, rfl⟩
    exact heq
  · intro heq
    exact ⟨s'.intervals, s'.separate, heq, rfl⟩

lemma record_eq_none : s.record first last reason = none ↔
      recordInterval s.intervals first last reason = none := by
  exact pmap_eq_none_iff

lemma lost_record (h : s.record first last reason = some s') (n : Nat) (r : R) :
    s'.Lost n r ↔ s.Lost n r ∨ ((first ≤ n ∧ n ≤ last) ∧ r = reason) :=
  (recordInterval_spec s.separate (record_eq_some.mp h)).2.1 n r

lemma merged_record (h : s.record first last reason = some s') (hm : Merged s.intervals) :
    Merged s'.intervals :=
  (recordInterval_spec s.separate (record_eq_some.mp h)).2.2 hm

lemma exists_record (s : LossIntervals R) (hle : first ≤ last)
    (hfree : ∀ n r, first ≤ n → n ≤ last → s.Lost n r → r = reason) :
    ∃ s', s.record first last reason = some s' := by
  refine ne_none_iff_exists'.mp fun hnone => ?_
  refine recordInterval_ne_none s.separate hle (fun i hi => ?_) (record_eq_none.mp hnone)
  have hi' := s.separate.nonempty i hi
  by_contra hoverlap
  rw [not_or] at hoverlap
  -- the greater of the two beginnings is in both intervals
  refine hoverlap.1 (hfree (max i.first first) i.reason ?_ ?_ ⟨i, hi, ⟨?_, ?_⟩, rfl⟩) <;> omega

lemma record_panics (s : LossIntervals R) {r : R} (hfirst : ∀ r, ¬s.Lost first r)
    (hn : first ≤ n ∧ n ≤ last) (hlost : s.Lost n r) (hr : r ≠ reason) :
    s.record first last reason = none := by
  obtain ⟨i, hi, hin, rfl⟩ := hlost
  have hafter : first < i.first := by
    by_contra hle
    have := hin.2
    exact hfirst i.reason ⟨i, hi, ⟨by omega, by omega⟩, rfl⟩
  refine record_eq_none.mpr (recordInterval_eq_none s.separate hi hafter.le ?_ hr)
  have := hin.1
  omega

end LossIntervals

end OnceBuild.Events
