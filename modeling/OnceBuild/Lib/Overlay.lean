import Mathlib.Data.List.Infix

/-!
# Trees laid over each other

A store maps paths to contents.  Writing a tree at a path replaces all that is at or below it, so
after several writes a place holds what the last write at or above it put there.  When a path is
never written after one below it, that is the write at the longest path above the place: `closest`
finds it in a map that is keyed by path.
-/

namespace OnceBuild.Lib

open List

universe u v w

variable {N : Type u} {C : Type v} {V : Type w}

/-! ## Writes -/

variable {writes : List (List N × V)} {z p : List N} {v : V}

section writes

variable [DecidableEq N]

/-- Put a tree at `p`. -/
def graft (p : List N) (tree : List N → C) (store : List N → C) : List N → C :=
  fun z => if p <+: z then tree (z.drop p.length) else store z

variable (tree : V → List N → C)

def writeAll (writes : List (List N × V)) (store : List N → C) : List N → C :=
  writes.foldl (fun store w => graft w.1 (tree w.2) store) store

lemma writeAll_cons (w : List N × V) (writes : List (List N × V)) (store : List N → C) :
    writeAll tree (w :: writes) store = writeAll tree writes (graft w.1 (tree w.2) store) := rfl

lemma writeAll_append (writes more : List (List N × V)) (store : List N → C) :
    writeAll tree (writes ++ more) store = writeAll tree more (writeAll tree writes store) :=
  foldl_append

lemma writeAll_elsewhere (h : ∀ w ∈ writes, ¬ w.1 <+: z) (store : List N → C) :
    writeAll tree writes store z = store z := by
  induction writes generalizing store with
  | nil => rfl
  | cons w writes ih =>
    rw [writeAll_cons, ih fun w' hw' => h w' (mem_cons_of_mem _ hw')]
    exact if_neg (h w mem_cons_self)

lemma writeAll_last {before after : List (List N × V)} (hp : p <+: z)
    (h : ∀ w ∈ after, ¬ w.1 <+: z) (store : List N → C) :
    writeAll tree (before ++ (p, v) :: after) store z = tree v (z.drop p.length) := by
  rw [writeAll_append, writeAll_cons, writeAll_elsewhere tree h]
  exact if_pos hp

end writes

/-- No path is written at or below an earlier one that lies below it: directories come before what
is in them, and no path comes twice. -/
def ParentFirst (writes : List (List N × V)) : Prop :=
  writes.Pairwise fun earlier later => ¬ later.1 <+: earlier.1

lemma ParentFirst.filter (h : ParentFirst writes) (keep : List N × V → Bool) :
    ParentFirst (writes.filter keep) :=
  Pairwise.filter keep h

lemma ParentFirst.writeAll_longest [DecidableEq N] (tree : V → List N → C)
    (h : ParentFirst writes) (hmem : (p, v) ∈ writes) (hp : p <+: z)
    (hlongest : ∀ w ∈ writes, w.1 <+: z → w.1 <+: p) (store : List N → C) :
    writeAll tree writes store z = tree v (z.drop p.length) := by
  obtain ⟨before, after, rfl⟩ := append_of_mem hmem
  have hafter : ∀ w ∈ after, ¬ w.1 <+: p := (pairwise_cons.mp (pairwise_append.mp h).2.1).1
  refine writeAll_last tree hp (fun w hw hz => hafter w hw ?_) store
  exact hlongest w (mem_append_right _ (mem_cons_of_mem _ hw)) hz

/-! ## The closest entry -/

/-- `closest` of the path whose components are listed last to first. -/
def closestFrom (m : List N → Option V) : List N → Option (List N × V)
  | [] => none
  | c :: rest =>
    match m (c :: rest).reverse with
    | some v => some ((c :: rest).reverse, v)
    | none => closestFrom m rest

/-- The entry at a path or else at the longest path above it; the empty path has no entry. -/
def closest (m : List N → Option V) (z : List N) : Option (List N × V) := closestFrom m z.reverse

lemma closest_concat (m : List N → Option V) (z : List N) (c : N) : closest m (z ++ [c]) =
      match m (z ++ [c]) with
      | some v => some (z ++ [c], v)
      | none => closest m z := by
  have hreverse : (z ++ [c]).reverse = c :: z.reverse := by simp
  simp only [closest, hreverse, closestFrom, reverse_cons, reverse_reverse]

variable {m : List N → Option V}

/-- What `closest` finds is an entry above the place, and every other one lies above it. -/
lemma closest_eq_some (h : closest m z = some (p, v)) : p <+: z ∧ p ≠ [] ∧ m p = some v ∧
      ∀ q, q ≠ [] → q <+: z → (m q).isSome = true → q <+: p := by
  induction z using reverseRecOn with
  | nil => cases h
  | append_singleton z c ih =>
    rw [closest_concat] at h
    split at h
    case h_1 found hfound =>
      cases h
      exact ⟨prefix_refl _, by simp, hfound, fun q _ hq _ => hq⟩
    case h_2 hnone =>
      obtain ⟨hp, hne, hmp, hlongest⟩ := ih h
      refine ⟨hp.trans (prefix_append _ _), hne, hmp, fun q hqne hq hsome => ?_⟩
      rcases prefix_concat_iff.mp hq with rfl | hq
      · rw [hnone] at hsome
        cases hsome
      · exact hlongest q hqne hq hsome

lemma closest_eq_none (h : closest m z = none) {q : List N} (hne : q ≠ []) (hq : q <+: z) :
    m q = none := by
  induction z using reverseRecOn with
  | nil => exact absurd (prefix_nil.mp hq) hne
  | append_singleton z c ih =>
    rw [closest_concat] at h
    split at h
    case h_1 => cases h
    case h_2 hnone =>
      rcases prefix_concat_iff.mp hq with rfl | hq
      · exact hnone
      · exact ih h hq

lemma closest_of_longest (hp : p <+: z) (hne : p ≠ []) (hmp : m p = some v)
    (hlongest : ∀ q, q ≠ [] → q <+: z → (m q).isSome = true → q <+: p) :
    closest m z = some (p, v) := by
  cases h : closest m z with
  | none =>
    rw [closest_eq_none h hne hp] at hmp
    cases hmp
  | some found =>
    obtain ⟨q, u⟩ := found
    obtain ⟨hq, hqne, hmq, hqlongest⟩ := closest_eq_some h
    have hqp : q <+: p := hlongest q hqne hq (by rw [hmq]; rfl)
    have hpq : p <+: q := hqlongest p hne hp (by rw [hmp]; rfl)
    obtain rfl : q = p := hqp.eq_of_length_le hpq.length_le
    rw [hmp] at hmq
    cases hmq
    rfl

lemma closest_congr {m' : List N → Option V} (h : ∀ q, q ≠ [] → q <+: z → m q = m' q) :
    closest m z = closest m' z := by
  induction z using reverseRecOn with
  | nil => rfl
  | append_singleton z c ih =>
    rw [closest_concat, closest_concat, h (z ++ [c]) (by simp) (prefix_refl _),
      ih fun q hne hq => h q hne (hq.trans (prefix_append _ _))]

lemma closest_map {U : Type w} (m : List N → Option V) (f : List N → V → U) (z : List N) :
    closest (fun p => (m p).map (f p)) z =
      (closest m z).map fun found => (found.1, f found.1 found.2) := by
  induction z using reverseRecOn with
  | nil => rfl
  | append_singleton z c ih =>
    rw [closest_concat, closest_concat, ih]
    cases m (z ++ [c]) with
    | none | some v => rfl

lemma exists_longest {entries : List (List N × V)} (h : ∃ entry ∈ entries, entry.1 <+: z) :
    ∃ entry ∈ entries, entry.1 <+: z ∧ ∀ other ∈ entries, other.1 <+: z → other.1 <+: entry.1 := by
  induction entries with
  | nil =>
    obtain ⟨entry, hentry, -⟩ := h
    cases hentry
  | cons first rest ih =>
    by_cases hrest : ∃ entry ∈ rest, entry.1 <+: z
    · obtain ⟨longest, hmem, hz, hall⟩ := ih hrest
      by_cases hfirst : first.1 <+: z
      · rcases prefix_or_prefix_of_prefix hfirst hz with hle | hle
        · refine ⟨longest, mem_cons_of_mem _ hmem, hz, fun other hother hoz => ?_⟩
          rcases mem_cons.mp hother with rfl | hother
          · exact hle
          · exact hall other hother hoz
        · refine ⟨first, mem_cons_self, hfirst, fun other hother hoz => ?_⟩
          rcases mem_cons.mp hother with rfl | hother
          · exact prefix_refl _
          · exact (hall other hother hoz).trans hle
      · refine ⟨longest, mem_cons_of_mem _ hmem, hz, fun other hother hoz => ?_⟩
        rcases mem_cons.mp hother with rfl | hother
        · exact absurd hoz hfirst
        · exact hall other hother hoz
    · obtain ⟨entry, hentry, hz⟩ := h
      refine ⟨entry, hentry, hz, fun other hother hoz => ?_⟩
      have honly : ∀ e ∈ first :: rest, e.1 <+: z → e = first := by
        intro e he hez
        rcases mem_cons.mp he with rfl | he
        · rfl
        · exact absurd ⟨e, he, hez⟩ hrest
      rw [honly other hother hoz, honly entry hentry hz]

end OnceBuild.Lib
