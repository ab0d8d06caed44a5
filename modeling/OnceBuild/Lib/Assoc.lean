import Mathlib.Data.List.Basic

/-!
# Lists with keys
-/

namespace OnceBuild.Lib

open List

universe u v w

variable {K : Type u} {V : Type v}

variable {entries : List (K × V)} {key : K}

lemma mem_of_lookup [BEq K] [LawfulBEq K] {value : V} (h : entries.lookup key = some value) :
    (key, value) ∈ entries := by
  obtain ⟨before, after, rfl, -⟩ := lookup_eq_some_iff.mp h
  simp

lemma lookup_of_mem [BEq K] [LawfulBEq K] (hnodup : (entries.map Prod.fst).Nodup) {value : V}
    (h : (key, value) ∈ entries) : entries.lookup key = some value := by
  rcases append_of_mem h with ⟨before, after, rfl⟩
  refine lookup_eq_some_iff.mpr ⟨before, after, rfl, fun entry hentry => ?_⟩
  rw [map_append, nodup_append] at hnodup
  have hne := hnodup.2.2 entry.1 (mem_map.mpr ⟨entry, hentry, rfl⟩) key (by simp)
  simpa using hne.symm

section adjust

variable {C : Type w} [BEq K]

/-- Change the value of one key. -/
def adjust (op : V → C → V) (g : K → V) (key : K) (c : C) : K → V :=
  fun k => if k == key then op (g k) c else g k

/-- `for (key, c) in entries { g[key] = op(g[key], c) }`. -/
def adjustAll (op : V → C → V) (g : K → V) (entries : List (K × C)) : K → V :=
  entries.foldl (fun g entry => adjust op g entry.1 entry.2) g

variable [LawfulBEq K] {op : V → C → V}

lemma adjustAll_of_notMem {entries : List (K × C)} (h : key ∉ entries.map Prod.fst) (g : K → V) :
    adjustAll op g entries key = g key := by
  induction entries generalizing g with
  | nil => rfl
  | cons entry entries ih =>
    rw [map_cons, mem_cons, not_or] at h
    have hne : (key == entry.1) = false := beq_eq_false_iff_ne.mpr h.1
    exact (ih h.2 _).trans (by simp [adjust, hne])

lemma adjustAll_apply {entries : List (K × C)} (h : (entries.map Prod.fst).Nodup) (g : K → V)
    (key : K) : adjustAll op g entries key = match entries.lookup key with
      | some c => op (g key) c
      | none => g key := by
  induction entries generalizing g with
  | nil => rfl
  | cons entry entries ih =>
    rw [map_cons, nodup_cons] at h
    rw [lookup_cons]
    cases hkey : key == entry.1 with
    | true =>
      have hnot : key ∉ entries.map Prod.fst := eq_of_beq hkey ▸ h.1
      exact (adjustAll_of_notMem hnot _).trans (by simp [adjust, hkey])
    | false =>
      refine (ih h.2 _).trans ?_
      simp only [adjust, hkey, Bool.false_eq_true, if_false]

end adjust

section latest

variable [DecidableEq K]

/-- The entries of a map that is built by inserting these in order: a later entry replaces an
earlier one of the same key. -/
def latest : List (K × V) → List (K × V)
  | [] => []
  | entry :: rest => if entry.1 ∈ rest.map Prod.fst then latest rest else entry :: latest rest

lemma latest_sublist (entries : List (K × V)) : (latest entries).Sublist entries := by
  induction entries with
  | nil => exact Sublist.refl _
  | cons first rest ih =>
    unfold latest
    split
    case isTrue => exact ih.cons _
    case isFalse => exact ih.cons_cons _

lemma nodup_latest (entries : List (K × V)) : ((latest entries).map Prod.fst).Nodup := by
  induction entries with
  | nil => exact nodup_nil
  | cons first rest ih =>
    unfold latest
    split
    case isTrue => exact ih
    case isFalse hnew =>
      rw [map_cons, nodup_cons]
      refine ⟨fun hmem => hnew ?_, ih⟩
      obtain ⟨entry, hentry, hkey⟩ := mem_map.mp hmem
      exact mem_map.mpr ⟨entry, (latest_sublist rest).subset hentry, hkey⟩

lemma latest_of_nodup (h : (entries.map Prod.fst).Nodup) : latest entries = entries := by
  induction entries with
  | nil => rfl
  | cons first rest ih =>
    rw [map_cons, nodup_cons] at h
    rw [latest, if_neg h.1, ih h.2]

end latest

/-- The element that `find?` returns is the one that `eraseP` removes. -/
lemma split_of_find? {p : V → Bool} {l : List V} {a : V} (h : l.find? p = some a) :
    ∃ before after, l = before ++ a :: after ∧ l.eraseP p = before ++ after ∧ p a = true := by
  rcases find?_eq_some_iff_append.mp h with ⟨hp, before, after, rfl, hbefore⟩
  refine ⟨before, after, rfl, ?_, hp⟩
  rw [eraseP_append_right _ (by simpa using hbefore), eraseP_cons_of_pos hp]

/-! ## Parts of a list by key -/

section parts

variable [BEq K] [LawfulBEq K] {key : V → K} {p : K → Bool} {k : K} {l : List V}

lemma find?_filter_key (h : p k = true) :
    (l.filter fun x => p (key x)).find? (fun x => key x == k) = l.find? fun x => key x == k := by
  rw [find?_filter]
  congr 1
  funext x
  cases hx : key x == k with
  | false => simp
  | true => simp [eq_of_beq hx, h]

lemma eraseP_filter_key (h : p k = true) :
    (l.eraseP fun x => key x == k).filter (fun x => p (key x)) =
      (l.filter fun x => p (key x)).eraseP fun x => key x == k := by
  induction l with
  | nil => rfl
  | cons x l ih =>
    cases hx : key x == k with
    | true =>
      have hp : p (key x) = true := (eq_of_beq hx).symm ▸ h
      simp only [eraseP_cons, hx, filter_cons, hp, if_true, cond_true]
    | false =>
      simp only [eraseP_cons, hx, filter_cons, cond_false, ih]
      split
      case isTrue => simp only [eraseP_cons, hx, cond_false]
      case isFalse => rfl

lemma eraseP_filter_of_key (h : p k = false) :
    (l.eraseP fun x => key x == k).filter (fun x => p (key x)) = l.filter fun x => p (key x) := by
  induction l with
  | nil => rfl
  | cons x l ih =>
    cases hx : key x == k with
    | true =>
      have hp : p (key x) = false := (eq_of_beq hx).symm ▸ h
      simp only [eraseP_cons, hx, filter_cons, hp, cond_true, Bool.false_eq_true, if_false]
    | false => simp only [eraseP_cons, hx, filter_cons, cond_false, ih]

omit [BEq K] [LawfulBEq K] in
lemma filter_map_key {change : V → V} (hkey : ∀ x, key (change x) = key x) :
    (l.map change).filter (fun x => p (key x)) = (l.filter fun x => p (key x)).map change := by
  rw [filter_map]
  congr 2
  funext x
  simp only [Function.comp_apply, hkey]

omit [BEq K] [LawfulBEq K] in
lemma filter_map_of_key_ne {change : V → V} (hother : ∀ x, key x ≠ k → change x = x)
    (hkey : ∀ x, key (change x) = key x) (h : p k = false) :
    (l.map change).filter (fun x => p (key x)) = l.filter fun x => p (key x) := by
  rw [filter_map_key hkey]
  refine (map_congr_left fun x hx => hother x fun heq => ?_).trans (map_id' _)
  have hp := (mem_filter.mp hx).2
  rw [heq, h] at hp
  cases hp

end parts

end OnceBuild.Lib
