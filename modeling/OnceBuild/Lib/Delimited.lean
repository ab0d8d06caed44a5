import Mathlib.Data.List.Basic

/-!
# Pieces that are told apart by a separator

Pieces are written one after the other, each followed by a separator.  They can be told apart again
when it is known how often each of them holds the separator itself, or how long it is.
-/

namespace OnceBuild.Lib

open List

variable {α : Type} {sep : α}

def terminated (sep : α) (pieces : List (List α)) : List α := pieces.flatMap (· ++ [sep])

@[simp] lemma terminated_cons (piece : List α) (pieces : List (List α)) :
    terminated sep (piece :: pieces) = piece ++ sep :: terminated sep pieces :=
  append_assoc piece [sep] _

/-- A label and a body, each followed by the separator. -/
def labelled (sep : α) (entries : List (List α × List α)) : List α :=
  entries.flatMap fun entry => terminated sep [entry.1, entry.2]

lemma labelled_cons (entry : List α × List α) (entries : List (List α × List α)) :
    labelled sep (entry :: entries) =
      entry.1 ++ sep :: (entry.2 ++ sep :: labelled sep entries) := by
  simp [labelled, terminated]

@[simp] lemma labelled_append (entries entries' : List (List α × List α)) :
    labelled sep (entries ++ entries') = labelled sep entries ++ labelled sep entries' :=
  flatMap_append

def piecesOf (entries : List (List α × List α)) : List (List α) :=
  entries.flatMap fun entry => [entry.1, entry.2]

lemma labelled_eq_terminated (entries : List (List α × List α)) :
    labelled sep entries = terminated sep (piecesOf entries) := by
  induction entries with
  | nil => rfl
  | cons entry entries ih =>
    rw [labelled_cons, ih]
    simp [piecesOf]

variable {entries entries' : List (List α × List α)}

lemma piecesOf_injective (h : piecesOf entries = piecesOf entries') : entries = entries' := by
  induction entries generalizing entries' with
  | nil =>
    cases entries' with
    | nil => rfl
    | cons entry' entries' => cases h
  | cons entry entries ih =>
    cases entries' with
    | nil => cases h
    | cons entry' entries' =>
      obtain ⟨hlabel, htail⟩ := cons.inj h
      obtain ⟨hbody, hrest⟩ := cons.inj htail
      rw [ih hrest, Prod.ext hlabel hbody]

variable [DecidableEq α] {rest rest' : List α}

lemma cut_inj {x y : List α} (hcount : x.count sep = y.count sep)
    (h : x ++ sep :: rest = y ++ sep :: rest') : x = y ∧ rest = rest' := by
  induction x generalizing y with
  | nil =>
    cases y with
    | nil => exact ⟨rfl, (cons.inj h).2⟩
    | cons b y =>
      -- the other piece would begin with a separator
      have hb : b = sep := (cons.inj h).1.symm
      rw [hb, count_cons_self] at hcount
      cases hcount
  | cons a x ih =>
    cases y with
    | nil =>
      have ha : a = sep := (cons.inj h).1
      rw [ha, count_cons_self] at hcount
      cases hcount
    | cons b y =>
      obtain ⟨hab, htail⟩ := cons.inj h
      subst hab
      rw [count_cons, count_cons] at hcount
      obtain ⟨hxy, hrest⟩ := ih (Nat.add_right_cancel hcount) htail
      exact ⟨congrArg (a :: ·) hxy, hrest⟩

lemma terminated_inj {pieces pieces' : List (List α)}
    (hcounts : pieces.map (List.count sep) = pieces'.map (List.count sep))
    (h : terminated sep pieces ++ rest = terminated sep pieces' ++ rest') :
    pieces = pieces' ∧ rest = rest' := by
  induction pieces generalizing pieces' with
  | nil =>
    obtain rfl : pieces' = [] := map_eq_nil_iff.mp hcounts.symm
    exact ⟨rfl, h⟩
  | cons piece pieces ih =>
    cases pieces' with
    | nil => cases hcounts
    | cons piece' pieces' =>
      obtain ⟨hcount, hothers⟩ := cons.inj hcounts
      simp only [terminated_cons, append_assoc, cons_append] at h
      obtain ⟨hpiece, htail⟩ := cut_inj hcount h
      obtain ⟨hpieces, hrest⟩ := ih hothers htail
      rw [hpiece, hpieces]
      exact ⟨rfl, hrest⟩

/-! ## Entries of two pieces -/

lemma labelled_inj {width : Nat}
    (hcounts : entries.map (fun entry => entry.1.count sep) =
      entries'.map fun entry => entry.1.count sep)
    (hwidth : ∀ entry ∈ entries, entry.2.length = width)
    (hwidth' : ∀ entry ∈ entries', entry.2.length = width)
    (h : labelled sep entries ++ rest = labelled sep entries' ++ rest') :
    entries = entries' ∧ rest = rest' := by
  induction entries generalizing entries' with
  | nil =>
    obtain rfl : entries' = [] := map_eq_nil_iff.mp hcounts.symm
    exact ⟨rfl, h⟩
  | cons entry entries ih =>
    cases entries' with
    | nil => cases hcounts
    | cons entry' entries' =>
      obtain ⟨hcount, hothers⟩ := cons.inj hcounts
      simp only [labelled_cons, append_assoc, cons_append] at h
      obtain ⟨hlabel, htail⟩ := cut_inj hcount h
      obtain ⟨hbody, htail⟩ := append_inj htail
        ((hwidth entry mem_cons_self).trans (hwidth' entry' mem_cons_self).symm)
      obtain ⟨rfl, hrest⟩ := ih hothers
        (fun other hother => hwidth other (mem_cons_of_mem _ hother))
        (fun other hother => hwidth' other (mem_cons_of_mem _ hother))
        (cons.inj htail).2
      exact ⟨congrArg (· :: entries) (Prod.ext hlabel hbody), hrest⟩

/-- A label without separators says how its body ends: after `width` letters, or at a separator. -/
structure WellLabelled (sep : α) (width : Nat) (fixed : List α → Bool) (entry : List α × List α) :
    Prop where
  label : sep ∉ entry.1
  wide : fixed entry.1 = true → entry.2.length = width
  narrow : fixed entry.1 = false → sep ∉ entry.2

lemma labelled_injective {width : Nat} {fixed : List α → Bool}
    (hentries : ∀ entry ∈ entries, WellLabelled sep width fixed entry)
    (hentries' : ∀ entry ∈ entries', WellLabelled sep width fixed entry)
    (h : labelled sep entries = labelled sep entries') : entries = entries' := by
  induction entries generalizing entries' with
  | nil =>
    cases entries' with
    | nil => rfl
    | cons entry' entries' =>
      rw [labelled_cons] at h
      exact absurd h (append_ne_nil_of_right_ne_nil _ (cons_ne_nil _ _)).symm
  | cons entry entries ih =>
    cases entries' with
    | nil =>
      rw [labelled_cons] at h
      exact absurd h (append_ne_nil_of_right_ne_nil _ (cons_ne_nil _ _))
    | cons entry' entries' =>
      have hfirst := hentries entry mem_cons_self
      have hfirst' := hentries' entry' mem_cons_self
      rw [labelled_cons, labelled_cons] at h
      have hcount : entry.1.count sep = entry'.1.count sep := by
        rw [count_eq_zero_of_not_mem hfirst.label, count_eq_zero_of_not_mem hfirst'.label]
      obtain ⟨hlabel, htail⟩ := cut_inj hcount h
      have hbody : entry.2 = entry'.2 ∧ labelled sep entries = labelled sep entries' := by
        cases hfixed : fixed entry.1 with
        | true =>
          obtain ⟨hbody, hrest⟩ := append_inj htail
            ((hfirst.wide hfixed).trans (hfirst'.wide (hlabel ▸ hfixed)).symm)
          exact ⟨hbody, (cons.inj hrest).2⟩
        | false =>
          refine cut_inj ?_ htail
          rw [count_eq_zero_of_not_mem (hfirst.narrow hfixed),
            count_eq_zero_of_not_mem (hfirst'.narrow (hlabel ▸ hfixed))]
      have hrest := ih (fun other hother => hentries other (mem_cons_of_mem _ hother))
        (fun other hother => hentries' other (mem_cons_of_mem _ hother)) hbody.2
      rw [hrest, Prod.ext hlabel hbody.1]

end OnceBuild.Lib
