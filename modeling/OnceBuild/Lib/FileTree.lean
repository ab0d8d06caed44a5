import Mathlib.Data.List.Infix
import OnceBuild.Lib.Interleave

/-!
# Operations on a tree of files and directories

A tree says what is at each path: a directory, a file or nothing.  An operation replaces what is at
some places, turns missing places above others into directories, and fails when a file is in its
way.  Two operations commute when neither replaces or adds a place the other looks at.
-/

namespace OnceBuild.Lib

open List Bool

universe u v

variable {N : Type u} {α : Type v}

inductive Node (α : Type v) where
  | dir
  | file (content : α)
  deriving DecidableEq

abbrev FileTree (N : Type u) (α : Type v) := List N → Option (Node α)

def isFile : Option (Node α) → Bool
  | some (.file _) => true
  | _ => false

def isDir : Option (Node α) → Bool
  | some .dir => true
  | _ => false

inductive FileOp (N : Type u) (α : Type v) where
  | look (z : List N)
  | remove (p : List N)
  /-- Create the directory `d` with the directories above it. -/
  | createDir (d : List N)
  /-- Write the file `z` and create the directories above it. -/
  | write (z : List N) (content : α)
  /-- Replace all that is at and below `z` by a tree and create the directories above it. -/
  | place (z : List N) (tree : FileTree N α)
  /-- Test what is at and below `z`. -/
  | check (z : List N) (test : FileTree N α → Bool)

inductive FileAnswer (α : Type v) where
  | node (there : Option (Node α))
  | ok
  | failed
  deriving DecidableEq

variable {y : List N}

namespace FileOp

variable [DecidableEq N]

/-! ## What an operation changes -/

def replaces : FileOp N α → List N → Bool
  | remove p, y => p.isPrefixOf y
  | write z _, y => y = z
  | place z _, y => z.isPrefixOf y
  | _, _ => false

/-- Places that become directories when nothing is there. -/
def adds : FileOp N α → List N → Bool
  | createDir d, y => y.isPrefixOf d
  | write z _, y => y.isPrefixOf z
  | place z _, y => y.isPrefixOf z
  | _, _ => false

def puts : FileOp N α → List N → Option (Node α)
  | write _ content, _ => some (.file content)
  | place z tree, y => tree (y.drop z.length)
  | _, _ => none

def changed (o : FileOp N α) (t : FileTree N α) : FileTree N α := fun y =>
  if o.replaces y then o.puts y
  else if o.adds y && (t y).isNone then some .dir
  else t y

/-! ## When it succeeds -/

/-- Whether there is a file strictly above `p`. -/
def blocked (t : FileTree N α) (p : List N) : Bool :=
  (List.range p.length).any fun n => isFile (t (p.take n))

def fits (t : FileTree N α) : FileOp N α → Bool
  | look _ => true
  | remove p => !blocked t p
  | createDir d => !(blocked t d || isFile (t d))
  | write z _ => !(blocked t z || isDir (t z))
  | place z _ => !blocked t z
  | check _ _ => true

def answer (t : FileTree N α) : FileOp N α → FileAnswer α
  | look z => .node (t z)
  | check z test => if test (fun y => t (z ++ y)) then .ok else .failed
  | o => if o.fits t then .ok else .failed

def apply (o : FileOp N α) (t : FileTree N α) : FileTree N α × FileAnswer α :=
  (if o.fits t then o.changed t else t, o.answer t)

/-- Places where the operation minds a file. -/
def minds : FileOp N α → List N → Prop
  | look _, _ => False
  | remove p, y => y <+: p ∧ y ≠ p
  | createDir d, y => y <+: d
  | write z _, y => y <+: z ∧ y ≠ z
  | place z _, y => y <+: z ∧ y ≠ z
  | check _ _, _ => False

def reads : FileOp N α → List N → Prop
  | look z, y => y = z
  | write z _, y => y = z
  | check z _, y => z <+: y
  | _, _ => False

/-- `o'` leaves alone what `o` looks at and what `o` replaces. -/
structure Undisturbed (o o' : FileOp N α) : Prop where
  minds : ∀ y, o.minds y → o'.replaces y = false
  reads : ∀ y, o.reads y → o'.replaces y = false ∧ o'.adds y = false
  replaced : ∀ y, o.replaces y = true → o'.replaces y = false ∧ o'.adds y = false

/-! ## Commuting operations -/

variable {o : FileOp N α}

lemma changed_of_clear (hr : o.replaces y = false) (ha : o.adds y = false) (t : FileTree N α) :
    o.changed t y = t y := by
  simp [changed, hr, ha]

lemma isFile_changed (hr : o.replaces y = false) (t : FileTree N α) :
    isFile (o.changed t y) = isFile (t y) := by
  simp only [changed, hr, false_eq_true, if_false]
  cases ht : t y with
  | none => cases o.adds y <;> rfl
  | some node => simp

omit [DecidableEq N] in
lemma blocked_iff {t : FileTree N α} {p : List N} :
    blocked t p = true ↔ ∃ y, y <+: p ∧ y ≠ p ∧ isFile (t y) = true := by
  simp only [blocked, any_eq_true, mem_range]
  constructor
  · rintro ⟨n, hn, hfile⟩
    refine ⟨p.take n, List.take_prefix n p, fun heq => ?_, hfile⟩
    have hlen := congrArg List.length heq
    simp only [length_take] at hlen
    omega
  · rintro ⟨y, hy, hne, hfile⟩
    refine ⟨y.length, lt_of_le_of_ne hy.length_le fun hlen => hne (hy.eq_of_length hlen), ?_⟩
    rwa [← prefix_iff_eq_take.mp hy]

omit [DecidableEq N] in
lemma blocked_congr {t t' : FileTree N α} {p : List N}
    (h : ∀ y, y <+: p → y ≠ p → isFile (t y) = isFile (t' y)) : blocked t p = blocked t' p := by
  rw [Bool.eq_iff_iff, blocked_iff, blocked_iff]
  refine exists_congr fun y => and_congr_right fun hy => and_congr_right fun hne => ?_
  rw [h y hy hne]

variable {o' : FileOp N α}

section

variable (h : Undisturbed o o')
include h

lemma fits_changed (t : FileTree N α) : o.fits (o'.changed t) = o.fits t := by
  have hminds : ∀ y, o.minds y → isFile (o'.changed t y) = isFile (t y) :=
    fun y hy => isFile_changed (h.minds y hy) t
  cases o with
  | look z => rfl
  | remove p | place z tree =>
    simp only [fits]
    rw [blocked_congr fun y hy hne => hminds y ⟨hy, hne⟩]
  | createDir d =>
    simp only [fits]
    rw [blocked_congr fun y hy _ => hminds y hy, hminds d (prefix_refl d)]
  | write z content =>
    obtain ⟨hr, ha⟩ := h.reads z rfl
    simp only [fits]
    rw [blocked_congr fun y hy hne => hminds y ⟨hy, hne⟩, changed_of_clear hr ha]
  | check z test => rfl

lemma changed_comm (h' : Undisturbed o' o) (t : FileTree N α) :
    o'.changed (o.changed t) = o.changed (o'.changed t) := by
  funext y
  cases hr : o.replaces y with
  | true =>
    obtain ⟨hr', ha'⟩ := h.replaced y hr
    rw [changed_of_clear hr' ha']
    simp [changed, hr]
  | false =>
    cases hr' : o'.replaces y with
    | true =>
      obtain ⟨_, ha⟩ := h'.replaced y hr'
      rw [changed_of_clear hr ha]
      simp [changed, hr']
    | false =>
      -- both can only turn a missing place into a directory
      simp only [changed, hr, hr', false_eq_true, if_false]
      cases ht : t y <;> cases o.adds y <;> cases o'.adds y <;> simp

lemma answer_changed (t : FileTree N α) : o.answer (o'.changed t) = o.answer t := by
  have hfits := fits_changed h t
  cases o with
  | look z =>
    obtain ⟨hr, ha⟩ := h.reads z rfl
    simp only [answer, changed_of_clear hr ha]
  | remove p | createDir d | write z content | place z tree => simp only [answer, hfits]
  | check z test =>
    have hsame : (fun y => o'.changed t (z ++ y)) = fun y => t (z ++ y) := by
      funext y
      obtain ⟨hr, ha⟩ := h.reads (z ++ y) (prefix_append z y)
      exact changed_of_clear hr ha t
    simp only [answer, hsame]

lemma answer_apply (t : FileTree N α) : (o.apply (o'.apply t).1).2 = (o.apply t).2 := by
  simp only [apply]
  split
  · exact answer_changed h t
  · rfl

lemma commute_of_undisturbed (h' : Undisturbed o' o) : Commute FileOp.apply o o' := by
  intro t
  refine ⟨?_, answer_apply h t, answer_apply h' t⟩
  simp only [apply]
  rcases eq_false_or_eq_true (o.fits t) with hfits | hfits <;>
    rcases eq_false_or_eq_true (o'.fits t) with hfits' | hfits' <;>
      simp [fits_changed h, fits_changed h', hfits, hfits', changed_comm h h']

end

end FileOp

/-! ## Scopes -/

/-- Where a program works: the paths it writes at or below, the paths it reads at or below, and the
directories it creates. -/
structure FileScope (N : Type u) where
  writes : List (List N)
  reads : List (List N)
  dirs : List (List N)

namespace FileScope

def accesses (s : FileScope N) : List (List N) := s.writes ++ s.reads

def Allows (s : FileScope N) : FileOp N α → Prop
  | .look z => ∃ x ∈ s.accesses, x <+: z
  | .remove p => ∃ w ∈ s.writes, w <+: p
  | .createDir d => (∃ c ∈ s.dirs, d <+: c) ∨ ∃ w ∈ s.writes, d <+: w ∨ w <+: d
  | .write z _ => ∃ w ∈ s.writes, w <+: z
  | .place z _ => ∃ w ∈ s.writes, w <+: z
  | .check z _ => ∃ x ∈ s.accesses, x <+: z

/-- Nothing that `s` writes or creates is at, above or below what `s'` writes or reads, except for
directories that `s` creates above it. -/
structure Apart (s s' : FileScope N) : Prop where
  writes : ∀ w ∈ s.writes, ∀ x ∈ s'.accesses, ¬ w <+: x ∧ ¬ x <+: w
  dirs : ∀ d ∈ s.dirs, ∀ x ∈ s'.accesses, ¬ x <+: d

def Below (s : FileScope N) (y : List N) : Prop := ∃ x ∈ s.accesses, x <+: y

/-- Places on the way to what the program writes or creates, or below what it writes. -/
def Near (s : FileScope N) (y : List N) : Prop :=
  (∃ c ∈ s.dirs, y <+: c) ∨ ∃ w ∈ s.writes, y <+: w ∨ w <+: y

lemma Apart.not_near {s s' : FileScope N} (h : s.Apart s') (hbelow : s'.Below y) : ¬ s.Near y := by
  obtain ⟨x, hx, hxy⟩ := hbelow
  rintro (⟨c, hc, hyc⟩ | ⟨w, hw, hyw | hwy⟩)
  · exact h.dirs c hc x hx (hxy.trans hyc)
  · exact (h.writes w hw x hx).2 (hxy.trans hyw)
  · rcases prefix_or_prefix_of_prefix hwy hxy with hwx | hxw
    · exact (h.writes w hw x hx).1 hwx
    · exact (h.writes w hw x hx).2 hxw

lemma near_of_prefix {s : FileScope N} {w z : List N} (hw : w ∈ s.writes) (hwz : w <+: z)
    (hyz : y <+: z) : s.Near y :=
  .inr ⟨w, hw, prefix_or_prefix_of_prefix hyz hwz⟩

variable [DecidableEq N] {s s' : FileScope N} {o o' : FileOp N α} {y : List N}

lemma Allows.of_replaces (h : s.Allows o) (hy : o.replaces y = true) : ∃ w ∈ s.writes, w <+: y := by
  cases o with
  | look z | createDir d | check z test => cases hy
  | remove p =>
    obtain ⟨w, hw, hwp⟩ := h
    exact ⟨w, hw, hwp.trans <| isPrefixOf_iff_prefix.mp hy⟩
  | write z content =>
    obtain ⟨w, hw, hwz⟩ := h
    simp only [FileOp.replaces, decide_eq_true_eq] at hy
    exact ⟨w, hw, hy ▸ hwz⟩
  | place z tree =>
    obtain ⟨w, hw, hwz⟩ := h
    exact ⟨w, hw, hwz.trans <| isPrefixOf_iff_prefix.mp hy⟩

lemma Allows.near_of_adds (h : s.Allows o) (hy : o.adds y = true) : s.Near y := by
  cases o with
  | look z | remove p | check z test => cases hy
  | createDir d =>
    have hyd : y <+: d := isPrefixOf_iff_prefix.mp hy
    rcases h with ⟨c, hc, hdc⟩ | ⟨w, hw, hdw | hwd⟩
    · exact .inl ⟨c, hc, hyd.trans hdc⟩
    · exact .inr ⟨w, hw, .inl (hyd.trans hdw)⟩
    · exact near_of_prefix hw hwd hyd
  | write z content | place z tree =>
    obtain ⟨w, hw, hwz⟩ := h
    exact near_of_prefix hw hwz <| isPrefixOf_iff_prefix.mp hy

lemma Allows.near_of_minds (h : s.Allows o) (hy : o.minds y) : s.Near y := by
  cases o with
  | look z => cases hy
  | remove p =>
    obtain ⟨w, hw, hwp⟩ := h
    exact near_of_prefix hw hwp hy.1
  | createDir d => exact h.near_of_adds <| isPrefixOf_iff_prefix.mpr hy
  | write z content | place z tree =>
    obtain ⟨w, hw, hwz⟩ := h
    exact near_of_prefix hw hwz hy.1
  | check z test => cases hy

omit [DecidableEq N] in
lemma Allows.below_of_reads (h : s.Allows o) (hy : o.reads y) : s.Below y := by
  cases o with
  | look z =>
    obtain rfl : y = z := hy
    exact h
  | remove p | createDir d | place z tree => cases hy
  | write z content =>
    obtain rfl : y = z := hy
    obtain ⟨w, hw, hwz⟩ := h
    exact ⟨w, mem_append_left _ hw, hwz⟩
  | check z test =>
    obtain ⟨x, hx, hxz⟩ := h
    exact ⟨x, hx, hxz.trans hy⟩

lemma Allows.below_of_replaces (h : s.Allows o) (hy : o.replaces y = true) : s.Below y := by
  obtain ⟨w, hw, hwy⟩ := h.of_replaces hy
  exact ⟨w, mem_append_left _ hw, hwy⟩

lemma Allows.clear (h : s.Allows o) (happart : s.Apart s') (hy : s'.Below y) :
    o.replaces y = false ∧ o.adds y = false := by
  have hfar := happart.not_near hy
  refine ⟨eq_false_iff.mpr fun hr => hfar ?_, eq_false_iff.mpr fun ha => hfar ?_⟩
  · obtain ⟨w, hw, hwy⟩ := h.of_replaces hr
    exact .inr ⟨w, hw, .inr hwy⟩
  · exact h.near_of_adds ha

lemma undisturbed_of_apart (happart : s.Apart s') (happart' : s'.Apart s) (h : s.Allows o)
    (h' : s'.Allows o') : FileOp.Undisturbed o' o := by
  constructor
  · intro y hy
    refine eq_false_iff.mpr fun hr => ?_
    exact happart'.not_near (h.below_of_replaces hr) (h'.near_of_minds hy)
  · intro y hy
    exact h.clear happart (h'.below_of_reads hy)
  · intro y hy
    exact h.clear happart (h'.below_of_replaces hy)

lemma commute_of_apart (happart : s.Apart s') (happart' : s'.Apart s) (h : s.Allows o)
    (h' : s'.Allows o') : Commute FileOp.apply o o' :=
  FileOp.commute_of_undisturbed (undisturbed_of_apart happart' happart h' h)
    (undisturbed_of_apart happart happart' h h')

omit [DecidableEq N] in
lemma apart_of_unseen
    (h : ∀ z, s.Allows (.createDir z : FileOp N α) → ¬ s'.Allows (.look z : FileOp N α)) :
    s.Apart s' where
  writes w hw x hx := by
    constructor
    · intro hwx
      exact h x (.inr ⟨w, hw, .inr hwx⟩) ⟨x, hx, prefix_refl x⟩
    · intro hxw
      exact h w (.inr ⟨w, hw, .inr (prefix_refl w)⟩) ⟨x, hx, hxw⟩
  dirs d hd x hx hxd := h d (.inl ⟨d, hd, prefix_refl d⟩) ⟨x, hx, hxd⟩

end FileScope

end OnceBuild.Lib
