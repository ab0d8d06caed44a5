import OnceBuild.Lib.Disk

/-!
# Walks that stay below a directory

A walk that climbs first, no further than to the directory, and then only descends does not leave
it, provided that every link it meets below the directory leads on in the same way.
-/

namespace OnceBuild.Lib

open List

variable {N D F L : Type}

/-- The places that a walk comes by.  What is missing is passed by name. -/
inductive Visits [LinkText N L] (d : Disk N D F L) : List N → List (PathStep N) → List N → Prop
  | here (place : List N) (steps : List (PathStep N)) : Visits d place steps place
  | cur {place z : List N} {steps : List (PathStep N)} :
      Visits d place steps z → Visits d place (.cur :: steps) z
  | parent {place z : List N} {steps : List (PathStep N)} :
      Visits d place.dropLast steps z → Visits d place (.parent :: steps) z
  | name {place z : List N} {n : N} {steps : List (PathStep N)} :
      (∀ text, d.get (place ++ [n]) ≠ some (.link text)) → Visits d (place ++ [n]) steps z →
        Visits d place (.name n :: steps) z
  | link {place z : List N} {n : N} {steps : List (PathStep N)} {text : L} :
      d.get (place ++ [n]) = some (.link text) →
        Visits d (if (LinkText.target text : LinkTarget N).absolute then [] else place)
          ((LinkText.target text : LinkTarget N).steps ++ steps) z →
        Visits d place (.name n :: steps) z

def Descends (steps : List (PathStep N)) : Prop := .parent ∉ steps

/-- Steps that climb at most `depth` directories and then only go down. -/
def Tame : Nat → List (PathStep N) → Prop
  | _, [] => True
  | depth, .cur :: steps => Tame depth steps
  | 0, .parent :: _ => False
  | depth + 1, .parent :: steps => Tame depth steps
  | _, .name _ :: steps => Descends steps

variable {steps : List (PathStep N)}

lemma Descends.tame (h : Descends steps) (depth : Nat) : Tame depth steps := by
  induction steps with
  | nil => trivial
  | cons step steps ih =>
    have hrest : Descends steps := fun hmem => h (mem_cons_of_mem _ hmem)
    cases step with
    | cur => exact ih hrest
    | parent => exact absurd mem_cons_self h
    | name n => exact hrest

lemma Tame.append {depth : Nat} {more : List (PathStep N)} (h : Tame depth steps)
    (hmore : Descends more) : Tame depth (steps ++ more) := by
  induction steps generalizing depth with
  | nil => exact hmore.tame depth
  | cons step steps ih =>
    cases step with
    | cur => exact ih h
    | parent =>
      cases depth with
      | zero => exact h
      | succ depth => exact ih h
    | name n =>
      intro hmem
      rcases mem_append.mp hmem with hmem | hmem
      · exact h hmem
      · exact hmore hmem

variable [LinkText N L] {d : Disk N D F L}

/-- Every link below `root` leads on from where it is and stays below `root`. -/
def LinksInside (d : Disk N D F L) (root : List N) : Prop :=
  ∀ place n text, d.get (root ++ place ++ [n]) = some (.link text) →
    (LinkText.target text : LinkTarget N).absolute = false ∧
      Tame place.length (LinkText.target text : LinkTarget N).steps

lemma Visits.inside {root : List N} (hlinks : LinksInside d root) {start z : List N}
    (h : Visits d start steps z) :
    ∀ place, start = root ++ place → Tame place.length steps → root <+: z := by
  induction h with
  | here start steps =>
    rintro place rfl -
    exact prefix_append root place
  | cur _ ih => exact fun place hstart htame => ih place hstart htame
  | parent _ ih =>
    intro place hstart htame
    cases place using reverseRec with
    | nil => exact htame.elim
    | append_singleton place n =>
      rw [length_append] at htame
      refine ih place ?_ htame
      rw [hstart, ← append_assoc, dropLast_concat]
  | name _ _ ih =>
    rintro place rfl htame
    exact ih _ (append_assoc _ _ _) (Descends.tame htame _)
  | link hnode _ ih =>
    rintro place rfl htame
    obtain ⟨hrelative, hinside⟩ := hlinks place _ _ hnode
    refine ih place ?_ (hinside.append htame)
    rw [hrelative, if_neg Bool.false_ne_true]

lemma visits_of_resolveWith {creating : Bool}
    {follow : List N → List (PathStep N) → Except Errno (List N)}
    (hfollow : ∀ here steps place, follow here steps = .ok place → Visits d here steps place)
    {here place : List N} (h : resolveWith creating follow d here steps = .ok place) :
    Visits d here steps place := by
  induction steps generalizing here with
  | nil =>
    obtain rfl := Except.ok.inj h
    exact .here _ _
  | cons step steps ih =>
    cases step with
    | cur => exact .cur (ih h)
    | parent => exact .parent (ih h)
    | name n =>
      have hlast : ∀ node, d.get (here ++ [n]) = node → (∀ text, node ≠ some (.link text)) →
          Except.ok (here ++ [n]) = (.ok place : Except Errno (List N)) →
          Visits d here (.name n :: steps) place := by
        rintro _ rfl hnode heq
        obtain rfl := Except.ok.inj heq
        exact .name hnode (.here _ _)
      simp only [resolveWith] at h
      split at h
      next hnode =>
        split at h
        · exact hlast none hnode (fun _ => (Option.some_ne_none _).symm) h
        · cases h
      next hnode =>
        refine .name (fun text heq => ?_) (ih h)
        cases hnode.symm.trans heq
      next text hnode => exact .link hnode (hfollow _ _ _ h)
      next node hdir hlink hnode =>
        split at h
        · refine hlast (some node) hnode (fun text heq => ?_) h
          exact hlink text (Option.some.inj heq)
        · cases h

lemma visits_of_resolve {creating : Bool} {links : Nat} {here place : List N}
    (h : resolveFrom creating d links here steps = .ok place) : Visits d here steps place := by
  induction links generalizing here steps place with
  | zero =>
    refine visits_of_resolveWith (fun _ _ _ herror => ?_) h
    cases herror
  | succ links ih => exact visits_of_resolveWith (fun _ _ _ hrest => ih hrest) h

end OnceBuild.Lib
