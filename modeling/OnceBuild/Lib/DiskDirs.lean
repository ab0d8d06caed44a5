import Mathlib.Data.List.Dedup
import OnceBuild.Lib.DiskWalk

/-!
# Directories on a disk

What a directory lists, how a walk goes on from a directory it has come to, and walks that stay
away from a place because no step and no link names it.
-/

namespace OnceBuild.Lib

open List

variable {N D F L : Type}

/-! ## Depth -/

def longest (paths : List (List N)) : Nat := (paths.map List.length).foldr max 0

variable {p : List N}

lemma length_le_longest {paths : List (List N)} (h : p ∈ paths) : p.length ≤ longest paths := by
  induction paths with
  | nil => cases h
  | cons first rest ih =>
    rcases mem_cons.mp h with rfl | h
    · exact Nat.le_max_left _ _
    · exact Nat.le_trans (ih h) (Nat.le_max_right _ _)

/-! ## Listings -/

variable {place : List N} {n : N}

section Listings

variable [DecidableEq N]

/-- The names in the directory at a place, in an order that depends on how the disk came about. -/
def Disk.children (d : Disk N D F L) (place : List N) : List N :=
  (d.places.filterMap fun p =>
    if (d.get p).isSome ∧ p.dropLast = place then p.getLast? else none).dedup

variable {d : Disk N D F L}

lemma Disk.mem_children : n ∈ d.children place ↔ d.get (place ++ [n]) ≠ none := by
  unfold Disk.children
  rw [mem_dedup, mem_filterMap]
  constructor
  · rintro ⟨p, -, hp⟩
    split at hp
    case isTrue hheld =>
      obtain ⟨above, rfl⟩ := getLast?_eq_some_iff.mp hp
      rw [dropLast_concat] at hheld
      obtain ⟨hsome, rfl⟩ := hheld
      exact Option.isSome_iff_ne_none.mp hsome
    case isFalse => cases hp
  · intro hheld
    refine ⟨place ++ [n], d.mem_places _ hheld, ?_⟩
    rw [if_pos ⟨Option.isSome_iff_ne_none.mpr hheld, dropLast_concat⟩, getLast?_concat]

lemma Disk.nodup_children (d : Disk N D F L) (place : List N) : (d.children place).Nodup :=
  nodup_dedup _

variable [LinkText N L]

/-- `read_dir`, with the names as the order sorts them. -/
def readDir (le : N → N → Bool) (d : Disk N D F L) (p : List N) : Except Errno (List N) := do
  let place ← resolve false d p
  match d.get place with
  | some (.dir _) => .ok ((d.children place).mergeSort le)
  | _ => .error .notADirectory

lemma readDir_eq_ok {le : N → N → Bool} {names : List N} (h : readDir le d p = .ok names) :
    ∃ place, resolve false d p = .ok place ∧ names.Nodup ∧
      ∀ n, n ∈ names ↔ d.get (place ++ [n]) ≠ none := by
  obtain ⟨place, hplace, h⟩ := bind_eq_ok.mp h
  refine ⟨place, hplace, ?_⟩
  split at h
  · obtain rfl := Except.ok.inj h
    refine ⟨(mergeSort_perm _ _).nodup_iff.mpr (d.nodup_children place), fun n => ?_⟩
    rw [mem_mergeSort, Disk.mem_children]
  · cases h

end Listings

/-! ## Going on from a directory -/

variable {data : D} {here : List N} {steps : List (PathStep N)}

section Onward

variable [LinkText N L] {d : Disk N D F L} {creating : Bool} {place result : List N}

variable {more : List (PathStep N)}

lemma resolveWith_append {follow : List N → List (PathStep N) → Except Errno (List N)}
    (hdir : d.get place = some (.dir data))
    (hmore : ∀ follow, resolveWith creating follow d place more = .ok result)
    (hfollow : ∀ here steps, follow here steps = .ok place →
      follow here (steps ++ more) = .ok result)
    (h : resolveWith creating follow d here steps = .ok place) :
    resolveWith creating follow d here (steps ++ more) = .ok result := by
  induction steps generalizing here with
  | nil =>
    obtain rfl := Except.ok.inj h
    exact hmore follow
  | cons step steps ih =>
    cases step with
    | cur | parent => exact ih h
    | name n =>
      simp only [cons_append, resolveWith] at h ⊢
      -- a walk that ends at something else than a directory has not come to `place`
      have hlast : ∀ node, d.get (here ++ [n]) = node → (∀ data, node ≠ some (.dir data)) →
          Except.ok (here ++ [n]) ≠ (.ok place : Except Errno (List N)) := by
        rintro _ rfl hnode heq
        exact hnode data (Except.ok.inj heq ▸ hdir)
      split at h
      next hnone =>
        split at h
        · exact absurd h (hlast none hnone fun _ => (Option.some_ne_none _).symm)
        · cases h
      · exact ih h
      · rw [← append_assoc]
        exact hfollow _ _ h
      next node hdir' hlink hnode =>
        split at h
        · exact absurd h (hlast _ hnode fun data heq => hdir' data (Option.some.inj heq))
        · cases h

lemma resolveFrom_append (hdir : d.get place = some (.dir data))
    (hmore : ∀ follow, resolveWith creating follow d place more = .ok result) {links : Nat}
    (h : resolveFrom creating d links here steps = .ok place) :
    resolveFrom creating d links here (steps ++ more) = .ok result := by
  induction links generalizing here steps with
  | zero =>
    refine resolveWith_append hdir hmore (fun _ _ herror => ?_) h
    cases herror
  | succ links ih => exact resolveWith_append hdir hmore (fun _ _ hrest => ih hrest) h

lemma resolve_concat {data' : D} (h : resolve creating d p = .ok place)
    (hdir : d.get place = some (.dir data)) (hentry : d.get (place ++ [n]) = some (.dir data')) :
    resolve creating d (p ++ [n]) = .ok (place ++ [n]) := by
  unfold resolve
  rw [map_append]
  refine resolveFrom_append hdir (fun follow => ?_) h
  simp only [map_cons, map_nil, resolveWith, hentry]

lemma locate_concat (h : resolve false d p = .ok place) (hdir : d.get place = some (.dir data)) :
    locate d (p ++ [n]) = .ok (place ++ [n]) := by
  unfold locate
  rw [getLast?_concat, dropLast_concat, h]
  simp only [bind, Except.bind, hdir]

end Onward

/-! ## Below a link that leads to no directory -/

section Stuck

open Fallible

variable [LinkText N L] {d : Disk N D F L} {q : List N} {more : List (PathStep N)}

/-- A walk to a directory has come to a directory after its first steps. -/
lemma resolveWith_left (hrooted : Rooted d)
    {follow : List N → List (PathStep N) → Except Errno (List N)}
    (hfollow : ∀ here steps, (∃ data, d.get here = some (.dir data)) →
      follow here (steps ++ more) = .ok place →
        ∃ mid data, follow here steps = .ok mid ∧ d.get mid = some (.dir data))
    (hplace : ∃ data, d.get place = some (.dir data))
      (hhere : ∃ data, d.get here = some (.dir data))
    (h : resolveWith false follow d here (steps ++ more) = .ok place) :
    ∃ mid data, resolveWith false follow d here steps = .ok mid ∧ d.get mid = some (.dir data) := by
  induction steps generalizing here with
  | nil =>
    obtain ⟨data, hdata⟩ := hhere
    exact ⟨here, data, rfl, hdata⟩
  | cons step steps ih =>
    cases step with
    | cur => exact ih hhere h
    | parent =>
      obtain ⟨data, hdata⟩ := hhere
      exact ih (hrooted.realDirs hdata _ <| dropLast_prefix here) h
    | name n =>
      simp only [cons_append, resolveWith] at h ⊢
      split at h
      · cases h
      next data hdir => exact ih ⟨data, hdir⟩ h
      next text hlink =>
        rw [← append_assoc] at h
        refine hfollow _ _ ?_ h
        split
        · exact hrooted.root
        · exact hhere
      next node hdir hlink hnode =>
        -- a walk does not go on from what is no directory
        split at h
        · obtain rfl := Except.ok.inj h
          obtain ⟨data, hdata⟩ := hplace
          exact absurd (Option.some.inj (hnode.symm.trans hdata)) (hdir data)
        · cases h

lemma isDirAt_of_resolve (hrooted : Rooted d) (h : resolve false d (p ++ q) = .ok place)
    (hplace : d.get place = some (.dir data)) : isDirAt d p = true := by
  have hleft : ∀ links here steps, (∃ data, d.get here = some (.dir data)) →
      resolveFrom false d links here (steps ++ q.map .name) = .ok place →
        ∃ mid data, resolveFrom false d links here steps = .ok mid ∧
          d.get mid = some (.dir data) := by
    intro links
    induction links with
    | zero => exact fun here steps hhere h =>
        resolveWith_left hrooted (fun _ _ _ h => nomatch h) ⟨data, hplace⟩ hhere h
    | succ links ih => exact fun here steps hhere h =>
        resolveWith_left hrooted ih ⟨data, hplace⟩ hhere h
  unfold resolve at h
  rw [map_append] at h
  obtain ⟨mid, data', hmid, hdir⟩ := hleft maxLinks [] _ hrooted.root h
  have hresolve : resolve false d p = .ok mid := hmid
  simp [isDirAt, metadata, hresolve, hdir, bind, Except.bind]

lemma isDirAt_of_locate (hrooted : Rooted d) {above : List N} (h : locate d above = .ok place)
    (hp : p <+: above) (hne : p ≠ above) : isDirAt d p = true := by
  obtain ⟨rest, rfl⟩ := hp
  cases rest using reverseRecOn with
  | nil => exact absurd (append_nil p).symm hne
  | append_singleton rest n =>
    unfold locate at h
    rw [← append_assoc, getLast?_concat, dropLast_concat] at h
    obtain ⟨parent, hparent, h⟩ := bind_eq_ok.mp h
    split at h
    next data hdata => exact isDirAt_of_resolve hrooted hparent hdata
    · cases h

variable [DecidableEq N]

/-- Nothing is created below a link that leads to no directory. -/
lemma createDirAll_stuck (hrooted : Rooted d) {text : L} (hlink : d.get q = some (.link text))
    (hnot : isDirAt d q = false) (hq : q <+: p) (data : D) :
    Ensures (· = d) (createDirAll data p) (fun _ _ => False) (· = d) := by
  obtain ⟨q, n, rfl⟩ : ∃ q' n, q = q' ++ [n] := by
    cases q using reverseRecOn with
    | nil =>
      obtain ⟨data, hroot⟩ := hrooted.root
      exact nomatch hroot.symm.trans hlink
    | append_singleton q n => exact ⟨q, n, rfl⟩
  obtain ⟨dir, hdir⟩ := hrooted.parent q n (hlink ▸ Option.some_ne_none _)
  have hdirs : RealDirs d q := hrooted.realDirs hdir
  have hfind : ∀ place, locate d (q ++ [n]) = .ok place → d.get place ≠ none := by
    intro place hplace hnone
    rw [locate_dirs hdirs] at hplace
    cases hplace
    cases hnone.symm.trans hlink
  have hlast : Ensures (· = d) (ensureDir data (q ++ [n])) (fun _ _ => False) (· = d) := by
    refine ensures_ensureDir ?_ ?_ fun _ h => h
    · rintro _ rfl hdir
      exact Bool.false_ne_true (hnot.symm.trans hdir)
    · rintro _ place rfl - hplace hnone
      exact hfind place hplace hnone
  have hother : ∀ above, above <+: p → Ensures (· = d) (ensureDir data above) (fun _ => (· = d))
      (· = d) := by
    intro above habove
    refine ensures_ensureDir (fun _ h _ => h) ?_ fun _ h => h
    rintro d place rfl hmissing hplace hnone
    by_cases heq : above = q ++ [n]
    · exact absurd hnone (hfind place (heq ▸ hplace))
    rcases prefix_or_prefix_of_prefix habove hq with hup | hdown
    · -- what is above the link is a directory
      have hup : above <+: q := (prefix_concat_iff.mp hup).resolve_left heq
      exact nomatch hmissing.symm.trans (isDirAt_of_dirs (hdirs.of_isPrefix hup))
    · exact nomatch hnot.symm.trans (isDirAt_of_locate hrooted hplace hdown (Ne.symm heq))
  obtain ⟨before, after, hsplit⟩ := append_of_mem ((mem_inits _ p).mpr hq)
  unfold createDirAll
  rw [forM_eq_forM, hsplit, forM_append]
  refine ensures_bind (R := fun _ => (· = d)) (ensures_forM fun above habove => hother above ?_)
    fun _ => ensures_bind hlast fun _ _ h => h.elim
  exact (mem_inits _ _).mp (hsplit ▸ mem_append_left _ habove)

end Stuck

/-! ## Staying away -/

section Away

variable {d d' : Disk N D F L} {creating : Bool} {above : List N} {name : N}

/-- No link names an entry so. -/
def Unnamed [LinkText N L] (d : Disk N D F L) (name : N) : Prop :=
  ∀ place text, d.get place = some (.link text) →
    .name name ∉ (LinkText.target text : LinkTarget N).steps

/-- The disks agree on all that is not at or below the place. -/
def SameOff (place : List N) (d d' : Disk N D F L) : Prop := ∀ z, ¬place <+: z → d.get z = d'.get z

lemma SameOff.trans {d'' : Disk N D F L} (h : SameOff place d d') (h' : SameOff place d' d'') :
    SameOff place d d'' :=
  fun z hz => (h z hz).trans (h' z hz)

variable {below : List N}

lemma SameOff.mono (h : SameOff below d d') (hbelow : place <+: below) : SameOff place d d' :=
  fun z hz => h z fun hz' => hz (hbelow.trans hz')

lemma RealDirs.sameOff (h : RealDirs d' p) (hsame : SameOff place d d') (hp : ¬place <+: p) :
    RealDirs d p := by
  intro q hq
  obtain ⟨data, hdata⟩ := h q hq
  exact ⟨data, (hsame q fun hbelow => hp (hbelow.trans hq)).trans hdata⟩

lemma RealDirs.concat (h : RealDirs d p) (hn : d.get (p ++ [n]) = some (.dir data)) :
    RealDirs d (p ++ [n]) := by
  intro q hq
  rcases prefix_concat_iff.mp hq with rfl | hq
  · exact ⟨data, hn⟩
  · exact h q hq

lemma sameOff_put [DecidableEq N] (h : SameOff place d d') (hbelow : place <+: below)
    (node : DiskNode D F L) : SameOff place (d.put below node) d' := by
  intro z hz
  have hne : z ≠ below := by
    rintro rfl
    exact hz hbelow
  rw [Disk.get_put, if_neg hne]
  exact h z hz

lemma sameOff_clear [DecidableEq N] (h : SameOff place d d') (hbelow : place <+: below) :
    SameOff place (d.clear below) d' := by
  intro z hz
  rw [Disk.get_clear, if_neg fun hz' => hz (hbelow.trans <| isPrefixOf_iff_prefix.mp hz')]
  exact h z hz

lemma notBelow_concat (hhere : ¬above ++ [name] <+: here) (hn : n ≠ name) :
    ¬above ++ [name] <+: here ++ [n] := by
  intro hbelow
  rcases prefix_concat_iff.mp hbelow with heq | hbelow
  · obtain ⟨-, heq⟩ := append_inj' heq rfl
    exact hn (singleton_inj.mp heq).symm
  · exact hhere hbelow

lemma notBelow_linkStart {absolute : Bool} (hhere : ¬above ++ [name] <+: here) :
    ¬above ++ [name] <+: (if absolute then [] else here) := by
  cases absolute with
  | true => simp
  | false => exact hhere

variable [LinkText N L]

lemma resolveWith_sameOff {follow follow' : List N → List (PathStep N) → Except Errno (List N)}
    (hsame : SameOff (above ++ [name]) d d') (hlinks : Unnamed d name)
    (hfollow : ∀ here steps, ¬above ++ [name] <+: here → .name name ∉ steps →
      follow here steps = follow' here steps) (hhere : ¬above ++ [name] <+: here)
    (hsteps : .name name ∉ steps) :
    resolveWith creating follow d here steps = resolveWith creating follow' d' here steps := by
  induction steps generalizing here with
  | nil => rfl
  | cons step steps ih =>
    have hrest : .name name ∉ steps := fun hmem => hsteps (mem_cons_of_mem _ hmem)
    cases step with
    | cur => exact ih hhere hrest
    | parent => exact ih (fun hbelow => hhere (hbelow.trans <| dropLast_prefix _)) hrest
    | name n =>
      have hn : n ≠ name := by
        rintro rfl
        exact hsteps mem_cons_self
      have hnext := notBelow_concat hhere hn
      simp only [resolveWith, ← hsame _ hnext]
      split
      · rfl
      · exact ih hnext hrest
      next text hlink =>
        refine hfollow _ _ (notBelow_linkStart hhere) fun hmem => ?_
        · rcases mem_append.mp hmem with hmem | hmem
          · exact hlinks _ _ hlink hmem
          · exact hrest hmem
      · rfl

lemma resolveFrom_sameOff (hsame : SameOff (above ++ [name]) d d') (hlinks : Unnamed d name)
    {links : Nat} (hhere : ¬above ++ [name] <+: here) (hsteps : .name name ∉ steps) :
    resolveFrom creating d links here steps = resolveFrom creating d' links here steps := by
  induction links generalizing here steps with
  | zero => exact resolveWith_sameOff hsame hlinks (fun _ _ _ _ => rfl) hhere hsteps
  | succ links ih => exact resolveWith_sameOff hsame hlinks (fun _ _ => ih) hhere hsteps

lemma Visits.notBelow (hlinks : Unnamed d name) {z : List N} (h : Visits d here steps z)
    (hhere : ¬above ++ [name] <+: here) (hsteps : .name name ∉ steps) : ¬above ++ [name] <+: z := by
  induction h with
  | here => exact hhere
  | cur _ ih => exact ih hhere fun hmem => hsteps (mem_cons_of_mem _ hmem)
  | parent _ ih =>
    exact ih (fun hbelow => hhere (hbelow.trans <| dropLast_prefix _))
      fun hmem => hsteps (mem_cons_of_mem _ hmem)
  | @name _ _ n _ _ _ ih =>
    have hn : n ≠ name := by
      rintro rfl
      exact hsteps mem_cons_self
    exact ih (notBelow_concat hhere hn) fun hmem => hsteps (mem_cons_of_mem _ hmem)
  | link hnode _ ih =>
    refine ih (notBelow_linkStart hhere) fun hmem => ?_
    rcases mem_append.mp hmem with hmem | hmem
    · exact hlinks _ _ hnode hmem
    · exact hsteps (mem_cons_of_mem _ hmem)

end Away

end OnceBuild.Lib
