import OnceBuild.Analysis.Expansion

/-!
# When skipping an expansion is sound

`expansion_could_differ` decides from the changed paths alone that an expansion need not be run
again.  For a glob the paths it tests are the paths the expansion selects, so only a selected link
can still make the answer move.  For a walk it compares the root as it is written, while the
expansion normalises it first, and it takes the root of `walk_symlinks` for a glob pattern.
-/

namespace OnceBuild.Analysis

open Lib List

variable {h : Host} {changed : Finset RelPath} {names : Finset Text} {r : Request} {t t₁ t₂ : Tree}

def namesOf (changed : Finset RelPath) : Finset Text := changed.image fun c => render c.1

/-- The two workspaces hold the same entry at every path that did not change. -/
def DifferOnlyAt (changed : Finset RelPath) (t₁ t₂ : Tree) : Prop :=
  ∀ p, (∀ c ∈ changed, c.1 ≠ p) → t₁.node p = t₂.node p

def Request.Accepted (h : Host) (r : Request) : Prop :=
  match r.expansion with
  | .glob => (r.excludes.all h.valid && (r.patterns.map dropDotSlash).all h.valid) = true
  | _ => r.walkArgs.isSome = true

/-! ## Globs -/

lemma relativeToPackage_append (package rest : List Text) :
    relativeToPackage package (package ++ rest) = render rest := by
  have hcommon : ((package.zip (package ++ rest)).takeWhile fun c => c.1 == c.2).length =
      package.length := by
    induction package with
    | nil => simp
    | cons c package ih => simp [ih]
  simp [relativeToPackage, hcommon]

variable {package : List Text}

lemma isPrefix_commonAncestor {a b : List Text} (ha : package <+: a) (hb : package <+: b) :
    package <+: commonAncestor a b := by
  obtain ⟨x, rfl⟩ := ha
  obtain ⟨y, rfl⟩ := hb
  induction package with
  | nil => exact nil_prefix
  | cons c package ih =>
    simp only [commonAncestor, cons_append, zip_cons_cons, takeWhile_cons,
      beq_self_eq_true, if_true, map_cons]
    exact (prefix_cons_inj c).mpr ih

lemma isPrefix_narrowWalkRoot (patterns : List Text) :
    ∀ common root, (∀ a, common = some a → package <+: a) →
      narrowWalkRoot package common patterns = some root → package <+: root := by
  induction patterns with
  | nil =>
    intro common root hcommon hroot
    simp only [narrowWalkRoot, Option.filter_eq_some_iff] at hroot
    exact hcommon root hroot.1
  | cons raw patterns ih =>
    intro common root hcommon hroot
    cases hdir : literalDir raw with
    | none => simp [narrowWalkRoot, hdir] at hroot
    | some dir =>
      simp only [narrowWalkRoot, hdir] at hroot
      split_ifs at hroot
      refine ih _ root ?_ hroot
      rintro a ⟨⟩
      cases common with
      | none => exact prefix_append _ _
      | some existing => exact isPrefix_commonAncestor (hcommon existing rfl) (prefix_append _ _)

/-- A leading `./` hides no parent component. -/
lemma dotDot_mem_of_dropDotSlash {p : Text} (hmem : dotDot ∈ (dropDotSlash p).splitOn '/') :
    dotDot ∈ p.splitOn '/' := by
  unfold dropDotSlash at hmem
  cases hs : stripPrefix dotSlash p with
  | none => simpa [hs] using hmem
  | some rest =>
    rw [stripPrefix_eq_some.mp hs]
    have hsplit : (dotSlash ++ rest).splitOn '/' = dot.splitOn '/' ++ rest.splitOn '/' :=
      splitOnP_append_cons dot rest (by simp)
    exact hsplit ▸ mem_append_right _ (by simpa [hs] using hmem)

variable {patterns : List Text}

lemma globWalkRoot_eq (package : List Text) (hdots : ∀ p ∈ patterns, dotDot ∉ p.splitOn '/') :
    globWalkRoot package (patterns.map dropDotSlash) =
      (narrowWalkRoot package none (patterns.map dropDotSlash)).getD package := by
  refine if_neg ?_
  simp only [any_map, any_eq_true, Function.comp_apply, contains_iff_mem, not_exists, not_and]
  exact fun p hp hmem => hdots p hp (dotDot_mem_of_dropDotSlash hmem)

lemma isPrefix_globWalkRoot (package : List Text)
    (hdots : ∀ p ∈ patterns, dotDot ∉ p.splitOn '/') :
    package <+: globWalkRoot package (patterns.map dropDotSlash) := by
  rw [globWalkRoot_eq package hdots]
  cases hroot : narrowWalkRoot package none (patterns.map dropDotSlash) with
  | none => exact prefix_rfl
  | some root => exact isPrefix_narrowWalkRoot _ none root (by simp) hroot

/-- A path that the walk of a glob reaches and that one of the patterns matches: what the glob would
select if a file were there. -/
def GlobCandidate (h : Host) (package walkRoot : List Text) (patterns excludes : List Text)
    (p : List Text) : Prop :=
  globReaches h package walkRoot excludes p = true ∧
    ∃ pattern ∈ patterns, h.isMatch pattern (relativeToPackage package p) = true

variable {walkRoot excludes p : List Text}

lemma candidate_of_globSelects (hlinks : NoDirLinks h.canonicalize t)
    (hsel : globSelects h t package walkRoot patterns excludes p = true) :
    GlobCandidate h package walkRoot patterns excludes p := by
  simp only [globSelects, Bool.and_eq_true] at hsel
  obtain ⟨⟨⟨⟨hreach, -⟩, hmatch⟩, -⟩, -⟩ := hsel
  refine ⟨hreach, ?_⟩
  -- a link of this workspace is never a directory, so the pattern matches the path itself
  obtain ⟨pattern, hpattern, hpm⟩ := any_eq_true.mp hmatch
  refine ⟨pattern, hpattern, ?_⟩
  rcases Bool.or_eq_true _ _ ▸ hpm with hpm | hpm
  · exact hpm
  · simp only [Bool.and_eq_true] at hpm
    obtain ⟨⟨hlink, hdir⟩, -⟩ := hpm
    split at hlink
    case h_1 target hnode =>
      rw [hlinks _ target hnode] at hdir
      cases hdir
    case h_2 => cases hlink

lemma GlobCandidate.below (hdots : ∀ p ∈ patterns, dotDot ∉ p.splitOn '/')
    (hcand : GlobCandidate h package (globWalkRoot package (patterns.map dropDotSlash))
      (patterns.map dropDotSlash) excludes p) :
    ∃ rest, rest ≠ [] ∧ p = package ++ rest ∧
      ∃ raw ∈ patterns, h.isMatch (dropDotSlash raw) (render rest) = true := by
  obtain ⟨hreach, pattern, hpattern, hpm⟩ := hcand
  simp only [globReaches, Bool.and_eq_true, isPrefixOf_iff_prefix, bne_iff_ne, ne_eq] at hreach
  obtain ⟨⟨⟨hroot, hbelow⟩, -⟩, -⟩ := hreach
  obtain ⟨rest, hrest⟩ := (isPrefix_globWalkRoot package hdots).trans hroot
  refine ⟨rest, ?_, hrest.symm, ?_⟩
  · rintro rfl
    refine hbelow (hroot.eq_of_length_le ?_).symm
    have := (isPrefix_globWalkRoot package hdots).length_le
    simpa [← hrest] using this
  · obtain ⟨raw, hraw, rfl⟩ := mem_map.mp hpattern
    refine ⟨raw, hraw, ?_⟩
    rw [← hrest, relativeToPackage_append] at hpm
    exact hpm

lemma couldDiffer_of_covers {rest : List Text} (hrest : rest ≠ [])
    (hc : render (r.package.1 ++ rest) ∈ names) (hcovers : r.covers h (render rest) = true) :
    expansionCouldDiffer h names r = true := by
  unfold expansionCouldDiffer
  rw [if_neg (Finset.ne_empty_of_mem hc)]
  split
  case isTrue => rfl
  case isFalse =>
    refine decide_eq_true ⟨_, hc, ?_⟩
    rw [stripPrefix_render hrest]
    exact hcovers

lemma couldDiffer_of_candidate (hglob : r.expansion = .glob)
    (hvalid : ((r.patterns.map dropDotSlash).all h.valid) = true)
    (hdots : ∀ p ∈ r.patterns, ¬ dotDot <:+: p) {c : List Text} (hc : render c ∈ names)
    (hcand : GlobCandidate h r.package.1 (globWalkRoot r.package.1 (r.patterns.map dropDotSlash))
      (r.patterns.map dropDotSlash) r.excludes c) : expansionCouldDiffer h names r = true := by
  obtain ⟨rest, hrestne, rfl, raw, hraw, hpm⟩ :=
    hcand.below fun p hp hmem => hdots p hp (infix_of_mem_splitOn hmem)
  refine couldDiffer_of_covers hrestne hc ?_
  simp only [Request.covers, hglob, expansionSelectsSubtrees, Bool.false_eq_true, if_false]
  refine any_eq_true.mpr ⟨raw, hraw, ?_⟩
  rw [Bool.and_eq_true]
  exact ⟨all_eq_true.mp hvalid _ (mem_map_of_mem hraw), hpm⟩

lemma no_dotDot_of_not_couldDiffer (hne : names ≠ ∅)
    (hno : expansionCouldDiffer h names r = false) : ∀ p ∈ r.patterns, ¬ dotDot <:+: p := by
  intro p hp hdots
  have hany : (r.patterns.any fun pattern => decide (dotDot <:+: pattern)) = true :=
    any_eq_true.mpr ⟨p, hp, by simpa using hdots⟩
  simp [expansionCouldDiffer, hne, hany] at hno

lemma globSelects_congr (h₁ : NoDirLinks h.canonicalize t₁) (h₂ : NoDirLinks h.canonicalize t₂)
    (hnode : t₁.node p = t₂.node p) :
    globSelects h t₁ package walkRoot patterns excludes p =
      globSelects h t₂ package walkRoot patterns excludes p := by
  unfold globSelects
  rw [hnode]
  cases hn : t₂.node p with
  | none => rfl
  | some n =>
    cases n with
    | symlink target => rw [h₁ p target (hnode.trans hn), h₂ p target hn]
    | dir | file => rfl
    | other => rfl

lemma globSelection_congr (h₁ : NoDirLinks h.canonicalize t₁) (h₂ : NoDirLinks h.canonicalize t₂)
    (hnode : ∀ p, GlobCandidate h package (globWalkRoot package patterns) patterns excludes p →
      t₁.node p = t₂.node p) :
    globSelection h t₁ package patterns excludes =
      globSelection h t₂ package patterns excludes := by
  ext p
  by_cases hcand : GlobCandidate h package (globWalkRoot package patterns) patterns excludes p
  · simp only [globSelection, Finset.mem_filter, Tree.mem_paths, hnode p hcand,
      globSelects_congr h₁ h₂ (hnode p hcand)]
  · -- neither workspace selects anything else
    have hnot : ∀ t : Tree, NoDirLinks h.canonicalize t →
        p ∉ globSelection h t package patterns excludes :=
      fun t ht hp => hcand (candidate_of_globSelects ht (Finset.mem_filter.mp hp).2)
    exact iff_of_false (hnot t₁ h₁) (hnot t₂ h₂)

lemma globSelection_eq (hglob : r.expansion = .glob)
    (hvalid : ((r.patterns.map dropDotSlash).all h.valid) = true)
    (h₁ : NoDirLinks h.canonicalize t₁) (h₂ : NoDirLinks h.canonicalize t₂)
    (hd : DifferOnlyAt changed t₁ t₂) (hno : expansionCouldDiffer h (namesOf changed) r = false) :
    globSelection h t₁ r.package.1 (r.patterns.map dropDotSlash) r.excludes =
      globSelection h t₂ r.package.1 (r.patterns.map dropDotSlash) r.excludes := by
  refine globSelection_congr h₁ h₂ fun p hcand => hd p ?_
  rintro c hc rfl
  have hname : render c.1 ∈ namesOf changed := Finset.mem_image_of_mem _ hc
  have hdots := no_dotDot_of_not_couldDiffer (Finset.ne_empty_of_mem hname) hno
  rw [couldDiffer_of_candidate hglob hvalid hdots hname hcand] at hno
  cases hno

lemma Tree.node_dir_of_isPrefix (t : Tree) {q : List Text} (hp : (t.node p).isSome = true)
    (hq : q <+: p) (hne : q ≠ p) : t.node q = some .dir := by
  obtain ⟨rest, rfl⟩ := hq
  induction rest using reverseRecOn with
  | nil => simp at hne
  | append_singleton rest c ih =>
    rw [← append_assoc] at hp
    have hparent := t.parent_dir _ _ hp
    by_cases hrest : rest = []
    · simpa [hrest] using hparent
    · exact ih (by simp [hparent]) (by simpa using hrest)

lemma Tree.node_of_not_plain (t : Tree) (hp : ¬ ∀ c ∈ p, Plain c) : t.node p = none := by
  by_contra hsome
  refine hp (t.plain p ((t.mem_paths p).mpr ⟨?_, Option.isSome_iff_ne_none.mpr hsome⟩))
  rintro rfl
  exact hp fun c hc => (by cases hc)

/-- Each selected link leads somewhere in both workspaces or in neither. -/
def GlobLinksAlike (h : Host) (r : Request) (t₁ t₂ : Tree) : Prop :=
  let selection := fun t => globSelection h t r.package.1 (r.patterns.map dropDotSlash) r.excludes
  ((∃ p ∈ selection t₁, h.canonicalize t₁ p = .failed) ∧
      ∃ p ∈ selection t₂, h.canonicalize t₂ p = .failed) ∨
    ((∀ p ∈ selection t₁, h.canonicalize t₁ p ≠ .failed) ∧
      (∀ p ∈ selection t₂, h.canonicalize t₂ p ≠ .failed) ∧
      ∀ p ∈ selection t₁, globKeeps h t₁ p = globKeeps h t₂ p)

lemma sort_injective {s s' : Finset Text} (hs : s.sort (· ≤ ·) = s'.sort (· ≤ ·)) : s = s' := by
  ext x
  rw [← Finset.mem_sort (· ≤ ·), hs, Finset.mem_sort]

lemma expandGlobs_eq
    (hvalid : (excludes.all h.valid && (patterns.map dropDotSlash).all h.valid) = true) :
    expandGlobs h t package patterns excludes =
      if ∃ p ∈ globSelection h t package (patterns.map dropDotSlash) excludes,
        h.canonicalize t p = .failed then none
      else some ((((globSelection h t package (patterns.map dropDotSlash) excludes).filter
        fun p => globKeeps h t p = true).image render).sort (· ≤ ·)) := by
  unfold expandGlobs
  simp only [hvalid, if_true]
  split
  case isTrue => rfl
  case isFalse =>
    -- no kept entry lies below a kept link
    congr 3
    refine Finset.filter_true_of_mem fun p hp => ?_
    rintro ⟨root, hroot, hpre, hne⟩
    have hp' := (Finset.mem_filter.mp (Finset.mem_filter.mp hp).1).1
    have hdir := t.node_dir_of_isPrefix ((t.mem_paths p).mp hp').2 hpre hne
    obtain ⟨hkept, -⟩ := Finset.mem_filter.mp hroot
    have hsel := (Finset.mem_filter.mp (Finset.mem_filter.mp hkept).1).2
    simp [globSelects, hdir] at hsel

lemma ite_none_eq_iff {α : Type} {a b : Prop} [Decidable a] [Decidable b] {x y : α} :
    ((if a then none else some x) = if b then none else some y) ↔ a ∧ b ∨ ¬a ∧ ¬b ∧ x = y := by
  by_cases ha : a <;> by_cases hb : b <;> simp [ha, hb]

lemma expandGlobs_eq_iff (hvalid : (r.excludes.all h.valid &&
      (r.patterns.map dropDotSlash).all h.valid) = true)
    (hsel : globSelection h t₁ r.package.1 (r.patterns.map dropDotSlash) r.excludes =
      globSelection h t₂ r.package.1 (r.patterns.map dropDotSlash) r.excludes) :
    expandGlobs h t₁ r.package.1 r.patterns r.excludes =
        expandGlobs h t₂ r.package.1 r.patterns r.excludes ↔ GlobLinksAlike h r t₁ t₂ := by
  rw [expandGlobs_eq hvalid, expandGlobs_eq hvalid, ite_none_eq_iff]
  unfold GlobLinksAlike
  simp only [hsel, not_exists, not_and]
  set S := globSelection h t₂ r.package.1 (r.patterns.map dropDotSlash) r.excludes with hS
  have hplain : ∀ p ∈ S, ∀ c ∈ p, Plain c := fun p hp =>
    t₂.plain p (Finset.mem_filter.mp hp).1
  refine or_congr Iff.rfl (and_congr Iff.rfl
    (and_congr Iff.rfl ⟨fun heq p hp => ?_, fun hkeep => ?_⟩))
  · have himage := sort_injective heq
    -- rendering is injective on the entries of a workspace
    have hmem : ∀ t : Tree, render p ∈ (S.filter fun p => globKeeps h t p = true).image render ↔
        globKeeps h t p = true := by
      intro t
      simp only [Finset.mem_image, Finset.mem_filter]
      constructor
      · rintro ⟨q, ⟨hq, hkeep⟩, hrender⟩
        rwa [← render_injective (hplain q hq) (hplain p hp) hrender]
      · exact fun hkeep => ⟨p, ⟨hp, hkeep⟩, rfl⟩
    rw [Bool.eq_iff_iff, ← hmem t₁, ← hmem t₂, himage]
  · rw [Finset.filter_congr fun p hp => by rw [hkeep p hp]]

lemma file_of_globSelects (hsel : globSelects h t package walkRoot patterns excludes p = true)
    (hlink : ∀ target, t.node p ≠ some (.symlink target)) : t.node p = some .file := by
  cases hn : t.node p with
  | none => simp [globSelects, hn] at hsel
  | some n =>
    cases n with
    | file => rfl
    | symlink target => exact absurd hn (hlink target)
    | dir | other => simp [globSelects, hn] at hsel

/-- Workspaces that agree on the candidates of a glob, none of which is a link, expand it to the
same list. -/
lemma expandGlobs_congr {package : RelPath} (h₁ : NoDirLinks h.canonicalize t₁)
    (h₂ : NoDirLinks h.canonicalize t₂)
    (hnode : (patterns.map dropDotSlash).all h.valid = true → ∀ p,
      GlobCandidate h package.1 (globWalkRoot package.1 (patterns.map dropDotSlash))
        (patterns.map dropDotSlash) excludes p →
      t₁.node p = t₂.node p ∧ ∀ target, t₁.node p ≠ some (.symlink target)) :
    expandGlobs h t₁ package.1 patterns excludes =
      expandGlobs h t₂ package.1 patterns excludes := by
  by_cases hvalid : (excludes.all h.valid && (patterns.map dropDotSlash).all h.valid) = true
  · replace hnode := hnode (Bool.and_eq_true_iff.mp hvalid).2
    have hsel := globSelection_congr h₁ h₂ fun p hp => (hnode p hp).1
    -- every selected entry is a regular file of both workspaces
    have hfile : ∀ p ∈ globSelection h t₁ package.1 (patterns.map dropDotSlash) excludes,
        t₁.node p = some .file ∧ t₂.node p = some .file := by
      intro p hp
      have hselects := (Finset.mem_filter.mp hp).2
      obtain ⟨hsame, hlink⟩ := hnode p (candidate_of_globSelects h₁ hselects)
      have hfile := file_of_globSelects hselects hlink
      exact ⟨hfile, hsame ▸ hfile⟩
    refine (expandGlobs_eq_iff (r := ⟨.glob, package, patterns, excludes⟩) hvalid hsel).mpr
      (.inr ⟨?_, ?_, ?_⟩)
    · intro p hp
      rw [h.canonicalize_file t₁ p (hfile p hp).1]
      exact Canonical.noConfusion
    · intro p hp
      rw [h.canonicalize_file t₂ p (hfile p (hsel ▸ hp)).2]
      exact Canonical.noConfusion
    · intro p hp
      simp only [globKeeps, h.canonicalize_file t₁ p (hfile p hp).1,
        h.canonicalize_file t₂ p (hfile p hp).2]
  · unfold expandGlobs
    rw [if_neg hvalid, if_neg hvalid]

lemma mem_expandGlobs {names : List Text}
    (hout : expandGlobs h t package patterns excludes = some names) {name : Text}
    (hname : name ∈ names) :
    ∃ p ∈ globSelection h t package (patterns.map dropDotSlash) excludes, name = render p := by
  by_cases hvalid : (excludes.all h.valid && (patterns.map dropDotSlash).all h.valid) = true
  · rw [expandGlobs_eq hvalid] at hout
    split at hout
    case isTrue => cases hout
    case isFalse =>
      cases hout
      rw [Finset.mem_sort, Finset.mem_image] at hname
      obtain ⟨p, hp, rfl⟩ := hname
      exact ⟨p, (Finset.mem_filter.mp hp).1, rfl⟩
  · unfold expandGlobs at hout
    rw [if_neg hvalid] at hout
    cases hout

/-! ## Walks -/

lemma expandWalk_eq (hlinks : NoDirLinks h.canonicalize t) (package : List Text) (a : WalkArgs) :
    expandWalk h t package a = if t.node (package ++ a.root) = some .dir then
        some ((a.output t (package ++ a.root)).sort (· ≤ ·))
      else none := by
  unfold expandWalk
  by_cases hdir : t.node (package ++ a.root) = some .dir
  · simp only [h.canonicalize_dir t _ hdir, hdir, if_true]
  · rw [if_neg hdir]
    split
    case h_1 base hbase =>
      refine if_neg fun hb => hdir ?_
      refine h.canonicalize_noDirLinks t _ hlinks ?_
      simp [hbase, Canonical.isDir, hb]
    case h_2 => rfl

lemma WalkArgs.output_congr (a : WalkArgs) (base : List Text)
    (hnode : ∀ p, a.reaches base p = true → t₁.node p = t₂.node p) :
    a.output t₁ base = a.output t₂ base := by
  have hseen : (t₁.paths.filter fun p => a.reaches base p = true) =
      t₂.paths.filter fun p => a.reaches base p = true := by
    ext p
    simp only [Finset.mem_filter, Tree.mem_paths]
    refine and_congr_left fun hp => ?_
    rw [hnode p hp]
  simp only [WalkArgs.output, hseen]
  refine congrArg₂ (· ∪ ·) ?_ ?_
  · refine Finset.biUnion_congr rfl fun p hp => ?_
    simp only [WalkArgs.entry, hnode p (Finset.mem_filter.mp hp).2]
  · refine congrArg (Finset.image render) (Finset.filter_congr fun p hp => ?_)
    simp only [WalkArgs.isEmptyDir, hnode p (Finset.mem_filter.mp hp).2]

/-- The walk of the request looks at the path `c`: it is the root, or reached below it. -/
def Request.Reads (r : Request) (c : List Text) : Prop :=
  c ≠ [] ∧ ∃ a, r.walkArgs = some a ∧
    (c = r.package.1 ++ a.root ∨ a.reaches (r.package.1 ++ a.root) c = true)

variable {a : WalkArgs}

lemma expandWalk_congr (hargs : r.walkArgs = some a) (h₁ : NoDirLinks h.canonicalize t₁)
    (h₂ : NoDirLinks h.canonicalize t₂) (hnode : ∀ p, r.Reads p → t₁.node p = t₂.node p) :
    expandWalk h t₁ r.package.1 a = expandWalk h t₂ r.package.1 a := by
  have hsame : ∀ p, p ≠ [] → (p = r.package.1 ++ a.root ∨
      a.reaches (r.package.1 ++ a.root) p = true) → t₁.node p = t₂.node p :=
    fun p hp hreads => hnode p ⟨hp, a, hargs, hreads⟩
  have hbase : t₁.node (r.package.1 ++ a.root) = t₂.node (r.package.1 ++ a.root) := by
    by_cases hnil : r.package.1 ++ a.root = []
    · rw [hnil, t₁.root_dir, t₂.root_dir]
    · exact hsame _ hnil (.inl rfl)
  rw [expandWalk_eq h₁, expandWalk_eq h₂, hbase]
  rw [a.output_congr (r.package.1 ++ a.root) fun p hp => hsame p ?_ (.inr hp)]
  rintro rfl
  simp only [WalkArgs.reaches, Bool.and_eq_true, isPrefixOf_iff_prefix, bne_iff_ne] at hp
  exact hp.1.1.2 (prefix_nil.mp hp.1.1.1).symm

/-! ## Workspaces that tell two answers apart -/

/-- A workspace with the directories above `c` and the entry `n` at `c`. -/
def spine (c : RelPath) (hc : c.1 ≠ []) (n : Option Node) : Tree where
  paths := (((List.range (c.1.length + 1)).map fun k => c.1.take k).toFinset).filter fun p =>
    p ≠ [] ∧ (if p = c.1 then n.isSome else true) = true
  node := fun p => if p = c.1 then n else if p <+: c.1 then some .dir else none
  mem_paths := by
    intro p
    have htake : p ∈ ((List.range (c.1.length + 1)).map fun k => c.1.take k).toFinset ↔
        p <+: c.1 := by
      simp only [mem_toFinset, mem_map, mem_range]
      constructor
      · rintro ⟨k, -, rfl⟩
        exact List.take_prefix k c.1
      · intro hp
        exact ⟨p.length, by have := hp.length_le; omega, (prefix_iff_eq_take.mp hp).symm⟩
    rw [Finset.mem_filter, htake]
    by_cases hpc : p = c.1
    · simp [hpc]
    · by_cases hpre : p <+: c.1 <;> simp [hpc, hpre]
  root_dir := by simp [Ne.symm hc]
  plain := by
    intro p hp x hx
    have hp' := (Finset.mem_filter.mp hp).1
    simp only [mem_toFinset, mem_map] at hp'
    obtain ⟨k, -, rfl⟩ := hp'
    exact c.2 x (mem_of_mem_take hx)
  parent_dir := by
    intro p x hsome
    have hpre : p ++ [x] <+: c.1 := by
      split_ifs at hsome with h₁ h₂
      · rw [h₁]
      · exact h₂
      · simp at hsome
    have hp : p <+: c.1 := (prefix_append p [x]).trans hpre
    have hne : p ≠ c.1 := by
      rintro rfl
      have := hpre.length_le
      simp at this
    simp [hne, hp]

@[simp] lemma spine_node_self (c : RelPath) (hc : c.1 ≠ []) (n : Option Node) :
    (spine c hc n).node c.1 = n := by
  simp [spine]

variable {c : RelPath}

variable {hc : c.1 ≠ []} {n : Option Node}

lemma spine_node_of_ne (hp : p ≠ c.1) :
    (spine c hc n).node p = if p <+: c.1 then some .dir else none := by
  simp [spine, hp]

lemma differOnlyAt_spine (hmem : c ∈ changed) (hc : c.1 ≠ []) (n n' : Option Node) :
    DifferOnlyAt changed (spine c hc n) (spine c hc n') := by
  intro p hp
  have hne : p ≠ c.1 := fun e => hp c hmem e.symm
  rw [spine_node_of_ne hne, spine_node_of_ne hne]

lemma noDirLinks_spine (h : Host)
    (hn : ∀ target, n = some (.symlink target) → c.1.getLast? = some target) :
    NoDirLinks h.canonicalize (spine c hc n) := by
  intro p target hlink
  have hp : p = c.1 := by
    by_contra hne
    rw [spine_node_of_ne hne] at hlink
    split at hlink <;> cases hlink
  subst hp
  rw [spine_node_self] at hlink
  obtain ⟨start, hstart⟩ := getLast?_eq_some_iff.mp (hn target hlink)
  have hloop := h.canonicalize_loop (spine c hc n) start target
    (by rw [← hstart, spine_node_self, hlink])
  rw [hstart, hloop]
  rfl

variable {base : List Text}

lemma reaches_ne_base (hp : a.reaches base p = true) : base <+: p ∧ base ≠ p := by
  simp only [WalkArgs.reaches, Bool.and_eq_true, isPrefixOf_iff_prefix, bne_iff_ne] at hp
  exact ⟨hp.1.1.1, fun e => hp.1.1.2 e.symm⟩

/-- Whether the walk would report an entry at `c` shows in its answer. -/
lemma output_spine_ne (hreach : a.reaches base c.1 = true) {n : Node} {x : Text}
    (hentry : a.entry (spine c hc (some n)) c.1 = some x) (hlong : (render c.1).length ≤ x.length) :
    a.output (spine c hc (some n)) base ≠ a.output (spine c hc none) base := by
  intro heq
  have hin : x ∈ a.output (spine c hc (some n)) base := by
    refine Finset.mem_union_left _ (Finset.mem_biUnion.mpr ⟨c.1, ?_, by simp [hentry]⟩)
    refine Finset.mem_filter.mpr ⟨(Tree.mem_paths _ _).mpr ⟨hc, by simp⟩, hreach⟩
  rw [heq] at hin
  -- without the entry only directories above `c` are left, and their texts are shorter
  have habove : ∀ p ∈ (spine c hc none).paths, p <+: c.1 ∧ p ≠ c.1 ∧ p ≠ [] := by
    intro p hp
    obtain ⟨hne, hsome⟩ := (Tree.mem_paths _ _).mp hp
    have hpc : p ≠ c.1 := by
      rintro rfl
      simp at hsome
    rw [spine_node_of_ne hpc] at hsome
    split at hsome
    case isTrue hpre => exact ⟨hpre, hpc, hne⟩
    case isFalse => cases hsome
  rcases Finset.mem_union.mp hin with hin | hin
  · obtain ⟨p, hp, hx⟩ := Finset.mem_biUnion.mp hin
    obtain ⟨hpre, hpc, -⟩ := habove p (Finset.mem_filter.mp hp).1
    have hdir : (spine c hc none).node p = some .dir := by simp [spine_node_of_ne hpc, hpre]
    simp [WalkArgs.entry, hdir] at hx
  · obtain ⟨p, hp, rfl⟩ := Finset.mem_image.mp hin
    obtain ⟨⟨rest, hrest⟩, hpc, hne⟩ :=
      habove p (Finset.mem_filter.mp (Finset.mem_filter.mp hp).1).1
    have hrestne : rest ≠ [] := by
      rintro rfl
      exact hpc (by simpa using hrest)
    rw [← hrest, render_append hne hrestne] at hlong
    simp at hlong

lemma exists_reported_node (a : WalkArgs) (c : RelPath) (hc : c.1 ≠ []) :
    ∃ n x, a.entry (spine c hc (some n)) c.1 = some x ∧ (render c.1).length ≤ x.length ∧
      ∀ target, some n = some (.symlink target) → c.1.getLast? = some target := by
  cases htargets : a.symlinkTargets with
  | false => exact ⟨.file, render c.1, by simp [WalkArgs.entry, htargets], le_rfl, by simp⟩
  | true =>
    obtain ⟨last, hlast⟩ := Option.ne_none_iff_exists'.mp (getLast?_eq_none_iff.not.mpr hc)
    refine ⟨.symlink last, symlinkRecord c.1 last, by simp [WalkArgs.entry, htargets], ?_, ?_⟩
    · simp [symlinkRecord]
    · rintro target ⟨⟩
      exact hlast

/-- Two workspaces that differ at a path the walk reads, and only there, with different answers. -/
lemma exists_walk_difference (h : Host) (hmem : c ∈ changed) (hread : r.Reads c.1) :
    ∃ t₁ t₂ a, r.walkArgs = some a ∧ NoDirLinks h.canonicalize t₁ ∧ NoDirLinks h.canonicalize t₂ ∧
      DifferOnlyAt changed t₁ t₂ ∧
      expandWalk h t₁ r.package.1 a ≠ expandWalk h t₂ r.package.1 a := by
  obtain ⟨hc, a, hargs, hread⟩ := hread
  have hnone : NoDirLinks h.canonicalize (spine c hc none) := noDirLinks_spine h (by simp)
  rcases hread with hroot | hreach
  · -- the root itself appears
    have hdir : NoDirLinks h.canonicalize (spine c hc (some .dir)) := noDirLinks_spine h (by simp)
    refine ⟨_, _, a, hargs, hdir, hnone, differOnlyAt_spine hmem hc _ _, ?_⟩
    rw [expandWalk_eq hdir, expandWalk_eq hnone, ← hroot]
    simp
  · obtain ⟨n, x, hentry, hlong, hlink⟩ := exists_reported_node a c hc
    have hsome : NoDirLinks h.canonicalize (spine c hc (some n)) := noDirLinks_spine h hlink
    refine ⟨_, _, a, hargs, hsome, hnone, differOnlyAt_spine hmem hc _ _, ?_⟩
    obtain ⟨hpre, hne⟩ := reaches_ne_base hreach
    rw [expandWalk_eq hsome, expandWalk_eq hnone, spine_node_of_ne hne, spine_node_of_ne hne,
      if_pos hpre]
    intro heq
    exact output_spine_ne hreach hentry hlong (sort_injective (Option.some_inj.mp heq))

/-! ## The test against the expansion -/

lemma expandObservedPaths_glob (h : Host) (t : Tree) (hglob : r.expansion = .glob) :
    expandObservedPaths h t r = expandGlobs h t r.package.1 r.patterns r.excludes := by
  simp [expandObservedPaths, hglob]

lemma expandObservedPaths_walk (h : Host) (t : Tree) (hwalk : r.expansion ≠ .glob)
    (hargs : r.walkArgs = some a) : expandObservedPaths h t r = expandWalk h t r.package.1 a := by
  unfold expandObservedPaths
  split
  case h_1 hglob => exact absurd hglob hwalk
  case h_2 => rw [hargs]

/-- When skipping a re-expansion is sound.

For a glob that the test lets pass, the two answers agree exactly when the selected links lead
somewhere alike.  For a walk that the test lets pass, the answers agree on all pairs of workspaces
exactly when no changed path is the walk's normalised root or reached below it. -/
theorem skip_sound_iff (h : Host) (r : Request) (changed : Finset RelPath) (hacc : r.Accepted h)
    (hno : expansionCouldDiffer h (namesOf changed) r = false) :
    (r.expansion = .glob → ∀ t₁ t₂, NoDirLinks h.canonicalize t₁ → NoDirLinks h.canonicalize t₂ →
      DifferOnlyAt changed t₁ t₂ →
        (expandObservedPaths h t₁ r = expandObservedPaths h t₂ r ↔ GlobLinksAlike h r t₁ t₂)) ∧
    (r.expansion ≠ .glob → ((∀ t₁ t₂, NoDirLinks h.canonicalize t₁ → NoDirLinks h.canonicalize t₂ →
          DifferOnlyAt changed t₁ t₂ → expandObservedPaths h t₁ r = expandObservedPaths h t₂ r) ↔
        ∀ c ∈ changed, ¬ r.Reads c.1)) := by
  refine ⟨fun hglob t₁ t₂ h₁ h₂ hd => ?_, fun hwalk => ?_⟩
  · have hvalid : (r.excludes.all h.valid && (r.patterns.map dropDotSlash).all h.valid) = true := by
      simpa [Request.Accepted, hglob] using hacc
    rw [expandObservedPaths_glob h _ hglob, expandObservedPaths_glob h _ hglob]
    exact expandGlobs_eq_iff hvalid
      (globSelection_eq hglob (Bool.and_eq_true _ _ ▸ hvalid).2 h₁ h₂ hd hno)
  · have hargs : r.walkArgs.isSome = true := by
      unfold Request.Accepted at hacc
      split at hacc
      case h_1 hglob => exact absurd hglob hwalk
      case h_2 => exact hacc
    obtain ⟨a, ha⟩ := Option.isSome_iff_exists.mp hargs
    simp only [expandObservedPaths_walk h _ hwalk ha]
    constructor
    · intro hsound c hc hread
      obtain ⟨t₁, t₂, a', ha', h₁, h₂, hd, hne⟩ := exists_walk_difference h hc hread
      obtain rfl : a = a' := by simpa [ha] using ha'
      exact hne (hsound t₁ t₂ h₁ h₂ hd)
    · intro hunread t₁ t₂ h₁ h₂ hd
      refine expandWalk_congr ha h₁ h₂ fun p hread => hd p ?_
      rintro c hc rfl
      exact hunread c hc hread

/-- For a directory walk whose root is written plainly the test covers everything below the root,
so skipping is sound. -/
lemma unread_of_plain_root (h : Host) (hkind : expansionSelectsSubtrees r.expansion = true)
    {root : RelPath} (hroot : root.1 ≠ []) {rest : List Text}
    (hpatterns : r.patterns = render root.1 :: rest)
    (hdots : ¬ dotSlash <+: render root.1) (hno : expansionCouldDiffer h names r = false)
    {c : List Text} (hc : render c ∈ names) : ¬ r.Reads c := by
  rintro ⟨-, a, hargs, hread⟩
  have haroot : a.root = root.1 := by
    simp only [Request.walkArgs, hpatterns] at hargs
    split at hargs
    case h_1 parsed _ _ hparsed _ _ =>
      obtain rfl : _ = a := by simpa using hargs
      simp only [normalizeWalkPath, parts_render root.2] at hparsed
      simp_all
    case h_2 => cases hargs
  have hpre : r.package.1 ++ root.1 <+: c := by
    rw [haroot] at hread
    rcases hread with hc | hc
    · rw [hc]
    · exact (reaches_ne_base hc).1
  obtain ⟨below, rfl⟩ := hpre
  have hdrop : dropDotSlash (render root.1) = render root.1 := by
    unfold dropDotSlash
    cases hs : stripPrefix dotSlash (render root.1) with
    | none => rfl
    | some t => exact absurd ⟨t, (stripPrefix_eq_some.mp hs).symm⟩ hdots
  have hcovers : r.covers h (render (root.1 ++ below)) = true := by
    simp only [Request.covers, hkind, if_true, hpatterns]
    refine any_eq_true.mpr ⟨_, mem_cons_self, ?_⟩
    rw [hdrop, Bool.or_eq_true, beq_iff_eq, isPrefixOf_iff_prefix]
    exact render_eq_or_prefix hroot (prefix_append _ _)
  rw [append_assoc] at hc
  exact Bool.false_ne_true (hno.symm.trans (couldDiffer_of_covers (by simp [hroot]) hc hcovers))

/-! ## Paths that an expansion looks at -/

/-- A path whose entry the answer of an expansion depends on. -/
def Request.LooksAt (h : Host) (r : Request) (p : List Text) : Prop :=
  match r.expansion with
  | .glob => (r.patterns.map dropDotSlash).all h.valid = true ∧
      GlobCandidate h r.package.1 (globWalkRoot r.package.1 (r.patterns.map dropDotSlash))
        (r.patterns.map dropDotSlash) r.excludes p
  | _ => r.Reads p

def Request.PlainRoot (r : Request) : Prop :=
  expansionSelectsSubtrees r.expansion = true ∧ ∃ root : RelPath, root.1 ≠ [] ∧
    r.patterns.head? = some (render root.1) ∧ ¬ dotSlash <+: render root.1

lemma Request.looksAt_glob (hglob : r.expansion = .glob) :
    r.LooksAt h p ↔ (r.patterns.map dropDotSlash).all h.valid = true ∧
      GlobCandidate h r.package.1 (globWalkRoot r.package.1 (r.patterns.map dropDotSlash))
        (r.patterns.map dropDotSlash) r.excludes p := by
  unfold LooksAt
  rw [hglob]

lemma Request.looksAt_walk (hwalk : r.expansion ≠ .glob) : r.LooksAt h p ↔ r.Reads p := by
  unfold LooksAt
  split
  case h_1 hglob => exact absurd hglob hwalk
  case h_2 => exact Iff.rfl

lemma expandObservedPaths_congr (h₁ : NoDirLinks h.canonicalize t₁)
    (h₂ : NoDirLinks h.canonicalize t₂) (hnode : ∀ p, r.LooksAt h p → t₁.node p = t₂.node p)
    (hlink : r.expansion = .glob → ∀ p, r.LooksAt h p → ∀ target,
      t₁.node p ≠ some (.symlink target)) :
    expandObservedPaths h t₁ r = expandObservedPaths h t₂ r := by
  by_cases hglob : r.expansion = .glob
  · rw [expandObservedPaths_glob h _ hglob, expandObservedPaths_glob h _ hglob]
    refine expandGlobs_congr h₁ h₂ fun hvalid p hcand => ?_
    have hlooks := (Request.looksAt_glob hglob).mpr ⟨hvalid, hcand⟩
    exact ⟨hnode p hlooks, hlink hglob p hlooks⟩
  · cases hargs : r.walkArgs with
    | none =>
      unfold expandObservedPaths
      split
      case h_1 => contradiction
      case h_2 => rw [hargs]
    | some a =>
      rw [expandObservedPaths_walk h _ hglob hargs, expandObservedPaths_walk h _ hglob hargs]
      exact expandWalk_congr hargs h₁ h₂ fun p hp =>
        hnode p ((Request.looksAt_walk hglob).mpr hp)

lemma not_looksAt_of_not_couldDiffer (hshape : r.expansion = .glob ∨ r.PlainRoot)
    (hno : expansionCouldDiffer h names r = false) (hp : render p ∈ names) : ¬ r.LooksAt h p := by
  intro hlooks
  rcases hshape with hglob | ⟨hkind, root, hroot, hhead, hdots⟩
  · obtain ⟨hvalid, hcand⟩ := (Request.looksAt_glob hglob).mp hlooks
    have hdots := no_dotDot_of_not_couldDiffer (Finset.ne_empty_of_mem hp) hno
    rw [couldDiffer_of_candidate hglob hvalid hdots hp hcand] at hno
    cases hno
  · have hwalk : r.expansion ≠ .glob := by
      intro hglob
      rw [hglob] at hkind
      cases hkind
    obtain ⟨rest, hpatterns⟩ := head?_eq_some_iff.mp hhead
    exact unread_of_plain_root h hkind hroot hpatterns hdots hno hp
      ((Request.looksAt_walk hwalk).mp hlooks)

/-! ## A root written as a dot -/

/-- A host whose patterns are literal and whose links lead nowhere. -/
def literalHost : Host where
  valid := fun _ => true
  isMatch := fun pattern path => pattern == path
  canonicalize := fun t p =>
    match t.node p with
    | none => .missing
    | some (.symlink _) => .failed
    | some _ => .inside p
  canonicalize_dir := fun t p hp => by simp [hp]
  canonicalize_file := fun t p hp => by simp [hp]
  canonicalize_noDirLinks := by
    intro t p _ hdir
    cases hp : t.node p with
    | none => simp [hp, Canonical.isDir] at hdir
    | some n =>
      cases n with
      | dir => rfl
      | file | symlink target | other => simp [hp, Canonical.isDir] at hdir
  canonicalize_loop := fun t p c hp => by simp [hp]

/-- `walk_files(".")` at the workspace root. -/
def dotWalk : Request where
  expansion := .walkFiles
  package := rootPath
  patterns := [dot]
  excludes := []

def fileA : RelPath := ⟨[['a']], by decide⟩

lemma expandObservedPaths_dotWalk (hlinks : NoDirLinks literalHost.canonicalize t) :
    expandObservedPaths literalHost t dotWalk =
      some ((WalkArgs.output ⟨[], [], [], false, false⟩ t []).sort (· ≤ ·)) := by
  have hargs : dotWalk.walkArgs = some ⟨[], [], [], false, false⟩ := rfl
  rw [expandObservedPaths_walk _ _ (by decide) hargs, expandWalk_eq hlinks]
  exact if_pos t.root_dir

theorem dotWalk_misses_file : let present := spine fileA (by decide) (some .file)
    let absent := spine fileA (by decide) none
    NoDirLinks literalHost.canonicalize present ∧ NoDirLinks literalHost.canonicalize absent ∧
      DifferOnlyAt {fileA} present absent ∧ dotWalk.Accepted literalHost ∧
      expansionCouldDiffer literalHost (namesOf {fileA}) dotWalk = false ∧
      expandObservedPaths literalHost present dotWalk = some [['a']] ∧
      expandObservedPaths literalHost absent dotWalk = some [] := by
  intro present absent
  have hpresent : NoDirLinks literalHost.canonicalize present := noDirLinks_spine _ (by simp)
  have habsent : NoDirLinks literalHost.canonicalize absent := noDirLinks_spine _ (by simp)
  have hout : WalkArgs.output ⟨[], [], [], false, false⟩ present [] = {['a']} := by decide
  have hout' : WalkArgs.output ⟨[], [], [], false, false⟩ absent [] = ∅ := by decide
  refine ⟨hpresent, habsent, differOnlyAt_spine (by simp) _ _ _, rfl, by decide, ?_, ?_⟩
  · rw [expandObservedPaths_dotWalk hpresent, hout, Finset.sort_singleton]
  · rw [expandObservedPaths_dotWalk habsent, hout', Finset.sort_empty]

theorem skip_sound_dotWalk : dotWalk.Accepted literalHost ∧
    expansionCouldDiffer literalHost (namesOf {fileA}) dotWalk = false ∧
    ((∀ t₁ t₂, NoDirLinks literalHost.canonicalize t₁ → NoDirLinks literalHost.canonicalize t₂ →
        DifferOnlyAt {fileA} t₁ t₂ →
          expandObservedPaths literalHost t₁ dotWalk = expandObservedPaths literalHost t₂ dotWalk) ↔
      ∀ c ∈ ({fileA} : Finset RelPath), ¬ dotWalk.Reads c.1) :=
  ⟨rfl, by decide, (skip_sound_iff literalHost dotWalk {fileA} rfl (by decide)).2 (by decide)⟩

end OnceBuild.Analysis
