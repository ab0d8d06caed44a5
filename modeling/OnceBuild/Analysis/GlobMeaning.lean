import OnceBuild.Analysis.ExpansionSound

/-!
# What a glob expansion lists

`expand_globs_with_excludes` is meant to list the regular files of a package that a pattern matches
and no exclude does.  It does not test every file: the walk starts at the directory that the literal
starts of the patterns have in common, and leaves out each directory below it whose made-up child
`__once_glob_descendant__` an exclude matches.  Starting there loses nothing.  The made-up child
does: an exclude of one segment, such as `src/*`, matches it and none of the files further down.  A
file or link whose path is not UTF-8 ends the expansion with an error wherever the walk reaches it,
before any pattern is tested.
-/

namespace OnceBuild.Analysis

open Lib List

variable {h : Host} {t : Tree}

/-! ## The literal start of a pattern -/

/-- The characters of a pattern before its first wildcard. -/
def literalStart (raw : Text) : Text := raw.takeWhile fun c => !(c == '*' || c == '?' || c == '[')

/-- Outside its wildcards a pattern matches itself only. -/
def MatchesLiterally (h : Host) : Prop :=
  ∀ raw path, h.valid raw = true → h.isMatch raw path = true → literalStart raw <+: path

lemma literalDir_isPrefix {raw dir : Text} (hdir : literalDir raw = some dir) :
    dir ++ ['/'] <+: literalStart raw := by
  unfold literalStart
  simp only [literalDir] at hdir
  generalize raw.takeWhile (fun c => !(c == '*' || c == '?' || c == '[')) = literal at hdir ⊢
  by_cases hlast : literal.getLast? = some '/'
  · obtain ⟨start, rfl⟩ := getLast?_eq_some_iff.mp hlast
    obtain ⟨-, rfl⟩ : _ ∧ start = dir := by simpa using hdir
    exact prefix_rfl
  · -- what is dropped from the end is the last segment and the slash before it
    have hsplit := takeWhile_append_dropWhile (p := fun c => !(c == '/')) (l := literal.reverse)
    have hhead := head?_dropWhile_not (fun c => !(c == '/')) literal.reverse
    rw [if_neg hlast] at hdir
    cases hrest : literal.reverse.dropWhile fun c => !(c == '/') with
    | nil => simp [hrest] at hdir
    | cons slash rest =>
      obtain ⟨-, rfl⟩ : _ ∧ rest.reverse = dir := by simpa [hrest] using hdir
      obtain rfl : slash = '/' := by simpa [hrest] using hhead
      rw [hrest] at hsplit
      exact ⟨_, by simpa using congrArg reverse hsplit⟩

/-- A path of plain names that starts with `dir` and a slash lies below the directory. -/
lemma parts_isPrefix {dir : Text} {rest : List Text} (hrest : ∀ c ∈ rest, Plain c)
    (hpre : dir ++ ['/'] <+: render rest) : parts dir <+: rest ∧ parts dir ≠ rest := by
  obtain ⟨tail, htail⟩ := hpre
  have hne : rest ≠ [] := by
    rintro rfl
    simp [render, intercalate] at htail
  have hsplit : rest = dir.splitOn '/' ++ tail.splitOn '/' := by
    have hcut : (dir ++ '/' :: tail).splitOn '/' = dir.splitOn '/' ++ tail.splitOn '/' :=
      splitOnP_append_cons dir tail (by simp)
    have hback := splitOn_intercalate '/' (fun c hc => (hrest c hc).2.1) hne
    rw [← hback]
    change (render rest).splitOn '/' = _
    rw [← htail, append_assoc]
    exact hcut
  have hparts : parts dir = dir.splitOn '/' := by
    refine filter_eq_self.mpr fun c hc => ?_
    obtain ⟨hnil, -, hdot, -⟩ := hrest c (hsplit ▸ mem_append_left _ hc)
    simp [hnil, hdot]
  rw [hparts]
  refine ⟨⟨_, hsplit.symm⟩, fun heq => ?_⟩
  rw [heq] at hsplit
  exact splitOnP_ne_nil _ _ (self_eq_append_right.mp hsplit)

lemma commonAncestor_isPrefix (a b : List Text) :
    commonAncestor a b <+: a ∧ commonAncestor a b <+: b := by
  induction a generalizing b with
  | nil => simp [commonAncestor]
  | cons c a ih =>
    cases b with
    | nil => simp [commonAncestor]
    | cons d b =>
      by_cases hcd : c = d
      · subst hcd
        simpa [commonAncestor] using ih b
      · simp [commonAncestor, hcd]

variable {root : List Text}

lemma narrowWalkRoot_isPrefix {package : List Text} (patterns : List Text) :
    ∀ common, narrowWalkRoot package common patterns = some root →
      (∀ a, common = some a → root <+: a) ∧
        ∀ raw ∈ patterns, ∃ dir, literalDir raw = some dir ∧ root <+: package ++ parts dir := by
  induction patterns with
  | nil =>
    intro common hroot
    simp only [narrowWalkRoot, Option.filter_eq_some_iff] at hroot
    refine ⟨fun a ha => ?_, fun raw hraw => (by cases hraw)⟩
    cases hroot.1.symm.trans ha
    exact prefix_rfl
  | cons raw patterns ih =>
    intro common hroot
    cases hdir : literalDir raw with
    | none => simp [narrowWalkRoot, hdir] at hroot
    | some dir =>
      simp only [narrowWalkRoot, hdir] at hroot
      split_ifs at hroot
      obtain ⟨hjoined, hlater⟩ := ih _ hroot
      replace hjoined := hjoined _ rfl
      have hboth : (∀ a, common = some a → root <+: a) ∧ root <+: package ++ parts dir := by
        cases common with
        | none => exact ⟨fun a ha => (by cases ha), hjoined⟩
        | some existing =>
          obtain ⟨hleft, hright⟩ := commonAncestor_isPrefix existing (package ++ parts dir)
          refine ⟨fun a ha => ?_, hjoined.trans hright⟩
          cases ha
          exact hjoined.trans hleft
      refine ⟨hboth.1, fun raw' hraw' => ?_⟩
      rcases mem_cons.mp hraw' with rfl | hraw'
      · exact ⟨dir, hdir, hboth.2⟩
      · exact hlater raw' hraw'

/-! ## The files a glob should list -/

/-- The regular files below the package, outside every `.once` directory, that a pattern matches and
no exclude does. -/
def globbed (h : Host) (t : Tree) (package : List Text) (patterns excludes : List Text) :
    Finset (List Text) :=
  t.paths.filter fun p =>
    t.node p = some .file ∧ (package <+: p ∧ p ≠ package) ∧ onceDir ∉ p.dropLast ∧
      (∃ pattern ∈ patterns,
        h.isMatch (dropDotSlash pattern) (relativeToPackage package p) = true) ∧
      ∀ e ∈ excludes, h.isMatch e (relativeToPackage package p) = false

/-- A workspace some of whose entries have a name that is not UTF-8.  `foreign` holds, with the name
that `to_string_lossy` shows, those that are files or links or have one below them outside `.once`;
nothing is excluded below a directory of such a name. -/
structure ForeignTree extends Tree where
  foreign : Finset (List Text)
  foreign_parent : ∀ p ∈ foreign, p ≠ [] ∧ node p.dropLast = some .dir

/-- `expand_globs_with_excludes` with the error of `normalize_logical_workspace_path`. -/
def expandGlobsWithExcludes (h : Host) (t : ForeignTree) (package : List Text)
    (patterns excludes : List Text) : Option (List Text) :=
  if ∃ p ∈ t.foreign, globReaches h package
      (globWalkRoot package (patterns.map dropDotSlash)) excludes p = true then none
  else expandGlobs h t.toTree package patterns excludes

/-- The file is not called `.once`, and no exclude matches the made-up child of a directory above it
and below the directory that the literal starts of the patterns share. -/
def Spared (h : Host) (package : List Text) (patterns excludes : List Text) (p : List Text) :
    Prop :=
  p.getLast? ≠ some onceDir ∧
    ∀ n, (globWalkRoot package (patterns.map dropDotSlash)).length < n → n < p.length →
      ∀ e ∈ excludes, h.isMatch e (descendant (relativeToPackage package (p.take n))) = false

variable {p : List Text}

lemma globReaches_iff {package : List Text} {excludes : List Text} :
    globReaches h package root excludes p = true ↔
      (root <+: p ∧ p ≠ root) ∧ onceDir ∉ p ∧ ∀ n, root.length < n → n < p.length →
        ∀ e ∈ excludes,
          h.isMatch e (descendant (relativeToPackage package (p.take n))) = false := by
  simp only [globReaches, Bool.and_eq_true, isPrefixOf_iff_prefix, bne_iff_ne, ne_eq,
    Bool.not_eq_true', all_eq_true, mem_range, Bool.or_eq_true, decide_eq_true_eq,
    any_eq_false, Bool.not_eq_true, and_assoc]
  refine and_congr_right fun _ => and_congr_right fun _ => and_congr ?_ ?_
  · simp
  · exact ⟨fun hall n hlow hn => (hall n hn).resolve_left (by omega),
      fun hall n hn => (Nat.lt_or_ge root.length n).symm.imp_right fun hlow => hall n hlow hn⟩

lemma globWalkRoot_above (hliteral : MatchesLiterally h) {package : RelPath}
    {patterns : List Text} (hvalid : (patterns.map dropDotSlash).all h.valid = true)
    (hdots : ∀ p ∈ patterns, dotDot ∉ p.splitOn '/') (hp : p ∈ t.paths)
    (hbelow : package.1 <+: p ∧ p ≠ package.1) {pattern : Text} (hpattern : pattern ∈ patterns)
    (hmatch : h.isMatch (dropDotSlash pattern) (relativeToPackage package.1 p) = true) :
    globWalkRoot package.1 (patterns.map dropDotSlash) <+: p ∧
      p ≠ globWalkRoot package.1 (patterns.map dropDotSlash) := by
  rw [globWalkRoot_eq package.1 hdots]
  cases hroot : narrowWalkRoot package.1 none (patterns.map dropDotSlash) with
  | none => exact hbelow
  | some root =>
    have hmem := mem_map_of_mem (f := dropDotSlash) hpattern
    obtain ⟨dir, hdir, habove⟩ := (narrowWalkRoot_isPrefix _ none hroot).2 _ hmem
    obtain ⟨rest, rfl⟩ := hbelow.1
    rw [relativeToPackage_append] at hmatch
    have hstart := hliteral _ _ (all_eq_true.mp hvalid _ hmem) hmatch
    have hplain : ∀ c ∈ rest, Plain c := fun c hc =>
      t.plain _ hp c (mem_append_right _ hc)
    obtain ⟨hpre, hne⟩ := parts_isPrefix hplain ((literalDir_isPrefix hdir).trans hstart)
    refine ⟨habove.trans ((prefix_append_right_inj _).mpr hpre), fun heq => hne ?_⟩
    -- a walk that started at the file itself would start below the directory of the pattern
    refine hpre.eq_of_length_le ?_
    have := habove.length_le
    rw [Option.getD_some] at heq
    rw [← heq, length_append, length_append] at this
    omega

lemma onceDir_notMem_iff (hp : p ≠ []) :
    onceDir ∉ p ↔ onceDir ∉ p.dropLast ∧ p.getLast? ≠ some onceDir := by
  rw [← dropLast_append_getLast hp]
  simp [not_or, eq_comm]

section NoLinks

variable (hlinks : ∀ p target, t.node p ≠ some (.symlink target)) (package : RelPath)
  (patterns excludes : List Text)
include hlinks

lemma globSelects_iff :
    globSelects h t package.1 root (patterns.map dropDotSlash) excludes p = true ↔
      globReaches h package.1 root excludes p = true ∧ t.node p = some .file ∧
        (∃ pattern ∈ patterns,
          h.isMatch (dropDotSlash pattern) (relativeToPackage package.1 p) = true) ∧
        ∀ e ∈ excludes, h.isMatch e (relativeToPackage package.1 p) = false := by
  cases hn : t.node p with
  | none => simp [globSelects, hn]
  | some n =>
    cases n with
    | symlink target => exact absurd hn (hlinks p target)
    | _ => simp [globSelects, hn, and_assoc]

lemma expandGlobs_eq_selection
    (hvalid : (excludes.all h.valid && (patterns.map dropDotSlash).all h.valid) = true) :
    expandGlobs h t package.1 patterns excludes =
      some (((globSelection h t package.1 (patterns.map dropDotSlash) excludes).image
        render).sort (· ≤ ·)) := by
  have hinside : ∀ p ∈ globSelection h t package.1 (patterns.map dropDotSlash) excludes,
      h.canonicalize t p = .inside p := fun p hp =>
    h.canonicalize_file t p ((globSelects_iff hlinks _ _ _).mp (Finset.mem_filter.mp hp).2).2.1
  rw [expandGlobs_eq hvalid, if_neg]
  · congr 3
    exact Finset.filter_true_of_mem fun p hp => by simp [globKeeps, hinside p hp]
  · rintro ⟨p, hp, hfailed⟩
    cases (hinside p hp).symm.trans hfailed

lemma mem_globSelection_iff (hliteral : MatchesLiterally h)
    (hvalid : (patterns.map dropDotSlash).all h.valid = true)
    (hdots : ∀ p ∈ patterns, dotDot ∉ p.splitOn '/') :
    p ∈ globSelection h t package.1 (patterns.map dropDotSlash) excludes ↔
      p ∈ globbed h t package.1 patterns excludes ∧ Spared h package.1 patterns excludes p := by
  simp only [globSelection, globbed, Finset.mem_filter, globReaches_iff,
    globSelects_iff hlinks package patterns excludes]
  constructor
  · rintro ⟨hp, ⟨hroot, honce, hspared⟩, hfile, hmatch, hkept⟩
    obtain ⟨hdirs, hlast⟩ := (onceDir_notMem_iff ((t.mem_paths p).mp hp).1).mp honce
    have hpackage := isPrefix_globWalkRoot package.1 hdots
    refine ⟨⟨hp, hfile, ⟨hpackage.trans hroot.1, ?_⟩, hdirs, hmatch, hkept⟩, hlast, hspared⟩
    rintro rfl
    exact hroot.2 (hpackage.eq_of_length_le hroot.1.length_le)
  · rintro ⟨⟨hp, hfile, hbelow, hdirs, hmatch, hkept⟩, hlast, hspared⟩
    obtain ⟨pattern, hpattern, hpm⟩ := hmatch
    have honce := (onceDir_notMem_iff ((t.mem_paths p).mp hp).1).mpr ⟨hdirs, hlast⟩
    have hroot := globWalkRoot_above hliteral hvalid hdots hp hbelow hpattern hpm
    exact ⟨hp, ⟨hroot, honce, hspared⟩, hfile, ⟨pattern, hpattern, hpm⟩, hkept⟩

end NoLinks

lemma image_render_injective {s s' : Finset (List Text)} (hs : s ⊆ t.paths) (hs' : s' ⊆ t.paths)
    (heq : s.image render = s'.image render) : s ⊆ s' := by
  intro p hp
  obtain ⟨q, hq, hqp⟩ := Finset.mem_image.mp (heq ▸ Finset.mem_image_of_mem render hp)
  rwa [← render_injective (t.plain q (hs' hq)) (t.plain p (hs hp)) hqp]

/-- A glob lists the files it should list exactly when all of them are spared and the walk reaches
no name that is not UTF-8. -/
theorem expansion_exact_iff (h : Host) (hliteral : MatchesLiterally h) (t : ForeignTree)
    (hlinks : ∀ p target, t.node p ≠ some (.symlink target)) (package : RelPath)
    (patterns excludes : List Text)
    (hvalid : (excludes.all h.valid && (patterns.map dropDotSlash).all h.valid) = true)
    (hdots : ∀ p ∈ patterns, dotDot ∉ p.splitOn '/') :
    expandGlobsWithExcludes h t package.1 patterns excludes =
        some (((globbed h t.toTree package.1 patterns excludes).image render).sort (· ≤ ·)) ↔
      (∀ p ∈ globbed h t.toTree package.1 patterns excludes,
        Spared h package.1 patterns excludes p) ∧
      ∀ p ∈ t.foreign, globReaches h package.1
        (globWalkRoot package.1 (patterns.map dropDotSlash)) excludes p = false := by
  have hmem := fun p => mem_globSelection_iff hlinks package patterns excludes hliteral
    (Bool.and_eq_true_iff.mp hvalid).2 hdots (p := p)
  unfold expandGlobsWithExcludes
  split_ifs with hforeign
  · obtain ⟨p, hp, hreached⟩ := hforeign
    refine ⟨nofun, fun hunreached => ?_⟩
    cases hreached.symm.trans (hunreached.2 p hp)
  push Not at hforeign
  simp only [ne_eq, Bool.not_eq_true] at hforeign
  rw [expandGlobs_eq_selection hlinks package patterns excludes hvalid, Option.some.injEq,
    and_iff_left hforeign]
  constructor
  · intro hsame p hp
    have hsub := image_render_injective (Finset.filter_subset _ _)
      (Finset.filter_subset _ _) (sort_injective hsame).symm
    exact ((hmem p).mp (hsub hp)).2
  · intro hspared
    congr 2
    ext p
    exact (hmem p).trans ⟨And.left, fun hp => ⟨hp, hspared p hp⟩⟩

/-! ## A directory pruned by the made-up child -/

/-- What is left of a text once a star has taken some of it; with `require_literal_separator` it
takes no slash. -/
def starRests (literalSeparator : Bool) : Text → List Text
  | [] => [[]]
  | c :: path =>
    (c :: path) :: if literalSeparator && c == '/' then [] else starRests literalSeparator path

def starMatch (literalSeparator : Bool) : Text → Text → Bool
  | [], path => path == []
  | x :: raw, path =>
    if x = '*' then (starRests literalSeparator path).any (starMatch literalSeparator raw)
    else match path with
      | [] => false
      | c :: path => x == c && starMatch literalSeparator raw path

def starHost : Host :=
  { literalHost with
    valid := fun raw => raw.all fun c => !(c == '?' || c == '[')
    isMatch := starMatch true }

def deepFile : RelPath := ⟨["src".toList, "sub".toList, "a".toList], by decide⟩

def deepTree : Tree := spine deepFile (by decide) (some .file)

lemma deepTree_no_links (p : List Text) (target : Text) :
    deepTree.node p ≠ some (.symlink target) := by
  by_cases hp : p = deepFile.1
  · rw [hp, deepTree]
    simp
  · rw [deepTree, spine_node_of_ne hp]
    split <;> simp

/-- `src/*` matches neither `src/sub/a` nor a path above it, yet the file is listed for `src/sub/*`
and no longer listed once the pattern `*` is added. -/
theorem added_pattern_removes_match : (starMatch true "src/*".toList "src/sub/a".toList = false ∧
      deepFile.1 ∈ globbed starHost deepTree [] ["src/sub/*".toList, "*".toList] ["src/*".toList]) ∧
    (∃ names, expandGlobs starHost deepTree [] ["src/sub/*".toList] ["src/*".toList] = some names ∧
      "src/sub/a".toList ∈ names) ∧
    ∃ names, expandGlobs starHost deepTree [] ["src/sub/*".toList, "*".toList]
        ["src/*".toList] = some names ∧ "src/sub/a".toList ∉ names := by
  have hlisted := fun patterns => expandGlobs_eq_selection (h := starHost) deepTree_no_links
    rootPath patterns ["src/*".toList]
  refine ⟨⟨by decide, by decide⟩, ⟨_, hlisted _ (by decide), ?_⟩, _, hlisted _ (by decide), ?_⟩
  · rw [Finset.mem_sort]
    exact Finset.mem_image.mpr ⟨deepFile.1, by decide, by decide⟩
  · rw [Finset.mem_sort]
    decide

lemma starMatch_literal (literalSeparator : Bool) (raw : Text) :
    ∀ path, starMatch literalSeparator raw path = true → literalStart raw <+: path := by
  induction raw with
  | nil => exact fun path _ => nil_prefix
  | cons x raw ih =>
    intro path hmatch
    by_cases hstar : x = '*'
    · simp [literalStart, hstar]
    · cases path with
      | nil => simp [starMatch, hstar] at hmatch
      | cons c path =>
        simp only [starMatch, if_neg hstar, Bool.and_eq_true, beq_iff_eq] at hmatch
        obtain ⟨rfl, hrest⟩ := hmatch
        unfold literalStart
        rw [takeWhile_cons]
        split
        · exact (prefix_cons_inj _).mpr (ih path hrest)
        · exact nil_prefix

/-- Beside the file, `src` holds an entry that the walk for `src/sub/*` does not reach. -/
def foreignTree : ForeignTree :=
  { deepTree with
    foreign := {["src".toList, [Char.ofNat 0xFFFD]]}
    foreign_parent := by decide }

theorem expansion_exact_deepTree :
    expandGlobsWithExcludes starHost foreignTree [] ["src/sub/*".toList] ["src/*".toList] =
        some (((globbed starHost deepTree [] ["src/sub/*".toList] ["src/*".toList]).image
          render).sort (· ≤ ·)) ↔
      (∀ p ∈ globbed starHost deepTree [] ["src/sub/*".toList] ["src/*".toList],
        Spared starHost [] ["src/sub/*".toList] ["src/*".toList] p) ∧
      ∀ p ∈ foreignTree.foreign, globReaches starHost [] (globWalkRoot []
        (["src/sub/*".toList].map dropDotSlash)) ["src/*".toList] p = false :=
  expansion_exact_iff starHost (fun raw path _ => starMatch_literal true raw path) foreignTree
    deepTree_no_links rootPath _ _ (by decide) (by decide)

end OnceBuild.Analysis
