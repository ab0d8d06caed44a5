import OnceBuild.Analysis.GlobMeaning

/-!
# Which manifests a workspace scan reads

`load_workspace` reads the manifests that the `include` and `exclude` patterns of the root manifest
select.  The scan skips whole directories: a top-level directory that no include can name, and every
directory whose made-up child `__once_native_project_descendant__` is excluded.  The first loses
nothing.  The second does when an exclude matches the made-up name and no real one, as `*/__*` does.
-/

namespace OnceBuild.Analysis

open Lib List

/-- `glob::Pattern` with its default options.  Outside its wildcards a pattern matches itself. -/
structure Globs where
  valid : Text → Bool
  isMatch : Text → Text → Bool
  literal : ∀ raw path, isMatch raw path = true → literalStart raw <+: path
  exact : ∀ raw path, isMatch raw path = true → literalStart raw = raw → path = raw

/-- `TOML_BUILD_FILE_NAME`. -/
def manifestName : Text := "once.toml".toList

def madeUpName : Text := "__once_native_project_descendant__".toList

def hasGlobSyntax (value : Text) : Bool := value.any fun c => c == '*' || c == '?' || c == '['

/-- The loop of `literal_include_roots`. -/
def includeRootsFrom : List Text → Option (List Text)
  | [] => some []
  | pattern :: patterns =>
    if '/' ∈ pattern then
      let root := pattern.takeWhile fun c => !(c == '/')
      if root = [] ∨ root = dot ∨ root = dotDot ∨ '\\' ∈ root ∨ hasGlobSyntax root = true then none
      else (includeRootsFrom patterns).map fun roots => root :: roots
    else if hasGlobSyntax pattern = true then none
    else includeRootsFrom patterns

def literalIncludeRoots (patterns : List Text) : Option (List Text) :=
  if patterns = [] then none else includeRootsFrom patterns

structure WorkspaceScan where
  includePatterns : List Text
  includeRoots : Option (List Text)
  excludePatterns : List Text

/-- `load_workspace_scan` for the patterns of the root manifest; an invalid pattern is an error. -/
def loadWorkspaceScan (g : Globs) (includes excludes : List Text) : Option WorkspaceScan :=
  if includes.all g.valid && excludes.all g.valid then
    some {
      includePatterns := includes
      includeRoots := literalIncludeRoots includes
      excludePatterns := excludes }
  else none

namespace WorkspaceScan

variable (g : Globs) (scan : WorkspaceScan)

/-- Whether an exclude matches the path or one of its `ancestors()`, the workspace root included. -/
def excludes (p : List Text) : Bool :=
  p.inits.any fun ancestor => scan.excludePatterns.any fun e => g.isMatch e (render ancestor)

def includes (p : List Text) : Bool :=
  if scan.excludes g p then false
  else scan.includePatterns.isEmpty || scan.includePatterns.any fun i => g.isMatch i (render p)

def includesTopLevelDir (name : Text) : Bool :=
  scan.includeRoots.all fun roots => roots.contains name

def includesNativeProjectDir (p : List Text) (depth : Nat) : Bool :=
  if depth == 1 && !scan.includesTopLevelDir (render p) then false
  else !scan.excludes g (p ++ [madeUpName])

/-- Whether `filter_entry` lets the walk reach `p`: each name is visible and each directory on the
way is entered. -/
def reaches (p : List Text) : Bool :=
  (p.all fun name => name.head? != some '.') &&
    (List.range p.length).all fun depth =>
      depth == 0 || scan.includesNativeProjectDir g (p.take depth) depth

/-- The manifests that `load_workspace_with_configuration` reads. -/
def manifests (t : Tree) : Finset (List Text) :=
  t.paths.filter fun p => scan.reaches g p = true ∧ t.node p = some .file ∧
    p.getLast? = some manifestName ∧ scan.includes g p = true

end WorkspaceScan

/-! ## The manifests that should be read -/

/-- The manifests with visible names only, of which no exclude matches the path or an ancestor and,
where there are includes, one matches the path. -/
def selectedManifests (g : Globs) (t : Tree) (includes excludes : List Text) : Finset (List Text) :=
  t.paths.filter fun p => t.node p = some .file ∧ p.getLast? = some manifestName ∧
    (∀ name ∈ p, name.head? ≠ some '.') ∧
    (∀ ancestor ∈ p.inits, ∀ e ∈ excludes, g.isMatch e (render ancestor) = false) ∧
    (includes = [] ∨ ∃ i ∈ includes, g.isMatch i (render p) = true)

variable {g : Globs} {t : Tree}

lemma literalStart_of_plain {root : Text} (h : hasGlobSyntax root = false) (rest : Text) :
    literalStart (root ++ rest) = root ++ literalStart rest := by
  refine takeWhile_append_of_pos fun c hc => ?_
  have hno := any_eq_false.mp h c hc
  simpa using hno

lemma takeWhile_slash {root : Text} (rest : Text) (h : '/' ∉ root) :
    ((root ++ '/' :: rest).takeWhile fun c => !(c == '/')) = root := by
  rw [takeWhile_append_of_pos]
  · simp
  · intro c hc
    simpa using fun heq : c = '/' => h (heq ▸ hc)

/-- What a list of include roots says of each pattern: its first segment is a root, or it is a
literal without a slash. -/
lemma includeRootsFrom_spec {patterns roots : List Text}
    (hroots : includeRootsFrom patterns = some roots) : ∀ pattern ∈ patterns,
      (∃ root ∈ roots, ∃ rest, pattern = root ++ '/' :: rest ∧ hasGlobSyntax root = false ∧
        '/' ∉ root) ∨
      ('/' ∉ pattern ∧ hasGlobSyntax pattern = false) := by
  induction patterns generalizing roots with
  | nil => exact fun pattern hmem => by cases hmem
  | cons first patterns ih =>
    unfold includeRootsFrom at hroots
    split at hroots
    case isTrue hslash =>
      simp only at hroots
      split at hroots
      case isTrue => cases hroots
      case isFalse hplain =>
        obtain ⟨later, hlater, rfl⟩ := Option.map_eq_some_iff.mp hroots
        intro pattern hmem
        rcases mem_cons.mp hmem with rfl | hmem
        · obtain ⟨root, rest, hcut, hno⟩ := eq_append_cons_of_mem hslash
          rw [hcut, takeWhile_slash rest hno] at hplain ⊢
          simp only [not_or, Bool.not_eq_true] at hplain
          exact Or.inl ⟨root, mem_cons_self, rest, rfl, hplain.2.2.2.2, hno⟩
        · refine (ih hlater pattern hmem).imp_left ?_
          rintro ⟨root, hroot, hrest⟩
          exact ⟨root, mem_cons_of_mem _ hroot, hrest⟩
    case isFalse hslash =>
      split at hroots
      case isTrue => cases hroots
      case isFalse hplain =>
        intro pattern hmem
        rcases mem_cons.mp hmem with rfl | hmem
        · exact Or.inr ⟨hslash, by simpa using hplain⟩
        · exact ih hroots pattern hmem

lemma mem_includeRoots {patterns roots : List Text}
    (hroots : includeRootsFrom patterns = some roots) {i : Text} (hi : i ∈ patterns) {name : Text}
    (hname : '/' ∉ name) {rest : List Text} (hrest : rest ≠ [])
    (hmatch : g.isMatch i (render (name :: rest)) = true) : name ∈ roots := by
  rw [render_cons name hrest] at hmatch
  rcases includeRootsFrom_spec hroots i hi with
    ⟨root, hroot, tail, rfl, hplain, hno⟩ | ⟨hno, hplain⟩
  · have hstart := g.literal _ _ hmatch
    rw [literalStart_of_plain hplain] at hstart
    obtain ⟨more, hmore⟩ := (append_cons root '/' _ ▸ hstart : root ++ ['/'] ++ _ <+: _)
    -- both texts are cut at their first slash
    have hsame := congrArg (takeWhile fun c => !(c == '/')) hmore
    rw [takeWhile_slash _ hname, append_assoc, append_assoc] at hsame
    rw [← hsame, singleton_append, takeWhile_slash _ hno]
    exact hroot
  · have hself : literalStart i = i := by
      simpa [literalStart] using literalStart_of_plain hplain []
    have hwhole := g.exact _ _ hmatch hself
    exact absurd (hwhole ▸ mem_append_right _ mem_cons_self) hno

variable {p : List Text}

lemma excludes_eq_false_iff {scan : WorkspaceScan} : scan.excludes g p = false ↔
      ∀ ancestor ∈ p.inits, ∀ e ∈ scan.excludePatterns, g.isMatch e (render ancestor) = false := by
  simp [WorkspaceScan.excludes]

section Accepted

variable {includes excludes : List Text} {scan : WorkspaceScan}
  (hscan : loadWorkspaceScan g includes excludes = some scan)
include hscan

lemma scan_eq : scan = ⟨includes, literalIncludeRoots includes, excludes⟩ := by
  unfold loadWorkspaceScan at hscan
  split at hscan
  case isTrue => exact (Option.some.inj hscan).symm
  case isFalse => cases hscan

/-- The scan enters a directory above a selected manifest unless an exclude matches the made-up
child. -/
lemma includesNativeProjectDir_iff (hp : p ∈ selectedManifests g t includes excludes)
    {depth : Nat} (hpos : 0 < depth) (hdepth : depth < p.length) :
    scan.includesNativeProjectDir g (p.take depth) depth = true ↔
      ∀ e ∈ excludes, g.isMatch e (render (p.take depth ++ [madeUpName])) = false := by
  obtain ⟨hmem, -, -, -, hkept, hinclude⟩ := Finset.mem_filter.mp hp
  have htop : (depth == 1 && !scan.includesTopLevelDir (render (p.take depth))) = false := by
    rw [Bool.and_eq_false_imp]
    intro hone
    obtain rfl : depth = 1 := by simpa using hone
    obtain ⟨name, rest, rfl⟩ := exists_cons_of_length_pos (Nat.lt_trans hpos hdepth)
    have hrest : rest ≠ [] := by
      rintro rfl
      exact Nat.lt_irrefl _ hdepth
    have hrender : render ((name :: rest).take 1) = name := by simp [render, intercalate]
    rw [scan_eq hscan, hrender]
    -- without includes there are no roots; otherwise the include that matches names one
    cases hroots : literalIncludeRoots includes with
    | none => rfl
    | some roots =>
      unfold literalIncludeRoots at hroots
      split at hroots
      case isTrue => cases hroots
      case isFalse hne =>
        obtain ⟨i, hi, hmatch⟩ := hinclude.resolve_left hne
        have hname := mem_includeRoots hroots hi (t.plain _ hmem name mem_cons_self).2.1 hrest
          hmatch
        simpa [WorkspaceScan.includesTopLevelDir] using hname
  rw [WorkspaceScan.includesNativeProjectDir, htop, if_neg Bool.false_ne_true,
    Bool.not_eq_true', excludes_eq_false_iff, scan_eq hscan]
  simp only [mem_inits, prefix_concat_iff]
  constructor
  · exact fun hall e he => hall _ (Or.inl rfl) e he
  · rintro hmade a (rfl | ha) e he
    · exact hmade e he
    · exact hkept a ((mem_inits _ _).mpr (ha.trans <| take_prefix _ _)) e he

lemma mem_manifests_iff : p ∈ scan.manifests g t ↔ p ∈ selectedManifests g t includes excludes ∧
      ∀ depth < p.length, 0 < depth →
        ∀ e ∈ excludes, g.isMatch e (render (p.take depth ++ [madeUpName])) = false := by
  have hpatterns := scan_eq hscan
  have hincludes : scan.includes g p = true ↔
      (∀ ancestor ∈ p.inits, ∀ e ∈ excludes, g.isMatch e (render ancestor) = false) ∧
        (includes = [] ∨ ∃ i ∈ includes, g.isMatch i (render p) = true) := by
    have hkept : scan.excludes g p = false ↔ _ := excludes_eq_false_iff
    cases hex : scan.excludes g p <;> simp_all [WorkspaceScan.includes]
  constructor
  · intro hp
    obtain ⟨hmem, hreach, hfile, hname, hkept⟩ := Finset.mem_filter.mp hp
    simp only [WorkspaceScan.reaches, Bool.and_eq_true, all_eq_true, bne_iff_ne,
      mem_range, Bool.or_eq_true, beq_iff_eq] at hreach
    have hselected : p ∈ selectedManifests g t includes excludes :=
      Finset.mem_filter.mpr ⟨hmem, hfile, hname, hreach.1, hincludes.mp hkept⟩
    refine ⟨hselected, fun depth hdepth hpos => ?_⟩
    exact (includesNativeProjectDir_iff hscan hselected hpos hdepth).mp
      ((hreach.2 depth hdepth).resolve_left hpos.ne')
  · rintro ⟨hselected, hmade⟩
    obtain ⟨hmem, hfile, hname, hvisible, hkept⟩ := Finset.mem_filter.mp hselected
    refine Finset.mem_filter.mpr ⟨hmem, ?_, hfile, hname, hincludes.mpr hkept⟩
    simp only [WorkspaceScan.reaches, Bool.and_eq_true, all_eq_true, bne_iff_ne,
      mem_range, Bool.or_eq_true, beq_iff_eq]
    refine ⟨hvisible, fun depth hdepth => (Nat.eq_zero_or_pos depth).imp_right fun hpos => ?_⟩
    exact (includesNativeProjectDir_iff hscan hselected hpos hdepth).mpr (hmade depth hdepth hpos)

end Accepted

/-- The scan reads the manifests it should read exactly when no exclude matches the made-up child of
a directory above one of them. -/
theorem scan_exact_iff (g : Globs) (t : Tree) (includes excludes : List Text)
    (scan : WorkspaceScan) (hscan : loadWorkspaceScan g includes excludes = some scan) :
    scan.manifests g t = selectedManifests g t includes excludes ↔
      ∀ p ∈ selectedManifests g t includes excludes, ∀ depth < p.length, 0 < depth →
        ∀ e ∈ excludes, g.isMatch e (render (p.take depth ++ [madeUpName])) = false := by
  constructor
  · intro hsame p hp
    exact ((mem_manifests_iff hscan).mp (hsame ▸ hp)).2
  · intro hmade
    ext p
    exact (mem_manifests_iff hscan).trans ⟨And.left, fun hp => ⟨hp, hmade p hp⟩⟩

/-! ## An exclude for names that start with underscores -/

lemma starMatch_exact (raw : Text) : ∀ path, starMatch false raw path = true →
    literalStart raw = raw → path = raw := by
  induction raw with
  | nil => exact fun path h _ => by simpa [starMatch] using h
  | cons x raw ih =>
    intro path hmatch hself
    have hstar : x ≠ '*' := by
      rintro rfl
      simp [literalStart] at hself
    have hrest : literalStart raw = raw := by
      unfold literalStart at hself ⊢
      rw [takeWhile_cons] at hself
      split at hself
      case isTrue => exact (cons.inj hself).2
      case isFalse => cases hself
    cases path with
    | nil => simp [starMatch, hstar] at hmatch
    | cons c path =>
      simp only [starMatch, if_neg hstar, Bool.and_eq_true, beq_iff_eq] at hmatch
      rw [hmatch.1, ih path hmatch.2 hrest]

def starGlobs : Globs where
  valid := fun _ => true
  isMatch := starMatch false
  literal := starMatch_literal false
  exact := starMatch_exact

def appManifest : RelPath := ⟨["app".toList, manifestName], by decide⟩

/-- `*/__*` matches neither `app/once.toml` nor `app`, yet the manifest is not read. -/
theorem underscores_hide_manifest :
    appManifest.1 ∈ selectedManifests starGlobs (spine appManifest (by decide) (some .file)) []
        ["*/__*".toList] ∧
      ∃ scan, loadWorkspaceScan starGlobs [] ["*/__*".toList] = some scan ∧
        appManifest.1 ∉ scan.manifests starGlobs (spine appManifest (by decide) (some .file)) :=
  ⟨by decide, _, rfl, by decide⟩

theorem scan_exact_app : (WorkspaceScan.mk [] none ["app/b*".toList]).manifests starGlobs
        (spine appManifest (by decide) (some .file)) =
      selectedManifests starGlobs (spine appManifest (by decide) (some .file)) []
        ["app/b*".toList] :=
  (scan_exact_iff starGlobs _ [] _ _ rfl).mpr (by decide)

end OnceBuild.Analysis
