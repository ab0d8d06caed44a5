import OnceBuild.Analysis.ExpansionSound
import OnceBuild.Lib.Loop
import OnceBuild.Resolution.Derivation

/-!
# What a derivation reads

Two workspaces that hold the same files wherever the patterns of a resolver could select one hand it
the same files, and a derivation all of whose resolvers are handed the same files and given the same
answers ends the same.
-/

namespace OnceBuild.Resolution

open Lib List
open Analysis (Disk Tree Host Canonical NoDirLinks GlobCandidate globWalkRoot dropDotSlash dotDot
  expandGlobs globSelection)

variable {A D Q W : Type} {kinds : Kinds A D Q W} {host : Host} {d₁ d₂ : Disk}

/-! ## The files of one resolver -/

/-- The workspaces hold the same entry at `p`, which is no link, and the same file if it is one. -/
def SameEntry (d₁ d₂ : Disk) (p : List Text) : Prop :=
  d₁.tree.node p = d₂.tree.node p ∧ (d₁.tree.node p = some .file → d₁.content p = d₂.content p) ∧
    ∀ target, d₁.tree.node p ≠ some (.symlink target)

/-- The workspaces agree wherever a pattern of the resolver could select a file. -/
def SameInputs (host : Host) (d₁ d₂ : Disk) (package : RelPath) (patterns excludes : List Text) :
    Prop :=
  ∀ pattern ∈ patterns, host.valid (dropDotSlash pattern) = true → ∀ p,
    GlobCandidate host package.1 (globWalkRoot package.1 [dropDotSlash pattern])
      [dropDotSlash pattern] excludes p → SameEntry d₁ d₂ p

lemma gatherPattern_congr {package : RelPath} {root : List Text} {excludes : List Text}
    {pattern : Text} (h₁ : NoDirLinks host.canonicalize d₁.tree)
    (h₂ : NoDirLinks host.canonicalize d₂.tree)
    (hsame : SameInputs host d₁ d₂ package [pattern] excludes) (acc : Gathered) :
    gatherPattern host d₁ package root excludes acc pattern =
      gatherPattern host d₂ package root excludes acc pattern := by
  have hentry : host.valid (dropDotSlash pattern) = true → ∀ p,
      GlobCandidate host package.1 (globWalkRoot package.1 [dropDotSlash pattern])
        [dropDotSlash pattern] excludes p → SameEntry d₁ d₂ p :=
    hsame pattern (mem_singleton.mpr rfl)
  have hglob : expandGlobs host d₁.tree package.1 [pattern] excludes =
      expandGlobs host d₂.tree package.1 [pattern] excludes := by
    refine Analysis.expandGlobs_congr h₁ h₂ fun hvalid p hp => ?_
    have hvalid' : host.valid (dropDotSlash pattern) = true := by simpa using hvalid
    obtain ⟨hnode, -, hlink⟩ := hentry hvalid' p hp
    exact ⟨hnode, hlink⟩
  unfold gatherPattern
  rw [← hglob]
  cases hnames : expandGlobs host d₁.tree package.1 [pattern] excludes with
  | none => rfl
  | some names =>
    refine foldlM_congr (fun name hname acc => ?_) acc
    -- each match is the same regular file in both workspaces
    obtain ⟨p, hp, rfl⟩ := Analysis.mem_expandGlobs hnames hname
    obtain ⟨hpaths, hsel⟩ := Finset.mem_filter.mp hp
    have hvalid : host.valid (dropDotSlash pattern) = true := by
      by_contra hinvalid
      simp [expandGlobs, hinvalid] at hnames
    have hcand := Analysis.candidate_of_globSelects h₁ hsel
    obtain ⟨hnode, hcontent, hlink⟩ := hentry hvalid p hcand
    rw [parts_render (d₁.tree.plain p hpaths)]
    have hfile : d₁.tree.node p = some .file := Analysis.file_of_globSelects hsel hlink
    have hcanon₁ := host.canonicalize_file d₁.tree p hfile
    have hcanon₂ := host.canonicalize_file d₂.tree p (hnode ▸ hfile)
    simp only [gatherFile, hcanon₁, hcanon₂, hfile, hnode ▸ hfile, hcontent hfile]

variable {t : Target A}

variable {files : Files} {inputs : ResolverInputs}

lemma resolverFiles_congr (h₁ : NoDirLinks host.canonicalize d₁.tree)
    (h₂ : NoDirLinks host.canonicalize d₂.tree) (hdir₁ : d₁.tree.node t.package.1 = some .dir)
    (hdir₂ : d₂.tree.node t.package.1 = some .dir)
    (hok : resolverFiles kinds host d₁ t = .ok (files, inputs))
    (hsame : SameInputs host d₁ d₂ t.package inputs.patterns inputs.excludes) :
    resolverFiles kinds host d₂ t = .ok (files, inputs) := by
  unfold resolverFiles at hok ⊢
  rw [host.canonicalize_dir _ _ hdir₁] at hok
  rw [host.canonicalize_dir _ _ hdir₂]
  cases hpatterns : resolverSourcePatterns kinds t with
  | error e => simp [hpatterns, bind, Except.bind] at hok
  | ok patterns =>
    simp only [hpatterns, bind, Except.bind] at hok ⊢
    have hfold : ∀ acc, inputs.patterns = patterns → inputs.excludes = resolverExcludePatterns t →
        patterns.foldlM (gatherPattern host d₁ t.package t.package.1
          (resolverExcludePatterns t)) acc =
        patterns.foldlM (gatherPattern host d₂ t.package t.package.1
          (resolverExcludePatterns t)) acc := by
      intro acc hp he
      refine foldlM_congr (fun pattern hpattern acc => ?_) acc
      refine gatherPattern_congr h₁ h₂ (fun q hq => ?_) acc
      rw [mem_singleton.mp hq, ← he]
      exact hsame pattern (hp ▸ hpattern)
    cases hgathered : patterns.foldlM (gatherPattern host d₁ t.package t.package.1
        (resolverExcludePatterns t)) ⟨[], 0⟩ with
    | error e => simp [hgathered] at hok
    | ok gathered =>
      simp only [hgathered] at hok
      obtain ⟨rfl, rfl⟩ : gathered.files = files ∧ _ = inputs := by
        simpa [pure, Except.pure] using hok
      rw [← hfold _ rfl rfl, hgathered]
      rfl

lemma inputs_package (hok : resolverFiles kinds host d₁ t = .ok (files, inputs)) :
    inputs.package = t.package := by
  unfold resolverFiles at hok
  split at hok
  case h_1 root hroot =>
    cases hpatterns : resolverSourcePatterns kinds t with
    | error e => simp [hpatterns, bind, Except.bind] at hok
    | ok patterns =>
      simp only [hpatterns, bind, Except.bind] at hok
      split at hok
      · cases hok
      · cases hok
        rfl
  case h_2 => cases hok

/-! ## The whole derivation -/

/-- Every recorded run of a resolver is handed the same files and answers by both readers. -/
def SameReads (kinds : Kinds A D Q W) (r₁ r₂ : Reader Q W) (record : ResolutionRecord Q W) : Prop :=
  ∀ t files inputs, resolverFiles kinds r₁.host r₁.disk t = .ok (files, inputs) →
    inputs ∈ record.resolvers →
    (∀ qa ∈ ((kinds.resolve t files).run r₁.answer).2, qa ∈ record.asked) →
    resolverFiles kinds r₂.host r₂.disk t = .ok (files, inputs) ∧
      (kinds.resolve t files).run r₂.answer = (kinds.resolve t files).run r₁.answer

def ResolutionRecord.Within (r r' : ResolutionRecord Q W) : Prop :=
  r.resolvers ⊆ r'.resolvers ∧ r.asked ⊆ r'.asked

lemma ResolutionRecord.Within.trans {r r' r'' : ResolutionRecord Q W} (h : r.Within r')
    (h' : r'.Within r'') : r.Within r'' :=
  ⟨Subset.trans h.1 h'.1, Subset.trans h.2 h'.2⟩

variable {r₁ r₂ : Reader Q W}

lemma SameReads.mono {record record' : ResolutionRecord Q W}
    (hsame : SameReads kinds r₁ r₂ record') (hsub : record.Within record') :
    SameReads kinds r₁ r₂ record :=
  fun t files inputs hok hin hasked =>
    hsame t files inputs hok (hsub.1 hin) fun qa hqa => hsub.2 (hasked qa hqa)

variable {s s' : Expansion A D Q W} {todo : List (Target A)}

lemma applyResult_record {result : ResolverResult A D}
    (hok : applyResult kinds s t todo result = .ok s') : s'.record = s.record := by
  cases result with
  | output out =>
    simp only [applyResult, bind, Except.bind] at hok
    split at hok
    · cases hok
    · cases hok
      rfl
  | invalidOutput | noValue | failed => cases hok
  | diagnostic d => cases hok; rfl

variable {reader : Reader Q W}

lemma expandOne_record (hok : expandOne kinds reader s t todo = .ok s') :
    s.record.Within s'.record := by
  unfold expandOne at hok
  split at hok
  case isTrue =>
    split at hok
    case h_1 => cases hok
    case h_2 => cases hok; exact ⟨Subset.refl _, Subset.refl _⟩
    case h_3 =>
      split at hok
      case h_1 => cases hok
      case h_2 =>
        rw [applyResult_record hok]
        exact ⟨subset_append_left _ _, subset_append_left _ _⟩
  case isFalse => cases hok; exact ⟨Subset.refl _, Subset.refl _⟩

lemma expandOne_same (hok : expandOne kinds r₁ s t todo = .ok s')
    (hsame : SameReads kinds r₁ r₂ s'.record) : expandOne kinds r₂ s t todo = .ok s' := by
  unfold expandOne at hok ⊢
  split at hok
  case isFalse hno => rw [if_neg hno]; exact hok
  case isTrue hyes =>
    rw [if_pos hyes]
    split at hok
    case h_1 => cases hok
    case h_2 => exact hok
    case h_3 hvalid =>
      cases hfiles : resolverFiles kinds r₁.host r₁.disk t with
      | error e => simp [hfiles] at hok
      | ok gathered =>
        obtain ⟨files, inputs⟩ := gathered
        simp only [hfiles] at hok
        have hrecord := applyResult_record hok
        obtain ⟨hfiles', hrun⟩ := hsame t files inputs hfiles
          (by rw [hrecord]; simp [Expansion.recordRun])
          (fun qa hqa => by rw [hrecord]; simp [Expansion.recordRun, hqa])
        simp only [hfiles', hrun]
        exact hok

lemma expandLoop_record (fuel : Nat) (hok : expandLoop kinds reader fuel s = .ok s') :
    s.record.Within s'.record := by
  induction fuel generalizing s with
  | zero => cases hok
  | succ fuel ih =>
    simp only [expandLoop] at hok
    split at hok
    case h_1 => cases hok; exact ⟨Subset.refl _, Subset.refl _⟩
    case h_2 =>
      simp only [bind, Except.bind] at hok
      split at hok
      · cases hok
      · rename_i hone
        exact (expandOne_record hone).trans (ih hok)

lemma expandLoop_same (fuel : Nat) (hok : expandLoop kinds r₁ fuel s = .ok s')
    (hsame : SameReads kinds r₁ r₂ s'.record) : expandLoop kinds r₂ fuel s = .ok s' := by
  induction fuel generalizing s with
  | zero => cases hok
  | succ fuel ih =>
    simp only [expandLoop] at hok ⊢
    cases htodo : s.todo with
    | nil => simpa [htodo] using hok
    | cons t todo =>
      simp only [htodo, bind, Except.bind] at hok ⊢
      cases hone : expandOne kinds r₁ s t todo with
      | error e => simp [hone] at hok
      | ok next =>
        simp only [hone] at hok
        rw [expandOne_same hone (hsame.mono (expandLoop_record fuel hok))]
        exact ih hok

lemma expandWorkspaceTargets_same {targets : List (Target A)}
    {out : List (Target A) × List (Text × D)} {record : ResolutionRecord Q W}
    (hok : expandWorkspaceTargets kinds r₁ targets = .ok (out, record))
    (hsame : SameReads kinds r₁ r₂ record) :
    expandWorkspaceTargets kinds r₂ targets = .ok (out, record) := by
  unfold expandWorkspaceTargets at hok ⊢
  split at hok
  case isTrue => cases hok
  case isFalse hfew =>
    rw [if_neg hfew]
    split at hok
    case isTrue hnone => rw [if_pos hnone]; exact hok
    case isFalse hsome =>
      rw [if_neg hsome]
      cases hloop : expandLoop kinds r₁ (maxExpandedTargets + 1)
          ⟨[], targets, (targets.map Target.id).toFinset, [], ⟨[], []⟩⟩ with
      | error e => simp [hloop] at hok
      | ok s =>
        simp only [hloop] at hok
        cases hok
        rw [expandLoop_same _ hloop hsame]
        rfl

end OnceBuild.Resolution
