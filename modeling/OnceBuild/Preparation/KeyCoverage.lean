import Mathlib.Data.List.Dedup
import OnceBuild.Preparation.KeyStream

/-!
# What a prepared key covers

The paths that are cleaned and created, the declared inputs and the dependencies follow one another
in the stream with nothing that says how many there are, and a path may hold the zero byte that ends
it.  Without that byte, and with inputs that are named unlike anything else in the stream, the key
covers the whole declaration.
-/

namespace OnceBuild.Preparation

open Lib List
open Cas (Digest Bytes)
open OnceBuild.Core (RunCommand SandboxMode)

section

variable {encoding : Encoding} {host host' : Host} {prior prior' : Prior}
  {sandboxOverride sandboxOverride' : SandboxMode} {d d' : DeclaredCommand} {c c' : RunCommand}
  {resolved resolved' : List (Text × Digest)}

/-! ## Names that leave no doubt -/

/-- The labels that the key writes before the paths of the command's set-up. -/
def setupTags : List Text := ["clean_path".toList, "create_dir".toList, "cwd".toList]

/-- How the label of a dependency on an action of the same target begins. -/
def depTag : Text := "dep:same-target:".toList

/-- No name holds a zero byte, and no declared input is named like what else is in the stream. -/
structure Tidy (prior : Prior) (d : DeclaredCommand) : Prop where
  setup : ∀ path ∈ d.cleanPaths ++ d.createDirs ++ d.cwd.toList, '\x00' ∉ path
  inputs : ∀ input ∈ d.inputs, '\x00' ∉ input ∧ input ∉ setupTags ∧ ¬depTag <+: input
  deps : ∀ dep ∈ prior.depActionDigests, '\x00' ∉ dep.1

/-- Whether a label is followed by a digest, and not by a path and a zero byte. -/
def isKeyed (label : Bytes) : Bool := !(setupTags.map bytesOf).contains label

variable {t : Text}

lemma zero_notMem_bytesOf (h : '\x00' ∉ t) : 0 ∉ bytesOf t := by
  rw [← count_eq_zero, count_bytesOf]
  exact count_eq_zero.mpr h

lemma isKeyed_bytesOf (h : t ∉ setupTags) : isKeyed (bytesOf t) = true := by
  have hnot : bytesOf t ∉ setupTags.map bytesOf := by
    intro hmem
    obtain ⟨tag, htag, heq⟩ := mem_map.mp hmem
    exact h (bytesOf_injective heq ▸ htag)
  simpa [isKeyed] using hnot

lemma mem_sortedTexts {texts : List Text} (h : t ∈ sortedTexts texts) : t ∈ texts :=
  (mem_insertionSort _).mp (mem_dedup.mp h)

variable {tag : Text}

lemma wellLabelled_tagged (htag : tag ∈ setupTags) {path : Text} (hpath : '\x00' ∉ path) :
    WellLabelled 0 32 isKeyed (bytesOf tag, bytesOf path) where
  label := by
    refine zero_notMem_bytesOf ?_
    revert tag
    decide
  wide hkeyed := by
    have hmem : bytesOf tag ∈ setupTags.map bytesOf := mem_map_of_mem htag
    simp [isKeyed, hmem] at hkeyed
  narrow _ := zero_notMem_bytesOf hpath

variable {name : Text}

lemma wellLabelled_keyed (hnul : '\x00' ∉ name) (hname : name ∉ setupTags) (digest : Digest) :
    WellLabelled 0 32 isKeyed (bytesOf name, digest.asBytes) where
  label := zero_notMem_bytesOf hnul
  wide _ := Digest.length_asBytes digest
  narrow hkeyed := by
    rw [isKeyed_bytesOf hname] at hkeyed
    cases hkeyed

lemma mem_depEntries {entry : Text × Digest} (h : entry ∈ depEntries prior) :
    ∃ dep ∈ prior.depActionDigests, depTag <+: entry.1 ∧ entry.1 = "dep:".toList ++ dep.1 := by
  obtain ⟨dep, hdep, rfl⟩ := mem_map.mp h
  obtain ⟨hmem, hlabel⟩ := mem_filter.mp hdep
  have hdepTag : depTag = "dep:".toList ++ sameTarget := by decide
  refine ⟨dep, hmem, ?_, rfl⟩
  rw [hdepTag]
  exact (prefix_append_right_inj _).mpr <| isPrefixOf_iff_prefix.mp hlabel

lemma depTag_notMem (h : depTag <+: name) : name ∉ setupTags := by
  have hnone : ∀ tag ∈ setupTags, ¬depTag <+: tag := by decide
  exact fun hmem => hnone name hmem h

/-- What the key hashes, in its order: set-up, inputs, dependencies. -/
def streamEntries (prior : Prior) (d : DeclaredCommand) (resolved : List (Text × Digest)) :
    List (Bytes × Bytes) :=
  setupEntries d ++ keyedEntries resolved ++ keyedEntries (depEntries prior)

lemma Tidy.inputNames (htidy : Tidy prior d)
    (hinputs : resolvedInputs host prior d = .ok resolved) :
    ∀ entry ∈ resolved, '\x00' ∉ entry.1 ∧ entry.1 ∉ setupTags ∧ ¬depTag <+: entry.1 := by
  intro entry hentry
  have hname : entry.1 ∈ sortedTexts d.inputs := fst_resolvedInputs hinputs ▸ mem_map_of_mem hentry
  exact htidy.inputs entry.1 (mem_sortedTexts hname)

lemma Tidy.depNames (htidy : Tidy prior d) :
    ∀ entry ∈ depEntries prior, '\x00' ∉ entry.1 ∧ entry.1 ∉ setupTags ∧ depTag <+: entry.1 := by
  intro entry hentry
  obtain ⟨dep, hdep, htag, hname⟩ := mem_depEntries hentry
  refine ⟨?_, depTag_notMem htag, htag⟩
  rw [hname]
  intro hmem
  rcases mem_append.mp hmem with hmem | hmem
  · revert hmem
    decide
  · exact htidy.deps dep hdep hmem

lemma wellLabelled_streamEntries (htidy : Tidy prior d)
    (hinputs : resolvedInputs host prior d = .ok resolved) :
    ∀ entry ∈ streamEntries prior d resolved, WellLabelled 0 32 isKeyed entry := by
  have htagged : ∀ (tag : String) (paths : List Text), tag.toList ∈ setupTags →
      (∀ path ∈ paths, '\x00' ∉ path) →
      ∀ entry ∈ taggedEntries tag paths, WellLabelled 0 32 isKeyed entry := by
    intro tag paths htag hpaths entry hentry
    obtain ⟨path, hpath, rfl⟩ := mem_map.mp hentry
    exact wellLabelled_tagged htag (hpaths path hpath)
  have hkeyed : ∀ entries : List (Text × Digest),
      (∀ entry ∈ entries, '\x00' ∉ entry.1 ∧ entry.1 ∉ setupTags) →
      ∀ entry ∈ keyedEntries entries, WellLabelled 0 32 isKeyed entry := by
    intro entries hentries entry hentry
    obtain ⟨keyed, hkeyed, rfl⟩ := mem_map.mp hentry
    exact wellLabelled_keyed (hentries keyed hkeyed).1 (hentries keyed hkeyed).2 keyed.2
  have hsetup := htidy.setup
  simp only [mem_append] at hsetup
  intro entry hentry
  simp only [streamEntries, setupEntries, mem_append] at hentry
  rcases hentry with (((hentry | hentry) | hentry) | hentry) | hentry
  · exact htagged _ _ (by decide) (fun path hpath => hsetup path (.inl (.inl hpath)))
      entry hentry
  · exact htagged _ _ (by decide) (fun path hpath => hsetup path (.inl (.inr hpath)))
      entry hentry
  · exact htagged _ _ (by decide) (fun path hpath => hsetup path (.inr hpath)) entry hentry
  · exact hkeyed _ (fun keyed hmem => ⟨(htidy.inputNames hinputs keyed hmem).1,
      (htidy.inputNames hinputs keyed hmem).2.1⟩) entry hentry
  · exact hkeyed _ (fun keyed hmem => ⟨(htidy.depNames keyed hmem).1,
      (htidy.depNames keyed hmem).2.1⟩) entry hentry

/-! ## Picking the entries of one kind -/

variable {p : Bytes → Bool}

lemma filter_label {entries : List (Bytes × Bytes)} (answer : Bool)
    (h : ∀ entry ∈ entries, p entry.1 = answer) :
    (entries.filter fun entry => p entry.1) = if answer then entries else [] := by
  cases answer with
  | true => exact filter_eq_self.mpr h
  | false =>
    refine filter_eq_nil_iff.mpr fun entry hentry hp => ?_
    exact Bool.false_ne_true ((h entry hentry).symm.trans hp)

lemma label_taggedEntries {tag : String} {paths : List Text} :
    ∀ entry ∈ taggedEntries tag paths, p entry.1 = p (bytesOf tag.toList) := by
  intro entry hentry
  obtain ⟨path, -, rfl⟩ := mem_map.mp hentry
  rfl

lemma label_keyedEntries {entries : List (Text × Digest)} {answer : Bool}
    (h : ∀ entry ∈ entries, p (bytesOf entry.1) = answer) :
    ∀ entry ∈ keyedEntries entries, p entry.1 = answer := by
  intro entry hentry
  obtain ⟨keyed, hkeyed, rfl⟩ := mem_map.mp hentry
  exact h keyed hkeyed

lemma filter_streamEntries {forInputs forDeps : Bool}
    (hinputs : ∀ entry ∈ resolved, p (bytesOf entry.1) = forInputs)
    (hdeps : ∀ entry ∈ depEntries prior, p (bytesOf entry.1) = forDeps) :
    ((streamEntries prior d resolved).filter fun entry => p entry.1) =
      (if p (bytesOf "clean_path".toList) then taggedEntries "clean_path" d.cleanPaths else []) ++
      (if p (bytesOf "create_dir".toList) then taggedEntries "create_dir" d.createDirs else []) ++
      (if p (bytesOf "cwd".toList) then taggedEntries "cwd" d.cwd.toList else []) ++
      (if forInputs then keyedEntries resolved else []) ++
      (if forDeps then keyedEntries (depEntries prior) else []) := by
  unfold streamEntries setupEntries
  simp only [filter_append]
  rw [filter_label _ label_taggedEntries, filter_label _ label_taggedEntries,
    filter_label _ label_taggedEntries, filter_label _ (label_keyedEntries hinputs),
    filter_label _ (label_keyedEntries hdeps)]

lemma isTag_eq_false (htag : tag ∈ setupTags) (hname : name ∉ setupTags) :
    (bytesOf name == bytesOf tag) = false :=
  beq_eq_false_iff_ne.mpr fun heq => hname (bytesOf_injective heq ▸ htag)

/-- Whether a label is that of a declared input. -/
def isInput (label : Bytes) : Bool := isKeyed label && !(bytesOf depTag).isPrefixOf label

lemma isInput_of_input (hname : name ∉ setupTags) (hdep : ¬depTag <+: name) :
    isInput (bytesOf name) = true := by
  have hprefix : (bytesOf depTag).isPrefixOf (bytesOf name) = false := by
    rw [← Bool.not_eq_true, isPrefixOf_iff_prefix]
    exact fun h => hdep (isPrefix_of_utf8Encode h)
  rw [isInput, isKeyed_bytesOf hname, hprefix]
  rfl

lemma isInput_of_dep (hdep : depTag <+: name) : isInput (bytesOf name) = false := by
  have hprefix : (bytesOf depTag).isPrefixOf (bytesOf name) = true := by
    rw [ isPrefixOf_iff_prefix]
    obtain ⟨rest, rfl⟩ := hdep
    exact ⟨bytesOf rest, (utf8Encode_append _ _).symm⟩
  rw [isInput, hprefix, Bool.not_true, Bool.and_false]

section

variable (htidy : Tidy prior d)
include htidy

section

variable (hinputs : resolvedInputs host prior d = .ok resolved)
include hinputs

lemma filter_streamEntries_tag (htag : tag ∈ setupTags) :
    ((streamEntries prior d resolved).filter fun entry => entry.1 == bytesOf tag) =
      (if bytesOf "clean_path".toList == bytesOf tag then taggedEntries "clean_path" d.cleanPaths
        else []) ++
      (if bytesOf "create_dir".toList == bytesOf tag then taggedEntries "create_dir" d.createDirs
        else []) ++
      (if bytesOf "cwd".toList == bytesOf tag then taggedEntries "cwd" d.cwd.toList else []) := by
  have hentries : ∀ entry ∈ resolved, (bytesOf entry.1 == bytesOf tag) = false :=
    fun entry hentry => isTag_eq_false htag (htidy.inputNames hinputs entry hentry).2.1
  have hdeps : ∀ entry ∈ depEntries prior, (bytesOf entry.1 == bytesOf tag) = false :=
    fun entry hentry => isTag_eq_false htag (htidy.depNames entry hentry).2.1
  refine (filter_streamEntries (p := (· == bytesOf tag)) hentries hdeps).trans ?_
  simp only [Bool.false_eq_true, if_false, append_nil]

lemma filter_streamEntries_clean :
    ((streamEntries prior d resolved).filter fun entry => entry.1 == bytesOf "clean_path".toList) =
      taggedEntries "clean_path" d.cleanPaths := by
  have hcreate : (bytesOf "create_dir".toList == bytesOf "clean_path".toList) = false := by
    decide
  have hcwd : (bytesOf "cwd".toList == bytesOf "clean_path".toList) = false := by decide
  rw [filter_streamEntries_tag htidy hinputs (by decide), hcreate, hcwd, beq_self_eq_true]
  simp only [Bool.false_eq_true, if_true, if_false, append_nil]

lemma filter_streamEntries_create :
    ((streamEntries prior d resolved).filter fun entry => entry.1 == bytesOf "create_dir".toList) =
      taggedEntries "create_dir" d.createDirs := by
  have hclean : (bytesOf "clean_path".toList == bytesOf "create_dir".toList) = false := by
    decide
  have hcwd : (bytesOf "cwd".toList == bytesOf "create_dir".toList) = false := by decide
  rw [filter_streamEntries_tag htidy hinputs (by decide), hclean, hcwd, beq_self_eq_true]
  simp only [Bool.false_eq_true, if_true, if_false, append_nil, nil_append]

lemma filter_streamEntries_inputs :
    ((streamEntries prior d resolved).filter fun entry => isInput entry.1) =
      keyedEntries resolved := by
  have hentries : ∀ entry ∈ resolved, isInput (bytesOf entry.1) = true := fun entry hentry =>
    isInput_of_input (htidy.inputNames hinputs entry hentry).2.1
      (htidy.inputNames hinputs entry hentry).2.2
  have hdeps : ∀ entry ∈ depEntries prior, isInput (bytesOf entry.1) = false :=
    fun entry hentry => isInput_of_dep (htidy.depNames entry hentry).2.2
  have hclean : isInput (bytesOf "clean_path".toList) = false := by decide
  have hcreate : isInput (bytesOf "create_dir".toList) = false := by decide
  have hcwd : isInput (bytesOf "cwd".toList) = false := by decide
  rw [filter_streamEntries hentries hdeps, hclean, hcreate, hcwd]
  simp only [Bool.false_eq_true, if_true, if_false, append_nil, nil_append]

end

lemma cutAlike_of_tidy (htidy' : Tidy prior' d')
    (hinputs : resolvedInputs host prior d = .ok resolved)
    (hinputs' : resolvedInputs host' prior' d' = .ok resolved')
    (h : labelled 0 (streamEntries prior d resolved) =
      labelled 0 (streamEntries prior' d' resolved')) : CutAlike d d' := by
  have hentries : streamEntries prior d resolved = streamEntries prior' d' resolved' :=
    labelled_injective (wellLabelled_streamEntries htidy hinputs)
      (wellLabelled_streamEntries htidy' hinputs') h
  have hclean : d.cleanPaths = d'.cleanPaths := by
    apply taggedEntries_injective
    rw [← filter_streamEntries_clean htidy hinputs, hentries,
      filter_streamEntries_clean htidy' hinputs']
  have hcreate : d.createDirs = d'.createDirs := by
    apply taggedEntries_injective
    rw [← filter_streamEntries_create htidy hinputs, hentries,
      filter_streamEntries_create htidy' hinputs']
  have hresolved : resolved = resolved' := by
    apply keyedEntries_injective
    rw [← filter_streamEntries_inputs htidy hinputs, hentries,
      filter_streamEntries_inputs htidy' hinputs']
  refine ⟨by rw [hclean], by rw [hcreate], ?_⟩
  rw [← fst_resolvedInputs hinputs, ← fst_resolvedInputs hinputs', hresolved]

end

/-- Commands with equal keys have the same declaration exactly when their streams are cut at the
same places, and always when their names leave no doubt where. -/
theorem prepared_key_covers_declaration
    (hd : prepare encoding host prior sandboxOverride d = .ok c)
    (hd' : prepare encoding host' prior' sandboxOverride' d' = .ok c')
    (hinputs : resolvedInputs host prior d = .ok resolved)
    (hinputs' : resolvedInputs host' prior' d' = .ok resolved')
    (hencoding : Distinguishes encoding (writtenTrees d c ++ writtenTrees d' c')
      (hashedTexts encoding host prior d c resolved ++
        hashedTexts encoding host' prior' d' c' resolved'))
    (hkey : keyOf encoding c = keyOf encoding c') :
    (SameDeclaration host host' prior prior' sandboxOverride sandboxOverride' d d' ↔
      CutAlike d d') ∧
    (Tidy prior d → Tidy prior' d' →
      SameDeclaration host host' prior prior' sandboxOverride sandboxOverride' d d') := by
  obtain ⟨found, hprepared⟩ := prepare_eq_ok hd
  obtain ⟨found', hprepared'⟩ := prepare_eq_ok hd'
  obtain rfl : resolved = found := Except.ok.inj (hinputs.symm.trans hprepared.inputs)
  obtain rfl : resolved' = found' := Except.ok.inj (hinputs'.symm.trans hprepared'.inputs)
  have hmatched := matched_of_keys hprepared hprepared' hencoding hkey
  have hsame := sameDeclaration_of_cutAlike hprepared hprepared' hmatched
  refine ⟨⟨cutAlike_of_sameDeclaration hprepared hprepared', hsame⟩, fun htidy htidy' => ?_⟩
  exact hsame (cutAlike_of_tidy htidy htidy' hinputs hinputs' hmatched.tail)

end

/-! ## A path that reads as two -/

def setupOnly (cleanPaths createDirs : List Text) : DeclaredCommand where
  resources := .default
  argv := ["true".toList]
  argFiles := []
  inputs := []
  outputs := []
  stdout := none
  stderr := none
  cleanPaths := cleanPaths
  createDirs := createDirs
  cwd := none
  env := .empty
  sandbox := none
  network := none
  successExitCodes := [0]
  cacheable := true
  inheritParentEnv := false
  toolchainIdentity := none
  identifier := none

def emptyHost : Host where
  workspace := "/w".toList
  workspace_noNul := by decide
  vars := []
  sourceDigest _ := .error []
  ensureOutputParentDirs _ := .ok ()

def noPrior : Prior := ⟨fun _ => none, []⟩

def setupCommand (encoding : Encoding) (d : DeclaredCommand) : RunCommand where
  argv := ["true".toList]
  env := .empty
  cwd := none
  inputDigest := some (encoding.hash (inputStream encoding emptyHost noPrior d .empty []))
  inputs := []
  outputs := []
  stdoutPath := none
  stderrPath := none
  outputSymlinkMode := .materializeExternal
  resources := .default
  sandbox := .off
  network := .unrestricted
  timeoutMs := none
  successExitCodes := [0]
  remote := none

lemma prepare_setupOnly (encoding : Encoding) {cleanPaths createDirs : List Text}
    (hdirs : createDirs.filter isPrivateDir = []) :
    prepare encoding emptyHost noPrior .off (setupOnly cleanPaths createDirs) =
      .ok (setupCommand encoding (setupOnly cleanPaths createDirs)) := by
  have hinputs : declaredActionInputs (setupOnly cleanPaths createDirs) = .ok [] := by
    change (do
      let inputs ← ([] : List Text).mapM (workspacePath "run_action input")
      let argFiles ← ([] : List DeclaredArgFile).mapM fun file =>
        workspacePath "run_action arg file" file.path
      let dirs ← (createDirs.filter isPrivateDir).mapM
        (workspacePath "run_action create_dirs entry")
      .ok (sortedPaths (inputs ++ argFiles ++ dirs))) = Except.ok []
    rw [hdirs]
    rfl
  unfold prepare
  rw [hinputs]
  rfl

/-- A declaration that cleans one path and creates another. -/
def twoPaths : DeclaredCommand := setupOnly ["a".toList] ["b".toList]

def onePath : DeclaredCommand := setupOnly ["a\x00create_dir\x00b".toList] []

/-- Texts and hashes that tell apart what is written and hashed for one such command. -/
def shapeText : Json → Bytes
  | .object _ => [1]
  | .array [] => [2]
  | .array _ => [3]
  | _ => [4]

def shapeEncoding : Encoding := ⟨shapeText, fun bytes => .ofDigit (bytes[5]?.getD 0).toNat⟩

lemma shapeText_noNul (tree : Json) : 0 ∉ shapeText tree := by
  unfold shapeText
  split <;> decide

lemma twoPaths_distinguished : Distinguishes shapeEncoding
      (writtenTrees twoPaths (setupCommand shapeEncoding twoPaths) ++
        writtenTrees twoPaths (setupCommand shapeEncoding twoPaths))
      (hashedTexts shapeEncoding emptyHost noPrior twoPaths (setupCommand shapeEncoding twoPaths)
        [] ++
        hashedTexts shapeEncoding emptyHost noPrior twoPaths
          (setupCommand shapeEncoding twoPaths) [])
    where
  noNul := shapeText_noNul
  write tree htree tree' htree' := by
    simp only [mem_append, or_self, writtenTrees, mem_cons, not_mem_nil, or_false] at htree htree'
    rcases htree with rfl | rfl | rfl <;> rcases htree' with rfl | rfl | rfl <;>
      first
        | exact fun heq => absurd heq (by decide)
        | exact fun _ => rfl
  hash text htext text' htext' := by
    have hlogs : (twoPaths.stdout.toList ++ twoPaths.stderr.toList).map bytesOf = [] := rfl
    simp only [mem_append, or_self, hashedTexts, hlogs, mem_cons, not_mem_nil,
      or_false] at htext htext'
    rcases htext with rfl | rfl <;> rcases htext' with rfl | rfl <;>
      first
        | exact fun heq => absurd heq (by decide)
        | exact fun _ => rfl

/-- Both declarations have the key of the second one; they are cut at different places. -/
theorem twoPaths_key_covers : prepare shapeEncoding emptyHost noPrior .off twoPaths =
        .ok (setupCommand shapeEncoding twoPaths) ∧
      prepare shapeEncoding emptyHost noPrior .off onePath =
        .ok (setupCommand shapeEncoding twoPaths) ∧
      SameDeclaration emptyHost emptyHost noPrior noPrior .off .off twoPaths twoPaths ∧
      ¬SameDeclaration emptyHost emptyHost noPrior noPrior .off .off onePath twoPaths := by
  have hprepared : prepare shapeEncoding emptyHost noPrior .off twoPaths =
      .ok (setupCommand shapeEncoding twoPaths) := prepare_setupOnly _ (by decide)
  have htidy : Tidy noPrior twoPaths := ⟨by decide, by decide, by decide⟩
  have hone : prepare shapeEncoding emptyHost noPrior .off onePath =
      .ok (setupCommand shapeEncoding twoPaths) := prepare_setupOnly _ (by decide)
  refine ⟨hprepared, hone, (prepared_key_covers_declaration hprepared hprepared rfl rfl
    twoPaths_distinguished rfl).2 htidy htidy, fun hsame => ?_⟩
  have hcut := (prepared_key_covers_declaration hone hprepared rfl rfl twoPaths_distinguished
    rfl).1.mp hsame
  exact absurd hcut.createDirs (by decide)

theorem onePath_reads_as_twoPaths :
    onePath.cleanPaths ≠ twoPaths.cleanPaths ∧ onePath.createDirs ≠ twoPaths.createDirs ∧
      ∀ encoding : Encoding, ∃ c, prepare encoding emptyHost noPrior .off onePath = .ok c ∧
        prepare encoding emptyHost noPrior .off twoPaths = .ok c := by
  refine ⟨by decide, by decide, fun encoding => ?_⟩
  refine ⟨setupCommand encoding twoPaths, ?_, prepare_setupOnly encoding (by decide)⟩
  exact prepare_setupOnly encoding (by decide)

end OnceBuild.Preparation
