import OnceBuild.Preparation.DeclaredCommand

/-!
# Reading the stream of a prepared command

Two commands with equal keys agree in all that the command itself holds.  Of the rest, which is
hashed as one stream, everything up to the paths that are set up can be told apart: JSON texts hold
no zero byte, and the arguments and the environment are known.  What follows can be told apart once
it is known where each name ends.
-/

namespace OnceBuild.Preparation

open Lib List
open Cas (Digest Bytes)
open OnceBuild.Core (WorkspacePath RunCommand SandboxMode Action)

/-- How often a text holds the byte that ends a piece. -/
def nuls (t : Text) : Nat := t.count '\x00'

lemma count_bytesOf (t : Text) : (bytesOf t).count 0 = nuls t := count_utf8Encode t

lemma bytesOf_injective {s t : Text} (h : bytesOf s = bytesOf t) : s = t := utf8Encode_injective h

lemma nuls_canonicalActionValue (host : Host) (value : Text) :
    nuls (canonicalActionValue host.workspace value) = nuls value := by
  unfold canonicalActionValue
  split
  case isTrue => rfl
  case isFalse hne =>
    refine count_replaceFrom host.workspace_noNul (by decide) ?_ 0 value
    exact fun hnil => hne (isEmpty_iff.mpr hnil)

/-! ## Preparing -/

section

variable {encoding : Encoding} {host host' : Host} {prior prior' : Prior}
  {sandboxOverride sandboxOverride' : SandboxMode} {d d' : DeclaredCommand} {c c' : RunCommand}

/-- What a prepared command says about its declaration. -/
structure PreparedFrom (encoding : Encoding) (host : Host) (prior : Prior)
    (sandboxOverride : SandboxMode) (d : DeclaredCommand) (c : RunCommand)
    (resolved : List (Text × Digest)) : Prop where
  argv : c.argv = d.argv
  env : effectiveEnv host sandboxOverride d = .ok c.env
  inputs : resolvedInputs host prior d = .ok resolved
  outputs : outputPaths d = .ok c.outputs
  stdout : optionalPath "run_action stdout path" d.stdout = .ok c.stdoutPath
  stderr : optionalPath "run_action stderr path" d.stderr = .ok c.stderrPath
  cwd : optionalPath "run_action cwd" d.cwd = .ok c.cwd
  digest : c.inputDigest = some (encoding.hash (inputStream encoding host prior d c.env resolved))

lemma prepare_eq_ok (h : prepare encoding host prior sandboxOverride d = .ok c) :
    ∃ resolved, PreparedFrom encoding host prior sandboxOverride d c resolved := by
  obtain ⟨env, henv, h⟩ := bind_eq_ok.mp h
  obtain ⟨resolved, hresolved, h⟩ := bind_eq_ok.mp h
  obtain ⟨inputs, -, h⟩ := bind_eq_ok.mp h
  obtain ⟨outputs, houtputs, h⟩ := bind_eq_ok.mp h
  obtain ⟨_, -, h⟩ := bind_eq_ok.mp h
  obtain ⟨stdoutPath, hstdout, h⟩ := bind_eq_ok.mp h
  obtain ⟨stderrPath, hstderr, h⟩ := bind_eq_ok.mp h
  obtain ⟨cwd, hcwd, h⟩ := bind_eq_ok.mp h
  obtain ⟨sandbox, -, h⟩ := bind_eq_ok.mp h
  obtain ⟨network, -, h⟩ := bind_eq_ok.mp h
  obtain rfl := Except.ok.inj h
  exact ⟨resolved, rfl, henv, hresolved, houtputs, hstdout, hstderr, hcwd, rfl⟩

variable {context : String} {raw : Option Text} {path : Option WorkspacePath}

lemma optionalPath_eq_ok (h : optionalPath context raw = .ok path) : (raw = none ∧ path = none) ∨
      ∃ t p, raw = some t ∧ path = some p ∧ WorkspacePath.tryFrom t = .ok p := by
  cases raw with
  | none => exact Or.inl ⟨rfl, (Except.ok.inj h).symm⟩
  | some t =>
    cases htry : WorkspacePath.tryFrom t with
    | error e => simp [optionalPath, workspacePath, htry, Except.map, Except.mapError] at h
    | ok p =>
      simp only [optionalPath, workspacePath, htry, Except.map, Except.mapError,
        Except.ok.injEq] at h
      exact Or.inr ⟨t, p, rfl, h.symm, htry⟩

lemma nuls_of_tryFrom {raw : Text} {path : WorkspacePath}
    (h : WorkspacePath.tryFrom raw = .ok path) : nuls raw = path.1.flatten.count '\x00' := by
  have hparts : parts raw = path.1 := by
    unfold WorkspacePath.tryFrom at h
    split at h
    case isTrue => cases h
    case isFalse =>
      split at h
      case isTrue => cases h
      case isFalse => exact congrArg Subtype.val (Except.ok.inj h)
  rw [← hparts]
  exact count_parts (by decide) (by decide) raw

lemma nuls_optionalPath {raw' : Option Text} (h : optionalPath context raw = .ok path)
    (h' : optionalPath context raw' = .ok path) : raw.toList.map nuls = raw'.toList.map nuls := by
  rcases optionalPath_eq_ok h with ⟨rfl, rfl⟩ | ⟨t, p, rfl, rfl, htry⟩
  · rcases optionalPath_eq_ok h' with ⟨rfl, -⟩ | ⟨_, _, -, hpath, -⟩
    · rfl
    · cases hpath
  · rcases optionalPath_eq_ok h' with ⟨-, hpath⟩ | ⟨t', p', rfl, hpath, htry'⟩
    · cases hpath
    · obtain rfl := Option.some.inj hpath
      have heq : nuls t = nuls t' := (nuls_of_tryFrom htry).trans (nuls_of_tryFrom htry').symm
      exact congrArg (fun n => [n]) heq

lemma length_optionalPath {raw' : Option Text} (h : optionalPath context raw = .ok path)
    (h' : optionalPath context raw' = .ok path) : raw.toList.length = raw'.toList.length := by
  simpa using congrArg length (nuls_optionalPath h h')

lemma fst_resolvedInputs {resolved : List (Text × Digest)}
    (h : resolvedInputs host prior d = .ok resolved) :
    resolved.map Prod.fst = sortedTexts d.inputs := by
  have hfst : ∀ input entry, inputDigestOf host prior input = .ok entry → entry.1 = input := by
    intro input entry hentry
    unfold inputDigestOf at hentry
    split at hentry
    · rw [← Except.ok.inj hentry]
    · split at hentry
      · rw [← Except.ok.inj hentry]
      · cases hentry
  unfold resolvedInputs at h
  generalize sortedTexts d.inputs = inputs at h
  induction inputs generalizing resolved with
  | nil =>
    obtain rfl := Except.ok.inj h
    rfl
  | cons input inputs ih =>
    rw [mapM_cons] at h
    obtain ⟨entry, hentry, h⟩ := bind_eq_ok.mp h
    obtain ⟨rest, hrest, h⟩ := bind_eq_ok.mp h
    obtain rfl := Except.ok.inj h
    rw [map_cons, hfst input entry hentry, ih hrest]

end

/-! ## The stream up to the paths that are set up -/

variable {rest rest' : Bytes}

section

variable {encoding : Encoding} {host host' : Host} {d d' : DeclaredCommand}

lemma identities_injective (h : identities d = identities d') :
    d.toolchainIdentity = d'.toolchainIdentity := by
  have hfirst : optionalText d.toolchainIdentity = optionalText d'.toolchainIdentity := by
    simp only [identities, Json.array.injEq, cons.injEq] at h
    exact h.1
  cases hleft : d.toolchainIdentity <;> cases hright : d'.toolchainIdentity <;>
    simp [optionalText, hleft, hright] at hfirst ⊢
  exact hfirst

lemma argFilesJson_injective (h : argFilesJson d = argFilesJson d') : d.argFiles = d'.argFiles :=
  Codec.write_injective _ h

lemma json_cut {tree tree' : Json} (hnul : ∀ tree, 0 ∉ encoding.write tree)
    (h : terminated 0 [encoding.write tree] ++ rest =
      terminated 0 [encoding.write tree'] ++ rest') :
    encoding.write tree = encoding.write tree' ∧ rest = rest' := by
  have hcounts : [encoding.write tree].map (count 0) =
      [encoding.write tree'].map (count 0) := by
    simp only [map_cons, map_nil, count_eq_zero_of_not_mem (hnul _)]
  obtain ⟨htext, hrest⟩ := terminated_inj hcounts h
  exact ⟨(cons.inj htext).1, hrest⟩

lemma argv_cut (hargv : d.argv = d'.argv)
    (h : terminated 0 (canonicalArgv host d) ++ rest =
      terminated 0 (canonicalArgv host' d') ++ rest') : rest = rest' := by
  refine (terminated_inj ?_ h).2
  simp only [canonicalArgv, hargv, map_map]
  refine map_congr_left fun arg _ => ?_
  simp only [Function.comp_apply, count_bytesOf, nuls_canonicalActionValue]

lemma env_cut {env : SortedMap Text Text}
    (h : terminated 0 (canonicalEnv host env) ++ rest =
      terminated 0 (canonicalEnv host' env) ++ rest') : rest = rest' := by
  refine (terminated_inj ?_ h).2
  unfold canonicalEnv
  rw [map_flatMap, map_flatMap]
  simp only [map_cons, map_nil, count_bytesOf, nuls_canonicalActionValue]

lemma length_logEntry {label : String} {path : Option Text} :
    ∀ entry ∈ logEntry encoding label path, entry.2.length = 32 := by
  intro entry hentry
  cases path with
  | none => cases hentry
  | some t =>
    rw [mem_singleton.mp hentry]
    exact Digest.length_asBytes _

lemma log_cut {label : String} {path path' : Option Text}
    (hlength : path.toList.length = path'.toList.length)
    (hhash : ∀ t ∈ path.toList, ∀ t' ∈ path'.toList,
      encoding.hash (bytesOf t) = encoding.hash (bytesOf t') → bytesOf t = bytesOf t')
    (h : labelled 0 (logEntry encoding label path) ++ rest =
      labelled 0 (logEntry encoding label path') ++ rest') : path = path' ∧ rest = rest' := by
  cases path with
  | none =>
    obtain rfl : path' = none := by
      cases path' with
      | none => rfl
      | some t' => cases hlength
    exact ⟨rfl, h⟩
  | some t =>
    cases path' with
    | none => cases hlength
    | some t' =>
      have hcounts : (logEntry encoding label (some t)).map (fun entry => entry.1.count 0) =
          (logEntry encoding label (some t')).map fun entry => entry.1.count 0 := rfl
      obtain ⟨hentries, hrest⟩ := labelled_inj hcounts length_logEntry length_logEntry h
      have hdigest := Digest.asBytes_injective (Prod.mk.inj (cons.inj hentries).1).2
      have htext := bytesOf_injective (hhash t (by simp) t' (by simp) hdigest)
      exact ⟨congrArg some htext, hrest⟩

end

/-! ## Equal keys -/

/-- What both declarations are meant to have in common. -/
structure SameDeclaration (host host' : Host) (prior prior' : Prior)
    (sandboxOverride sandboxOverride' : SandboxMode) (d d' : DeclaredCommand) : Prop where
  argv : d.argv = d'.argv
  env : effectiveEnv host sandboxOverride d = effectiveEnv host' sandboxOverride' d'
  cwd : d.cwd = d'.cwd
  outputs : outputPaths d = outputPaths d'
  stdout : d.stdout = d'.stdout
  stderr : d.stderr = d'.stderr
  argFiles : d.argFiles = d'.argFiles
  cleanPaths : d.cleanPaths = d'.cleanPaths
  createDirs : d.createDirs = d'.createDirs
  toolchainIdentity : d.toolchainIdentity = d'.toolchainIdentity
  inputs : resolvedInputs host prior d = resolvedInputs host' prior' d'

/-- The paths that are set up and the declared inputs are equally many, and one by one they hold the
zero byte equally often. -/
structure CutAlike (d d' : DeclaredCommand) : Prop where
  cleanPaths : d.cleanPaths.map nuls = d'.cleanPaths.map nuls
  createDirs : d.createDirs.map nuls = d'.createDirs.map nuls
  inputs : (sortedTexts d.inputs).map nuls = (sortedTexts d'.inputs).map nuls

/-- What is hashed when a command is prepared and looked up. -/
def hashedTexts (encoding : Encoding) (host : Host) (prior : Prior) (d : DeclaredCommand)
    (c : RunCommand) (resolved : List (Text × Digest)) : List Bytes :=
  [(Action.runCommand c).keyBytes encoding.write,
    inputStream encoding host prior d c.env resolved] ++
    (d.stdout.toList ++ d.stderr.toList).map bytesOf

def writtenTrees (d : DeclaredCommand) (c : RunCommand) : List Json :=
  [(Action.runCommand c).toJson, identities d, argFilesJson d]

/-- JSON texts and hashes tell what was written and hashed for the two commands. -/
structure Distinguishes (encoding : Encoding) (trees : List Json) (texts : List Bytes) : Prop where
  noNul : ∀ tree, 0 ∉ encoding.write tree
  write : ∀ tree ∈ trees, ∀ tree' ∈ trees, encoding.write tree = encoding.write tree' → tree = tree'
  hash : ∀ text ∈ texts, ∀ text' ∈ texts, encoding.hash text = encoding.hash text' → text = text'

section

variable {encoding : Encoding} {host host' : Host} {prior prior' : Prior}
  {sandboxOverride sandboxOverride' : SandboxMode} {d d' : DeclaredCommand} {c c' : RunCommand}
  {resolved resolved' : List (Text × Digest)}

/-- What equal keys leave open. -/
structure Matched (host host' : Host) (prior prior' : Prior)
    (sandboxOverride sandboxOverride' : SandboxMode) (d d' : DeclaredCommand)
    (resolved resolved' : List (Text × Digest)) : Prop where
  argv : d.argv = d'.argv
  env : effectiveEnv host sandboxOverride d = effectiveEnv host' sandboxOverride' d'
  outputs : outputPaths d = outputPaths d'
  stdout : d.stdout = d'.stdout
  stderr : d.stderr = d'.stderr
  argFiles : d.argFiles = d'.argFiles
  toolchainIdentity : d.toolchainIdentity = d'.toolchainIdentity
  cwd : d.cwd.toList.map nuls = d'.cwd.toList.map nuls
  tail : labelled 0 (setupEntries d ++ keyedEntries resolved ++ keyedEntries (depEntries prior)) =
    labelled 0 (setupEntries d' ++ keyedEntries resolved' ++ keyedEntries (depEntries prior'))

lemma matched_of_keys
    (hd : PreparedFrom encoding host prior sandboxOverride d c resolved)
    (hd' : PreparedFrom encoding host' prior' sandboxOverride' d' c' resolved')
    (hencoding : Distinguishes encoding (writtenTrees d c ++ writtenTrees d' c')
      (hashedTexts encoding host prior d c resolved ++
        hashedTexts encoding host' prior' d' c' resolved'))
    (hkey : keyOf encoding c = keyOf encoding c') :
    Matched host host' prior prior' sandboxOverride sandboxOverride' d d' resolved resolved' := by
  have hcommand : c = c' := by
    have hbytes := hencoding.hash _ (by simp [hashedTexts]) _ (by simp [hashedTexts]) hkey
    have haction := Core.Action.eq_of_keyBytes
      (hencoding.write _ (by simp [writtenTrees]) _ (by simp [writtenTrees])) hbytes
    exact Action.runCommand.inj haction
  subst hcommand
  have hstream : inputStream encoding host prior d c.env resolved =
      inputStream encoding host' prior' d' c.env resolved' := by
    refine hencoding.hash _ (by simp [hashedTexts]) _ (by simp [hashedTexts]) ?_
    exact Option.some.inj (hd.digest.symm.trans hd'.digest)
  have hargv : d.argv = d'.argv := hd.argv.symm.trans hd'.argv
  -- the stream is cut piece by piece
  have h := append_cancel_left hstream
  obtain ⟨hidentities, h⟩ := json_cut hencoding.noNul h
  have h := argv_cut hargv h
  have hlogs : ∀ t ∈ d.stdout.toList ++ d.stderr.toList,
    ∀ t' ∈ d'.stdout.toList ++ d'.stderr.toList,
      encoding.hash (bytesOf t) = encoding.hash (bytesOf t') → bytesOf t = bytesOf t' :=
    fun t ht t' ht' => hencoding.hash _
      (mem_append_left _ (mem_append_right _ (mem_map_of_mem ht))) _
      (mem_append_right _ (mem_append_right _ (mem_map_of_mem ht')))
  obtain ⟨hstdout, h⟩ := log_cut (length_optionalPath hd.stdout hd'.stdout)
    (fun t ht t' ht' => hlogs t (mem_append_left _ ht) t' (mem_append_left _ ht')) h
  obtain ⟨hstderr, h⟩ := log_cut (length_optionalPath hd.stderr hd'.stderr)
    (fun t ht t' ht' => hlogs t (mem_append_right _ ht) t' (mem_append_right _ ht')) h
  obtain ⟨hargFiles, h⟩ := json_cut hencoding.noNul h
  have h := env_cut h
  exact
    { argv := hargv
      env := hd.env.trans hd'.env.symm
      outputs := hd.outputs.trans hd'.outputs.symm
      stdout := hstdout
      stderr := hstderr
      argFiles := argFilesJson_injective
        (hencoding.write _ (by simp [writtenTrees]) _ (by simp [writtenTrees]) hargFiles)
      toolchainIdentity := identities_injective
        (hencoding.write _ (by simp [writtenTrees]) _ (by simp [writtenTrees]) hidentities)
      cwd := nuls_optionalPath hd.cwd hd'.cwd
      tail := h }

lemma taggedEntries_injective {tag : String} {paths paths' : List Text}
    (h : taggedEntries tag paths = taggedEntries tag paths') : paths = paths' :=
  map_injective_iff.mpr (fun _ _ heq => bytesOf_injective (Prod.mk.inj heq).2) h

variable {entries : List (Text × Digest)}

variable {entries' : List (Text × Digest)}

lemma keyedEntries_injective (h : keyedEntries entries = keyedEntries entries') :
    entries = entries' := by
  refine map_injective_iff.mpr (fun entry entry' heq => ?_) h
  obtain ⟨hlabel, hdigest⟩ := Prod.mk.inj heq
  exact Prod.ext (bytesOf_injective hlabel) (Digest.asBytes_injective hdigest)

lemma tagged_cut {tag : String} {paths paths' : List Text}
    (hnuls : paths.map nuls = paths'.map nuls)
    (h : labelled 0 (taggedEntries tag paths) ++ rest =
      labelled 0 (taggedEntries tag paths') ++ rest') : paths = paths' ∧ rest = rest' := by
  have hcounts : ∀ paths, (piecesOf (taggedEntries tag paths)).map (count 0) =
      (paths.map nuls).flatMap fun n => [nuls tag.toList, n] := by
    intro paths
    simp only [piecesOf, taggedEntries, map_flatMap, flatMap_map, map_cons, map_nil, count_bytesOf]
  rw [labelled_eq_terminated, labelled_eq_terminated] at h
  obtain ⟨hpieces, hrest⟩ := terminated_inj (by rw [hcounts, hcounts, hnuls]) h
  exact ⟨taggedEntries_injective (piecesOf_injective hpieces), hrest⟩

lemma length_keyedEntries : ∀ entry ∈ keyedEntries entries, entry.2.length = 32 := by
  intro entry hentry
  obtain ⟨keyed, -, rfl⟩ := mem_map.mp hentry
  exact Digest.length_asBytes _

lemma keyed_cut (hnuls : (entries.map Prod.fst).map nuls = (entries'.map Prod.fst).map nuls)
    (h : labelled 0 (keyedEntries entries) ++ rest = labelled 0 (keyedEntries entries') ++ rest') :
    entries = entries' ∧ rest = rest' := by
  have hcounts : ∀ entries, (keyedEntries entries).map (fun entry => entry.1.count 0) =
      (entries.map Prod.fst).map nuls := by
    intro entries
    simp only [keyedEntries, map_map, Function.comp_def, count_bytesOf]
  obtain ⟨hentries, hrest⟩ := labelled_inj (by rw [hcounts, hcounts, hnuls])
    length_keyedEntries length_keyedEntries h
  exact ⟨keyedEntries_injective hentries, hrest⟩

lemma toList_injective {a b : Option Text} (h : a.toList = b.toList) : a = b := by
  have hhead := congrArg head? h
  rwa [Option.head?_toList, Option.head?_toList] at hhead

lemma sameDeclaration_of_cutAlike
    (hd : PreparedFrom encoding host prior sandboxOverride d c resolved)
    (hd' : PreparedFrom encoding host' prior' sandboxOverride' d' c' resolved')
    (hmatched : Matched host host' prior prior' sandboxOverride sandboxOverride' d d'
      resolved resolved') (hcut : CutAlike d d') :
    SameDeclaration host host' prior prior' sandboxOverride sandboxOverride' d d' := by
  have h := hmatched.tail
  simp only [setupEntries, labelled_append, append_assoc] at h
  obtain ⟨hclean, h⟩ := tagged_cut hcut.cleanPaths h
  obtain ⟨hcreate, h⟩ := tagged_cut hcut.createDirs h
  obtain ⟨hcwd, h⟩ := tagged_cut hmatched.cwd h
  have hnuls : (resolved.map Prod.fst).map nuls = (resolved'.map Prod.fst).map nuls := by
    rw [fst_resolvedInputs hd.inputs, fst_resolvedInputs hd'.inputs]
    exact hcut.inputs
  obtain ⟨hinputs, -⟩ := keyed_cut hnuls h
  exact
    { argv := hmatched.argv
      env := hmatched.env
      cwd := toList_injective hcwd
      outputs := hmatched.outputs
      stdout := hmatched.stdout
      stderr := hmatched.stderr
      argFiles := hmatched.argFiles
      cleanPaths := hclean
      createDirs := hcreate
      toolchainIdentity := hmatched.toolchainIdentity
      inputs := by rw [hd.inputs, hd'.inputs, hinputs] }

lemma cutAlike_of_sameDeclaration
    (hd : PreparedFrom encoding host prior sandboxOverride d c resolved)
    (hd' : PreparedFrom encoding host' prior' sandboxOverride' d' c' resolved')
    (h : SameDeclaration host host' prior prior' sandboxOverride sandboxOverride' d d') :
    CutAlike d d' where
  cleanPaths := by rw [h.cleanPaths]
  createDirs := by rw [h.createDirs]
  inputs := by
    have hresolved : resolved = resolved' :=
      Except.ok.inj (hd.inputs.symm.trans (h.inputs.trans hd'.inputs))
    rw [← fst_resolvedInputs hd.inputs, ← fst_resolvedInputs hd'.inputs, hresolved]

end

end OnceBuild.Preparation
