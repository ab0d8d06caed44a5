import OnceBuild.Remote.InputNodes

/-!
# The declared tree

What the input root is for: the inputs and everything below them that lies under no cleaned path,
the restored inputs and everything below them, the set-up directories, and the directories above all
these.  The two passes and the set-up directories leave exactly that in the map of directories.
-/

namespace OnceBuild.Remote

open Lib
open OnceBuild.Core (Place Disk WorkspacePath names)
open Cas (Bytes)

/-- What the input root has at a path. -/
inductive Entry where
  | dir
  | file (content : Bytes) (executable : Bool)
  | link (target : OsPath)
  deriving DecidableEq

def entryOf : Core.Node → Option Entry
  | .dir _ => some .dir
  | .file data => some (.file data.content (executable data.mode))
  | .link target => some (.link target)
  | .special => none

/-- The path is at or below an input and under no cleaned path, or at or below a restored one. -/
def Kept (layout : Layout) (p : Place) : Prop :=
  ((∃ input ∈ layout.inputs, names input <+: p) ∧ ¬∃ clean ∈ layout.cleanPaths, names clean <+: p) ∨
    ∃ restored ∈ layout.restoredInputs, names restored <+: p

def setUpPlace (directory : Text) : Place := namesOf (components (utf8Encode directory))

inductive Declared (ws : Disk) (layout : Layout) : Place → Entry → Prop where
  | root : Declared ws layout [] .dir
  | kept {p : Place} {node : Core.Node} {entry : Entry} : Kept layout p → ws.get p = some node →
      entryOf node = some entry → Declared ws layout p entry
  | setUp {directory : Text} : directory ∈ layout.directories →
      Declared ws layout (setUpPlace directory) .dir
  | above {p q : Place} {entry : Entry} : Declared ws layout q entry → p <+: q → p ≠ q →
      Declared ws layout p .dir

variable {layout : Layout} {entry : Entry}

lemma Declared.kept_of_ne_dir {ws : Disk} {p : Place} (h : Declared ws layout p entry)
    (hne : entry ≠ .dir) :
    Kept layout p ∧ ∃ node, ws.get p = some node ∧ entryOf node = some entry := by
  cases h with
  | root | setUp _ | above _ _ _ => exact absurd rfl hne
  | kept hkept hget hentry => exact ⟨hkept, _, hget, hentry⟩

/-! ## The passes -/

variable {codec : Codec} {ws : Disk} {workspace : OsPath} {limits : RemoteIoLimits}

variable {A S : List Text → Prop} {state : TreeState}

lemma Filled.congr {A' S' : List Text → Prop} (h : Filled codec ws A S state)
    (hA : ∀ q, A q ↔ A' q) (hS : ∀ q, S q ↔ S' q) : Filled codec ws A' S' state := by
  have heq : A = A' := funext fun q => propext (hA q)
  have heq' : S = S' := funext fun q => propext (hS q)
  exact heq ▸ heq' ▸ h

variable {state' : TreeState}

lemma Filled.addEntries (hrooted : Rooted ws) {roots : List Place} {entries : List Place}
    (h : Filled codec ws A S state)
    (hadd : entries.foldlM (Remote.addEntry codec ws roots) state = .ok state') :
    (∀ relative ∈ entries, ∃ path, relative = place path) ∧
      Filled codec ws (fun q => A q ∨ place q ∈ entries) S state' := by
  induction entries generalizing A state with
  | nil =>
    cases hadd
    exact ⟨fun _ hmem => absurd hmem List.not_mem_nil, h.congr (by simp) fun _ => Iff.rfl⟩
  | cons relative entries ih =>
    obtain ⟨next, hnext, hrest⟩ := bind_eq_ok.mp hadd
    obtain ⟨path, hpath, hfilled⟩ := h.addEntry hrooted hnext
    obtain ⟨htexts, hfilled⟩ := ih hfilled hrest
    subst hpath
    refine ⟨List.forall_mem_cons.mpr ⟨⟨path, rfl⟩, htexts⟩, hfilled.congr (fun q => ?_) fun _ =>
      Iff.rfl⟩
    have hplace : q = path ↔ place q = place path := ⟨fun heq => heq ▸ rfl, place_injective⟩
    rw [List.mem_cons, hplace, or_assoc]

def InPass (ws : Disk) (layout : Layout) (inputs : List WorkspacePath) (keepCleaned : Bool)
    (p : Place) : Prop :=
  p ≠ [] ∧ (keepCleaned = false → ¬∃ clean ∈ layout.cleanPaths, names clean <+: p) ∧
    ∃ input ∈ inputs, InputPlan.Below ws (names input) p

variable {inputs : List WorkspacePath} {keepCleaned : Bool}

lemma mem_passEntries {plan : InputPlan} (hrooted : Rooted ws)
    (hplan : InputPlan.collect ws workspace limits inputs = .ok plan) (p : Place) :
    p ∈ passEntries layout keepCleaned plan ↔ InPass ws layout inputs keepCleaned p := by
  rw [passEntries, List.mem_filter, List.mem_mergeSort,
    InputPlan.mem_keys_collect hrooted hplan, and_comm]
  have hcleaned : cleaned layout p = true ↔ ∃ clean ∈ layout.cleanPaths, names clean <+: p := by
    simp [cleaned]
  cases keepCleaned with
  | true => simp [InPass]
  | false =>
    simp only [InPass, ← hcleaned]
    simp [and_assoc]

lemma Filled.addPass (hrooted : Rooted ws) (h : Filled codec ws A S state)
    (hadd : addPass codec ws workspace limits layout inputs keepCleaned state = .ok state') :
    (∀ p, InPass ws layout inputs keepCleaned p → ∃ path, p = place path) ∧
      Filled codec ws (fun q => A q ∨ InPass ws layout inputs keepCleaned (place q)) S state' := by
  obtain ⟨plan, hplan, hadd⟩ := bind_eq_ok.mp hadd
  obtain ⟨htexts, hfilled⟩ := h.addEntries hrooted hadd
  have hmem : ∀ p, p ∈ passEntries layout keepCleaned plan ↔
    InPass ws layout inputs keepCleaned p :=
    mem_passEntries hrooted hplan
  exact ⟨fun p hp => htexts p ((hmem p).mpr hp),
    hfilled.congr (fun q => or_congr Iff.rfl (hmem (place q))) fun _ => Iff.rfl⟩

/-! ## Set-up directories -/

lemma namesOf_normal (path : Place) : namesOf (path.map Component.normal) = path := by
  induction path with
  | nil => rfl
  | cons name path ih => exact congrArg (name :: ·) ih

lemma addSetUp_spec {nodes nodes' : Nodes} {directory : Text} (hok : NodesOk nodes)
    (h : addSetUp nodes directory = .ok nodes') :
    ∃ path, setUpPlace directory = place path ∧ Ensured nodes nodes' [] path := by
  obtain ⟨path, hparts, hensured⟩ := ensureFrom_spec h hok hok.root
  refine ⟨path, ?_, hensured⟩
  rw [setUpPlace, hparts, namesOf_normal]

lemma Filled.addSetUps {directories : List Text} {nodes : Nodes} (h : Filled codec ws A S state)
    (hadd : directories.foldlM Remote.addSetUp state.nodes = .ok nodes) :
    (∀ directory ∈ directories, ∃ path, setUpPlace directory = place path) ∧
      Filled codec ws A (fun q => S q ∨ ∃ directory ∈ directories, setUpPlace directory = place q)
        { state with nodes := nodes } := by
  induction directories generalizing S state with
  | nil =>
    cases hadd
    exact ⟨fun _ hmem => absurd hmem List.not_mem_nil, h.congr (fun _ => Iff.rfl) (by simp)⟩
  | cons directory directories ih =>
    obtain ⟨next, hnext, hrest⟩ := bind_eq_ok.mp hadd
    obtain ⟨path, hpath, hensured⟩ := addSetUp_spec h.ok hnext
    obtain ⟨htexts, hfilled⟩ := ih (h.addSetUp hensured) hrest
    refine ⟨List.forall_mem_cons.mpr ⟨⟨path, hpath⟩, htexts⟩, hfilled.congr (fun _ => Iff.rfl)
      fun q => ?_⟩
    have hplace : q = path ↔ setUpPlace directory = place q :=
      ⟨fun heq => heq ▸ hpath, fun heq => place_injective (heq.symm.trans hpath)⟩
    rw [hplace]
    simp [or_assoc]

/-! ## The whole collection -/

def Added (ws : Disk) (layout : Layout) (path : List Text) : Prop :=
  place path ≠ [] ∧ Kept layout (place path) ∧ ws.get (place path) ≠ none

def SetUp (layout : Layout) (path : List Text) : Prop :=
  ∃ directory ∈ layout.directories, setUpPlace directory = place path

lemma added_concat {p : List Text} {name : Text} (hkept : Kept layout (place (p ++ [name])))
    (hget : ws.get (place (p ++ [name])) ≠ none) : Added ws layout (p ++ [name]) :=
  ⟨by simp [place], hkept, hget⟩

lemma inPass_or_iff (p : Place) :
    (InPass ws layout layout.inputs false p ∨ InPass ws layout layout.restoredInputs true p) ↔
      p ≠ [] ∧ Kept layout p ∧ ws.get p ≠ none := by
  constructor
  · rintro (⟨hne, hclean, input, hinput, hbelow⟩ | ⟨hne, -, input, hinput, hbelow⟩)
    · exact ⟨hne, .inl ⟨⟨input, hinput, hbelow.1⟩, hclean rfl⟩, hbelow.2⟩
    · exact ⟨hne, .inr ⟨input, hinput, hbelow.1⟩, hbelow.2⟩
  · rintro ⟨hne, ⟨⟨input, hinput, hle⟩, hclean⟩ | ⟨input, hinput, hle⟩, hget⟩
    · exact .inl ⟨hne, fun _ => hclean, input, hinput, hle, hget⟩
    · exact .inr ⟨hne, nofun, input, hinput, hle, hget⟩

/-- What `collectNodes` leaves. -/
structure Collected (codec : Codec) (ws : Disk) (layout : Layout) (state : TreeState) : Prop where
  filled : Filled codec ws (Added ws layout) (SetUp layout) state
  keptTexts : ∀ p, p ≠ [] → Kept layout p → ws.get p ≠ none → ∃ path, p = place path
  setUpTexts : ∀ directory ∈ layout.directories, ∃ path, setUpPlace directory = place path

lemma collectNodes_spec (hrooted : Rooted ws)
    (h : collectNodes codec ws workspace limits layout = .ok state) :
    Collected codec ws layout state := by
  obtain ⟨first, hfirst, h⟩ := bind_eq_ok.mp h
  obtain ⟨second, hsecond, h⟩ := bind_eq_ok.mp h
  obtain ⟨nodes, hnodes, hstate⟩ := bind_eq_ok.mp h
  cases hstate
  obtain ⟨htexts, hfilled⟩ := filled_empty.addPass hrooted hfirst
  obtain ⟨htexts', hfilled'⟩ := hfilled.addPass hrooted hsecond
  obtain ⟨hsetUps, hfilled''⟩ := hfilled'.addSetUps hnodes
  refine ⟨hfilled''.congr (fun q => ?_) fun q => ?_, fun p hne hkept hget => ?_, hsetUps⟩
  · rw [false_or]
    exact inPass_or_iff (place q)
  · rw [false_or]
    rfl
  · rcases (inPass_or_iff p).mpr ⟨hne, hkept, hget⟩ with hpass | hpass
    · exact htexts p hpass
    · exact htexts' p hpass

/-! ## The map has the declared tree -/

section declared

variable {layout : Layout} {state : TreeState} (h : Collected codec ws layout state)
  (hrooted : Rooted ws)
include h

lemma Collected.texts {p : Place} (hp : Declared ws layout p entry) : ∃ path, p = place path := by
  induction hp with
  | root => exact ⟨[], rfl⟩
  | @kept p node entry hkept hget _ =>
    by_cases hne : p = []
    · exact ⟨[], hne⟩
    · exact h.keptTexts p hne hkept (hget ▸ Option.some_ne_none _)
  | setUp hmem => exact h.setUpTexts _ hmem
  | @above p q entry _ hle _ ih =>
    obtain ⟨path, rfl⟩ := ih
    exact ⟨path.take p.length, (List.prefix_iff_eq_take.mp hle).trans List.map_take.symm⟩

lemma Collected.covered_of_declared {q : Place} (hq : Declared ws layout q entry)
    {path : List Text} (hle : place path <+: q) (hdir : place path ≠ q ∨ entry = .dir) :
    Covered ws (Added ws layout) (SetUp layout) path := by
  induction hq generalizing path with
  | root => exact .inl (place_injective (List.prefix_nil.mp hle))
  | @kept q node entry hkept hget hentry =>
    by_cases hne : q = []
    · rw [hne] at hle
      exact .inl (place_injective (List.prefix_nil.mp hle))
    · obtain ⟨t, rfl⟩ := h.keptTexts q hne hkept (hget ▸ Option.some_ne_none _)
      have hadded : Added ws layout t := ⟨hne, hkept, hget ▸ Option.some_ne_none _⟩
      refine .inr (.inl ⟨t, hadded, place_isPrefix_iff.mp hle, ?_⟩)
      rcases hdir with hproper | rfl
      · exact .inl fun heq => hproper (heq ▸ rfl)
      · -- only a directory of the workspace gives a directory
        cases node with
        | dir data => exact .inr ⟨data, hget⟩
        | file data | link target | special => cases hentry
  | @setUp directory hmem =>
    obtain ⟨t, ht⟩ := h.setUpTexts directory hmem
    rw [ht] at hle
    exact .inr (.inr ⟨t, ⟨directory, hmem, ht⟩, place_isPrefix_iff.mp hle⟩)
  | @above p q entry _ hpq hne ih =>
    refine ih (hle.trans hpq) (.inl fun heq => hne ?_)
    exact hpq.eq_of_length_le (heq ▸ hle.length_le)

lemma Collected.declared_of_added {path : List Text} (hadded : Added ws layout path) :
    ∃ entry, Declared ws layout (place path) entry ∧ (entry = .dir → DirOf ws path) := by
  have hkept := hadded.2.1
  rcases h.filled.kinds path hadded with ⟨data, hdata⟩ | ⟨value, data, hdata, -⟩ | ⟨target, hlink⟩
  · exact ⟨.dir, .kept hkept hdata rfl, fun _ => ⟨data, hdata⟩⟩
  · exact ⟨_, .kept hkept hdata rfl, nofun⟩
  · exact ⟨_, .kept hkept hlink rfl, nofun⟩

lemma Collected.get_iff (path : List Text) :
    state.nodes.get path ≠ none ↔ Declared ws layout (place path) .dir := by
  rw [h.filled.dirs path]
  constructor
  · rintro (rfl | ⟨q, hq, hle, hdir⟩ | ⟨q, ⟨directory, hmem, hplace⟩, hle⟩)
    · exact .root
    · by_cases heq : path = q
      case pos =>
        subst heq
        obtain ⟨data, hdata⟩ := hdir.resolve_left fun hne => hne rfl
        exact .kept hq.2.1 hdata rfl
      case neg =>
        obtain ⟨entry, hentry, -⟩ := h.declared_of_added hq
        exact .above hentry (place_isPrefix_iff.mpr hle) fun hplace => heq (place_injective hplace)
    · by_cases heq : path = q
      case pos =>
        subst heq
        exact hplace ▸ .setUp hmem
      case neg =>
        have hsetUp : Declared ws layout (place q) .dir := hplace ▸ .setUp hmem
        exact .above hsetUp (place_isPrefix_iff.mpr hle) fun hplace => heq (place_injective hplace)
  · exact fun hdeclared => h.covered_of_declared hdeclared List.prefix_rfl (.inr rfl)

lemma Collected.file_iff (p : List Text) (name : Text) (content : Bytes) (exec : Bool) :
    Declared ws layout (place (p ++ [name])) (.file content exec) ↔
      ∃ digest, (node state.nodes p).files.get name = some (digest, exec) ∧
        digestOf codec content = some digest ∧
        ∃ data, ws.get (place (p ++ [name])) = some (.file data) ∧ data.content = content := by
  constructor
  · intro hdeclared
    obtain ⟨hkept, found, hget, hentry⟩ := hdeclared.kept_of_ne_dir nofun
    have hadded := added_concat hkept (hget ▸ Option.some_ne_none _)
    cases found with
    | file data =>
      cases hentry
      rcases h.filled.kinds _ hadded with ⟨_, hdata⟩ | ⟨value, hvalue⟩ | ⟨_, hlink⟩
      · cases hget.symm.trans hdata
      · obtain ⟨data', hdata', hdigest, hmode⟩ := hvalue
        cases hget.symm.trans hdata'
        refine ⟨value.1, ?_, hdigest, data, hget, rfl⟩
        exact (h.filled.files p name _).mpr ⟨hadded, data, hget, hdigest, rfl⟩
      · cases hget.symm.trans hlink
    | dir data | link target | special => cases hentry
  · rintro ⟨digest, hfile, hdigest, data, hget, rfl⟩
    obtain ⟨hadded, data', hdata', -, hmode⟩ := (h.filled.files p name _).mp hfile
    cases hget.symm.trans hdata'
    exact .kept hadded.2.1 hget (by rw [entryOf, hmode])

lemma Collected.link_iff (p : List Text) (name : Text) (target : OsPath) :
    Declared ws layout (place (p ++ [name])) (.link target) ↔
      ∃ text, (node state.nodes p).symlinks.get name = some text ∧ target = utf8Encode text := by
  constructor
  · intro hdeclared
    obtain ⟨hkept, found, hget, hentry⟩ := hdeclared.kept_of_ne_dir nofun
    have hadded := added_concat hkept (hget ▸ Option.some_ne_none _)
    cases found with
    | link text =>
      cases hentry
      rcases h.filled.kinds _ hadded with ⟨_, hdata⟩ | ⟨_, _, hdata, -⟩ | ⟨text, hlink⟩
      · cases hget.symm.trans hdata
      · cases hget.symm.trans hdata
      · refine ⟨text, (h.filled.symlinks p name text).mpr ⟨hadded, hlink⟩, ?_⟩
        exact DiskNode.link.inj (Option.some.inj (hget.symm.trans hlink))
    | dir data | file data | special => cases hentry
  · rintro ⟨text, hlink, rfl⟩
    obtain ⟨hadded, hlink⟩ := (h.filled.symlinks p name text).mp hlink
    exact .kept hadded.2.1 hlink rfl

end declared

end OnceBuild.Remote
