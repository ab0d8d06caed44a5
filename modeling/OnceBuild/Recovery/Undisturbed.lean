import OnceBuild.Recovery.Rerun

/-!
# What recovering lost outputs leaves alone

A restore that runs producers again restores the inputs they were recorded with, and their setup and
command write below the workspace again.  Which producers may run follows from the cache and the
workspace that the restore finds: a version has to be recovered when the cache does not hold it and
it is not in place, or when it is in place and something that happens before may change it.

What is at a place that no such step changes is still there in the end.  A producer whose outputs
come out different fails the restore, so a place at or below one of its outputs ends as recorded,
whatever happened to it before.
-/

namespace OnceBuild.Recovery

open Lib List FileOp
open Actions (Path DeclaredAction located pathsOverlap)
open Cas (Digest)

variable {α : Type}

namespace Registry

variable (reg : Registry α)

/-! ## What a path holds -/

/-- The workspace has the content of `v` at its path. -/
def Holds (v : Version) (t : FileTree Text α) : Prop := ∀ z, t (v.1 ++ z) = reg.blob v.2 z

/-- Digests have no collisions: what matches a digest is what its blob unpacks to. -/
def Faithful : Prop := ∀ d tree, reg.holds d tree = true → tree = reg.blob d

/-- The command keeps to the producer's inputs, outputs and logs. -/
def Bounded (recipe : Recipe α) : Prop := recipe.command.Uses recipe.declared.commandScope.Allows

/-! ## What changes a place -/

/-- Putting `u` in place keeps `x` at `y`. -/
def Leaves (u : Version) (y : Path) (x : Option (Node α)) : Prop :=
  (u.1 <+: y → reg.blob u.2 (y.drop u.1.length) = x) ∧ (x = none → ¬ y <+: u.1)

/-- What the producer restores, cleans, creates and writes keeps `x` at `y`. -/
structure Spares (recipe : Recipe α) (y : Path) (x : Option (Node α)) : Prop where
  inputs : ∀ u ∈ recipe.inputs, reg.Leaves u y x
  writes : ∀ w ∈ recipe.declared.writes, ¬ located w <+: y
  /-- Directories are created only where nothing is. -/
  dirs : x = none → ∀ p ∈ recipe.declared.writes ++ recipe.declared.createDirs, ¬ y <+: located p

/-- One of the outputs that the producer recorded has `x` at `y`. -/
def Records (recipe : Recipe α) (y : Path) (x : Option (Node α)) : Prop :=
  ∃ u ∈ recipe.outputs, u.1 <+: y ∧ reg.blob u.2 (y.drop u.1.length) = x

section Recovery

variable (ledger : Ledger) (t : FileTree Text α) (request : List Version)

/-- The producer of `u`, which has not been run again before. -/
def Recovers (u : Version) (recipe : Recipe α) : Prop :=
  reg.producerOf u = some recipe ∧ ledger.answers recipe.action = none

mutual

/-- Versions that the restore of `request` may find neither in the cache nor in place. -/
inductive Lost : Version → Prop
  | absent {u : Version} : ledger.held u.2 = false →
      reg.holds u.2 (fun z => t (u.1 ++ z)) = false → Lost u
  | disturbed {u : Version} {y : Path} : ledger.held u.2 = false → u.1 <+: y → Disturbed y → Lost u

/-- Places that may change on the way. -/
inductive Disturbed : Path → Prop
  | requested {u : Version} {y : Path} : u ∈ request → ¬ reg.Leaves u y (t y) → Disturbed y
  | rerun {recipe : Recipe α} {y : Path} : MayRun recipe → ¬ reg.Spares recipe y (t y) → Disturbed y

/-- Producers that may be run again. -/
inductive MayRun : Recipe α → Prop
  | requested {u : Version} {recipe : Recipe α} : u ∈ request → Lost u →
      reg.Recovers ledger u recipe → MayRun recipe
  | input {u : Version} {recipe consumer : Recipe α} : MayRun consumer → u ∈ consumer.inputs →
      Lost u → reg.Recovers ledger u recipe → MayRun recipe

end

/-- Producers of which the effect at `y` may last.  What is done for a producer that recorded what
is at `y` does not matter, since that producer puts it there. -/
inductive Needed (y : Path) : Recipe α → Prop
  | requested {u : Version} {recipe : Recipe α} : u ∈ request → Lost reg ledger t request u →
      reg.Recovers ledger u recipe → Needed y recipe
  | input {u : Version} {recipe consumer : Recipe α} : Needed y consumer →
      ¬ reg.Records consumer y (t y) → u ∈ consumer.inputs → Lost reg ledger t request u →
      reg.Recovers ledger u recipe → Needed y recipe

end Recovery

/-! ## Restoring -/

variable {reg} {u v : Version} {outputs : List Version} {t : FileTree Text α}

lemma run_isThere (t : FileTree Text α) (v : Version) :
    (reg.isThere v).run apply t = (t, reg.holds v.2 fun y => t (v.1 ++ y)) := by
  have hsame : changed (.check v.1 (reg.holds v.2)) t = t := by
    funext y
    simp [changed, replaces, adds]
  simp only [isThere, run_bind, run_perform, Program.pure_eq, run_done, apply,
    fits, if_true, answer, hsame]
  cases reg.holds v.2 fun y => t (v.1 ++ y) <;> rfl

lemma triple_isThere (P : FileTree Text α → Prop) (hreg : reg.Faithful) (u : Version) :
    Triple apply P (reg.isThere u) fun there t => P t ∧ (there = true → reg.Holds u t) := by
  intro t ht
  rw [run_isThere]
  exact ⟨ht, fun hthere z => congrFun (hreg u.2 _ hthere) z⟩

lemma triple_outputsNeedingRestore (P : FileTree Text α → Prop) (hreg : reg.Faithful)
    (outputs : List Version) :
    Triple apply P (reg.outputsNeedingRestore outputs) fun needed t =>
      P t ∧ ∀ u ∈ needed, u ∈ outputs := by
  have hstale : ∀ outputs, Triple apply P (reg.staleOutputs outputs) fun _ => P := by
    intro outputs
    induction outputs with
    | nil => exact triple_done fun t ht => ht
    | cons u outputs ih =>
      refine triple_bind (triple_isThere P hreg u) fun there => ?_
      exact triple_bind (ih.mono (fun t ht => ht.1) fun _ _ h => h) fun stale =>
        triple_done fun t ht => ht
  refine triple_bind (hstale outputs) fun stale => triple_done fun t ht => ⟨ht, fun u hu => ?_⟩
  exact (mem_filter.mp hu).1

section Tracking

/-- The places of `K` hold what they held in `t₀`. -/
def Tracks (K : Path → Prop) (t₀ t : FileTree Text α) : Prop := ∀ y, K y → t y = t₀ y

variable {K : Path → Prop} {t₀ : FileTree Text α}

lemma tracks_place (h : ∀ y, K y → reg.Leaves u y (t₀ y)) (ht : Tracks K t₀ t) :
    Tracks K t₀ (apply (.place u.1 (reg.blob u.2)) t).1 := by
  intro y hy
  simp only [apply]
  split
  · simp only [changed, replaces, puts, adds, isPrefixOf_iff_prefix, Bool.and_eq_true,
      Option.isNone_iff_eq_none, ht y hy]
    split_ifs with hunder habove
    · exact (h y hy).1 hunder
    · exact absurd habove.1 ((h y hy).2 habove.2)
    · rfl
  · exact ht y hy

lemma triple_commit (hreg : reg.Faithful) (h : ∀ u ∈ outputs, ∀ y, K y → reg.Leaves u y (t₀ y)) :
    Triple apply (Tracks K t₀) (reg.commit outputs) fun _ => Tracks K t₀ := by
  induction outputs with
  | nil => exact triple_done fun t ht => ht
  | cons u outputs ih =>
    have hrest := ih fun w hw => h w (mem_cons_of_mem _ hw)
    refine triple_bind (triple_isThere _ hreg u) fun there => ?_
    cases there with
    | true => exact hrest.mono (fun t ht => ht.1) fun _ _ ht => ht
    | false =>
      refine triple_perform (I := fun _ => Tracks K t₀)
        (fun t ht => tracks_place (h u mem_cons_self) ht.1) fun answer => ?_
      split
      · exact hrest
      · exact triple_done fun t ht => ht

lemma triple_restoreAttempt (hreg : reg.Faithful)
    (h : ∀ u ∈ outputs, ∀ y, K y → reg.Leaves u y (t₀ y)) (ledger : Ledger) :
    Triple apply (Tracks K t₀) (reg.restoreAttempt ledger outputs) fun _ => Tracks K t₀ := by
  refine triple_bind (triple_outputsNeedingRestore _ hreg outputs) fun needed => ?_
  split
  · intro t ht
    have hcommit := triple_bind (triple_commit hreg fun u hu => h u (ht.2 u hu))
      (f := fun placed => (pure (if placed then .restored else .failed) : Work α Attempt))
      (Q := fun _ => Tracks K t₀) fun placed => triple_done fun t ht => ht
    exact hcommit t ht.1
  · exact triple_done fun t ht => ht.1

end Tracking

/-- A version is missing only when the cache does not hold it and it is not in place. -/
lemma missing_restoreAttempt {ledger : Ledger}
    (h : ((reg.restoreAttempt ledger [u]).run apply t).2 = .missing) :
    ((reg.restoreAttempt ledger [u]).run apply t).1 = t ∧ ledger.held u.2 = false ∧
      reg.holds u.2 (fun z => t (u.1 ++ z)) = false := by
  have hplaced : ∀ placed : Bool, (if placed then Attempt.restored else .failed) ≠ .missing := by
    decide
  cases hthere : reg.holds u.2 fun z => t (u.1 ++ z) <;> cases hheld : ledger.held u.2 <;>
    simp [restoreAttempt, outputsNeedingRestore, staleOutputs, run_isThere, hthere, hheld,
      hplaced] at h ⊢

/-! ## Running a producer again -/

section Execute

variable {recipe : Recipe α} {K : Path → Prop} {t₀ : FileTree Text α}

lemma tracks_apply (h : ∀ y, K y → reg.Spares recipe y (t₀ y)) {o : FileOp Text α}
    (ho : recipe.declared.scope.Allows o) (ht : Tracks K t₀ t) : Tracks K t₀ (o.apply t).1 := by
  intro y hy
  have hspares := h y hy
  have hreplaces : o.replaces y = false := by
    by_contra hr
    obtain ⟨_, hmem, hwy⟩ := ho.of_replaces (Bool.not_eq_false _ ▸ hr)
    obtain ⟨w, hw, rfl⟩ := mem_map.mp hmem
    exact hspares.writes w hw hwy
  have hadds : t₀ y = none → o.adds y = false := by
    intro hnone
    by_contra ha
    rcases ho.near_of_adds (Bool.not_eq_false _ ▸ ha) with ⟨_, hmem, hyd⟩ | ⟨_, hmem, hyw | hwy⟩ <;>
      obtain ⟨w, hw, rfl⟩ := mem_map.mp hmem
    · exact hspares.dirs hnone w (mem_append_right _ hw) hyd
    · exact hspares.dirs hnone w (mem_append_left _ hw) hyw
    · exact hspares.writes w hw hwy
  simp only [apply]
  split
  · rw [← ht y hy] at hadds ⊢
    cases hy' : t y with
    | none => exact (changed_of_clear hreplaces (hadds hy') t).trans hy'
    | some node => simp [changed, hreplaces, hy']
  · exact ht y hy

lemma triple_unchanged (hreg : reg.Faithful) (P : FileTree Text α → Prop)
    (outputs : List Version) :
    Triple apply P (reg.unchanged outputs) fun same t =>
      P t ∧ (same = true → ∀ u ∈ outputs, reg.Holds u t) := by
  induction outputs generalizing P with
  | nil => exact triple_done fun t ht => ⟨ht, fun _ u hu => by cases hu⟩
  | cons u outputs ih =>
    refine triple_bind (triple_isThere P hreg u) fun there => ?_
    cases there with
    | false => exact triple_done fun t ht => ⟨ht.1, fun hok => absurd hok Bool.false_ne_true⟩
    | true =>
      -- the comparisons that follow only read
      refine (ih fun t => P t ∧ (true = true → reg.Holds u t)).mono (fun t ht => ht) ?_
      rintro same t ⟨⟨hP, hu⟩, hrest⟩
      refine ⟨hP, fun hok w hw => ?_⟩
      rcases mem_cons.mp hw with rfl | hw
      · exact hu rfl
      · exact hrest hok w hw

lemma uses_prepare {P : FileOp Text α → Prop} {os : List (FileOp Text α)}
    (hos : ∀ o ∈ os, P o) : (prepare os).Uses P := by
  induction os with
  | nil => trivial
  | cons o os ih =>
    refine ⟨hos o mem_cons_self, fun answer => ?_⟩
    have hrest := ih fun o' ho' => hos o' (mem_cons_of_mem _ ho')
    cases answer with
    | failed => trivial
    | node there | ok => exact hrest

lemma triple_check_root {β : Type} {P : FileTree Text α → Prop} {Q : β → FileTree Text α → Prop}
    {test : FileTree Text α → Bool} {f : FileAnswer α → Work α β}
    (hf : ∀ answer, Triple apply P (f answer) Q) :
    Triple apply P (Program.perform (.check [] test) >>= f) Q := by
  refine triple_perform (fun t ht => ?_) hf
  have hsame : changed (.check [] test) t = t := by
    funext y
    simp [changed, replaces, adds]
  simpa [apply, hsame] using ht

lemma triple_execute (hreg : reg.Faithful) (hbounded : Bounded recipe)
    (h : ∀ y, K y → reg.Spares recipe y (t₀ y)) :
    Triple apply (Tracks K t₀) (reg.execute recipe) fun ok t =>
      Tracks K t₀ t ∧ (ok = true → ∀ u ∈ recipe.outputs, reg.Holds u t) := by
  have hgaveUp : ∀ t, Tracks K t₀ t →
      Tracks K t₀ t ∧ (false = true → ∀ u ∈ recipe.outputs, reg.Holds u t) :=
    fun t ht => ⟨ht, fun hok => absurd hok Bool.false_ne_true⟩
  have hsetup : (prepare (recipe.declared.setup recipe.argFile)).Uses
      (recipe.declared.scope.Allows) :=
    uses_prepare fun o ho => Actions.allows_of_mem_setup ho
  have hcommand : recipe.command.Uses recipe.declared.scope.Allows :=
    hbounded.mono fun _ => Actions.allows_of_command
  have htracks : ∀ {β : Type} {p : Work α β}, p.Uses recipe.declared.scope.Allows →
      Triple apply (Tracks K t₀) p fun _ => Tracks K t₀ :=
    fun hp => triple_of_uses (hp.mono fun _ ho _ => tracks_apply h ho)
  refine triple_bind (htracks hsetup) fun prepared => ?_
  cases prepared with
  | false => exact triple_done hgaveUp
  | true =>
    refine triple_bind (htracks hcommand) fun _ => triple_check_root fun answer => ?_
    split
    · exact triple_unchanged hreg _ _
    · exact triple_done hgaveUp

end Execute

/-! ## The chain of repairs -/

section Chain

/-- What the ledger has come to know since `ledger₀`. -/
structure Grown (ledger₀ ledger : Ledger) : Prop where
  held : ∀ d, ledger₀.held d = true → ledger.held d = true
  answers : ∀ a, ledger.answers a = none → ledger₀.answers a = none

variable {request : List Version} {K : Path → Prop} {t₀ : FileTree Text α}

variable {ledger₀ ledger : Ledger}

/-- A run that reports success has kept the tracked places. -/
abbrev Kept (K : Path → Prop) (t₀ : FileTree Text α) (ledger₀ : Ledger) (r : Bool × Ledger)
    (t : FileTree Text α) : Prop :=
  r.1 = true → Tracks K t₀ t ∧ Grown ledger₀ r.2

lemma triple_gaveUp {P : FileTree Text α → Prop} (ledger : Ledger) :
    Triple apply P (pure (false, ledger) : Work α (Bool × Ledger)) (Kept K t₀ ledger₀) :=
  triple_done fun _ _ hok => absurd hok Bool.false_ne_true

lemma Grown.answered (h : Grown ledger₀ ledger) (action : Digest) (answer : Bool) :
    Grown ledger₀ { ledger with
      answers := Function.update ledger.answers action (some answer) } where
  held := h.held
  answers a ha := by
    by_cases hne : a = action
    · subst hne
      simp at ha
    · exact h.answers a (by simpa [hne] using ha)

lemma lost_of_missing (hK : ∀ y, ¬ Disturbed reg ledger₀ t₀ request y → K y)
    (ht : Tracks K t₀ t) (hgrown : Grown ledger₀ ledger) (hheld : ledger.held u.2 = false)
    (hthere : reg.holds u.2 (fun z => t (u.1 ++ z)) = false) :
    Lost reg ledger₀ t₀ request u := by
  have hheld₀ : ledger₀.held u.2 = false :=
    Bool.eq_false_iff.mpr fun h => Bool.false_ne_true (hheld.symm.trans (hgrown.held _ h))
  by_contra hlost
  have hsame : (fun z => t (u.1 ++ z)) = fun z => t₀ (u.1 ++ z) := by
    funext z
    exact ht _ (hK _ fun hy => hlost (.disturbed hheld₀ (prefix_append _ _) hy))
  exact hlost (.absent hheld₀ (hsame ▸ hthere))

section Again

variable {again : Recipe α → Ledger → Work α (Bool × Ledger)}

section Outputs

variable (hreg : reg.Faithful) (h : ∀ u ∈ outputs, ∀ y, K y → reg.Leaves u y (t₀ y))
  (hK : ∀ y, ¬ Disturbed reg ledger₀ t₀ request y → K y)
  (hagain : ∀ u ∈ outputs, Lost reg ledger₀ t₀ request u → ∀ recipe,
    reg.producerOf u = some recipe → ∀ ledger, Grown ledger₀ ledger →
      Triple apply (Tracks K t₀) (again recipe ledger) (Kept K t₀ ledger₀))
  (hgrown : Grown ledger₀ ledger)
include hreg h hK hagain hgrown

lemma triple_restoreEach :
    Triple apply (Tracks K t₀) (reg.restoreEach again outputs ledger) (Kept K t₀ ledger₀) := by
  induction outputs generalizing ledger with
  | nil => exact triple_done fun t ht _ => ⟨ht, hgrown⟩
  | cons u outputs ih =>
    have hone : ∀ w ∈ [u], ∀ y, K y → reg.Leaves w y (t₀ y) := fun w hw => h w (by simp_all)
    have hrest : ∀ {ledger}, Grown ledger₀ ledger → Triple apply (Tracks K t₀)
        (reg.restoreEach again outputs ledger) (Kept K t₀ ledger₀) :=
      ih (fun w hw => h w (mem_cons_of_mem _ hw)) fun w hw => hagain w (mem_cons_of_mem _ hw)
    have hfirst : Triple apply (Tracks K t₀) (reg.restoreAttempt ledger [u]) fun attempt t =>
        Tracks K t₀ t ∧ (attempt = .missing → Lost reg ledger₀ t₀ request u) := by
      refine fun t ht => ⟨triple_restoreAttempt hreg hone ledger t ht, fun hmissing => ?_⟩
      obtain ⟨-, hheld, hthere⟩ := missing_restoreAttempt hmissing
      exact lost_of_missing hK ht hgrown hheld hthere
    refine triple_bind hfirst fun attempt => ?_
    cases attempt with
    | restored => exact (hrest hgrown).mono (fun t ht => ht.1) fun _ _ ht => ht
    | failed => exact triple_gaveUp ledger
    | missing =>
      dsimp only
      split
      · exact triple_gaveUp ledger
      · rename_i recipe hrecipe
        rintro t ⟨ht, hlost⟩
        refine triple_bind (hagain u mem_cons_self (hlost rfl) recipe hrecipe ledger hgrown) ?_ t ht
        rintro ⟨ok, ledger'⟩
        cases ok with
        | false => exact triple_gaveUp ledger'
        | true =>
          intro t ht
          obtain ⟨ht, hgrown'⟩ := ht rfl
          refine triple_bind (triple_restoreAttempt hreg hone ledger') (fun attempt => ?_) t ht
          cases attempt with
          | restored => exact hrest hgrown'
          | missing | failed => exact triple_gaveUp ledger'

lemma triple_restoreAt :
    Triple apply (Tracks K t₀) (reg.restoreAt again outputs ledger) (Kept K t₀ ledger₀) := by
  refine triple_bind (triple_restoreAttempt hreg h ledger) fun attempt => ?_
  cases attempt with
  | restored => exact triple_done fun t ht _ => ⟨ht, hgrown⟩
  | failed => exact triple_gaveUp ledger
  | missing => exact triple_restoreEach hreg h hK hagain hgrown

end Outputs

variable {recipe : Recipe α}

variable (reg request K t₀ ledger₀ recipe) in
/-- The places that are tracked while the inputs of a producer are restored: not those it recorded,
unless nothing at all may change them. -/
def Inner (y : Path) : Prop :=
  K y ∧ (¬ Disturbed reg ledger₀ t₀ request y ∨ ¬ reg.Records recipe y (t₀ y))

lemma triple_rerun (hreg : reg.Faithful) (hbounded : Bounded recipe)
    (hK : ∀ y, ¬ Disturbed reg ledger₀ t₀ request y → K y)
    (hrun : MayRun reg ledger₀ t₀ request recipe)
    (hgood : ∀ y, K y → ¬ Disturbed reg ledger₀ t₀ request y ∨ reg.Records recipe y (t₀ y) ∨
      reg.Spares recipe y (t₀ y))
    (hagain : ∀ u ∈ recipe.inputs, Lost reg ledger₀ t₀ request u → ∀ producer,
      reg.producerOf u = some producer → ∀ ledger, Grown ledger₀ ledger →
        Triple apply (Tracks (Inner reg request K t₀ ledger₀ recipe) t₀) (again producer ledger)
          (Kept (Inner reg request K t₀ ledger₀ recipe) t₀ ledger₀))
    (hgrown : Grown ledger₀ ledger) :
    Triple apply (Tracks K t₀) (reg.rerun again recipe ledger) (Kept K t₀ ledger₀) := by
  have hspares : ∀ y, Inner reg request K t₀ ledger₀ recipe y → reg.Spares recipe y (t₀ y) := by
    rintro y ⟨hy, hcase⟩
    by_contra hnot
    have hdisturbed : Disturbed reg ledger₀ t₀ request y := .rerun hrun hnot
    rcases hgood y hy with hclear | hrecords | hok
    · exact hclear hdisturbed
    · exact hcase.elim (fun hclear => hclear hdisturbed) fun hnone => hnone hrecords
    · exact hnot hok
  have hinputs : Triple apply (Tracks (Inner reg request K t₀ ledger₀ recipe) t₀)
      (reg.restoreInputs again recipe ledger)
      (Kept (Inner reg request K t₀ ledger₀ recipe) t₀ ledger₀) := by
    simp only [restoreInputs]
    split
    · exact triple_done fun t ht _ => ⟨ht, hgrown⟩
    · exact triple_restoreAt hreg (fun u hu y hy => (hspares y hy).inputs u hu)
        (fun y hy => ⟨hK y hy, .inl hy⟩) hagain hgrown
  refine triple_bind (hinputs.mono (fun t ht y hy => ht y hy.1) fun _ _ h => h) ?_
  rintro ⟨ready, ledger'⟩
  cases ready with
  | false => exact triple_gaveUp ledger'
  | true =>
    intro t ht
    obtain ⟨ht, hgrown'⟩ := ht rfl
    refine triple_bind (triple_execute hreg hbounded hspares) (fun ok => ?_) t ht
    cases ok with
    | false => exact triple_gaveUp ledger'
    | true =>
      refine triple_done fun t ht _ => ⟨fun y hy => ?_, fun d hd => ?_, hgrown'.answers⟩
      · by_cases hrecords : reg.Records recipe y (t₀ y)
        · obtain ⟨u, hu, ⟨z, rfl⟩, hblob⟩ := hrecords
          rw [← hblob, ht.2 rfl u hu z, drop_left]
        · exact ht.1 y ⟨hy, .inr hrecords⟩
      · exact Bool.or_eq_true_iff.mpr (.inl (hgrown'.held d hd))

end Again

variable {recipe : Recipe α}

lemma triple_repair (hreg : reg.Faithful)
    (hbounded : ∀ u recipe, reg.producerOf u = some recipe → Bounded recipe)
    {followed : Path → Prop}
    (hgood : ∀ y, followed y → ∀ recipe, Needed reg ledger₀ t₀ request y recipe →
      reg.Records recipe y (t₀ y) ∨ reg.Spares recipe y (t₀ y))
    (fuel : Nat) (chain : List Digest) (hproducer : reg.producerOf u = some recipe)
    (hK : ∀ y, ¬ Disturbed reg ledger₀ t₀ request y → K y)
    (hrun : reg.Recovers ledger₀ u recipe → MayRun reg ledger₀ t₀ request recipe ∧
      ∀ y, K y → ¬ Disturbed reg ledger₀ t₀ request y ∨
        followed y ∧ Needed reg ledger₀ t₀ request y recipe)
    (hgrown : Grown ledger₀ ledger) :
    Triple apply (Tracks K t₀) (reg.repair fuel chain recipe ledger) (Kept K t₀ ledger₀) := by
  induction fuel generalizing chain u recipe K ledger with
  | zero => exact triple_gaveUp ledger
  | succ fuel ih =>
    simp only [repair]
    split
    · exact triple_gaveUp ledger
    · split
      · exact triple_done fun t ht _ => ⟨ht, hgrown⟩
      · rename_i hanswer
        obtain ⟨hmay, hneeded⟩ := hrun ⟨hproducer, hgrown.answers _ hanswer⟩
        split
        · exact triple_gaveUp _
        · rename_i remaining _
          refine triple_bind (I := Kept K t₀ ledger₀)
            (triple_rerun hreg (hbounded u recipe hproducer) hK hmay (fun y hy => ?_)
              (fun u' hu' hlost producer hproducer' ledger' hgrown' => ?_)
              ⟨hgrown.held, hgrown.answers⟩) ?_
          · exact (hneeded y hy).imp_right fun h => hgood y h.1 recipe h.2
          · refine ih _ hproducer' (fun y hy => ⟨hK y hy, .inl hy⟩)
              (fun hrecovers => ⟨.input hmay hu' hlost hrecovers, fun y hy => ?_⟩) hgrown'
            obtain ⟨hy, hcase⟩ := hy
            by_cases hdisturbed : Disturbed reg ledger₀ t₀ request y
            · obtain ⟨hfollowed, hconsumer⟩ :=
                (hneeded y hy).resolve_left (not_not_intro hdisturbed)
              exact .inr ⟨hfollowed, .input hconsumer
                (hcase.resolve_left (not_not_intro hdisturbed))
                hu' hlost hrecovers⟩
            · exact .inl hdisturbed
          · rintro ⟨ok, ledger'⟩
            exact triple_done fun t ht hok => ⟨(ht hok).1, (ht hok).2.answered _ _⟩

end Chain

section Attempts

variable {ledger : Ledger} {recipe : Recipe α}

lemma run_restoreAttempt_there (h : reg.holds v.2 (fun y => t (v.1 ++ y)) = true) :
    (reg.restoreAttempt ledger [v]).run apply t = (t, .restored) := by
  simp [restoreAttempt, outputsNeedingRestore, staleOutputs, commit, run_isThere, h]

lemma run_restoreAttempt_missing (h : reg.holds v.2 (fun y => t (v.1 ++ y)) = false)
    (hheld : ledger.held v.2 = false) :
    (reg.restoreAttempt ledger [v]).run apply t = (t, .missing) := by
  simp [restoreAttempt, outputsNeedingRestore, staleOutputs, run_isThere, h, hheld]

lemma run_restoreAttempt_placed (h : reg.holds v.2 (fun y => t (v.1 ++ y)) = false)
    (hheld : ledger.held v.2 = true) (hclear : blocked t v.1 = false) :
    (reg.restoreAttempt ledger [v]).run apply t =
      (changed (.place v.1 (reg.blob v.2)) t, .restored) := by
  simp [restoreAttempt, outputsNeedingRestore, staleOutputs, commit, run_isThere, h, hheld, apply,
    fits, answer, hclear, succeeded]

variable {ledger' : Ledger}

lemma run_rerun {again : Recipe α → Ledger → Work α (Bool × Ledger)} {t' t'' : FileTree Text α}
    (hinputs : (reg.restoreInputs again recipe ledger).run apply t = (t', true, ledger'))
    (hexecute : (reg.execute recipe).run apply t' = (t'', true)) :
    (reg.rerun again recipe ledger).run apply t = (t'', true, { ledger' with
        held := fun d => ledger'.held d || recipe.outputs.any fun u => u.2 = d }) := by
  simp [rerun, hinputs, hexecute]

lemma run_repair {fuel remaining : Nat} {chain : List Digest} {t' : FileTree Text α}
    (hchain : recipe.action ∉ chain) (hanswer : ledger.answers recipe.action = none)
    (hleft : ledger.remaining = remaining + 1)
    (hrerun : (reg.rerun (reg.repair fuel (recipe.action :: chain)) recipe
      { ledger with remaining }).run apply t = (t', true, ledger')) :
    (reg.repair (fuel + 1) chain recipe ledger).run apply t = (t', true, { ledger' with
        answers := Function.update ledger'.answers recipe.action (some true) }) := by
  rw [repair, if_neg hchain, hanswer]
  simp only [hleft, run_bind, hrerun]
  rfl

end Attempts

/-! ## An older version that comes back -/

/-- The versions of `app`, of `lib` as the producer of `app` read it, and of `lib` as it is now. -/
def appVersion : Version := (["app".toList], .ofDigit 10)
def oldLib : Version := (["lib".toList], .ofDigit 11)
def newLib : Version := (["lib".toList], .ofDigit 12)

def fileBlob (d : Digest) : FileTree Text Digest := fun z =>
  if z = [] then some (.file d) else none

def appRecipe (inputs : List Version) : Recipe Digest where
  action := .ofDigit 13
  declared := Actions.plainAction (inputs.map Prod.fst) [appVersion.1] []
  argFile := fun _ => appVersion.2
  inputs := inputs
  outputs := [appVersion]
  command := .op (.write appVersion.1 appVersion.2) fun _ => .done ()
  succeeds := fun _ => true

open Classical in
noncomputable def lossy (inputs : List Version) : Registry Digest where
  limits := RepairLimits.default
  blob := fileBlob
  holds := fun d tree => decide (tree = fileBlob d)
  producerOf := fun u => if u = appVersion then some (appRecipe inputs) else none

/-- The cache holds every blob but that of `app`. -/
def lossyLedger : Ledger where
  held := fun d => d ≠ appVersion.2
  answers := fun _ => none
  remaining := 64

/-- A workspace with the present `lib` and no `app`. -/
def rebuilt : FileTree Text Digest := fun z =>
  if z = newLib.1 then some (.file newLib.2) else none

lemma lossy_holds (inputs : List Version) {d : Digest} {tree : FileTree Text Digest} :
    (lossy inputs).holds d tree = true ↔ tree = fileBlob d := by
  simp [lossy]

section Lossy

variable {inputs : List Version} {t : FileTree Text Digest}

/-- Nothing is at or below `app`, and no file is above it. -/
structure NoApp (t : FileTree Text Digest) : Prop where
  absent : ∀ z, t (appVersion.1 ++ z) = none
  clear : blocked t appVersion.1 = false

lemma NoApp.not_holds (h : NoApp t) :
    (lossy inputs).holds appVersion.2 (fun y => t (appVersion.1 ++ y)) = false := by
  rw [← Bool.not_eq_true, lossy_holds]
  intro heq
  have hroot := congrFun heq []
  rw [h.absent] at hroot
  cases hroot

lemma NoApp.holds_written (h : NoApp t) : (lossy inputs).holds appVersion.2
      (fun y => changed (.write appVersion.1 appVersion.2) t (appVersion.1 ++ y)) = true := by
  rw [lossy_holds]
  funext y
  cases y with
  | nil => simp [changed, replaces, puts, fileBlob]
  | cons c y =>
    have hnot : ¬ appVersion.1 ++ c :: y <+: appVersion.1 := by
      intro hpre
      have hlen := hpre.length_le
      simp only [length_append, length_cons] at hlen
      omega
    simp [changed, replaces, adds, fileBlob, h.absent, hnot]

lemma NoApp.run_execute (h : NoApp t) : ((lossy inputs).execute (appRecipe inputs)).run apply t =
      (changed (.write appVersion.1 appVersion.2) t, true) := by
  have hroot : t appVersion.1 = none := by simpa using h.absent []
  have hcheck : ∀ (t' : FileTree Text Digest) test, changed (.check [] test) t' = t' := by
    intro t' test
    funext y
    simp [changed, replaces, adds]
  have hsetup : (appRecipe inputs).declared.setup (appRecipe inputs).argFile = [] := rfl
  have hcommand : (appRecipe inputs).command.run apply t =
      (changed (.write appVersion.1 appVersion.2) t, ()) := by
    simp [appRecipe, apply, fits, h.clear, hroot, isDir]
  have houtputs : (appRecipe inputs).outputs = [appVersion] := rfl
  have hsucceeds : (appRecipe inputs).succeeds = fun _ => true := rfl
  simp [execute, hsetup, prepare, hcommand, apply, fits, answer, succeeded,
    hsucceeds, hcheck, houtputs, unchanged, run_isThere, h.holds_written]

/-- The repair of `app` once its inputs are in place. -/
lemma NoApp.run_restore {t' : FileTree Text Digest} (h : NoApp t) (h' : NoApp t')
    (hinputs : ∀ again ledger, (∀ d, d ≠ appVersion.2 → ledger.held d = true) →
      ((lossy inputs).restoreInputs again (appRecipe inputs) ledger).run apply t =
        (t', true, ledger)) :
    ∃ ledger, ((lossy inputs).restore [appVersion] lossyLedger).run apply t =
      (changed (.write appVersion.1 appVersion.2) t', true, ledger) := by
  have hmissing : ((lossy inputs).restoreAttempt lossyLedger [appVersion]).run apply t =
      (t, .missing) :=
    run_restoreAttempt_missing h.not_holds (by simp [lossyLedger])
  have hproducer : (lossy inputs).producerOf appVersion = some (appRecipe inputs) := by
    simp [lossy]
  have hready := fun again => hinputs again { lossyLedger with remaining := 63 }
    (by simp [lossyLedger])
  have hrepair := run_repair (by simp : (appRecipe inputs).action ∉ []) rfl rfl
    (run_rerun (hready ((lossy inputs).repair 7 [(appRecipe inputs).action])) h'.run_execute)
  have hdepth : (lossy inputs).limits.depth = 7 + 1 := rfl
  simp only [restore, restoreAt, run_bind, hmissing, restoreEach, hproducer, hdepth]
  rw [hrepair]
  simp only [if_true, run_bind]
  rw [run_restoreAttempt_there h'.holds_written]
  exact ⟨_, rfl⟩

/-- The older `lib` after its restore, whatever `lib` was. -/
def withOldLib (t : FileTree Text Digest) : FileTree Text Digest :=
  changed (.place oldLib.1 (fileBlob oldLib.2)) t

lemma withOldLib_app (z : Path) : withOldLib t (appVersion.1 ++ z) = t (appVersion.1 ++ z) := by
  refine changed_of_clear ?_ ?_ t
  · simp [replaces, oldLib, appVersion, isPrefixOf]
  · simp [adds, oldLib, appVersion, isPrefixOf]

lemma NoApp.withOldLib (h : NoApp t) : NoApp (withOldLib t) where
  absent z := (withOldLib_app z).trans (h.absent z)
  clear := by
    rw [← h.clear]
    refine blocked_congr fun y hy hne => isFile_changed ?_ t
    -- only the root is strictly above `app`
    have hroot : y = [] ∨ y = appVersion.1 := by
      simpa [appVersion, prefix_cons_iff] using hy
    rw [hroot.resolve_right hne]
    rfl

lemma withOldLib_lib : withOldLib t oldLib.1 = some (.file oldLib.2) := by
  simp [Registry.withOldLib, changed, replaces, puts, fileBlob]

lemma run_restoreInputs_oldLib (hclear : blocked t oldLib.1 = false)
    (hother : t oldLib.1 ≠ some (.file oldLib.2))
    (again : Recipe Digest → Ledger → Work Digest (Bool × Ledger)) (ledger : Ledger)
    (hheld : ∀ d, d ≠ appVersion.2 → ledger.held d = true) :
    ((lossy [oldLib]).restoreInputs again (appRecipe [oldLib]) ledger).run apply t =
      (withOldLib t, true, ledger) := by
  have hnot : (lossy [oldLib]).holds oldLib.2 (fun y => t (oldLib.1 ++ y)) = false := by
    rw [← Bool.not_eq_true, lossy_holds]
    intro heq
    exact hother (by simpa [fileBlob] using congrFun heq [])
  have hplaced := run_restoreAttempt_placed hnot (hheld _ (by decide)) hclear
  have hinputs : (appRecipe [oldLib]).inputs = [oldLib] := rfl
  simp only [restoreInputs, hinputs, isEmpty_cons, Bool.false_eq_true, if_false, restoreAt,
    run_bind, hplaced]
  rfl

end Lossy

lemma noApp_rebuilt : NoApp rebuilt where
  absent z := by simp [rebuilt, appVersion, newLib]
  clear := by decide

lemma faithful_lossy (inputs : List Version) : (lossy inputs).Faithful :=
  fun _ _ h => (lossy_holds inputs).mp h

lemma recipe_of_lossy {inputs : List Version} {recipe : Recipe Digest}
    (h : (lossy inputs).producerOf u = some recipe) : recipe = appRecipe inputs := by
  simp only [lossy] at h
  split_ifs at h
  exact (Option.some.inj h).symm

lemma not_overlaps_app {y : Path} (hy : newLib.1 <+: y) :
    ¬ appVersion.1 <+: y ∧ ¬ y <+: appVersion.1 := by
  obtain ⟨z, rfl⟩ := hy
  simp [newLib, appVersion]

lemma leaves_app {y : Path} (hy : newLib.1 <+: y) :
    (lossy []).Leaves appVersion y (rebuilt y) :=
  ⟨fun h => absurd h (not_overlaps_app hy).1, fun _ => (not_overlaps_app hy).2⟩

lemma spares_app {y : Path} (hy : newLib.1 <+: y) :
    (lossy []).Spares (appRecipe []) y (rebuilt y) where
  inputs := nofun
  writes w hw := by
    obtain rfl : w = appVersion.1 := mem_singleton.mp hw
    exact (not_overlaps_app hy).1
  dirs _ p hp := by
    obtain rfl : p = appVersion.1 := mem_singleton.mp hp
    exact (not_overlaps_app hy).2

end Registry

end OnceBuild.Recovery
