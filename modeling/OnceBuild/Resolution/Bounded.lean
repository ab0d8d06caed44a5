import OnceBuild.Lib.Fallible
import OnceBuild.Lib.Loop
import OnceBuild.Resolution.Derivation

/-!
# The bound of the expansion

Every round of the loop moves its index past one target and adds targets only while the limit leaves
room for them.  `Rounds` lets each round have a resolver and a workspace of its own, so what holds
of all rounds holds of a resolver that remembers its calls and of files that change meanwhile.
-/

namespace OnceBuild.Resolution

open Lib List

variable {A D Q W : Type} {kinds : Kinds A D Q W} {reader : Reader Q W}
  {s s' : Expansion A D Q W} {t : Target A} {todo : List (Target A)}

/-! ## One round -/

structure Target.Keeps (declared t : Target A) : Prop where
  package : t.package = declared.package
  kind : t.kind = declared.kind
  name : t.name = declared.name
  srcs : t.srcs = declared.srcs
  resolverInputExclude : t.resolverInputExclude = declared.resolverInputExclude
  deps : declared.deps <+: t.deps
  typedAttrs : ∃ added, t.typedAttrs = declared.typedAttrs ++ added ∧
    ∀ attr ∈ added, attr.1 ∉ declared.typedAttrs.map Prod.fst

namespace Target.Keeps

lemma refl (t : Target A) : t.Keeps t :=
  ⟨rfl, rfl, rfl, rfl, rfl, prefix_refl _, [], (append_nil _).symm, by simp⟩

lemma trans {t₁ t₂ t₃ : Target A} (h : t₁.Keeps t₂) (h' : t₂.Keeps t₃) : t₁.Keeps t₃ := by
  obtain ⟨added, hattrs, hnew⟩ := h.typedAttrs
  obtain ⟨added', hattrs', hnew'⟩ := h'.typedAttrs
  refine ⟨h'.package.trans h.package, h'.kind.trans h.kind, h'.name.trans h.name,
    h'.srcs.trans h.srcs, h'.resolverInputExclude.trans h.resolverInputExclude,
    h.deps.trans h'.deps, added ++ added', by rw [hattrs', hattrs, append_assoc], ?_⟩
  intro attr hattr
  rcases mem_append.mp hattr with hfirst | hsecond
  · exact hnew attr hfirst
  · intro hdeclared
    apply hnew' attr hsecond
    rw [hattrs, map_append]
    exact mem_append_left _ hdeclared

lemma id_eq {declared : Target A} (h : declared.Keeps t) : t.id = declared.id := by
  rw [Target.id, Target.id, h.package, h.name]

end Target.Keeps

variable {emitted : List (Target A)}

lemma insertIds_ok {owner : Text} {ids ids' : Finset Text}
    (hok : insertIds owner ids emitted = .ok ids') :
    ids' = ids ∪ (emitted.map Target.id).toFinset ∧ (emitted.map Target.id).Nodup ∧
      ∀ e ∈ emitted, e.id ∉ ids := by
  -- the invariant speaks about the targets entered so far
  obtain ⟨done, hdone, hids, hnodup, hfresh⟩ := foldlM_induct
    (fun rest cur => ∃ done, emitted = done ++ rest ∧ cur = ids ∪ (done.map Target.id).toFinset ∧
      (done.map Target.id).Nodup ∧ ∀ e ∈ done, e.id ∉ ids)
    (by
      rintro e rest cur next ⟨done, hdone, rfl, hnodup, hfresh⟩ hstep
      split at hstep
      case isTrue => cases hstep
      case isFalse hnew =>
        cases hstep
        rw [Finset.mem_union, not_or, mem_toFinset] at hnew
        refine ⟨done ++ [e], by simp [hdone], ?_, ?_, ?_⟩
        · ext id
          simp only [Finset.mem_insert, Finset.mem_union, mem_toFinset, map_append, mem_append,
            map_cons, map_nil, mem_singleton]
          tauto
        · rw [map_append, nodup_append]
          refine ⟨hnodup, nodup_singleton _, ?_⟩
          rintro a ha b hb rfl
          exact hnew.2 (mem_singleton.mp hb ▸ ha)
        · intro x hx
          rcases mem_append.mp hx with hx | hx
          · exact hfresh x hx
          · exact mem_singleton.mp hx ▸ hnew.1)
    emitted ids ids' ⟨[], rfl, by simp, nodup_nil, by simp⟩ hok
  rw [append_nil] at hdone
  subst hdone
  exact ⟨hids, hnodup, hfresh⟩

lemma addRoots_ok {owner : Target A} {names roots deps : List Text}
    (hok : addRoots kinds owner names roots = .ok deps) : owner.deps <+: deps := by
  refine foldlM_induct (fun _ deps => owner.deps <+: deps) ?_ roots owner.deps deps
    (prefix_refl _) hok
  intro reference rest deps next hdeps hstep
  dsimp only at hstep
  split at hstep
  · cases hstep
  · cases hstep
    split
    · exact hdeps
    · exact hdeps.trans (prefix_append _ _)

/-- Everything a round on `t` can do: `t` becomes `t'` and `emitted` is appended. -/
structure Grows (s s' : Expansion A D Q W) (t t' : Target A) (rest emitted : List (Target A)) :
    Prop where
  finished : s'.finished = s.finished ++ [t']
  todo : s'.todo = rest ++ emitted
  keeps : t.Keeps t'
  ids : s'.ids = s.ids ∪ (emitted.map Target.id).toFinset
  nodup : (emitted.map Target.id).Nodup
  fresh : ∀ e ∈ emitted, e.id ∉ s.ids
  room : emitted.length ≤ maxExpandedTargets - (s.finished.length + 1 + rest.length)

lemma grows_finish (hfinished : s'.finished = s.finished) (hids : s'.ids = s.ids) :
    Grows s (s'.finish t todo) t t todo [] :=
  ⟨by rw [← hfinished]; rfl, (append_nil _).symm, .refl t, by simp [← hids, Expansion.finish],
    nodup_nil, by simp, Nat.zero_le _⟩

lemma length_of_mapM_ok {α β ε : Type} {f : α → Except ε β} {l : List α} {l' : List β}
    (h : l.mapM f = .ok l') : l'.length = l.length := by
  induction l generalizing l' with
  | nil =>
    cases h
    rfl
  | cons a l ih =>
    rw [mapM_cons] at h
    obtain ⟨b, _, h⟩ := bind_eq_ok.mp h
    obtain ⟨bs, hbs, h⟩ := bind_eq_ok.mp h
    cases h
    simp [ih hbs]

lemma applyResult_grows {result : ResolverResult A D}
    (hok : applyResult kinds s t todo result = .ok s') :
      ∃ t' emitted, Grows s s' t t' todo emitted := by
  cases result with
  | noValue | failed | invalidOutput => cases hok
  | diagnostic d =>
    cases hok
    exact ⟨t, [], grows_finish rfl rfl⟩
  | output out =>
    obtain ⟨⟨owner, emitted, ids⟩, happly, hok⟩ := bind_eq_ok.mp hok
    cases hok
    refine ⟨owner, emitted, ?_⟩
    unfold applyOutput at happly
    split at happly
    case isTrue => cases happly
    case isFalse hroom =>
      obtain ⟨targets, hspecs, happly⟩ := bind_eq_ok.mp happly
      obtain ⟨entered, hids, happly⟩ := bind_eq_ok.mp happly
      obtain ⟨deps, hroots, happly⟩ := bind_eq_ok.mp happly
      split at happly
      case h_1 => cases happly
      case h_2 hnone =>
        cases happly
        obtain ⟨hids, hnodup, hfresh⟩ := insertIds_ok hids
        have hroom := not_lt.mp hroom
        rw [← length_of_mapM_ok hspecs] at hroom
        refine ⟨rfl, rfl, ⟨rfl, rfl, rfl, rfl, rfl, addRoots_ok hroots, out.attrs, rfl, ?_⟩, hids,
          hnodup, hfresh, hroom⟩
        intro attr hattr hdeclared
        exact find?_eq_none.mp hnone attr hattr (contains_iff_mem.mpr hdeclared)

lemma expandOne_grows (hok : expandOne kinds reader s t todo = .ok s') :
    ∃ t' emitted, Grows s s' t t' todo emitted := by
  unfold expandOne at hok
  split at hok
  case isFalse =>
    cases hok
    exact ⟨t, [], grows_finish rfl rfl⟩
  case isTrue =>
    split at hok
    case h_1 => cases hok
    case h_2 =>
      cases hok
      exact ⟨t, [], grows_finish rfl rfl⟩
    case h_3 =>
      split at hok
      case h_1 => cases hok
      case h_2 =>
        obtain ⟨t', emitted, h⟩ := applyResult_grows hok
        exact ⟨t', emitted, ⟨h.finished, h.todo, h.keeps, h.ids, h.nodup, h.fresh, h.room⟩⟩

/-! ## All rounds -/

/-- The ids of the targets on which a round on `t` calls a resolver. -/
def handed (kinds : Kinds A D Q W) (reader : Reader Q W) (t : Target A) : List Text :=
  if kinds.hasResolver t.kind then
    match kinds.validateOwner t with
    | some [] =>
      match resolverFiles kinds reader.host reader.disk t with
      | .ok _ => [t.id]
      | .error _ => []
    | _ => []
  else []

lemma handed_sublist (kinds : Kinds A D Q W) (reader : Reader Q W) (t : Target A) :
    handed kinds reader t <+ [t.id] := by
  unfold handed
  split
  · split
    · split
      · exact Sublist.refl _
      · exact nil_sublist _
    · exact nil_sublist _
  · exact nil_sublist _

lemma expandOne_of_handed_eq_nil (h : handed kinds reader t = [])
    (resolve : Target A → Files → Ask Q W (ResolverResult A D)) :
    expandOne { kinds with resolve := resolve } reader s t todo =
      expandOne kinds reader s t todo := by
  have hfiles : resolverFiles { kinds with resolve := resolve } reader.host reader.disk t =
      resolverFiles kinds reader.host reader.disk t := rfl
  unfold handed at h
  simp only [expandOne, hfiles]
  split
  case isFalse => rfl
  case isTrue hresolver =>
    rw [if_pos hresolver] at h
    split
    case h_1 => rfl
    case h_2 => rfl
    case h_3 hvalid =>
      -- the only way to the resolver is through its files
      cases hread : resolverFiles kinds reader.host reader.disk t with
      | error e => rfl
      | ok read => simp [hvalid, hread] at h

/-- `count` rounds, with the ids on which they call a resolver.  Every round may meet another answer
of the resolver and another workspace. -/
inductive Rounds (kinds : Kinds A D Q W) (start : Expansion A D Q W) :
    Nat → List Text → Expansion A D Q W → Prop where
  | start : Rounds kinds start 0 [] start
  | round {count : Nat} {calls : List Text} {s s' : Expansion A D Q W} {t : Target A}
      {todo : List (Target A)} (resolve : Target A → Files → Ask Q W (ResolverResult A D))
      (reader : Reader Q W) (before : Rounds kinds start count calls s) (htodo : s.todo = t :: todo)
      (hone : expandOne { kinds with resolve := resolve } reader s t todo = .ok s') :
      Rounds kinds start (count + 1) (calls ++ handed kinds reader t) s'

/-- `targets` with what was added to it: at most as many as the limit, with distinct ids, and the
declared ones first. -/
structure Extends (targets all : List (Target A)) : Prop where
  length : all.length ≤ maxExpandedTargets
  nodup : (all.map Target.id).Nodup
  declared : ∃ kept emitted, all = kept ++ emitted ∧ Forall₂ Target.Keeps targets kept

def Expansion.start (targets : List (Target A)) : Expansion A D Q W :=
  ⟨[], targets, (targets.map Target.id).toFinset, [], ⟨[], []⟩⟩

variable {targets : List (Target A)}

lemma extends_self (hids : (targets.map Target.id).Nodup)
    (hroom : targets.length ≤ maxExpandedTargets) : Extends targets targets :=
  ⟨hroom, hids, targets, [], (append_nil _).symm, forall₂_same.mpr fun t _ => .refl t⟩

lemma keeps_replaced {before after : List (Target A)} {t t' : Target A}
    (h : Forall₂ Target.Keeps targets (before ++ t :: after)) (ht : t.Keeps t') :
    Forall₂ Target.Keeps targets (before ++ t' :: after) := by
  induction before generalizing targets with
  | nil =>
    cases h with
    | cons hfirst hrest => exact .cons (hfirst.trans ht) hrest
  | cons b before ih =>
    cases h with
    | cons hfirst hrest => exact .cons hfirst (ih hrest)

lemma Extends.grows {t' : Target A} (h : Extends targets (s.finished ++ t :: todo))
    (hids : s.ids = ((s.finished ++ t :: todo).map Target.id).toFinset)
    (hg : Grows s s' t t' todo emitted) :
    Extends targets (s'.finished ++ s'.todo) ∧
      s'.ids = ((s'.finished ++ s'.todo).map Target.id).toFinset := by
  have hall : s'.finished ++ s'.todo = s.finished ++ t' :: todo ++ emitted := by
    rw [hg.finished, hg.todo]
    simp
  have hmap : (s.finished ++ t' :: todo).map Target.id =
    (s.finished ++ t :: todo).map Target.id := by
    simp [hg.keeps.id_eq]
  obtain ⟨kept, later, hsplit, hkept⟩ := h.declared
  rw [hall]
  refine ⟨⟨?_, ?_, ?_⟩, ?_⟩
  · have hlength := h.length
    have hroom := hg.room
    simp only [length_append, length_cons] at hlength hroom ⊢
    omega
  · rw [map_append, hmap, nodup_append]
    refine ⟨h.nodup, hg.nodup, ?_⟩
    rintro a ha b hb rfl
    obtain ⟨e, he, rfl⟩ := mem_map.mp hb
    exact hg.fresh e he (hids ▸ mem_toFinset.mpr ha)
  · -- the index stands among the declared targets or behind them
    rcases append_eq_append_iff.mp hsplit with ⟨mid, hmid, hlater⟩ | ⟨mid, hmid, hrest⟩
    · cases mid with
      | nil =>
        refine ⟨kept, t' :: todo ++ emitted, ?_, hkept⟩
        rw [hmid]
        simp
      | cons m mid =>
        obtain ⟨rfl, rfl⟩ := cons.inj hlater
        refine ⟨s.finished ++ t' :: mid, later ++ emitted, by simp, ?_⟩
        exact keeps_replaced (hmid ▸ hkept) hg.keeps
    · refine ⟨kept, mid ++ t' :: todo ++ emitted, ?_, hkept⟩
      rw [hmid]
      simp
  · rw [hg.ids, hids, ← hmap, ← toFinset_append, ← map_append]

/-- The invariant of the loop: the index counts the rounds, and the ids called on are among those
behind it. -/
lemma Rounds.extends {count : Nat} {calls : List Text} (hids : (targets.map Target.id).Nodup)
    (hroom : targets.length ≤ maxExpandedTargets)
    (h : Rounds kinds (Expansion.start targets) count calls s) :
    Extends targets (s.finished ++ s.todo) ∧
      s.ids = ((s.finished ++ s.todo).map Target.id).toFinset ∧ s.finished.length = count ∧
      calls <+ s.finished.map Target.id := by
  induction h with
  | start => exact ⟨extends_self hids hroom, rfl, rfl, nil_sublist _⟩
  | @round count calls s s' t todo resolve reader _ htodo hone ih =>
    obtain ⟨hextends, hentered, hcount, hcalls⟩ := ih
    obtain ⟨t', emitted, hg⟩ := expandOne_grows hone
    rw [htodo] at hextends hentered
    obtain ⟨hextends', hentered'⟩ := hextends.grows hentered hg
    refine ⟨hextends', hentered', by rw [hg.finished, length_append, hcount]; rfl, ?_⟩
    rw [hg.finished, map_append, map_singleton, hg.keeps.id_eq]
    exact hcalls.append (handed_sublist kinds reader t)

/-- How the expansion of `targets` ends. -/
inductive Ended (kinds : Kinds A D Q W) (reader : Reader Q W) (targets : List (Target A)) :
    Except ResolutionError ((List (Target A) × List (Text × D)) × ResolutionRecord Q W) → Prop where
  | tooMany (h : maxExpandedTargets < targets.length) :
      Ended kinds reader targets (.error .tooManyTargets)
  | noResolvers (hroom : targets.length ≤ maxExpandedTargets)
      (h : ∀ t ∈ targets, kinds.hasResolver t.kind = false) :
      Ended kinds reader targets (.ok ((targets, []), ⟨[], []⟩))
  | finished {count : Nat} {calls : List Text} {s : Expansion A D Q W}
      (hroom : targets.length ≤ maxExpandedTargets)
      (h : Rounds kinds (Expansion.start targets) count calls s) (htodo : s.todo = []) :
      Ended kinds reader targets (.ok ((s.finished, s.diagnostics), s.record))
  | failed {count : Nat} {calls : List Text} {s : Expansion A D Q W} {t : Target A}
      {todo : List (Target A)} {e : ResolutionError} (hroom : targets.length ≤ maxExpandedTargets)
      (h : Rounds kinds (Expansion.start targets) count calls s) (htodo : s.todo = t :: todo)
      (hone : expandOne kinds reader s t todo = .error e) : Ended kinds reader targets (.error e)

/-- The loop stops for a reason of its own if it is given one round more than the limit leaves. -/
lemma expandLoop_ended (hids : (targets.map Target.id).Nodup)
    (hroom : targets.length ≤ maxExpandedTargets) :
    ∀ (fuel count : Nat) (calls : List Text) (s : Expansion A D Q W),
      Rounds kinds (Expansion.start targets) count calls s → maxExpandedTargets < fuel + count →
      Ended kinds reader targets
        (expandLoop kinds reader fuel s >>= fun s =>
          .ok ((s.finished, s.diagnostics), s.record)) := by
  intro fuel
  induction fuel with
  | zero =>
    intro count calls s h hfuel
    obtain ⟨hextends, _, hcount, _⟩ := h.extends hids hroom
    have hlength := hextends.length
    rw [length_append] at hlength
    omega
  | succ fuel ih =>
    intro count calls s h hfuel
    simp only [expandLoop]
    cases htodo : s.todo with
    | nil => exact .finished hroom h htodo
    | cons t todo =>
      dsimp only
      cases hone : expandOne kinds reader s t todo with
      | error e => exact .failed hroom h htodo hone
      | ok next => exact ih _ _ next (h.round kinds.resolve reader htodo hone) (by omega)

lemma expandWorkspaceTargets_ended (hids : (targets.map Target.id).Nodup) (kinds : Kinds A D Q W)
    (reader : Reader Q W) :
    Ended kinds reader targets (expandWorkspaceTargets kinds reader targets) := by
  unfold expandWorkspaceTargets
  split
  case isTrue h => exact .tooMany h
  case isFalse hroom =>
    have hroom := not_lt.mp hroom
    split
    case isTrue h => exact .noResolvers hroom (by simpa using h)
    case isFalse => exact expandLoop_ended hids hroom _ 0 [] _ .start (Nat.lt_succ_self _)

/-- The expansion of `targets` under any resolvers: how it ends, what holds after any number of
rounds (a further round calls on no target again), that only the targets handed over reach a
resolver, and what a success gives. -/
structure ExpandsWithinLimit (kinds : Kinds A D Q W) (targets : List (Target A)) : Prop where
  ends : ∀ reader : Reader Q W,
    Ended kinds reader targets (expandWorkspaceTargets kinds reader targets)
  rounds : targets.length ≤ maxExpandedTargets → ∀ count calls s,
    Rounds kinds (Expansion.start targets) count calls s →
      s.finished.length = count ∧ Extends targets (s.finished ++ s.todo) ∧
      ∀ (reader : Reader Q W) (t : Target A) (todo : List (Target A)), s.todo = t :: todo →
        (calls ++ handed kinds reader t).Nodup
  uncalled : ∀ (reader : Reader Q W) (s : Expansion A D Q W) (t : Target A) (todo : List (Target A))
    (resolve : Target A → Files → Ask Q W (ResolverResult A D)), handed kinds reader t = [] →
      expandOne { kinds with resolve := resolve } reader s t todo = expandOne kinds reader s t todo
  success : ∀ (reader : Reader Q W) (all : List (Target A)) (diagnostics : List (Text × D))
    (record : ResolutionRecord Q W),
    expandWorkspaceTargets kinds reader targets = .ok ((all, diagnostics), record) →
      Extends targets all

/-- A kind whose resolver emits one more target of the same kind. -/
def endless : Kinds Unit Unit Unit Unit where
  hasResolver := fun _ => true
  asList := fun _ => none
  asStr := fun _ => none
  validateOwner := fun _ => some []
  normalizeTarget := fun _ _ => none
  resolve := fun t _ => .done (.output ⟨[⟨'x' :: t.name, t.kind, [], [], []⟩], none, []⟩)

end OnceBuild.Resolution
