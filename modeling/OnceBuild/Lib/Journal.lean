import Mathlib.Data.Finset.Basic
import Mathlib.Data.Finset.Lattice.Lemmas

/-!
# A bounded journal of changes

A journal numbers its records from one and forgets the oldest when it is full.  A record names the
keys that changed, or says that track was lost.  `changesSince` answers which keys changed after a
given generation, and declines when a record of the window is missing or lost track.
-/

namespace OnceBuild.Lib

open List

universe u

variable {K : Type u}

structure ChangeRecord (K : Type u) where
  generation : Nat
  paths : Option (Finset K)

/-- Append a record; a full journal drops its oldest one. -/
def pushRecord (capacity : Nat) (records : List (ChangeRecord K)) (generation : Nat)
    (paths : Option (Finset K)) : List (ChangeRecord K) :=
  let records := records ++ [⟨generation, paths⟩]
  if capacity < records.length then records.tail else records

/-- The loop of `changesSince`: the keys collected and the generation expected next. -/
def collectChanges [DecidableEq K] :
    Nat → Finset K → List (ChangeRecord K) → Option (Finset K × Nat)
  | expected, changed, [] => some (changed, expected)
  | expected, changed, record :: records =>
    if record.generation ≠ expected then none
    else
      match record.paths with
      | none => none
      | some paths => collectChanges (expected + 1) (changed ∪ paths) records

/-- The keys that changed after generation `since`, up to `current`. -/
def changesSince [DecidableEq K] (records : List (ChangeRecord K)) (since current : Nat) :
    Option (Finset K) :=
  if current < since then none
  else if since = current then some ∅
  else
    match collectChanges (since + 1) ∅ (records.filter fun r => since < r.generation) with
    | none => none
    | some (changed, expected) => if expected = current + 1 then some changed else none

/-! ## Against the whole history -/

/-- Everything ever recorded, numbered. -/
def numbered (history : List (Option (Finset K))) : List (ChangeRecord K) :=
  history.mapIdx fun i paths => ⟨i + 1, paths⟩

/-- The journal holds the latest records of the history. -/
def Keeps (history : List (Option (Finset K))) (records : List (ChangeRecord K)) : Prop :=
  ∃ k, records = (numbered history).drop k

variable {records : List (ChangeRecord K)}

variable {history : List (Option (Finset K))}

lemma Keeps.push (h : Keeps history records) (capacity : Nat) (paths : Option (Finset K)) :
    Keeps (history ++ [paths]) (pushRecord capacity records (history.length + 1) paths) := by
  obtain ⟨k, rfl⟩ := h
  have hall : ∃ k', (numbered history).drop k ++ [⟨history.length + 1, paths⟩] =
      (numbered (history ++ [paths])).drop k' := by
    refine ⟨min k history.length, ?_⟩
    have hlen : (numbered history).length = history.length := by simp [numbered]
    have hnum : numbered (history ++ [paths]) =
        numbered history ++ [⟨history.length + 1, paths⟩] := by
      simp [numbered, mapIdx_append]
    rw [hnum, drop_append_of_le_length (by omega)]
    by_cases hk : k ≤ history.length
    · rw [min_eq_left hk]
    · rw [drop_eq_nil_of_le (by omega), drop_eq_nil_of_le (by omega)]
  obtain ⟨k', hk'⟩ := hall
  unfold pushRecord
  simp only [hk']
  split
  case isTrue => exact ⟨k' + 1, by rw [tail_drop]⟩
  case isFalse => exact ⟨k', rfl⟩

/-- Records that are numbered from `i + 1` on. -/
def numberedFrom (i : Nat) (l : List (Option (Finset K))) : List (ChangeRecord K) :=
  l.mapIdx fun j paths => ⟨i + j + 1, paths⟩

lemma numberedFrom_cons (i : Nat) (paths : Option (Finset K)) (l : List (Option (Finset K))) :
    numberedFrom i (paths :: l) = ⟨i + 1, paths⟩ :: numberedFrom (i + 1) l := by
  unfold numberedFrom
  rw [mapIdx_cons]
  refine congrArg (_ :: l.mapIdx ·) ?_
  funext j paths
  congr 1
  omega

lemma drop_numbered (history : List (Option (Finset K))) (k : Nat) :
    (numbered history).drop k = numberedFrom k (history.drop k) := by
  unfold numbered numberedFrom
  apply ext_getElem?
  simp [getElem?_drop, getElem?_mapIdx]

lemma filter_numberedFrom (i since : Nat) (l : List (Option (Finset K))) :
    (numberedFrom i l).filter (fun r => since < r.generation) =
      (numberedFrom i l).drop (since - i) := by
  induction l generalizing i with
  | nil => simp [numberedFrom]
  | cons paths l ih =>
    rw [numberedFrom_cons]
    by_cases hs : since ≤ i
    · rw [filter_cons_of_pos (by simp; omega), ih, Nat.sub_eq_zero_of_le hs,
        Nat.sub_eq_zero_of_le (by omega)]
      rfl
    · obtain ⟨d, hd⟩ : ∃ d, since - i = d + 1 := ⟨since - i - 1, by omega⟩
      rw [filter_cons_of_neg (by simp; omega), ih, hd, drop_succ_cons]
      congr 1
      omega

/-! ## What a bounded journal answers -/

section

variable [DecidableEq K]

/-- The keys that records name, unless one of them lost track. -/
def namedIn : List (Option (Finset K)) → Option (Finset K)
  | [] => some ∅
  | none :: _ => none
  | some paths :: rest => (namedIn rest).map (paths ∪ ·)

lemma namedIn_eq_none {l : List (Option (Finset K))} : namedIn l = none ↔ none ∈ l := by
  induction l with
  | nil => simp [namedIn]
  | cons r l ih =>
    cases r with
    | none => simp [namedIn]
    | some paths => simp [namedIn, ih]

lemma namedIn_append (l l' : List (Option (Finset K))) :
    namedIn (l ++ l') = (namedIn l).bind fun a => (namedIn l').map (a ∪ ·) := by
  induction l with
  | nil => cases h : namedIn l' <;> simp [namedIn, h]
  | cons r l ih =>
    cases r with
    | none => rfl
    | some paths =>
      rw [cons_append, namedIn, namedIn, ih]
      cases namedIn l with
      | none => rfl
      | some named =>
        cases namedIn l' with
        | none => rfl
        | some named' => exact congrArg some (Finset.union_assoc _ _ _).symm

lemma subset_of_namedIn {l : List (Option (Finset K))} {changed : Finset K}
    (h : namedIn l = some changed) : ∀ r ∈ l, ∃ paths, r = some paths ∧ paths ⊆ changed := by
  induction l generalizing changed with
  | nil => exact nofun
  | cons r l ih =>
    cases r with
    | none => cases h
    | some paths =>
      obtain ⟨named, hnamed, rfl⟩ := Option.map_eq_some_iff.mp h
      refine forall_mem_cons.mpr ⟨⟨paths, rfl, Finset.subset_union_left⟩, fun r hr => ?_⟩
      obtain ⟨paths', rfl, hsub⟩ := ih hnamed r hr
      exact ⟨paths', rfl, hsub.trans Finset.subset_union_right⟩

/-- Records in order are all collected. -/
lemma collectChanges_numbered (l : List (Option (Finset K))) (i : Nat) (acc : Finset K) :
    collectChanges (i + 1) acc (numberedFrom i l) =
      (namedIn l).map fun named => (acc ∪ named, i + l.length + 1) := by
  induction l generalizing i acc with
  | nil => simp [numberedFrom, collectChanges, namedIn]
  | cons r l ih =>
    rw [numberedFrom_cons]
    simp only [collectChanges, ne_eq, not_true_eq_false, if_false]
    cases r with
    | none => rfl
    | some paths =>
      simp only [ih, namedIn, Option.map_map]
      refine congrArg (Option.map · (namedIn l)) ?_
      funext named
      simp only [Function.comp_apply, Finset.union_assoc, length_cons]
      congr 1
      omega

/-- The answer of a journal that forgot the first `k` records. -/
lemma changesSince_drop (history : List (Option (Finset K))) (k : Nat) {since : Nat}
    (hsince : since ≤ history.length) :
    changesSince ((numbered history).drop k) since history.length =
      if k ≤ since ∨ since = history.length then namedIn (history.drop since) else none := by
  unfold changesSince
  rw [if_neg (by omega)]
  by_cases heq : since = history.length
  · rw [if_pos heq, if_pos (.inr heq), heq, drop_length]
    rfl
  rw [if_neg heq, drop_numbered, filter_numberedFrom, ← drop_numbered, drop_drop]
  by_cases hkept : k ≤ since
  · rw [if_pos (.inl hkept), Nat.add_sub_cancel' hkept, drop_numbered, collectChanges_numbered]
    cases namedIn (history.drop since) with
    | none => rfl
    | some named =>
      simp only [Option.map_some, length_drop, Finset.empty_union]
      rw [if_pos (by omega)]
  · -- the first record that is left comes too late
    have hfirst : k + (since - k) = k := by omega
    rw [if_neg (by omega), hfirst, drop_numbered]
    cases history.drop k with
    | nil =>
      simp only [numberedFrom, mapIdx_nil, collectChanges]
      rw [if_neg (by omega)]
    | cons r rest =>
      rw [numberedFrom_cons]
      simp only [collectChanges]
      rw [if_pos (by omega)]

end

/-! ## Journals -/

/-- A journal with the generation it stands at.  `history` is every record ever made; the program
keeps only the latest of them. -/
structure Journal (K : Type u) where
  records : List (ChangeRecord K)
  generation : Nat
  history : List (Option (Finset K))
  keeps : Keeps history records
  generation_eq : generation = history.length

namespace Journal

def empty : Journal K where
  records := []
  generation := 0
  history := []
  keeps := ⟨0, rfl⟩
  generation_eq := rfl

/-- Advance the generation and record what changed. -/
def record (capacity : Nat) (j : Journal K) (paths : Option (Finset K)) : Journal K where
  records := pushRecord capacity j.records (j.generation + 1) paths
  generation := j.generation + 1
  history := j.history ++ [paths]
  keeps := by
    rw [j.generation_eq]
    exact j.keeps.push capacity paths
  generation_eq := by simp [j.generation_eq]

def since [DecidableEq K] (j : Journal K) (generation : Nat) : Option (Finset K) :=
  changesSince j.records generation j.generation

/-- Some record after generation `g` names `k` or lost track. -/
def Reported (j : Journal K) (g : Nat) (k : K) : Prop :=
  ∃ r ∈ j.history.drop g, ∀ s, r = some s → k ∈ s

variable {j : Journal K} {g : Nat} {k : K}

lemma Reported.record (h : j.Reported g k) (capacity : Nat) (paths : Option (Finset K)) :
    (j.record capacity paths).Reported g k := by
  obtain ⟨r, hr, hk⟩ := h
  refine ⟨r, ?_, hk⟩
  simp only [Journal.record, drop_append, mem_append]
  exact Or.inl hr

lemma reported_record (hg : g ≤ j.generation) (capacity : Nat) {paths : Option (Finset K)}
    (hk : ∀ s, paths = some s → k ∈ s) : (j.record capacity paths).Reported g k := by
  refine ⟨paths, ?_, hk⟩
  rw [j.generation_eq] at hg
  simp [Journal.record, drop_append_of_le_length hg]

lemma mem_since [DecidableEq K] {changed : Finset K} {g' : Nat} (h : j.since g' = some changed)
    (hg : g' ≤ g) (hk : j.Reported g k) : k ∈ changed := by
  unfold since at h
  rw [j.generation_eq] at h
  have hle : g' ≤ j.history.length := by
    unfold changesSince at h
    by_contra hlt
    rw [if_pos (not_le.mp hlt)] at h
    cases h
  obtain ⟨n, hn⟩ := j.keeps
  rw [hn, changesSince_drop _ _ hle] at h
  split at h
  case isFalse => cases h
  case isTrue =>
    obtain ⟨r, hr, hr'⟩ := hk
    have hmem : r ∈ j.history.drop g' := by
      have hdrop : j.history.drop g = (j.history.drop g').drop (g - g') := by
        rw [drop_drop, Nat.add_sub_cancel' hg]
      rw [hdrop] at hr
      exact mem_of_mem_drop hr
    obtain ⟨paths, rfl, hsub⟩ := subset_of_namedIn h r hmem
    exact hsub (hr' paths rfl)

/-- The journal has the last `capacity` records. -/
def Holds (capacity : Nat) (j : Journal K) : Prop :=
  j.records = (numbered j.history).drop (j.history.length - capacity)

lemma holds_empty (capacity : Nat) : (empty : Journal K).Holds capacity := drop_nil.symm

variable {capacity : Nat}

lemma Holds.record (h : j.Holds capacity) (paths : Option (Finset K)) :
    (j.record capacity paths).Holds capacity := by
  have hlen : (numbered j.history).length = j.history.length := by simp [numbered]
  have hnum : numbered (j.history ++ [paths]) =
      numbered j.history ++ [⟨j.generation + 1, paths⟩] := by
    simp [numbered, mapIdx_append, j.generation_eq]
  unfold Holds Journal.record pushRecord
  simp only [length_append, length_singleton, hnum]
  have hkept : j.records.length = min capacity j.history.length := by
    rw [h, length_drop]
    omega
  rw [h] at hkept ⊢
  split
  next hfull =>
    rw [← drop_append_of_le_length (by omega), tail_drop]
    congr 1
    omega
  next hroom =>
    rw [← drop_append_of_le_length (by omega)]
    congr 1
    omega

lemma foldl_record_history (capacity : Nat) (j : Journal K) (made : List (Option (Finset K))) :
    (made.foldl (record capacity) j).history = j.history ++ made := by
  induction made generalizing j with
  | nil => exact (append_nil _).symm
  | cons paths made ih =>
    rw [foldl_cons, ih]
    exact (append_assoc _ _ _)

lemma Holds.foldl_record (h : j.Holds capacity) (made : List (Option (Finset K))) :
    (made.foldl (Journal.record capacity) j).Holds capacity := by
  induction made generalizing j with
  | nil => exact h
  | cons paths made ih => exact ih (h.record paths)

/-- A number of the journal is missing only if it is too old. -/
lemma Holds.exists_record_iff (h : j.Holds capacity) (hpos : 0 < g) (hg : g ≤ j.generation) :
    (∃ r ∈ j.records, r.generation = g) ↔ j.generation < g + capacity := by
  rw [h, drop_numbered, j.generation_eq]
  rw [j.generation_eq] at hg
  constructor
  · rintro ⟨r, hr, rfl⟩
    obtain ⟨i, hi, rfl⟩ := mem_mapIdx.mp hr
    simp only
    omega
  · intro hlt
    have hi : g - 1 - (j.history.length - capacity) <
        (j.history.drop (j.history.length - capacity)).length := by
      rw [length_drop]
      omega
    refine ⟨_, mem_mapIdx.mpr ⟨_, hi, rfl⟩, ?_⟩
    simp only
    omega

lemma since_eq [DecidableEq K] (h : j.Holds capacity) (hg : g ≤ j.generation) :
    j.since g = if j.generation ≤ g + capacity then namedIn (j.history.drop g) else none := by
  unfold since
  rw [j.generation_eq] at hg ⊢
  rw [h, changesSince_drop _ _ hg]
  refine if_congr ?_ rfl rfl
  omega

end Journal

end OnceBuild.Lib
