import Mathlib.Data.List.Perm.Basic
import Mathlib.Order.Lattice
import OnceBuild.Lib.Assoc

/-!
# Maps sorted by key

`BTreeMap` as the list of its entries.  Inserting entries that come in order of their keys only
appends them.
-/

namespace OnceBuild.Lib

open List

variable {K V : Type} [LinearOrder K]

/-- `BTreeMap::insert`. -/
def insertEntry (key : K) (value : V) : List (K × V) → List (K × V)
  | [] => [(key, value)]
  | entry :: rest =>
    if key < entry.1 then (key, value) :: entry :: rest
    else if key = entry.1 then (key, value) :: rest
    else entry :: insertEntry key value rest

/-- The map that is built by inserting the entries one after the other. -/
def sortEntries (entries : List (K × V)) : List (K × V) :=
  entries.foldl (fun m entry => insertEntry entry.1 entry.2 m) []

def SortedEntries (entries : List (K × V)) : Prop := entries.Pairwise fun a b => a.1 < b.1

variable {key : K} {value : V} {m : List (K × V)}

lemma mem_insertEntry {entry : K × V} (h : entry ∈ insertEntry key value m) :
    entry = (key, value) ∨ entry ∈ m := by
  induction m with
  | nil => exact Or.inl (mem_singleton.mp h)
  | cons first m ih =>
    unfold insertEntry at h
    split at h
    case isTrue => exact mem_cons.mp h
    case isFalse =>
      split at h
      case isTrue => exact (mem_cons.mp h).imp id (mem_cons_of_mem _)
      case isFalse =>
        rcases mem_cons.mp h with rfl | hrest
        · exact Or.inr mem_cons_self
        · exact (ih hrest).imp id (mem_cons_of_mem _)

lemma sorted_insertEntry (key : K) (value : V) (h : SortedEntries m) :
    SortedEntries (insertEntry key value m) := by
  induction m with
  | nil => exact pairwise_singleton _ _
  | cons first m ih =>
    obtain ⟨hfirst, hrest⟩ := pairwise_cons.mp h
    unfold insertEntry
    split
    case isTrue hlt =>
      refine pairwise_cons.mpr ⟨fun entry hentry => ?_, h⟩
      rcases mem_cons.mp hentry with rfl | hentry
      · exact hlt
      · exact lt_trans hlt (hfirst entry hentry)
    case isFalse hnlt =>
      split
      case isTrue heq => exact pairwise_cons.mpr ⟨heq ▸ hfirst, hrest⟩
      case isFalse hne =>
        refine pairwise_cons.mpr ⟨fun entry hentry => ?_, ih hrest⟩
        rcases mem_insertEntry hentry with rfl | hentry
        · exact lt_of_le_of_ne (not_lt.mp hnlt) (Ne.symm hne)
        · exact hfirst entry hentry

lemma sorted_sortEntries (entries : List (K × V)) : SortedEntries (sortEntries entries) := by
  have key : ∀ m : List (K × V), SortedEntries m →
      SortedEntries (entries.foldl (fun m entry => insertEntry entry.1 entry.2 m) m) := by
    induction entries with
    | nil => exact fun m hm => hm
    | cons entry entries ih => exact fun m hm => ih _ (sorted_insertEntry _ _ hm)
  exact key [] Pairwise.nil

lemma insertEntry_of_lt (h : ∀ entry ∈ m, entry.1 < key) :
    insertEntry key value m = m ++ [(key, value)] := by
  induction m with
  | nil => rfl
  | cons first m ih =>
    have hfirst : first.1 < key := h first mem_cons_self
    have hrest := ih fun entry hentry => h entry (mem_cons_of_mem _ hentry)
    rw [insertEntry, if_neg (lt_asymm hfirst), if_neg (ne_of_lt hfirst).symm, hrest, cons_append]

lemma sortEntries_of_sorted {entries : List (K × V)} (h : SortedEntries entries) :
    sortEntries entries = entries := by
  -- what is inserted comes after everything that is there already
  have key : ∀ m : List (K × V), SortedEntries (m ++ entries) →
      entries.foldl (fun m entry => insertEntry entry.1 entry.2 m) m = m ++ entries := by
    clear h
    induction entries with
    | nil => exact fun m _ => (append_nil m).symm
    | cons entry entries ih =>
      intro m hm
      have hbefore : ∀ earlier ∈ m, earlier.1 < entry.1 := fun earlier hearlier =>
        (pairwise_append.mp hm).2.2 earlier hearlier entry mem_cons_self
      rw [foldl_cons, insertEntry_of_lt hbefore]
      have hsplit : m ++ entry :: entries = m ++ [(entry.1, entry.2)] ++ entries := by simp
      rw [hsplit] at hm ⊢
      exact ih _ hm
  exact key [] h

lemma lookup_insertEntry (key : K) (value : V) (other : K) (h : SortedEntries m) :
    (insertEntry key value m).lookup other =
      if other = key then some value else m.lookup other := by
  induction m with
  | nil =>
    rw [insertEntry]
    split <;> simp_all
  | cons first rest ih =>
    obtain ⟨hfirst, hrest⟩ := pairwise_cons.mp h
    unfold insertEntry
    split
    case isTrue =>
      rw [lookup_cons]
      split <;> simp_all
    case isFalse =>
      split
      case isTrue heq =>
        subst heq
        rw [lookup_cons, lookup_cons]
        split <;> simp_all
      case isFalse hne =>
        rw [lookup_cons, lookup_cons, ih hrest]
        split
        case h_1 hother =>
          have hkey : other ≠ key := fun heq => hne (heq ▸ eq_of_beq hother)
          rw [if_neg hkey]
        case h_2 => rfl

lemma eq_of_sorted {m' : List (K × V)} (h : SortedEntries m) (h' : SortedEntries m')
    (hmem : ∀ entry, entry ∈ m ↔ entry ∈ m') : m = m' := by
  have hnodup : ∀ {l : List (K × V)}, SortedEntries l → l.Nodup :=
    fun hl => hl.imp fun hlt heq => absurd (congrArg Prod.fst heq) (ne_of_lt hlt)
  refine ((perm_ext_iff_of_nodup (hnodup h) (hnodup h')).mpr hmem).eq_of_pairwise ?_ h h'
  intro a b _ _ hab hba
  exact absurd hab (lt_asymm hba)

/-- `BTreeMap<K, V>`. -/
structure SortedMap (K V : Type) [LinearOrder K] where
  entries : List (K × V)
  sorted : SortedEntries entries

namespace SortedMap

lemma ext_entries {m m' : SortedMap K V} (h : m.entries = m'.entries) : m = m' := by
  cases m
  cases h
  rfl

def empty : SortedMap K V := ⟨[], List.Pairwise.nil⟩

variable (m : SortedMap K V)

def isEmpty : Bool := m.entries.isEmpty

lemma eq_empty {m : SortedMap K V} (h : m.isEmpty = true) : m = empty :=
  ext_entries (isEmpty_iff.mp h)

def ofEntries (entries : List (K × V)) : SortedMap K V :=
  ⟨sortEntries entries, sorted_sortEntries entries⟩

lemma ofEntries_entries : ofEntries m.entries = m := ext_entries (sortEntries_of_sorted m.sorted)

/-! ## Looking up and inserting -/

def get (key : K) : Option V := m.entries.lookup key

def insert (key : K) (value : V) : SortedMap K V :=
  ⟨insertEntry key value m.entries, sorted_insertEntry key value m.sorted⟩

def keys : List K := m.entries.map Prod.fst

lemma nodup_keys : m.keys.Nodup := pairwise_map.mpr (m.sorted.imp fun h => ne_of_lt h)

@[simp] lemma get_empty (key : K) : (empty : SortedMap K V).get key = none := rfl

lemma get_insert (key : K) (value : V) (other : K) :
    (m.insert key value).get other = if other = key then some value else m.get other :=
  lookup_insertEntry key value other m.sorted

lemma get_eq_some_iff : m.get key = some value ↔ (key, value) ∈ m.entries :=
  ⟨mem_of_lookup, lookup_of_mem m.nodup_keys⟩

lemma mem_keys_iff : key ∈ m.keys ↔ m.get key ≠ none := by
  rw [Option.ne_none_iff_exists']
  constructor
  · intro h
    obtain ⟨entry, hentry, rfl⟩ := mem_map.mp h
    exact ⟨entry.2, (m.get_eq_some_iff).mpr hentry⟩
  · rintro ⟨value, h⟩
    exact mem_map.mpr ⟨_, (m.get_eq_some_iff).mp h, rfl⟩

lemma find?_map_entries {W : Type} (m : SortedMap K V) (f : K × V → W) {p : W → Bool}
    (hp : ∀ entry, p (f entry) = true ↔ entry.1 = key) :
    (m.entries.map f).find? p = (m.get key).map fun value => f (key, value) := by
  unfold get
  induction m.entries with
  | nil => rfl
  | cons entry entries ih =>
    obtain ⟨k, v⟩ := entry
    rw [map_cons, find?_cons, lookup_cons]
    by_cases h : k = key
    case pos => simp [h, (hp (key, v)).mpr rfl]
    case neg =>
      have hne : (key == k) = false := beq_eq_false_iff_ne.mpr (Ne.symm h)
      have hnot : p (f (k, v)) = false := Bool.eq_false_iff.mpr (mt (hp (k, v)).mp h)
      simp only [hnot, hne, ih]

lemma ext_get {m m' : SortedMap K V} (h : ∀ key, m.get key = m'.get key) : m = m' := by
  refine ext_entries (eq_of_sorted m.sorted m'.sorted fun entry => ?_)
  rw [← get_eq_some_iff, ← get_eq_some_iff, h]

end SortedMap

end OnceBuild.Lib
