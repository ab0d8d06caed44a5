import Mathlib.Data.List.Infix

/-!
# Paths as texts and as components

A relative path is written as its components joined by slashes.  `parts` reads such a text the way
`Path::components` does: empty components and single dots disappear.
-/

namespace OnceBuild.Lib

open List

abbrev Text := List Char

instance : LawfulBEq Text := inferInstance

/-- A name that a directory can hold. -/
def Plain (c : Text) : Prop := c ≠ [] ∧ '/' ∉ c ∧ c ≠ ['.'] ∧ c ≠ ['.', '.']

instance (c : Text) : Decidable (Plain c) := inferInstanceAs (Decidable (_ ∧ _))

abbrev RelPath := { p : List Text // ∀ c ∈ p, Plain c }

def rootPath : RelPath := ⟨[], fun _ h => absurd h not_mem_nil⟩

def render (p : List Text) : Text := ['/'].intercalate p

/-- Components of a relative path, without empty ones and single dots. -/
def parts (t : Text) : List Text := (t.splitOn '/').filter fun c => !(c == []) && !(c == ['.'])

/-- `str::strip_prefix`. -/
def stripPrefix (start t : Text) : Option Text := t.dropPrefix? start

variable {t : Text}

lemma stripPrefix_eq_some {start rest : Text} :
    stripPrefix start t = some rest ↔ t = start ++ rest := by
  unfold stripPrefix
  rw [dropPrefix?_eq_some_iff]
  constructor
  · rintro ⟨p, rfl, hp⟩
    rw [eq_of_beq hp]
  · rintro rfl
    exact ⟨start, rfl, by simp⟩

variable {p : List Text}

lemma render_cons (c : Text) (hp : p ≠ []) : render (c :: p) = c ++ '/' :: render p := by
  cases p with
  | nil => exact absurd rfl hp
  | cons d p => simp [render, intercalate]

variable {q : List Text}

lemma render_append (hp : p ≠ []) (hq : q ≠ []) :
    render (p ++ q) = render p ++ '/' :: render q := by
  induction p with
  | nil => exact absurd rfl hp
  | cons c p ih =>
    cases p with
    | nil => simpa [render] using render_cons c hq
    | cons d p =>
      rw [cons_append, render_cons c (by simp), ih (by simp), render_cons c (by simp)]
      simp

lemma parts_render (h : ∀ c ∈ p, Plain c) : parts (render p) = p := by
  cases p with
  | nil => rfl
  | cons c p =>
    unfold parts render
    rw [splitOn_intercalate '/' (fun d hd => (h d hd).2.1) (by simp)]
    refine filter_eq_self.mpr fun d hd => ?_
    obtain ⟨hnil, -, hdot, -⟩ := h d hd
    simp [hnil, hdot]

lemma render_injective (hp : ∀ c ∈ p, Plain c) (hq : ∀ c ∈ q, Plain c) (h : render p = render q) :
    p = q := by
  rw [← parts_render hp, ← parts_render hq, h]

lemma notMem_of_mem_splitOn {α : Type} [BEq α] [LawfulBEq α] {sep : α} {t c : List α}
    (h : c ∈ t.splitOn sep) : sep ∉ c := by
  induction t generalizing c with
  | nil =>
    obtain rfl : c = [] := by simpa using h
    exact not_mem_nil
  | cons x t ih =>
    unfold splitOn at h ih
    rw [splitOnP_cons_eq_if_modifyHead] at h
    split at h
    case isTrue =>
      rcases mem_cons.mp h with rfl | h
      · exact not_mem_nil
      · exact ih h
    case isFalse hx =>
      cases hs : t.splitOnP (· == sep) with
      | nil => exact absurd hs (splitOnP_ne_nil _ _)
      | cons first rest =>
        rw [hs] at h ih
        rcases mem_cons.mp h with rfl | h
        · -- the character before the first component is not the separator
          have hne : x ≠ sep := fun heq => hx (beq_iff_eq.mpr heq)
          exact fun hmem => (mem_cons.mp hmem).elim (fun heq => hne heq.symm)
            (ih mem_cons_self)
        · exact ih (mem_cons_of_mem _ h)

/-- Without parent components, what `parts` reads are plain names. -/
lemma plain_of_mem_parts {c : Text} (h : c ∈ parts t) (hparent : c ≠ ['.', '.']) : Plain c := by
  obtain ⟨hc, hkept⟩ := mem_filter.mp h
  have hboth : c ≠ [] ∧ c ≠ ['.'] := by simpa using hkept
  exact ⟨hboth.1, notMem_of_mem_splitOn hc, hboth.2, hparent⟩

lemma head?_render (h : ∀ c ∈ p, Plain c) : (render p).head? ≠ some '/' := by
  cases p with
  | nil => simp [render, intercalate]
  | cons c p =>
    obtain ⟨hne, hslash, -⟩ := h c mem_cons_self
    cases c with
    | nil => exact absurd rfl hne
    | cons x c =>
      have hx : x ≠ '/' := fun heq => hslash (heq ▸ mem_cons_self)
      cases p <;> simpa [render] using hx

lemma infix_of_mem_splitOn {c : Text} (h : c ∈ t.splitOn '/') : c <:+: t := by
  have key : ∀ l : List Text, c ∈ l → c <:+: render l := by
    intro l
    induction l with
    | nil => intro hc; cases hc
    | cons d l ih =>
      intro hc
      cases l with
      | nil =>
        obtain rfl : c = d := by simpa using hc
        simp [render, intercalate]
      | cons e l =>
        rcases mem_cons.mp hc with rfl | hc
        · exact (prefix_append _ _).isInfix
        · exact (ih hc).trans ((suffix_cons _ _).trans (suffix_append _ _)).isInfix
  simpa [render] using key (t.splitOn '/') h

/-- What is left of a path below `start` is written after the slash. -/
lemma stripPrefix_render {start rest : List Text} (hr : rest ≠ []) :
    stripPrefix (if start = [] then [] else render start ++ ['/']) (render (start ++ rest)) =
      some (render rest) := by
  rw [stripPrefix_eq_some]
  split
  case isTrue hs =>
    rw [hs]
    rfl
  case isFalse hs =>
    rw [render_append hs hr]
    simp

/-- A text that equals a rendered path or continues it after a slash lies at or below it. -/
lemma isPrefix_of_render (hp : ∀ c ∈ p, Plain c) (hq : ∀ c ∈ q, Plain c) (hne : p ≠ [])
    (h : render q = render p ∨ (render p ++ ['/']) <+: render q) : p <+: q := by
  rcases h with h | ⟨rest, h⟩
  · rw [render_injective hq hp h]
  · have hqne : q ≠ [] := by
      rintro rfl
      simp [render, intercalate] at h
    have hsplit : (render q).splitOn '/' = (render p).splitOn '/' ++ rest.splitOn '/' := by
      rw [← h, append_assoc]
      exact splitOnP_append_cons (render p) rest (by simp)
    unfold render at hsplit
    rw [splitOn_intercalate '/' (fun c hc => (hq c hc).2.1) hqne,
      splitOn_intercalate '/' (fun c hc => (hp c hc).2.1) hne] at hsplit
    exact ⟨_, hsplit.symm⟩

lemma render_eq_or_prefix (hne : p ≠ []) (h : p <+: q) :
    render q = render p ∨ (render p ++ ['/']) <+: render q := by
  obtain ⟨rest, rfl⟩ := h
  by_cases hr : rest = []
  · exact Or.inl (by simp [hr])
  · rw [render_append hne hr]
    simp

variable {x : Char}

lemma count_parts (hslash : x ≠ '/') (hdot : x ≠ '.') (t : Text) :
    t.count x = (parts t).flatten.count x := by
  have hjoin : ∀ l : List Text, (render l).count x = l.flatten.count x := by
    intro l
    induction l with
    | nil => rfl
    | cons c l ih =>
      cases l with
      | nil => simp [render, intercalate]
      | cons d l =>
        rw [render_cons c (cons_ne_nil d l), count_append, count_cons_of_ne (Ne.symm hslash), ih]
        exact count_append.symm
  -- the components that are dropped have no such letter
  have hdropped : ∀ l : List Text, l.flatten.count x =
      (l.filter fun c => !(c == []) && !(c == ['.'])).flatten.count x := by
    intro l
    induction l with
    | nil => rfl
    | cons c l ih =>
      rw [flatten_cons, count_append, ih, filter_cons]
      split
      case isTrue => rw [flatten_cons, count_append]
      case isFalse hkept =>
        have hcases : c = [] ∨ c = ['.'] := by
          by_contra hnot
          exact hkept (by simpa [not_or] using hnot)
        rcases hcases with rfl | rfl
        · rw [count_nil, Nat.zero_add]
        · rw [count_cons_of_ne (Ne.symm hdot), count_nil, Nat.zero_add]
  calc t.count x = (render (t.splitOn '/')).count x := by
        rw [render, intercalate_splitOn]
    _ = (t.splitOn '/').flatten.count x := hjoin _
    _ = (parts t).flatten.count x := hdropped _

/-! ## Replacing -/

/-- `str::replace` after `skip` letters of a match that was replaced already. -/
def replaceFrom (pattern value : Text) : Nat → Text → Text
  | _, [] => []
  | skip + 1, _ :: t => replaceFrom pattern value skip t
  | 0, c :: t =>
    if pattern.isPrefixOf (c :: t) then value ++ replaceFrom pattern value (pattern.length - 1) t
    else c :: replaceFrom pattern value 0 t

def replaceAll (pattern value t : Text) : Text := replaceFrom pattern value 0 t

lemma count_replaceFrom {pattern value : Text} (hpattern : x ∉ pattern) (hvalue : x ∉ value)
    (hne : pattern ≠ []) (skip : Nat) (t : Text) :
    (replaceFrom pattern value skip t).count x = (t.drop skip).count x := by
  induction t generalizing skip with
  | nil => rw [replaceFrom, drop_nil]
  | cons c t ih =>
    cases skip with
    | succ skip => exact ih skip
    | zero =>
      unfold replaceFrom
      split
      case isTrue hmatch =>
        obtain ⟨rest, hrest⟩ := isPrefixOf_iff_prefix.mp hmatch
        obtain ⟨p, pattern, rfl⟩ := exists_cons_of_ne_nil hne
        have htail : t = pattern ++ rest := (cons.inj hrest).2.symm
        have hcount : (c :: t).count x = rest.count x := by
          rw [← hrest, count_append, count_eq_zero_of_not_mem hpattern, Nat.zero_add]
        rw [count_append, count_eq_zero_of_not_mem hvalue, Nat.zero_add, ih, htail,
          length_cons, Nat.add_sub_cancel, drop_left, ← htail]
        exact hcount.symm
      case isFalse => rw [count_cons, ih, drop_zero, drop_zero, count_cons]

end OnceBuild.Lib
