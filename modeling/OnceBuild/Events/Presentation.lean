import OnceBuild.Events.Session

/-!
# Reducing an action event to a size

An event of a completed action that is too large for the server gives up what only describes the
action: the context, the platforms and the rest of its presentation, then its display name, and of
its source paths those that do not fit.  Messages that are not looked into are given by their
encodings.
-/

namespace OnceBuild.Events

open Lib List

structure ActionPresentation where
  package : Option (List UInt8)
  platforms : List (List UInt8)
  context : List (List UInt8)

/-- An event with a completed action; `envelope` are the other fields of the event, and `others`
those of the action. -/
structure ActionEvent where
  envelope : List UInt8
  others : List UInt8
  displayName : Option Text
  sourceFiles : List Text
  sourceFileStatuses : List Int
  presentation : Option ActionPresentation

/-- `SourceFileStatus::Unknown`. -/
def unknownStatus : Int := 3

/-- The length of a field whose key takes two bytes. -/
def longFieldLen (length : Nat) : Nat := 2 + varintLen length + length

def ActionPresentation.encodedLen (p : ActionPresentation) : Nat :=
  (p.package.map fun bytes => fieldLen bytes.length).getD 0 + repeatedLen (p.platforms.map length) +
    repeatedLen (p.context.map length)

def pathLen (path : Text) : Nat := longFieldLen (Lib.utf8Encode path).length

/-- A negative number takes ten bytes. -/
def statusLen (status : Int) : Nat := if status < 0 then 10 else varintLen status.toNat

/-- The statuses are packed into one field. -/
def packedLen (statuses : List Int) : Nat :=
  if statuses = [] then 0 else longFieldLen (statuses.map statusLen).sum

namespace ActionEvent

def actionLen (e : ActionEvent) : Nat :=
  e.others.length + (e.displayName.map fun name => fieldLen (Lib.utf8Encode name).length).getD 0 +
    (e.sourceFiles.map pathLen).sum + packedLen e.sourceFileStatuses +
    (e.presentation.map fun p => longFieldLen p.encodedLen).getD 0

def encodedLen (e : ActionEvent) : Nat := e.envelope.length + longFieldLen e.actionLen

/-- The loop that cuts the presentation as long as the event is too large with it. -/
def cutPresentation (tooLarge : Option ActionPresentation → Bool) :
    Option ActionPresentation → Option ActionPresentation
  | none => none
  | some p =>
    if tooLarge (some p) then
      if p.context ≠ [] then cutPresentation tooLarge
        (some { p with context := p.context.dropLast })
      else if p.platforms ≠ [] then
        cutPresentation tooLarge (some { p with platforms := p.platforms.dropLast })
      else none
    else some p
termination_by p => p.elim 0 fun p => p.context.length + p.platforms.length
decreasing_by
  all_goals
    have := length_pos_of_ne_nil ‹_›
    simp only [Option.elim, length_dropLast]
    omega

/-- The loop that puts paths back, each with its status if there are statuses. -/
def refill (maxBytes envelopeBytes : Nat) (classified : Bool) :
    List (Text × Int) → Nat → Nat → ActionEvent → ActionEvent
  | [], _, _, e => e
  | (path, status) :: rest, actionBytes, statusBytes, e =>
    let candidatePathBytes := actionBytes + pathLen path
    let candidateStatusBytes := statusBytes + statusLen status
    let candidateBytes :=
      candidatePathBytes + if classified then longFieldLen candidateStatusBytes else 0
    if envelopeBytes + candidateBytes + varintLen candidateBytes ≤ maxBytes then
      refill maxBytes envelopeBytes classified rest candidatePathBytes
        (if classified then candidateStatusBytes else statusBytes)
        { e with
          sourceFiles := e.sourceFiles ++ [path]
          sourceFileStatuses := e.sourceFileStatuses ++ if classified then [status] else [] }
    else refill maxBytes envelopeBytes classified rest actionBytes statusBytes e

/-- The paths with the statuses that the loop finds for them. -/
def pairs (e : ActionEvent) : List (Text × Int) :=
  let statuses :=
    if e.sourceFileStatuses ≠ [] ∧ e.sourceFileStatuses.length ≠ e.sourceFiles.length then
      replicate e.sourceFiles.length unknownStatus
    else e.sourceFileStatuses
  e.sourceFiles.zipIdx.map fun path => (path.1, statuses.getD path.2 0)

def withoutSources (e : ActionEvent) : ActionEvent :=
  { e with sourceFiles := [], sourceFileStatuses := [] }

def cutMetadata (maxBytes : Nat) (e : ActionEvent) : ActionEvent :=
  let cut := { e with
    presentation := cutPresentation
      (fun p => decide (maxBytes < encodedLen { e with presentation := p })) e.presentation }
  if maxBytes < cut.encodedLen then { cut with displayName := none } else cut

def fitActionPresentation (e : ActionEvent) (maxBytes : Nat) : ActionEvent :=
  if e.encodedLen ≤ maxBytes then e
  else
    let base := cutMetadata maxBytes e.withoutSources
    refill maxBytes (base.encodedLen - base.actionLen - varintLen base.actionLen)
      (decide (e.sourceFileStatuses ≠ [])) e.pairs base.actionLen 0 base

/-- What is never given up. -/
def bare (e : ActionEvent) : ActionEvent :=
  { e.withoutSources with displayName := none, presentation := none }

/-! ## The presentation and the name -/

lemma cutPresentation_spec (tooLarge : Option ActionPresentation → Bool)
    (p : Option ActionPresentation) :
    cutPresentation tooLarge p = none ∨ tooLarge (cutPresentation tooLarge p) = false := by
  fun_induction cutPresentation tooLarge p with
  | case1 => exact .inl rfl
  | case2 p hlarge hcontext ih => exact ih
  | case3 p hlarge hcontext hplatforms ih => exact ih
  | case4 p hlarge hcontext hplatforms => exact .inl rfl
  | case5 p hfits => exact .inr (Bool.eq_false_iff.mpr hfits)

lemma cutMetadata_spec (maxBytes : Nat) (e : ActionEvent) :
    ∃ presentation displayName,
      cutMetadata maxBytes e = { e with presentation := presentation, displayName := displayName } ∧
      ((cutMetadata maxBytes e).encodedLen ≤ maxBytes ∨
        presentation = none ∧ displayName = none) := by
  unfold cutMetadata
  dsimp only
  split
  next hlarge =>
    refine ⟨_, _, rfl, .inr ⟨?_, rfl⟩⟩
    rcases cutPresentation_spec _ e.presentation with hnone | hfits
    · exact hnone
    · exact absurd hlarge (of_decide_eq_false hfits)
  next hfits => exact ⟨_, _, rfl, .inl (not_lt.mp hfits)⟩

/-! ## The source paths -/

/-- The sizes that the loop has counted. -/
structure Counted (classified : Bool) (e : ActionEvent) (actionBytes statusBytes : Nat) : Prop where
  action : actionBytes + packedLen e.sourceFileStatuses = e.actionLen
  status : statusBytes = (e.sourceFileStatuses.map statusLen).sum
  none : classified = false → e.sourceFileStatuses = []

/-- The event with some more paths. -/
def addPairs (classified : Bool) (e : ActionEvent) (kept : List (Text × Int)) : ActionEvent :=
  { e with
    sourceFiles := e.sourceFiles ++ kept.map Prod.fst
    sourceFileStatuses := e.sourceFileStatuses ++ if classified then kept.map Prod.snd else [] }

lemma Counted.add {classified : Bool} {e : ActionEvent} {actionBytes statusBytes : Nat}
    (h : Counted classified e actionBytes statusBytes) (path : Text) (status : Int) :
    Counted classified (addPairs classified e [(path, status)]) (actionBytes + pathLen path)
        (if classified then statusBytes + statusLen status else statusBytes) ∧
      (addPairs classified e [(path, status)]).actionLen = actionBytes + pathLen path +
        if classified then longFieldLen (statusBytes + statusLen status) else 0 := by
  have haction := h.action
  unfold actionLen at haction
  cases classified with
  | true =>
    have hsum : ((e.sourceFileStatuses ++ [status]).map statusLen).sum =
        statusBytes + statusLen status := by
      rw [map_append, sum_append, ← h.status]
      simp
    have hpacked : packedLen (e.sourceFileStatuses ++ [status]) =
        longFieldLen (statusBytes + statusLen status) := by
      unfold packedLen
      rw [if_neg (append_ne_nil_of_right_ne_nil _ (cons_ne_nil _ _)), hsum]
    have hlen : (addPairs true e [(path, status)]).actionLen =
        actionBytes + pathLen path + longFieldLen (statusBytes + statusLen status) := by
      simp only [actionLen, addPairs, map_append, sum_append, map_cons, map_nil, sum_cons, sum_nil,
        if_true, hpacked]
      omega
    exact ⟨⟨by rw [hlen]; exact congrArg _ hpacked, hsum.symm, nofun⟩, hlen⟩
  | false =>
    have hnone := h.none rfl
    have hlen : (addPairs false e [(path, status)]).actionLen = actionBytes + pathLen path := by
      simp only [actionLen, addPairs, map_append, sum_append, map_cons, map_nil, sum_cons, sum_nil,
        Bool.false_eq_true, if_false, append_nil, hnone]
      have hpacked : packedLen [] = 0 := rfl
      omega
    refine ⟨⟨?_, ?_, fun _ => ?_⟩, hlen⟩
    · rw [hlen]
      simp [addPairs, hnone, packedLen]
    · simpa [addPairs] using h.status
    · simpa [addPairs] using hnone

lemma addPairs_nil (classified : Bool) (e : ActionEvent) : addPairs classified e [] = e := by
  cases classified <;> simp [addPairs]

lemma addPairs_cons (classified : Bool) (e : ActionEvent) (pair : Text × Int)
    (kept : List (Text × Int)) :
    addPairs classified (addPairs classified e [pair]) kept =
      addPairs classified e (pair :: kept) := by
  cases classified <;> simp [addPairs]

/-- The loop keeps some of the paths, in order, and never makes the event too large. -/
lemma refill_spec (maxBytes : Nat) (classified : Bool) (paths : List (Text × Int)) (e : ActionEvent)
    {actionBytes statusBytes : Nat} (h : Counted classified e actionBytes statusBytes) :
    ∃ kept, kept <+ paths ∧
      refill maxBytes (e.envelope.length + 2) classified paths actionBytes statusBytes e =
        addPairs classified e kept ∧
      (e.encodedLen ≤ maxBytes → (addPairs classified e kept).encodedLen ≤ maxBytes) := by
  induction paths generalizing e actionBytes statusBytes with
  | nil =>
    refine ⟨[], nil_sublist _, (addPairs_nil classified e).symm, ?_⟩
    rw [addPairs_nil]
    exact id
  | cons pair rest ih =>
    obtain ⟨path, status⟩ := pair
    obtain ⟨hcounted, hlen⟩ := h.add path status
    simp only [refill]
    rw [← hlen]
    by_cases hfits : e.envelope.length + 2 + (addPairs classified e [(path, status)]).actionLen +
        varintLen (addPairs classified e [(path, status)]).actionLen ≤ maxBytes
    · obtain ⟨kept, hkept, hrefill, hsize⟩ := ih (addPairs classified e [(path, status)]) hcounted
      rw [addPairs_cons] at hrefill hsize
      rw [if_pos hfits]
      refine ⟨(path, status) :: kept, hkept.cons_cons _, hrefill, fun _ => hsize ?_⟩
      unfold encodedLen longFieldLen
      change e.envelope.length + _ ≤ maxBytes
      omega
    · obtain ⟨kept, hkept, hrefill, hsize⟩ := ih e h
      rw [if_neg hfits]
      exact ⟨kept, hkept.cons _, hrefill, hsize⟩

lemma refill_base (maxBytes : Nat) (classified : Bool) (paths : List (Text × Int)) (e : ActionEvent)
    (h : e.sourceFileStatuses = []) :
    ∃ kept, kept <+ paths ∧
      refill maxBytes (e.encodedLen - e.actionLen - varintLen e.actionLen)
        classified paths e.actionLen
        0 e = addPairs classified e kept ∧
      (e.encodedLen ≤ maxBytes → (addPairs classified e kept).encodedLen ≤ maxBytes) := by
  have henvelope : e.encodedLen - e.actionLen - varintLen e.actionLen = e.envelope.length + 2 := by
    unfold encodedLen longFieldLen
    omega
  rw [henvelope]
  exact refill_spec maxBytes classified paths e ⟨by rw [h]; rfl, by rw [h]; rfl, fun _ => h⟩

lemma map_fst_pairs (e : ActionEvent) : e.pairs.map Prod.fst = e.sourceFiles := by
  unfold pairs
  rw [map_map]
  exact zipIdx_map_fst 0 e.sourceFiles

lemma pairs_eq_zip (e : ActionEvent) (h : e.sourceFileStatuses.length = e.sourceFiles.length) :
    e.pairs = e.sourceFiles.zip e.sourceFileStatuses := by
  unfold pairs
  rw [if_neg fun hnot => hnot.2 h]
  refine ext_getElem (by simp [h]) fun i hi hi' => ?_
  have hstatus : i < e.sourceFileStatuses.length := by
    rw [length_zip] at hi'
    omega
  simp [getElem?_eq_getElem hstatus]

/-- An event that fits is left as it is; one that can be made to fit fits afterwards; nothing but
the presentation, the display name and the source paths changes; and paths are only left out, each
with its own status. -/
theorem fitActionPresentation_truthful (e : ActionEvent) (maxBytes : Nat) :
    (e.encodedLen ≤ maxBytes → e.fitActionPresentation maxBytes = e) ∧
      (e.bare.encodedLen ≤ maxBytes → (e.fitActionPresentation maxBytes).encodedLen ≤ maxBytes) ∧
      (e.fitActionPresentation maxBytes).bare = e.bare ∧
      (e.fitActionPresentation maxBytes).sourceFiles <+ e.sourceFiles ∧
      (e.sourceFileStatuses.length = e.sourceFiles.length →
        (e.fitActionPresentation maxBytes).sourceFileStatuses.length =
            (e.fitActionPresentation maxBytes).sourceFiles.length ∧
          (e.fitActionPresentation maxBytes).sourceFiles.zip
              (e.fitActionPresentation maxBytes).sourceFileStatuses <+
            e.sourceFiles.zip e.sourceFileStatuses) := by
  unfold fitActionPresentation
  split
  next hfits => exact ⟨fun _ => rfl, fun _ => hfits, rfl, Sublist.refl _, fun h =>
    ⟨h, Sublist.refl _⟩⟩
  next hlarge =>
    obtain ⟨presentation, displayName, hbase, hfits⟩ := cutMetadata_spec maxBytes e.withoutSources
    obtain ⟨kept, hkept, hrefill, hsize⟩ :=
      refill_base maxBytes (decide (e.sourceFileStatuses ≠ []))
      e.pairs (cutMetadata maxBytes e.withoutSources) (by rw [hbase]; rfl)
    rw [hrefill]
    rw [hbase] at hfits hsize ⊢
    refine ⟨fun h => absurd h hlarge, fun hbare => hsize ?_, rfl, ?_, fun hlength => ?_⟩
    · rcases hfits with hfits | ⟨rfl, rfl⟩
      · exact hfits
      · exact hbare
    · rw [← e.map_fst_pairs]
      exact hkept.map _
    · by_cases hnone : e.sourceFileStatuses = []
      · -- then there are no paths either
        rw [hnone, length_nil, eq_comm, length_eq_zero_iff] at hlength
        have hempty : e.pairs = [] := by
          rw [← map_eq_nil_iff, e.map_fst_pairs, hlength]
        rw [hempty, sublist_nil] at hkept
        simp [addPairs, withoutSources, hnone, hkept]
      · rw [e.pairs_eq_zip hlength] at hkept
        rw [decide_eq_true hnone]
        simpa [addPairs, withoutSources, zip_map'] using hkept

end ActionEvent

end OnceBuild.Events
