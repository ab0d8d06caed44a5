import OnceBuild.Cas.Gc

/-!
# What a collection pass marks

Both tiers are loops with early exit.  Tier 1 carries the orphans still to visit.  Tier 2 carries
the references `pending` that the action result being evicted has not released yet and the action
results `rest` still to visit: together they are the references that protect a blob, and a blob is
marked exactly when none of them names it.
-/

namespace OnceBuild.Cas

open List Marks ActionFile

variable {blobs : List BlobFile} {actions : List ActionFile} {maxBytes : Nat} {m : Marks}

/-! ## Sizes of what is kept -/

section Sizes

variable {α : Type} [DecidableEq α]

lemma filter_notMem_cons_of_notMem {l : List α} {x : α} (hx : x ∉ l) (R : List α) :
    l.filter (· ∉ x :: R) = l.filter (· ∉ R) := by
  refine filter_congr fun y hy => ?_
  have hne : y ≠ x := fun h => hx (h ▸ hy)
  simp [hne]

lemma sum_filter_notMem_cons (f : α → Nat) {l : List α} (hl : l.Nodup) {x : α} (hx : x ∈ l)
    {R : List α} (hR : x ∉ R) :
    ((l.filter (· ∉ x :: R)).map f).sum + f x = ((l.filter (· ∉ R)).map f).sum := by
  induction l with
  | nil => cases hx
  | cons y l ih =>
    rcases nodup_cons.mp hl with ⟨hy, hl⟩
    rcases mem_cons.mp hx with rfl | hx
    · rw [filter_cons_of_neg (by simp), filter_cons_of_pos (by simpa using hR),
        filter_notMem_cons_of_notMem hy]
      simp [Nat.add_comm]
    · have hyx : y ≠ x := fun h => hy (h ▸ hx)
      by_cases hyR : y ∈ R
      · rw [filter_cons_of_neg (by simp [hyR]), filter_cons_of_neg (by simp [hyR])]
        exact ih hl hx
      · rw [filter_cons_of_pos (by simp [hyx, hyR]), filter_cons_of_pos (by simp [hyR])]
        have := ih hl hx
        simp only [map_cons, sum_cons]
        omega

end Sizes

def Marks.keptBlobs (blobs : List BlobFile) (m : Marks) : List BlobFile :=
  blobs.filter (· ∉ m.blobRemoved)

def Marks.keptActions (actions : List ActionFile) (m : Marks) : List ActionFile :=
  actions.filter (· ∉ m.actionRemoved)

/-- The projected size is the size of what is not marked. -/
def Marks.Accounts (blobs : List BlobFile) (actions : List ActionFile) (m : Marks) : Prop :=
  m.bytesAfter = storedBytes (m.keptBlobs blobs) (m.keptActions actions)

lemma Marks.Accounts.init (blobs : List BlobFile) (actions : List ActionFile) :
    (Marks.init blobs actions).Accounts blobs actions := by
  simp [Marks.Accounts, Marks.init, Marks.keptBlobs, Marks.keptActions]

lemma Marks.Accounts.removeBlob (h : m.Accounts blobs actions) (hb : blobs.Nodup) {b : BlobFile}
    (hmem : b ∈ blobs) (hnew : b ∉ m.blobRemoved) : (m.removeBlob b).Accounts blobs actions := by
  have hsum := sum_filter_notMem_cons BlobFile.size hb hmem hnew
  change m.bytesAfter = ((blobs.filter (· ∉ m.blobRemoved)).map BlobFile.size).sum +
    ((m.keptActions actions).map size).sum at h
  change m.bytesAfter - b.size = ((blobs.filter (· ∉ b :: m.blobRemoved)).map BlobFile.size).sum +
    ((m.keptActions actions).map size).sum
  omega

lemma Marks.Accounts.markAction (h : m.Accounts blobs actions) (ha : actions.Nodup)
    {a : ActionFile} (hmem : a ∈ actions) (hnew : a ∉ m.actionRemoved) :
    Marks.Accounts blobs actions
      { m with actionRemoved := a :: m.actionRemoved, bytesAfter := m.bytesAfter - a.size } := by
  have hsum := sum_filter_notMem_cons size ha hmem hnew
  change m.bytesAfter = ((m.keptBlobs blobs).map BlobFile.size).sum +
    ((actions.filter (· ∉ m.actionRemoved)).map size).sum at h
  change m.bytesAfter - a.size = ((m.keptBlobs blobs).map BlobFile.size).sum +
    ((actions.filter (· ∉ a :: m.actionRemoved)).map size).sum
  omega

/-! ## Reference counts -/

/-- A count table for the references `refs`: only digests of `known` have an entry. -/
def Counts (known refs : List Digest) (counts : Digest → Option Nat) : Prop :=
  ∀ d, counts d = if d ∈ known then some (refs.count d) else none

lemma counts_countRefs (actions : List ActionFile) :
    Counts (actions.flatMap refs) (actions.flatMap refs) (countRefs actions) := by
  have key : ∀ (l seen : List Digest) (counts : Digest → Option Nat), Counts seen seen counts →
      Counts (seen ++ l) (seen ++ l)
        (l.foldl (fun counts d => Function.update counts d (some ((counts d).getD 0 + 1)))
          counts) := by
    intro l
    induction l with
    | nil => simpa using h
    | cons x l ih =>
      intro seen counts h
      have hx : Counts (seen ++ [x]) (seen ++ [x])
          (Function.update counts x (some ((counts x).getD 0 + 1))) := by
        intro d
        by_cases hd : d = x
        · subst hd
          by_cases hmem : d ∈ seen
          · simp [h d, hmem]
          · simp [h d, hmem, count_eq_zero_of_not_mem hmem]
        · simp [h d, hd, Ne.symm hd]
      simpa using ih (seen ++ [x]) _ hx
  simpa [countRefs] using key (actions.flatMap refs) [] (fun _ => none) (fun d => by simp)

lemma isOrphan_countRefs (actions : List ActionFile) (b : BlobFile) :
    isOrphan (countRefs actions) b = true ↔ ∀ d, b.digest = some d → d ∉ actions.flatMap refs := by
  unfold isOrphan
  cases hb : b.digest with
  | none => simp
  | some d =>
    have hcount := counts_countRefs actions d
    by_cases hd : d ∈ actions.flatMap refs
    · have hpos := count_pos_iff.mpr hd
      rw [if_pos hd] at hcount
      simp only [hcount, Option.getD_some, beq_iff_eq, Option.some.injEq, forall_eq', hd,
        not_true_eq_false, iff_false]
      omega
    · rw [if_neg hd] at hcount
      simp only [hcount, Option.getD_none, beq_self_eq_true, Option.some.injEq, forall_eq', hd,
        not_false_eq_true]

/-! ## Tier 1 -/

/-- State of the first loop before the orphans `rest`. -/
structure OrphanLoop (blobs : List BlobFile) (actions : List ActionFile) (rest : List BlobFile)
    (m : Marks) : Prop where
  accounts : m.Accounts blobs actions
  refcount_eq : m.refcount = countRefs actions
  no_action : m.actionRemoved = []
  rest_nodup : rest.Nodup
  rest_mem : ∀ b ∈ rest, b ∈ blobs ∧ isOrphan (countRefs actions) b = true ∧ b ∉ m.blobRemoved
  covered : ∀ b ∈ blobs, isOrphan (countRefs actions) b = true → b ∈ m.blobRemoved ∨ b ∈ rest
  removed_mem : ∀ b ∈ m.blobRemoved, isOrphan (countRefs actions) b = true

lemma OrphanLoop.step (hb : blobs.Nodup) (b : BlobFile) (rest : List BlobFile) (m : Marks)
    (h : OrphanLoop blobs actions (b :: rest) m) :
    OrphanLoop blobs actions rest (m.removeBlob b) := by
  rcases h.rest_mem b (by simp) with ⟨hmem, horphan, hnew⟩
  rcases nodup_cons.mp h.rest_nodup with ⟨hnotin, hrest⟩
  refine ⟨h.accounts.removeBlob hb hmem hnew, h.refcount_eq, h.no_action, hrest, ?_, ?_, ?_⟩
  · intro x hx
    rcases h.rest_mem x (by simp [hx]) with ⟨hxmem, hxorphan, hxnew⟩
    have hxb : x ≠ b := fun e => hnotin (e ▸ hx)
    exact ⟨hxmem, hxorphan, by simp [removeBlob, hxb, hxnew]⟩
  · intro x hx hxorphan
    rcases h.covered x hx hxorphan with hin | hin
    · exact .inl (by simp [removeBlob, hin])
    · rcases mem_cons.mp hin with rfl | hin
      · exact .inl (by simp [removeBlob])
      · exact .inr hin
  · intro x hx
    rcases mem_cons.mp hx with rfl | hx
    · exact horphan
    · exact h.removed_mem x hx

lemma markOrphans_spec (maxBytes : Nat) (actions : List ActionFile) (hb : blobs.Nodup) :
    ∃ rest, OrphanLoop blobs actions rest (markOrphans maxBytes blobs actions) ∧
      ((markOrphans maxBytes blobs actions).bytesAfter ≤ maxBytes ∨ rest = []) := by
  have hinit : OrphanLoop blobs actions
      ((blobs.filter (isOrphan (countRefs actions))).mergeSort fun x y => x.modified ≤ y.modified)
      (init blobs actions) := by
    refine ⟨Marks.Accounts.init blobs actions, rfl, rfl, ?_, ?_, ?_, ?_⟩
    · exact (mergeSort_perm _ _).nodup_iff.mpr (hb.filter _)
    · intro b h
      rcases mem_filter.mp (mem_mergeSort.mp h) with ⟨hmem, horphan⟩
      exact ⟨hmem, horphan, by simp [init]⟩
    · intro b hmem horphan
      exact .inr (mem_mergeSort.mpr (mem_filter.mpr ⟨hmem, horphan⟩))
    · intro b h
      simp [init] at h
  rcases Lib.foldUntil_induct (OrphanLoop blobs actions)
    (fun b rest m h _ => OrphanLoop.step hb b rest m h) _ _ hinit with ⟨rest, hrest, hexit⟩
  exact ⟨rest, hrest, hexit.imp_left fun h => by simpa [fits, markOrphans] using h⟩

/-! ## Tier 2 -/

/-- State of the second loop while `pending` references of the evicted action result are to be
released and the action results `rest` are to be visited. -/
structure ActionLoop (blobs : List BlobFile) (actions : List ActionFile) (pending : List Digest)
    (rest : List ActionFile) (m : Marks) : Prop where
  accounts : m.Accounts blobs actions
  rest_nodup : rest.Nodup
  rest_mem : ∀ a ∈ rest, a ∈ actions ∧ a ∉ m.actionRemoved
  covered : ∀ a ∈ actions, a ∈ m.actionRemoved ∨ a ∈ rest
  counts : Counts (actions.flatMap refs) (pending ++ rest.flatMap refs)
    m.refcount
  removed_iff : ∀ b ∈ blobs, b ∈ m.blobRemoved ↔
    ∀ d, b.digest = some d → d ∉ pending ++ rest.flatMap refs

/-- Each digest has at most one blob file. -/
def UniqueBlobs (blobs : List BlobFile) : Prop :=
  ∀ b ∈ blobs, ∀ c ∈ blobs, ∀ d, b.digest = some d → c.digest = some d → b = c

variable {d : Digest}

lemma blobIndex_eq_some (hu : UniqueBlobs blobs) {b : BlobFile} :
    blobIndex blobs d = some b ↔ b ∈ blobs ∧ b.digest = some d := by
  constructor
  · intro h
    have hmem := mem_of_find?_eq_some h
    have hdig := find?_some h
    exact ⟨mem_reverse.mp hmem, by simpa using hdig⟩
  · rintro ⟨hmem, hdig⟩
    cases hfind : blobIndex blobs d with
    | none =>
      have := find?_eq_none.mp hfind b (mem_reverse.mpr hmem)
      simp [hdig] at this
    | some c =>
      have hcmem := mem_reverse.mp (mem_of_find?_eq_some hfind)
      have hcdig : c.digest = some d := by simpa using find?_some hfind
      rw [hu b hmem c hcmem d hdig hcdig]

lemma blobIndex_eq_none : blobIndex blobs d = none ↔ ∀ b ∈ blobs, b.digest ≠ some d := by
  simp [blobIndex]

lemma Counts.release {known refs : List Digest} {counts : Digest → Option Nat} (hd : d ∈ known)
    (h : Counts known (d :: refs) counts) :
    Counts known refs (Function.update counts d (some (refs.count d))) := by
  intro x
  by_cases hx : x = d
  · subst hx
    simp [hd]
  · simp [hx, h x, Ne.symm hx]

lemma ActionLoop.release (hb : blobs.Nodup) (hu : UniqueBlobs blobs) {rest : List ActionFile}
    (d : Digest) (pending : List Digest) (m : Marks) (hd : d ∈ actions.flatMap refs)
    (h : ActionLoop blobs actions (d :: pending) rest m) :
    ActionLoop blobs actions pending rest (m.release blobs d) := by
  have hcount : m.refcount d = some ((pending ++ rest.flatMap refs).count d + 1) := by
    simpa [hd] using h.counts d
  have hcounts : Counts (actions.flatMap refs)
      (pending ++ rest.flatMap refs) _ := Counts.release hd h.counts
  generalize hrefs : pending ++ rest.flatMap refs = refs at *
  have hremoved : ∀ b ∈ blobs, b ∈ m.blobRemoved ↔ ∀ x, b.digest = some x → x ∉ d :: refs := by
    simpa [hrefs] using h.removed_iff
  by_cases hlast : d ∈ refs
  · -- another reference to `d` remains, so the same blobs stay protected
    have hpos := (count_pos_iff.mpr hlast).ne'
    simp only [Marks.release, hcount, Nat.add_sub_cancel, hpos, if_false]
    refine ⟨h.accounts, h.rest_nodup, h.rest_mem, h.covered, hrefs ▸ hcounts, fun b hbm => ?_⟩
    have hiff : ∀ x, x ∈ d :: refs ↔ x ∈ refs := fun x => by
      simp only [mem_cons, or_iff_right_iff_imp]
      rintro rfl
      exact hlast
    simpa only [hrefs, hiff] using hremoved b hbm
  · have hzero : refs.count d = 0 := count_eq_zero_of_not_mem hlast
    rw [hzero] at hcount hcounts
    simp only [Marks.release, hcount, Nat.add_sub_cancel, if_true]
    cases hfind : blobIndex blobs d with
    | none =>
      have hnone := blobIndex_eq_none.mp hfind
      refine ⟨h.accounts, h.rest_nodup, h.rest_mem, h.covered, hrefs ▸ hcounts, fun b hbm => ?_⟩
      have hne : ∀ x, b.digest = some x → x ≠ d := fun x hx e => hnone b hbm (e ▸ hx)
      rw [hremoved b hbm, hrefs]
      exact forall₂_congr fun x hx => by simp [hne x hx]
    | some c =>
      rcases (blobIndex_eq_some hu).mp hfind with ⟨hcm, hcd⟩
      have hkept : c ∉ m.blobRemoved := fun hin =>
        (hremoved c hcm).mp hin d hcd mem_cons_self
      simp only [hkept, if_false]
      refine ⟨Marks.Accounts.removeBlob h.accounts hb hcm hkept, h.rest_nodup, h.rest_mem,
        h.covered, hrefs ▸ hcounts, fun b hbm => ?_⟩
      by_cases hbc : b = c
      · subst hbc
        simp only [removeBlob, mem_cons, true_or, true_iff, hrefs]
        intro x hx
        rw [hcd] at hx
        cases hx
        exact hlast
      · have hne : ∀ x, b.digest = some x → x ≠ d := fun x hx e =>
          hbc (hu b hbm c hcm d (e ▸ hx) hcd)
        simp only [removeBlob, mem_cons, hbc, false_or, hrefs]
        rw [hremoved b hbm]
        exact forall₂_congr fun x hx => by simp [hne x hx]

lemma ActionLoop.evict (hb : blobs.Nodup) (ha : actions.Nodup) (hu : UniqueBlobs blobs)
    (a : ActionFile) (rest : List ActionFile) (m : Marks)
    (h : ActionLoop blobs actions [] (a :: rest) m) :
    ActionLoop blobs actions [] rest (m.evict blobs a) := by
  rcases h.rest_mem a (by simp) with ⟨hmem, hnew⟩
  rcases nodup_cons.mp h.rest_nodup with ⟨hnotin, hrest⟩
  let m₀ : Marks :=
    { m with actionRemoved := a :: m.actionRemoved, bytesAfter := m.bytesAfter - a.size }
  have hstart : ActionLoop blobs actions a.refs rest m₀ := by
    refine ⟨h.accounts.markAction ha hmem hnew, hrest, ?_, ?_, ?_, ?_⟩
    · intro x hx
      rcases h.rest_mem x (by simp [hx]) with ⟨hxm, hxnew⟩
      have hxa : x ≠ a := fun e => hnotin (e ▸ hx)
      exact ⟨hxm, by simp [m₀, hxa, hxnew]⟩
    · intro x hx
      rcases h.covered x hx with hin | hin
      · exact .inl (by simp [m₀, hin])
      · rcases mem_cons.mp hin with rfl | hin
        · exact .inl (by simp [m₀])
        · exact .inr hin
    · simpa using h.counts
    · simpa using h.removed_iff
  have hknown : ∀ d ∈ a.refs, d ∈ actions.flatMap refs := fun d hd =>
    mem_flatMap.mpr ⟨a, hmem, hd⟩
  -- the references still to release are all recorded in the table
  have hloop := Lib.foldl_induct
    (fun pending m => (∀ d ∈ pending, d ∈ actions.flatMap refs) ∧
      ActionLoop blobs actions pending rest m)
    (fun d pending m hd => ⟨fun x hx => hd.1 x (mem_cons_of_mem d hx),
      hd.2.release hb hu d pending m (hd.1 d mem_cons_self)⟩)
    a.refs m₀ ⟨hknown, hstart⟩
  exact hloop.2

/-! ## The whole pass -/

/-- What the marks of a pass guarantee. -/
structure Sound (maxBytes : Nat) (blobs : List BlobFile) (actions : List ActionFile) (m : Marks) :
    Prop where
  accounts : m.Accounts blobs actions
  fits : m.bytesAfter ≤ maxBytes
  owners_marked : ∀ b ∈ blobs, b ∈ m.blobRemoved → ∀ d, b.digest = some d →
    ∀ a ∈ actions, d ∈ a.refs → a ∈ m.actionRemoved
  orphans_first : ∀ a ∈ m.actionRemoved, maxBytes <
    (markOrphans maxBytes blobs actions).bytesAfter ∧
    ∀ b ∈ blobs, isOrphan (countRefs actions) b = true →
      b ∈ (markOrphans maxBytes blobs actions).blobRemoved ∧ b ∈ m.blobRemoved
  released : ∀ b ∈ blobs, ∀ d, b.digest = some d → (∃ a ∈ actions, d ∈ a.refs) →
    (∀ a ∈ actions, d ∈ a.refs → a ∈ m.actionRemoved) → b ∈ m.blobRemoved

lemma Sound.of_no_action (hacc : m.Accounts blobs actions) (hfits : m.bytesAfter ≤ maxBytes)
    (hnone : m.actionRemoved = [])
    (hremoved : ∀ b ∈ m.blobRemoved, isOrphan (countRefs actions) b = true) :
    Sound maxBytes blobs actions m where
  accounts := hacc
  fits := hfits
  owners_marked := by
    intro b _ hb d hd a ha hda
    exact absurd (mem_flatMap.mpr ⟨a, ha, hda⟩)
      ((isOrphan_countRefs actions b).mp (hremoved b hb) d hd)
  orphans_first := by simp [hnone]
  released := by
    rintro b _ d _ ⟨a, ha, hda⟩ hall
    simpa [hnone] using hall a ha hda

lemma Sound.of_actionLoop {rest : List ActionFile} (h : ActionLoop blobs actions [] rest m)
    (hexit : m.bytesAfter ≤ maxBytes ∨ rest = [])
    (hover : maxBytes < (markOrphans maxBytes blobs actions).bytesAfter)
    (horphans : ∀ b ∈ blobs, isOrphan (countRefs actions) b = true →
      b ∈ (markOrphans maxBytes blobs actions).blobRemoved) : Sound maxBytes blobs actions m where
  accounts := h.accounts
  fits := by
    rcases hexit with hfits | rfl
    · exact hfits
    · -- nothing is left to visit, so nothing is kept
      have hblobs : m.keptBlobs blobs = [] := by
        refine filter_eq_nil_iff.mpr fun b hb => ?_
        simpa using (h.removed_iff b hb).mpr (by simp)
      have hactions : m.keptActions actions = [] := by
        refine filter_eq_nil_iff.mpr fun a ha => ?_
        simpa using h.covered a ha
      rw [h.accounts, hblobs, hactions]
      simp [storedBytes]
  owners_marked := by
    intro b hb hrem d hd a ha hda
    refine (h.covered a ha).resolve_right fun hin => ?_
    exact (h.removed_iff b hb).mp hrem d hd (by simpa using ⟨a, hin, hda⟩)
  orphans_first := by
    intro _ _
    refine ⟨hover, fun b hb horphan => ⟨horphans b hb horphan, (h.removed_iff b hb).mpr ?_⟩⟩
    intro d hd hin
    rcases mem_flatMap.mp (by simpa using hin) with ⟨a, ha, hda⟩
    exact (isOrphan_countRefs actions b).mp horphan d hd
      (mem_flatMap.mpr ⟨a, (h.rest_mem a ha).1, hda⟩)
  released := by
    intro b hb d hd _ hall
    refine (h.removed_iff b hb).mpr fun x hx hin => ?_
    rw [hd] at hx
    cases hx
    rcases mem_flatMap.mp (by simpa using hin) with ⟨a, ha, hda⟩
    exact (h.rest_mem a ha).2 (hall a (h.rest_mem a ha).1 hda)

lemma sound_mark (maxBytes : Nat) (hb : blobs.Nodup) (ha : actions.Nodup)
    (hu : UniqueBlobs blobs) : Sound maxBytes blobs actions (mark maxBytes blobs actions) := by
  unfold mark
  split
  case isTrue hfits =>
    exact Sound.of_no_action (Marks.Accounts.init blobs actions) hfits rfl (by simp [init])
  case isFalse hover =>
    rcases markOrphans_spec maxBytes actions hb with ⟨rest, h, hexit⟩
    by_cases hfits : (markOrphans maxBytes blobs actions).bytesAfter ≤ maxBytes
    · -- tier 1 was enough: the loop of tier 2 breaks at once
      have hsame : markActions maxBytes blobs actions = markOrphans maxBytes blobs actions := by
        unfold markActions
        cases actions.mergeSort fun x y => x.modified ≤ y.modified with
        | nil => rfl
        | cons a l => simp [Lib.foldUntil, fits, hfits]
      rw [hsame]
      exact Sound.of_no_action h.accounts hfits h.no_action h.removed_mem
    · obtain rfl : rest = [] := hexit.resolve_left hfits
      have horphans : ∀ b ∈ blobs, isOrphan (countRefs actions) b = true →
          b ∈ (markOrphans maxBytes blobs actions).blobRemoved := fun b hbm horphan =>
        (h.covered b hbm horphan).resolve_right (by simp)
      have hstart : ActionLoop blobs actions []
          (actions.mergeSort fun x y => x.modified ≤ y.modified)
          (markOrphans maxBytes blobs actions) := by
        have hperm := mergeSort_perm actions fun x y => decide (x.modified ≤ y.modified)
        have hrefs := hperm.flatMap_right refs
        refine ⟨h.accounts, hperm.nodup_iff.mpr ha, ?_, ?_, ?_, ?_⟩
        · intro a hin
          exact ⟨hperm.mem_iff.mp hin, by simp [h.no_action]⟩
        · exact fun a hin => .inr (hperm.mem_iff.mpr hin)
        · intro d
          rw [h.refcount_eq, counts_countRefs actions d, nil_append, hrefs.count_eq]
        · intro b hbm
          constructor
          · intro hin d hd hmem
            exact (isOrphan_countRefs actions b).mp (h.removed_mem b hin) d hd
              (hrefs.mem_iff.mp hmem)
          · intro hnone
            refine horphans b hbm ((isOrphan_countRefs actions b).mpr fun d hd hmem => ?_)
            exact hnone d hd (hrefs.mem_iff.mpr hmem)
      have hstep : ∀ a rest m, ActionLoop blobs actions [] (a :: rest) m →
          m.fits maxBytes = false → ActionLoop blobs actions [] rest (m.evict blobs a) :=
        fun a rest m h _ => h.evict hb ha hu a rest m
      rcases Lib.foldUntil_induct _ hstep _ _ hstart with ⟨left, hleft, hdone⟩
      exact Sound.of_actionLoop hleft
        (hdone.imp_left fun h => by simpa [fits, markActions] using h) (by omega) horphans

end OnceBuild.Cas
