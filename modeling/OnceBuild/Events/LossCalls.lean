import OnceBuild.Events.Loss

/-!
# Sequences of calls on the loss intervals

What is stored after any calls is what they recorded and have not acknowledged since.
-/

namespace OnceBuild.Events

open List

variable {R : Type}

inductive LossCall (R : Type) where
  | record (first last : Nat) (reason : R)
  | acknowledgeUpTo (seq : Nat)

/-- The calls record the number under the reason. -/
def Records (calls : List (LossCall R)) (n : Nat) (reason : R) : Prop :=
  ∃ first last, .record first last reason ∈ calls ∧ first ≤ n ∧ n ≤ last

/-- No call acknowledges the number. -/
def Unacknowledged (calls : List (LossCall R)) (n : Nat) : Prop :=
  ∀ seq, .acknowledgeUpTo seq ∈ calls → seq < n

/-- The calls record the number under the reason and do not acknowledge it afterwards. -/
def Pending : List (LossCall R) → Nat → R → Prop
  | [], _, _ => False
  | .record first last reason :: rest, n, r =>
    (((first ≤ n ∧ n ≤ last) ∧ r = reason) ∧ Unacknowledged rest n) ∨ Pending rest n r
  | .acknowledgeUpTo _ :: rest, n, r => Pending rest n r

namespace LossIntervals

variable {s : LossIntervals R}

/-- A lost number is left out of a snapshot if the losses with its reason run on to the end. -/
lemma lostAs_snapshotBefore (hmerged : Merged s.intervals) (before n : Nat) (r : R) :
    LostAs (s.snapshotBefore before) n r ↔
      s.Lost n r ∧ ∃ m, n < m ∧ m ≤ before ∧ ¬s.Lost m r := by
  constructor
  · rintro ⟨i, hi, hin, rfl⟩
    obtain ⟨his, hbefore⟩ := mem_filter.mp hi
    simp only [Bool.and_eq_true, decide_eq_true_eq] at hbefore
    refine ⟨⟨i, his, hin, rfl⟩, i.last + 1, Nat.lt_succ_of_le hin.2, hbefore.2, ?_⟩
    rintro ⟨j, hj, ⟨hfirst, hlast⟩, hr⟩
    have := hmerged i his j hj hr.symm
    have := s.separate.nonempty i his
    rcases s.separate.before_or_after his hj with rfl | h | h <;> omega
  · rintro ⟨⟨i, hi, hin, rfl⟩, m, hm, hle, hnot⟩
    refine ⟨i, mem_filter.mpr ⟨hi, ?_⟩, hin, rfl⟩
    have hlast : i.last < m := not_le.mp fun hle' =>
      hnot ⟨i, hi, ⟨by have := hin.1; omega, hle'⟩, rfl⟩
    have := s.separate.nonempty i hi
    simp only [Bool.and_eq_true, decide_eq_true_eq]
    omega

variable [DecidableEq R]

def call (s : LossIntervals R) : LossCall R → Option (LossIntervals R)
  | .record first last reason => s.record first last reason
  | .acknowledgeUpTo seq => some (s.acknowledgeUpTo seq)

lemma exact_calls {calls : List (LossCall R)} (hmerged : Merged s.intervals)
    (hranges : ∀ first last reason, .record first last reason ∈ calls → first ≤ last)
    (hreasons : ∀ n r r', s.Lost n r ∨ Records calls n r → Records calls n r' → r = r') :
    ∃ s', calls.foldlM call s = some s' ∧ Merged s'.intervals ∧
      ∀ n r, s'.Lost n r ↔ (s.Lost n r ∧ Unacknowledged calls n) ∨ Pending calls n r := by
  induction calls generalizing s with
  | nil => exact ⟨s, rfl, hmerged, fun n r => by simp [Unacknowledged, Pending]⟩
  | cons c rest ih =>
    have hrest : ∀ n r, Records rest n r → Records (c :: rest) n r :=
      fun n r ⟨first, last, hmem, hn⟩ => ⟨first, last, mem_cons_of_mem c hmem, hn⟩
    have hranges' := fun first last reason hmem =>
      hranges first last reason (mem_cons_of_mem c hmem)
    cases c with
    | record first last reason =>
      have hown : ∀ n, first ≤ n → n ≤ last →
        Records (.record first last reason :: rest) n reason :=
        fun n hfirst hlast => ⟨first, last, mem_cons_self, hfirst, hlast⟩
      obtain ⟨s₁, hs₁⟩ := s.exists_record (hranges first last reason mem_cons_self)
        fun n r hfirst hlast hlost => hreasons n r reason (.inl hlost) (hown n hfirst hlast)
      obtain ⟨s', hs', hmerged', hlost⟩ := ih (merged_record hs₁ hmerged) hranges'
        fun n r r' h h' => by
          refine hreasons n r r' ?_ (hrest n r' h')
          rw [lost_record hs₁] at h
          rcases h with (h | ⟨⟨hfirst, hlast⟩, rfl⟩) | h
          · exact .inl h
          · exact .inr (hown n hfirst hlast)
          · exact .inr (hrest n r h)
      refine ⟨s', Option.bind_eq_some_iff.mpr ⟨s₁, hs₁, hs'⟩, hmerged', fun n r => ?_⟩
      have hacks : Unacknowledged (.record first last reason :: rest) n ↔
        Unacknowledged rest n := by
        simp [Unacknowledged]
      rw [hlost, lost_record hs₁, hacks, or_and_right, or_assoc]
      rfl
    | acknowledgeUpTo seq =>
      obtain ⟨s', hs', hmerged', hlost⟩ := ih (merged_acknowledgeUpTo seq hmerged) hranges'
        fun n r r' h h' => by
          refine hreasons n r r' ?_ (hrest n r' h')
          exact h.imp (fun h => ((lost_acknowledgeUpTo s seq n r).mp h).1) (hrest n r)
      refine ⟨s', hs', hmerged', fun n r => ?_⟩
      have hacks : Unacknowledged (.acknowledgeUpTo seq :: rest : List (LossCall R)) n ↔
          seq < n ∧ Unacknowledged rest n := by
        simp [Unacknowledged]
      rw [hlost, lost_acknowledgeUpTo, hacks, and_assoc]
      rfl

/-- The calls go through, the intervals are in order, do not overlap and touch only where the
reasons differ, and hold what was recorded and not acknowledged since.  A snapshot has the losses
that do not run on to its end. -/
theorem loss_intervals_exact (calls : List (LossCall R))
    (hranges : ∀ first last reason, .record first last reason ∈ calls → first ≤ last)
    (hreasons : ∀ n r r', Records calls n r → Records calls n r' → r = r') :
    ∃ s, calls.foldlM call new = some s ∧ Separate s.intervals ∧ Merged s.intervals ∧
      (∀ n r, s.Lost n r ↔ Pending calls n r) ∧
      ∀ before n r, LostAs (s.snapshotBefore before) n r ↔
        s.Lost n r ∧ ∃ m, n < m ∧ m ≤ before ∧ ¬s.Lost m r := by
  have hnew : ∀ n r, ¬(new : LossIntervals R).Lost n r := fun n r ⟨i, hi, _⟩ => nomatch hi
  obtain ⟨s, hs, hmerged, hlost⟩ := exact_calls (s := new) (fun i hi => nomatch hi) hranges
    fun n r r' h => hreasons n r r' (h.resolve_left (hnew n r))
  refine ⟨s, hs, s.separate, hmerged, fun n r => ?_, lostAs_snapshotBefore hmerged⟩
  rw [hlost, or_iff_right fun h => hnew n r h.1]

/-- Two losses that touch. -/
theorem loss_intervals_exact_touching : ∃ s : LossIntervals Unit,
    [LossCall.record 1 2 (), .record 3 4 ()].foldlM call new = some s ∧ Merged s.intervals := by
  obtain ⟨s, hs, -, hmerged, -⟩ := loss_intervals_exact
    [LossCall.record 1 2 (), .record 3 4 ()] (by simp; omega) fun _ _ _ _ _ => rfl
  exact ⟨s, hs, hmerged⟩

/-- A number that is recorded after a greater one was acknowledged is kept, and a snapshot leaves
out an interval that goes on past its end. -/
theorem late_record_is_kept :
    (∃ s : LossIntervals Unit,
      [LossCall.acknowledgeUpTo 5, .record 3 3 ()].foldlM call new = some s ∧
      s.Lost 3 ()) ∧
    ∃ s : LossIntervals Unit, [LossCall.record 1 10 ()].foldlM call new = some s ∧
      s.Lost 1 () ∧ s.snapshotBefore 5 = [] :=
  ⟨⟨_, rfl, ⟨3, 3, ()⟩, by decide, ⟨le_rfl, le_rfl⟩, rfl⟩,
    ⟨_, rfl, ⟨⟨1, 10, ()⟩, by decide, ⟨le_rfl, by decide⟩, rfl⟩, rfl⟩⟩

end LossIntervals

end OnceBuild.Events
