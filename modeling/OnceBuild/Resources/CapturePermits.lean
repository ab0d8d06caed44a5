import Mathlib.Algebra.Group.Nat.Defs
import Mathlib.Data.List.Nodup
import OnceBuild.Lib.Runs

/-!
# Capture allowances

Every hosted action reserves its whole capture allowance before it starts.  The permit of an action
is shared by its clones; `reserve_upfront` first looks whether the permit has a grant, then waits
for units of the pool in the order of arrival, and then stores what it got unless another call was
faster.  These are separate steps, so calls on clones of one permit can overlap.
-/

namespace OnceBuild.Resources

open List

def unitBytes : Nat := 65536

/-- `Units::new` for the capture pool; the smaller bound of the semaphore is its own. -/
def poolUnits (maxPermits bytes : Nat) : Nat :=
  min (min (bytes / unitBytes) (2 ^ 32 - 1)) maxPermits

/-- The units of an allowance of so many bytes. -/
def allowanceUnits (limit : Nat) : Nat := (limit + unitBytes - 1) / unitBytes

/-- A call of `reserve_upfront` and the action whose permit it is made on. -/
abbrev ReserveCall := Nat × Nat

structure CapturePool where
  available : Nat
  /-- How many clones of its permit each action has. -/
  clones : Nat → Nat
  /-- The actions whose permit has a grant. -/
  grants : List Nat
  /-- Calls that found no grant and have not asked the pool yet. -/
  checked : List ReserveCall
  /-- Calls that wait for units, in order of arrival. -/
  queue : List ReserveCall
  /-- Calls that got their units and have not stored them yet. -/
  granted : List ReserveCall

/-- `clone` is also the first permit of an action, from `capture`. -/
inductive CaptureOp where
  | clone (action : Nat)
  | drop (action : Nat)
  | check (call : ReserveCall)
  | acquire (call : ReserveCall)
  | store (call : ReserveCall)
  | cancel (call : ReserveCall)

namespace CapturePool

variable (need units : Nat)

/-- Give units to the calls at the head of the queue, as far as they go. -/
def grantFront : Nat → List ReserveCall → List ReserveCall →
    Nat × List ReserveCall × List ReserveCall
  | available, [], granted => (available, [], granted)
  | available, call :: queue, granted =>
    if need ≤ available then grantFront (available - need) queue (granted ++ [call])
    else (available, call :: queue, granted)

def serve (s : CapturePool) : CapturePool :=
  let served := grantFront need s.available s.queue s.granted
  { s with available := served.1, queue := served.2.1, granted := served.2.2 }

def inFlight (s : CapturePool) : List ReserveCall := s.checked ++ s.queue ++ s.granted

/-- What a step does to the permits and the calls; `need` are the units of an allowance and `units`
those of the pool. -/
def change (s : CapturePool) : CaptureOp → Option CapturePool
  | .clone a => some { s with clones := Function.update s.clones a (s.clones a + 1) }
  | .drop a =>
    -- a call borrows a clone of its permit
    if s.clones a = 0 ∨ s.clones a = 1 ∧ a ∈ s.inFlight.map Prod.snd then none
    else
      let s' := { s with clones := Function.update s.clones a (s.clones a - 1) }
      if s.clones a = 1 ∧ a ∈ s.grants then
        some { s' with grants := s.grants.erase a, available := s.available + need }
      else some s'
  | .check call =>
    if s.clones call.2 = 0 then none
    else if call.2 ∈ s.grants then some s
    else some { s with checked := s.checked ++ [call] }
  | .acquire call =>
    if call ∉ s.checked then none
    else
      let s' := { s with checked := s.checked.erase call }
      if units < need then some s'  -- the request can never be met
      else some { s' with queue := s.queue ++ [call] }
  | .store call =>
    if call ∉ s.granted then none
    else
      let s' := { s with granted := s.granted.erase call }
      if call.2 ∈ s.grants then some { s' with available := s.available + need }
      else some { s' with grants := s.grants ++ [call.2] }
  | .cancel call =>
    if call ∈ s.checked then some { s with checked := s.checked.erase call }
    else if call ∈ s.queue then some { s with queue := s.queue.erase call }
    else if call ∈ s.granted then
      some { s with granted := s.granted.erase call, available := s.available + need }
    else none

/-- A step; units that are free go to the calls that wait for them. -/
def step (s : CapturePool) (op : CaptureOp) : Option CapturePool :=
  (s.change need units op).map (serve need)

def new : CapturePool := ⟨units, fun _ => 0, [], [], [], []⟩

/-- The actions that hold an allowance, once for each. -/
def holders (s : CapturePool) : List Nat := s.grants ++ s.granted.map Prod.snd

/-- A call waits and all that is held is held by its own action. -/
def BlocksItself (s : CapturePool) (call : ReserveCall) : Prop :=
  call ∈ s.queue ∧ s.holders ≠ [] ∧ ∀ action ∈ s.holders, action = call.2

/-- No call finds its permit without a grant while another call on that permit is under way. -/
def Alone (s : CapturePool) : CaptureOp → Prop
  | .check call => call.2 ∈ s.grants ∨ call.2 ∉ s.inFlight.map Prod.snd
  | _ => True

/-! ## What a step changes -/

/-- The calls of an action among some calls. -/
def callsOf (calls : List ReserveCall) (action : Nat) : Nat := (calls.map Prod.snd).count action

lemma callsOf_erase {calls : List ReserveCall} {call : ReserveCall} (action : Nat) :
    call ∈ calls →
    callsOf calls action =
      callsOf (calls.erase call) action + if call.2 = action then 1 else 0 := by
  intro hmem
  have hcount := ((perm_cons_erase hmem).map Prod.snd).count_eq action
  rw [map_cons, count_cons] at hcount
  simpa [callsOf] using hcount

lemma callsOf_append (calls : List ReserveCall) (call : ReserveCall) (action : Nat) :
    callsOf (calls ++ [call]) action = callsOf calls action + if call.2 = action then 1 else 0 := by
  simp [callsOf, count_cons]

/-- The calls of an action that are under way, and its grant. -/
def claims (s : CapturePool) (action : Nat) : Nat :=
  callsOf s.checked action + callsOf s.queue action + callsOf s.granted action +
    s.grants.count action

/-- Units that are free or held. -/
def total (s : CapturePool) : Nat := s.available + need * (s.grants.length + s.granted.length)

lemma grantFront_spec (available : Nat) (queue granted : List ReserveCall) :
    (grantFront need available queue granted).1 +
        need * (grantFront need available queue granted).2.2.length =
      available + need * granted.length ∧
    ∀ action, callsOf (grantFront need available queue granted).2.1 action +
        callsOf (grantFront need available queue granted).2.2 action =
      callsOf queue action + callsOf granted action := by
  fun_induction grantFront need available queue granted with
  | case1 | case3 => exact ⟨rfl, fun _ => rfl⟩
  | case2 available call queue granted hle ih =>
    refine ⟨?_, fun action => (ih.2 action).trans ?_⟩
    · rw [ih.1, length_append, length_singleton, Nat.mul_add]
      omega
    · rw [callsOf_append]
      simp only [callsOf, map_cons, count_cons, beq_iff_eq]
      omega

variable {need units} {s s' : CapturePool}

lemma total_serve (s : CapturePool) : total need (s.serve need) = total need s := by
  have hunits := (grantFront_spec need s.available s.queue s.granted).1
  simp only [total, serve, Nat.mul_add]
  omega

lemma claims_serve (s : CapturePool) (action : Nat) :
    (s.serve need).claims action = s.claims action := by
  have hcalls := (grantFront_spec need s.available s.queue s.granted).2 action
  simp only [claims, serve]
  omega

lemma total_erase {α : Type} [BEq α] [LawfulBEq α] {l : List α} {x : α} (need others : Nat) :
    x ∈ l → need + need * (others + (l.erase x).length) = need * (others + l.length) := by
  intro hmem
  have hlength := (perm_cons_erase hmem).length_eq
  rw [hlength, length_cons, ← Nat.add_assoc, Nat.mul_add_one, Nat.add_comm]

/-- No step changes the number of units, or gives an action a second grant; only a check without a
grant adds to what an action claims. -/
lemma change_spec {op : CaptureOp} :
    s.change need units op = some s' →
    total need s' = total need s ∧ (s.grants.Nodup → s'.grants.Nodup) ∧
      ((∀ action, s'.claims action ≤ s.claims action) ∨
        ∃ call, op = .check call ∧ call.2 ∉ s.grants ∧
          ∀ action, s'.claims action = s.claims action + if call.2 = action then 1 else 0) := by
  intro hchange
  cases op <;> simp only [change] at hchange
  case clone a =>
    cases hchange
    exact ⟨rfl, id, .inl fun _ => Nat.le_refl _⟩
  case drop a =>
    split at hchange
    case isTrue => cases hchange
    split at hchange <;> cases hchange
    case isFalse.isFalse => exact ⟨rfl, id, .inl fun _ => Nat.le_refl _⟩
    case isFalse.isTrue hlast =>
      refine ⟨?_, fun h => h.erase a, .inl fun action => ?_⟩
      · have := total_erase need s.granted.length hlast.2
        simp only [total, Nat.add_comm _ s.granted.length]
        omega
      · have := (erase_sublist : s.grants.erase a <+ s.grants).count_le action
        simp only [claims]
        omega
  case check call =>
    split at hchange
    case isTrue => cases hchange
    split at hchange <;> cases hchange
    case isFalse.isTrue => exact ⟨rfl, id, .inl fun _ => Nat.le_refl _⟩
    case isFalse.isFalse hnone =>
      refine ⟨rfl, id, .inr ⟨call, rfl, hnone, fun action => ?_⟩⟩
      simp only [claims, callsOf_append]
      omega
  case acquire call =>
    split at hchange
    case isTrue => cases hchange
    case isFalse hmem =>
      split at hchange <;> cases hchange <;>
        refine ⟨rfl, id, .inl fun action => ?_⟩ <;>
        have := callsOf_erase action (not_not.mp hmem) <;>
        simp only [claims, callsOf_append] <;> omega
  case store call =>
    split at hchange
    case isTrue => cases hchange
    case isFalse hmem =>
      have hmem := not_not.mp hmem
      have hunits := total_erase need s.grants.length hmem
      split at hchange <;> cases hchange
      case isTrue =>
        refine ⟨?_, id, .inl fun action => ?_⟩
        · simp only [total]
          omega
        · have := callsOf_erase action hmem
          simp only [claims]
          omega
      case isFalse hnew =>
        refine ⟨?_, fun h => concat_eq_append ▸ h.concat hnew, .inl fun action => ?_⟩
        · simp only [total, length_append, length_singleton, Nat.add_right_comm _ 1, Nat.mul_add,
            Nat.mul_one] at hunits ⊢
          omega
        · have := callsOf_erase action hmem
          simp only [claims, count_append, count_singleton, beq_iff_eq]
          omega
  case cancel call =>
    split at hchange
    case isTrue hmem =>
      cases hchange
      refine ⟨rfl, id, .inl fun action => ?_⟩
      have := callsOf_erase action hmem
      simp only [claims]
      omega
    split at hchange
    case isFalse.isTrue hmem =>
      cases hchange
      refine ⟨rfl, id, .inl fun action => ?_⟩
      have := callsOf_erase action hmem
      simp only [claims]
      omega
    split at hchange <;> cases hchange
    case isFalse.isFalse.isTrue hmem =>
      have := total_erase need s.grants.length hmem
      refine ⟨?_, id, .inl fun action => ?_⟩
      · simp only [total]
        omega
      · have := callsOf_erase action hmem
        simp only [claims]
        omega

/-! ## Runs -/

lemma accounts_of_reachable {ok : CapturePool → CaptureOp → Prop} :
    Lib.Reachable (step need units) ok (new units) s →
    total need s = units ∧ s.grants.Nodup := by
  intro h
  refine h.invariant (P := fun s => total need s = units ∧ s.grants.Nodup) ?_ ?_
  · exact ⟨by simp [total, new], nodup_nil⟩
  · rintro s op s' ⟨htotal, hnodup⟩ - hstep
    obtain ⟨changed, hchange, rfl⟩ := Option.map_eq_some_iff.mp hstep
    obtain ⟨hsame, hkeep, -⟩ := change_spec hchange
    exact ⟨(total_serve changed).trans (hsame.trans htotal), hkeep hnodup⟩

lemma claims_le_one_of_reachable :
    Lib.Reachable (step need units) Alone (new units) s → ∀ action, s.claims action ≤ 1 := by
  intro h
  refine h.invariant (P := fun s => ∀ action, s.claims action ≤ 1) ?_ ?_
  · simp [claims, callsOf, new]
  · intro s op s' hone halone hstep action
    obtain ⟨changed, hchange, rfl⟩ := Option.map_eq_some_iff.mp hstep
    rw [claims_serve]
    obtain ⟨-, -, hless | ⟨call, rfl, hnone, hadds⟩⟩ := change_spec hchange
    · exact Nat.le_trans (hless action) (hone action)
    · -- the call is the only one of its action, and there is no grant
      rw [hadds action]
      split
      case isFalse => exact hone action
      case isTrue heq =>
        subst heq
        obtain hgrant | hidle := halone
        · exact absurd hgrant hnone
        · have hzero : s.claims call.2 = 0 := by
            simp only [inFlight, map_append, mem_append, not_or] at hidle
            simp [claims, callsOf, count_eq_zero_of_not_mem, hidle, hnone]
          omega

/-- The allowances fit in the pool and an action without calls under way holds one at most.  In runs
in which no call finds its permit without a grant while another call on it is under way, no call
waits for what its own action holds. -/
theorem reservations_safe (maxPermits poolBytes limit : Nat) :
    (∀ s, Lib.Reachable (step (allowanceUnits limit) (poolUnits maxPermits poolBytes))
        (fun _ _ => True) (new (poolUnits maxPermits poolBytes)) s →
      limit * s.holders.length ≤ poolBytes ∧
        ∀ action, action ∉ s.inFlight.map Prod.snd → s.holders.count action ≤ 1) ∧
    ∀ s, Lib.Reachable (step (allowanceUnits limit) (poolUnits maxPermits poolBytes)) Alone
        (new (poolUnits maxPermits poolBytes)) s →
      ∀ call, ¬s.BlocksItself call := by
  refine ⟨fun s h => ⟨?_, fun action hidle => ?_⟩, ?_⟩
  · obtain ⟨htotal, -⟩ := accounts_of_reachable h
    have hlimit : limit ≤ allowanceUnits limit * unitBytes := by
      unfold allowanceUnits unitBytes
      omega
    calc limit * s.holders.length
        ≤ allowanceUnits limit * unitBytes * s.holders.length := Nat.mul_le_mul_right _ hlimit
      _ = allowanceUnits limit * (s.grants.length + s.granted.length) * unitBytes := by
          rw [Nat.mul_right_comm, holders, length_append, length_map]
      _ ≤ poolUnits maxPermits poolBytes * unitBytes :=
          Nat.mul_le_mul_right _ (htotal ▸ Nat.le_add_left _ _)
      _ ≤ poolBytes := by
          unfold poolUnits unitBytes
          omega
  · have honce := nodup_iff_count_le_one.mp (accounts_of_reachable h).2 action
    simp only [inFlight, map_append, mem_append, not_or] at hidle
    rw [holders, count_append, count_eq_zero_of_not_mem hidle.2]
    exact honce
  · rintro s h call ⟨hqueue, hheld, hown⟩
    have hone := claims_le_one_of_reachable h call.2
    have hwaits : 1 ≤ callsOf s.queue call.2 := count_pos_iff.mpr (mem_map_of_mem hqueue)
    obtain ⟨action, haction⟩ := exists_mem_of_ne_nil _ hheld
    have hholds := count_pos_iff.mpr (hown action haction ▸ haction)
    simp only [holders, claims, callsOf, count_append] at hone hwaits hholds
    omega

/-- Two calls on clones of one permit, in a pool for one allowance. -/
def overlappingCalls : List CaptureOp :=
  [.clone 0, .clone 0, .check (0, 0), .check (1, 0), .acquire (0, 0), .store (0, 0),
    .acquire (1, 0)]

theorem overlappingCalls_block :
    ∃ s, Lib.Reachable (step (allowanceUnits 65536) (poolUnits 65536 65536)) (fun _ _ => True)
      (new (poolUnits 65536 65536)) s ∧ s.BlocksItself (1, 0) := by
  have hrun : Lib.runSteps (step (allowanceUnits 65536) (poolUnits 65536 65536))
      (new (poolUnits 65536 65536)) overlappingCalls = some _ := rfl
  exact ⟨_, Lib.Reachable.start.runSteps hrun, by decide, by decide, by decide⟩

end CapturePool

end OnceBuild.Resources
