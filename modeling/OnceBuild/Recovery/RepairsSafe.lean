import OnceBuild.Recovery.Producers

/-!
# Repairs neither deadlock nor repeat

The edges of the registry are exactly the calls that repairs are in, so the search of `beginWait`
looks at the real waits and an edge that would close a cycle is never added.  A digest enters the
repair table once and its repair spends its execution once, so nothing runs twice, and every call
that reaches the table gets the one answer kept there.
-/

namespace OnceBuild.Recovery

open List Function

open Cas (Digest)

namespace Producers

/-! ## What a step can do -/

inductive Change (limits : RepairLimits) (s : Producers) : Producers → Prop
  | recorded (byOutput : List (Output × Producer)) : Change limits s { s with byOutput }
  | refused (digest : Digest) (message : String) :
      Change limits s (s.reply digest (.refused message))
  | entered (call : Call) : s.callOf call.id = none → call.waiter = none →
      Change limits s (s.enter call)
  | waited (call : Call) (w : Digest) : s.callOf call.id = none → call.waiter = some w →
      (∃ me depth, s.repairs w = some (.rerunning me depth)) →
      (∀ c ∈ s.calls, c.waiter ≠ some w) → ¬ Lib.reaches s.waits call.producer.action w = true →
      Change limits s
        ({ s with waits := s.waits.insert (w, call.producer.action) }.enter call)
  | joined (call : Call) : Change limits s (s.join call)
  | exhausted (digest : Digest) (producer : Producer) (depth : Nat) (outcome : RepairOutcome) :
      s.repairs digest = some (.spawned producer depth) →
      Change limits s
        { s with repairs := Function.update s.repairs digest (some (.answered outcome)) }
  | reran (digest : Digest) (producer : Producer) (depth remaining : Nat) :
      s.repairs digest = some (.spawned producer depth) → s.remaining = remaining + 1 →
      Change limits s
        { s with
          remaining
          repairs := Function.update s.repairs digest (some (.rerunning producer depth))
          reruns := digest :: s.reruns }
  | finished (digest : Digest) (outcome : RepairOutcome) (producer : Producer) (depth : Nat) :
      s.repairs digest = some (.rerunning producer depth) →
      Change limits s (s.finish digest outcome)
  | answered (call : Call) (outcome : RepairOutcome) : s.callOf call.id = some call →
      s.repairs call.producer.action = some (.answered outcome) →
      Change limits s
        (((s.endWait call).remove call.id).reply call.producer.action (.answered outcome))
  | left (call : Call) : s.callOf call.id = some call → call.waiter = none →
      Change limits s (s.remove call.id)

variable {s : Producers} {id : Nat} {call : Call}

lemma callOf_id (h : s.callOf id = some call) : call.id = id := by
  simpa using find?_some h

lemma change_ask_none (limits : RepairLimits) (s : Producers) (depth : Nat) (producer : Producer)
    (hid : s.callOf id = none) : Change limits s (s.ask limits id none depth producer) := by
  simp only [ask]
  split_ifs
  · exact .refused _ _
  · exact .entered _ hid rfl

lemma change_ask_some (limits : RepairLimits) (s : Producers) {w : Digest} (depth : Nat)
    (producer : Producer) (hid : s.callOf id = none)
    (hrun : ∃ me depth, s.repairs w = some (.rerunning me depth))
    (hfree : ∀ c ∈ s.calls, c.waiter ≠ some w) :
    Change limits s (s.ask limits id (some w) depth producer) := by
  simp only [ask]
  split_ifs
  · exact .refused _ _
  · by_cases hcycle : w = producer.action ∨ Lib.reaches s.waits producer.action w = true
    · simp only [beginWait, if_pos hcycle]
      exact .refused _ _
    · simp only [beginWait, if_neg hcycle]
      exact .waited ⟨id, some w, depth, producer, false⟩ w hid rfl hrun hfree
        (fun h => hcycle (.inr h))

lemma spendRepair_cases (s : Producers) : s.spendRepair = none ∨
      ∃ remaining, s.remaining = remaining + 1 ∧ s.spendRepair = some { s with remaining } := by
  simp only [spendRepair]
  split
  · exact .inl rfl
  · rename_i remaining hleft
    exact .inr ⟨remaining, hleft, rfl⟩

variable {digest : Digest} {producer : Producer} {depth : Nat}

lemma change_start (limits : RepairLimits) (s : Producers)
    (h : s.repairs digest = some (.spawned producer depth)) :
    Change limits s (s.start limits digest producer depth) := by
  rcases spendRepair_cases s with hspend | ⟨remaining, hleft, hspend⟩
  · simp only [start, hspend]
    exact .exhausted digest producer depth _ h
  · simp only [start, hspend]
    exact .reran digest producer depth remaining h hleft

variable {limits : RepairLimits} {s' : Producers}

lemma change_step {e : Event} (h : s.step limits e = some s') : Change limits s s' := by
  cases e with
  | record producer =>
    simp only [step, record, Option.some.injEq] at h
    subst h
    split_ifs
    · exact .recorded s.byOutput
    · exact .recorded _
  | restore id output =>
    simp only [step] at h
    split at h
    · rename_i producer hid _
      cases h
      exact change_ask_none limits s 0 producer hid
    · cases h
  | restoreInput id waiter input =>
    simp only [step] at h
    split at h
    · rename_i me depth producer hrun hid _
      split_ifs at h with hok
      cases h
      exact change_ask_some limits s (depth + 1) producer hid ⟨me, depth, hrun⟩ hok.2
    · cases h
  | join id =>
    simp only [step] at h
    split at h
    · rename_i call _
      split_ifs at h
      cases h
      exact .joined call
    · cases h
  | start digest =>
    simp only [step] at h
    split at h
    · rename_i producer depth hrun
      cases h
      exact change_start limits s hrun
    · cases h
  | finish digest outcome =>
    simp only [step] at h
    split at h
    · rename_i producer depth hrun
      cases h
      exact .finished digest outcome producer depth hrun
    · cases h
  | answer id =>
    simp only [step] at h
    split at h
    · rename_i call hcall
      split_ifs at h
      split at h
      · rename_i outcome hrun
        cases h
        obtain rfl := callOf_id hcall
        exact .answered call outcome hcall hrun
      · cases h
    · cases h
  | leave id =>
    simp only [step] at h
    split at h
    · rename_i call hcall
      split_ifs at h with hwaiter
      cases h
      obtain rfl := callOf_id hcall
      exact .left call hcall hwaiter
    · cases h

/-! ## Calls and edges -/

/-- The edges are those of the calls that repairs are in, and a repair is in one call at most. -/
structure EdgesMatch (s : Producers) : Prop where
  edge_iff : ∀ d e, (d, e) ∈ s.waits ↔ s.WaitsFor d e
  ids : ∀ c ∈ s.calls, ∀ c' ∈ s.calls, c.id = c'.id → c = c'
  waiters : ∀ c ∈ s.calls, ∀ c' ∈ s.calls, ∀ d, c.waiter = some d → c'.waiter = some d → c = c'
  rerunning : ∀ c ∈ s.calls, ∀ d, c.waiter = some d →
    ∃ me depth, s.repairs d = some (.rerunning me depth)

lemma callOf_eq_none (h : s.callOf id = none) : ∀ c ∈ s.calls, c.id ≠ id := by
  simpa [callOf] using h

/-- Adding a repair, or letting one start or end, changes no call as long as the repairs that are
in a call still run. -/
lemma EdgesMatch.of_repairs (h : s.EdgesMatch) (hcalls : s'.calls = s.calls)
    (hwaits : s'.waits = s.waits)
    (hrepairs : ∀ d me depth, s.repairs d = some (.rerunning me depth) →
      ∃ me depth, s'.repairs d = some (.rerunning me depth)) : s'.EdgesMatch where
  edge_iff d e := by simpa only [WaitsFor, hcalls, hwaits] using h.edge_iff d e
  ids := by simpa only [hcalls] using h.ids
  waiters := by simpa only [hcalls] using h.waiters
  rerunning c hc d hw := by
    obtain ⟨me, depth, hrun⟩ := h.rerunning c (hcalls ▸ hc) d hw
    exact hrepairs d me depth hrun

lemma EdgesMatch.of_filter (h : s.EdgesMatch) (p : Call → Bool)
    (hcalls : s'.calls = s.calls.filter p)
    (hwaits : ∀ d e, (d, e) ∈ s'.waits ↔
      ∃ c ∈ s.calls, p c = true ∧ c.waiter = some d ∧ c.producer.action = e)
    (hrepairs : ∀ c ∈ s.calls, p c = true → ∀ d, c.waiter = some d → s'.repairs d = s.repairs d) :
    s'.EdgesMatch where
  edge_iff d e := by
    rw [hwaits]
    simp only [WaitsFor, hcalls, mem_filter, and_assoc]
  ids c hc c' hc' := by
    rw [hcalls] at hc hc'
    exact h.ids c (mem_of_mem_filter hc) c' (mem_of_mem_filter hc')
  waiters c hc c' hc' := by
    rw [hcalls] at hc hc'
    exact h.waiters c (mem_of_mem_filter hc) c' (mem_of_mem_filter hc')
  rerunning c hc d hw := by
    rw [hcalls] at hc
    obtain ⟨hc, hp⟩ := mem_filter.mp hc
    rw [hrepairs c hc hp d hw]
    exact h.rerunning c hc d hw

lemma EdgesMatch.enter (h : s.EdgesMatch) (hid : s.callOf call.id = none)
    (hcalls : s'.calls = call :: s.calls) (hrepairs : s'.repairs = s.repairs)
    (hwaits : ∀ d e, (d, e) ∈ s'.waits ↔
      (call.waiter = some d ∧ call.producer.action = e) ∨ (d, e) ∈ s.waits)
    (hfree : ∀ w, call.waiter = some w → (∃ me depth, s.repairs w = some (.rerunning me depth)) ∧
      ∀ c ∈ s.calls, c.waiter ≠ some w) : s'.EdgesMatch where
  edge_iff d e := by
    rw [hwaits, h.edge_iff]
    simp [WaitsFor, hcalls]
  ids c hc c' hc' heq := by
    rw [hcalls] at hc hc'
    have hnew := callOf_eq_none hid
    rcases mem_cons.mp hc with rfl | old <;> rcases mem_cons.mp hc' with rfl | old'
    · rfl
    · exact absurd heq.symm (hnew c' old')
    · exact absurd heq (hnew c old)
    · exact h.ids c old c' old' heq
  waiters c hc c' hc' d hd hd' := by
    rw [hcalls] at hc hc'
    rcases mem_cons.mp hc with rfl | old <;> rcases mem_cons.mp hc' with rfl | old'
    · rfl
    · exact absurd hd' ((hfree d hd).2 c' old')
    · exact absurd hd ((hfree d hd').2 c old)
    · exact h.waiters c old c' old' d hd hd'
  rerunning c hc d hd := by
    rw [hcalls] at hc
    rw [hrepairs]
    rcases mem_cons.mp hc with rfl | hc
    · exact (hfree d hd).1
    · exact h.rerunning c hc d hd

variable {d : Digest} {r : Repair}

lemma join_repairs (s : Producers) (call : Call) (h : s.repairs d = some r) :
    (s.join call).repairs d = some r := by
  cases hold : s.repairs call.producer.action with
  | none =>
    have hne : d ≠ call.producer.action := by
      rintro rfl
      rw [hold] at h
      cases h
    simp only [join, hold]
    rw [update_of_ne hne, h]
  | some _ => simpa only [join, hold] using h

lemma update_spawned {r' : Repair} (hspawned : s.repairs digest = some (.spawned producer depth))
    (hr : s.repairs d = some r) (hne : r ≠ .spawned producer depth) :
    Function.update s.repairs digest (some r') d = some r := by
  rw [update_of_ne _, hr]
  rintro rfl
  rw [hspawned] at hr
  exact hne (Option.some.inj hr).symm

lemma EdgesMatch.join (h : s.EdgesMatch) (call : Call) : (s.join call).EdgesMatch := by
  -- marking a call as joined changes neither its id, its waiter nor what it waits for
  have hmark : ∀ c ∈ (s.join call).calls, ∃ old ∈ s.calls, c.waiter = old.waiter ∧
      c = if old.id = call.id then { old with joined := true } else old := by
    intro c hc
    obtain ⟨old, hold, rfl⟩ := mem_map.mp hc
    refine ⟨old, hold, ?_, rfl⟩
    split_ifs <;> rfl
  refine ⟨fun d e => ?_, ?_, ?_, ?_⟩
  · refine (h.edge_iff d e).trans ?_
    simp only [WaitsFor, Producers.join, mem_map, exists_exists_and_eq_and]
    refine exists_congr fun c => and_congr_right fun _ => ?_
    split_ifs <;> rfl
  · intro c hc c' hc' heq
    obtain ⟨old, hold, -, rfl⟩ := hmark c hc
    obtain ⟨old', hold', -, rfl⟩ := hmark c' hc'
    have hids : old.id = old'.id := by
      split_ifs at heq <;> simpa using heq
    rw [h.ids old hold old' hold' hids]
  · intro c hc c' hc' d hd hd'
    obtain ⟨old, hold, hw, rfl⟩ := hmark c hc
    obtain ⟨old', hold', hw', rfl⟩ := hmark c' hc'
    rw [h.waiters old hold old' hold' d (hw ▸ hd) (hw' ▸ hd')]
  · intro c hc d hd
    obtain ⟨old, hold, hw, -⟩ := hmark c hc
    obtain ⟨me, depth, hrun⟩ := h.rerunning old hold d (hw ▸ hd)
    exact ⟨me, depth, join_repairs s call hrun⟩

lemma EdgesMatch.endWait_iff (h : s.EdgesMatch) (hcall : call ∈ s.calls) (d e : Digest) :
    (d, e) ∈ (s.endWait call).waits ↔
      ∃ c ∈ s.calls, decide (c.id ≠ call.id) = true ∧ c.waiter = some d ∧ c.producer.action =
        e := by
  have hother : ∀ c ∈ s.calls, c.id ≠ call.id ↔ c ≠ call := fun c hc =>
    ⟨fun hne heq => hne (heq ▸ rfl), fun hne heq => hne (h.ids c hc call hcall heq)⟩
  cases hw : call.waiter with
  | none =>
    simp only [endWait, hw, h.edge_iff, WaitsFor, decide_eq_true_eq]
    refine exists_congr fun c => and_congr_right fun hc => ?_
    refine ⟨fun hedge => ⟨(hother c hc).mpr fun heq => ?_, hedge⟩, fun hedge => hedge.2⟩
    rw [heq, hw] at hedge
    cases hedge.1
  | some w =>
    simp only [endWait, hw, mem_filter, h.edge_iff, WaitsFor, decide_eq_true_eq]
    constructor
    · rintro ⟨⟨c, hc, hd, he⟩, hne⟩
      refine ⟨c, hc, (hother c hc).mpr fun heq => hne ?_, hd, he⟩
      rw [heq, hw] at hd
      rw [← he, heq, Option.some.inj hd]
    · rintro ⟨c, hc, hne, hd, he⟩
      refine ⟨⟨c, hc, hd, he⟩, fun heq => ?_⟩
      obtain ⟨rfl, -⟩ := Prod.mk.inj heq
      exact hne (congrArg Call.id (h.waiters c hc call hcall d hd hw))

lemma EdgesMatch.change (h : s.EdgesMatch) (hchange : Change limits s s') : s'.EdgesMatch := by
  cases hchange with
  | recorded | refused => exact h.of_repairs rfl rfl fun d me depth hrun => ⟨me, depth, hrun⟩
  | entered call hid hw =>
    refine h.enter hid rfl rfl (fun d e => ?_) (fun w hw' => ?_)
    · simp [Producers.enter, hw]
    · rw [hw] at hw'
      cases hw'
  | waited call w hid hw hrun hfree _ =>
    refine h.enter hid rfl rfl (fun d e => ?_) (fun w' hw' => ?_)
    · simp [Producers.enter, hw, eq_comm]
    · rw [hw] at hw'
      cases hw'
      exact ⟨hrun, hfree⟩
  | joined call => exact h.join call
  | exhausted digest producer depth outcome hspawned =>
    exact h.of_repairs rfl rfl fun d me depth' hrun =>
      ⟨me, depth', update_spawned hspawned hrun (by simp)⟩
  | reran digest producer depth remaining hspawned _ =>
    exact h.of_repairs rfl rfl fun d me depth' hrun =>
      ⟨me, depth', update_spawned hspawned hrun (by simp)⟩
  | finished digest outcome producer depth hrun =>
    refine h.of_filter (·.waiter ≠ some digest) rfl (fun d e => ?_) (fun c _ hp d hd => ?_)
    · simp only [finish, mem_filter, h.edge_iff, WaitsFor, decide_eq_true_eq]
      constructor
      · rintro ⟨⟨c, hc, hd, he⟩, hne⟩
        exact ⟨c, hc, by simpa [hd] using hne, hd, he⟩
      · rintro ⟨c, hc, hne, hd, he⟩
        exact ⟨⟨c, hc, hd, he⟩, by simpa [hd] using hne⟩
    · refine update_of_ne (fun heq => ?_) _ _
      simp [hd, heq] at hp
  | answered call outcome hcall hanswer =>
    exact h.of_filter (·.id ≠ call.id) (by simp [reply, remove])
      (h.endWait_iff (mem_of_find?_eq_some hcall)) (by simp [reply, remove])
  | left call hcall hw =>
    refine h.of_filter (·.id ≠ call.id) rfl (fun d e => ?_) (fun c _ _ d _ => rfl)
    rw [← h.endWait_iff (mem_of_find?_eq_some hcall)]
    simp [remove, endWait, hw]

/-! ## No cycle of waits -/

lemma acyclic_change (h : Lib.Acyclic (Lib.Edge s.waits)) (hchange : Change limits s s') :
    Lib.Acyclic (Lib.Edge s'.waits) := by
  cases hchange with
  | waited call w _ _ _ _ hback =>
    have hnew := h.with_edge (fun hreach => hback (Lib.reaches_iff.mpr hreach))
    refine hnew.mono fun d e hedge => ?_
    rcases mem_insert_iff.mp hedge with heq | hold
    · exact .inr (Prod.mk.inj heq)
    · exact .inl hold
  | finished => exact h.mono fun d e hedge => mem_of_mem_filter hedge
  | answered call => exact h.mono fun d e hedge => mem_of_mem_endWait s call hedge
  | recorded | refused | entered | joined | exhausted | reran | left => exact h

/-! ## One rerun and one answer for each digest -/

/-- The repair has left the state in which its task was spawned. -/
def Started (s : Producers) (d : Digest) : Prop :=
  ∃ r, s.repairs d = some r ∧ ∀ producer depth, r ≠ .spawned producer depth

lemma Started.not_spawned (h : s.Started d) (producer : Producer) (depth : Nat) :
    s.repairs d ≠ some (.spawned producer depth) := by
  obtain ⟨r, hr, hne⟩ := h
  rw [hr]
  exact fun heq => hne producer depth (Option.some.inj heq)

/-- The log of reruns against the repair table and the budget. -/
structure RunsOnce (limits : RepairLimits) (s : Producers) : Prop where
  nodup : s.reruns.Nodup
  started : ∀ d ∈ s.reruns, s.Started d
  budget : s.reruns.length + s.remaining = limits.executions
  answers : ∀ d outcome, (d, Reply.answered outcome) ∈ s.replies →
    s.repairs d = some (.answered outcome)

lemma repairs_change (hchange : Change limits s s') (hr : s.repairs d = some r)
    (hne : ∀ producer depth, r ≠ .spawned producer depth) :
    s'.repairs d = some r ∨ ∃ producer depth outcome, r = .rerunning producer depth ∧
        s'.repairs d = some (.answered outcome) := by
  cases hchange with
  | recorded | refused | entered | waited | left => exact .inl hr
  | joined call => exact .inl (join_repairs s call hr)
  | exhausted digest producer depth outcome hspawned =>
    exact .inl (update_spawned hspawned hr (hne producer depth))
  | reran digest producer depth remaining hspawned =>
    exact .inl (update_spawned hspawned hr (hne producer depth))
  | finished digest outcome producer depth hrun =>
    by_cases hd : d = digest
    · subst hd
      rw [hr] at hrun
      exact .inr ⟨producer, depth, outcome, Option.some.inj hrun, by simp [finish]⟩
    · exact .inl ((update_of_ne hd _ _).trans hr)
  | answered call => exact .inl (by simpa [reply, remove] using hr)

lemma Started.change (h : s.Started d) (hchange : Change limits s s') : s'.Started d := by
  obtain ⟨r, hr, hne⟩ := h
  rcases repairs_change hchange hr hne with hsame | ⟨_, _, outcome, _, hanswer⟩
  · exact ⟨r, hsame, hne⟩
  · exact ⟨_, hanswer, by simp⟩

lemma answered_change {outcome : RepairOutcome} (hr : s.repairs d = some (.answered outcome))
    (hchange : Change limits s s') : s'.repairs d = some (.answered outcome) := by
  rcases repairs_change hchange hr (by simp) with hsame | ⟨_, _, _, hrun, _⟩
  · exact hsame
  · cases hrun

lemma RunsOnce.change (h : s.RunsOnce limits) (hchange : Change limits s s') :
    s'.RunsOnce limits := by
  have hstarted : ∀ d ∈ s.reruns, s'.Started d := fun d hd => (h.started d hd).change hchange
  have hanswers : ∀ d outcome, (d, Reply.answered outcome) ∈ s.replies →
      s'.repairs d = some (.answered outcome) :=
    fun d outcome hd => answered_change (h.answers d outcome hd) hchange
  cases hchange with
  | recorded | entered | waited | joined | exhausted | finished | left =>
    exact ⟨h.nodup, hstarted, h.budget, hanswers⟩
  | refused digest message =>
    refine ⟨h.nodup, hstarted, h.budget, fun d outcome hd => hanswers d outcome ?_⟩
    simpa [reply] using hd
  | reran digest producer depth remaining hspawned hleft =>
    have hnew : digest ∉ s.reruns := fun hd =>
      (h.started digest hd).not_spawned producer depth hspawned
    have hbudget := h.budget
    refine ⟨nodup_cons.mpr ⟨hnew, h.nodup⟩, fun d hd => ?_, ?_, hanswers⟩
    · rcases mem_cons.mp hd with rfl | hd
      · exact ⟨.rerunning producer depth, update_self _ _ _, by simp⟩
      · exact hstarted d hd
    · simp only [length_cons]
      omega
  | answered call outcome _ hanswer =>
    refine ⟨?_, ?_, ?_, ?_⟩
    · simpa [reply, remove] using h.nodup
    · simpa [reply, remove] using hstarted
    · simpa [reply, remove] using h.budget
    · intro d o hd
      simp only [reply, remove, endWait_replies, mem_cons, Prod.mk.injEq,
        Reply.answered.injEq] at hd
      rcases hd with ⟨rfl, rfl⟩ | hd
      · simpa [reply, remove] using hanswer
      · exact hanswers d o hd

/-! ## Every run -/

/-- What every reachable state of the registry meets. -/
structure Sound (limits : RepairLimits) (s : Producers) : Prop where
  edges : s.EdgesMatch
  acyclic : Lib.Acyclic (Lib.Edge s.waits)
  once : s.RunsOnce limits

lemma sound_withLimits (limits : RepairLimits) : (withLimits limits).Sound limits where
  edges := by
    constructor <;> simp [withLimits, WaitsFor]
  acyclic d hcycle := by
    obtain ⟨e, hedge, _⟩ := Relation.TransGen.head'_iff.mp hcycle
    simp [withLimits, Lib.Edge] at hedge
  once := by
    constructor <;> simp [withLimits]

lemma Sound.step {e : Event} (h : s.Sound limits) (hstep : s.step limits e = some s') :
    s'.Sound limits :=
  have hchange := change_step hstep
  ⟨h.edges.change hchange, acyclic_change h.acyclic hchange, h.once.change hchange⟩

/-- The states that some interleaving of recordings, restores and repairs reaches. -/
abbrev Reached (limits : RepairLimits) : Producers → Prop :=
  Lib.Reachable (step limits) (fun _ _ => True) (withLimits limits)

lemma sound_of_reached (h : Reached limits s) : s.Sound limits :=
  h.invariant (sound_withLimits limits) fun _ _ _ hs _ hstep => hs.step hstep

/-- In every reachable state the waits between repairs form no cycle, no digest has been run again
twice, no more actions than the limit allows have been run again, and the calls for one digest that
were not turned away have all been given the same answer. -/
theorem repairs_safe (limits : RepairLimits) (s : Producers) (h : Reached limits s) :
    (∀ d, ¬ Relation.TransGen s.WaitsFor d d) ∧
    s.reruns.Nodup ∧
    s.reruns.length ≤ limits.executions ∧
    ∀ d outcome outcome', (d, Reply.answered outcome) ∈ s.replies →
      (d, Reply.answered outcome') ∈ s.replies → outcome = outcome' := by
  have hsound := sound_of_reached h
  refine ⟨?_, hsound.once.nodup, ?_, ?_⟩
  · exact hsound.acyclic.mono fun d e hwait => (hsound.edges.edge_iff d e).mpr hwait
  · have hbudget := hsound.once.budget
    omega
  · intro d outcome outcome' hfirst hsecond
    have hsame := (hsound.once.answers d outcome hfirst).symm.trans
      (hsound.once.answers d outcome' hsecond)
    exact Repair.answered.inj (Option.some.inj hsame)

/-! ## A chain that is too long for one caller -/

/-- Produces `lib.o` from sources. -/
def libProducer : Producer where
  action := .ofDigit 10
  inputs := []
  outputs := [("lib.o".toList, .ofDigit 12)]

/-- Produces `app` from `lib.o`. -/
def appProducer : Producer where
  action := .ofDigit 11
  inputs := libProducer.outputs
  outputs := [("app".toList, .ofDigit 13)]

/-- With chains of one producer: the repair of `app` needs `lib.o` too and is one producer too deep
for it, while a restore of the build asks for `lib.o` itself and gets it. -/
def chainRun : List Event :=
  [.record libProducer, .record appProducer, .restore 0 ("app".toList, .ofDigit 13), .join 0,
    .start appProducer.action, .restoreInput 1 appProducer.action ("lib.o".toList, .ofDigit 12),
    .restore 2 ("lib.o".toList, .ofDigit 12), .join 2,
    .start libProducer.action, .finish libProducer.action (.ok ()), .answer 2]

def oneDeep : RepairLimits where
  depth := 1
  executions := 64

/-- Two calls for one digest that get different answers. -/
theorem deep_call_gets_another_answer :
    ∃ s, Lib.runSteps (step oneDeep) (withLimits oneDeep) chainRun = some s ∧
      (libProducer.action, Reply.refused (tooDeepMessage oneDeep)) ∈ s.replies ∧
      (libProducer.action, Reply.answered (.ok ())) ∈ s.replies := by
  refine ⟨_, rfl, ?_, ?_⟩
  · exact mem_cons_of_mem _ mem_cons_self
  · exact mem_cons_self

/-- Both actions were run again in that run, each once. -/
theorem repairs_safe_chainRun :
    ∃ s, Lib.runSteps (step oneDeep) (withLimits oneDeep) chainRun = some s ∧
      s.reruns = [libProducer.action, appProducer.action] ∧ s.reruns.Nodup ∧
      s.reruns.length ≤ oneDeep.executions := by
  refine ⟨_, rfl, rfl, ?_⟩
  have hreached : Lib.runSteps (step oneDeep) (withLimits oneDeep) chainRun = some _ := rfl
  have hsafe := repairs_safe oneDeep _ (Lib.Reachable.start.runSteps hreached)
  exact ⟨hsafe.2.1, hsafe.2.2.1⟩

end Producers

end OnceBuild.Recovery
