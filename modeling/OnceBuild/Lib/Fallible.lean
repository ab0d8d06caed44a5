import Mathlib.Data.List.Basic

/-!
# Programs that change a state and may fail

A run ends with a value or an error, and with the state it leaves in either case: a program that
fails part-way leaves what it had done.  `Ensures` has a postcondition for each of the two ends.
-/

namespace OnceBuild.Lib

open List

variable {ε β γ : Type}

lemma bind_eq_ok {x : Except ε β} {f : β → Except ε γ} {c : γ} :
    (x >>= f) = .ok c ↔ ∃ b, x = .ok b ∧ f b = .ok c := by
  cases x with
  | error e => exact ⟨nofun, nofun⟩
  | ok b => exact ⟨fun h => ⟨b, rfl, h⟩, fun ⟨_, h, h'⟩ => Except.ok.inj h ▸ h'⟩

lemma eq_ok_of_mapError {ε' : Type} {f : ε → ε'} {x : Except ε β} {b : β}
    (h : x.mapError f = .ok b) : x = .ok b := by
  cases x with
  | error e => cases h
  | ok b' => exact congrArg _ (Except.ok.inj h)

lemma mapM_eq_ok {f : β → Except ε γ} {Q : γ → Prop} {l : List β}
    (h : ∀ x ∈ l, ∃ c, f x = .ok c ∧ Q c) : ∃ cs, l.mapM f = .ok cs ∧ ∀ c ∈ cs, Q c := by
  induction l with
  | nil => exact ⟨[], rfl, nofun⟩
  | cons x l ih =>
    obtain ⟨c, hc, hQ⟩ := h x mem_cons_self
    obtain ⟨cs, hcs, hQs⟩ := ih fun y hy => h y (mem_cons_of_mem _ hy)
    refine ⟨c :: cs, ?_, forall_mem_cons.mpr ⟨hQ, hQs⟩⟩
    rw [mapM_cons, hc, hcs]
    rfl

abbrev Fallible (σ ε α : Type) := ExceptT ε (StateM σ) α

namespace Fallible

variable {σ ε ε' α β : Type}

def exec (m : Fallible σ ε α) (s : σ) : Except ε α × σ := m s

def change (f : σ → σ) : Fallible σ ε Unit := fun s => (.ok (), f s)

/-- Look at the state and fail or go on with what was found. -/
def inspect (f : σ → Except ε α) : Fallible σ ε α := fun s => (f s, s)

/-- `if c { return Err(e) }`. -/
def failIf (c : Bool) (e : ε) : Fallible σ ε Unit := if c then throw e else pure ()

def mapError (f : ε → ε') (m : Fallible σ ε α) : Fallible σ ε' α := fun s =>
  ((m s).1.mapError f, (m s).2)

def onError (m : Fallible σ ε α) (f : σ → σ) : Fallible σ ε α := fun s =>
  match m s with
  | (.ok a, s') => (.ok a, s')
  | (.error e, s') => (.error e, f s')

def attempt (m : Fallible σ ε α) : Fallible σ ε' (Except ε α) := fun s => (.ok (m s).1, (m s).2)

@[simp] lemma exec_change (f : σ → σ) (s : σ) :
    exec (change f : Fallible σ ε Unit) s = (.ok (), f s) := rfl

@[simp] lemma exec_inspect (f : σ → Except ε α) (s : σ) : exec (inspect f) s = (f s, s) := rfl

@[simp] lemma exec_mapError (f : ε → ε') (m : Fallible σ ε α) (s : σ) :
    exec (mapError f m) s = ((exec m s).1.mapError f, (exec m s).2) := rfl

variable {m : Fallible σ ε α} {f : α → Fallible σ ε β} {s s' : σ} {a : α}

lemma exec_bind_ok (h : exec m s = (.ok a, s')) : exec (m >>= f) s = exec (f a) s' := by
  change ExceptT.bindCont f (exec m s).1 (exec m s).2 = _
  rw [h]
  rfl

variable {e : ε}

lemma exec_bind_error (h : exec m s = (.error e, s')) : exec (m >>= f) s = (.error e, s') := by
  change ExceptT.bindCont f (exec m s).1 (exec m s).2 = _
  rw [h]
  rfl

variable {l : List γ}

lemma exec_forM_skip {f : γ → Fallible σ ε PUnit} (h : ∀ x ∈ l, exec (f x) s = (.ok (), s))
    (more : List γ) : exec ((l ++ more).forM f) s = exec (more.forM f) s := by
  induction l with
  | nil => rfl
  | cons x l ih =>
    refine (exec_bind_ok (h x mem_cons_self)).trans ?_
    exact ih fun y hy => h y (mem_cons_of_mem _ hy)

/-! ## Pre- and postconditions -/

/-- From a state that meets `P`, a run that succeeds ends in `Q` and one that fails ends in `E`. -/
def Ensures (P : σ → Prop) (m : Fallible σ ε α) (Q : α → σ → Prop) (E : σ → Prop) : Prop :=
  ∀ s, P s → (∀ a s', exec m s = (.ok a, s') → Q a s') ∧ ∀ e s', exec m s = (.error e, s') → E s'

def Ends (Q : α → σ → Prop) (E : σ → Prop) : Except ε α × σ → Prop
  | (.ok a, s) => Q a s
  | (.error _, s) => E s

variable {P P' : σ → Prop} {Q Q' : α → σ → Prop} {E E' : σ → Prop}

lemma ensures_iff : Ensures P m Q E ↔ ∀ s, P s → Ends Q E (exec m s) := by
  refine forall₂_congr fun s _ => ?_
  obtain ⟨result, s'⟩ := exec m s
  cases result <;> simp [Ends]

lemma Ensures.mono (h : Ensures P m Q E) (hP : ∀ s, P' s → P s) (hQ : ∀ a s, Q a s → Q' a s)
    (hE : ∀ s, E s → E' s) : Ensures P' m Q' E' := by
  intro s hs
  obtain ⟨hok, herror⟩ := h s (hP s hs)
  exact ⟨fun a s' hrun => hQ a s' (hok a s' hrun), fun e s' hrun => hE s' (herror e s' hrun)⟩

lemma ensures_of_exec (hrun : exec m s = (.ok a, s')) (h : Q a s') : Ensures (· = s) m Q E := by
  rw [ensures_iff]
  rintro _ rfl
  rw [hrun]
  exact h

lemma Ensures.left (h : Ensures P m (fun _ => E) E) (hs : P s) : E (exec m s).2 := by
  have hends := ensures_iff.mp h s hs
  generalize exec m s = ended at hends ⊢
  obtain ⟨result, s'⟩ := ended
  cases result <;> exact hends

lemma ensures_of_each (h : ∀ s, P s → Ensures (· = s) m Q E) : Ensures P m Q E :=
  fun s hs => h s hs s rfl

lemma ensures_of_fact {c : Prop} (h : c → Ensures P m Q E) : Ensures (fun s => P s ∧ c) m Q E :=
  fun s hs => h hs.2 s hs.1

lemma ensures_pure (h : ∀ s, P s → Q a s) : Ensures P (pure a : Fallible σ ε α) Q E :=
  ensures_iff.mpr h

lemma ensures_throw (h : ∀ s, P s → E s) : Ensures P (throw e : Fallible σ ε α) Q E :=
  ensures_iff.mpr h

lemma ensures_bind {Q : β → σ → Prop} {R : α → σ → Prop} (hm : Ensures P m R E)
    (hf : ∀ a, Ensures (R a) (f a) Q E) : Ensures P (m >>= f) Q E := by
  rw [ensures_iff]
  intro s hs
  have hends := ensures_iff.mp hm s hs
  cases hrun : exec m s with
  | mk result s' =>
    rw [hrun] at hends
    cases result with
    | ok a =>
      rw [exec_bind_ok hrun]
      exact ensures_iff.mp (hf a) s' hends
    | error e =>
      rw [exec_bind_error hrun]
      exact hends

lemma ensures_change {f : σ → σ} {Q : Unit → σ → Prop} (h : ∀ s, P s → Q () (f s)) :
    Ensures P (change f : Fallible σ ε Unit) Q E :=
  ensures_iff.mpr h

lemma ensures_inspect {f : σ → Except ε α} (hok : ∀ s a, P s → f s = .ok a → Q a s)
    (herror : ∀ s e, P s → f s = .error e → E s) : Ensures P (inspect f) Q E := by
  rw [ensures_iff]
  intro s hs
  rw [exec_inspect]
  cases hresult : f s with
  | ok a => exact hok s a hs hresult
  | error e => exact herror s e hs hresult

lemma ensures_look {g : σ → Except ε α} {Q : β → σ → Prop} (hE : ∀ s, P s → E s)
    (hf : ∀ a, Ensures P (f a) Q E) : Ensures P (inspect g >>= f) Q E :=
  ensures_bind (ensures_inspect (fun _ _ hs _ => hs) fun s _ hs _ => hE s hs) hf

lemma Ensures.mapError (h : Ensures P m Q E) (f : ε → ε') : Ensures P (m.mapError f) Q E := by
  rw [ensures_iff]
  intro s hs
  have hends := ensures_iff.mp h s hs
  rw [exec_mapError]
  generalize exec m s = ended at hends ⊢
  obtain ⟨result, s'⟩ := ended
  cases result <;> exact hends

lemma ensures_failIf {c : Bool} {m : Unit → Fallible σ ε α} (hE : ∀ s, P s → E s)
    (h : c = false → Ensures P (m ()) Q E) : Ensures P (failIf c e >>= m) Q E := by
  cases c with
  | true => exact ensures_bind (R := fun _ _ => False) (ensures_throw hE) fun _ _ hs => hs.elim
  | false => exact ensures_bind (ensures_pure fun _ hs => hs) fun _ => h rfl

lemma ensures_ite {c : Prop} [Decidable c] {m' : Fallible σ ε α} (hm : c → Ensures P m Q E)
    (hm' : ¬c → Ensures P m' Q E) : Ensures P (if c then m else m') Q E := by
  split
  case isTrue h => exact hm h
  case isFalse h => exact hm' h

lemma ensures_forM {f : γ → Fallible σ ε PUnit} (h : ∀ x ∈ l, Ensures P (f x) (fun _ => P) E) :
    Ensures P (l.forM f) (fun _ => P) E := by
  induction l with
  | nil => exact ensures_pure fun _ hs => hs
  | cons x l ih =>
    exact ensures_bind (h x mem_cons_self) fun _ =>
      ih fun y hy => h y (mem_cons_of_mem _ hy)

lemma ensures_forM_upTo {f : γ → Fallible σ ε PUnit} (I : List γ → σ → Prop)
    (h : ∀ done x rest, l = done ++ x :: rest →
      Ensures (I done) (f x) (fun _ => I (done ++ [x])) E) :
    Ensures (I []) (l.forM f) (fun _ => I l) E := by
  have key : ∀ done rest, l = done ++ rest → Ensures (I done) (rest.forM f) (fun _ => I l) E := by
    intro done rest
    induction rest generalizing done with
    | nil =>
      intro hl
      rw [hl, append_nil]
      exact ensures_pure fun _ hs => hs
    | cons x rest ih =>
      intro hl
      refine ensures_bind (h done x rest hl) fun _ => ih (done ++ [x]) ?_
      rw [hl, append_assoc, singleton_append]
  exact key [] l rfl

lemma ensures_mapM {f : γ → Fallible σ ε β} {R : γ → β → Prop}
    (h : ∀ x ∈ l, Ensures P (f x) (fun b s => P s ∧ R x b) E) :
    Ensures P (l.mapM f) (fun bs s => P s ∧ List.Forall₂ R l bs) E := by
  induction l with
  | nil => exact ensures_pure fun s hs => ⟨hs, .nil⟩
  | cons x l ih =>
    rw [mapM_cons]
    refine ensures_bind (h x mem_cons_self) fun b => ?_
    refine ensures_of_fact fun hb => ?_
    refine ensures_bind (ih fun y hy => h y (mem_cons_of_mem _ hy)) fun bs => ?_
    exact ensures_pure fun s hs => ⟨hs.1, .cons hb hs.2⟩

@[simp] lemma exec_attempt (m : Fallible σ ε α) (s : σ) :
    exec (m.attempt : Fallible σ ε' (Except ε α)) s = (.ok (exec m s).1, (exec m s).2) := rfl

lemma Ensures.attempt {R : Except ε α → σ → Prop} (h : Ensures P m Q E)
    (hok : ∀ a s, Q a s → R (.ok a) s) (herror : ∀ e s, E s → R (.error e) s) :
    Ensures P (m.attempt : Fallible σ ε' (Except ε α)) R E' := by
  rw [ensures_iff]
  intro s hs
  have hends := ensures_iff.mp h s hs
  rw [exec_attempt]
  generalize exec m s = ended at hends ⊢
  obtain ⟨result, s'⟩ := ended
  cases result with
  | ok a => exact hok a s' hends
  | error e => exact herror e s' hends

lemma ensures_onError {f : σ → σ} (h : Ensures P m Q E') (hf : ∀ s, E' s → E (f s)) :
    Ensures P (m.onError f) Q E := by
  rw [ensures_iff]
  intro s hs
  have hends := ensures_iff.mp h s hs
  unfold exec at hends
  unfold exec onError
  generalize m s = ended at hends ⊢
  obtain ⟨result, s'⟩ := ended
  cases result with
  | ok a => exact hends
  | error e => exact hf s' hends

end Fallible
end OnceBuild.Lib
