import Mathlib.Tactic.Lemma

/-!
# Computations that ask questions

A computation either is done or asks a question and goes on with the answer.  Running it keeps a
ledger of the questions and their answers; another world that gives the recorded answers to the
recorded questions runs it to the same end.
-/

namespace OnceBuild.Lib

universe u v w

variable {Q : Type u} {A : Type v} {R : Type w}

inductive Ask (Q : Type u) (A : Type v) (R : Type w) where
  | done (result : R)
  | ask (question : Q) (next : A → Ask Q A R)

namespace Ask

/-- The result and the ledger, in the order of asking. -/
def run (answer : Q → A) : Ask Q A R → R × List (Q × A)
  | .done result => (result, [])
  | .ask question next =>
    let rest := (next (answer question)).run answer
    (rest.1, (question, answer question) :: rest.2)

lemma run_eq_of_ledger {answer answer' : Q → A} (c : Ask Q A R)
    (h : ∀ qa ∈ (c.run answer).2, answer' qa.1 = qa.2) : c.run answer' = c.run answer := by
  induction c with
  | done result => rfl
  | ask question next ih =>
    have hfirst : answer' question = answer question :=
      h (question, answer question) List.mem_cons_self
    have hrest : (next (answer question)).run answer' = (next (answer question)).run answer :=
      ih (answer question) fun qa hqa => h qa (List.mem_cons_of_mem _ hqa)
    simp only [run, hfirst, hrest]

lemma answer_of_mem_ledger {answer : Q → A} (c : Ask Q A R) {qa : Q × A}
    (h : qa ∈ (c.run answer).2) : answer qa.1 = qa.2 := by
  induction c with
  | done result => cases h
  | ask question next ih =>
    rcases List.mem_cons.mp h with rfl | h
    · rfl
    · exact ih _ h

end Ask

end OnceBuild.Lib
