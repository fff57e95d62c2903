import Mathlib.Tactic

/-!
Machines that answer each of their operations, and the bounded first-in first-out list.

* `Answering.run step s ops`: what a machine answers to a list of operations, and the state it
  ends in.
* `Answering.run_simulates`: two machines whose steps agree along a relation of their states
  agree on every list of operations.
* `BoundedFifo.step cap`: a list that takes elements at its end while it has fewer than `cap`
  of them, and gives them up at its head.

The simulation rule is an induction on the operations, in which both machines take a step and answer
alike.  An implementation that refuses what the list refuses, and returns what the list returns, up
to a coding of the answers, is so a bounded list, whatever its callers do.
-/

/-! ### Machines that answer -/

namespace Answering

variable {σ τ ι β γ : Type*}

/-- The answers to a list of operations, and the state after them. -/
def run (step : σ → ι → β × σ) : σ → List ι → List β × σ
  | s, [] => ([], s)
  | s, op :: ops =>
      let (answer, s') := step s op
      let (answers, last) := run step s' ops
      (answer :: answers, last)

lemma run_cons (step : σ → ι → β × σ) (s : σ) (op : ι) (ops : List ι) :
    run step s (op :: ops) =
      ((step s op).1 :: (run step (step s op).2 ops).1, (run step (step s op).2 ops).2) := rfl

/-- **The simulation rule**, by induction on the operations: steps that agree along `R`, the
answers up to `code`, give runs that agree. -/
theorem run_simulates {step : σ → ι → β × σ} {step' : τ → ι → γ × τ} {R : σ → τ → Prop}
    {code : γ → β}
    (hstep : ∀ s t op, R s t → (step s op).1 = code (step' t op).1 ∧
      R (step s op).2 (step' t op).2) (ops : List ι) :
    ∀ {s : σ} {t : τ}, R s t → (run step s ops).1 = (run step' t ops).1.map code ∧
      R (run step s ops).2 (run step' t ops).2 := by
  induction ops with
  | nil => exact fun h => ⟨rfl, h⟩
  | cons op ops ih =>
      intro s t h
      obtain ⟨hanswer, hnext⟩ := hstep s t op h
      obtain ⟨hanswers, hlast⟩ := ih hnext
      rw [run_cons, run_cons, List.map_cons, hanswer, hanswers]
      exact ⟨rfl, hlast⟩

end Answering

/-! ### The bounded first-in first-out list -/

namespace BoundedFifo

variable {α : Type*}

inductive Request (α : Type*) where
  | push (x : α)
  | pop
  | reset

inductive Answer (α : Type*) where
  | pushed (accepted : Bool)
  | popped (oldest : Option α)
  | done

/-- A push beyond the capacity is refused; a pop gives up the oldest element, if there is one. -/
def step (cap : ℕ) (l : List α) : Request α → Answer α × List α
  | .push x => if l.length < cap then (.pushed true, l ++ [x]) else (.pushed false, l)
  | .pop => (.popped l.head?, l.tail)
  | .reset => (.done, [])

lemma step_push_of_lt {cap : ℕ} {l : List α} (h : l.length < cap) (x : α) :
    step cap l (.push x) = (.pushed true, l ++ [x]) := if_pos h

lemma step_push_of_le {cap : ℕ} {l : List α} (h : cap ≤ l.length) (x : α) :
    step cap l (.push x) = (.pushed false, l) := if_neg (not_lt.mpr h)

end BoundedFifo
