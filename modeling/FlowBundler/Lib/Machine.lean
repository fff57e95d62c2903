import Mathlib.Tactic

/-!
Runs of a machine given by a step function; a step that does not return answers `none`.

* `Reach step init ok`: the states reached from `init` by operations that satisfy `ok`.
* `Reach.invariant`: what holds at the start and is kept by every step holds of every
  reached state.
* `Reach.mono`: a weaker condition on the operations reaches more states.
* `exec step s ops`: the state after a list of operations; `All step ok s ops`: each of them
  satisfies `ok` where it is made; `exec_invariant`, `exec_keeps`: the invariant rule for both,
  and for a list without a condition.
* `logged step emit`: the machine with a log of what its operations emit; `Reach.logged`: the
  invariant rule for it, from any state with an empty log.
* `run`, `exists_reach`: a concrete run, and the state it reaches.

Conditions on the operations are a predicate `ok` on the state and the operation, so that a property
of runs is stated over all runs of some kind.  A log is a second component of the state, which no
operation looks at.  Concrete runs are evaluated: `exists_reach` takes a list of operations, and a
decision that each of them is allowed where it is made and that the end is as wanted.
-/

namespace Machine

variable {σ ι : Type*} {step : σ → ι → Option σ} {init : σ → Prop} {ok ok' : σ → ι → Prop} {s : σ}

/-- The states reached from `init` by operations that satisfy `ok`. -/
inductive Reach (step : σ → ι → Option σ) (init : σ → Prop) (ok : σ → ι → Prop) : σ → Prop
  | start {s : σ} (hinit : init s) : Reach step init ok s
  | step {s s' : σ} {op : ι} (hs : Reach step init ok s) (hok : ok s op)
      (hstep : step s op = some s') : Reach step init ok s'

/-- **The invariant rule**; a step may use that the state before it was reached. -/
theorem Reach.invariant {I : σ → Prop} (h : Reach step init ok s) (hinit : ∀ s, init s → I s)
    (hstep : ∀ s s' op, Reach step init ok s → I s → ok s op → step s op = some s' → I s') :
    I s := by
  induction h with
  | start h => exact hinit _ h
  | step hs hok hnext ih => exact hstep _ _ _ hs ih hok hnext

/-- A weaker condition on the operations reaches more states. -/
lemma Reach.mono (h : Reach step init ok s) (himp : ∀ s op, ok s op → ok' s op) :
    Reach step init ok' s :=
  h.invariant (fun _ hinit => .start hinit)
    fun _ _ op _ ih hok hstep => .step ih (himp _ op hok) hstep

/-! ### Lists of operations -/

/-- The state after a list of operations. -/
def exec (step : σ → ι → Option σ) : σ → List ι → Option σ
  | s, [] => some s
  | s, op :: ops => (step s op).bind fun s' => exec step s' ops

/-- Every operation of the list satisfies `ok` where it is made. -/
def All (step : σ → ι → Option σ) (ok : σ → ι → Prop) : σ → List ι → Prop
  | _, [] => True
  | s, op :: ops => ok s op ∧ ∀ s' ∈ step s op, All step ok s' ops

section Exec

variable {ops : List ι}

instance decidableAll (step : σ → ι → Option σ) (ok : σ → ι → Prop)
    [∀ s op, Decidable (ok s op)] : (s : σ) → (ops : List ι) → Decidable (All step ok s ops)
  | _, [] => inferInstanceAs (Decidable True)
  | s, op :: ops =>
      have : ∀ s', Decidable (All step ok s' ops) := fun s' => decidableAll step ok s' ops
      inferInstanceAs (Decidable (ok s op ∧ ∀ s' ∈ step s op, All step ok s' ops))

/-- **The invariant rule** for a list of operations. -/
theorem exec_invariant {I : σ → Prop} : ∀ {ops : List ι} {s s' : σ},
    (∀ s s' op, op ∈ ops → I s → ok s op → step s op = some s' → I s') →
    All step ok s ops → I s → exec step s ops = some s' → I s' := by
  intro ops
  induction ops with
  | nil =>
      intro s s' _ _ hI h
      rw [exec, Option.some.injEq] at h
      exact h ▸ hI
  | cons op ops ih =>
      intro s s' hstep hall hI h
      obtain ⟨s₁, hs₁, hrest⟩ := Option.bind_eq_some_iff.mp h
      exact ih (fun s s' op' hop => hstep s s' op' (List.mem_cons_of_mem op hop)) (hall.2 s₁ hs₁)
        (hstep s s₁ op List.mem_cons_self hI hall.1 hs₁) hrest

/-- What every operation of a list keeps, whatever its condition. -/
theorem exec_keeps {I : σ → Prop} : ∀ {ops : List ι} {s s' : σ},
    (∀ s s' op, op ∈ ops → I s → step s op = some s' → I s') → I s → exec step s ops = some s' →
    I s' := by
  intro ops
  induction ops with
  | nil =>
      intro s s' _ hI h
      rw [exec, Option.some.injEq] at h
      exact h ▸ hI
  | cons op ops ih =>
      intro s s' hstep hI h
      obtain ⟨s₁, hs₁, hrest⟩ := Option.bind_eq_some_iff.mp h
      exact ih (fun s s' op' hop => hstep s s' op' (List.mem_cons_of_mem op hop))
        (hstep s s₁ op List.mem_cons_self hI hs₁) hrest

lemma All.append {ops' : List ι} : ∀ {s : σ}, All step ok s (ops ++ ops') →
    All step ok s ops ∧ ∀ s', exec step s ops = some s' → All step ok s' ops' := by
  induction ops with
  | nil =>
      intro s h
      refine ⟨trivial, fun s' hs' => ?_⟩
      rw [exec, Option.some.injEq] at hs'
      exact hs' ▸ h
  | cons op ops ih =>
      intro s h
      refine ⟨⟨h.1, fun s₁ hs₁ => (ih (h.2 s₁ hs₁)).1⟩, fun s' hs' => ?_⟩
      obtain ⟨s₁, hs₁, hrest⟩ := Option.bind_eq_some_iff.mp hs'
      exact (ih (h.2 s₁ hs₁)).2 s' hrest

end Exec

/-! ### Logs -/

/-- The machine with a log. -/
def logged {α : Type*} (step : σ → ι → Option σ) (emit : σ → ι → List α) (s : σ × List α)
    (op : ι) : Option (σ × List α) :=
  (step s.1 op).map fun s' => (s', s.2 ++ emit s.1 op)

/-- **The invariant rule** for a machine with a log. -/
theorem Reach.logged {α : Type*} {emit : σ → ι → List α} {I : σ → List α → Prop} {s : σ × List α}
    (h : Reach (logged step emit) (fun s => s.2 = []) (fun s op => ok s.1 op) s)
    (hinit : ∀ s, I s [])
    (hstep : ∀ s s' log op, I s log → ok s op → step s op = some s' → I s' (log ++ emit s op)) :
    I s.1 s.2 := by
  refine h.invariant (I := fun s => I s.1 s.2) (fun s hs => ?_) fun s s' op _ ih hok hs => ?_
  · rw [hs]
    exact hinit s.1
  · obtain ⟨t, ht, rfl⟩ := Option.map_eq_some_iff.mp hs
    exact hstep s.1 t s.2 op ih hok ht

/-! ### Concrete runs -/

/-- Running a list of operations as long as they satisfy `ok`. -/
def run (step : σ → ι → Option σ) (ok : σ → ι → Prop) [∀ s op, Decidable (ok s op)] :
    σ → List ι → Option σ
  | s, [] => some s
  | s, op :: ops =>
      if ok s op then
        match step s op with
        | none => none
        | some s' => run step ok s' ops
      else none

section Run

variable [∀ s op, Decidable (ok s op)]

/-- A run reaches its end. -/
lemma Reach.run : ∀ {ops : List ι} {s s' : σ}, Reach step init ok s →
    run step ok s ops = some s' → Reach step init ok s'
  | [], s, s', hs, h => by
      rw [Machine.run, Option.some.injEq] at h
      exact h ▸ hs
  | op :: ops, s, s', hs, h => by
      rw [Machine.run] at h
      split at h
      · rename_i hok
        cases hstep : step s op with
        | none => simp [hstep] at h
        | some s₁ =>
            rw [hstep] at h
            exact (hs.step hok hstep).run h
      · exact absurd h (by simp)

/-- A run from the start whose last state satisfies `p` reaches such a state. -/
lemma exists_reach (hinit : init s) (ops : List ι) (p : σ → Prop) [DecidablePred p]
    (h : (run step ok s ops).any (fun s => p s) = true) : ∃ s, Reach step init ok s ∧ p s := by
  cases hrun : run step ok s ops with
  | none => simp [hrun] at h
  | some s' =>
      rw [hrun, Option.any_some, decide_eq_true_eq] at h
      exact ⟨s', (Reach.start hinit).run hrun, h⟩

end Run

end Machine
