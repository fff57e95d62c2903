import Mathlib.Tactic

/-!
The loops of a calendar scan over a 64-bit time variable, with a fuel bound.

The loops change nothing but their time variable until they stop, and that
variable has `2^64` values, so a loop that has not stopped after `2^64` rounds
never does: with `fuel = 2^64` the answer `none` is divergence.

* `whileDue`: `while (now >= t) { if (body t) break; t += gran; }`;
  `whileDue_spec` gives its outcome when `now + gran` does not overflow, `whileDue_of_hit` when
  a break lies ahead; `Visits` are the times at which it runs its body.
* `doUntil`: `do { t += gran; } while (!stop t)`; `doUntil_spec` finds the first
  stop when there is one ahead, `doUntil_some` says what a search that ends has done.
* `seek`: `while (!found t && t < now) t += gran;`; `seek_spec` gives the time it ends at when
  `now + gran` does not overflow, `seek_lt` a bound of it.

A specification has two forms: one says how a loop ends when its step is positive and nothing
overflows, by induction on the fuel with the distance to the clock as the measure; the other, that
a stop which lies `n` steps ahead is met, by induction on `n`.  Both say how many rounds went by
without a stop, from which a caller learns that the places in between were empty.
-/

namespace Loop

variable {β : Type*}

/-- `while (now >= t) { if (body t) break; t += gran; }` on 64-bit times.  The result is
the value and time of the break, or the time at which the loop condition failed. -/
def whileDue (now gran : ℕ) (body : ℕ → Option β) : ℕ → ℕ → Option (β × ℕ ⊕ ℕ)
  | 0, _ => none
  | fuel + 1, t =>
      if t ≤ now then
        match body t with
        | some b => some (.inl (b, t))
        | none => whileDue now gran body fuel ((t + gran) % 2 ^ 64)
      else some (.inr t)

/-- `do { t += gran; } while (!stop t)` on 64-bit times. -/
def doUntil (gran : ℕ) (stop : ℕ → Bool) : ℕ → ℕ → Option ℕ
  | 0, _ => none
  | fuel + 1, t =>
      if stop ((t + gran) % 2 ^ 64) then some ((t + gran) % 2 ^ 64)
      else doUntil gran stop fuel ((t + gran) % 2 ^ 64)

/-- The two ways `whileDue` can end after `i` idle rounds from `t`. -/
inductive WhileOutcome (now gran : ℕ) (body : ℕ → Option β) (t : ℕ) :
    β × ℕ ⊕ ℕ → Prop
  | hit (i : ℕ) (b : β) (hidle : ∀ j < i, t + j * gran ≤ now ∧ body (t + j * gran) = none)
      (hdue : t + i * gran ≤ now) (hbody : body (t + i * gran) = some b) :
      WhileOutcome now gran body t (.inl (b, t + i * gran))
  | past (i : ℕ) (hidle : ∀ j < i, t + j * gran ≤ now ∧ body (t + j * gran) = none)
      (hpast : now < t + i * gran) :
      WhileOutcome now gran body t (.inr (t + i * gran))

/-- A time up to the clock comes before one past it. -/
lemma lt_of_due_of_past {now gran t i j : ℕ} (hdue : t + j * gran ≤ now)
    (hpast : now < t + i * gran) : j < i := by
  have hlt : j * gran < i * gran := by omega
  exact Nat.lt_of_mul_lt_mul_right hlt

/-- One idle round in front of an outcome. -/
lemma WhileOutcome.cons {now gran t : ℕ} {body : ℕ → Option β} {r : β × ℕ ⊕ ℕ}
    (hdue : t ≤ now) (hbody : body t = none)
    (h : WhileOutcome now gran body (t + gran) r) : WhileOutcome now gran body t r := by
  have hstep : ∀ i, t + gran + i * gran = t + (i + 1) * gran := fun i => by ring
  have hidle' : ∀ {i : ℕ},
      (∀ j < i, t + gran + j * gran ≤ now ∧ body (t + gran + j * gran) = none) →
      ∀ j < i + 1, t + j * gran ≤ now ∧ body (t + j * gran) = none := by
    intro i hidle j hj
    cases j with
    | zero => simpa using ⟨hdue, hbody⟩
    | succ j =>
        rw [← hstep]
        exact hidle j (by omega)
  cases h with
  | hit i b hidle hd hb =>
      rw [hstep] at hd hb ⊢
      exact .hit (i + 1) b (hidle' hidle) hd hb
  | past i hidle hp =>
      rw [hstep] at hp ⊢
      exact .past (i + 1) (hidle' hidle) hp

section WhileDue

variable {now gran fuel t : ℕ} {body : ℕ → Option β}

/-- A round that breaks, or whose condition fails, ends the loop. -/
lemma whileDue_stop (h : t ≤ now → body t ≠ none) :
    ∃ r, whileDue now gran body (fuel + 1) t = some r ∧ WhileOutcome now gran body t r := by
  by_cases hdue : t ≤ now
  · obtain ⟨b, hb⟩ := Option.ne_none_iff_exists'.mp (h hdue)
    refine ⟨.inl (b, t), by simp [whileDue, hdue, hb], ?_⟩
    have hhit : WhileOutcome now gran body t (.inl (b, t + 0 * gran)) :=
      .hit 0 b (by simp) (by simpa using hdue) (by simpa using hb)
    simpa using hhit
  · refine ⟨.inr t, by simp [whileDue, hdue], ?_⟩
    have hpast : WhileOutcome now gran body t (.inr (t + 0 * gran)) :=
      .past 0 (by simp) (by simpa using not_le.mp hdue)
    simpa using hpast

/-- An idle round without overflow leaves the outcome to the rest of the loop. -/
lemma whileDue_idle (hdue : t ≤ now) (hbody : body t = none) (hlt : t + gran < 2 ^ 64)
    (h : ∃ r, whileDue now gran body fuel (t + gran) = some r ∧
      WhileOutcome now gran body (t + gran) r) :
    ∃ r, whileDue now gran body (fuel + 1) t = some r ∧ WhileOutcome now gran body t r := by
  obtain ⟨r, hr, hout⟩ := h
  refine ⟨r, ?_, hout.cons hdue hbody⟩
  rw [whileDue, if_pos hdue, hbody]
  simpa only [Nat.mod_eq_of_lt hlt] using hr

/-- With a positive step, enough fuel and no overflow, `whileDue` ends, and it ends as
`WhileOutcome` says. -/
theorem whileDue_spec (hg : 0 < gran) (hnow : now + gran < 2 ^ 64) : ∀ (fuel t : ℕ),
    now < t + fuel →
    ∃ r, whileDue now gran body (fuel + 1) t = some r ∧ WhileOutcome now gran body t r := by
  intro fuel
  induction fuel with
  | zero => exact fun t hf => whileDue_stop fun hdue => by omega
  | succ fuel ih =>
      intro t hf
      by_cases hidle : t ≤ now ∧ body t = none
      · exact whileDue_idle hidle.1 hidle.2 (by omega) (ih (t + gran) (by omega))
      · exact whileDue_stop fun hdue hnone => hidle ⟨hdue, hnone⟩

/-- With a break ahead that is reached without overflow, `whileDue` ends as `WhileOutcome`
says, even when the clock is at the end of the range. -/
theorem whileDue_of_hit : ∀ (n fuel t : ℕ), n < fuel → t + n * gran < 2 ^ 64 →
    body (t + n * gran) ≠ none →
    ∃ r, whileDue now gran body fuel t = some r ∧ WhileOutcome now gran body t r := by
  intro n
  induction n with
  | zero =>
      intro fuel t hf _ hbody
      obtain ⟨fuel, rfl⟩ : ∃ k, fuel = k + 1 := ⟨fuel - 1, by omega⟩
      rw [Nat.zero_mul, Nat.add_zero] at hbody
      exact whileDue_stop fun _ => hbody
  | succ n ih =>
      intro fuel t hf hlt hbody
      obtain ⟨fuel, rfl⟩ : ∃ k, fuel = k + 1 := ⟨fuel - 1, by omega⟩
      have hstep : t + (n + 1) * gran = t + gran + n * gran := by ring
      rw [hstep] at hlt hbody
      by_cases hidle : t ≤ now ∧ body t = none
      · exact whileDue_idle hidle.1 hidle.2 (lt_of_le_of_lt (Nat.le_add_right _ _) hlt)
          (ih fuel (t + gran) (by omega) hlt hbody)
      · exact whileDue_stop fun hdue hnone => hidle ⟨hdue, hnone⟩

end WhileDue

/-- A break of `whileDue` comes from its body, at a due time. -/
lemma whileDue_inl {now gran : ℕ} {body : ℕ → Option β} {b : β} {t' : ℕ} : ∀ {fuel t : ℕ},
    whileDue now gran body fuel t = some (.inl (b, t')) → t' ≤ now ∧ body t' = some b := by
  intro fuel
  induction fuel with
  | zero => intro t h; simp [whileDue] at h
  | succ fuel ih =>
      intro t h
      rw [whileDue] at h
      split at h
      · rename_i hdue
        cases hb : body t with
        | none =>
            rw [hb] at h
            exact ih h
        | some c =>
            simp only [hb, Option.some.injEq, Sum.inl.injEq, Prod.mk.injEq] at h
            obtain ⟨rfl, rfl⟩ := h
            exact ⟨hdue, hb⟩
      · simp at h

/-- The time at which `whileDue` ends is in range. -/
lemma whileDue_lt {now gran : ℕ} {body : ℕ → Option β} {t' : ℕ} : ∀ {fuel t : ℕ}, t < 2 ^ 64 →
    whileDue now gran body fuel t = some (.inr t') → t' < 2 ^ 64 := by
  intro fuel
  induction fuel with
  | zero => intro t _ h; simp [whileDue] at h
  | succ fuel ih =>
      intro t ht h
      rw [whileDue] at h
      split at h
      · cases hb : body t with
        | none =>
            rw [hb] at h
            exact ih (Nat.mod_lt _ (by norm_num)) h
        | some c => simp [hb] at h
      · obtain rfl : t = t' := by simpa using h
        exact ht

/-- The times at which `whileDue` from `s` runs its body. -/
inductive Visits (now gran : ℕ) (body : ℕ → Option β) (s : ℕ) : ℕ → Prop
  | start (hdue : s ≤ now) : Visits now gran body s s
  | next {t : ℕ} (ht : Visits now gran body s t) (hidle : body t = none)
      (hdue : (t + gran) % 2 ^ 64 ≤ now) : Visits now gran body s ((t + gran) % 2 ^ 64)

lemma Visits.lt {now gran s t : ℕ} {body : ℕ → Option β} (h : Visits now gran body s t)
    (hs : s < 2 ^ 64) : t < 2 ^ 64 := by
  cases h with
  | start hdue => exact hs
  | next ht hidle hdue => exact Nat.mod_lt _ (by norm_num)

/-- `doUntil` stops at the first time it tests. -/
lemma doUntil_stop {gran s t fuel : ℕ} {stop : ℕ → Bool} (hs : (s + gran) % 2 ^ 64 = t)
    (h : stop t = true) : doUntil gran stop (fuel + 1) s = some t := by
  rw [doUntil, hs, if_pos h]

/-- When the first tested time is `t` and a stop lies `n` steps ahead without overflow,
`doUntil` returns the first stop. -/
theorem doUntil_spec {gran : ℕ} {stop : ℕ → Bool} : ∀ (n fuel s t : ℕ),
    n < fuel → (s + gran) % 2 ^ 64 = t → t + n * gran < 2 ^ 64 → stop (t + n * gran) = true →
    ∃ i ≤ n, doUntil gran stop fuel s = some (t + i * gran) ∧ stop (t + i * gran) = true ∧
      ∀ j < i, stop (t + j * gran) = false := by
  intro n
  induction n with
  | zero =>
      intro fuel s t hf hs _ hstop
      obtain ⟨fuel, rfl⟩ : ∃ k, fuel = k + 1 := ⟨fuel - 1, by omega⟩
      rw [Nat.zero_mul, Nat.add_zero] at hstop
      refine ⟨0, le_rfl, ?_, by simpa using hstop, by simp⟩
      rw [Nat.zero_mul, Nat.add_zero]
      exact doUntil_stop hs hstop
  | succ n ih =>
      intro fuel s t hf hs hlt hstop
      obtain ⟨fuel, rfl⟩ : ∃ k, fuel = k + 1 := ⟨fuel - 1, by omega⟩
      have hstep : ∀ i, t + gran + i * gran = t + (i + 1) * gran := fun i => by ring
      by_cases h0 : stop t = true
      · refine ⟨0, by omega, ?_, by simpa using h0, by simp⟩
        rw [Nat.zero_mul, Nat.add_zero]
        exact doUntil_stop hs h0
      · have hmod : (t + gran) % 2 ^ 64 = t + gran := by
          refine Nat.mod_eq_of_lt (lt_of_le_of_lt ?_ hlt)
          rw [← hstep]
          omega
        obtain ⟨i, hi, hrun, hst, hno⟩ := ih fuel t (t + gran) (by omega) hmod
          (by rwa [hstep]) (by rwa [hstep])
        rw [hstep] at hrun hst
        refine ⟨i + 1, by omega, ?_, hst, fun j hj => ?_⟩
        · rw [doUntil, hs, if_neg h0]
          exact hrun
        · cases j with
          | zero => simpa using h0
          | succ j =>
              rw [← hstep]
              exact hno j (by omega)

/-- What a `doUntil` that ends has done: `n` tests failed, the next one did not, and the times are
those of the steps modulo the range. -/
theorem doUntil_some {gran : ℕ} {stop : ℕ → Bool} : ∀ {fuel s r : ℕ},
    doUntil gran stop fuel s = some r →
    ∃ n < fuel, r = (s + (n + 1) * gran) % 2 ^ 64 ∧ stop r = true ∧
      (∀ j < n, stop ((s + (j + 1) * gran) % 2 ^ 64) = false) ∧
      doUntil gran stop (n + 1) s = some r := by
  intro fuel
  induction fuel with
  | zero => intro s r h; simp [doUntil] at h
  | succ fuel ih =>
      intro s r h
      by_cases hstop : stop ((s + gran) % 2 ^ 64) = true
      · rw [doUntil, if_pos hstop, Option.some.injEq] at h
        subst h
        refine ⟨0, by omega, by rw [Nat.zero_add, Nat.one_mul], hstop, by simp, ?_⟩
        rw [doUntil, if_pos hstop]
      · rw [doUntil, if_neg hstop] at h
        obtain ⟨n, hn, hr, hend, hno, hrun⟩ := ih h
        have hstep : ∀ j, ((s + gran) % 2 ^ 64 + (j + 1) * gran) % 2 ^ 64
            = (s + (j + 1 + 1) * gran) % 2 ^ 64 := by
          intro j
          rw [Nat.mod_add_mod]
          congr 1
          ring
        refine ⟨n + 1, by omega, hr.trans (hstep n), hend, fun j hj => ?_, ?_⟩
        · cases j with
          | zero => simpa using hstop
          | succ j =>
              rw [← hstep]
              exact hno j (by omega)
        · rw [doUntil, if_neg hstop]
          exact hrun

/-! ### Seeking -/

/-- `while (!found t && t < now) t += gran;` on 64-bit times. -/
def seek (now gran : ℕ) (found : ℕ → Bool) : ℕ → ℕ → Option ℕ
  | 0, _ => none
  | fuel + 1, t =>
      if !found t && decide (t < now) then seek now gran found fuel ((t + gran) % 2 ^ 64)
      else some t

/-- A search that ends at once. -/
lemma seek_stop {now gran : ℕ} {found : ℕ → Bool} {t : ℕ} (fuel : ℕ)
    (h : found t = true ∨ now ≤ t) : seek now gran found (fuel + 1) t = some t := by
  rw [seek, if_neg]
  rcases h with hf | hle
  · simp [hf]
  · simp [hle]

/-- With a positive step, enough fuel and no overflow, `seek` ends after `i` rounds that found
nothing, at a find or at the clock. -/
theorem seek_spec {now gran : ℕ} {found : ℕ → Bool} (hg : 0 < gran) (hnow : now + gran < 2 ^ 64) :
    ∀ (fuel t : ℕ), now ≤ t + fuel →
    ∃ i, seek now gran found (fuel + 1) t = some (t + i * gran) ∧
      (∀ j < i, found (t + j * gran) = false ∧ t + j * gran < now) ∧
      (found (t + i * gran) = true ∨ now ≤ t + i * gran) := by
  -- ending at once
  have hstop : ∀ fuel t, (found t = true ∨ now ≤ t) →
      ∃ i, seek now gran found (fuel + 1) t = some (t + i * gran) ∧
        (∀ j < i, found (t + j * gran) = false ∧ t + j * gran < now) ∧
        (found (t + i * gran) = true ∨ now ≤ t + i * gran) := by
    intro fuel t h
    exact ⟨0, by rw [seek_stop fuel h, Nat.zero_mul, Nat.add_zero], by simp, by simpa using h⟩
  intro fuel
  induction fuel with
  | zero => exact fun t hf => hstop 0 t (.inr (by omega))
  | succ fuel ih =>
      intro t hf
      by_cases hend : found t = true ∨ now ≤ t
      · exact hstop (fuel + 1) t hend
      · obtain ⟨hfound, hlt⟩ : found t = false ∧ t < now := by simpa using hend
        have hmod : (t + gran) % 2 ^ 64 = t + gran := Nat.mod_eq_of_lt (by omega)
        obtain ⟨i, hrun, hidle, hstop⟩ := ih (t + gran) (by omega)
        have hstep : ∀ i, t + gran + i * gran = t + (i + 1) * gran := fun i => by ring
        rw [hstep] at hrun hstop
        refine ⟨i + 1, ?_, fun j hj => ?_, hstop⟩
        · rw [seek, if_pos (by simp [hfound, hlt]), hmod]
          exact hrun
        · cases j with
          | zero => simpa using ⟨hfound, hlt⟩
          | succ j =>
              rw [← hstep]
              exact hidle j (by omega)

/-- A search ends below a bound of its start and of the last step, by induction on the fuel. -/
lemma seek_lt {now gran b : ℕ} {found : ℕ → Bool} (hb : now + gran ≤ b) : ∀ {fuel t u : ℕ},
    t < b → seek now gran found fuel t = some u → u < b := by
  intro fuel
  induction fuel with
  | zero => exact fun _ hrun => absurd hrun (by simp [seek])
  | succ fuel ih =>
      intro t u ht hrun
      rw [seek] at hrun
      split at hrun
      · rename_i hround
        rw [Bool.and_eq_true, decide_eq_true_eq] at hround
        refine ih ((Nat.mod_le _ _).trans_lt ?_) hrun
        omega
      · exact Option.some.inj hrun ▸ ht

end Loop
