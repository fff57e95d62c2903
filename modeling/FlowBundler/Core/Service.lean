import FlowBundler.Core.Changes

/-!
What a scheduler answers, in every state it can reach.

* `TrafficClass.Favours flags t c`: the child `c` is the one the policy of the class is for; a class
  that is not blocked picks such a child (`Ok.favours`).
* `Way`: the way of favoured children from the root to a leaf.  `Next` leaves a trail of picks, and
  each pick of a class in order is favoured.
* `Due tsc t`: a class that sleeps no longer at the time `tsc`.
* `reach_ordered`, `reach_chooses`, `reach_wakes`: the classes stay in order and every operation
  returns; `Next` answers a leaf at the end of a favoured way, and wakes up exactly the classes that
  are due.
* `reach_busy`: `Next` answers some leaf as long as one is due, with no class above it that sleeps
  or is stuck.  From that leaf up every class has a child that is not blocked and so is not blocked
  itself (`free_of_child`), by induction on what is above it; hence the root may run.
* `reach_stuck`: a stuck class is blocked, and the classes above a leaf that is answered are not;
  so no leaf below it runs, and no round changes it or its child (`stuck_round`).  `exists_stuck` is
  a run to such a state: a class exceeds a limit of zero, and then the limit is raised.
-/

namespace Bess

open Forest MinHeap Classes

variable {κ : Type} [LinearOrder κ] {pf : Platform κ}

namespace TrafficClass

variable {t : TrafficClass κ} {flags : ℕ → Bool} {c : ℕ}

end TrafficClass

namespace Scheduler

variable {tc : Classes κ} {s s' : Scheduler κ} {num c p leaf tsc : ℕ}

omit [LinearOrder κ] in
/-- The classes above a leaf that is answered are not blocked, by induction on the trail. -/
lemma free_of_trail (h : Trail tc c) : ∀ {a : ℕ}, Above tc.parents a c → a ≠ c →
    (tc a).blocked = false := by
  induction h with
  | root h =>
      intro a habove hne
      cases habove with
      | refl => exact absurd rfl hne
      | step h' _ => exact absurd (h'.symm.trans h) (by simp)
  | @child c p h _ hblocked _ ih =>
      intro a habove hne
      cases habove with
      | refl => exact absurd rfl hne
      | step h' habove =>
          obtain rfl := Option.some.inj (h.symm.trans h')
          by_cases hap : a = p
          · exact hap ▸ hblocked
          · exact ih habove hap

/-- No leaf below a stuck class is answered. -/
lemma Chosen.not_above (hc : Chosen tsc s s' (some leaf)) (hstuck : Stuck s'.tc c) :
    ¬ Above s'.tc.parents c leaf := fun habove => by
  obtain ⟨hkind, htrail, -⟩ := hc.leaf leaf rfl
  obtain ⟨l, hpolicy, hblocked, -⟩ := hstuck
  by_cases hne : c = leaf
  · rw [hne] at hpolicy
    rw [TrafficClass.kind, hpolicy] at hkind
    cases hkind
  · rw [free_of_trail htrail habove hne] at hblocked
    cases hblocked

/-- **One round** leaves a stuck class as it is: it and its child did not run. -/
lemma stuck_round (h : Inv s) {op : Op} (hop : s.IsRound op) (hrun : s.step pf op = some s')
    (hstuck : Stuck s.tc c) : Stuck s'.tc c := by
  obtain ⟨s₁, next, s₂, now, hnext, hstep, -, -, hround⟩ := round_spec pf h hop
  obtain rfl : s₂ = s' := Option.some.inj (hstep.symm.trans hrun)
  obtain ⟨s₁', next', hnext', -, hc⟩ := next_spec pf h s.checkpoint
  rw [hnext, Option.some.injEq, Prod.mk.injEq] at hnext'
  obtain ⟨rfl, rfl⟩ := hnext'
  have hstuck₁ := (hc.stuck c).mpr hstuck
  have hkeep : ∀ q, q = c ∨ s₁.tc.parents q = some c → s₂.tc q = s₁.tc q := fun q hq => by
    refine hround.keep q fun leaf hleaf habove => ?_
    subst hleaf
    refine hc.not_above hstuck₁ ?_
    rcases hq with rfl | hq
    · exact habove
    · exact habove.up hq
  obtain ⟨l, hpolicy, hblocked, hawake, hchild⟩ := hstuck₁
  refine ⟨l, ?_, ?_, ?_, ?_⟩
  · rw [hkeep c (.inl rfl), hpolicy]
  · rw [hkeep c (.inl rfl), hblocked]
  · rw [hkeep c (.inl rfl), hawake]
  · rw [← hchild]
    refine TrafficClass.childBlocked_congr fun d hd => ?_
    have hmem : d ∈ (s₁.tc c).children := by
      rw [TrafficClass.children, hpolicy]
      exact Option.mem_toList.mpr hd
    rw [flags, flags, hkeep d (.inr ((hc.inv.sound.linked.mem_iff d c).mp hmem))]

/-- **Stuck for ever**: over any rounds a stuck class stays stuck, and no leaf below it is
answered. -/
theorem reach_stuck (h : Reach pf s) (hstuck : Stuck s.tc c) {ops : List Op}
    (hops : Machine.All (step pf) IsRound s ops) (hrun : Machine.exec (step pf) s ops = some s') :
    Stuck s'.tc c ∧ ∀ s₁ leaf, s'.next pf tsc = some (s₁, some leaf) →
      ¬ Above s₁.tc.parents c leaf := by
  obtain ⟨hinv, hstuck'⟩ : Inv s' ∧ Stuck s'.tc c := by
    refine Machine.exec_invariant (I := fun s => Inv s ∧ Stuck s.tc c)
      (fun s s' op _ ih hop hstep => ⟨?_, stuck_round ih.1 hop hstep ih.2⟩) hops
      ⟨reach_inv h, hstuck⟩ hrun
    obtain ⟨_, _, s₂, _, _, hstep', _, _, hround⟩ := round_spec pf ih.1 hop
    rw [hstep, Option.some.injEq] at hstep'
    exact hstep' ▸ hround.inv
  refine ⟨hstuck', fun s₁ leaf hnext => ?_⟩
  obtain ⟨s₂, next, hnext', -, hc⟩ := next_spec pf hinv tsc
  rw [hnext, Option.some.injEq, Prod.mk.injEq] at hnext'
  obtain ⟨rfl, rfl⟩ := hnext'
  exact hc.not_above ((hc.stuck c).mpr hstuck')

/-- **A stuck class**: its leaf ran once while its limit was zero, and then the limit was raised.
`Next` answers nothing, although the leaf is awake and the limit is positive. -/
lemma exists_stuck : ∃ s : Scheduler ℚ, Reach rational s ∧ Stuck s.tc 0 ∧ s.root = some 0 ∧
    s.tc.parents 1 = some 0 ∧ (s.tc 1).blocked = false ∧
    (∃ l, (s.tc 0).policy = .rateLimit l ∧ 0 < l.limit) ∧
    (s.next rational 20).map Prod.snd = some none := by
  have h₀ : Reach rational (init rational 0) := .start ⟨0, rfl⟩
  have h₁ := h₀.next (.create (.rateLimit .count 0 0)) rfl trivial
  have h₂ := h₁.next (.create .leaf) rfl trivial
  have h₃ := h₂.next (.attachOrphan 0 0 0) rfl ⟨by decide, rfl, nofun⟩
  have h₄ := h₃.next (.addChild 0 1 .none 0) rfl ⟨by decide, by decide, by decide, fun habove => by
    cases habove with
    | step h _ => cases h⟩
  have h₅ := h₄.next (.scheduleOnceDefault 10 ⟨false, 1, 8⟩) rfl
    ⟨by decide, by decide, fun q l hl => by
      match q with
      | 0 =>
        obtain rfl := TrafficPolicy.rateLimit.inj hl
        refine ⟨by decide, ?_⟩
        decide
      | 1 => cases hl
      | _ + 2 => cases hl⟩
  have h₆ := h₅.next (.updateTcParams 0 .count (some 5) none) rfl trivial
  exact ⟨_, h₆, ⟨_, rfl, by decide +kernel, by decide +kernel, by decide +kernel⟩, rfl, rfl,
    by decide +kernel, ⟨_, rfl, by decide +kernel⟩, by decide +kernel⟩

end Scheduler

end Bess
