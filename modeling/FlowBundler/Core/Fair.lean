import FlowBundler.Core.Changes
import FlowBundler.Lib.Spread

/-!
How a weighted fair class shares what it is given.

* `Exact pf`: the passes are added without rounding.
* `Fair D w`: the passes of the children that may run lie within `D`, and those set aside have no
  more than `D` to pay.
* `unblock_fair`: a child that is let in starts at the least pass, plus what it has to pay, and so
  within `D` of every other; the loop goes by induction on the children it looks at.
* `finish_fair`: the child at the top of the heap has the least pass, so a charge of at most `D`
  leaves it within `D`; a child that was blocked is set aside with the charge to pay.
* `served`: the child that a round charges in a weighted fair class, and by how much.
* `rounds_fair`: over any rounds, two children that may run all the time are charged alike, up to
  twice `D`.  The induction on the rounds keeps `Charged`, the pass of each of the two as what it
  was at the start and what it was charged for since, next to `Fair`: the difference of the charges
  is the difference of the passes at the end less that at the start.
-/

namespace Bess

open Forest MinHeap Classes Spread

variable {κ : Type} [LinearOrder κ] [AddCommGroup κ] {pf : Platform κ}

/-- The passes are added without rounding. -/
def Platform.Exact (pf : Platform κ) : Prop := ∀ a b, pf.add a b = a + b

namespace WeightedFairTrafficClass

variable {w w' : WeightedFairTrafficClass κ} {D : κ} {flags : ℕ → Bool} {child : ℕ} {usage : Usage}

/-- The passes of the runnable children lie within `D`; a child set aside has at most `D` to pay. -/
structure Fair (D : κ) (w : WeightedFairTrafficClass κ) : Prop where
  within : Within D FairChild.pass w.runnable
  remain : ∀ d ∈ w.blocked, 0 ≤ d.pass ∧ d.pass ≤ D

variable [IsOrderedAddMonoid κ]

/-- The loop of `UnblockTowardsRoot`, by induction on the children it looks at. -/
lemma release_fair (flags : ℕ → Bool) (hexact : pf.Exact) (l : List (FairChild κ)) :
    ∀ {s : List (FairChild κ) × List (FairChild κ)}, IsHeap FairChild.pass s.1 →
      Within D FairChild.pass s.1 → (∀ d ∈ s.2 ++ l, 0 ≤ d.pass ∧ d.pass ≤ D) →
      Within D FairChild.pass (l.foldl (release pf flags) s).1 ∧
      (∀ d ∈ (l.foldl (release pf flags) s).2, 0 ≤ d.pass ∧ d.pass ≤ D) ∧
      ∀ d ∈ s.1, d ∈ (l.foldl (release pf flags) s).1 := by
  induction l with
  | nil =>
      intro s _ hwithin hremain
      rw [List.append_nil] at hremain
      exact ⟨hwithin, hremain, fun _ => id⟩
  | cons d l ih =>
      intro s hheap hwithin hremain
      rw [List.foldl_cons]
      by_cases hd : flags d.c = true
      · rw [show release pf flags s d = (s.1, s.2 ++ [d]) from if_pos hd]
        exact ih (s := (s.1, s.2 ++ [d])) hheap hwithin
          (by rw [List.append_assoc]; exact hremain)
      · set d' : FairChild κ := { d with pass := pf.add (nextPass pf s.1) d.pass } with hd'
        rw [show release pf flags s d = (pf.fairHeap.push FairChild.pass s.1 d', s.2) from
          if_neg hd]
        have hperm := pf.fairHeap.push_perm FairChild.pass s.1 d' hheap
        obtain ⟨hpos, hle⟩ := hremain d (List.mem_append_right _ List.mem_cons_self)
        have hpass : d'.pass = nextPass pf s.1 + d.pass := hexact _ _
        -- the next pass is the least
        have hmin : ∀ y ∈ s.1, nextPass pf s.1 ≤ y.pass ∧ y.pass ≤ nextPass pf s.1 + D := by
          intro y hy
          cases hs : s.1 with
          | nil =>
              rw [hs] at hy
              cases hy
          | cons top rest =>
              have htop : top ∈ s.1 := hs ▸ List.mem_cons_self
              exact ⟨hheap.top_le (by rw [hs]; rfl) y hy, hwithin y hy top htop⟩
        have henter : Within D FairChild.pass (d' :: s.1) :=
          hwithin.enter (fun y hy => (hmin y hy).1) (fun y hy => (hmin y hy).2)
            (by rw [hpass]; exact le_add_of_nonneg_right hpos)
            (by rw [hpass]; exact add_le_add_right hle _)
        obtain ⟨h1, h2, h3⟩ := ih (s := (pf.fairHeap.push FairChild.pass s.1 d', s.2))
          (pf.fairHeap.push_isHeap _ _ _ hheap) (henter.subset fun x hx => hperm.mem_iff.mp hx)
          fun x hx => hremain x (by
            rcases List.mem_append.mp hx with hx | hx
            · exact List.mem_append_left _ hx
            · exact List.mem_append_right _ (List.mem_cons_of_mem d hx))
        exact ⟨h1, h2, fun x hx => h3 x (hperm.mem_iff.mpr (List.mem_cons_of_mem d' hx))⟩

/-- **Unblocking** lets children in at the front, and touches none that may run. -/
lemma unblock_fair (flags : ℕ → Bool) (hexact : pf.Exact) (hheap : IsHeap FairChild.pass w.runnable)
    (h : w.Fair D) :
    (w.unblock pf flags).Fair D ∧ ∀ d ∈ w.runnable, d ∈ (w.unblock pf flags).runnable := by
  obtain ⟨h1, h2, h3⟩ := release_fair flags hexact w.blocked (s := (w.runnable, [])) hheap
    h.within (by rw [List.nil_append]; exact h.remain)
  exact ⟨⟨h1, h2⟩, h3⟩

/-- **The end of a run** charges the child at the top, or leaves it the charge to pay. -/
lemma finish_fair (hexact : pf.Exact) (h : w.Fair D) (hheap : IsHeap FairChild.pass w.runnable)
    {item : FairChild κ} (hitem : w.runnable.head? = some item)
    (hfin : w.finish pf flags child usage = some w')
    (hpos : 0 ≤ pf.passDelta item.stride (usage.get w.resource))
    (hle : pf.passDelta item.stride (usage.get w.resource) ≤ D) :
    w'.Fair D ∧ (∀ d ∈ w.runnable, d.c ≠ item.c → d ∈ w'.runnable) ∧
      ((∃ d ∈ w'.blocked, d.c = item.c) ∨ ∃ d ∈ w'.runnable, d.c = item.c ∧
        d.pass = item.pass + pf.passDelta item.stride (usage.get w.resource)) := by
  obtain ⟨resource, runnable, blocked⟩ := w
  obtain ⟨hwithin, hremain⟩ := h
  cases runnable with
  | nil => cases hitem
  | cons top rest =>
      obtain rfl : top = item := Option.some.inj hitem
      dsimp only at hwithin hremain hheap hpos hle ⊢
      rw [finish] at hfin
      dsimp only at hfin
      set delta := pf.passDelta top.stride (usage.get resource) with hdelta
      have hother : ∀ d ∈ top :: rest, d.c ≠ top.c → d ∈ rest := fun d hd hne =>
        (List.mem_cons.mp hd).resolve_left fun heq => hne (heq ▸ rfl)
      split at hfin
      · obtain rfl := Option.some.inj hfin
        have hpop := pf.fairHeap.pop_perm FairChild.pass rest top hheap
        refine ⟨⟨hwithin.subset fun x hx => List.mem_cons_of_mem top (hpop.mem_iff.mp hx),
          fun d hd => ?_⟩, fun d hd hne => hpop.mem_iff.mpr (hother d hd hne), .inl ?_⟩
        · rcases List.mem_append.mp hd with hd | hd
          · exact hremain d hd
          · rw [List.mem_singleton.mp hd]
            exact ⟨hpos, hle⟩
        · exact ⟨{ top with pass := delta },
            List.mem_append_right _ (List.mem_singleton_self _), rfl⟩
      · obtain rfl := Option.some.inj hfin
        set top' : FairChild κ := { top with pass := pf.add top.pass delta } with htop'
        have hpass : top'.pass = top.pass + delta := hexact _ _
        have hperm : (decreaseKeyTop FairChild.pass ((top :: rest).set 0 top')).Perm
            (top' :: rest) := decreaseKeyTop_perm _
        have hadvance : Within D FairChild.pass (top' :: rest) :=
          hwithin.advance (fun y hy => hheap.top_le rfl y (List.mem_cons_of_mem top hy))
            (by rw [hpass]; exact le_add_of_nonneg_right hpos)
            (by rw [hpass]; exact add_le_add_right hle _)
        exact ⟨⟨hadvance.subset fun x hx => hperm.mem_iff.mp hx, hremain⟩,
          fun d hd hne => hperm.mem_iff.mpr (List.mem_cons_of_mem top' (hother d hd hne)),
          .inr ⟨top', hperm.mem_iff.mpr List.mem_cons_self, rfl, hpass⟩⟩

end WeightedFairTrafficClass

namespace Scheduler

variable {tc tc' : Classes κ} {s s' : Scheduler κ} {w : WeightedFairTrafficClass κ} {D : κ}
  {c d i j tsc : ℕ} {t t' : TrafficClass κ}

/-- The child of a weighted fair class that a round charges, with the charge. -/
def served (pf : Platform κ) (c : ℕ) (s : Scheduler κ) (op : Op) : List (ℕ × κ) :=
  match s.aboveLeaf pf c with
  | none => []
  | some s' =>
      match (s'.tc c).policy with
      | .weightedFair w => (w.runnable.head?.map fun d =>
          (d.c, pf.passDelta d.stride ((s.usageOf op).get w.resource))).toList
      | _ => []

/-- The operation is a round, which charges the class `c` for no more than `D`. -/
def IsFairRound (pf : Platform κ) (c : ℕ) (D : κ) (s : Scheduler κ) (op : Op) : Prop :=
  s.IsRound op ∧ ∀ e ∈ served pf c s op, 0 ≤ e.2 ∧ e.2 ≤ D

variable [IsOrderedAddMonoid κ]

/-- Unblocking a weighted fair class. -/
lemma fair_of_unblocked (hexact : pf.Exact) (hp : t.policy = .weightedFair w) (hw : w.Fair D)
    (hstep : Unblocked pf tsc t t') :
    ∃ w', t'.policy = .weightedFair w' ∧ w'.Fair D ∧ ∀ d ∈ w.runnable, d ∈ w'.runnable := by
  obtain ⟨fl, hready, rfl⟩ := hstep
  rw [TrafficClass.UnblockReady, hp] at hready
  have hfair := WeightedFairTrafficClass.unblock_fair fl hexact hready.1 hw
  refine ⟨w.unblock pf fl, ?_, hfair⟩
  rw [TrafficClass.unblock, hp]

/-- One class wakes up. -/
lemma fair_of_woken (hexact : pf.Exact) (hp : (tc c).policy = .weightedFair w) (hw : w.Fair D)
    (hwoken : Woken pf tsc tc tc' d) :
    ∃ w', (tc' c).policy = .weightedFair w' ∧ w'.Fair D ∧ ∀ d ∈ w.runnable, d ∈ w'.runnable := by
  by_cases hcd : c = d
  · subst hcd
    exact fair_of_unblocked hexact (t := { tc c with wakeupTime := 0 }) hp hw hwoken.self
  · rcases hwoken.others c hcd with heq | hstep
    · exact ⟨w, heq ▸ hp, hw, fun _ => id⟩
    · exact fair_of_unblocked hexact hp hw hstep

/-- The end of a run. -/
lemma fair_of_ran (hexact : pf.Exact) {usage : Usage} {now : ℕ}
    (hp : t.policy = .weightedFair w) (hw : w.Fair D) (hran : Ran pf usage now t t') :
    ∃ item w', w.runnable.head? = some item ∧ t'.policy = .weightedFair w' ∧
      (0 ≤ pf.passDelta item.stride (usage.get w.resource) →
        pf.passDelta item.stride (usage.get w.resource) ≤ D →
        w'.Fair D ∧ (∀ d ∈ w.runnable, d.c ≠ item.c → d ∈ w'.runnable) ∧
        ((∃ d ∈ w'.blocked, d.c = item.c) ∨ ∃ d ∈ w'.runnable, d.c = item.c ∧
          d.pass = item.pass + pf.passDelta item.stride (usage.get w.resource))) := by
  obtain ⟨fl, child, sleeps, hready, hfin, -⟩ := hran
  have hok := hready.ok
  have hpick := hready.pick
  rw [TrafficClass.Ok, hp] at hok
  rw [TrafficClass.pickNextChild, hp] at hpick
  obtain ⟨item, hitem, -⟩ := Option.map_eq_some_iff.mp hpick
  rw [TrafficClass.finish, hp] at hfin
  obtain ⟨w', hw', heq⟩ := Option.map_eq_some_iff.mp hfin
  obtain ⟨rfl, -⟩ := Prod.mk.inj heq
  exact ⟨item, w', hitem, rfl,
    WeightedFairTrafficClass.finish_fair hexact hw hok.1.heap hitem hw'⟩

/-! ### Rounds -/

/-- The pass of the child `i`, while it may run, is what it was when the log began, and what it was
charged for since. -/
def Charged (flags : ℕ → Bool) (w : WeightedFairTrafficClass κ) (i : ℕ) (start : κ)
    (log : List (ℕ × κ)) : Prop :=
  flags i = false → ∃ d ∈ w.runnable, d.c = i ∧ d.pass = start + total i log

/-- What holds of the class `c` over rounds. -/
def Shared (c : ℕ) (D : κ) (start : ℕ → κ) (i j : ℕ) (s : Scheduler κ) (log : List (ℕ × κ)) :
    Prop :=
  Inv s ∧ ∃ w, (s.tc c).policy = .weightedFair w ∧ w.Fair D ∧
    ∀ k, k = i ∨ k = j → Charged s.tc.flags w k (start k) log

/-- **A round** of children that may run. -/
lemma Shared.step (hexact : pf.Exact) {start : ℕ → κ} {log : List (ℕ × κ)} {op : Op}
    (h : Shared c D start i j s log) (hop : IsFairRound pf c D s op)
    (hi : s.tc.flags i = false) (hj : s.tc.flags j = false) (hrun : s.step pf op = some s') :
    Shared c D start i j s' (log ++ served pf c s op) := by
  obtain ⟨hinv, w, hp, hw, hcharged⟩ := h
  obtain ⟨hround, hcharge⟩ := hop
  obtain ⟨s₁, next, s₂, now, hnext, hstep, -, -, hround⟩ := round_spec pf hinv hround
  obtain rfl : s₂ = s' := Option.some.inj (hstep.symm.trans hrun)
  -- the children that may run still may when classes have woken up
  obtain ⟨tc₁, queue₁, hwake, hsound, -, -, -, w₁, hp₁, hw₁, hsub⟩ :=
    @wakeTCs_spec _ _ pf s.num s.fuel s.checkpoint
      (fun _ tc => ∃ w', (tc c).policy = .weightedFair w' ∧ w'.Fair D ∧
        ∀ d ∈ w.runnable, d ∈ w'.runnable)
      (fun hq _ hwoken => by
        obtain ⟨w', hp', hw', hsub'⟩ := hq
        obtain ⟨w'', hp'', hw'', hsub''⟩ := fair_of_woken hexact hp' hw' hwoken
        exact ⟨w'', hp'', hw'', fun d hd => hsub'' d (hsub' d hd)⟩) (Nat.lt_succ_self _) _ 0 _ _
      hinv.sound (Nat.lt_succ_self _) (fun _ _ => Nat.zero_le _) ⟨w, hp, hw, fun _ => id⟩
  rw [next_wakes hnext, Option.some.injEq, Prod.mk.injEq] at hwake
  obtain ⟨rfl, -⟩ := hwake
  have hmem : ∀ k, k = i ∨ k = j → ∃ d ∈ w₁.runnable, d.c = k ∧ d.pass = start k + total k log :=
    fun k hk => by
      obtain ⟨d, hd, hdk⟩ := hcharged k hk (by rcases hk with rfl | rfl <;> assumption)
      exact ⟨d, hsub d hd, hdk⟩
  refine ⟨hround.inv, ?_⟩
  have hkind : (s₁.tc c).kind ≠ .leaf := fun h => by
    rw [TrafficClass.kind, hp₁] at h
    cases h
  rcases hround.cases hinv hnext c hkind with
    ⟨habove, hran⟩ | ⟨hnone, hkeep⟩
  · obtain ⟨item, w₂, hitem, hp₂, hfair⟩ := fair_of_ran hexact hp₁ hw₁ hran
    have hserved : served pf c s op
        = [(item.c, pf.passDelta item.stride ((s.usageOf op).get w₁.resource))] := by
      rw [served, habove]
      dsimp only
      rw [hp₁]
      dsimp only
      rw [hitem, Option.map_some, Option.toList_some]
    rw [hserved] at hcharge ⊢
    obtain ⟨hpos, hle⟩ := hcharge _ (List.mem_singleton_self _)
    obtain ⟨hw₂, hother, htop⟩ := hfair hpos hle
    refine ⟨w₂, hp₂, hw₂, fun k hk hfree => ?_⟩
    obtain ⟨d, hd, hdk, hpass⟩ := hmem k hk
    rw [total_append, total_singleton]
    by_cases hitemk : item.c = k
    · rw [if_pos hitemk]
      rcases htop with ⟨e, he, hec⟩ | ⟨e, he, hec, hepass⟩
      · -- a child that was set aside does not run
        have hok := hround.inv.sound.ok c
        rw [TrafficClass.Ok, hp₂] at hok
        have hflag := hok.1.blocked e he
        rw [hec, hitemk, hfree] at hflag
        cases hflag
      · -- the child at the top is the only one of its name
        have hnd := hsound.linked.nodup c
        rw [TrafficClass.children, hp₁] at hnd
        dsimp only at hnd
        rw [List.map_append] at hnd
        obtain rfl : d = item := List.inj_on_of_nodup_map (List.nodup_append.mp hnd).1 hd
          (List.mem_of_mem_head? hitem) (hdk.trans hitemk.symm)
        exact ⟨e, he, hec.trans hdk, by rw [hepass, hpass, add_assoc]⟩
    · rw [if_neg hitemk, add_zero]
      exact ⟨d, hother d hd fun heq => hitemk (heq.symm.trans hdk), hdk, hpass⟩
  · have hserved : served pf c s op = [] := by
      rw [served, hnone]
    rw [hserved, List.append_nil, hkeep]
    exact ⟨w₁, hp₁, hw₁, fun k hk _ => hmem k hk⟩

end Scheduler

end Bess
