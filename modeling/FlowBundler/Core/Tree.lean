import FlowBundler.Core.Policies
import FlowBundler.Lib.Forest

/-!
The walks towards the root.

* `Linked tc num`: parents and lists of children tell the same, and the classes are a forest, in
  the sense of the library: each has a depth, below the number of classes.
* `unblockTowardsRoot_spec`, `blockTowardsRoot_spec`, `finishTowardsRoot_spec`: a walk that starts
  where the data and the flags disagree comes to an end, and leaves every class in order.  Each
  class above is changed once, and the others not at all (`Along`).

  All three go by induction on the fuel, which the depth of the class bounds.  The class at hand is
  put in order by the lemma about its policy; its own flag matters to its parent only
  (`Linked.ok_flip`), so either the flag stays and all classes are in order, or it changes and the
  walk goes on at the parent, which is then the only one that may be out of order.
* `Trail tc c`: the classes above `c` are not blocked and pick the way to it; this is where a run
  has come from, and what finishing it needs.
* `Stuck tc q`: a rate limit class that is awake and blocked above a child that is not.  No walk
  comes to it, as its child does not change its flag: `unblockTowardsRoot_spec` keeps the stuck
  classes, up to the class that it starts from.
-/

namespace Bess

open Forest MinHeap

namespace Classes

variable {κ : Type} {tc tc' : Classes κ} {t : TrafficClass κ} {fl : ℕ → Bool} {b : Bool}
  {num n c p q tsc : ℕ}

/-! ### The forest -/

/-- The parents of the classes. -/
def parents (tc : Classes κ) (c : ℕ) : Option ℕ := (tc c).parent

/-- The lists of children are those of the parents, and every class has a root. -/
structure Linked (tc : Classes κ) (num : ℕ) : Prop where
  bound : ∀ c p, tc.parents c = some p → c < num ∧ p < num
  mem_iff : ∀ c p, c ∈ (tc p).children ↔ tc.parents c = some p
  nodup : ∀ p, (tc p).children.Nodup
  rooted : Rooted tc.parents

lemma Linked.depth_lt (hl : Linked tc num) (hc : c < num) (hd : Depth tc.parents c n) :
    n < num := by
  have h := hd.lt_card (s := Finset.range num)
    (fun c p hp => Finset.mem_range.mpr (hl.bound c p hp).2) (Finset.mem_range.mpr hc)
  rwa [Finset.card_range] at h

lemma Linked.depth_le (hl : Linked tc num) (hd : Depth tc.parents c n) : n ≤ num := by
  cases hd with
  | root h => exact Nat.zero_le _
  | @child _ p m h hp => exact (hl.depth_lt (hl.bound c p h).1 (.child h hp)).le

/-- A class above another was created. -/
lemma Linked.above_lt (hl : Linked tc num) (h : Above tc.parents q c) (hne : q ≠ c) : q < num := by
  induction h with
  | refl => exact absurd rfl hne
  | @step c p h _ ih =>
      by_cases hqp : q = p
      · exact hqp ▸ (hl.bound c p h).2
      · exact ih hqp

/-- A class below another was created. -/
lemma Linked.lt_of_above (hl : Linked tc num) (h : Above tc.parents q c) (hq : q < num) :
    c < num := by
  cases h with
  | refl => exact hq
  | step h _ => exact (hl.bound _ _ h).1

lemma Linked.parent_ne (hl : Linked tc num) : tc.parents c ≠ some c :=
  (hl.rooted c).choose_spec.parent_ne

lemma parents_update (ht : t.parent = (tc c).parent) :
    parents (Function.update tc c t) = tc.parents := by
  funext d
  by_cases hd : d = c
  · rw [hd, parents, Function.update_self, ht, parents]
  · rw [parents, Function.update_of_ne hd, parents]

lemma flags_update (tc : Classes κ) (c : ℕ) (t : TrafficClass κ) :
    flags (Function.update tc c t) = Function.update tc.flags c t.blocked := by
  funext d
  by_cases hd : d = c
  · rw [hd, flags, Function.update_self, Function.update_self]
  · rw [flags, Function.update_of_ne hd, Function.update_of_ne hd, flags]

/-- A class whose own data are changed stays in its place. -/
lemma Linked.update (hl : Linked tc num) (ht : t.parent = (tc c).parent)
    (hch : t.children.Perm (tc c).children) : Linked (Function.update tc c t) num := by
  have hpar := parents_update ht
  refine ⟨?_, fun d p => ?_, fun p => ?_, ?_⟩
  · rw [hpar]
    exact hl.bound
  · rw [hpar, ← hl.mem_iff]
    by_cases hp : p = c
    · rw [hp, Function.update_self]
      exact hch.mem_iff
    · rw [Function.update_of_ne hp]
  · by_cases hp : p = c
    · rw [hp, Function.update_self]
      exact hch.nodup_iff.mpr (hl.nodup c)
    · rw [Function.update_of_ne hp]
      exact hl.nodup p
  · rw [hpar]
    exact hl.rooted

variable [LinearOrder κ] {pf : Platform κ} {usage : Usage}

/-- The flag of a class matters to its parent only. -/
lemma Linked.ok_flip (hl : Linked tc num) (hq : tc.parents c ≠ some q) (h : (tc q).Ok fl) :
    (tc q).Ok (Function.update fl c b) := by
  refine h.congr fun d hd => ?_
  rw [Function.update_of_ne fun hdc : d = c => hq (hdc ▸ (hl.mem_iff d q).mp hd)]

/-- The flag of a class does not matter to itself, also after its lists were put in order. -/
lemma Linked.ok_flip_self (hl : Linked tc num) (hch : t.children.Perm (tc c).children)
    (h : t.Ok fl) : t.Ok (Function.update fl c b) := by
  refine h.congr fun d hd => ?_
  rw [Function.update_of_ne fun hdc : d = c => ?_]
  exact hl.parent_ne ((hl.mem_iff c c).mp (hch.mem_iff.mp (hdc ▸ hd)))

/-- After a change of one class whose flag stays, or which has no parent, all are in order. -/
lemma Linked.ok_update (hl : Linked tc num) (hch : t.children.Perm (tc c).children)
    (ht : t.Ok tc.flags) (hok : ∀ q, q ≠ c → (tc q).Ok tc.flags)
    (hq : t.blocked = (tc c).blocked ∨ tc.parents c ≠ some q) :
    (Function.update tc c t q).Ok (flags (Function.update tc c t)) := by
  rw [flags_update]
  by_cases hqc : q = c
  · rw [hqc, Function.update_self]
    exact hl.ok_flip_self hch ht
  · rw [Function.update_of_ne hqc]
    rcases hq with hflag | hpar
    · rw [hflag, show (tc c).blocked = tc.flags c from rfl, Function.update_eq_self]
      exact hok q hqc
    · exact hl.ok_flip hpar (hok q hqc)

/-! ### Stuck classes -/

omit [LinearOrder κ] in
/-- A rate limit class that is blocked although it is awake and its child is not blocked. -/
def Stuck (tc : Classes κ) (q : ℕ) : Prop :=
  ∃ l, (tc q).policy = .rateLimit l ∧ (tc q).blocked = true ∧ (tc q).wakeupTime = 0 ∧
    TrafficClass.childBlocked tc.flags l = false

omit [LinearOrder κ] in
/-- A change of another class does not matter, unless it is the flag of the child. -/
lemma Linked.stuck_update (hl : Linked tc num) (hqc : q ≠ c)
    (h : t.blocked = (tc c).blocked ∨ tc.parents c ≠ some q) :
    Stuck (Function.update tc c t) q ↔ Stuck tc q := by
  rw [Stuck, Stuck, Function.update_of_ne hqc, flags_update]
  refine exists_congr fun l => and_congr_right fun hp => ?_
  have hchild : TrafficClass.childBlocked (Function.update tc.flags c t.blocked) l
      = TrafficClass.childBlocked tc.flags l := TrafficClass.childBlocked_congr fun d hd => by
    by_cases hdc : d = c
    · have hmem : d ∈ (tc q).children := by
        rw [TrafficClass.children, hp]
        exact Option.mem_toList.mpr hd
      rw [hl.mem_iff, hdc] at hmem
      rw [hdc, Function.update_self, h.resolve_right fun hne => hne hmem, flags]
    · rw [Function.update_of_ne hdc]
  rw [hchild]

omit [LinearOrder κ] in
/-- The child of a stuck class is not blocked. -/
lemma Linked.child_of_stuck (hl : Linked tc num) (hq : Stuck tc q)
    (h : tc.parents c = some q) : (tc c).blocked = false := by
  obtain ⟨l, hp, -, -, hchild⟩ := hq
  have hmem := (hl.mem_iff c q).mpr h
  rw [TrafficClass.children, hp] at hmem
  rw [TrafficClass.childBlocked, Option.mem_toList.mp hmem] at hchild
  exact hchild

variable (pf tsc) in
/-- A class that was put in order is not stuck. -/
lemma Linked.not_stuck_unblock (c : ℕ) (hl : Linked tc num) :
    ¬ Stuck (Function.update tc c ((tc c).unblock pf tc.flags tsc)) c := by
  rintro ⟨l, hp, hblocked, hawake, hchild⟩
  rw [Function.update_self] at hp hblocked hawake
  rw [TrafficClass.unblock_wakeupTime] at hawake
  cases hpolicy : (tc c).policy with
  | rateLimit l₀ =>
      rw [TrafficClass.unblock, hpolicy] at hp hblocked
      obtain rfl := TrafficPolicy.rateLimit.inj hp
      dsimp only at hblocked
      rw [hawake] at hblocked
      have hsame : TrafficClass.childBlocked tc.flags l₀ = false := by
        refine Eq.trans ?_ hchild
        refine TrafficClass.childBlocked_congr (l := l₀) fun d hd => ?_
        have hdc : d ≠ c := fun hdc => hl.parent_ne ((hl.mem_iff c c).mp (by
          rw [TrafficClass.children, hpolicy]
          exact Option.mem_toList.mpr (hdc ▸ hd)))
        rw [flags, flags, Function.update_of_ne hdc]
      rw [hsame] at hblocked
      exact absurd hblocked (by decide)
  | priority p =>
      rw [TrafficClass.unblock, hpolicy] at hp
      cases hp
  | weightedFair w =>
      rw [TrafficClass.unblock, hpolicy] at hp
      cases hp
  | roundRobin r =>
      rw [TrafficClass.unblock, hpolicy] at hp
      cases hp
  | leaf l =>
      rw [TrafficClass.unblock, hpolicy] at hp
      cases hp

/-! ### Unblocking and blocking -/

/-- Each class from `c` up is changed as `R` says, or not at all; the others are not changed. -/
def Along (R : TrafficClass κ → TrafficClass κ → Prop) (tc tc' : Classes κ) (c : ℕ) : Prop :=
  ∀ q, tc' q = tc q ∨ Above tc.parents q c ∧ R (tc q) (tc' q)

omit [LinearOrder κ] in
lemma Along.here {R : TrafficClass κ → TrafficClass κ → Prop} (hR : R (tc c) t) :
    Along R tc (Function.update tc c t) c := by
  intro q
  by_cases hq : q = c
  · rw [hq, Function.update_self]
    exact .inr ⟨.refl, hR⟩
  · exact .inl (Function.update_of_ne hq _ _)

omit [LinearOrder κ] in
/-- A change of `a` comes before the changes from `p` up, which leave it as it is. -/
lemma Along.cons {R : TrafficClass κ → TrafficClass κ → Prop} {a : ℕ}
    (hpar : t.parent = (tc a).parent) (hR : R (tc a) t) (ha : Above tc.parents a c)
    (hp : ∀ q, Above tc.parents q p → Above tc.parents q c)
    (h : Along R (Function.update tc a t) tc' p) (hkeep : tc' a = t) : Along R tc tc' c := by
  intro q
  by_cases hq : q = a
  · rw [hq, hkeep]
    exact .inr ⟨ha, hR⟩
  · have hstep := h q
    rw [Function.update_of_ne hq, parents_update hpar] at hstep
    exact hstep.imp id fun hstep => ⟨hp q hstep.1, hstep.2⟩

omit [LinearOrder κ] in
/-- What no change touches is as before. -/
lemma Along.keep {R : TrafficClass κ → TrafficClass κ → Prop} {β : Type} {f : TrafficClass κ → β}
    (h : Along R tc tc' c) (hR : ∀ {t t'}, R t t' → f t' = f t) (q : ℕ) : f (tc' q) = f (tc q) :=
  (h q).elim (congrArg f) fun hstep => hR hstep.2

omit [LinearOrder κ] in
lemma Along.alike {R : TrafficClass κ → TrafficClass κ → Prop} (h : Along R tc tc' c)
    (hR : ∀ {t t'}, R t t' → t.Alike t') (q : ℕ) : (tc q).Alike (tc' q) := by
  rcases h q with heq | ⟨-, hstep⟩
  · rw [heq]
    exact .refl _
  · exact hR hstep

omit [LinearOrder κ] in
/-- The forest is the same when every class is where it was. -/
lemma Linked.of_alike (hl : Linked tc num) (h : ∀ q, (tc q).Alike (tc' q)) :
    Linked tc' num ∧ tc'.parents = tc.parents := by
  have hpar : parents tc' = tc.parents := funext fun q => (h q).parent
  refine ⟨⟨hpar ▸ hl.bound, fun c p => ?_, fun p => ?_, hpar ▸ hl.rooted⟩, hpar⟩
  · rw [hpar, ← hl.mem_iff]
    exact (h p).children.mem_iff
  · exact (h p).children.nodup_iff.mpr (hl.nodup p)

/-- What unblocking does to a class. -/
def Unblocked (pf : Platform κ) (tsc : ℕ) (t t' : TrafficClass κ) : Prop :=
  ∃ fl, t.UnblockReady fl ∧ t' = t.unblock pf fl tsc

/-- What blocking does to a class. -/
def Blocked (pf : Platform κ) (t t' : TrafficClass κ) : Prop :=
  ∃ fl, t.BlockReady fl ∧ t' = t.block pf fl

lemma Unblocked.alike {t' : TrafficClass κ} (h : Unblocked pf tsc t t') : t.Alike t' := by
  obtain ⟨fl, hready, rfl⟩ := h
  exact hready.alike

lemma Unblocked.wakeupTime {t' : TrafficClass κ} (h : Unblocked pf tsc t t') :
    t'.wakeupTime = t.wakeupTime := by
  obtain ⟨fl, -, rfl⟩ := h
  exact TrafficClass.unblock_wakeupTime t

lemma Blocked.alike {t' : TrafficClass κ} (h : Blocked pf t t') : t.Alike t' := by
  obtain ⟨fl, hready, rfl⟩ := h
  exact hready.alike

lemma Blocked.wakeupTime {t' : TrafficClass κ} (h : Blocked pf t t') :
    t'.wakeupTime = t.wakeupTime := by
  obtain ⟨fl, -, rfl⟩ := h
  exact TrafficClass.block_wakeupTime t

/-- **The walk that unblocks**, by induction on the fuel: one class is put in order, and its parent
is told if the flag of the class has changed.  The stuck classes above it stay stuck. -/
theorem unblockTowardsRoot_spec (fuel : ℕ) : ∀ {tc : Classes κ} {c n : ℕ}, Linked tc num →
    Depth tc.parents c n → n < fuel → (tc c).UnblockReady tc.flags →
    (∀ q, q ≠ c → (tc q).Ok tc.flags) →
    ∃ tc', unblockTowardsRoot pf fuel tc c tsc = some tc' ∧ (∀ q, (tc' q).Ok tc'.flags) ∧
      Along (Unblocked pf tsc) tc tc' c ∧ Unblocked pf tsc (tc c) (tc' c) ∧
      ∀ q, Stuck tc' q ↔ q ≠ c ∧ Stuck tc q := by
  have hself' : ∀ {tc : Classes κ} {c : ℕ} {t : TrafficClass κ}, Unblocked pf tsc (tc c) t →
      Unblocked pf tsc (tc c) (Function.update tc c t c) := fun hR => by
    rwa [Function.update_self]
  induction fuel with
  | zero => exact fun _ _ hfuel => absurd hfuel (Nat.not_lt_zero _)
  | succ fuel ih =>
      intro tc c n hl hd hfuel hready hok
      obtain ⟨hself, hch, hmono⟩ := @TrafficClass.UnblockReady.unblock_ok _ _ pf _ tsc _ hready
      have hR : Unblocked pf tsc (tc c) ((tc c).unblock pf tc.flags tsc) := ⟨_, hready, rfl⟩
      have hpar : ((tc c).unblock pf tc.flags tsc).parent = (tc c).parent :=
        TrafficClass.unblock_parent _
      have hfree := hl.not_stuck_unblock tsc pf c
      rw [unblockTowardsRoot]
      set t := (tc c).unblock pf tc.flags tsc with ht
      rw [hpar]
      cases hp : (tc c).parent with
      | none =>
          have hroot : ∀ q, tc.parents c ≠ some q := fun q => by
            rw [parents, hp]
            exact (Option.some_ne_none q).symm
          refine ⟨_, rfl, fun q => hl.ok_update hch hself hok (.inr (hroot q)), .here hR, hself' hR,
            fun q => ?_⟩
          refine ⟨fun hq => ?_, fun hq => (hl.stuck_update hq.1 (.inr (hroot q))).mpr hq.2⟩
          have hqc : q ≠ c := fun hqc => hfree (hqc ▸ hq)
          exact ⟨hqc, (hl.stuck_update hqc (.inr (hroot q))).mp hq⟩
      | some p =>
          dsimp only
          by_cases hflag : ((tc c).blocked && !t.blocked) = true
          · rw [if_pos hflag]
            have hnew : t.blocked = false := by simpa using (Bool.and_eq_true_iff.mp hflag).2
            have hpc : p ≠ c := fun hpc => hl.parent_ne (show tc.parents c = some c from hpc ▸ hp)
            cases hd with
            | root h => exact absurd (h.symm.trans hp) (by simp)
            | @child _ p' m h hd =>
                obtain rfl : p' = p := Option.some.inj (h.symm.trans hp)
                have hready' : (Function.update tc c t p').UnblockReady
                    (flags (Function.update tc c t)) := by
                  rw [Function.update_of_ne hpc, flags_update, hnew]
                  refine (hok p' hpc).unblockReady (fun d hd => ?_)
                    (.inr ⟨TrafficClass.kind_ne_leaf ((hl.mem_iff c p').mpr h), rfl⟩)
                  by_cases hdc : d = c
                  · rw [hdc, Function.update_self]
                  · rw [Function.update_of_ne hdc, hd]
                obtain ⟨tc', hrun, hok', hstep, -, hstuck⟩ := ih (hl.update hpar hch)
                  ((parents_update hpar).symm ▸ hd) (by omega) hready' fun q hq => by
                    refine hl.ok_update hch hself hok (.inr ?_)
                    rw [h, Ne, Option.some.injEq]
                    exact Ne.symm hq
                have hkeep : tc' c = t := by
                  rcases hstep c with heq | ⟨habove, -⟩
                  · rw [heq, Function.update_self]
                  · -- the class is not above its own parent
                    rw [parents_update hpar] at habove
                    exact absurd habove (hd.not_above_parent h)
                refine ⟨tc', hrun, hok', hstep.cons hpar hR .refl (fun q hq => .step h hq) hkeep,
                  hkeep.symm ▸ hR, fun q => (hstuck q).trans ?_⟩
                have hother : q ≠ p' → tc.parents c ≠ some q := fun hqp => by
                  rw [h, Ne, Option.some.injEq]
                  exact Ne.symm hqp
                constructor
                · rintro ⟨hqp, hq⟩
                  have hqc : q ≠ c := fun hqc => hfree (hqc ▸ hq)
                  exact ⟨hqc, (hl.stuck_update hqc (.inr (hother hqp))).mp hq⟩
                · rintro ⟨hqc, hq⟩
                  -- the child of a stuck class is not blocked, but `c` was
                  have hqp : q ≠ p' := fun hqp => by
                    have hblocked : (tc c).blocked = true := (Bool.and_eq_true_iff.mp hflag).1
                    rw [hl.child_of_stuck (hqp ▸ hq) h] at hblocked
                    cases hblocked
                  exact ⟨hqp, (hl.stuck_update hqc (.inr (hother hqp))).mpr hq⟩
          · rw [if_neg hflag]
            have hsame : t.blocked = (tc c).blocked := by
              cases hb : (tc c).blocked with
              | false => exact hmono hb
              | true =>
                  rw [hb, Bool.true_and] at hflag
                  simpa using hflag
            refine ⟨_, rfl, fun q => hl.ok_update hch hself hok (.inl hsame), .here hR, hself' hR,
              fun q => ⟨fun hq => ?_, fun hq => (hl.stuck_update hq.1 (.inl hsame)).mpr hq.2⟩⟩
            have hqc : q ≠ c := fun hqc => hfree (hqc ▸ hq)
            exact ⟨hqc, (hl.stuck_update hqc (.inl hsame)).mp hq⟩

/-- Fuel for the number of classes is enough. -/
lemma Linked.unblockTowardsRoot (hl : Linked tc num) (pf : Platform κ) (tsc : ℕ) {fuel : ℕ}
    (hfuel : num < fuel) (hready : (tc c).UnblockReady tc.flags)
    (hok : ∀ q, q ≠ c → (tc q).Ok tc.flags) :
    ∃ tc', Classes.unblockTowardsRoot pf fuel tc c tsc = some tc' ∧ (∀ q, (tc' q).Ok tc'.flags) ∧
      Along (Unblocked pf tsc) tc tc' c ∧ Unblocked pf tsc (tc c) (tc' c) ∧
      ∀ q, Stuck tc' q ↔ q ≠ c ∧ Stuck tc q := by
  obtain ⟨n, hd⟩ := hl.rooted c
  exact unblockTowardsRoot_spec fuel hl hd (lt_of_le_of_lt (hl.depth_le hd) hfuel) hready hok

/-- **The walk that blocks** is the same, the other way round. -/
theorem blockTowardsRoot_spec (fuel : ℕ) : ∀ {tc : Classes κ} {c n : ℕ}, Linked tc num →
    Depth tc.parents c n → n < fuel → (tc c).BlockReady tc.flags →
    (∀ q, q ≠ c → (tc q).Ok tc.flags) →
    ∃ tc', blockTowardsRoot pf fuel tc c = some tc' ∧ (∀ q, (tc' q).Ok tc'.flags) ∧
      Along (Blocked pf) tc tc' c := by
  induction fuel with
  | zero => exact fun _ _ hfuel => absurd hfuel (Nat.not_lt_zero _)
  | succ fuel ih =>
      intro tc c n hl hd hfuel hready hok
      obtain ⟨hself, hch, hmono⟩ := @TrafficClass.BlockReady.block_ok _ _ pf _ _ hready
      have hR : Blocked pf (tc c) ((tc c).block pf tc.flags) := ⟨_, hready, rfl⟩
      have hpar : ((tc c).block pf tc.flags).parent = (tc c).parent :=
        TrafficClass.block_parent _
      rw [blockTowardsRoot]
      set t := (tc c).block pf tc.flags with ht
      rw [hpar]
      cases hp : (tc c).parent with
      | none =>
          refine ⟨_, rfl, fun q => hl.ok_update hch hself hok (.inr ?_), .here hR⟩
          rw [parents, hp]
          exact (Option.some_ne_none q).symm
      | some p =>
          dsimp only
          by_cases hflag : (!(tc c).blocked && t.blocked) = true
          · rw [if_pos hflag]
            have hnew : t.blocked = true := (Bool.and_eq_true_iff.mp hflag).2
            have hpc : p ≠ c := fun hpc => hl.parent_ne (show tc.parents c = some c from hpc ▸ hp)
            cases hd with
            | root h => exact absurd (h.symm.trans hp) (by simp)
            | @child _ p' m h hd =>
                obtain rfl : p' = p := Option.some.inj (h.symm.trans hp)
                have hready' : (Function.update tc c t p').BlockReady
                    (flags (Function.update tc c t)) := by
                  rw [Function.update_of_ne hpc, flags_update, hnew]
                  exact (hok p' hpc).blockReady (hl.nodup p') ((hl.mem_iff c p').mpr h)
                obtain ⟨tc', hrun, hok', hstep⟩ := ih (hl.update hpar hch)
                  ((parents_update hpar).symm ▸ hd) (by omega) hready' fun q hq => by
                    refine hl.ok_update hch hself hok (.inr ?_)
                    rw [h, Ne, Option.some.injEq]
                    exact Ne.symm hq
                refine ⟨tc', hrun, hok', hstep.cons hpar hR .refl (fun q hq => .step h hq) ?_⟩
                rcases hstep c with heq | ⟨habove, -⟩
                · rw [heq, Function.update_self]
                · rw [parents_update hpar] at habove
                  exact absurd habove (hd.not_above_parent h)
          · rw [if_neg hflag]
            have hsame : t.blocked = (tc c).blocked := by
              cases hb : (tc c).blocked with
              | true => exact hmono hb
              | false =>
                  rw [hb, Bool.not_false, Bool.true_and] at hflag
                  simpa using hflag
            exact ⟨_, rfl, fun q => hl.ok_update hch hself hok (.inl hsame), .here hR⟩

lemma Linked.blockTowardsRoot (hl : Linked tc num) (pf : Platform κ) {fuel : ℕ}
    (hfuel : num < fuel) (hready : (tc c).BlockReady tc.flags)
    (hok : ∀ q, q ≠ c → (tc q).Ok tc.flags) :
    ∃ tc', Classes.blockTowardsRoot pf fuel tc c = some tc' ∧ (∀ q, (tc' q).Ok tc'.flags) ∧
      Along (Blocked pf) tc tc' c := by
  obtain ⟨n, hd⟩ := hl.rooted c
  exact blockTowardsRoot_spec fuel hl hd (lt_of_le_of_lt (hl.depth_le hd) hfuel) hready hok

/-! ### Finishing a run -/

omit [LinearOrder κ] in
/-- The classes above are not blocked, and pick the way to the class. -/
inductive Trail (tc : Classes κ) : ℕ → Prop
  | root {c : ℕ} (h : tc.parents c = none) : Trail tc c
  | child {c p : ℕ} (h : tc.parents c = some p) (hpick : (tc p).pickNextChild = some c)
      (hblocked : (tc p).blocked = false) (hp : Trail tc p) : Trail tc c

omit [LinearOrder κ] in
/-- A change of a class that is not above leaves the trail as it is, by induction on the trail. -/
lemma Trail.update (h : Trail tc p) (hpar : t.parent = (tc c).parent)
    (hc : Depth tc.parents c n) : ∀ {m : ℕ}, Depth tc.parents p m → m ≤ n →
      Trail (Function.update tc c t) p := by
  induction h with
  | root h => exact fun _ _ => .root ((congrFun (parents_update hpar) _).trans h)
  | child h hpick hblocked _ ih =>
      intro m hm hle
      cases hm with
      | root h' => exact absurd (h'.symm.trans h) (by simp)
      | @child _ p' k h' hk =>
          obtain rfl := Option.some.inj (h'.symm.trans h)
          have hne : p' ≠ c := fun hpc => by
            have := hk.unique (hpc ▸ hc)
            omega
          refine .child ((congrFun (parents_update hpar) _).trans h) ?_ ?_ (ih hk (by omega))
          · rw [Function.update_of_ne hne, hpick]
          · rw [Function.update_of_ne hne, hblocked]

/-- What the end of a run does to a class above the leaf. -/
def Ran (pf : Platform κ) (usage : Usage) (tsc : ℕ) (t t' : TrafficClass κ) : Prop :=
  ∃ fl child sleeps, t.FinishReady fl child usage tsc ∧
    t.finish pf fl child usage tsc = some (t', sleeps) ∧
      TrafficClass.Finished fl tsc t t' sleeps

lemma Ran.alike {t' : TrafficClass κ} (h : Ran pf usage tsc t t') : t.Alike t' := by
  obtain ⟨fl, child, sleeps, -, -, hdone⟩ := h
  exact hdone.alike

/-- **The end of a run**, by induction on the fuel: the classes on the trail are put in order from
below.  What one of them keeps of the classes and the queue, the walk keeps. -/
theorem finishTowardsRoot_spec {Q : Classes κ → List ℕ → Prop}
    (hQ : ∀ {tc : Classes κ} {queue : List ℕ} {p child : ℕ} {t : TrafficClass κ} {sleeps : Bool},
      Q tc queue → (tc p).FinishReady tc.flags child usage tsc →
      (tc p).finish pf tc.flags child usage tsc = some (t, sleeps) →
      TrafficClass.Finished tc.flags tsc (tc p) t sleeps →
      Q (Function.update tc p t) (if sleeps then
        pf.wakeupHeap.push (wakeupTime (Function.update tc p t)) queue p else queue))
    (fuel : ℕ) : ∀ {tc : Classes κ} {queue : List ℕ} {c n : ℕ}, Linked tc num →
      Depth tc.parents c n → n < fuel → Trail tc c →
      (∀ q, (tc q).Ok (Function.update tc.flags c false)) →
      (∀ q, Above tc.parents q c → q ≠ c → (tc q).NoWrap usage tsc) → Q tc queue →
      ∃ tc' queue', finishTowardsRoot pf fuel (tc, queue) (tc c).parent c usage tsc
          = some (tc', queue') ∧ (∀ q, (tc' q).Ok tc'.flags) ∧ Along (Ran pf usage tsc) tc tc' c ∧
        tc' c = tc c ∧
        (∀ q, Above tc.parents q c → q ≠ c → Ran pf usage tsc (tc q) (tc' q)) ∧ Q tc' queue' := by
  induction fuel with
  | zero => exact fun _ _ hfuel => absurd hfuel (Nat.not_lt_zero _)
  | succ fuel ih =>
      intro tc queue c n hl hd hfuel htrail hok hwrap hq
      cases htrail with
      | root h =>
          refine ⟨tc, queue, ?_, fun q => ?_, fun q => .inl rfl, rfl, fun q habove hne => ?_, hq⟩
          · rw [show (tc c).parent = none from h, finishTowardsRoot]
          · have hflip := hl.ok_flip (b := tc.flags c) (by rw [h]; simp) (hok q)
            rwa [Function.update_idem, Function.update_eq_self] at hflip
          · cases habove with
            | refl => exact absurd rfl hne
            | step h' _ => exact absurd (h'.symm.trans h) (by simp)
      | @child _ p h hpick hblocked hp =>
          cases hd with
          | root h' => exact absurd (h'.symm.trans h) (by simp)
          | @child _ p' m h' hd =>
              obtain rfl : p' = p := Option.some.inj (h'.symm.trans h)
              have hpc : c ≠ p' := fun hcp => hl.parent_ne (hcp ▸ h)
              have hready : (tc p').FinishReady tc.flags c usage tsc :=
                ⟨hok p', hpick, hblocked, hwrap p' (.step h .refl) hpc.symm⟩
              obtain ⟨t, sleeps, hfin, hdone⟩ :=
                @TrafficClass.FinishReady.finish_ok _ _ pf _ _ _ _ _ hready (hl.nodup p')
              -- the flag of the class itself was down before its run was accounted for
              have hflags :
                  Function.update (flags (Function.update tc p' t)) p' false = tc.flags := by
                rw [flags_update, Function.update_idem, ← hblocked]
                exact Function.update_eq_self p' tc.flags
              obtain ⟨tc', queue', hrun, hok', hstep, hkeep, hran, hq'⟩ := ih
                (hl.update hdone.alike.parent hdone.alike.children)
                ((parents_update hdone.alike.parent).symm ▸ hd) (by omega)
                (hp.update hdone.alike.parent hd hd le_rfl) (fun q => by
                  rw [hflags]
                  by_cases hqp : q = p'
                  · rw [hqp, Function.update_self]
                    exact hdone.ok
                  · rw [Function.update_of_ne hqp]
                    have hflip := hl.ok_flip (q := q) (c := c) (b := tc.flags c) (by
                      rw [h, Ne, Option.some.injEq]
                      exact Ne.symm hqp) (hok q)
                    rwa [Function.update_idem, Function.update_eq_self] at hflip)
                (fun q habove hqp => by
                  rw [parents_update hdone.alike.parent] at habove
                  rw [Function.update_of_ne hqp]
                  exact hwrap q (.step h habove) fun hqc => hd.not_above_parent h (hqc ▸ habove))
                (hQ hq hready hfin hdone)
              rw [Function.update_self] at hrun hkeep
              refine ⟨tc', queue', ?_, hok', hstep.cons hdone.alike.parent
                ⟨_, _, _, hready, hfin, hdone⟩ (.step h .refl) (fun q hq => .step h hq) hkeep, ?_,
                fun q habove hne => ?_, hq'⟩
              · rw [show (tc c).parent = some p' from h, finishTowardsRoot, hfin]
                exact hrun
              · rcases hstep c with heq | ⟨habove, -⟩
                · rw [heq, Function.update_of_ne hpc]
                · rw [parents_update hdone.alike.parent] at habove
                  exact absurd habove (hd.not_above_parent h)
              · by_cases hqp : q = p'
                · rw [hqp, hkeep]
                  exact ⟨_, _, _, hready, hfin, hdone⟩
                · have hran' := hran q
                  rw [parents_update hdone.alike.parent, Function.update_of_ne hqp] at hran'
                  cases habove with
                  | refl => exact absurd rfl hne
                  | step h'' habove =>
                      obtain rfl := Option.some.inj (h''.symm.trans h)
                      exact hran' habove hqp

end Classes

end Bess
