import FlowBundler.Core.Children
import FlowBundler.Core.Scheduler
import FlowBundler.Core.Tree

/-!
What a scheduler keeps over whole runs.

* `QueueOk tc queue`: the wake-up queue holds the classes that sleep, once each, as a heap.
* `Sound tc num queue`: the classes are a forest, each in order with its children, and the queue is
  the right one.
* `wakeTCs_spec`: `WakeTCs` returns and wakes up the classes that are due, by induction on the fuel;
  the top of the heap is the first that may be due, so that the loop may stop there.  What one
  round of the loop keeps (`Woken`) is kept, as a parameter of the lemma.
* `next_spec`: `Next` walks down from the root by the picks of the classes, whose depth grows, and
  answers a leaf at the end of a trail.
* `account_spec`: the run of that leaf is accounted for on the trail.  A leaf may have been put to
  sleep before; `account_leaf` is about the leaf alone, and takes it as unblocked for the walk.
* `round_spec`: a round of either scheduler is one of `Round`, with `Next` and then the accounting.
  The times that it sets are not past; `NoWrap` is what keeps them from wrapping around.
-/

namespace Bess

open Forest MinHeap Classes

variable {κ : Type} [LinearOrder κ] {pf : Platform κ}

namespace Scheduler

variable {tc tc' : Classes κ} {t : TrafficClass κ} {num walk tsc c n p q : ℕ} {queue : List ℕ}
  {s : Scheduler κ}

/-! ### The wake-up queue -/

/-- The queue holds the classes that sleep, once each, as a heap. -/
structure QueueOk (tc : Classes κ) (queue : List ℕ) : Prop where
  heap : IsHeap tc.wakeupTime queue
  nodup : queue.Nodup
  mem_iff : ∀ c, c ∈ queue ↔ tc.wakeupTime c ≠ 0

omit [LinearOrder κ] in
lemma QueueOk.congr (h : QueueOk tc queue) (heq : ∀ c, tc'.wakeupTime c = tc.wakeupTime c) :
    QueueOk tc' queue :=
  ⟨h.heap.congr fun c _ => heq c, h.nodup, fun c => by rw [heq c]; exact h.mem_iff c⟩

omit [LinearOrder κ] in
lemma wakeupTime_update (tc : Classes κ) (c : ℕ) (t : TrafficClass κ) :
    wakeupTime (Function.update tc c t) = Function.update tc.wakeupTime c t.wakeupTime := by
  funext d
  by_cases hd : d = c
  · rw [hd, wakeupTime, Function.update_self, Function.update_self]
  · rw [wakeupTime, Function.update_of_ne hd, Function.update_of_ne hd, wakeupTime]

/-- A class that was awake goes to sleep. -/
lemma QueueOk.push (h : QueueOk tc queue) (hawake : tc.wakeupTime c = 0)
    (hsleep : t.wakeupTime ≠ 0) :
    QueueOk (Function.update tc c t)
      (pf.wakeupHeap.push (wakeupTime (Function.update tc c t)) queue c) := by
  have hc : c ∉ queue := fun hmem => (h.mem_iff c).mp hmem hawake
  have hheap : IsHeap (wakeupTime (Function.update tc c t)) queue := h.heap.congr fun d hd => by
    rw [wakeupTime_update, Function.update_of_ne fun hdc : d = c => hc (hdc ▸ hd)]
  have hperm := pf.wakeupHeap.push_perm _ queue c hheap
  refine ⟨pf.wakeupHeap.push_isHeap _ _ _ hheap, ?_, fun d => ?_⟩
  · exact hperm.nodup_iff.mpr (List.nodup_cons.mpr ⟨hc, h.nodup⟩)
  · rw [hperm.mem_iff, List.mem_cons, h.mem_iff, wakeupTime_update]
    by_cases hd : d = c
    · rw [hd, Function.update_self]
      exact ⟨fun _ => hsleep, fun _ => .inl rfl⟩
    · rw [Function.update_of_ne hd]
      exact ⟨fun hor => hor.resolve_left hd, .inr⟩

/-- The class at the top wakes up. -/
lemma QueueOk.pop (h : QueueOk tc (c :: queue)) (hawake : t.wakeupTime = 0) :
    QueueOk (Function.update tc c t) (pf.wakeupHeap.pop tc.wakeupTime (c :: queue)) := by
  have hperm := pf.wakeupHeap.pop_perm _ queue c h.heap
  obtain ⟨hc, hnd⟩ := List.nodup_cons.mp h.nodup
  refine ⟨(pf.wakeupHeap.pop_isHeap _ _ _ h.heap).congr fun d hd => ?_, hperm.nodup_iff.mpr hnd,
    fun d => ?_⟩
  · rw [wakeupTime_update,
      Function.update_of_ne fun hdc : d = c => hc (hperm.mem_iff.mp (hdc ▸ hd))]
  · rw [hperm.mem_iff, wakeupTime_update]
    by_cases hd : d = c
    · rw [hd, Function.update_self]
      exact ⟨fun hmem => absurd hmem hc, fun hne => absurd hawake hne⟩
    · rw [Function.update_of_ne hd, ← h.mem_iff, List.mem_cons]
      exact ⟨.inr, fun hor => hor.resolve_left hd⟩

/-- The classes are a forest, in order, and the queue holds those that sleep. -/
structure Sound (tc : Classes κ) (num : ℕ) (queue : List ℕ) : Prop where
  linked : Linked tc num
  ok : ∀ c, (tc c).Ok tc.flags
  queue : QueueOk tc queue
  unborn : ∀ c, num ≤ c → tc.wakeupTime c = 0

/-! ### Choosing a leaf -/

/-- What waking up the class `c` does to the others. -/
structure Woken (pf : Platform κ) (tsc : ℕ) (tc tc' : Classes κ) (c : ℕ) : Prop where
  asleep : (tc c).wakeupTime ≠ 0
  due : (tc c).wakeupTime < tsc
  ok : (tc c).Ok tc.flags
  self : Unblocked pf (tc c).wakeupTime { tc c with wakeupTime := 0 } (tc' c)
  others : ∀ q, q ≠ c → tc' q = tc q ∨ Unblocked pf (tc c).wakeupTime (tc q) (tc' q)
  stuck : ∀ q, Stuck tc' q ↔ Stuck tc q

/-- **Waking up**, by induction on the fuel: each round takes one class from the queue.  What a
round keeps is kept; it may depend on a bound below the times in the queue, which grows. -/
theorem wakeTCs_spec {Q : ℕ → Classes κ → Prop}
    (hQ : ∀ {low : ℕ} {tc tc' : Classes κ} {c : ℕ}, Q low tc → low ≤ (tc c).wakeupTime →
      Woken pf tsc tc tc' c → Q (tc c).wakeupTime tc')
    (hwalk : num < walk) (fuel : ℕ) : ∀ {low : ℕ} {tc : Classes κ} {queue : List ℕ},
    Sound tc num queue → queue.length < fuel → (∀ c ∈ queue, low ≤ (tc c).wakeupTime) → Q low tc →
    ∃ tc' queue', wakeTCs pf walk tsc fuel (tc, queue) = some (tc', queue') ∧
      Sound tc' num queue' ∧ (∀ q, (tc q).Alike (tc' q)) ∧
      (∀ q, tc'.wakeupTime q = if tc.wakeupTime q < tsc then 0 else tc.wakeupTime q) ∧
      ∃ low', Q low' tc' := by
  induction fuel with
  | zero => exact fun _ hlen => absurd hlen (Nat.not_lt_zero _)
  | succ fuel ih =>
      intro low tc queue hs hlen hlow hq
      cases queue with
      | nil =>
          refine ⟨tc, [], rfl, hs, fun q => .refl _, fun q => ?_, low, hq⟩
          have hawake : tc.wakeupTime q = 0 := by
            by_contra hne
            exact absurd ((hs.queue.mem_iff q).mpr hne) List.not_mem_nil
          rw [hawake, ite_self]
      | cons c queue =>
          rw [wakeTCs]
          by_cases hdue : (tc c).wakeupTime < tsc
          · dsimp only
            rw [if_pos hdue]
            set t : TrafficClass κ := { tc c with wakeupTime := 0 } with ht
            have hflags : flags (Function.update tc c t) = tc.flags := by
              rw [flags_update]
              exact Function.update_eq_self c tc.flags
            have hl1 := hs.linked.update (t := t) rfl (List.Perm.refl _)
            obtain ⟨tc₁, hrun, hok, hstep, hself, hstuck⟩ :=
              hl1.unblockTowardsRoot pf (tc c).wakeupTime hwalk (by
                rw [Function.update_self, hflags]
                exact (hs.ok c).unblockReady (fun _ => id) (.inl rfl))
              (fun q hq => by
                rw [Function.update_of_ne hq, hflags]
                exact hs.ok q)
            have hwake : ∀ q, tc₁.wakeupTime q = Function.update tc.wakeupTime c 0 q := fun q =>
              (hstep.keep Unblocked.wakeupTime q).trans
                (congrFun (wakeupTime_update tc c t) q)
            have halike : ∀ q, (tc q).Alike (tc₁ q) := fun q => by
              refine TrafficClass.Alike.trans ?_ (hstep.alike Unblocked.alike q)
              by_cases hq : q = c
              · rw [hq, Function.update_self]
                exact ⟨rfl, List.Perm.refl _, rfl, rfl⟩
              · rw [Function.update_of_ne hq]
                exact .refl _
            have hperm := pf.wakeupHeap.pop_perm _ queue c hs.queue.heap
            have hs₁ : Sound tc₁ num (pf.wakeupHeap.pop tc.wakeupTime (c :: queue)) := by
              refine ⟨(hs.linked.of_alike halike).1, hok, (hs.queue.pop (t := t) rfl).congr fun q =>
                (hwake q).trans (congrFun (wakeupTime_update tc c t) q).symm, fun q hq => ?_⟩
              rw [hwake]
              by_cases hqc : q = c
              · rw [hqc, Function.update_self]
              · rw [Function.update_of_ne hqc]
                exact hs.unborn q hq
            have hwoken : Woken pf tsc tc tc₁ c := by
              rw [Function.update_self] at hself
              have hasleep := (hs.queue.mem_iff c).mp List.mem_cons_self
              refine ⟨hasleep, hdue, hs.ok c, hself, fun q hqc => ?_, fun q => (hstuck q).trans ?_⟩
              · have hq := hstep q
                rw [Function.update_of_ne hqc] at hq
                exact hq.imp id And.right
              · -- a stuck class is awake
                by_cases hqc : q = c
                · rw [hqc]
                  exact ⟨fun hand => absurd rfl hand.1, fun ⟨_, _, _, hawake, _⟩ =>
                    absurd hawake hasleep⟩
                · rw [hs.linked.stuck_update (t := t) hqc (.inl rfl), and_iff_right hqc]
            -- the top is the first of the queue to be due, and those behind it are untouched
            have hlow₁ : ∀ d ∈ pf.wakeupHeap.pop tc.wakeupTime (c :: queue),
                (tc c).wakeupTime ≤ (tc₁ d).wakeupTime := fun d hd => by
              have hmem := hperm.mem_iff.mp hd
              have hdc : d ≠ c := fun heq =>
                (List.nodup_cons.mp hs.queue.nodup).1 (heq ▸ hmem)
              have htime := hwake d
              rw [Function.update_of_ne hdc] at htime
              exact (hs.queue.heap.top_le rfl d (List.mem_cons_of_mem _ hmem)).trans htime.ge
            obtain ⟨tc', queue', hrun', hs', halike', htimes, hkeeps⟩ := ih hs₁ (by
              rw [hperm.length_eq]
              exact Nat.lt_of_succ_lt_succ hlen) hlow₁
              (hQ hq (hlow c List.mem_cons_self) hwoken)
            refine ⟨tc', queue', ?_, hs', fun q => (halike q).trans (halike' q), fun q => ?_,
              hkeeps⟩
            · rw [hrun]
              exact hrun'
            · rw [htimes, hwake]
              by_cases hq : q = c
              · rw [hq, Function.update_self, ite_self]
                exact (if_pos hdue).symm
              · rw [Function.update_of_ne hq]
          · dsimp only
            rw [if_neg hdue]
            refine ⟨tc, c :: queue, rfl, hs, fun q => .refl _, fun q => ?_, low, hq⟩
            by_cases hq : tc.wakeupTime q = 0
            · rw [hq, ite_self]
            · -- the top of the queue is the first to be due
              have hle := hs.queue.heap.top_le rfl q ((hs.queue.mem_iff q).mpr hq)
              rw [if_neg fun hlt => hdue (lt_of_le_of_lt hle hlt)]

/-- **The way down** from a class that is not blocked, by induction on the fuel: the depth grows. -/
theorem pickLeaf_spec (hl : Linked tc num) (hok : ∀ q, (tc q).Ok tc.flags) (fuel : ℕ) :
    ∀ {c n : ℕ}, Depth tc.parents c n → num < n + fuel → Trail tc c → (tc c).blocked = false →
      ∃ leaf, pickLeaf tc fuel c = some leaf ∧ (tc leaf).kind = .leaf ∧ Trail tc leaf ∧
        (tc leaf).blocked = false ∧ Above tc.parents c leaf := by
  induction fuel with
  | zero => exact fun hd hfuel => absurd (hl.depth_le hd) (by omega)
  | succ fuel ih =>
      intro c n hd hfuel htrail hfree
      rw [pickLeaf]
      by_cases hleaf : (tc c).kind = .leaf
      · exact ⟨c, if_pos hleaf, hleaf, htrail, hfree, .refl⟩
      · obtain ⟨d, hpick, hmem, hd'⟩ := (hok c).pick hfree hleaf
        have hpar := (hl.mem_iff d c).mp hmem
        obtain ⟨leaf, hrun, hkind, htrail', hfree', habove⟩ :=
          ih (.child hpar hd) (by omega) (.child hpar hpick hfree htrail) hd'
        refine ⟨leaf, ?_, hkind, htrail', hfree', habove.up hpar⟩
        rw [if_neg hleaf, hpick]
        exact hrun

/-- What holds of a scheduler over whole runs. -/
structure Inv (s : Scheduler κ) : Prop where
  sound : Sound s.tc s.num s.wakeupQueue
  root : ∀ r, s.root = some r → r < s.num ∧ s.tc.parents r = none
  default : ∀ rr, s.defaultRr = some rr → s.root = some rr ∧ (s.tc rr).kind = .roundRobin

/-- Every class is where it was, and of the same kind. -/
lemma Inv.of_alike (h : Inv s) {checkpoint : ℕ} (hs : Sound tc' s.num queue)
    (halike : ∀ q, (s.tc q).Alike (tc' q)) :
    Inv { s with tc := tc', wakeupQueue := queue, checkpoint := checkpoint } := by
  refine ⟨hs, fun r hr => ⟨(h.root r hr).1, ?_⟩, fun rr hrr => ⟨(h.default rr hrr).1, ?_⟩⟩
  · exact (halike r).parent.trans (h.root r hr).2
  · exact (halike rr).kind.trans (h.default rr hrr).2

/-- What `Next` leaves and answers. -/
structure Chosen (tsc : ℕ) (s s' : Scheduler κ) (next : Option ℕ) : Prop where
  inv : Inv s'
  num : s'.num = s.num
  root : s'.root = s.root
  alike : ∀ q, (s.tc q).Alike (s'.tc q)
  times : ∀ q, s'.tc.wakeupTime q = if s.tc.wakeupTime q < tsc then 0 else s.tc.wakeupTime q
  none_iff : next = none ↔ ∀ r, s.root = some r → (s'.tc r).blocked = true
  leaf : ∀ leaf, next = some leaf → (s'.tc leaf).kind = .leaf ∧ Trail s'.tc leaf ∧
    (s'.tc leaf).blocked = false ∧ ∃ r, s.root = some r ∧ Above s'.tc.parents r leaf
  stuck : ∀ q, Stuck s'.tc q ↔ Stuck s.tc q

variable (pf) in
/-- **Choosing** a leaf. -/
theorem next_spec (h : Inv s) (tsc : ℕ) :
    ∃ s' next, s.next pf tsc = some (s', next) ∧ s'.checkpoint = s.checkpoint ∧
      Chosen tsc s s' next := by
  obtain ⟨tc', queue', hrun, hs, halike, htimes, -, hstuck⟩ :=
    @wakeTCs_spec _ _ pf s.num s.fuel tsc (fun _ tc => ∀ q, Stuck tc q ↔ Stuck s.tc q)
      (fun hq _ hwoken q => (hwoken.stuck q).trans (hq q)) (Nat.lt_succ_self _) _ 0 _ _ h.sound
      (Nat.lt_succ_self _) (fun _ _ => Nat.zero_le _) fun _ => Iff.rfl
  set s' : Scheduler κ := { s with tc := tc', wakeupQueue := queue' } with hs'
  have hinv : Inv s' := h.of_alike hs halike
  rw [next, hrun, Option.bind_some]
  dsimp only
  rw [← hs']
  rcases Option.eq_none_or_eq_some s.root with hroot | ⟨r, hroot⟩
  · rw [hroot]
    refine ⟨s', none, rfl, rfl, hinv, rfl, rfl, halike, htimes, ?_, nofun, hstuck⟩
    rw [hroot]
    exact ⟨fun _ => nofun, fun _ => rfl⟩
  · rw [hroot]
    dsimp only
    by_cases hblocked : (tc' r).blocked = true
    · rw [if_pos hblocked]
      refine ⟨s', none, rfl, rfl, hinv, rfl, rfl, halike, htimes,
        ⟨fun _ r' hr' => ?_, fun _ => rfl⟩, nofun, hstuck⟩
      rw [hroot, Option.some.injEq] at hr'
      exact hr' ▸ hblocked
    · rw [if_neg hblocked]
      have hfree := Bool.eq_false_of_not_eq_true hblocked
      have hpar : tc'.parents r = none := (hinv.root r hroot).2
      obtain ⟨leaf, hpick, hkind, htrail, hleaf, habove⟩ := pickLeaf_spec hs.linked hs.ok s.fuel
        (.root hpar) (by rw [fuel]; omega) (.root hpar) hfree
      rw [hpick]
      refine ⟨s', some leaf, rfl, rfl, hinv, rfl, rfl, halike, htimes, ⟨nofun, fun hall => ?_⟩,
        fun leaf' hleaf' => ?_, hstuck⟩
      · exact absurd (hall r hroot) hblocked
      · obtain rfl := Option.some.inj hleaf'
        exact ⟨hkind, htrail, hleaf, r, hroot, habove⟩

/-- What `Next` does to the classes is to wake them up. -/
lemma next_wakes {s' : Scheduler κ} {next : Option ℕ} (h : s.next pf tsc = some (s', next)) :
    wakeTCs pf s.fuel tsc (s.wakeupQueue.length + 1) (s.tc, s.wakeupQueue)
      = some (s'.tc, s'.wakeupQueue) := by
  obtain ⟨⟨tc', queue'⟩, hwake, hrest⟩ := Option.bind_eq_some_iff.mp h
  rw [hwake]
  dsimp only at hrest
  split at hrest
  · cases hrest
    rfl
  · split at hrest
    · cases hrest
      rfl
    · obtain ⟨leaf, -, heq⟩ := Option.map_eq_some_iff.mp hrest
      cases heq
      rfl

/-! ### Accounting -/

/-- **The accounting** of a run, which may have put the leaf to sleep. -/
theorem account_spec {usage : Usage} {now leaf : ℕ} (hl : Linked s.tc s.num)
    (hqueue : QueueOk s.tc s.wakeupQueue) (hunborn : ∀ c, s.num ≤ c → s.tc.wakeupTime c = 0)
    (htrail : Trail s.tc leaf) (hok : ∀ q, (s.tc q).Ok (Function.update s.tc.flags leaf false))
    (hwrap : ∀ q, (s.tc q).NoWrap usage now) :
    ∃ tc' queue', s.account pf leaf usage now
        = some { s with tc := tc', wakeupQueue := queue', checkpoint := now } ∧
      Sound tc' s.num queue' ∧ (∀ q, (s.tc q).Alike (tc' q)) ∧
      (∀ q, Above s.tc.parents q leaf → q ≠ leaf → Ran pf usage now (s.tc q) (tc' q)) ∧
      ∀ q, ¬ (Above s.tc.parents q leaf ∧ q ≠ leaf) → tc' q = s.tc q := by
  obtain ⟨n, hd⟩ := hl.rooted leaf
  obtain ⟨tc', queue', hrun, hok', hstep, hkeep, hran, hqueue'⟩ :=
    @finishTowardsRoot_spec _ s.num now _ pf usage QueueOk
      (fun {tc queue p child t sleeps} hq _ _ hdone => by
        cases sleeps with
        | true =>
            obtain ⟨hawake, -, hsleep, -⟩ := hdone.asleep rfl
            exact hq.push hawake hsleep.ne'
        | false =>
            refine hq.congr fun q => ?_
            rw [wakeupTime_update, hdone.awake rfl]
            exact congrFun (Function.update_eq_self p tc.wakeupTime) q)
      s.fuel s.tc s.wakeupQueue leaf n hl hd (Nat.lt_succ_of_le (hl.depth_le hd)) htrail hok
      (fun q _ _ => hwrap q) hqueue
  have halike := hstep.alike Ran.alike
  have hsame : ∀ q, ¬ (Above s.tc.parents q leaf ∧ q ≠ leaf) → tc' q = s.tc q := fun q hq => by
    by_cases hql : q = leaf
    · rw [hql, hkeep]
    · exact (hstep q).resolve_right fun hstep => hq ⟨hstep.1, hql⟩
  refine ⟨tc', queue', ?_, ⟨(hl.of_alike halike).1, hok', hqueue', fun c hc => ?_⟩, halike, hran,
    hsame⟩
  · rw [account, hrun]
    rfl
  · rw [wakeupTime, hsame c fun hand => not_lt.mpr hc (hl.above_lt hand.1 hand.2)]
    exact hunborn c hc

/-! ### Rounds -/

omit [LinearOrder κ] in
lemma exists_leaf (h : t.kind = .leaf) : ∃ l, t.policy = .leaf l := by
  obtain ⟨parent, wakeup, blocked, policy⟩ := t
  cases policy with
  | leaf l => exact ⟨l, rfl⟩
  | priority p => cases h
  | weightedFair w => cases h
  | roundRobin r => cases h
  | rateLimit l => cases h

lemma ok_leaf {fl : ℕ → Bool} (h : t.kind = .leaf) :
    t.Ok fl ↔ t.blocked = decide (t.wakeupTime ≠ 0) := by
  obtain ⟨l, hl⟩ := exists_leaf h
  rw [TrafficClass.Ok, hl]

omit [LinearOrder κ] in
lemma alike_setWaitCycles (t : TrafficClass κ) (wait : ℕ) : t.Alike (setWaitCycles t wait) := by
  obtain ⟨parent, wakeup, flag, policy⟩ := t
  cases policy <;> exact ⟨rfl, List.Perm.refl _, rfl, rfl⟩

omit [LinearOrder κ] in
lemma setWaitCycles_blocked (t : TrafficClass κ) (wait : ℕ) :
    (setWaitCycles t wait).blocked = t.blocked := by
  rw [setWaitCycles]
  split <;> rfl

omit [LinearOrder κ] in
lemma setWaitCycles_wakeupTime (t : TrafficClass κ) (wait : ℕ) :
    (setWaitCycles t wait).wakeupTime = t.wakeupTime := by
  rw [setWaitCycles]
  split <;> rfl

/-- A round: `Next` leaves `s₁`, and the run of the leaf it answers is accounted for.  The times
that are set are not past. -/
structure Round (pf : Platform κ) (now : ℕ) (usage : Usage) (s₁ s' : Scheduler κ)
    (next : Option ℕ) : Prop where
  inv : Inv s'
  checkpoint : s'.checkpoint = now
  ran : ∀ leaf, next = some leaf → ∀ q, Above s₁.tc.parents q leaf → q ≠ leaf →
    Ran pf usage now (s₁.tc q) (s'.tc q)
  keep : ∀ q, (∀ leaf, next = some leaf → ¬ Above s₁.tc.parents q leaf) → s'.tc q = s₁.tc q
  times : ∀ q, s'.tc.wakeupTime q = s₁.tc.wakeupTime q ∨ now ≤ s'.tc.wakeupTime q

/-- A round without a leaf. -/
lemma Round.idle {now : ℕ} {usage : Usage} (h : Inv s) :
    Round pf now usage s { s with checkpoint := now } none :=
  ⟨h.of_alike h.sound fun _ => .refl _, rfl, nofun, fun _ _ => rfl, fun _ => .inl rfl⟩

variable (pf) in
/-- **A leaf that was chosen** and changed is accounted for; its change may put it to sleep. -/
lemma account_leaf {usage : Usage} {now leaf : ℕ} (queue : List ℕ) (checkpoint : ℕ) (h : Inv s)
    (hkind : (s.tc leaf).kind = .leaf) (htrail : Trail s.tc leaf)
    (hfree : (s.tc leaf).blocked = false) (ht : (s.tc leaf).Alike t)
    (hflag : t.blocked = decide (t.wakeupTime ≠ 0))
    (hqueue : QueueOk (Function.update s.tc leaf t) queue) (hlt : leaf < s.num)
    (htime : t.wakeupTime = (s.tc leaf).wakeupTime ∨ now ≤ t.wakeupTime)
    (hwrap : ∀ q, (s.tc q).NoWrap usage now) :
    ∃ s', account pf { s with tc := Function.update s.tc leaf t, wakeupQueue := queue
                              checkpoint := checkpoint } leaf usage now = some s' ∧
      Round pf now usage s s' (some leaf) := by
  have halike : ∀ q, (s.tc q).Alike (Function.update s.tc leaf t q) := fun q => by
    by_cases hq : q = leaf
    · rw [hq, Function.update_self]
      exact ht
    · rw [Function.update_of_ne hq]
      exact .refl _
  obtain ⟨n, hd⟩ := h.sound.linked.rooted leaf
  -- once the leaf counts as unblocked the flags are the old ones
  have hflags : Function.update (flags (Function.update s.tc leaf t)) leaf false = s.tc.flags := by
    rw [flags_update, Function.update_idem, ← hfree]
    exact Function.update_eq_self leaf s.tc.flags
  obtain ⟨tc', queue', hrun, hs, halike', hran, hsame⟩ := @account_spec _ _ pf
    { s with tc := Function.update s.tc leaf t, wakeupQueue := queue, checkpoint := checkpoint }
    usage now leaf (h.sound.linked.of_alike halike).1 hqueue (fun c hc => by
      dsimp only
      rw [wakeupTime_update, Function.update_of_ne (lt_of_lt_of_le hlt hc).ne']
      exact h.sound.unborn c hc) (htrail.update ht.parent hd hd le_rfl) (fun q => by
      dsimp only
      rw [hflags]
      by_cases hq : q = leaf
      · rw [hq, Function.update_self]
        exact (ok_leaf (ht.kind.trans hkind)).mpr hflag
      · rw [Function.update_of_ne hq]
        exact h.sound.ok q) (fun q => (halike q).noWrap (hwrap q))
  have hpar : parents (Function.update s.tc leaf t) = s.tc.parents := parents_update ht.parent
  have hleaf : tc' leaf = t := by
    rw [hsame leaf fun hand => hand.2 rfl]
    exact Function.update_self leaf t s.tc
  refine ⟨_, hrun, h.of_alike hs fun q => (halike q).trans (halike' q), rfl,
    fun leaf' heq q habove hne => ?_, fun q hq => ?_, fun q => ?_⟩
  · obtain rfl := Option.some.inj heq
    have hq := hran q (hpar ▸ habove) hne
    dsimp only at hq
    rwa [Function.update_of_ne hne] at hq
  · have hnot := hq leaf rfl
    have hne : q ≠ leaf := fun heq => hnot (heq ▸ .refl)
    exact (hsame q fun hand => hnot (hpar ▸ hand.1)).trans (Function.update_of_ne hne t s.tc)
  · by_cases hq : q = leaf
    · dsimp only [wakeupTime]
      rw [hq, hleaf]
      exact htime
    · by_cases habove : Above s.tc.parents q leaf
      · obtain ⟨fl, child, sleeps, -, -, hdone⟩ := hran q (hpar ▸ habove) hq
        cases sleeps with
        | true => exact .inr (hdone.asleep rfl).2.2.2
        | false =>
            left
            dsimp only [wakeupTime]
            rw [hdone.awake rfl]
            dsimp only
            rw [Function.update_of_ne hq]
      · left
        dsimp only [wakeupTime]
        rw [hsame q fun hand => habove (hpar ▸ hand.1)]
        dsimp only
        rw [Function.update_of_ne hq]

/-- The wake-up times that a round may set fit in 64 bits. -/
def NoWrap (s : Scheduler κ) (now : ℕ) (ret : TaskResult) : Prop :=
  0 < now ∧ now + kMaxWait < 2 ^ 64 ∧
    ∀ q, (s.tc q).NoWrap (usage s.checkpoint now ret) now

variable (pf) in
/-- **A round** of the default scheduler. -/
theorem scheduleOnceDefault_spec {now : ℕ} {ret : TaskResult} (h : Inv s)
    (hwrap : s.NoWrap now ret) :
    ∃ s₁ next s', s.next pf s.checkpoint = some (s₁, next) ∧
      s.scheduleOnceDefault pf now ret = some s' ∧
      Round pf now (usage s.checkpoint now ret) s₁ s' next := by
  obtain ⟨s₁, next, hnext, hck, hc⟩ := next_spec pf h s.checkpoint
  rw [scheduleOnceDefault, hnext, Option.bind_some]
  cases next with
  | none => exact ⟨s₁, none, _, rfl, rfl, .idle hc.inv⟩
  | some leaf =>
      obtain ⟨hkind, htrail, hfree, r, hr, habove⟩ := hc.leaf leaf rfl
      have hsame : Function.update s₁.tc leaf (s₁.tc leaf) = s₁.tc :=
        Function.update_eq_self leaf s₁.tc
      obtain ⟨s', hrun, hround⟩ := account_leaf pf s₁.wakeupQueue s₁.checkpoint hc.inv hkind
        htrail hfree (.refl _) ((ok_leaf hkind).mp (hc.inv.sound.ok leaf))
        (hsame.symm ▸ hc.inv.sound.queue)
        (hc.inv.sound.linked.lt_of_above habove (hc.inv.root r (hc.root.trans hr)).1) (.inl rfl)
        (fun q => (hc.alike q).noWrap (hwrap.2.2 q))
      rw [hsame] at hrun
      dsimp only
      rw [hck]
      exact ⟨s₁, some leaf, s', rfl, hrun, hround⟩

/-- The usage that a round of the experimental scheduler accounts for. -/
def usageExperimental (s : Scheduler κ) (now : ℕ) (ret : TaskResult) : Usage :=
  if ret.packets = 0 ∧ ret.block then ⟨0, 0, 0, 0⟩ else usage s.checkpoint now ret

variable (pf) in
/-- **A round** of the experimental scheduler. -/
theorem scheduleOnceExperimental_spec {now : ℕ} {ret : TaskResult} (h : Inv s)
    (hwrap : s.NoWrap now ret) :
    ∃ s₁ next s', s.next pf s.checkpoint = some (s₁, next) ∧
      s.scheduleOnceExperimental pf now ret = some s' ∧
      Round pf now (s.usageExperimental now ret) s₁ s' next := by
  obtain ⟨s₁, next, hnext, hck, hc⟩ := next_spec pf h s.checkpoint
  rw [scheduleOnceExperimental, hnext, Option.bind_some]
  cases next with
  | none => exact ⟨s₁, none, _, rfl, rfl, .idle hc.inv⟩
  | some leaf =>
      obtain ⟨hkind, htrail, hfree, r, hr, habove⟩ := hc.leaf leaf rfl
      obtain ⟨hpos, hmax, hlimits⟩ := hwrap
      have hlt := hc.inv.sound.linked.lt_of_above habove (hc.inv.root r (hc.root.trans hr)).1
      have hawake := (ok_leaf hkind).mp (hc.inv.sound.ok leaf)
      refine ⟨s₁, some leaf, ?_⟩
      rw [usageExperimental]
      dsimp only
      split
      · -- the leaf goes to sleep, and nothing is charged
        have hwait : (now + s₁.wait leaf) % 2 ^ 64 = now + s₁.wait leaf := by
          have : s₁.wait leaf ≤ kMaxWait := min_le_left _ _
          exact Nat.mod_eq_of_lt (by omega)
        have hne : (now + s₁.wait leaf) % 2 ^ 64 ≠ 0 := by omega
        have hnow : now ≤ (now + s₁.wait leaf) % 2 ^ 64 := by omega
        have hzero : s₁.tc.wakeupTime leaf = 0 := by
          rw [hfree] at hawake
          exact not_not.mp (of_decide_eq_false hawake.symm)
        have hfree' : ∀ q, (s₁.tc q).NoWrap ⟨0, 0, 0, 0⟩ now := fun q l hl => by
          refine ⟨hpos, ?_⟩
          have hzero' : toWorkUnits (Usage.get ⟨0, 0, 0, 0⟩ l.resource) = 0 := by
            cases l.resource <;> rfl
          rw [hzero', Nat.zero_div]
          omega
        have halike : (setWaitCycles (s₁.tc leaf) (s₁.wait leaf)).Alike
            { setWaitCycles (s₁.tc leaf) (s₁.wait leaf) with
              blocked := true, wakeupTime := (now + s₁.wait leaf) % 2 ^ 64 } :=
          ⟨rfl, List.Perm.refl _, rfl, rfl⟩
        obtain ⟨s', hrun, hround⟩ := account_leaf pf _ _ hc.inv hkind htrail hfree
          ((alike_setWaitCycles _ _).trans halike) (decide_eq_true hne).symm
          (hc.inv.sound.queue.push hzero hne) hlt (.inr hnow) hfree'
        exact ⟨s', rfl, hrun, hround⟩
      · obtain ⟨s', hrun, hround⟩ := account_leaf pf (s := s₁) s₁.wakeupQueue s₁.checkpoint
          hc.inv hkind htrail hfree
          (alike_setWaitCycles (s₁.tc leaf) ((waitCycles (s₁.tc leaf) + 1) % 2 ^ 64 / 2)) (by
            rw [setWaitCycles_blocked, setWaitCycles_wakeupTime]
            exact hawake) (hc.inv.sound.queue.congr fun q => by
            rw [wakeupTime_update, setWaitCycles_wakeupTime]
            exact congrFun (Function.update_eq_self leaf s₁.tc.wakeupTime) q) hlt
          (.inl (setWaitCycles_wakeupTime _ _)) fun q => (hc.alike q).noWrap (hlimits q)
        rw [hck]
        exact ⟨s', rfl, hrun, hround⟩

/-! ### The rounds of either scheduler -/

/-- The usage that a round accounts for. -/
def usageOf (s : Scheduler κ) : Op → Usage
  | .scheduleOnceDefault now ret => usage s.checkpoint now ret
  | .scheduleOnceExperimental now ret => s.usageExperimental now ret
  | _ => ⟨0, 0, 0, 0⟩

/-- The operation is a round, and the clock does not go back. -/
def IsRound (s : Scheduler κ) : Op → Prop
  | .scheduleOnceDefault now ret => s.checkpoint ≤ now ∧ s.NoWrap now ret
  | .scheduleOnceExperimental now ret => s.checkpoint ≤ now ∧ s.NoWrap now ret
  | _ => False

/-- What `Next` leaves, if the class `c` is above the leaf it answers. -/
def aboveLeaf (pf : Platform κ) (c : ℕ) (s : Scheduler κ) : Option (Scheduler κ) :=
  match s.next pf s.checkpoint with
  | some (s', some leaf) => if c ∈ ancestors s'.tc.parents s'.fuel leaf then some s' else none
  | _ => none

variable (pf) in
theorem round_spec (h : Inv s) {op : Op} (hop : s.IsRound op) :
    ∃ s₁ next s' now, s.next pf s.checkpoint = some (s₁, next) ∧ s.step pf op = some s' ∧
      s.checkpoint ≤ now ∧ now < 2 ^ 64 ∧ Round pf now (s.usageOf op) s₁ s' next := by
  cases op with
  | scheduleOnceDefault now ret =>
      obtain ⟨hle, hwrap⟩ := hop
      obtain ⟨s₁, next, s', hnext, hrun, hround⟩ := scheduleOnceDefault_spec pf h hwrap
      exact ⟨s₁, next, s', now, hnext, hrun, hle, by have := hwrap.2.1; omega, hround⟩
  | scheduleOnceExperimental now ret =>
      obtain ⟨hle, hwrap⟩ := hop
      obtain ⟨s₁, next, s', hnext, hrun, hround⟩ :=
        scheduleOnceExperimental_spec pf h hwrap
      exact ⟨s₁, next, s', now, hnext, hrun, hle, by have := hwrap.2.1; omega, hround⟩
  | create new => exact absurd hop id
  | addChild p c arg tsc => exact absurd hop id
  | removeChild p c => exact absurd hop id
  | attachOrphan c tsc tsc' => exact absurd hop id
  | adjustDefault => exact absurd hop id
  | removeRoot c => exact absurd hop id
  | updateTcParams c resource limit maxBurst => exact absurd hop id

/-- A class that is not a leaf took part in a round, or is as `Next` left it. -/
lemma Round.cases {now : ℕ} {usage : Usage} {s₁ s' : Scheduler κ} {next : Option ℕ}
    (hround : Round pf now usage s₁ s' next) (h : Inv s)
    (hnext : s.next pf s.checkpoint = some (s₁, next)) (c : ℕ) (hkind : (s₁.tc c).kind ≠ .leaf) :
    (s.aboveLeaf pf c = some s₁ ∧ Ran pf usage now (s₁.tc c) (s'.tc c)) ∨
      (s.aboveLeaf pf c = none ∧ s'.tc c = s₁.tc c) := by
  rw [aboveLeaf, hnext]
  cases next with
  | none => exact .inr ⟨rfl, hround.keep c nofun⟩
  | some leaf =>
      obtain ⟨s₂, next, hnext', -, hc⟩ := next_spec pf h s.checkpoint
      rw [hnext, Option.some.injEq, Prod.mk.injEq] at hnext'
      obtain ⟨rfl, rfl⟩ := hnext'
      have hne : c ≠ leaf := fun heq => hkind (heq ▸ (hc.leaf leaf rfl).1)
      obtain ⟨n, hd⟩ := hc.inv.sound.linked.rooted leaf
      have hmem := mem_ancestors (a := c) s₁.fuel hd
        ((hc.inv.sound.linked.depth_le hd).trans (Nat.le_succ _))
      dsimp only
      by_cases habove : Above s₁.tc.parents c leaf
      · rw [if_pos (hmem.mpr ⟨habove, hne⟩)]
        exact .inl ⟨rfl, hround.ran leaf rfl c habove hne⟩
      · rw [if_neg fun hin => habove (hmem.mp hin).1]
        refine .inr ⟨rfl, hround.keep c fun leaf' heq => ?_⟩
        exact Option.some.inj heq ▸ habove

end Scheduler

end Bess
