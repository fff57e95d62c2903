import FlowBundler.Kernel.Eiffel.Operations

/-!
`sch_eiffel.c` is a stable priority queue.

* `initQdisc_refines`: `gq_init` sets up an empty queue, if the loop over the buckets comes to all
  of them.
* `World.Inv`: the discipline refines the queue of its history; `Inv.enqueue`, `Inv.dequeue`: the
  callbacks return and keep it.  The queue of a history is made of the lists of the world and of one
  number, the time where its keys begin, which the invariant therefore quantifies.
* `Serves`: what a dequeue promises; `Inv.serves`: it keeps the promise.  The promise is read off
  the dequeue of the abstract queue, in its three cases.
* `stable_priority_queue`: in every run, with at least two buckets and at most `2^31`, with trees
  that have room for them and a granularity that divides the horizon.
* `one_bucket_faults`: with one bucket there is no tree, and the first dequeue reads its root.
-/

namespace Eiffel

open Gq Ledger Occupancy

variable {P : Params}

/-! ### Initialisation -/

/-- A side after `gq_init`. -/
lemma initSide_ok (hint : numBuckets P ≤ 2 ^ 31) (memory : ℕ → GqBucket) :
    SideOk (levels P) (numBuckets P) (initSide P memory) := by
  refine SideOk.blank (fun i hi => ?_) (fun n _ => ⟨rfl, rfl⟩) fun n hpos hn => ?_
  · rw [initSide]
    exact if_pos (by omega)
  · have hword := nodes_lt P
    rw [nodes_eq] at hword
    have hpred : (n + 2 ^ 64 - 1) % 2 ^ 64 = n - 1 := by omega
    have hnode : (initSide P memory).tree n = initNode n := rfl
    rw [hnode, initNode, hpred]
    exact ⟨rfl, rfl⟩

/-- **`gq_init`** sets up an empty queue. -/
lemma initQdisc_refines (hint : numBuckets P ≤ 2 ^ 31) (now lastExpires : ℕ)
    (memory memory' : ℕ → GqBucket) :
    Refines P (initQdisc P now lastExpires memory memory') .blank := by
  have hsound : Sound P (initQdisc P now lastExpires memory memory').gq :=
    ⟨⟨rfl, rfl, rfl, rfl, rfl, rfl⟩, initSide_ok hint memory, initSide_ok hint memory'⟩
  refine Refines.blank hsound rfl (fun i hi => ?_) (fun i hi => ?_) rfl
  · exact if_pos (by omega)
  · exact if_pos (by omega)

/-! ### Runs -/

/-- What a dequeue promises: the first packet of the least key when it is due; otherwise nothing,
and the watchdog for the least key. -/
def Serves (P : Params) (w : World) (now : ℕ) (r : DequeueResult) : Prop :=
  match r.skb with
  | none => (∀ e ∈ w.held, now < e.key) ∧ SameContents w.sch.gq r.sch.gq ∧
      ∀ e, FirstLeast (fun e : Stored => e.key) w.held e → r.watchdog = some e.key
  | some (skb, key) => ∃ e, popped w.held r.skb = [e] ∧
      FirstLeast (fun e : Stored => e.key) w.held e ∧ skb = e.skb ∧ key = e.key ∧ e.key ≤ now ∧
      skb.skbMstampNs ≤ now + P.granularity

namespace World

variable {w w' : World} {op : Op} {now : ℕ}

/-- The callbacks other than a reset, under a clock that does not go back; `ktime_get_ns` is
below `2^63`. -/
def Admits (w : World) : Op → Prop
  | .enqueue now _ _ => w.clock ≤ now ∧ now < 2 ^ 63
  | .dequeue now => w.clock ≤ now ∧ now < 2 ^ 63
  | .reset => False

instance (w : World) : (op : Op) → Decidable (w.Admits op)
  | .enqueue _ _ _ => inferInstanceAs (Decidable (_ ∧ _))
  | .dequeue _ => inferInstanceAs (Decidable (_ ∧ _))
  | .reset => inferInstanceAs (Decidable False)

/-- **The queue of a run** is reached by its own operations. -/
lemma reach_queueReach (hw : Reach P Admits w) : QueueReach P w.sch.gq := by
  refine hw.invariant (I := fun w => QueueReach P w.sch.gq) (fun w hinit => ?_)
    fun w w' op _ ih hok hstep => ?_
  · obtain ⟨now, lastExpires, memory, memory', sch, hnow, hrun, rfl⟩ := hinit
    exact .start ⟨now, lastExpires, memory, memory', sch, hnow, hrun, rfl⟩
  · cases op with
    | enqueue now skb segs =>
        obtain ⟨r, hrun, rfl⟩ := Option.map_eq_some_iff.mp hstep
        exact ((keeps_queueReach P hok.2).enqueue ih hrun).1
    | dequeue now =>
        obtain ⟨r, hrun, rfl⟩ := Option.map_eq_some_iff.mp hstep
        exact ((keeps_queueReach P hok.2).dequeue ih hrun).1
    | reset => exact hok.elim

/-- The queue of a history. -/
def queue (w : World) (mainTs : ℕ) : PQueue :=
  { mainTs := mainTs, held := w.held, sent := w.sent, count := w.count }

/-- The invariant of every run. -/
def Inv (P : Params) (w : World) : Prop := ∃ t, Refines P w.sch (w.queue t)

lemma Inv.initial (hint : numBuckets P ≤ 2 ^ 31) (h : w.Initial P) : w.Inv P := by
  obtain ⟨now, lastExpires, memory, memory', sch, -, hinit, rfl⟩ := h
  obtain ⟨-, rfl⟩ := gqInit_eq_some_iff.mp hinit
  exact ⟨0, initQdisc_refines hint now lastExpires memory memory'⟩

/-- An enqueue returns and keeps the invariant. -/
lemma Inv.enqueue (hP : Fit P) (h : w.Inv P) (hnow : now < 2 ^ 63) (skb : SkBuff)
    (segs : List SkBuff) : ∃ w', w.step P (.enqueue now skb segs) = some w' ∧ w'.Inv P := by
  obtain ⟨t, href⟩ := h
  obtain ⟨r, hrun, hpushed, -, href'⟩ := href.enqueue hP hnow skb segs
  obtain ⟨t', hfst⟩ := PQueue.enqueue_fst (P := P) (w.queue t) now skb segs
  refine ⟨_, by rw [World.step, hrun]; rfl, t', ?_⟩
  rw [hfst, ← hpushed] at href'
  exact href'

/-- A dequeue returns and keeps the invariant. -/
lemma Inv.dequeue (hP : Fit P) (h : w.Inv P) (hnow : now < 2 ^ 63) :
    ∃ w', w.step P (.dequeue now) = some w' ∧ w'.Inv P := by
  obtain ⟨t, href⟩ := h
  obtain ⟨r, hrun, hskb, -, -, href'⟩ := href.dequeue hP hnow
  obtain ⟨t', hfst⟩ := PQueue.dequeue_fst (P := P) (w.queue t) now
  have hpop := PQueue.popped_dequeue (P := P) (w.queue t) now
  refine ⟨_, by rw [World.step, hrun]; rfl, t', ?_⟩
  rw [← hskb] at hpop
  rw [hfst, ← hpop] at href'
  exact href'

/-- **A dequeue** keeps its promise. -/
lemma Inv.serves (hP : Fit P) (h : w.Inv P) (hnow : now < 2 ^ 63) :
    ∃ r, gqDequeue w.sch now = some r ∧ Serves P w now r := by
  obtain ⟨t, href⟩ := h
  obtain ⟨r, hrun, hskb, hwatch, hsame, -⟩ := href.dequeue hP hnow
  have hpop := PQueue.popped_dequeue (P := P) (w.queue t) now
  refine ⟨r, hrun, ?_⟩
  rw [← hskb] at hpop
  cases hleast : (w.queue t).least with
  | none =>
      have hnil : w.held = [] := PQueue.least_eq_none.mp hleast
      rw [PQueue.dequeue_of_nil hnil] at hskb
      have hnone : r.skb = none := hskb
      rw [Serves, hnone]
      refine ⟨by simp [hnil], hsame hnone, fun e he => ?_⟩
      rw [hnil] at he
      exact absurd he.mem (by simp)
  | some e =>
      have hfirst : FirstLeast (fun e : Stored => e.key) w.held e :=
        PQueue.firstLeast_of_least hleast
      rcases Nat.lt_or_ge now e.key with hlt | hle
      · rw [PQueue.dequeue_of_lt hleast hlt] at hskb hwatch
        have hnone : r.skb = none := hskb
        rw [Serves, hnone]
        refine ⟨fun x hx => hlt.trans_le (hfirst.le x hx), hsame hnone, fun e' he' => ?_⟩
        have hkey : e.key = e'.key := le_antisymm (hfirst.le e' he'.mem) (he'.le e hfirst.mem)
        rw [← hkey]
        exact hwatch
      · rw [PQueue.dequeue_of_le hleast hle] at hskb hpop
        have hsome : r.skb = some (e.skb, e.key) := hskb
        have hstamp := href.ok.stamp e hfirst.mem
        rw [Serves, hsome]
        refine ⟨e, ?_, hfirst, rfl, rfl, hle, by omega⟩
        rw [← hsome]
        exact hpop

lemma Inv.step (hP : Fit P) (h : w.Inv P) (hok : w.Admits op) :
    ∃ w', w.step P op = some w' ∧ w'.Inv P := by
  cases op with
  | enqueue now skb segs => exact h.enqueue hP hok.2 skb segs
  | dequeue now => exact h.dequeue hP hok.2
  | reset => exact hok.elim

end World

/-- **A stable priority queue**: in every run of enqueues and dequeues with two to `2^31` buckets,
every call returns; a dequeue returns the first packet of the least key when that is due, at most
a granule early, and otherwise arms the watchdog for it; and a packet was returned before one that
arrived before it only with an earlier time. -/
theorem stable_priority_queue {w : World} (hfits : numBuckets P ≤ base ^ levels P)
    (hdvd : P.granularity ∣ P.horizonNs) (htwo : 2 ≤ numBuckets P) (hint : numBuckets P ≤ 2 ^ 31)
    (hw : Reach P World.Admits w) :
    (∀ op, w.Admits op → ∃ w', w.step P op = some w') ∧
      (∀ now, w.Admits (.dequeue now) →
        ∃ r, gqDequeue w.sch now = some r ∧ Serves P w now r) ∧
      Shelf.Fair Stored.seq (fun e => e.requested) (w.sent ++ w.held) := by
  have hP : Fit P := ⟨hdvd, htwo, hfits⟩
  have hinv : w.Inv P := hw.invariant (fun w hinit => .initial hint hinit)
    fun w w' op _ ih hok hstep => by
      obtain ⟨w'', hstep', hinv⟩ := ih.step hP hok
      rw [hstep, Option.some.injEq] at hstep'
      exact hstep' ▸ hinv
  refine ⟨fun op hok => ?_, fun now hok => hinv.serves hP hok.2, ?_⟩
  · obtain ⟨w', hstep, -⟩ := hinv.step hP hok
    exact ⟨w', hstep⟩
  · obtain ⟨t, href⟩ := hinv
    exact href.ok.fair

/-! ### Concrete runs -/

/-- A run from `gq_init` at clock `0` whose last world satisfies `p` reaches such a world. -/
lemma exists_reach (P : Params) (ok : World → Op → Prop) [∀ w op, Decidable (ok w op)]
    (ops : List Op) (p : World → Prop) [DecidablePred p]
    (h : ((gqInit P 0 0 (fun _ => .empty) fun _ => .empty).bind fun sch =>
      Machine.run (World.step P) ok (World.start sch 0) ops).any (fun w => p w) = true) :
    ∃ w, Reach P ok w ∧ p w := by
  cases hinit : gqInit P 0 0 (fun _ => .empty) fun _ => .empty with
  | none => simp [hinit] at h
  | some sch =>
      rw [hinit, Option.bind_some] at h
      exact Machine.exists_reach
        ⟨0, 0, fun _ => .empty, fun _ => .empty, sch, by norm_num, hinit, rfl⟩ ops p h

/-- A packet of `1500` bytes that is not segmented. -/
def packetAt (ptr ts : ℕ) : SkBuff :=
  { ptr := ptr, len := 1500, skbMstampNs := ts, skPacingRate := none, isGso := false
    transportOffset := 34, tcpHdrlen := 20 }

/-- The defaults of the module. -/
def defaultParams : Params :=
  { gsoSplit := false, granularity := 1000, horizon := 10
    granularity_lt := default_granularity_lt, horizon_lt := default_horizon_lt }

/-- The defaults, three packets and one dequeue: the packets in the queue came later, or with
later times, than the packet that was returned. -/
theorem stable_priority_queue_run :
    ∃ w, Reach defaultParams World.Admits w ∧ w.sent.length = 1 ∧ w.held.length = 2 ∧
      (∀ op, w.Admits op → ∃ w', w.step defaultParams op = some w') ∧
      (∀ now, w.Admits (.dequeue now) →
        ∃ r, gqDequeue w.sch now = some r ∧ Serves defaultParams w now r) ∧
      Shelf.Fair Stored.seq (fun e => e.requested) (w.sent ++ w.held) := by
  obtain ⟨w, hw, hsent, hheld⟩ := exists_reach defaultParams World.Admits
    [.enqueue 0 (packetAt 1 2500) [], .enqueue 0 (packetAt 2 1200) [],
      .enqueue 10 (packetAt 3 1300) [], .dequeue 2000]
    (fun w => w.sent.length = 1 ∧ w.held.length = 2) (by decide +kernel)
  exact ⟨w, hw, hsent, hheld,
    stable_priority_queue (by decide +kernel) (by decide) (by decide) (by decide) hw⟩

/-- A granularity of one second and a horizon of one second: one bucket, and a tree without
levels. -/
def oneBucket : Params :=
  { gsoSplit := false, granularity := 1000000000, horizon := 1
    granularity_lt := by norm_num, horizon_lt := second_horizon_lt }

/-- The first dequeue reads the root of a tree that has no node. -/
theorem one_bucket_faults :
    numBuckets oneBucket ≤ base ^ levels oneBucket ∧
      oneBucket.granularity ∣ oneBucket.horizonNs ∧
      ∃ w, Reach oneBucket World.Admits w ∧ w.Admits (.dequeue 0) ∧ gqDequeue w.sch 0 = none := by
  refine ⟨by decide, by decide, ?_⟩
  obtain ⟨w, hw, hok, hnone⟩ := exists_reach oneBucket World.Admits []
    (fun w => w.Admits (.dequeue 0) ∧ (gqDequeue w.sch 0).isNone = true) (by decide +kernel)
  exact ⟨w, hw, hok, by simpa using hnone⟩

end Eiffel
