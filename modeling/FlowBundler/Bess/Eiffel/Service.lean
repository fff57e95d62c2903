import FlowBundler.Bess.Eiffel.Run

/-!
Eiffel serves the earliest bucket, and never early.

* `startTs`: the start time of a bucket, without the wrap; `Timed cfg e S clock`: the base time of
  the main queue is at most a horizon ahead of the clock, and not ahead when the main queue has no
  bit set; no start time of a bucket with its bit set overflows.
* `Timed.lt_buffer`: the buckets of the main queue start before those of the buffer queue.
* `Timed.round`, `Timed.reset`, `Timed.front`, `Timed.service`: the steps keep that.
* `Loaded`: what is in a bucket has its send time in the granule of the bucket.
* `Call.Served`, `earliest_bucket_served`: every call of `Dequeue` of every run serves the
  bucket with the least start time, with send times less than a granule ahead.

The main queue covers one horizon from its base time on, and the buffer queue the next one, so a
bucket of the main queue starts before every bucket of the buffer queue, and `ffs` has the least
start time of all.  The base time stays within a horizon of the clock: a round of `Enqueue` does not
move it, a reset sets it to the clock, and a rotation, which takes place only when the main queue
has no bit set, moves it on by one horizon from a time that is not ahead of the clock.  A packet
lies in the granule of its send time, so a bucket that has started has nothing more than a granule
ahead of the clock.
-/

namespace Bess

namespace Eiffel

variable {cfg : SlotConfig} {e : Eiffel} {S : QueueId → Finset ℕ} {q : QueueId}
  {i clock now stamp : ℕ}

/-! ### Start times -/

lemma horizon_lt (cfg : SlotConfig) : horizon cfg < 2 ^ 32 := Nat.mod_lt _ (by norm_num)

/-- The start time of a bucket. -/
def startTs (cfg : SlotConfig) (e : Eiffel) : QueueId → ℕ → ℕ
  | .main, i => i * cfg.granularity + e.mainTs
  | .buffer, i => i * cfg.granularity + (e.mainTs + horizon cfg)

lemma startTs_congr {e' : Eiffel} (h : e'.mainTs = e.mainTs) :
    startTs cfg e' = startTs cfg e := by
  funext q i
  cases q <;> rw [startTs, startTs, h]

/-- The base times and the clock. -/
structure Timed (cfg : SlotConfig) (e : Eiffel) (S : QueueId → Finset ℕ) (clock : ℕ) : Prop where
  clock_lt : clock < 2 ^ 64
  main_lt : e.mainTs < 2 ^ 64
  ahead : e.mainTs ≤ clock + horizon cfg
  idle : S .main = ∅ → e.mainTs ≤ clock
  start_lt : ∀ q, ∀ i ∈ S q, startTs cfg e q i < 2 ^ 64
  horizon_pos : (S .buffer).Nonempty → 0 < horizon cfg

namespace Timed

/-- A start time that fits does not wrap. -/
lemma bucketTs_of_lt (hmark : Marked cfg e S) (hlt : startTs cfg e q i < 2 ^ 64) :
    e.bucketTs cfg q i = startTs cfg e q i := by
  rw [bucketTs]
  cases q with
  | main => exact Nat.mod_eq_of_lt hlt
  | buffer =>
      rw [startTs] at hlt
      have hbase : e.tsOf .buffer = e.mainTs + horizon cfg :=
        hmark.base.trans (Nat.mod_eq_of_lt (by omega))
      rw [hbase]
      exact Nat.mod_eq_of_lt hlt

lemma bucketTs_eq (h : Timed cfg e S clock) (hmark : Marked cfg e S) (hi : i ∈ S q) :
    e.bucketTs cfg q i = startTs cfg e q i := bucketTs_of_lt hmark (h.start_lt q i hi)

/-- The buckets of the main queue start before those of the buffer queue. -/
lemma lt_buffer (h : Timed cfg e S clock) (hmark : Marked cfg e S) {j : ℕ} (hi : i ∈ S .main)
    (hj : j ∈ S .buffer) : e.bucketTs cfg .main i < e.bucketTs cfg .buffer j := by
  have hpos := h.horizon_pos ⟨j, hj⟩
  rw [h.bucketTs_eq hmark hi, h.bucketTs_eq hmark hj]
  calc i * cfg.granularity + e.mainTs < e.mainTs + horizon cfg := by
        rcases hmark.within .main i hi with hlt | rfl <;> omega
    _ ≤ j * cfg.granularity + (e.mainTs + horizon cfg) := Nat.le_add_left _ _

/-- **The bucket that `ffs` finds** has the least start time. -/
lemma ffs_least (h : Timed cfg e S clock) (hmark : Marked cfg e S)
    (hffs : e.ffs = some (i, q.num)) {q' : QueueId} {j : ℕ} (hj : j ∈ S q') :
    e.bucketTs cfg q i ≤ e.bucketTs cfg q' j := by
  obtain ⟨hi, hleast, hempty⟩ := hmark.ffs_least hffs
  by_cases hq : q' = q
  · subst hq
    rw [h.bucketTs_eq hmark hi, h.bucketTs_eq hmark hj]
    have hmul : i * cfg.granularity ≤ j * cfg.granularity := Nat.mul_le_mul_right _ (hleast j hj)
    cases q' with
    | main => exact Nat.add_le_add_right hmul _
    | buffer => exact Nat.add_le_add_right hmul _
  · cases q with
    | main =>
        cases q' with
        | main => exact absurd rfl hq
        | buffer => exact (h.lt_buffer hmark hi hj).le
    | buffer =>
        cases q' with
        | main => simp [hempty rfl] at hj
        | buffer => exact absurd rfl hq

/-- A call that leaves the base times alone. -/
lemma congr {e' : Eiffel} (h : Timed cfg e S clock) (hts : e'.tsOf = e.tsOf) :
    Timed cfg e' S clock := by
  have hmain : e'.mainTs = e.mainTs := congrFun hts .main
  refine ⟨h.clock_lt, ?_, ?_, ?_, fun q i hi => ?_, h.horizon_pos⟩
  · exact hmain ▸ h.main_lt
  · exact hmain ▸ h.ahead
  · exact hmain ▸ h.idle
  · rw [startTs_congr hmain]
    exact h.start_lt q i hi

/-! ### Enqueue -/

/-- **The selected bucket** starts at most a granule before the send time that is left. -/
lemma target_spec (h : Timed cfg e S clock) (hmark : Marked cfg e S) (hclock : clock ≤ stamp)
    (hstamp : stamp < 2 ^ 64) (ht : e.target cfg stamp = some (q, i)) :
    startTs cfg e q i < 2 ^ 64 ∧ startTs cfg e q i ≤ e.leftTime stamp ∧
      e.leftTime stamp < startTs cfg e q i + cfg.granularity := by
  have hbase := hmark.base
  have hhor := horizon_lt cfg
  have hpos := cfg.granularity_pos
  have hmain := h.main_lt
  have hahead := h.ahead
  have hdiv : ∀ n, n / cfg.granularity * cfg.granularity ≤ n ∧
      n < n / cfg.granularity * cfg.granularity + cfg.granularity := fun n =>
    ⟨Nat.div_mul_le_self _ _, Nat.lt_div_mul_add hpos⟩
  rw [target] at ht
  rw [leftTime]
  split at ht
  · rename_i hfirst
    split at ht
    · rename_i hlate
      obtain ⟨rfl, rfl⟩ := Prod.mk.inj (Option.some.inj ht)
      rw [if_pos ⟨hfirst, hlate⟩, startTs]
      omega
    · rename_i hlate
      obtain ⟨rfl, rfl⟩ := Prod.mk.inj (Option.some.inj ht)
      have hn := hdiv (stamp - e.mainTs)
      rw [if_neg fun hboth => hlate hboth.2, startTs]
      omega
  · rename_i hsecond
    split at ht
    · simp at ht
    · rename_i hnear
      obtain ⟨rfl, rfl⟩ := Prod.mk.inj (Option.some.inj ht)
      have hn := hdiv (stamp - e.bufferTs)
      -- when the sum wraps, everything from the clock on is beyond it
      have hfit : e.mainTs + horizon cfg + horizon cfg < 2 ^ 64 := by omega
      rw [if_neg fun hboth => hsecond hboth.1, startTs]
      omega

/-- **A round of `Enqueue`.** -/
lemma round {node : PacketNode} {r : InsertResult} (h : Timed cfg e S clock)
    (hmark : Marked cfg e S) (hclock : clock ≤ now) (hnow : now < 2 ^ 64) (hle : now ≤ stamp)
    (hstamp : stamp < 2 ^ 64) (hout : Outcome cfg e stamp node r) :
    Timed cfg r.eiffel (Marked.after cfg e S stamp) now := by
  have hts : r.eiffel.mainTs = e.mainTs := congrFun (hout.ts cfg) .main
  refine ⟨hnow, hts ▸ h.main_lt, ?_, fun hempty => ?_, fun q' j hj => ?_, ?_⟩
  · rw [hts]
    exact h.ahead.trans (Nat.add_le_add_right hclock _)
  · rw [hts]
    refine (h.idle (Finset.eq_empty_of_forall_notMem fun j hj => ?_)).trans hclock
    have hmem := Marked.mem_after.mpr (.inl hj : _ ∨ e.target cfg stamp = some (.main, j))
    simp [hempty] at hmem
  · rw [startTs_congr hts]
    rcases Marked.mem_after.mp hj with hj | ht
    · exact h.start_lt q' j hj
    · exact (h.target_spec hmark (hclock.trans hle) hstamp ht).1
  · rintro ⟨j, hj⟩
    rcases Marked.mem_after.mp hj with hj | ht
    · exact h.horizon_pos ⟨j, hj⟩
    · exact hmark.target_buffer ht

/-! ### Dequeue -/

/-- **The reset**, with no bit set. -/
lemma reset (hempty : ∀ q, S q = ∅) (hnow : now < 2 ^ 64) (hmain : e.mainTs = now) :
    Timed cfg e S now := by
  refine ⟨hnow, hmain ▸ hnow, ?_, fun _ => hmain.le, fun q i hi => ?_, by simp [hempty .buffer]⟩
  · rw [hmain]
    exact Nat.le_add_right _ _
  · simp [hempty q] at hi

/-- **A rotation**: the main queue has no bit set, so that its base time is not ahead of the
clock. -/
lemma front (h : Timed cfg e S clock) (hmark : Marked cfg e S) (hclock : clock ≤ now)
    (hnow : now < 2 ^ 64) (hi : i ∈ S q) (hempty : q = .buffer → S .main = ∅) :
    Timed cfg (e.front cfg q) (frontOf S q) now := by
  cases q with
  | main =>
      rw [frontOf_self]
      exact ⟨hnow, h.main_lt, h.ahead.trans (Nat.add_le_add_right hclock _),
        fun hnil => (h.idle hnil).trans hclock, h.start_lt, h.horizon_pos⟩
  | buffer =>
      have hidle := h.idle (hempty rfl)
      have hbase := hmark.base
      have hlt := h.start_lt .buffer i hi
      rw [startTs] at hlt
      have hmain : (e.front cfg .buffer).mainTs = e.mainTs + horizon cfg := by
        change e.bufferTs = _
        rw [hbase]
        exact Nat.mod_eq_of_lt (by omega)
      refine ⟨hnow, by omega, by omega, fun hnil => ?_, fun q j hj => ?_,
        fun _ => h.horizon_pos ⟨i, hi⟩⟩
      · rw [frontOf_main] at hnil
        simp [hnil] at hi
      · cases q with
        | main =>
            rw [startTs, hmain]
            exact h.start_lt .buffer j hj
        | buffer =>
            rw [frontOf_buffer] at hj
            simp [QueueId.other, hempty rfl] at hj

/-- **The service of a bucket** that is due. -/
lemma service {r : DequeueResult} (h : Timed cfg e S now) (hmark : Marked cfg e S)
    (hi : i ∈ S .main) (hdue : e.bucketTs cfg .main i ≤ now) (hserve : Service e i r) :
    Timed cfg r.eiffel (Function.update S .main
      (if (r.eiffel.queueOf .main i).nodes = [] then (S .main).erase i else S .main)) now := by
  have hts : r.eiffel.mainTs = e.mainTs := congrFun hserve.ts .main
  rw [h.bucketTs_eq hmark hi, startTs] at hdue
  refine ⟨h.clock_lt, hts ▸ h.main_lt, hts ▸ h.ahead, fun _ => by omega, fun q j hj => ?_,
    h.horizon_pos⟩
  rw [startTs_congr hts]
  by_cases hq : q = .main
  · subst hq
    rw [Function.update_self] at hj
    split at hj
    · exact h.start_lt .main j (Finset.mem_of_mem_erase hj)
    · exact h.start_lt .main j hj
  · rw [Function.update_of_ne hq] at hj
    exact h.start_lt q j hj

end Timed

/-! ### What is in the buckets -/

variable {held : QueueId → ℕ → List Placed}

/-- The packets in the buckets are those of `held`, each with its send time in the granule of its
bucket. -/
structure Loaded (cfg : SlotConfig) (e : Eiffel) (held : QueueId → ℕ → List Placed) : Prop where
  nodes : ∀ q i, (held q i).map Placed.node = (e.queueOf q i).nodes
  timely : ∀ q i, ∀ p ∈ held q i, e.bucketTs cfg q i ≤ p.sendTime ∧
    p.sendTime < e.bucketTs cfg q i + cfg.granularity

namespace Loaded

/-- A bucket without its bit is empty. -/
lemma eq_nil (h : Loaded cfg e held) (hmark : Marked cfg e S) (hi : i ∉ S q) : held q i = [] := by
  have hnil : (e.queueOf q i).nodes = [] := not_not.mp fun hne => hi (hmark.sub q i hne)
  rw [← h.nodes q i] at hnil
  exact List.map_eq_nil_iff.mp hnil

/-- A call that leaves buckets and base times alone. -/
lemma congr {e' : Eiffel} (h : Loaded cfg e held) (hqueue : e'.queueOf = e.queueOf)
    (hts : e'.tsOf = e.tsOf) : Loaded cfg e' held := by
  refine ⟨fun q i => ?_, fun q i p hp => ?_⟩
  · rw [hqueue]
    exact h.nodes q i
  · rw [bucketTs, hts]
    exact h.timely q i p hp

/-- The base times of empty queues may change. -/
lemma reset {e' : Eiffel} (h : Loaded cfg e held) (hmark : Marked cfg e S)
    (hempty : ∀ q, S q = ∅) (hqueue : e'.queueOf = e.queueOf) : Loaded cfg e' held := by
  refine ⟨fun q i => ?_, fun q i p hp => ?_⟩
  · rw [hqueue]
    exact h.nodes q i
  · have hnil := h.eq_nil (q := q) (i := i) hmark (by simp [hempty q])
    simp [hnil] at hp

/-- The contents of a bucket change. -/
lemma setBucket {e' : Eiffel} {b : ListBucket} {ps : List Placed} (h : Loaded cfg e held)
    (hts : e'.tsOf = e.tsOf)
    (hqueue : e'.queueOf = Function.update e.queueOf q (Function.update (e.queueOf q) i b))
    (hnodes : ps.map Placed.node = b.nodes)
    (htime : ∀ p ∈ ps, e.bucketTs cfg q i ≤ p.sendTime ∧
      p.sendTime < e.bucketTs cfg q i + cfg.granularity) :
    Loaded cfg e' (Function.update held q (Function.update (held q) i ps)) := by
  have hbucket : ∀ q j, e'.bucketTs cfg q j = e.bucketTs cfg q j := fun q j => by
    rw [bucketTs, bucketTs, hts]
  refine ⟨fun q' j => ?_, fun q' j p hp => ?_⟩
  · rw [hqueue]
    by_cases hj : q' = q ∧ j = i
    · obtain ⟨rfl, rfl⟩ := hj
      rwa [update_bucket_self, update_bucket_self]
    · rw [update_bucket_of_ne hj, update_bucket_of_ne hj]
      exact h.nodes q' j
  · rw [hbucket]
    by_cases hj : q' = q ∧ j = i
    · obtain ⟨rfl, rfl⟩ := hj
      rw [update_bucket_self] at hp
      exact htime p hp
    · rw [update_bucket_of_ne hj] at hp
      exact h.timely q' j p hp

/-- A rotation; the queue that leaves the front is empty. -/
lemma front (h : Loaded cfg e held) (hmark : Marked cfg e S) (hempty : q = .buffer → S .main = ∅) :
    Loaded cfg (e.front cfg q) (frontOf held q) := by
  refine ⟨fun q' i => ?_, fun q' i p hp => ?_⟩
  · rw [front_queueOf]
    cases q' with
    | main => exact h.nodes q i
    | buffer => exact h.nodes q.other i
  · cases q with
    | main =>
        rw [frontOf_self] at hp
        exact h.timely q' i p hp
    | buffer =>
        cases q' with
        | main => exact h.timely .buffer i p hp
        | buffer =>
            have hnil : held .main i = [] := h.eq_nil hmark (by simp [hempty rfl])
            rw [frontOf_buffer, QueueId.other, hnil] at hp
            simp at hp

end Loaded

/-! ### Runs -/

/-- **A call of `Dequeue`** removes the first packets of a due bucket with the least start time
among the buckets with packets; their send times are less than a granule ahead of the clock. -/
structure Call.Served (cfg : SlotConfig) (d : Call) : Prop where
  batch : d.batch = d.removed.map Placed.node
  least : d.removed ≠ [] → ∃ q i, d.removed <+: d.held q i ∧ d.eiffel.bucketTs cfg q i ≤ d.now ∧
    ∀ q' j, (d.eiffel.queueOf q' j).nodes ≠ [] →
      d.eiffel.bucketTs cfg q i ≤ d.eiffel.bucketTs cfg q' j
  not_early : ∀ p ∈ d.removed, p.sendTime < d.now + cfg.granularity

namespace World

variable {w w' : World} {op : Op}

/-- The invariant of a run: the buckets, the bitmaps and the clock. -/
structure Inv (cfg : SlotConfig) (w : World) (S : QueueId → Finset ℕ) : Prop where
  marked : Marked cfg w.eiffel S
  timed : Timed cfg w.eiffel S w.clock
  loaded : Loaded cfg w.eiffel w.held
  served : ∀ d ∈ w.calls, d.Served cfg

namespace Inv

lemma initial (h : w.Initial cfg) : w.Inv cfg fun _ => ∅ := by
  obtain ⟨now, pktsNum, flowToGen, flowInfo, pktgen, e, hnow, hinit, rfl⟩ := h
  have hmark := init_marked ⟨now, pktsNum, flowToGen, flowInfo, pktgen, hinit⟩
  rw [init, Option.map_eq_some_iff] at hinit
  obtain ⟨map, -, rfl⟩ := hinit
  refine ⟨hmark, .reset (fun _ => rfl) hnow rfl, ⟨fun q i => ?_, ?_⟩, ?_⟩
  · cases q <;> rfl
  · exact fun _ _ p hp => absurd hp (List.not_mem_nil)
  · exact fun d hd => absurd hd (List.not_mem_nil)

/-- **A round of `Enqueue`** keeps the invariant. -/
lemma enqueueOne {p : ℕ × Packet} (h : w.Inv cfg S) (hticks : w.TicksAt p.1) :
    ∃ S', (w.enqueueOne cfg p).Inv cfg S' := by
  have hout := enqueueOne_outcome cfg w.eiffel p
  have hstamp : w.eiffel.stampOf p < 2 ^ 64 := Carousel.newStamp_lt _ _ hticks.2
  have hle := le_stampOf w.eiffel p
  have hmark := h.marked.round hout
  have htimed := h.timed.round h.marked hticks.1 hticks.2 hle hstamp hout
  refine ⟨_, hmark, htimed, ?_, h.served⟩
  change Loaded cfg (w.eiffel.enqueueOne cfg p).eiffel
    (w.heldAfter cfg (w.eiffel.stampOf p) (nodeOf p) (w.eiffel.enqueueOne cfg p))
  rw [heldAfter]
  cases hout with
  | refused ht hret hsame =>
      rw [if_pos hret]
      exact h.loaded.congr hsame.queue hsame.ts
  | exhausted q i ht hret _ hqueue _ hts =>
      rw [if_pos hret]
      exact h.loaded.congr hqueue hts
  | stored q i ht hret _ hqueue _ hts hsend =>
      rw [if_neg (by rw [hret]; exact lt_irrefl 0), ht]
      obtain ⟨hlt, hspec⟩ := h.timed.target_spec h.marked (hticks.1.trans hle) hstamp ht
      have hstart := Timed.bucketTs_of_lt h.marked hlt
      refine h.loaded.setBucket hts hqueue ?_ fun p' hp' => ?_
      · rw [List.map_cons, h.loaded.nodes]
      · rcases List.mem_cons.mp hp' with rfl | hp'
        · rw [hstart, hsend]
          exact hspec
        · exact h.loaded.timely q i p' hp'

/-- A call of `Enqueue` is one round after another. -/
lemma enqueue {batch : List (ℕ × Packet)} : ∀ {w : World} {S : QueueId → Finset ℕ},
    w.Inv cfg S → w.BatchTicks cfg batch → ∃ S', (w.enqueue cfg batch).Inv cfg S' := by
  induction batch with
  | nil => exact fun h _ => ⟨_, h⟩
  | cons p batch ih =>
      intro w S h hticks
      obtain ⟨S₁, h₁⟩ := h.enqueueOne hticks.1
      exact ih h₁ hticks.2

/-- One more call. -/
lemma served_append {d : Call} (h : w.Inv cfg S) (hd : d.Served cfg) :
    ∀ d' ∈ w.calls ++ [d], d'.Served cfg := by
  intro d' hd'
  rcases List.mem_append.mp hd' with hd' | hd'
  · exact h.served d' hd'
  · exact List.mem_singleton.mp hd' ▸ hd

lemma frontHeld_num (w : World) (q : QueueId) : w.frontHeld q.num = frontOf w.held q := by
  cases q <;> rfl

/-- **A call of `Dequeue`** keeps the invariant. -/
lemma dequeue (h : w.Inv cfg S) (hticks : w.TicksAt now) :
    ∃ S', (w.dequeue cfg now).Inv cfg S' := by
  cases dequeue_cases cfg w.eiffel now with
  | reset hffs hr =>
      have hempty := h.marked.ffs_eq_none_iff.mp hffs
      rw [World.dequeue, hr, heldWithout, removed, hffs]
      refine ⟨S, h.marked.reset now, .reset hempty hticks.2 rfl, ?_,
        h.served_append ⟨rfl, by simp, by simp⟩⟩
      refine h.loaded.reset h.marked hempty ?_
      funext q
      cases q <;> rfl
  | early q i hffs hearly hr =>
      obtain ⟨hi, -, hempty⟩ := h.marked.ffs_least hffs
      rw [World.dequeue, hr, heldWithout, removed, hffs]
      refine ⟨frontOf S q, h.marked.front q,
        h.timed.front h.marked hticks.1 hticks.2 hi hempty, ?_,
        h.served_append ⟨by simp, by simp, by simp⟩⟩
      dsimp only
      rw [List.length_nil, List.drop_zero, Function.update_eq_self, Function.update_eq_self,
        frontHeld_num]
      exact h.loaded.front h.marked hempty
  | served q i hffs hdue hr =>
      obtain ⟨hi, -, hempty⟩ := h.marked.ffs_least hffs
      obtain ⟨-, hmark, hserve⟩ := h.marked.served hffs
      have htimed := h.timed.front h.marked hticks.1 hticks.2 hi hempty
      have hload := h.loaded.front h.marked hempty
      obtain ⟨b, hnodes, -, hqueue⟩ := hserve.queue
      have hdue' : (w.eiffel.front cfg q).bucketTs cfg .main i ≤ now := by
        rw [bucketTs, front_tsOf_main]
        exact hdue
      rw [World.dequeue, hr, heldWithout, removed, hffs]
      dsimp only
      rw [frontHeld_num, hserve.length_taken]
      refine ⟨_, hmark.service hi hserve, htimed.service hmark hi hdue' hserve, ?_,
        h.served_append ⟨?_, fun _ => ?_, fun p hp => ?_⟩⟩
      · refine hload.setBucket hserve.ts hqueue ?_ fun p hp => ?_
        · rw [List.map_drop, hload.nodes, hnodes]
        · exact hload.timely .main i p (List.mem_of_mem_drop hp)
      · rw [hserve.taken, List.map_take, hload.nodes]
      · exact ⟨q, i, List.take_prefix _ _, hdue, fun q' j hne =>
          h.timed.ffs_least h.marked hffs (h.marked.sub q' j hne)⟩
      · have htime := h.loaded.timely q i p (List.mem_of_mem_take hp)
        dsimp only
        omega

/-- Only the packet count and the burst differ. -/
lemma congr (h : w.Inv cfg S) {e : Eiffel} (hsame : SameQueues w.eiffel e) :
    Inv cfg { w with eiffel := e } S :=
  ⟨h.marked.congr hsame, h.timed.congr hsame.ts, h.loaded.congr hsame.queue hsame.ts, h.served⟩

lemma step (h : w.Inv cfg S) (hok : w.Ticks cfg op) (hstep : w.step cfg op = some w') :
    ∃ S', w'.Inv cfg S' := by
  cases op with
  | enqueue batch =>
      obtain rfl := Option.some.inj hstep
      exact h.enqueue hok
  | dequeue now =>
      obtain rfl := Option.some.inj hstep
      exact h.dequeue hok
  | runTask env =>
      obtain rfl := Option.some.inj hstep
      rcases w.runTask_cases env with ⟨hsame, -⟩ | ⟨batch, hover, hgen, hrun⟩
      · rw [hsame]
        exact ⟨S, h⟩
      · obtain ⟨hbatch, hnow⟩ := hok hover batch hgen
        obtain ⟨S₁, h₁⟩ := h.enqueue hbatch
        obtain ⟨S₂, h₂⟩ := h₁.dequeue hnow
        have hsame := runTask_same cfg hover hgen
        rw [← enqueue_eiffel] at hsame
        rw [hrun]
        exact ⟨S₂, h₂.congr hsame⟩
  | setMaxDequeueBurst arg =>
      obtain rfl := Option.some.inj hstep
      exact ⟨S, h.congr (setMaxDequeueBurst_same w.eiffel arg)⟩

end Inv

end World

/-- Every run keeps the invariant. -/
lemma exists_inv {w : World} (hw : Reach cfg (World.Ticks cfg) w) : ∃ S, w.Inv cfg S :=
  hw.invariant (I := fun w => ∃ S, w.Inv cfg S) (fun _ hinit => ⟨fun _ => ∅, .initial hinit⟩)
    fun _ _ _ _ ⟨_, h⟩ hok hstep => h.step hok hstep

/-- **The earliest bucket is served, and not early**: in every run of Eiffel whose clock does not
go back, the buckets hold what `held` says, and every call of `Dequeue` removes the first packets
of a due bucket whose start time is the least among the buckets with packets of both queues, with
send times less than a granule ahead of the clock. -/
theorem earliest_bucket_served {w : World} (hw : Reach cfg (World.Ticks cfg) w) :
    (∀ q i, (w.held q i).map Placed.node = (w.eiffel.queueOf q i).nodes) ∧
      ∀ d ∈ w.calls, d.Served cfg := by
  obtain ⟨S, hinv⟩ := exists_inv hw
  exact ⟨hinv.loaded.nodes, hinv.served⟩

/-- A small run: the pool refuses one packet, and the last packet leaves after a rotation. -/
theorem earliest_bucket_served_run :
    ∃ w, Reach smallSlots (World.Ticks smallSlots) w ∧ w.eiffel.mainTs = 80 ∧
      w.calls.map (fun d => d.removed.map Placed.sendTime) = [[7], [12], [24], [96]] ∧
      (∀ q i, (w.held q i).map Placed.node = (w.eiffel.queueOf q i).nodes) ∧
      ∀ d ∈ w.calls, d.Served smallSlots := by
  obtain ⟨w, hw, hts, hcalls⟩ := exists_reach 1000000000 (World.Ticks smallSlots)
    [.setMaxDequeueBurst 2,
      .enqueue [(0, packetOfLen 1 1500), (1, packetOfLen 1 1500), (2, packetOfLen 2 900),
        (3, packetOfLen 3 12000), (4, packetOfLen 4 1500)],
      .dequeue 20, .runTask (quietTask 30 1), .dequeue 100, .dequeue 100]
    (fun w => w.eiffel.mainTs = 80 ∧
      w.calls.map (fun d => d.removed.map Placed.sendTime) = [[7], [12], [24], [96]])
    (by decide +kernel)
  exact ⟨w, hw, hts, hcalls, earliest_bucket_served hw⟩

end Eiffel

end Bess
