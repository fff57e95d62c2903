import FlowBundler.Bess.Operations

/-!
The bookkeeping of every run.

* `World.EnqueueStep`, `step_enqueue`, `step_dequeue`: the world after an operation.
* `World.Inv`, `reach_inv`: in every run the module represents what it holds, and the scan
  granularity is at most every occupied level.
* `FlowBundler.Accounts`, `reach_accounts`: so lists, counters, bitmap and pool agree.

No bound on the times is needed: the clamp of `FindRealLocation` and the mask keep every location
inside the calendar.  That the scan granularity is at most every occupied level is kept by both
operations: a round of `Enqueue` lowers it to the queue index of its packet, whose level is not
lower, and a `Dequeue` raises it to the lowest occupied level at most.
-/

namespace Bess

open Ledger Heap MemoryPool FlowBundler

/-! ### One operation on a world -/

section Step

variable {cfg : Config} {w w' : World} {now garbage : ℕ}

/-- The packet `e` is what a round of `Enqueue` with queue index `q` and send time `s` places
in the world `w`. -/
structure World.Places (cfg : Config) (w : World) (pkt : Packet) (q s : ℕ) (e : Placed) :
    Prop where
  seq : e.seq = w.count
  packet : e.packet = pkt
  flowId : e.flowId = pkt.src
  sendTime : e.sendTime = s
  actual : e.actual = actualTime (headFor w.fb q s) s
  queueId : e.queueId = finalQueueId cfg q (headFor w.fb q s) e.actual
  loc : e.loc = findRealLocation cfg e.queueId e.actual

/-- What a round of `Enqueue` with queue index `q` and send time `s` can do to a world. -/
structure World.EnqueueStep (cfg : Config) (w : World) (pkt : Packet) (q s : ℕ) (w' : World) :
    Prop where
  headTime : w'.fb.headTime = headFor w.fb q s
  highestRateQid : w'.fb.highestRateQid
    = if w.fb.bitmap = 0 then q else min q w.fb.highestRateQid
  sent : w'.sent = w.sent
  repr : Repr cfg.mempoolSize w'.fb w'.held
  outcome : (w.held.length = cfg.mempoolSize ∧ w'.held = w.held ∧ w'.count = w.count) ∨
    (w.held.length ≠ cfg.mempoolSize ∧ w'.count = w.count + 1 ∧
      ∃ e, w.Places cfg pkt q s e ∧ w'.held = w.held ++ [e])

lemma step_enqueue {pkt : Packet} {aggreRate hashId : ℕ} (h : Repr cfg.mempoolSize w.fb w.held)
    (hstep : w.step cfg (.enqueue now pkt aggreRate hashId) = some w') :
    w.EnqueueStep cfg pkt (findQueueIndex cfg aggreRate) (w.fb.stampOf pkt now) w' := by
  rw [World.step, Option.some.injEq] at hstep
  subst hstep
  obtain ⟨hsend, hactual, hqueue, hloc⟩ := enqueueOne_computes cfg w.fb now pkt aggreRate hashId
  obtain ⟨hhead, hqid, hout⟩ := enqueueOne_stores h cfg now pkt aggreRate hashId
  rcases hout with ⟨hfull, hnode, hrepr⟩ | ⟨hroom, x, hnode, hrepr⟩
  · have hnil : w.placedOf pkt (w.fb.enqueueOne cfg now pkt aggreRate hashId) = [] := by
      rw [World.placedOf, hnode]
    refine ⟨hhead, hqid, rfl, ?_, .inl ⟨hfull, ?_, ?_⟩⟩
    · dsimp only
      rw [hnil, List.append_nil]
      exact hrepr
    · dsimp only
      rw [hnil, List.append_nil]
    · dsimp only
      rw [hnil, List.length_nil, Nat.add_zero]
  · obtain ⟨e, hplaced, he⟩ : ∃ e : Placed,
        w.placedOf pkt (w.fb.enqueueOne cfg now pkt aggreRate hashId) = [e] ∧
          (e.node = x ∧ e.loc = (w.fb.enqueueOne cfg now pkt aggreRate hashId).loc) ∧
          w.Places cfg pkt (findQueueIndex cfg aggreRate) (w.fb.stampOf pkt now) e := by
      refine ⟨_, by rw [World.placedOf, hnode], ⟨rfl, rfl⟩, ?_⟩
      exact ⟨rfl, rfl, rfl, hsend, hactual, hqueue, hloc⟩
    obtain ⟨⟨hx, hloc⟩, hplaces⟩ := he
    refine ⟨hhead, hqid, rfl, ?_, .inr ⟨hroom, ?_, e, hplaces, ?_⟩⟩
    · dsimp only
      rw [hplaced]
      exact hrepr e hx hplaces.packet hloc
    · dsimp only
      rw [hplaced, List.length_singleton]
    · dsimp only
      rw [hplaced]

lemma step_dequeue (hstep : w.step cfg (.dequeue now garbage) = some w') :
    ∃ r, w.fb.dequeue cfg now garbage = some r ∧
      w' = { w with
        fb := r.fb
        held := without Placed.node w.held r.taken
        sent := w.sent ++ (World.takenFrom w.held r.taken).map fun e => (e, now)
        clock := now } := by
  rw [World.step, Option.map_eq_some_iff] at hstep
  obtain ⟨r, hrun, rfl⟩ := hstep
  exact ⟨r, hrun, rfl⟩

/-- The packets taken are the front of the bucket, in order. -/
lemma takenFrom_front {n : ℕ} {fb : FlowBundler} {held : List Placed} (h : Repr n fb held)
    (loc : Location) :
    World.takenFrom held ((Repr.front cfg held loc).map Placed.node)
      = Repr.front cfg held loc :=
  flatMap_named h.blocks.nodup fun _ he => (Repr.mem_front he).1

/-- The front of a bucket and what stays are the held packets. -/
lemma Repr.perm_front {n : ℕ} {fb : FlowBundler} {held : List Placed} (h : Repr n fb held)
    (loc : Location) : held.Perm (Repr.front cfg held loc
      ++ without Placed.node held ((Repr.front cfg held loc).map Placed.node)) := by
  have hnd : held.Nodup := h.blocks.nodup.of_map
  refine perm_append_without h.blocks.nodup ?_ fun e he => (Repr.mem_front he).1
  exact (List.nodup_reverse.mpr (hnd.filter _)).sublist (List.take_sublist _ _)

/-- A `Dequeue` splits the held packets into those it takes and those that stay. -/
lemma perm_takenFrom {n : ℕ} {fb : FlowBundler} {held : List Placed} (h : Repr n fb held)
    {r : DequeueResult} (hrun : fb.dequeue cfg now garbage = some r) :
    held.Perm (World.takenFrom held r.taken ++ without Placed.node held r.taken) := by
  cases dequeue_cases h hrun with
  | hit t loc hdue hloc hfront htaken =>
      rw [htaken, takenFrom_front h]
      exact h.perm_front loc
  | empty hnil hfb htaken =>
      rw [htaken, without_eq_self (by simp)]
      rfl
  | miss t d hfb htaken =>
      rw [htaken, without_eq_self (by simp)]
      rfl

end Step

/-! ### The invariant of every run -/

namespace World

variable {cfg : Config} {w w' : World} {op : Op}

/-- The module represents what it holds, inside the calendar, and the scan granularity is at
most every occupied level. -/
structure Inv (cfg : Config) (w : World) : Prop where
  repr : Repr cfg.mempoolSize w.fb w.held
  qid_le : ∀ e ∈ w.held, w.fb.highestRateQid ≤ e.loc.queueId
  bucket_lt : ∀ e ∈ w.held, e.loc.bucketId < 2 ^ cfg.bucketNumScale

lemma findRealLocation_bucketId_lt (cfg : Config) (q t : ℕ) :
    (findRealLocation cfg q t).bucketId < 2 ^ cfg.bucketNumScale := by
  have hpos := Nat.two_pow_pos cfg.bucketNumScale
  refine lt_of_le_of_lt Nat.and_le_right ?_
  rw [bidMask, Nat.one_shiftLeft]
  omega

/-- The level of a new packet is at least its rate class. -/
lemma Places.class_le {pkt : Packet} {q s : ℕ} {e : Placed} (h : w.Places cfg pkt q s e)
    (hq : q ≤ 34) : q ≤ e.loc.queueId := by
  obtain ⟨hle, hle'⟩ := le_finalQueueId cfg hq (headFor w.fb q s) e.actual
  rw [← h.queueId] at hle hle'
  have hlev := le_findRealLocation cfg hle' e.actual
  rw [← h.loc] at hlev
  omega

lemma EnqueueStep.qid_le {pkt : Packet} {q s : ℕ} (h : w.EnqueueStep cfg pkt q s w')
    (hinv : w.Inv cfg) {e : Placed} (he : e ∈ w.held) :
    w'.fb.highestRateQid ≤ w.fb.highestRateQid := by
  have hne : w.fb.bitmap ≠ 0 := fun hz => by
    rw [hinv.repr.tally.bitmap_eq_zero_iff.mp hz] at he
    simp at he
  rw [h.highestRateQid, if_neg hne]
  exact min_le_right _ _

lemma EnqueueStep.qid_le_class {pkt : Packet} {q s : ℕ} (h : w.EnqueueStep cfg pkt q s w') :
    w'.fb.highestRateQid ≤ q := by
  rw [h.highestRateQid]
  split
  · exact le_rfl
  · exact min_le_left _ _

lemma Inv.start (cfg : Config) (now uuid : ℕ) (nodes : ℕ → HBPacketNode) (pktsNum : ℕ → ℕ)
    (flowToGen : CircularQueue) (flowInfo : ℕ → FlowInfo) :
    (start cfg now uuid nodes pktsNum flowToGen flowInfo).Inv cfg where
  repr := Repr.init cfg now uuid nodes pktsNum flowToGen flowInfo
  qid_le := by simp [World.start]
  bucket_lt := by simp [World.start]

/-- A round of `Enqueue` keeps the invariant. -/
lemma Inv.enqueue {pkt : Packet} {q s : ℕ} (h : w.Inv cfg)
    (hstep : w.EnqueueStep cfg pkt q s w') (hq : q ≤ 34) : w'.Inv cfg := by
  refine ⟨hstep.repr, ?_, ?_⟩ <;> intro x hx <;>
    rcases hstep.outcome with ⟨-, hheld, -⟩ | ⟨-, -, e, hplaces, hheld⟩ <;> rw [hheld] at hx
  · exact (hstep.qid_le h hx).trans (h.qid_le x hx)
  · rcases List.mem_append.mp hx with hx | hx
    · exact (hstep.qid_le h hx).trans (h.qid_le x hx)
    · obtain rfl : x = e := by simpa using hx
      exact hstep.qid_le_class.trans (hplaces.class_le hq)
  · exact h.bucket_lt x hx
  · rcases List.mem_append.mp hx with hx | hx
    · exact h.bucket_lt x hx
    · obtain rfl : x = e := by simpa using hx
      rw [hplaces.loc]
      exact findRealLocation_bucketId_lt cfg _ _

/-- A `Dequeue` keeps the invariant. -/
lemma Inv.dequeue {now garbage : ℕ} {r : DequeueResult} (h : w.Inv cfg)
    (hrun : w.fb.dequeue cfg now garbage = some r) :
    Repr cfg.mempoolSize r.fb (without Placed.node w.held r.taken) ∧
      ∀ e ∈ without Placed.node w.held r.taken, r.fb.highestRateQid ≤ e.loc.queueId := by
  cases dequeue_cases h.repr hrun with
  | empty hnil hfb htaken hbatch =>
      rw [htaken, without_eq_self (by simp), hfb]
      exact ⟨h.repr.congr rfl rfl rfl rfl rfl rfl, h.qid_le⟩
  | hit t loc hdue hloc hfront htaken hbatch hhead hrepr hqid hdrain =>
      exact ⟨hrepr, fun e he => hqid e he (h.qid_le e (mem_without.mp he).1)⟩
  | miss t d hfb htaken hbatch =>
      rw [htaken, without_eq_self (by simp), hfb]
      exact ⟨h.repr.congr rfl rfl rfl rfl rfl rfl, h.qid_le⟩

/-- One operation keeps the invariant. -/
lemma Inv.step (h : w.Inv cfg) (hstep : w.step cfg op = some w') : w'.Inv cfg := by
  cases op with
  | enqueue now pkt aggreRate hashId =>
      exact h.enqueue (step_enqueue h.repr hstep) (findQueueIndex_le cfg aggreRate)
  | dequeue now garbage =>
      obtain ⟨r, hrun, rfl⟩ := step_dequeue hstep
      obtain ⟨hrepr, hqid⟩ := h.dequeue hrun
      exact ⟨hrepr, hqid, fun e he => h.bucket_lt e (mem_without.mp he).1⟩

end World

/-- **Every reached world** satisfies the invariant. -/
theorem reach_inv {cfg : Config} {ok : World → Op → Prop} {w : World} (hw : Reach cfg ok w) :
    w.Inv cfg := by
  refine hw.invariant ?_ fun w w' op _ ih _ hstep => ih.step hstep
  rintro w ⟨now, uuid, nodes, pktsNum, flowToGen, flowInfo, rfl⟩
  exact .start cfg now uuid nodes pktsNum flowToGen flowInfo

/-! ### Bookkeeping -/

/-- What the lists, counters, bitmap and pool of a module say about each other. -/
structure FlowBundler.Accounts (cfg : Config) (fb : FlowBundler) : Prop where
  /-- A counter of a level is the sum of the node counts of its buckets. -/
  level_count : ∀ l, fb.nPackets l
    = ∑ i ∈ Finset.range (2 ^ cfg.bucketNumScale), (fb.mQueue l i).nodeNum
  /-- A node count is the length of the linked list from the head of its bucket. -/
  list_length : ∀ l i, ∃ chain, Chain fb.next (fb.mQueue l i).headNext chain ∧
    (fb.mQueue l i).nodeNum = chain.length
  total_count : fb.nPacketsTotal = ∑ l ∈ Finset.range queueNum, fb.nPackets l
  /-- The nodes that are not on the free list of the pool are as many as the packets. -/
  taken_count : ∃ free, fb.pool.Free cfg.mempoolSize free ∧ fb.pool.blockNum = free.length ∧
    (∀ x ∈ free, 0 < x ∧ x ≤ cfg.mempoolSize) ∧
    fb.nPacketsTotal = ((Finset.Icc 1 cfg.mempoolSize).filter (· ∉ free)).card
  bitmap_iff : ∀ l, fb.bitmap.testBit l = true ↔ 0 < fb.nPackets l
  qid_le : ∀ l, 0 < fb.nPackets l → fb.highestRateQid ≤ l
  /-- `Insert` fails exactly on an exhausted pool. -/
  insert_fails_iff : ∀ packet q s flowId hashId,
    (fb.insert cfg packet q s flowId hashId).ret = -1 ↔ fb.nPacketsTotal = cfg.mempoolSize

/-- The blocks that are not free are the nodes of the held packets. -/
lemma Blocks.taken_eq {n : ℕ} {held : List Placed} {free : List ℕ}
    (hperm : (held.map Placed.node ++ free).Perm (fullStack n)) :
    (Finset.Icc 1 n).filter (· ∉ free) = (held.map Placed.node).toFinset := by
  have hnd := hperm.nodup_iff.mpr (nodup_fullStack n)
  ext x
  rw [Finset.mem_filter, Finset.mem_Icc, List.mem_toFinset]
  have hmem : 0 < x ∧ x ≤ n ↔ x ∈ held.map Placed.node ∨ x ∈ free := by
    rw [← mem_fullStack, ← hperm.mem_iff, List.mem_append]
  constructor
  · rintro ⟨hx, hfree⟩
    exact (hmem.mp hx).resolve_right hfree
  · intro hx
    exact ⟨hmem.mpr (.inl hx), fun hf => (List.nodup_append.mp hnd).2.2 x hx x hf rfl⟩

/-- **Bookkeeping**: in every run of every configuration, the linked lists, the counters, the
bitmap and the pool agree. -/
theorem reach_accounts {cfg : Config} {ok : World → Op → Prop} {w : World}
    (hw : Reach cfg ok w) : w.fb.Accounts cfg := by
  have hinv := reach_inv hw
  have hrepr := hinv.repr
  have htotal : w.fb.nPacketsTotal = w.held.length := hrepr.tally.total_eq
  have hbucket : ∀ l i, w.fb.mQueue l i = w.fb.bucket ⟨l, i⟩ := fun _ _ => rfl
  constructor
  case level_count =>
    intro l
    rw [hrepr.tally.count_eq_sum hinv.bucket_lt l]
    refine Finset.sum_congr rfl fun i _ => ?_
    rw [hbucket, hrepr.buckets.node_num]
    refine congrArg List.length (List.filter_congr fun e _ => decide_eq_decide.mpr ?_)
    rw [Prod.mk.injEq, Location.ext_iff]
  case list_length =>
    intro l i
    refine ⟨_, hrepr.buckets.chain ⟨l, i⟩, ?_⟩
    rw [hbucket, hrepr.buckets.node_num, List.length_map, List.length_reverse]
  case total_count => exact hrepr.tally.total_eq_sum
  case taken_count =>
    obtain ⟨free, hfree, hnum, hperm⟩ := hrepr.blocks
    refine ⟨free, hfree, hnum, fun x hx => ?_, ?_⟩
    · exact mem_fullStack.mp (hperm.mem_iff.mp (List.mem_append_right _ hx))
    · rw [Blocks.taken_eq hperm, List.toFinset_card_of_nodup hrepr.blocks.nodup,
        List.length_map, htotal]
  case bitmap_iff => exact hrepr.tally.bits_iff
  case qid_le =>
    intro l hpos
    obtain ⟨e, he, rfl⟩ := hrepr.tally.pos_iff.mp hpos
    exact hinv.qid_le e he
  case insert_fails_iff =>
    intro packet q s flowId hashId
    rw [htotal]
    by_cases hfull : w.held.length = cfg.mempoolSize
    · exact iff_of_true (hrepr.insert_full hfull cfg packet q s flowId hashId).1 hfull
    · obtain ⟨x, hret, -⟩ := hrepr.insert_room hfull cfg packet q s flowId hashId
      refine iff_of_false (fun hc => ?_) hfull
      rw [hret] at hc
      exact absurd hc (by decide)

/-- A pool of two nodes: of three packets the third is refused, the first bulk removal takes
one packet of two, and the books agree. -/
theorem reach_accounts_run :
    ∃ (cfg : Config) (w : World), Reach cfg (fun w op => w.Admits op) w ∧
      w.fb.nPacketsTotal = 1 ∧ w.count = 2 ∧ w.sent.length = 1 ∧ w.fb.Accounts cfg := by
  set cfg : Config := { bucketNumScale := 10, minGranScale := 4, dequeueBurst := 1
                        mempoolSize := 2, maxBytesPerFlow := 3000 }
  obtain ⟨w, hw, htotal, hcount, hsent⟩ := exists_reach cfg 100000000 (fun w op => w.Admits op)
    [.enqueue 0 (packetOf 1 100) 20000000 0, .enqueue 0 (packetOf 1 101) 20000000 0,
      .enqueue 0 (packetOf 2 102) 20000000 0, .dequeue 600 77]
    (fun w => w.fb.nPacketsTotal = 1 ∧ w.count = 2 ∧ w.sent.length = 1) (by decide +kernel)
  exact ⟨cfg, w, hw, htotal, hcount, hsent, reach_accounts hw⟩

end Bess
