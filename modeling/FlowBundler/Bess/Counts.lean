import FlowBundler.Bess.Carousel.Wheel
import FlowBundler.Bess.Eiffel.Marked

/-!
`packets_num` of Eiffel and Carousel, and the packets in their buckets.

* `nodesIn slots queue`: the node counts of the buckets of a queue, summed up.
* `SlotOp`: a task, or a command; `Eiffel.taskStep`, `Carousel.taskStep`: the runs of the module.
* `leaving`: how many packets a call of `Dequeue` finds due; `Uncounted`: a task sends packets
  that it does not take off the count.
* `Counting`: the buckets are in order; `Eiffel.Counting.runTask_iff`,
  `Carousel.Counting.runTask_iff`: a task keeps the count right exactly when it does not send
  uncounted packets.
* `packetsNum_eq_queued`, `packetsNum_ne_queued`: the count in runs of tasks.

A round of `Enqueue` adds the packet that it stores to both numbers, and a call of `Dequeue` takes
packets out of the buckets and counts nothing; the counting is left to the task, which takes off
what the port has accepted.  So a task keeps the numbers equal exactly when it takes off as many as
left the buckets, which the two modules do on different conditions: Eiffel when the port is up,
Carousel when the port is up and has accepted all of them.
-/

namespace Bess

/-! ### Sums over buckets -/

/-- The packets in the buckets of a queue. -/
def nodesIn (slots : ℕ) (queue : ℕ → ListBucket) : ℕ :=
  ∑ i ∈ Finset.range slots, (queue i).nodeNum

/-- One bucket changes. -/
lemma nodesIn_update {slots i : ℕ} (hi : i < slots) (queue : ℕ → ListBucket) (b : ListBucket) :
    nodesIn slots (Function.update queue i b) + (queue i).nodeNum
      = nodesIn slots queue + b.nodeNum := by
  have hmem : i ∈ Finset.range slots := Finset.mem_range.mpr hi
  have hrest : ∑ j ∈ (Finset.range slots).erase i, (Function.update queue i b j).nodeNum
      = ∑ j ∈ (Finset.range slots).erase i, (queue j).nodeNum :=
    Finset.sum_congr rfl fun j hj => by rw [Function.update_of_ne (Finset.ne_of_mem_erase hj)]
  have hnew := Finset.add_sum_erase _ (fun j => (Function.update queue i b j).nodeNum) hmem
  have hold := Finset.add_sum_erase _ (fun j => (queue j).nodeNum) hmem
  simp only [Function.update_self] at hnew
  rw [nodesIn, nodesIn]
  omega

/-- A step of a run. -/
inductive SlotOp where
  | runTask (env : SlotEnv)
  /-- A command: it may set anything but buckets, pool, time stamps and the packet count. -/
  | command (maxDequeueBurst : ℤ) (flowInfo : ℕ → FlowInfo) (pktgen : PacketGenerator)
      (pktsNum : ℕ → ℕ) (flowToGen : CircularQueue)

/-! ### Eiffel -/

namespace Eiffel

variable {cfg : SlotConfig} {e : Eiffel} {now : ℕ}

/-- The packets in all buckets. -/
def queued (cfg : SlotConfig) (e : Eiffel) : ℕ :=
  nodesIn cfg.slots e.mainQueue + nodesIn cfg.slots e.bufferQueue

/-- How many packets `Dequeue` finds due in the bucket that `ffs` names. -/
def leaving (cfg : SlotConfig) (e : Eiffel) (now : ℕ) : ℕ :=
  match e.ffs with
  | none => 0
  | some (i, queueId) =>
      let q := if queueId = 1 then .buffer else .main
      if e.bucketTs cfg q i > now then 0 else e.takenNum q i

/-- The task sends packets that it does not take off the count: the port is down. -/
def Uncounted (cfg : SlotConfig) (e : Eiffel) (env : SlotEnv) : Prop :=
  env.childrenOverload = 0 ∧ ∃ batch ∈ env.generated e.store.flowToGen e.pktgen,
    (e.enqueue cfg batch).leaving cfg env.dequeueNow ≠ 0 ∧ env.adminUp = false

instance (env : SlotEnv) : Decidable (e.Uncounted cfg env) :=
  inferInstanceAs (Decidable (_ ∧ _))

def taskStep (cfg : SlotConfig) (e : Eiffel) : SlotOp → Option Eiffel
  | .runTask env => some (e.runTask cfg env)
  | .command maxDequeueBurst flowInfo pktgen pktsNum flowToGen =>
      some { e with
        maxDequeueBurst := maxDequeueBurst, flowInfo := flowInfo, pktgen := pktgen
        store := { e.store with pktsNum := pktsNum, flowToGen := flowToGen } }

/-- No task sends uncounted packets. -/
def Counts (cfg : SlotConfig) (e : Eiffel) : SlotOp → Prop
  | .runTask env => ¬ e.Uncounted cfg env
  | .command .. => True

/-- The bitmaps and the node counts are in order. -/
def Counting (cfg : SlotConfig) (e : Eiffel) : Prop := ∃ S, Marked cfg e S

/-- A bucket of a queue changes. -/
lemma queued_update {e' : Eiffel} {q : QueueId} {i : ℕ} {b : ListBucket} (hi : i < cfg.slots)
    (hqueue : e'.queueOf = Function.update e.queueOf q (Function.update (e.queueOf q) i b)) :
    e'.queued cfg + (e.queueOf q i).nodeNum = e.queued cfg + b.nodeNum := by
  have hsum := nodesIn_update hi (e.queueOf q) b
  have hmain : e'.mainQueue = _ := congrFun hqueue .main
  have hbuffer : e'.bufferQueue = _ := congrFun hqueue .buffer
  cases q with
  | main =>
      rw [Function.update_self] at hmain
      rw [Function.update_of_ne (by simp)] at hbuffer
      have hold : e.queueOf .main = e.mainQueue := rfl
      have hother : e.bufferQueue = e.queueOf .buffer := rfl
      rw [queued, queued, hmain, hbuffer, hother]
      rw [hold] at hsum ⊢
      omega
  | buffer =>
      rw [Function.update_self] at hbuffer
      rw [Function.update_of_ne (by simp)] at hmain
      have hold : e.queueOf .buffer = e.bufferQueue := rfl
      have hother : e.mainQueue = e.queueOf .main := rfl
      rw [queued, queued, hmain, hbuffer, hother]
      rw [hold] at hsum ⊢
      omega

lemma queued_congr {e' : Eiffel} (hqueue : e'.queueOf = e.queueOf) :
    e'.queued cfg = e.queued cfg := by
  have hmain : e'.mainQueue = e.mainQueue := congrFun hqueue .main
  have hbuffer : e'.bufferQueue = e.bufferQueue := congrFun hqueue .buffer
  rw [queued, queued, hmain, hbuffer]

/-- A round counts the packet that it accepts. -/
lemma enqueueOne_num (cfg : SlotConfig) (e : Eiffel) (p : ℕ × Packet) :
    (e.enqueueOne cfg p).eiffel.packetsNum
      = if (e.enqueueOne cfg p).ret < 0 then e.packetsNum else e.packetsNum + 1 := by
  obtain ⟨_, _, _, _, _, _, hframe⟩ := e.enqueueOne_frame cfg p
  exact congrArg packetsNum hframe

namespace Counting

/-- **A round of `Enqueue`** keeps the distance of count and packets. -/
lemma enqueueOne (h : Counting cfg e) (p : ℕ × Packet) :
    Counting cfg (e.enqueueOne cfg p).eiffel ∧
      (e.enqueueOne cfg p).eiffel.packetsNum + e.queued cfg
        = e.packetsNum + (e.enqueueOne cfg p).eiffel.queued cfg := by
  obtain ⟨S, hmark⟩ := h
  have hout := enqueueOne_outcome cfg e p
  refine ⟨⟨_, hmark.round hout⟩, ?_⟩
  rw [enqueueOne_num]
  cases hout with
  | refused _ hret hsame => rw [if_pos hret, queued_congr hsame.queue]
  | exhausted _ _ _ hret _ hqueue _ _ => rw [if_pos hret, queued_congr hqueue]
  | stored q i ht hret _ hqueue _ _ _ =>
      have hsum := queued_update (Marked.lt_slots (hmark.target_within ht)) hqueue
      rw [if_neg (by omega)]
      dsimp only at hsum
      omega

lemma enqueue {batch : List (ℕ × Packet)} : ∀ {e : Eiffel}, Counting cfg e →
    Counting cfg (e.enqueue cfg batch) ∧ (e.enqueue cfg batch).packetsNum + e.queued cfg
      = e.packetsNum + (e.enqueue cfg batch).queued cfg := by
  induction batch with
  | nil => exact fun h => ⟨h, rfl⟩
  | cons p batch ih =>
      intro e h
      obtain ⟨hone, hnum⟩ := h.enqueueOne p
      obtain ⟨hrest, hsum⟩ := ih hone
      refine ⟨hrest, ?_⟩
      change (Eiffel.enqueue cfg (e.enqueueOne cfg p).eiffel batch).packetsNum + _
        = _ + (Eiffel.enqueue cfg (e.enqueueOne cfg p).eiffel batch).queued cfg
      omega

/-- **A call of `Dequeue`** takes the packets that are due, and does not count. -/
lemma dequeue (h : Counting cfg e) (now : ℕ) :
    Counting cfg (e.dequeue cfg now).eiffel ∧
      (e.dequeue cfg now).taken.length = e.leaving cfg now ∧
      (e.dequeue cfg now).eiffel.packetsNum = e.packetsNum ∧
      (e.dequeue cfg now).eiffel.queued cfg + e.leaving cfg now = e.queued cfg := by
  obtain ⟨S, hmark⟩ := h
  have hfront : ∀ q, (e.front cfg q).queued cfg = e.queued cfg := by
    intro q
    cases q with
    | main => rfl
    | buffer => exact Nat.add_comm _ _
  have hid : ∀ q : QueueId, (if q.num = 1 then .buffer else .main) = q := by
    intro q
    cases q <;> rfl
  cases dequeue_cases cfg e now with
  | reset hffs hr =>
      rw [hr, leaving, hffs]
      exact ⟨⟨S, hmark.reset now⟩, rfl, rfl, rfl⟩
  | early q i hffs hearly hr =>
      rw [hr, leaving, hffs]
      dsimp only
      rw [hid, if_pos hearly]
      exact ⟨⟨_, hmark.front q⟩, rfl, front_packetsNum cfg e q, hfront q⟩
  | served q i hffs hdue hr =>
      obtain ⟨hi, hmark', hserve⟩ := hmark.served hffs
      obtain ⟨b, hnodes, hcount, hqueue⟩ := hserve.queue
      have hlt : i < cfg.slots := (hmark.marks q).lt i hi
      have hsum := queued_update hlt hqueue
      have htaken : (e.front cfg q).takenNum .main i = e.takenNum q i := by
        rw [takenNum, takenNum, front_queueOf, front_maxDequeueBurst, frontOf_main]
      have hle : e.takenNum q i ≤ (e.queueOf q i).nodes.length := min_le_right _ _
      rw [hr, leaving, hffs]
      dsimp only
      rw [hid, if_neg (not_lt.mpr hdue)]
      refine ⟨⟨_, hmark'.service hi hserve⟩, ?_, ?_, ?_⟩
      · rw [hserve.length_taken, htaken]
      · rw [hserve.num, front_packetsNum]
      · rw [hfront, front_queueOf, frontOf_main, hmark.counted q i, hcount, hnodes,
          List.length_drop, htaken, front_queueOf, frontOf_main] at hsum
        omega

/-- **A task** keeps a right count exactly when it does not send uncounted packets. -/
lemma runTask_iff (h : Counting cfg e) (hnum : e.packetsNum = e.queued cfg) (env : SlotEnv) :
    Counting cfg (e.runTask cfg env) ∧
      ((e.runTask cfg env).packetsNum = (e.runTask cfg env).queued cfg ↔
        ¬ e.Uncounted cfg env) := by
  rcases e.runTask_cases cfg env with ⟨hsame, hnone⟩ | ⟨batch, hover, hgen⟩
  · rw [hsame]
    refine ⟨h, iff_of_true hnum fun hun => ?_⟩
    obtain ⟨hover, batch, hbatch, -⟩ := hun
    rcases hnone with hpos | hgen
    · omega
    · simp [hgen] at hbatch
  · obtain ⟨henq, hsum⟩ := @enqueue cfg batch e h
    obtain ⟨hdeq, hlen, hsame, hleft⟩ := henq.dequeue env.dequeueNow
    have hun : e.Uncounted cfg env ↔
        (e.enqueue cfg batch).leaving cfg env.dequeueNow ≠ 0 ∧ env.adminUp = false := by
      rw [Uncounted, hgen]
      simp [hover]
    have hqueue := @queued_congr cfg _ _ (runTask_same cfg hover hgen).queue
    obtain ⟨S, hmark⟩ := hdeq
    refine ⟨⟨S, hmark.congr (runTask_same cfg hover hgen)⟩, ?_⟩
    rw [hun, hqueue, runTask_of_generated cfg hover hgen]
    dsimp only
    rw [hlen]
    cases hup : env.adminUp with
    | true =>
        rw [if_pos rfl]
        exact iff_of_true (by omega) fun hboth => by simp at hboth
    | false =>
        -- the packets are gone, and the count has stayed
        rw [if_neg (by simp), Nat.sub_zero]
        simp only [and_true]
        omega

/-- A step that does not send uncounted packets keeps a right count. -/
lemma step {e' : Eiffel} {op : SlotOp} (h : Counting cfg e) (hnum : e.packetsNum = e.queued cfg)
    (hok : e.Counts cfg op) (hstep : e.taskStep cfg op = some e') :
    Counting cfg e' ∧ e'.packetsNum = e'.queued cfg := by
  cases op with
  | runTask env =>
      obtain rfl := Option.some.inj hstep
      obtain ⟨hcount, hiff⟩ := h.runTask_iff hnum env
      exact ⟨hcount, hiff.mpr hok⟩
  | command =>
      obtain rfl := Option.some.inj hstep
      obtain ⟨S, hmark⟩ := h
      refine ⟨⟨S, hmark.congr ⟨?_, ?_, ?_⟩⟩, hnum⟩
      all_goals funext q; cases q <;> rfl

end Counting

end Eiffel

/-! ### Carousel -/

namespace Carousel

variable {cfg : SlotConfig} {c : Carousel} {now : ℕ} {w w' : World}

/-- The packets in all buckets. -/
def queued (cfg : SlotConfig) (c : Carousel) : ℕ := nodesIn cfg.slots c.queue

/-- How many packets `Dequeue` finds due in the first bucket of its scan that has some. -/
def leaving (cfg : SlotConfig) (c : Carousel) (now : ℕ) : ℕ :=
  if c.maxDequeueBurst ≤ 0 then 0
  else
    match Loop.whileDue (now / cfg.granularity) 1 (c.occupied cfg) (2 ^ 64) c.headerTs with
    | some (.inl (_, t)) => (c.queue (t % cfg.slots)).bulkNum c.maxDequeueBurst
    | _ => 0

/-- The task sends packets that it does not take off the count: the port is down, or does not
accept all of them. -/
def Uncounted (cfg : SlotConfig) (w : World) (env : SlotEnv) : Prop :=
  env.childrenOverload = 0 ∧ ∃ batch ∈ w.generated env,
    (w.enqueue cfg batch).carousel.leaving cfg env.dequeueNow ≠ 0 ∧
      (env.adminUp = false ∨
        env.accepts < (w.enqueue cfg batch).carousel.leaving cfg env.dequeueNow)

instance (w : World) (env : SlotEnv) : Decidable (Uncounted cfg w env) :=
  inferInstanceAs (Decidable (_ ∧ _))

def taskStep (cfg : SlotConfig) (w : World) : SlotOp → Option World
  | .runTask env => w.runTask cfg env
  | .command maxDequeueBurst flowInfo pktgen pktsNum flowToGen =>
      some { w with carousel := { w.carousel with
        maxDequeueBurst := maxDequeueBurst, flowInfo := flowInfo, pktgen := pktgen
        store := { w.carousel.store with pktsNum := pktsNum, flowToGen := flowToGen } } }

/-- No task sends uncounted packets. -/
def Counts (cfg : SlotConfig) (w : World) : SlotOp → Prop
  | .runTask env => ¬ Uncounted cfg w env
  | .command .. => True

/-- The node counts are in order. -/
def Counting (c : Carousel) : Prop := ∀ i, (c.queue i).Counted

namespace Counting

/-- **A round of `Enqueue`** keeps the distance of count and packets. -/
lemma enqueueOne (h : Counting c) (now : ℕ) (pkt : Packet) :
    Counting (c.enqueueOne cfg now pkt).carousel ∧
      (c.enqueueOne cfg now pkt).carousel.packetsNum + c.queued cfg
        = c.packetsNum + (c.enqueueOne cfg now pkt).carousel.queued cfg := by
  rcases enqueueOne_spec cfg c now pkt with ⟨-, hsame⟩ | ⟨r, store, hins, -, -, -, hc⟩
  · rw [hsame]
    exact ⟨h, rfl⟩
  · have hqueue : (c.enqueueOne cfg now pkt).carousel.queue = Function.update c.queue
        (r.grn % cfg.slots) { nodes := { packet := pkt, flowId := pkt.src } ::
          (c.queue (r.grn % cfg.slots)).nodes
                              nodeNum := (c.queue (r.grn % cfg.slots)).nodeNum + 1 } := by
      rw [hc, hins.carousel]
      rfl
    have hnum : (c.enqueueOne cfg now pkt).carousel.packetsNum = c.packetsNum + 1 := by
      rw [hc, hins.carousel]
      rfl
    have hsum := nodesIn_update (Nat.mod_lt r.grn cfg.slots_pos) c.queue
      { nodes := { packet := pkt, flowId := pkt.src } :: (c.queue (r.grn % cfg.slots)).nodes
        nodeNum := (c.queue (r.grn % cfg.slots)).nodeNum + 1 }
    refine ⟨?_, ?_⟩
    · rw [Counting, hqueue]
      refine (Function.forall_update_iff c.queue fun _ b => b.Counted).mpr ⟨?_, fun i _ => h i⟩
      exact congrArg (· + 1) (h _)
    · rw [hnum, queued, queued, hqueue]
      dsimp only at hsum
      omega

lemma enqueue {batch : List (ℕ × Packet)} : ∀ {w : World}, Counting w.carousel →
    Counting (w.enqueue cfg batch).carousel ∧
      (w.enqueue cfg batch).carousel.packetsNum + w.carousel.queued cfg
        = w.carousel.packetsNum + (w.enqueue cfg batch).carousel.queued cfg := by
  induction batch with
  | nil => exact fun h => ⟨h, rfl⟩
  | cons p batch ih =>
      intro w h
      obtain ⟨hone, hnum⟩ := @enqueueOne cfg _ h p.1 p.2
      obtain ⟨hrest, hsum⟩ := @ih (w.enqueueOne cfg p) hone
      refine ⟨hrest, ?_⟩
      change ((w.enqueueOne cfg p).enqueue cfg batch).carousel.packetsNum + _
        = _ + ((w.enqueueOne cfg p).enqueue cfg batch).carousel.queued cfg
      have hone' : (w.enqueueOne cfg p).carousel = (w.carousel.enqueueOne cfg p.1 p.2).carousel :=
        rfl
      rw [hone'] at hsum
      omega

/-- **A call of `Dequeue`** takes the packets that are due, and does not count. -/
lemma dequeue {r : DequeueResult} (h : Counting c) (hr : c.dequeue cfg now = some r) :
    Counting r.carousel ∧ r.taken.length = c.leaving cfg now ∧
      r.carousel.packetsNum = c.packetsNum ∧
      r.carousel.queued cfg + c.leaving cfg now = c.queued cfg := by
  rw [leaving]
  cases dequeue_returned cfg hr with
  | idle hquota hr =>
      rw [if_pos hquota, hr]
      exact ⟨h, rfl, rfl, rfl⟩
  | passed t hquota hscan hr =>
      rw [if_neg (not_le.mpr hquota), hscan, hr]
      exact ⟨h, rfl, rfl, rfl⟩
  | served t b hquota hscan hb hr =>
      obtain ⟨htaken, -, hnodes, hcount⟩ := ListBucket.dequeuePacketBulk_spec
        cfg.maxBytesPerFlow c.store (h (t % cfg.slots)) c.maxDequeueBurst
      rw [hb] at htaken hnodes hcount
      have hle : (c.queue (t % cfg.slots)).bulkNum c.maxDequeueBurst
          ≤ (c.queue (t % cfg.slots)).nodes.length := min_le_right _ _
      have hsum := nodesIn_update (Nat.mod_lt t cfg.slots_pos) c.queue b.bucket
      rw [if_neg (not_le.mpr hquota), hscan, hr]
      dsimp only
      refine ⟨?_, ?_, rfl, ?_⟩
      · rw [Counting]
        exact (Function.forall_update_iff c.queue fun _ b => b.Counted).mpr
          ⟨hcount, fun i _ => h i⟩
      · rw [htaken, List.length_take]
        exact min_eq_left hle
      · rw [h (t % cfg.slots), hcount, hnodes, List.length_drop] at hsum
        rw [queued, queued]
        dsimp only
        omega

/-- **A task** keeps a right count exactly when it does not send uncounted packets. -/
lemma runTask_iff (h : Counting w.carousel)
    (hnum : w.carousel.packetsNum = w.carousel.queued cfg) {env : SlotEnv}
    (hrun : w.runTask cfg env = some w') :
    Counting w'.carousel ∧ (w'.carousel.packetsNum = w'.carousel.queued cfg ↔
      ¬ Uncounted cfg w env) := by
  rcases World.runTask_cases cfg hrun with ⟨rfl, hnone⟩ | ⟨batch, w₁, cnt, hover, hgen, hdeq, rfl⟩
  · refine ⟨h, iff_of_true hnum fun hun => ?_⟩
    obtain ⟨hover, batch, hbatch, -⟩ := hun
    rcases hnone with hpos | hgen
    · omega
    · simp [hgen] at hbatch
  · obtain ⟨r, hr, heq⟩ := Option.map_eq_some_iff.mp hdeq
    obtain ⟨rfl, rfl⟩ := Prod.mk.inj heq
    obtain ⟨henq, hsum⟩ := @enqueue cfg batch w h
    obtain ⟨hcount, hlen, hsame, hleft⟩ := henq.dequeue hr
    have hun : Uncounted cfg w env ↔
        (w.enqueue cfg batch).carousel.leaving cfg env.dequeueNow ≠ 0 ∧
          (env.adminUp = false ∨
            env.accepts < (w.enqueue cfg batch).carousel.leaving cfg env.dequeueNow) := by
      rw [Uncounted, hgen]
      simp [hover]
    rw [hun, World.sendPackets, hlen]
    cases hup : env.adminUp with
    | true =>
        rw [if_pos rfl]
        refine ⟨hcount, ?_⟩
        change r.carousel.packetsNum - _ = r.carousel.queued cfg ↔ _
        simp only [Bool.true_eq_false, false_or]
        omega
    | false =>
        rw [if_neg (by simp)]
        refine ⟨hcount, ?_⟩
        change r.carousel.packetsNum = r.carousel.queued cfg ↔ _
        simp only [true_or, and_true]
        omega

lemma step {op : SlotOp} (h : Counting w.carousel)
    (hnum : w.carousel.packetsNum = w.carousel.queued cfg) (hok : Counts cfg w op)
    (hstep : taskStep cfg w op = some w') :
    Counting w'.carousel ∧ w'.carousel.packetsNum = w'.carousel.queued cfg := by
  cases op with
  | runTask env =>
      obtain ⟨hcount, hiff⟩ := h.runTask_iff hnum hstep
      exact ⟨hcount, hiff.mpr hok⟩
  | command =>
      obtain rfl := Option.some.inj hstep
      exact ⟨h, hnum⟩

end Counting

end Carousel

/-! ### Runs -/

/-- The runs of Eiffel, in tasks and commands. -/
abbrev Eiffel.TaskRun (cfg : SlotConfig) (ok : Eiffel → SlotOp → Prop) : Eiffel → Prop :=
  Machine.Reach (Eiffel.taskStep cfg) (Eiffel.Initial cfg) ok

/-- The runs of Carousel, in tasks and commands. -/
abbrev Carousel.TaskRun (cfg : SlotConfig) (ok : Carousel.World → SlotOp → Prop) :
    Carousel.World → Prop :=
  Machine.Reach (Carousel.taskStep cfg) (Carousel.World.Initial cfg) ok

/-- The packets of a new queue. -/
lemma nodesIn_empty (slots : ℕ) : nodesIn slots (fun _ => ListBucket.empty) = 0 :=
  Finset.sum_eq_zero fun _ _ => rfl

/-- **`packets_num` is the number of queued packets** in every run of Eiffel and of Carousel whose
tasks do not send uncounted packets; a task after such a run keeps that exactly when it does
not. -/
theorem packetsNum_eq_queued (cfg : SlotConfig) :
    (∀ e, Eiffel.TaskRun cfg (Eiffel.Counts cfg) e → e.packetsNum = e.queued cfg ∧
        ∀ env, (e.runTask cfg env).packetsNum = (e.runTask cfg env).queued cfg ↔
          ¬ e.Uncounted cfg env) ∧
      ∀ w, Carousel.TaskRun cfg (Carousel.Counts cfg) w →
        w.carousel.packetsNum = w.carousel.queued cfg ∧
          ∀ env w', w.runTask cfg env = some w' →
            (w'.carousel.packetsNum = w'.carousel.queued cfg ↔
              ¬ Carousel.Uncounted cfg w env) := by
  refine ⟨fun e he => ?_, fun w hw => ?_⟩
  · obtain ⟨hcount, hnum⟩ : Eiffel.Counting cfg e ∧ e.packetsNum = e.queued cfg := by
      induction he with
      | @start e hinit =>
          refine ⟨⟨_, Eiffel.init_marked hinit⟩, ?_⟩
          obtain ⟨now, pktsNum, flowToGen, flowInfo, pktgen, hinit⟩ := hinit
          rw [Eiffel.init, Option.map_eq_some_iff] at hinit
          obtain ⟨map, -, rfl⟩ := hinit
          rw [Eiffel.queued]
          dsimp only
          rw [nodesIn_empty]
      | step _ hok hstep ih => exact ih.1.step ih.2 hok hstep
    exact ⟨hnum, fun env => (hcount.runTask_iff hnum env).2⟩
  · obtain ⟨hcount, hnum⟩ : Carousel.Counting w.carousel ∧
        w.carousel.packetsNum = w.carousel.queued cfg := by
      induction hw with
      | @start w hinit =>
          obtain ⟨now, pktsNum, flowToGen, flowInfo, pktgen, -, rfl⟩ := hinit
          exact ⟨fun _ => rfl, (nodesIn_empty cfg.slots).symm⟩
      | step _ hok hstep ih => exact ih.1.step ih.2 hok hstep
    exact ⟨hnum, fun env w' hrun => (hcount.runTask_iff hnum hrun).2⟩

/-! ### Concrete runs -/

/-- A queue with one token, of flow `0`. -/
def oneToken : CircularQueue := (noTokens.push 0).2

/-- A task at clock `now` that generates a packet of flow `0` when the module has a token. -/
def busyTask (now accepts : ℕ) (adminUp : Bool) : SlotEnv :=
  { quietTask now accepts with hbFlowToGen := oneToken, adminUp := adminUp }

/-- A command that sets the burst, and flows of `10^9` Kbit/s. -/
def setup (tokens : CircularQueue) : SlotOp :=
  .command 1 (fun _ => { lastStamp := 0, rate := 1000000000 }) blankGenerator (fun _ => 0) tokens

instance (e : Eiffel) : (op : SlotOp) → Decidable (e.Counts smallSlots op)
  | .runTask env => inferInstanceAs (Decidable (¬ e.Uncounted smallSlots env))
  | .command .. => inferInstanceAs (Decidable True)

instance (w : Carousel.World) : (op : SlotOp) → Decidable (Carousel.Counts smallSlots w op)
  | .runTask env => inferInstanceAs (Decidable (¬ Carousel.Uncounted smallSlots w env))
  | .command .. => inferInstanceAs (Decidable True)

/-- One packet is left of two in each module; the port was down as long as nothing was due, and
accepted the other one. -/
theorem packetsNum_eq_queued_run :
    (∃ e, Eiffel.TaskRun smallSlots (Eiffel.Counts smallSlots) e ∧ e.packetsNum = 1 ∧
        e.packetsNum = e.queued smallSlots) ∧
      ∃ w, Carousel.TaskRun smallSlots (Carousel.Counts smallSlots) w ∧
        w.carousel.packetsNum = 1 ∧ w.carousel.packetsNum = w.carousel.queued smallSlots := by
  obtain ⟨heiffel, hcarousel⟩ := packetsNum_eq_queued smallSlots
  obtain ⟨e, he, hnum⟩ := @Machine.exists_reach _ _ (Eiffel.taskStep smallSlots)
    (Eiffel.Initial smallSlots) (Eiffel.Counts smallSlots) (Eiffel.startAt 1000000000) _
    ⟨0, _, _, _, _, (Option.some_get _).symm⟩
    [setup oneToken, .runTask (busyTask 0 0 false), .runTask (busyTask 20 1 true)]
    (fun e => e.packetsNum = 1) _ (by decide +kernel)
  obtain ⟨w, hw, hnum'⟩ := @Machine.exists_reach _ _ (Carousel.taskStep smallSlots)
    (Carousel.World.Initial smallSlots) (Carousel.Counts smallSlots)
    (Carousel.startAt smallSlots 1000000000) _ ⟨0, _, _, _, _, by norm_num, rfl⟩
    [setup oneToken, .runTask (busyTask 0 0 false), .runTask (busyTask 20 1 true)]
    (fun w => w.carousel.packetsNum = 1) _ (by decide +kernel)
  exact ⟨⟨e, he, hnum, (heiffel e he).1⟩, ⟨w, hw, hnum', (hcarousel w hw).1⟩⟩

/-- Two tasks with a packet each: in Eiffel the port is down when the first packet leaves; in
Carousel it is up and accepts none.  Both modules go on counting two packets, and hold one. -/
theorem packetsNum_ne_queued :
    (∃ e, Eiffel.TaskRun smallSlots (fun _ _ => True) e ∧ e.packetsNum = 2 ∧
        e.queued smallSlots = 1) ∧
      ∃ w, Carousel.TaskRun smallSlots (fun _ _ => True) w ∧ w.carousel.packetsNum = 2 ∧
        w.carousel.queued smallSlots = 1 := by
  refine ⟨?_, ?_⟩
  · exact @Machine.exists_reach _ _ (Eiffel.taskStep smallSlots)
      (Eiffel.Initial smallSlots) (fun _ _ => True) (Eiffel.startAt 1000000000) _
      ⟨0, _, _, _, _, (Option.some_get _).symm⟩
      [setup oneToken, .runTask (busyTask 0 0 true), .runTask (busyTask 20 1 false)]
      (fun e => e.packetsNum = 2 ∧ e.queued smallSlots = 1) _ (by decide +kernel)
  · exact @Machine.exists_reach _ _ (Carousel.taskStep smallSlots)
      (Carousel.World.Initial smallSlots) (fun _ _ => True)
      (Carousel.startAt smallSlots 1000000000) _ ⟨0, _, _, _, _, by norm_num, rfl⟩
      [setup oneToken, .runTask (busyTask 0 0 true), .runTask (busyTask 20 0 true)]
      (fun w => w.carousel.packetsNum = 2 ∧ w.carousel.queued smallSlots = 1) _
      (by decide +kernel)

end Bess
