import FlowBundler.Bess.Eiffel.BitMap

/-!
What `Enqueue` and `Dequeue` of Eiffel do to the two queues.

* `QueueId`: the main queue and the buffer queue; `queueOf`, `mapOf`, `tsOf`: their buckets, bitmap
  and base time; `bucketTs`: the start time of a bucket.
* `target`, `leftTime`: the bucket that `DropPacketInsert` selects, and the send time it leaves.
* `Outcome`, `enqueueOne_outcome`: a round of `Enqueue` refuses the packet, fails with the bit
  set, or stores the packet.
* `front`, `frontOf`: the module with a queue brought to the front; `Dequeued`, `dequeue_cases`:
  `Dequeue` resets the base times, comes too early, or serves the bucket that `ffs` found.
* `Stepped`, `step_cases`: what one operation does to the module.

The two queues are treated alike, by a `QueueId`; a rotation is then the exchange of what belongs to
the two, and `front` brings the queue that `ffs` named to the front, with or without a rotation.  So
each later invariant has three steps to be kept: a round of `Enqueue`, a change of the base times
or of the front, and the service of one bucket of the main queue.
-/

namespace Bess

namespace Eiffel

/-! ### The two queues -/

inductive QueueId where
  | main
  | buffer
  deriving DecidableEq

/-- The other queue. -/
def QueueId.other : QueueId → QueueId
  | main => buffer
  | buffer => main

def queueOf (e : Eiffel) : QueueId → ℕ → ListBucket
  | .main => e.mainQueue
  | .buffer => e.bufferQueue

def mapOf (e : Eiffel) : QueueId → BitMap
  | .main => e.mainMap
  | .buffer => e.bufferMap

def tsOf (e : Eiffel) : QueueId → ℕ
  | .main => e.mainTs
  | .buffer => e.bufferTs

variable (cfg : SlotConfig)

/-- The start time of bucket `i`, as `Dequeue` computes it. -/
def bucketTs (e : Eiffel) (q : QueueId) (i : ℕ) : ℕ := (i * cfg.granularity + e.tsOf q) % 2 ^ 64

/-- What a call leaves alone. -/
structure SameQueues (e e' : Eiffel) : Prop where
  queue : e'.queueOf = e.queueOf
  map : e'.mapOf = e.mapOf
  ts : e'.tsOf = e.tsOf

/-- One bucket of one queue changes. -/
lemma update_bucket_self {α : Type*} (x : QueueId → ℕ → α) (q : QueueId) (i : ℕ) (b : α) :
    Function.update x q (Function.update (x q) i b) q i = b := by
  rw [Function.update_self, Function.update_self]

lemma update_bucket_of_ne {α : Type*} {q q' : QueueId} {i j : ℕ} (h : ¬ (q' = q ∧ j = i))
    (x : QueueId → ℕ → α) (b : α) :
    Function.update x q (Function.update (x q) i b) q' j = x q' j := by
  by_cases hq : q' = q
  · subst hq
    rw [Function.update_self, Function.update_of_ne fun hj => h ⟨rfl, hj⟩]
  · rw [Function.update_of_ne hq]

/-! ### Enqueue -/

/-- The bucket that `DropPacketInsert` selects, unless the send time is beyond both horizons. -/
def target (e : Eiffel) (sendTime : ℕ) : Option (QueueId × ℕ) :=
  if sendTime < e.bufferTs then
    if sendTime < e.mainTs then some (.main, 0)
    else some (.main, (sendTime - e.mainTs) / cfg.granularity)
  else if sendTime ≥ (e.mainTs + horizon cfg + horizon cfg) % 2 ^ 64 then none
  else some (.buffer, (sendTime - e.bufferTs) / cfg.granularity)

/-- The send time that `DropPacketInsert` leaves: a late packet gets the base time of the main
queue. -/
def leftTime (e : Eiffel) (sendTime : ℕ) : ℕ :=
  if sendTime < e.bufferTs ∧ sendTime < e.mainTs then e.mainTs else sendTime

/-- The stamp that a round of `Enqueue` computes. -/
def stampOf (e : Eiffel) (p : ℕ × Packet) : ℕ :=
  FlowBundler.newStamp ((e.flowInfo p.2.src).orDefault p.1) p.2.totalLen p.1

/-- A stamp is not before the clock reading of its round. -/
lemma le_stampOf (e : Eiffel) (p : ℕ × Packet) : p.1 ≤ e.stampOf p := by
  rw [stampOf, FlowBundler.newStamp]
  split <;> omega

def nodeOf (p : ℕ × Packet) : PacketNode := { packet := p.2, flowId := p.2.src }

/-- **The outcome of a round** with stamp `stamp` for a packet in the node `node`. -/
inductive Outcome (e : Eiffel) (stamp : ℕ) (node : PacketNode) (r : InsertResult) : Prop
  /-- The stamp is beyond both horizons. -/
  | refused (htarget : e.target cfg stamp = none) (hret : r.ret < 0)
      (hsame : SameQueues e r.eiffel)
  /-- The pool is exhausted, and the bit is set all the same. -/
  | exhausted (q : QueueId) (i : ℕ) (htarget : e.target cfg stamp = some (q, i)) (hret : r.ret < 0)
      (hempty : e.store.freeNum = 0) (hqueue : r.eiffel.queueOf = e.queueOf)
      (hmap : r.eiffel.mapOf = Function.update e.mapOf q ((e.mapOf q).setBitMap i))
      (hts : r.eiffel.tsOf = e.tsOf)
  /-- The packet is in front of its bucket. -/
  | stored (q : QueueId) (i : ℕ) (htarget : e.target cfg stamp = some (q, i)) (hret : r.ret = 0)
      (hroom : e.store.freeNum ≠ 0)
      (hqueue : r.eiffel.queueOf = Function.update e.queueOf q
        (Function.update (e.queueOf q) i
          { nodes := node :: (e.queueOf q i).nodes, nodeNum := (e.queueOf q i).nodeNum + 1 }))
      (hmap : r.eiffel.mapOf = Function.update e.mapOf q ((e.mapOf q).setBitMap i))
      (hts : r.eiffel.tsOf = e.tsOf) (hsend : r.sendTime = e.leftTime stamp)

/-- No round changes a base time. -/
lemma Outcome.ts {e : Eiffel} {stamp : ℕ} {node : PacketNode} {r : InsertResult}
    (h : Outcome cfg e stamp node r) : r.eiffel.tsOf = e.tsOf := by
  cases h with
  | refused _ _ hsame => exact hsame.ts
  | exhausted _ _ _ _ _ _ _ hts => exact hts
  | stored _ _ _ _ _ _ _ hts _ => exact hts

/-- The branch of `DropPacketInsert` for a queue. -/
def insertAt (e : Eiffel) (packet : Packet) (index sendTime flowId : ℕ) : QueueId → InsertResult
  | .main => e.insertMain packet index sendTime flowId
  | .buffer => e.insertBuffer packet index sendTime flowId

/-- `DropPacketInsert` selects a bucket and leaves a send time. -/
lemma dropPacketInsert_eq (e : Eiffel) (packet : Packet) (sendTime flowId : ℕ) :
    e.dropPacketInsert cfg packet sendTime flowId =
      match e.target cfg sendTime with
      | none => { eiffel := e, ret := -1, sendTime := sendTime }
      | some (q, i) => e.insertAt packet i (e.leftTime sendTime) flowId q := by
  rw [dropPacketInsert, target, leftTime]
  by_cases hmain : sendTime < e.bufferTs
  · by_cases hlate : sendTime < e.mainTs
    · simp only [if_pos hmain, if_pos hlate, if_pos (And.intro hmain hlate), insertAt]
    · have hleft : ¬ (sendTime < e.bufferTs ∧ sendTime < e.mainTs) := fun h => hlate h.2
      simp only [if_pos hmain, if_neg hlate, if_neg hleft, insertAt]
  · have hleft : ¬ (sendTime < e.bufferTs ∧ sendTime < e.mainTs) := fun h => hmain h.1
    by_cases hfar : sendTime ≥ (e.mainTs + horizon cfg + horizon cfg) % 2 ^ 64
    · simp only [if_neg hmain, if_pos hfar]
    · simp only [if_neg hmain, if_neg hfar, if_neg hleft, insertAt]

/-- One branch of `DropPacketInsert`. -/
lemma insertAt_outcome {e : Eiffel} {packet : Packet} {sendTime flowId i : ℕ} {q : QueueId}
    (htarget : e.target cfg sendTime = some (q, i)) :
    Outcome cfg e sendTime { packet := packet, flowId := flowId }
      (e.insertAt packet i (e.leftTime sendTime) flowId q) := by
  cases q with
  | main =>
      by_cases hfree : e.store.freeNum = 0
      · have hinsert : e.insertAt packet i (e.leftTime sendTime) flowId .main
            = { eiffel := { e with mainMap := e.mainMap.setBitMap i }
                ret := -1, sendTime := e.leftTime sendTime } := by
          simp [insertAt, insertMain, ListBucket.enqueuePacket, hfree]
        rw [hinsert]
        refine .exhausted .main i htarget (by norm_num) hfree ?_ ?_ ?_
        all_goals funext q; cases q <;> rfl
      · rw [insertAt, insertMain, ListBucket.enqueuePacket, if_neg hfree]
        refine .stored .main i htarget rfl hfree ?_ ?_ ?_ rfl
        all_goals funext q; cases q <;> rfl
  | buffer =>
      by_cases hfree : e.store.freeNum = 0
      · have hinsert : e.insertAt packet i (e.leftTime sendTime) flowId .buffer
            = { eiffel := { e with bufferMap := e.bufferMap.setBitMap i }
                ret := -1, sendTime := e.leftTime sendTime } := by
          simp [insertAt, insertBuffer, ListBucket.enqueuePacket, hfree]
        rw [hinsert]
        refine .exhausted .buffer i htarget (by norm_num) hfree ?_ ?_ ?_
        all_goals funext q; cases q <;> rfl
      · rw [insertAt, insertBuffer, ListBucket.enqueuePacket, if_neg hfree]
        refine .stored .buffer i htarget rfl hfree ?_ ?_ ?_ rfl
        all_goals funext q; cases q <;> rfl

/-- `DropPacketInsert` has one of the outcomes. -/
lemma dropPacketInsert_outcome (e : Eiffel) (packet : Packet) (sendTime flowId : ℕ) :
    Outcome cfg e sendTime { packet := packet, flowId := flowId }
      (e.dropPacketInsert cfg packet sendTime flowId) := by
  rw [dropPacketInsert_eq]
  cases htarget : e.target cfg sendTime with
  | none => exact .refused htarget (by norm_num) ⟨rfl, rfl, rfl⟩
  | some t => exact insertAt_outcome cfg htarget

/-- Flows and the packet count are not looked at. -/
lemma Outcome.congr {e₀ e : Eiffel} {stamp : ℕ} {node : PacketNode} {r₀ r : InsertResult}
    (h : Outcome cfg e₀ stamp node r₀) (hpre : SameQueues e e₀) (hstore : e₀.store = e.store)
    (hpost : SameQueues r₀.eiffel r.eiffel)
    (hret : r.ret = r₀.ret) (hsend : r.sendTime = r₀.sendTime) : Outcome cfg e stamp node r := by
  have hmain : e₀.mainTs = e.mainTs := congrFun hpre.ts .main
  have hbuffer : e₀.bufferTs = e.bufferTs := congrFun hpre.ts .buffer
  have htarget : e₀.target cfg stamp = e.target cfg stamp := by
    rw [target, target, hmain, hbuffer]
  have hleft : e₀.leftTime stamp = e.leftTime stamp := by rw [leftTime, leftTime, hmain, hbuffer]
  cases h with
  | refused ht hr hsame =>
      refine .refused (htarget ▸ ht) (hret ▸ hr) ⟨?_, ?_, ?_⟩
      · rw [hpost.queue, hsame.queue, hpre.queue]
      · rw [hpost.map, hsame.map, hpre.map]
      · rw [hpost.ts, hsame.ts, hpre.ts]
  | exhausted q i ht hr hempty hqueue hmap hts =>
      refine .exhausted q i (htarget ▸ ht) (hret ▸ hr) (hstore ▸ hempty) ?_ ?_ ?_
      · rw [hpost.queue, hqueue, hpre.queue]
      · rw [hpost.map, hmap, hpre.map]
      · rw [hpost.ts, hts, hpre.ts]
  | stored q i ht hr hroom hqueue hmap hts hs =>
      refine .stored q i (htarget ▸ ht) (hret ▸ hr) (hstore ▸ hroom) ?_ ?_ ?_ ?_
      · rw [hpost.queue, hqueue, hpre.queue]
      · rw [hpost.map, hmap, hpre.map]
      · rw [hpost.ts, hts, hpre.ts]
      · rw [hsend, hs, hleft]

/-- **A round of `Enqueue`** has one of the outcomes. -/
theorem enqueueOne_outcome (e : Eiffel) (p : ℕ × Packet) :
    Outcome cfg e (e.stampOf p) (nodeOf p) (e.enqueueOne cfg p) := by
  have hdrop := dropPacketInsert_outcome cfg { e with
    flowInfo := Function.update e.flowInfo p.2.src ((e.flowInfo p.2.src).orDefault p.1) } p.2
    (e.stampOf p) p.2.src
  refine hdrop.congr cfg ⟨?_, ?_, ?_⟩ rfl ?_ ?_ ?_
  any_goals funext q; cases q <;> rfl
  all_goals rw [enqueueOne]; dsimp only; split
  any_goals rfl
  · exact ⟨rfl, rfl, rfl⟩
  · refine ⟨?_, ?_, ?_⟩ <;> funext q <;> cases q <;> rfl

/-! ### Dequeue -/

/-- `MAIN_QUEUE_ID` and `BUFFER_QUEUE_ID`. -/
def QueueId.num : QueueId → ℕ
  | main => 0
  | buffer => 1

/-- The module with queue `q` brought to the front. -/
def front (e : Eiffel) : QueueId → Eiffel
  | .main => e
  | .buffer => e.adjustRotation cfg

/-- What the two queues have, once queue `q` is the main queue. -/
def frontOf {α : Type*} (x : QueueId → α) (q : QueueId) : QueueId → α
  | .main => x q
  | .buffer => x q.other

@[simp] lemma frontOf_main {α : Type*} (x : QueueId → α) (q : QueueId) :
    frontOf x q .main = x q := rfl

@[simp] lemma frontOf_buffer {α : Type*} (x : QueueId → α) (q : QueueId) :
    frontOf x q .buffer = x q.other := rfl

lemma frontOf_self {α : Type*} (x : QueueId → α) : frontOf x .main = x := by
  funext q
  cases q <;> rfl

@[simp] lemma front_queueOf (e : Eiffel) (q : QueueId) :
    (e.front cfg q).queueOf = frontOf e.queueOf q := by
  funext q'
  cases q <;> cases q' <;> rfl

@[simp] lemma front_tsOf_main (e : Eiffel) (q : QueueId) :
    (e.front cfg q).tsOf .main = e.tsOf q := by cases q <;> rfl

@[simp] lemma front_maxDequeueBurst (e : Eiffel) (q : QueueId) :
    (e.front cfg q).maxDequeueBurst = e.maxDequeueBurst := by cases q <;> rfl

@[simp] lemma front_packetsNum (e : Eiffel) (q : QueueId) :
    (e.front cfg q).packetsNum = e.packetsNum := by cases q <;> rfl

/-- How many packets the service of a bucket takes. -/
def takenNum (e : Eiffel) (q : QueueId) (i : ℕ) : ℕ :=
  (e.queueOf q i).bulkNum e.maxDequeueBurst

/-- The service of bucket `i` of the main queue of `e`. -/
structure Service (e : Eiffel) (i : ℕ) (r : DequeueResult) : Prop where
  taken : r.taken = (e.queueOf .main i).nodes.take (e.takenNum .main i)
  queue : ∃ b : ListBucket, b.nodes = (e.queueOf .main i).nodes.drop (e.takenNum .main i) ∧
    b.Counted ∧ r.eiffel.queueOf = Function.update e.queueOf .main
      (Function.update (e.queueOf .main) i b)
  map : r.eiffel.mapOf = Function.update e.mapOf .main
    (if (r.eiffel.queueOf .main i).nodes = [] then (e.mapOf .main).freeBitMap i else e.mapOf .main)
  ts : r.eiffel.tsOf = e.tsOf
  num : r.eiffel.packetsNum = e.packetsNum

lemma Service.length_taken {e : Eiffel} {i : ℕ} {r : DequeueResult} (h : Service e i r) :
    r.taken.length = e.takenNum .main i := by
  rw [h.taken, List.length_take]
  exact min_eq_left (min_le_right _ _)

/-- **The service of a bucket** takes packets from its front, and clears its bit when none is
left. -/
lemma serve_spec {e : Eiffel} {i : ℕ} (hcount : (e.queueOf .main i).Counted) :
    Service e i (e.serve cfg i) := by
  obtain ⟨htaken, -, hnodes, hcounted⟩ := ListBucket.dequeuePacketBulk_spec cfg.maxBytesPerFlow
    e.store hcount e.maxDequeueBurst
  set b := (ListBucket.dequeuePacketBulk cfg.maxBytesPerFlow e.store (e.queueOf .main i)
    e.maxDequeueBurst).bucket with hb
  have hqueue : (e.serve cfg i).eiffel.queueOf = Function.update e.queueOf .main
      (Function.update (e.queueOf .main) i b) := by funext q; cases q <;> rfl
  have hself : (e.serve cfg i).eiffel.queueOf .main i = b := by
    rw [hqueue, update_bucket_self]
  have hempty : b.isEmpty = true ↔ b.nodes = [] := by
    rw [ListBucket.isEmpty, beq_iff_eq, hcounted, List.length_eq_zero_iff]
  refine ⟨htaken, ⟨b, hnodes, hcounted, hqueue⟩, ?_, ?_, rfl⟩
  · rw [hself]
    by_cases hnil : b.nodes = []
    · rw [if_pos hnil]
      have hmap : (e.serve cfg i).eiffel.mainMap = e.mainMap.freeBitMap i :=
        if_pos (hempty.mpr hnil)
      funext q
      cases q with
      | main => exact hmap
      | buffer => rfl
    · rw [if_neg hnil]
      have hmap : (e.serve cfg i).eiffel.mainMap = e.mainMap :=
        if_neg fun h => hnil (hempty.mp h)
      funext q
      cases q with
      | main => exact hmap
      | buffer => rfl
  · funext q
    cases q <;> rfl

/-- **The outcome of `Dequeue`** at clock `now`. -/
inductive Dequeued (e : Eiffel) (now : ℕ) (r : DequeueResult) : Prop
  /-- No bit is set: the base times follow the clock. -/
  | reset (hffs : e.ffs = none) (hr : r = { eiffel := { e with
      mainTs := now, bufferTs := (now + horizon cfg) % 2 ^ 64 }, taken := [] })
  /-- The bucket that `ffs` found is not due; a rotation was made if it is in the buffer queue. -/
  | early (q : QueueId) (i : ℕ) (hffs : e.ffs = some (i, q.num)) (hearly : now < e.bucketTs cfg q i)
      (hr : r = { eiffel := e.front cfg q, taken := [] })
  | served (q : QueueId) (i : ℕ) (hffs : e.ffs = some (i, q.num)) (hdue : e.bucketTs cfg q i ≤ now)
      (hr : r = (e.front cfg q).serve cfg i)

/-- The queue that `ffs` names. -/
lemma exists_num {e : Eiffel} {i n : ℕ} (h : e.ffs = some (i, n)) : ∃ q : QueueId, q.num = n := by
  rw [ffs] at h
  split at h
  · exact ⟨.main, congrArg Prod.snd (Option.some.inj h)⟩
  · split at h
    · exact ⟨.buffer, congrArg Prod.snd (Option.some.inj h)⟩
    · simp at h

/-- `Dequeue` has one of the outcomes. -/
theorem dequeue_cases (e : Eiffel) (now : ℕ) : Dequeued cfg e now (e.dequeue cfg now) := by
  rw [dequeue]
  cases hffs : e.ffs with
  | none => exact .reset hffs rfl
  | some t =>
      obtain ⟨i, n⟩ := t
      obtain ⟨q, rfl⟩ := exists_num hffs
      have hfront : (if q.num = 1 then e.adjustRotation cfg else e) = e.front cfg q := by
        cases q <;> rfl
      have hts : (i * cfg.granularity + (e.front cfg q).mainTs) % 2 ^ 64 = e.bucketTs cfg q i := by
        rw [bucketTs, ← front_tsOf_main cfg e q]
        rfl
      dsimp only
      rw [hfront, hts]
      split
      · rename_i hearly
        exact .early q i hffs hearly rfl
      · rename_i hdue
        exact .served q i hffs (not_lt.mp hdue) rfl

/-- After `Enqueue` and `Dequeue` a task only counts. -/
lemma runTask_same {e : Eiffel} {env : SlotEnv} {batch : List (ℕ × Packet)}
    (hover : env.childrenOverload = 0)
    (hgen : env.generated e.store.flowToGen e.pktgen = some batch) :
    SameQueues ((e.enqueue cfg batch).dequeue cfg env.dequeueNow).eiffel (e.runTask cfg env) := by
  rw [runTask_of_generated cfg hover hgen]
  refine ⟨?_, ?_, ?_⟩
  all_goals funext q; cases q <;> rfl

/-- The burst is not looked at. -/
lemma setMaxDequeueBurst_same (e : Eiffel) (arg : ℤ) :
    SameQueues e (e.setMaxDequeueBurst arg) := by
  refine ⟨?_, ?_, ?_⟩
  all_goals funext q; cases q <;> rfl

/-! ### One operation -/

/-- **What one operation does** to the module. -/
inductive Stepped (e : Eiffel) : Op → Eiffel → Prop
  | enqueue (batch : List (ℕ × Packet)) : Stepped e (.enqueue batch) (e.enqueue cfg batch)
  | dequeue (now : ℕ) : Stepped e (.dequeue now) (e.dequeue cfg now).eiffel
  /-- A task without a batch. -/
  | idle (env : SlotEnv) : Stepped e (.runTask env) e
  /-- A task with a batch: `Enqueue`, `Dequeue` and the count. -/
  | task (env : SlotEnv) (batch : List (ℕ × Packet)) (e' : Eiffel)
      (hover : env.childrenOverload = 0)
      (hgen : env.generated e.store.flowToGen e.pktgen = some batch)
      (hsame : SameQueues ((e.enqueue cfg batch).dequeue cfg env.dequeueNow).eiffel e')
      (hburst : e'.maxDequeueBurst
        = ((e.enqueue cfg batch).dequeue cfg env.dequeueNow).eiffel.maxDequeueBurst) :
      Stepped e (.runTask env) e'
  | burst (arg : ℤ) : Stepped e (.setMaxDequeueBurst arg) (e.setMaxDequeueBurst arg)

lemma step_cases {e e' : Eiffel} {op : Op} (hstep : e.step cfg op = some e') :
    Stepped cfg e op e' := by
  cases op with
  | enqueue batch =>
      obtain rfl := Option.some.inj hstep
      exact .enqueue batch
  | dequeue now =>
      obtain rfl := Option.some.inj hstep
      exact .dequeue now
  | runTask env =>
      obtain rfl := Option.some.inj hstep
      rcases e.runTask_cases cfg env with ⟨hsame, -⟩ | ⟨batch, hover, hgen⟩
      · rw [hsame]
        exact .idle env
      · refine .task env batch _ hover hgen (runTask_same cfg hover hgen) ?_
        rw [runTask_of_generated cfg hover hgen]
  | setMaxDequeueBurst arg =>
      obtain rfl := Option.some.inj hstep
      exact .burst arg

end Eiffel

end Bess
