import FlowBundler.Bess.Pool
import FlowBundler.Lib.Wheel
import FlowBundler.Lib.Loop

/-!
`flowbundler.cc` with `hb-list-bucket.h`: the user-space scheduler.

* `Config`: what `FlowBundler::Init` takes from its arguments; `FlowBundler`: the state of
  the module, with the static members of `HBListBucket`.
* `findRealLocation`: the bucket of a time, rounded up.
* `enqueuePacket`, `dequeuePacketBulk`: a bucket, pushed at the front and served from the
  front.
* `insert`, `enqueueOne`, `dequeue`: `FlowBundler::Insert`, one round of the loop of
  `FlowBundler::Enqueue`, and `FlowBundler::Dequeue`; `Returned`: the ways in which `dequeue`
  returns.

The estimated rate of a destination is an argument of `enqueueOne`: the estimator computes
it in floating point from `UpdateRate`, which is not modelled.  `__builtin_clzll(0)`, which
the language leaves undefined, is `64` here, as `lzcnt` has it.  The statistics of the
module are left out.  The packet counters are naturals.

The loop of `Dequeue` is a run of `Loop.whileDue` over its round, so that a call is described by the
round at which it ends: nothing is proved here but the ways in which it returns, and every later
property of a `Dequeue` goes through them.
-/

namespace Bess

/-! ### Data -/

def queueNum : ℕ := 64

def mtu : ℕ := 1500

def rateScale : ℕ := 1000000

def defaultFlowRate : ℕ := 200

structure Config where
  bucketNumScale : ℕ
  minGranScale : ℕ
  dequeueBurst : ℕ
  mempoolSize : ℕ
  maxBytesPerFlow : ℕ

/-- What is read of a `bess::Packet`: its length, and the addresses in its IPv4 header. -/
structure Packet where
  ptr : ℕ
  totalLen : ℕ
  src : ℕ
  dst : ℕ
  deriving DecidableEq, Repr

structure HBPacketNode where
  packet : Packet
  flowId : ℕ
  sendTs : ℕ
  hashId : ℕ
  next : Option ℕ

/-- A bucket: its node count, and the `next` of its sentinel node `head`. -/
structure HBListBucket where
  nodeNum : ℕ
  headNext : Option ℕ
  deriving DecidableEq, Repr

structure FlowInfo where
  lastStamp : ℕ
  rate : ℕ
  deriving DecidableEq, Repr

@[ext]
structure Location where
  queueId : ℕ
  bucketId : ℕ
  deriving DecidableEq, Repr

structure FlowBundler where
  pool : MemoryPool
  /-- The elements of the pool, by block. -/
  nodes : ℕ → HBPacketNode
  pktsNum : ℕ → ℕ
  flowToGen : CircularQueue
  mQueue : ℕ → ℕ → HBListBucket
  nPacketsTotal : ℕ
  nPackets : ℕ → ℕ
  /-- Each bit says whether a queue is non-empty. -/
  bitmap : ℕ
  headTime : ℕ
  /-- The queue id with the highest pacing rate among all active flows. -/
  highestRateQid : ℕ
  lastDequeued : ℕ
  flowInfo : ℕ → FlowInfo

namespace HBListBucket

def isEmpty (b : HBListBucket) : Bool := b.nodeNum == 0

end HBListBucket

/-! ### Words -/

/-- `__builtin_clzll`: the number of leading zero bits of a 64-bit word. -/
def clzll (x : ℕ) : ℕ := if x = 0 then 64 else 63 - Nat.log2 x

/-- `__builtin_ffsll`: one plus the index of the lowest set bit, `0` for `0`. -/
def ffsll (x : ℕ) : ℕ := if x = 0 then 0 else Dyadic.lowBit 64 x + 1

/-- `(~((uint64_t) 0)) << (queue_id)`. -/
def headTimeMask (queueId : ℕ) : ℕ := (2 ^ 64 - 1) <<< queueId % 2 ^ 64

/-! ### Locations -/

section Location

variable (cfg : Config)

def maxRate : ℕ := (rateScale * mtu <<< 3) >>> cfg.minGranScale

def maxRateHighestBit : ℕ := clzll (maxRate cfg)

def bidMask : ℕ := 1 <<< cfg.bucketNumScale - 1

def findQueueIndex (rate : ℕ) : ℕ :=
  (clzll (min rate (maxRate cfg)) + 2 ^ 32 - maxRateHighestBit cfg) % 2 ^ 32

/-- The number of the granule that ends at or after a time. -/
def findBucketIndex (queueId sendTime : ℕ) : ℕ :=
  let bucketId := sendTime >>> (queueId + cfg.minGranScale)
  if bucketId <<< (queueId + cfg.minGranScale) % 2 ^ 64 < sendTime then (bucketId + 1) % 2 ^ 64
  else bucketId

def findRealLocation (queueId sendTime : ℕ) : Location :=
  let bid := findBucketIndex cfg queueId sendTime
  let realQid := (queueId + ffsll (bid ||| 1 <<< (queueNum - 1)) - 1) % 2 ^ 32
  let realQid := if realQid ≥ queueNum then queueNum - 1 else realQid
  { queueId := realQid, bucketId := findBucketIndex cfg realQid sendTime &&& bidMask cfg }

def granularity (queueId : ℕ) : ℕ := 1 <<< (queueId + cfg.minGranScale) % 2 ^ 64

def horizon (queueId : ℕ) : ℕ :=
  (granularity cfg queueId <<< cfg.bucketNumScale % 2 ^ 64 + 2 ^ 64 - granularity cfg queueId)
    % 2 ^ 64

end Location

/-! ### Buckets -/

namespace FlowBundler

def bucket (fb : FlowBundler) (loc : Location) : HBListBucket :=
  fb.mQueue loc.queueId loc.bucketId

def setBucket (fb : FlowBundler) (loc : Location) (b : HBListBucket) : FlowBundler :=
  { fb with mQueue := fun l i => if l = loc.queueId ∧ i = loc.bucketId then b else fb.mQueue l i }

/-- `enqueue_packet`: a node of the pool goes in front of the bucket.  The second answer is
the node taken. -/
def enqueuePacket (fb : FlowBundler) (loc : Location) (packet : Packet)
    (flowId sendTs hashId : ℕ) : ℤ × Option ℕ × FlowBundler :=
  match fb.pool.getElement with
  | (none, pool) => (-1, none, { fb with pool := pool })
  | (some pkt, pool) =>
      let b := fb.bucket loc
      let node := { packet := packet, flowId := flowId, sendTs := sendTs, hashId := hashId
                    next := b.headNext }
      let fb := { fb with pool := pool, nodes := Function.update fb.nodes pkt node }
      (0, some pkt, fb.setBucket loc { nodeNum := b.nodeNum + 1, headNext := some pkt })

/-- The outcome of a bulk removal: the nodes removed in order, their packets, and what is
left of the quota. -/
structure BulkResult where
  fb : FlowBundler
  headNext : Option ℕ
  taken : List ℕ
  batch : List Packet
  quota : ℕ

/-- The loop of `dequeue_packet_bulk`. -/
def dequeueLoop (maxBytes : ℕ) : ℕ → FlowBundler → Option ℕ → BulkResult
  | 0, fb, headNext => { fb := fb, headNext := headNext, taken := [], batch := [], quota := 0 }
  -- the loop would read through a null pointer
  | quota + 1, fb, none =>
      { fb := fb, headNext := none, taken := [], batch := [], quota := quota + 1 }
  | quota + 1, fb, some pkt =>
      let node := fb.nodes pkt
      let leftBytes := (fb.pktsNum node.flowId + 2 ^ 64 - node.packet.totalLen) % 2 ^ 64
      let fb := { fb with
        flowToGen := if leftBytes < maxBytes then (fb.flowToGen.push node.flowId).2
          else fb.flowToGen
        pktsNum := Function.update fb.pktsNum node.flowId leftBytes
        pool := (fb.pool.putElement (some pkt)).2 }
      let r := dequeueLoop maxBytes quota fb node.next
      { r with taken := pkt :: r.taken, batch := node.packet :: r.batch }

/-- `dequeue_packet_bulk` on the bucket of a location; `dequeue_num` is the second answer. -/
def dequeuePacketBulk (cfg : Config) (fb : FlowBundler) (loc : Location) : BulkResult × ℕ :=
  let b := fb.bucket loc
  let quota := min cfg.dequeueBurst b.nodeNum
  if b.headNext = none then
    ({ fb := fb, headNext := none, taken := [], batch := [], quota := quota }, 0)
  else
    let r := dequeueLoop cfg.maxBytesPerFlow quota fb b.headNext
    let dequeueNum := quota - r.quota
    let b := { nodeNum := b.nodeNum - dequeueNum, headNext := r.headNext }
    ({ r with fb := r.fb.setBucket loc b }, dequeueNum)

/-! ### Insert -/

/-- The first packet sets the head time and the scan granularity. -/
def firstPacket (fb : FlowBundler) (queueId sendTime : ℕ) : FlowBundler :=
  if fb.bitmap = 0 then
    { fb with headTime := sendTime &&& headTimeMask queueId, highestRateQid := queueId }
  else fb

/-- `(send_time < head_time) ? head_time : send_time`. -/
def actualTime (headTime sendTime : ℕ) : ℕ := if sendTime < headTime then headTime else sendTime

/-- The queue index after the horizon test: far times go to a coarser queue. -/
def finalQueueId (cfg : Config) (queueId headTime actual : ℕ) : ℕ :=
  if actual > (headTime + horizon cfg queueId) % 2 ^ 64 then
    (queueId + 64
      - clzll ((actual - headTime) >>> (queueId + cfg.minGranScale + cfg.bucketNumScale))) % 2 ^ 32
  else queueId

/-- The outcome of `Insert`, with the node it took, the times, the queue index and the
location it used. -/
structure InsertResult where
  fb : FlowBundler
  ret : ℤ
  node : Option ℕ
  sendTime : ℕ
  actual : ℕ
  queueId : ℕ
  loc : Location

/-- `FlowBundler::Insert`; its parameter `rate` is not read. -/
def insert (cfg : Config) (fb : FlowBundler) (packet : Packet)
    (queueId sendTime flowId hashId : ℕ) : InsertResult :=
  let fb := fb.firstPacket queueId sendTime
  let actual := actualTime fb.headTime sendTime
  let queueId := finalQueueId cfg queueId fb.headTime actual
  let realLoc := findRealLocation cfg queueId actual
  let (ret, node, fb) := fb.enqueuePacket realLoc packet flowId sendTime hashId
  let fb := if ret = 0 then
      { fb with
        nPackets := Function.update fb.nPackets realLoc.queueId (fb.nPackets realLoc.queueId + 1)
        nPacketsTotal := fb.nPacketsTotal + 1
        bitmap := fb.bitmap ||| 1 <<< realLoc.queueId }
    else fb
  { fb := fb, ret := ret, node := node, sendTime := sendTime, actual := actual
    queueId := queueId, loc := realLoc }

/-! ### Enqueue -/

/-- The rate and last stamp of a flow, with the default rate filled in. -/
def infoOf (fb : FlowBundler) (flowId now : ℕ) : FlowInfo :=
  let info := fb.flowInfo flowId
  if info.rate = 0 then { lastStamp := now, rate := defaultFlowRate } else info

/-- The send time of a packet of length `pktBytes`. -/
def newStamp (info : FlowInfo) (pktBytes now : ℕ) : ℕ :=
  let stamp := (info.lastStamp + (pktBytes <<< 3 % 2 ^ 32) * rateScale / info.rate) % 2 ^ 64
  if stamp ≥ now then stamp else now

/-- The send time that a round of `Enqueue` at clock value `now` gives to a packet. -/
def stampOf (fb : FlowBundler) (pkt : Packet) (now : ℕ) : ℕ :=
  newStamp (fb.infoOf pkt.src now) pkt.totalLen now

/-- One round of the loop of `FlowBundler::Enqueue`; `aggreRate` and `hashId` are what
`aggregation_rates.Get(dst_ip, hash_id)` answers. -/
def enqueueOne (cfg : Config) (fb : FlowBundler) (now : ℕ) (pkt : Packet)
    (aggreRate hashId : ℕ) : InsertResult :=
  let flowId := pkt.src
  let info := fb.infoOf flowId now
  let stamp := fb.stampOf pkt now
  let fb := { fb with flowInfo := Function.update fb.flowInfo flowId info }
  let leftBytes := fb.pktsNum flowId
  let queueId := findQueueIndex cfg aggreRate
  let fb := { fb with highestRateQid := min queueId fb.highestRateQid }
  let r := fb.insert cfg pkt queueId stamp flowId hashId
  -- a packet that was not taken is dropped
  if r.ret < 0 then r
  else
    { r with fb := { r.fb with
        pktsNum := Function.update r.fb.pktsNum flowId ((leftBytes + pkt.totalLen) % 2 ^ 64)
        flowInfo := Function.update r.fb.flowInfo flowId { info with lastStamp := stamp } } }

/-! ### Dequeue -/

/-- The outcome of `Dequeue`: the nodes removed, the packets added to the batch and the
count the batch is left with. -/
structure DequeueResult where
  fb : FlowBundler
  taken : List ℕ
  batch : List Packet
  cnt : ℕ

/-- The test of a round: the level and the bucket are not empty. -/
def occupied (fb : FlowBundler) (loc : Location) : Bool :=
  decide (0 < fb.nPackets loc.queueId) && !(fb.bucket loc).isEmpty

/-- The counters and the bitmap after a removal from a level. -/
def afterBulk (fb : FlowBundler) (level dequeueNum : ℕ) : FlowBundler :=
  let left := fb.nPackets level - dequeueNum
  let fb := { fb with
    nPacketsTotal := fb.nPacketsTotal - dequeueNum
    nPackets := Function.update fb.nPackets level left }
  if left = 0 then
    let bitmap := fb.bitmap &&& (2 ^ 64 - 1 - 1 <<< level)
    { fb with
      bitmap := bitmap
      highestRateQid := if bitmap ≠ 0 then ffsll bitmap - 1 else queueNum - 1 }
  else fb

/-- One round of the scan. -/
def scanRound (cfg : Config) (fb : FlowBundler) (headTime : ℕ) : Option (BulkResult × ℕ) :=
  let realLoc := findRealLocation cfg fb.highestRateQid headTime
  if fb.occupied realLoc then
    let (r, dequeueNum) := fb.dequeuePacketBulk cfg realLoc
    if dequeueNum > 0 then
      some ({ r with fb := r.fb.afterBulk realLoc.queueId dequeueNum }, dequeueNum)
    else none
  else none

/-- `FlowBundler::Dequeue`; `garbage` is the value of `dequeue_num` before any assignment.
The answer `none` is a loop that does not end. -/
def dequeue (cfg : Config) (fb : FlowBundler) (now garbage : ℕ) : Option DequeueResult :=
  if fb.nPacketsTotal = 0 then
    some { fb := { fb with headTime := now }, taken := [], batch := [], cnt := 0 }
  else
    let headTime := fb.headTime &&& headTimeMask fb.highestRateQid
    let gran := granularity cfg fb.highestRateQid
    match Loop.whileDue now gran (scanRound cfg fb) (2 ^ 64) headTime with
    | none => none
    | some (.inl ((r, dequeueNum), t)) =>
        some { fb := { r.fb with headTime := t, lastDequeued := dequeueNum }
               taken := r.taken, batch := r.batch, cnt := dequeueNum }
    | some (.inr t) =>
        -- `dequeue_num` was assigned if a bucket was served with an empty quota
        let probe := fun s =>
          if fb.occupied (findRealLocation cfg fb.highestRateQid s) then some () else none
        let dequeueNum := match Loop.whileDue now gran probe (2 ^ 64) headTime with
          | some (.inl _) => 0
          | _ => garbage
        some { fb := { fb with headTime := t, lastDequeued := dequeueNum }
               taken := [], batch := [], cnt := dequeueNum }

/-- The ways in which `Dequeue` returns. -/
inductive Returned (cfg : Config) (fb : FlowBundler) (now : ℕ) (r : DequeueResult) : Prop
  | empty (htotal : fb.nPacketsTotal = 0)
      (hr : r = { fb := { fb with headTime := now }, taken := [], batch := [], cnt := 0 })
  /-- A round at head time `t` has removed packets. -/
  | hit (b : BulkResult) (num t : ℕ) (hdue : t ≤ now) (hround : fb.scanRound cfg t = some (b, num))
      (hr : r = { fb := { b.fb with headTime := t, lastDequeued := num }
                  taken := b.taken, batch := b.batch, cnt := num })
  /-- The scan ends beyond the clock, at `t`. -/
  | miss (t num : ℕ) (hr : r = { fb := { fb with headTime := t, lastDequeued := num }
                                 taken := [], batch := [], cnt := num })

lemma dequeue_returned {cfg : Config} {fb : FlowBundler} {now garbage : ℕ} {r : DequeueResult}
    (h : fb.dequeue cfg now garbage = some r) : Returned cfg fb now r := by
  rw [dequeue] at h
  split at h
  · rename_i htotal
    exact .empty htotal (Option.some.inj h).symm
  · dsimp only at h
    split at h
    · simp at h
    · rename_i b num t hscan
      obtain ⟨hdue, hround⟩ := Loop.whileDue_inl hscan
      exact .hit b num t hdue hround (Option.some.inj h).symm
    · exact .miss _ _ (Option.some.inj h).symm

/-! ### Initialisation -/

/-- The state after `Init` at clock value `now`, with the static members and the flows
as they are then. -/
def init (cfg : Config) (now uuid : ℕ) (nodes : ℕ → HBPacketNode) (pktsNum : ℕ → ℕ)
    (flowToGen : CircularQueue) (flowInfo : ℕ → FlowInfo) : FlowBundler :=
  { pool := MemoryPool.init cfg.mempoolSize uuid
    nodes := nodes
    pktsNum := pktsNum
    flowToGen := flowToGen
    mQueue := fun _ _ => { nodeNum := 0, headNext := none }
    nPacketsTotal := 0
    nPackets := fun _ => 0
    bitmap := 0
    headTime := now
    highestRateQid := queueNum - 1
    lastDequeued := 0
    flowInfo := flowInfo }

end FlowBundler

end Bess
