import FlowBundler.Lib.Wheel

/-!
`sch_dfb.c`, the data of the qdisc and its multi-level calendar queue: socket
buffers with their `next` links, the private data of the scheduler, and the
operations on one bucket.

* `SkBuff`, `DfbSchedData`, `Qdisc`: the state.  Packets are named by pointers
  into the memory `Qdisc.mem`; a bucket is a head and a tail pointer, and the
  tail is left stale when the bucket drains, as in the source.
* `dfbFindRealLocation`, `dfbPushToBucket`, `dfbPopFromBucket`: the bucket of a
  send time, and the two list operations with their counters and bitmap.

Times are 64-bit words kept as naturals below `2^64`; the packet counters, `u32`
in the source, are naturals.  `real_qid_cache` is not modelled: nothing reads it.
-/

namespace Dfb

/-! ### Constants -/

def hashtableSize : ℕ := 1 <<< 8

def bucketNumScale : ℕ := 10

def bucketNum : ℕ := 1 <<< bucketNumScale

def queueNum : ℕ := 64

def mtu : ℕ := 1500

/-- The scaling factor of the minimum granularity, in nanoseconds. -/
def minGranScale : ℕ := 0

def nsecPerSec : ℕ := 1000000000

/-- The mask that rounds a bucket index. -/
def bidMask : ℕ := 1 <<< bucketNumScale - 1

/-! ### Packets -/

/-- `enum tcp_ca_state`. -/
inductive TcpCaState where
  | caOpen | disorder | cwr | recovery | loss
  deriving DecidableEq, Repr

/-- The value of a congestion state, for the comparison with `TCP_CA_Disorder`. -/
def TcpCaState.toNat : TcpCaState → ℕ
  | caOpen => 0
  | disorder => 1
  | cwr => 2
  | recovery => 3
  | loss => 4

/-- What the scheduler reads of `skb->sk`. -/
structure Sock where
  skPacingRate : ℕ
  icskCaState : TcpCaState
  deriving DecidableEq, Repr

structure IpHdr where
  version : ℕ
  protocol : ℕ
  saddr : ℕ
  daddr : ℕ
  deriving DecidableEq, Repr

structure TcpHdr where
  source : ℕ
  dest : ℕ
  fin : Bool
  rst : Bool
  deriving DecidableEq, Repr

/-- A socket buffer: its list link, its departure time and what is read of its headers. -/
structure SkBuff where
  next : Option ℕ := none
  skbMstampNs : ℕ
  len : ℕ
  sk : Option Sock
  ipHdr : Option IpHdr
  tcpHdr : Option TcpHdr
  transportOffset : ℕ
  tcpHdrlen : ℕ
  isGso : Bool
  deriving DecidableEq, Repr, Inhabited

/-! ### The scheduler's state -/

structure DfbBucket where
  head : Option ℕ
  tail : Option ℕ
  deriving DecidableEq, Repr

structure DfbLocation where
  queueId : ℕ
  bucketId : ℕ
  deriving DecidableEq, Repr

structure DfbSchedData where
  /-- The multi-level calendar queue. -/
  mlcq : ℕ → ℕ → DfbBucket
  nPacketsTotal : ℕ
  nPackets : ℕ → ℕ
  /-- Each bit says whether a queue is non-empty. -/
  bitmap : ℕ
  headTime : ℕ
  /-- The queue id with the highest pacing rate among all active flows. -/
  highestRateQid : ℕ
  hashTable : ℕ → ℕ
  deqRst : ℕ
  nCongFlows : ℕ
  deqCnt : ℕ
  deqTime : ℕ
  congRate : ℕ

/-- The qdisc: the list `sch->q`, its private data and the memory of socket buffers. -/
structure Qdisc where
  q : List ℕ
  priv : DfbSchedData
  mem : ℕ → SkBuff

namespace Qdisc

/-- The link of a socket buffer. -/
def next (sch : Qdisc) (p : ℕ) : Option ℕ := (sch.mem p).next

/-- Writing a socket buffer. -/
def setSkb (sch : Qdisc) (p : ℕ) (skb : SkBuff) : Qdisc :=
  { sch with mem := Function.update sch.mem p skb }

/-- `p->next = v`. -/
def setNext (sch : Qdisc) (p : ℕ) (v : Option ℕ) : Qdisc :=
  sch.setSkb p { sch.mem p with next := v }

/-- The bucket of a location: the index is rounded by `bid_mask`. -/
def bucket (sch : Qdisc) (loc : DfbLocation) : DfbBucket :=
  sch.priv.mlcq loc.queueId (loc.bucketId &&& bidMask)

/-- Writing the bucket of a location. -/
def setBucket (sch : Qdisc) (loc : DfbLocation) (b : DfbBucket) : Qdisc :=
  { sch with priv := { sch.priv with
      mlcq := fun l i => if l = loc.queueId ∧ i = loc.bucketId &&& bidMask then b
        else sch.priv.mlcq l i } }

end Qdisc

/-! ### Words -/

/-- `__ffs`: the index of the lowest set bit. -/
def ffs (word : ℕ) : ℕ := Dyadic.lowBit 64 word

/-- `fls64`: the position of the highest set bit, `0` for `0`. -/
def fls64 (x : ℕ) : ℕ := if x = 0 then 0 else Nat.log2 x + 1

/-- `clamp_t`. -/
def clampT (val lo hi : ℕ) : ℕ := min (max val lo) hi

/-! ### Locations -/

/-- The bucket number of a send time: the granule after the one it lies in. -/
def dfbFindBucketIndex (queueId sendTime : ℕ) : ℕ :=
  (sendTime >>> (queueId + minGranScale) + 1) % 2 ^ 64

/-- `(~((u64) 0)) << (queue_id)`. -/
def dfbHeadTimeMask (queueId : ℕ) : ℕ := (2 ^ 64 - 1) <<< queueId % 2 ^ 64

/-- The level and bucket number under which a send time is stored and looked up. -/
def dfbFindRealLocation (queueId sendTime : ℕ) : DfbLocation :=
  let bid := dfbFindBucketIndex queueId sendTime
  let realQid := (queueId + ffs (bid ||| 1 <<< (queueNum - 1))) % 2 ^ 8
  -- `unlikely(real_loc.queue_id) >= QUEUE_NUM` compares the truth value of the queue id
  let realQid := if (if realQid ≠ 0 then 1 else 0) ≥ queueNum then queueNum - 1 else realQid
  { queueId := realQid, bucketId := dfbFindBucketIndex realQid sendTime }

/-- Maximum supported pacing rate, in bytes per second. -/
def maxRate : ℕ := (nsecPerSec * mtu) >>> minGranScale

/-- Set by `dfb_module_init`. -/
def maxRateHighestBit : ℕ := fls64 maxRate

/-- The rate class of a flow: `0` for the highest rates. -/
def dfbFindQueueIndex (rate : ℕ) : ℕ :=
  (maxRateHighestBit + 2 ^ 8 - fls64 (min maxRate rate)) % 2 ^ 8

/-! ### Buckets -/

def dfbBucketIsEmpty (b : DfbBucket) : Bool := b.head.isNone

/-- Push a packet into the bucket. -/
def dfbPushToBucket (sch : Qdisc) (location : DfbLocation) (skb : ℕ) : Qdisc :=
  let bkt := sch.bucket location
  let sch := sch.setNext skb none
  let sch :=
    if dfbBucketIsEmpty bkt then sch.setBucket location { head := some skb, tail := some skb }
    else
      -- `bkt->tail->next = skb; bkt->tail = skb;`
      let sch := match bkt.tail with
        | some t => sch.setNext t (some skb)
        | none => sch
      sch.setBucket location { bkt with tail := some skb }
  { sch with priv := { sch.priv with
      nPackets := Function.update sch.priv.nPackets location.queueId
        (sch.priv.nPackets location.queueId + 1)
      nPacketsTotal := sch.priv.nPacketsTotal + 1
      bitmap := sch.priv.bitmap ||| 1 <<< location.queueId } }

/-- Pop a packet from the bucket; the tail of a drained bucket stays behind. -/
def dfbPopFromBucket (sch : Qdisc) (location : DfbLocation) : Option ℕ × Qdisc :=
  let bkt := sch.bucket location
  match bkt.head with
  | none => (none, sch)
  | some skb =>
      let sch := sch.setBucket location { bkt with head := sch.next skb }
      let sch := sch.setNext skb none
      let left := sch.priv.nPackets location.queueId - 1
      (some skb, { sch with priv := { sch.priv with
        nPackets := Function.update sch.priv.nPackets location.queueId left
        bitmap := if left = 0 then sch.priv.bitmap &&& (2 ^ 64 - 1 - 1 <<< location.queueId)
          else sch.priv.bitmap
        nPacketsTotal := sch.priv.nPacketsTotal - 1 } })

end Dfb
