import FlowBundler.Kernel.Calendar
import FlowBundler.Lib.Loop

/-!
`sch_dfb.c`, the qdisc operations: congestion marks, enqueue with GSO
segmentation, dequeue with its two scan loops, and initialisation.

* `updateCongestion`, `queryCongestion`: the table of congested flows.
* `dfbEnqueueToCq`, `dfbSegment`, `dfbEnqueue`: storing packets.  Each call also
  returns what it stored (`Stored`): the queue index and the clamped send time, the
  fields of the `e` line of the debug trace.
* `dfbDequeue`: the scan up to the clock, the search for the next packet when
  nothing is due, and the estimator of the congestion rate.  The answer `none` of
  the model is a loop that does not end.

`Params` holds the module parameters and `jhash2`, which is a kernel function.  The
outcome of `skb_gso_segment` is an argument, the empty list standing for an error or
a null pointer.  `sk_pacing_status` is not modelled: nothing here reads it.
-/

namespace Dfb

/-- Module parameters, and the kernel's hash function. -/
structure Params where
  queueLimit : ℕ
  gsoSplit : Bool
  jhash2 : List ℕ → ℕ → ℕ

/-- `NET_XMIT_SUCCESS` and `NET_XMIT_DROP`. -/
inductive NetXmit where
  | success | drop
  deriving DecidableEq, Repr

/-! ### Congestion marks -/

/-- The headers of an IPv4 TCP packet; the test that `flow_hash`, `update_congestion` and
`query_congestion` share. -/
def ipv4Tcp (skb : SkBuff) : Option (IpHdr × TcpHdr) :=
  match skb.ipHdr, skb.tcpHdr with
  | some iph, some tcph => if iph.version = 4 ∧ iph.protocol = 6 then some (iph, tcph) else none
  | _, _ => none

/-- The hash of a flow: source and destination address, and both ports in one word. -/
def flowHash (P : Params) (skb : SkBuff) : ℕ :=
  match ipv4Tcp skb with
  | none => 0
  | some (iph, tcph) =>
      P.jhash2 [iph.saddr, iph.daddr, (tcph.source <<< 16 ||| tcph.dest) % 2 ^ 32] 0
        &&& (hashtableSize - 1)

/-- `(int)rate <= 0`, on the low 32 bits. -/
def intNonpos (rate : ℕ) : Prop := rate % 2 ^ 32 = 0 ∨ 2 ^ 31 ≤ rate % 2 ^ 32

instance (rate : ℕ) : Decidable (intNonpos rate) := inferInstanceAs (Decidable (_ ∨ _))

/-- Marking the flow of a packet whose socket is beyond disorder. -/
def markCongested (q : DfbSchedData) (hashValue rate : ℕ) : DfbSchedData :=
  let q := if q.hashTable hashValue = 0 then
      { q with
        congRate := (q.congRate + rate) % 2 ^ 64
        nCongFlows := (q.nCongFlows + 1) % 2 ^ 32
        deqRst := 1 }
    else q
  { q with hashTable := Function.update q.hashTable hashValue 1 }

/-- Clearing the mark of the flow of a packet with FIN or RST. -/
def unmarkCongested (q : DfbSchedData) (hashValue rate : ℕ) : DfbSchedData :=
  let q := if q.hashTable hashValue = 1 then
      let nCongFlows := (q.nCongFlows + 2 ^ 32 - 1) % 2 ^ 32
      { q with
        congRate := if nCongFlows = 0 then 0 else (q.congRate + 2 ^ 64 - rate) % 2 ^ 64
        nCongFlows := nCongFlows
        deqRst := 1 }
    else q
  { q with hashTable := Function.update q.hashTable hashValue 0 }

def updateCongestion (P : Params) (q : DfbSchedData) (skb : SkBuff) : DfbSchedData :=
  match skb.sk, ipv4Tcp skb with
  | some sk, some (_, tcph) =>
      if intNonpos sk.skPacingRate then q
      else
        let q := if sk.icskCaState.toNat > TcpCaState.disorder.toNat then
            markCongested q (flowHash P skb) sk.skPacingRate
          else q
        if tcph.fin || tcph.rst then unmarkCongested q (flowHash P skb) sk.skPacingRate else q
  | _, _ => q

def queryCongestion (P : Params) (q : DfbSchedData) (skb : SkBuff) : ℕ :=
  match ipv4Tcp skb with
  | none => 0
  | some _ => q.hashTable (flowHash P skb)

/-- The queue index of a packet: by the congestion rate when its flow is marked, else by
its own rate. -/
def rateClass (P : Params) (q : DfbSchedData) (skb : SkBuff) (rate : ℕ) : ℕ :=
  if queryCongestion P q skb ≠ 0 then dfbFindQueueIndex q.congRate else dfbFindQueueIndex rate

/-- `sk ? sk->sk_pacing_rate : 0`. -/
def pacingRate (skb : SkBuff) : ℕ :=
  match skb.sk with
  | some sk => sk.skPacingRate
  | none => 0

/-! ### Enqueue -/

/-- What one call of `dfb_enqueue_to_cq` stored. -/
structure Stored where
  ptr : ℕ
  skb : SkBuff
  queueId : ℕ
  /-- The send time after clamping. -/
  sendTime : ℕ
  loc : DfbLocation
  deriving DecidableEq, Repr

/-- The maximum time stamp of a calendar queue, counted from the head time. -/
def dfbHorizon (queueId : ℕ) : ℕ :=
  let granularity := 1 <<< (queueId + minGranScale) % 2 ^ 64
  (granularity <<< bucketNumScale + 2 ^ 64 - granularity) % 2 ^ 64

/-- The first packet sets the head time and the scan granularity. -/
def dfbFirstPacket (q : DfbSchedData) (queueId sendTime : ℕ) : DfbSchedData :=
  if q.bitmap = 0 then
    { q with headTime := sendTime &&& dfbHeadTimeMask queueId, highestRateQid := queueId }
  else q

def dfbEnqueueToCq (sch : Qdisc) (skb queueId : ℕ) : Qdisc × Stored :=
  let sendTime := (sch.mem skb).skbMstampNs
  let q := dfbFirstPacket sch.priv queueId sendTime
  let headTime := q.headTime
  let sendTime := clampT sendTime headTime ((headTime + dfbHorizon queueId) % 2 ^ 64)
  let realLoc := dfbFindRealLocation queueId sendTime
  (dfbPushToBucket { sch with priv := q } realLoc skb,
    { ptr := skb, skb := sch.mem skb, queueId := queueId, sendTime := sendTime, loc := realLoc })

/-- The loop of `dfb_segment` over the segments: each gets the time stamp `ntime`, which
then advances by the time its payload takes at the pacing rate. -/
def dfbSegmentLoop (qid rate hdrLen : ℕ) : List ℕ → ℕ → Qdisc → Qdisc × List Stored
  | [], _, sch => (sch, [])
  | seg :: segs, ntime, sch =>
      let sch := sch.setSkb seg { sch.mem seg with next := none, skbMstampNs := ntime }
      let stored := dfbEnqueueToCq sch seg qid
      let len := (sch.mem seg).len
      let payloadLen := len - min hdrLen len
      let rest := dfbSegmentLoop qid rate hdrLen segs
        ((ntime + payloadLen * nsecPerSec % 2 ^ 64 / rate) % 2 ^ 64) stored.1
      (rest.1, stored.2 :: rest.2)

/-- The memory after `skb_gso_segment` has produced its segments. -/
def storeSegs (sch : Qdisc) (segs : List (ℕ × SkBuff)) : Qdisc :=
  segs.foldl (fun sch seg => sch.setSkb seg.1 seg.2) sch

/-- The outcome of an enqueue: the qdisc, the return code and what went into the calendar. -/
structure EnqueueResult where
  sch : Qdisc
  ret : NetXmit
  stored : List Stored

/-- `qdisc_enqueue_tail`: append to `sch->q`. -/
def qdiscEnqueueTail (sch : Qdisc) (skb : ℕ) : EnqueueResult :=
  { sch := { sch with q := sch.q ++ [skb] }, ret := .success, stored := [] }

/-- `qdisc_drop`. -/
def qdiscDrop (sch : Qdisc) : EnqueueResult := { sch := sch, ret := .drop, stored := [] }

/-- Segment a GSO packet. -/
def dfbSegment (P : Params) (sch : Qdisc) (skb : ℕ) (segs : List (ℕ × SkBuff)) :
    EnqueueResult :=
  let s := sch.mem skb
  let rate := pacingRate s
  let hdrLen := (s.transportOffset + s.tcpHdrlen) % 2 ^ 8
  if rate = 0 then qdiscEnqueueTail sch skb
  else if segs = [] then qdiscDrop sch
  else
    let qid := rateClass P sch.priv s rate
    let sch := { sch with priv := { sch.priv with
      highestRateQid := min sch.priv.highestRateQid qid } }
    let out := dfbSegmentLoop qid rate hdrLen (segs.map Prod.fst) s.skbMstampNs
      (storeSegs sch segs)
    { sch := out.1, ret := if out.2 ≠ [] then .success else .drop, stored := out.2 }

def dfbEnqueue (P : Params) (sch : Qdisc) (skb : ℕ) (segs : List (ℕ × SkBuff)) :
    EnqueueResult :=
  let s := sch.mem skb
  let rate := pacingRate s
  if sch.priv.nPacketsTotal < P.queueLimit then
    -- the flow is not paced
    if rate = 0 then qdiscEnqueueTail sch skb
    else
      let sch := { sch with priv := updateCongestion P sch.priv s }
      if P.gsoSplit && s.isGso then dfbSegment P sch skb segs
      else
        let qid := rateClass P sch.priv s rate
        let sch := { sch with priv := { sch.priv with
          highestRateQid := min sch.priv.highestRateQid qid } }
        let stored := dfbEnqueueToCq sch skb qid
        { sch := stored.1, ret := .success, stored := [stored.2] }
  else qdiscDrop sch

/-! ### Dequeue -/

/-- The outcome of a dequeue: the packet returned, and the time the watchdog is armed at. -/
structure DequeueResult where
  sch : Qdisc
  skb : Option ℕ
  watchdog : Option ℕ

/-- One round of the scan: look up the bucket of the head time and pop from it. -/
def dfbScanRound (sch : Qdisc) (qid headTime : ℕ) : Option (ℕ × Qdisc) :=
  match dfbPopFromBucket sch (dfbFindRealLocation qid headTime) with
  | (some skb, sch') => some (skb, sch')
  | (none, _) => none

/-- After a pop at head time `t`: store it, and raise the scan granularity to the lowest
occupied level when the level of the current granularity has no packet. -/
def dfbAfterPop (q : DfbSchedData) (qid t : ℕ) : DfbSchedData :=
  let q := { q with headTime := t }
  if q.nPackets qid = 0 then
    { q with highestRateQid := if q.bitmap ≠ 0 then ffs q.bitmap else queueNum - 1 }
  else q

/-- `dfb_dequeue` from the calendar, up to the label `dfb_dequeue_done`. -/
def dfbDequeueCalendar (sch : Qdisc) (now : ℕ) : Option DequeueResult :=
  let qid := sch.priv.highestRateQid
  let headTime := sch.priv.headTime &&& dfbHeadTimeMask qid
  if sch.priv.bitmap = 0 then some { sch := sch, skb := none, watchdog := none }
  else
    let granularity := 1 <<< (qid + minGranScale) % 2 ^ 64
    match Loop.whileDue now granularity (dfbScanRound sch qid) (2 ^ 64) headTime with
    | none => none
    | some (.inl ((skb, sch'), t)) =>
        some { sch := { sch' with priv := dfbAfterPop sch'.priv qid t }
               skb := some skb, watchdog := none }
    | some (.inr t) =>
        -- find next packet
        let nextTime := (t + 2 ^ 64 - granularity) % 2 ^ 64
        let occupied := fun s => !dfbBucketIsEmpty (sch.bucket (dfbFindRealLocation qid s))
        match Loop.doUntil granularity occupied (2 ^ 64) nextTime with
        | none => none
        | some next =>
            some { sch := { sch with priv := { sch.priv with
                              headTime := now &&& dfbHeadTimeMask qid } }
                   skb := none, watchdog := some next }

/-- The estimator at the label `dfb_dequeue_done`; `tTime` is its reading of the clock.
`div64_ul` traps on a zero divisor, where the model goes on with the quotient `0`. -/
def dfbDequeueDone (P : Params) (sch : Qdisc) (skb : Option ℕ) (tTime : ℕ) : Qdisc :=
  match skb with
  | none => sch
  | some p =>
      let q := sch.priv
      if q.hashTable (flowHash P (sch.mem p)) = 0 then sch
      else if q.deqRst ≠ 0 then
        { sch with priv := { q with deqRst := 0, deqCnt := 0, deqTime := tTime } }
      else if (q.deqCnt + 1) % 2 ^ 32 = 50 then
        let tRate := 50 * 1500 * nsecPerSec / ((tTime + 2 ^ 64 - q.deqTime) % 2 ^ 64)
        { sch with priv := { q with
            congRate := (3 * q.congRate + tRate) % 2 ^ 64 / 4, deqCnt := 0, deqTime := tTime } }
      else { sch with priv := { q with deqCnt := (q.deqCnt + 1) % 2 ^ 32 } }

/-- `dfb_dequeue`: first the unpaced packets of `sch->q`, then the calendar. -/
def dfbDequeue (P : Params) (sch : Qdisc) (now tTime : ℕ) : Option DequeueResult :=
  match sch.q with
  | skb :: rest =>
      let sch := { sch with q := rest }
      some { sch := dfbDequeueDone P sch (some skb) tTime, skb := some skb, watchdog := none }
  | [] =>
      (dfbDequeueCalendar sch now).map fun r =>
        { r with sch := dfbDequeueDone P r.sch r.skb tTime }

/-! ### Initialisation -/

/-- `dfb_init` at clock value `now`; `deq_time` is what the memory of the qdisc held. -/
def dfbInit (sch : Qdisc) (now : ℕ) : Qdisc :=
  { sch with priv :=
      { mlcq := fun _ _ => { head := none, tail := none }
        nPacketsTotal := 0
        nPackets := fun _ => 0
        bitmap := 0
        headTime := now
        highestRateQid := queueNum - 1
        hashTable := fun _ => 0
        deqRst := 1
        nCongFlows := 0
        deqCnt := 0
        deqTime := sch.priv.deqTime
        congRate := 0 } }

end Dfb
