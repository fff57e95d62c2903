import FlowBundler.Kernel.Gq
import FlowBundler.Lib.Ledger
import FlowBundler.Lib.Machine
import FlowBundler.Lib.Loop

/-!
`sch_carousel.c`: a timing wheel of `1 + horizon / granularity` buckets.

* `GradientQueue`, `Qdisc`: the wheel and the queueing discipline around it.
* `timeToIndex`, `gqPush`, `getMinIndex`, `gqExtract`: the wheel's operations.
* `gqSegment`, `gqEnqueue`, `gqDequeue`, `gqReset`, `gqInit`: the callbacks.
* `World`, `World.step`: a discipline with the packets it holds and those it returned.

The links of a bucket are the order of its list, and statistics are left out.

The packets of a world are entered in order of arrival, with their buckets; a dequeue takes the
first entry of the bucket that `get_min_index` names.  `gq_init` is given what the array held
before, as its loop does not reach every bucket when there are more than `2^31` of them.
-/

namespace Carousel

open Gq Ledger

/-! ### The wheel -/

structure GradientQueue where
  headTs : ℕ
  grnlrty : ℕ
  numOfElements : ℕ
  numOfBuckets : ℕ
  mainTs : ℕ
  maxTs : ℕ
  horizon : ℕ
  mainBuckets : ℕ → GqBucket

def timeToIndex (gq : GradientQueue) (time : ℕ) : ℕ := time / gq.grnlrty % gq.numOfBuckets

/-- What `gq_push` did with a packet: the time it came with, the packet as it is stored, and
its bucket. -/
structure Pushed where
  requested : ℕ
  skb : SkBuff
  index : ℕ
  deriving DecidableEq, Repr

/-- The time at which `gq_push` stores a packet. -/
def clampTs (gq : GradientQueue) (ts : ℕ) : ℕ :=
  let ts := if ts < gq.headTs then gq.headTs else ts
  if ts > gq.maxTs then gq.maxTs else ts

def gqPush (gq : GradientQueue) (skb : SkBuff) : GradientQueue × Pushed :=
  let requested := skb.skbMstampNs
  let skb := { skb with skbMstampNs := clampTs gq skb.skbMstampNs }
  let index := timeToIndex gq skb.skbMstampNs
  ({ gq with
      numOfElements := gq.numOfElements + 1
      mainBuckets := Function.update gq.mainBuckets index
        (bucketQueueAdd (gq.mainBuckets index) skb) },
    { requested := requested, skb := skb, index := index })

/-- The wheel turned to another head. -/
def GradientQueue.turn (gq : GradientQueue) (headTs : ℕ) : GradientQueue :=
  { gq with headTs := headTs, maxTs := (headTs + gq.horizon) % 2 ^ 64 }

/-- Whether the bucket of a time has packets. -/
def occupied (gq : GradientQueue) (time : ℕ) : Bool :=
  decide ((gq.mainBuckets (timeToIndex gq time)).qlen ≠ 0)

/-- `get_min_index`: the wheel with its new head, and the index; `none` when its loop does not
end. -/
def getMinIndex (gq : GradientQueue) (now : ℕ) : Option (GradientQueue × ℕ) :=
  (Loop.seek now gq.grnlrty (occupied gq) (2 ^ 64) gq.headTs).map fun headTs =>
    (gq.turn headTs, timeToIndex gq headTs)

/-- The wheel of an empty queue starts at the clock. -/
def restart (gq : GradientQueue) (now : ℕ) : GradientQueue :=
  { gq with headTs := now, mainTs := now, maxTs := (now + gq.horizon) % 2 ^ 64 }

/-- `gq_extract`, with the index of the bucket that it took a packet from. -/
def gqExtract (gq : GradientQueue) (now : ℕ) : Option (GradientQueue × Option (SkBuff × ℕ)) :=
  if gq.numOfElements = 0 then some (restart gq now, none)
  else
    (getMinIndex gq now).map fun (gq, index) =>
      if (gq.mainBuckets index).qlen = 0 then (gq, none)
      else
        let (skb, bucket) := gqBucketDequeueHead (gq.mainBuckets index)
        ({ gq with
            numOfElements := gq.numOfElements - 1
            mainBuckets := Function.update gq.mainBuckets index bucket },
          skb.map fun skb => (skb, index))

/-! ### The callbacks -/

/-- The discipline; `qlen` is `sch->q.qlen`, of type `__u32`. -/
structure Qdisc where
  gq : GradientQueue
  qlen : ℕ
  limit : ℕ

structure EnqueueResult where
  sch : Qdisc
  ret : NetXmit
  pushed : List Pushed

/-- `gq_push(q->gq, skb); sch->q.qlen++`. -/
def pushOne (sch : Qdisc) (skb : SkBuff) : Qdisc × Pushed :=
  let (gq, pushed) := gqPush sch.gq skb
  ({ sch with gq := gq, qlen := (sch.qlen + 1) % 2 ^ 32 }, pushed)

/-- The loop of `gq_segment` on segments that have their times. -/
def segmentLoop : List SkBuff → Qdisc → Qdisc × List Pushed
  | [], sch => (sch, [])
  | seg :: segs, sch =>
      -- a segment beyond the limit is dropped, and counted
      if sch.gq.numOfElements ≥ sch.limit then
        segmentLoop segs { sch with qlen := (sch.qlen + 1) % 2 ^ 32 }
      else
        let (sch, pushed) := pushOne sch seg
        let (sch, rest) := segmentLoop segs sch
        (sch, pushed :: rest)

/-- `gq_segment`; `segs` is the answer of `skb_gso_segment`, empty for an error. -/
def gqSegment (sch : Qdisc) (skb : SkBuff) (segs : List SkBuff) : EnqueueResult :=
  if pacingRate skb = 0 then
    let (sch, pushed) := pushOne sch skb
    { sch := sch, ret := .success, pushed := [pushed] }
  else if segs = [] then { sch := sch, ret := .drop, pushed := [] }
  else
    let (sch, pushed) := segmentLoop
      (segmentTimes (hdrLen skb) (pacingRate skb) segs skb.skbMstampNs) sch
    { sch := sch, ret := if pushed = [] then .drop else .success, pushed := pushed }

def gqEnqueue (P : Params) (sch : Qdisc) (now : ℕ) (skb : SkBuff) (segs : List SkBuff) :
    EnqueueResult :=
  let sch := if sch.gq.numOfElements = 0 then { sch with gq := restart sch.gq now } else sch
  if sch.gq.numOfElements ≥ sch.limit then { sch := sch, ret := .drop, pushed := [] }
  else if P.gsoSplit && skb.isGso then gqSegment sch skb segs
  else
    let (sch, pushed) := pushOne sch skb
    { sch := sch, ret := .success, pushed := [pushed] }

/-- The outcome of `gq_dequeue`: the packet with the index of its bucket, and the time that
the watchdog is armed for. -/
structure DequeueResult where
  sch : Qdisc
  skb : Option (SkBuff × ℕ)
  watchdog : Option ℕ

/-- `gq_dequeue`; `none` when the loop of `get_min_index` does not end. -/
def gqDequeue (sch : Qdisc) (now : ℕ) : Option DequeueResult :=
  (gqExtract sch.gq now).map fun (gq, skb) =>
    match skb with
    | none =>
        { sch := { sch with gq := gq }, skb := none
          watchdog := if gq.numOfElements = 0 then none else some ((now + gq.grnlrty) % 2 ^ 64) }
    | some skb =>
        { sch := { sch with gq := gq, qlen := (sch.qlen + 2 ^ 32 - 1) % 2 ^ 32 }, skb := some skb
          watchdog := none }

/-- `gq_reset`. -/
def gqReset (sch : Qdisc) : Qdisc :=
  { sch with
    gq := { sch.gq with mainBuckets := fun i =>
      if i < sch.gq.numOfBuckets then .empty else sch.gq.mainBuckets i }
    qlen := 0 }

/-- `gq_p->num_of_buckets`. -/
def numBuckets (P : Params) : ℕ := 1 + P.horizonNs / P.granularity

/-- The discipline that `gq_init` sets up at clock value `now`; `memory` is what the allocated array
held.  The loop over the buckets has a counter of type `int`: after `2^31 - 1` it is negative, which
ends the comparison with the unsigned number of buckets, and the buckets from there on keep what
they held. -/
def initQdisc (P : Params) (now : ℕ) (memory : ℕ → GqBucket) : Qdisc :=
  { gq := { headTs := now, grnlrty := P.granularity, numOfElements := 0
            numOfBuckets := numBuckets P
            mainTs := now, maxTs := (now + P.horizonNs) % 2 ^ 64, horizon := P.horizonNs
            mainBuckets := fun i =>
              if 2 ^ 31 ≤ i ∧ i < numBuckets P then memory i else .empty }
    qlen := 0, limit := schLimit }

/-- `gq_init`, which divides by the granularity. -/
def gqInit (P : Params) (now : ℕ) (memory : ℕ → GqBucket) : Option Qdisc :=
  if P.granularity = 0 then none else some (initQdisc P now memory)

lemma gqInit_eq_some_iff {P : Params} {now : ℕ} {memory : ℕ → GqBucket} {sch : Qdisc} :
    gqInit P now memory = some sch ↔ 0 < P.granularity ∧ sch = initQdisc P now memory := by
  rw [gqInit, Nat.pos_iff_ne_zero, eq_comm (a := sch)]
  split_ifs with hzero
  · simp [hzero]
  · simp [hzero]

/-! ### Runs -/

/-- A packet in the wheel. -/
structure Stored extends Pushed where
  /-- The number of packets stored before it. -/
  seq : ℕ
  deriving DecidableEq, Repr

/-- A discipline and its history. -/
structure World where
  sch : Qdisc
  /-- What is in the wheel, in the order of arrival. -/
  held : List Stored
  /-- What was returned, in order. -/
  sent : List Stored
  count : ℕ
  /-- The last reading of the clock. -/
  clock : ℕ

/-- A call of a callback; `segs` is the answer of `skb_gso_segment`. -/
inductive Op where
  | enqueue (now : ℕ) (skb : SkBuff) (segs : List SkBuff)
  | dequeue (now : ℕ)
  | reset

/-- Numbering what was pushed. -/
def numbered : ℕ → List Pushed → List Stored
  | _, [] => []
  | count, p :: ps => { p with seq := count } :: numbered (count + 1) ps

/-- The entry of the packet that a dequeue returned: the first one of its bucket. -/
def popped (held : List Stored) (skb : Option (SkBuff × ℕ)) : List Stored :=
  match skb with
  | none => []
  | some (_, index) => (slot (fun e => e.index) held index).take 1

/-- One call; `none` when it does not return. -/
def World.step (P : Params) (w : World) : Op → Option World
  | .enqueue now skb segs =>
      let r := gqEnqueue P w.sch now skb segs
      some { w with
        sch := r.sch, held := w.held ++ numbered w.count r.pushed
        count := w.count + r.pushed.length, clock := now }
  | .dequeue now =>
      (gqDequeue w.sch now).map fun r =>
        let out := popped w.held r.skb
        { w with
          sch := r.sch, held := without Stored.seq w.held (out.map Stored.seq)
          sent := w.sent ++ out, clock := now }
  | .reset => some { w with sch := gqReset w.sch, held := [] }

/-- A discipline at the start of its history. -/
def World.start (sch : Qdisc) (now : ℕ) : World :=
  { sch := sch, held := [], sent := [], count := 0, clock := now }

/-- The worlds after `gq_init`; `ktime_get_ns` is below `2^63`. -/
def World.Initial (P : Params) (w : World) : Prop :=
  ∃ now memory sch, now < 2 ^ 63 ∧ gqInit P now memory = some sch ∧ w = World.start sch now

/-- The worlds reached from `gq_init` by calls that satisfy `ok`. -/
abbrev Reach (P : Params) (ok : World → Op → Prop) : World → Prop :=
  Machine.Reach (World.step P) (World.Initial P) ok

/-! ### Concrete runs -/

/-- A run from `gq_init` at clock `0` whose last world satisfies `p` reaches such a world. -/
lemma exists_reach (P : Params) (ok : World → Op → Prop) [∀ w op, Decidable (ok w op)]
    (ops : List Op) (p : World → Prop) [DecidablePred p]
    (h : ((gqInit P 0 fun _ => .empty).bind fun sch =>
      Machine.run (World.step P) ok (World.start sch 0) ops).any (fun w => p w) = true) :
    ∃ w, Reach P ok w ∧ p w := by
  cases hinit : gqInit P 0 fun _ => .empty with
  | none => simp [hinit] at h
  | some sch =>
      rw [hinit, Option.bind_some] at h
      exact Machine.exists_reach ⟨0, fun _ => .empty, sch, by norm_num, hinit, rfl⟩ ops p h

/-- A packet of `1500` bytes that is not segmented. -/
def packetAt (ptr ts : ℕ) : SkBuff :=
  { ptr := ptr, len := 1500, skbMstampNs := ts, skPacingRate := none, isGso := false
    transportOffset := 34, tcpHdrlen := 20 }

end Carousel
