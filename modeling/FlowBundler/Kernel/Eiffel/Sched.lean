import FlowBundler.Kernel.Gq
import FlowBundler.Lib.Dyadic
import FlowBundler.Lib.Ledger
import FlowBundler.Lib.Machine

/-!
`sch_eiffel.c`: two arrays of buckets, each with a tree that says which of its buckets have
packets; the arrays are exchanged on a rotation.

* `CurvatureDesc`, `Side`, `GradientQueue`, `Qdisc`: a tree node, an array with its tree, the
  queue and the queueing discipline around it.
* `climb`, `markLoop`, `clearLoop`: the loops of `gq_push` and `gq_extract` over the ancestors of a
  bucket.
* `gqPush`, `getMinIndex`, `gqExtract`: the operations of the queue.
* `gqSegment`, `gqEnqueue`, `gqDequeue`, `gqReset`, `gqInit`: the callbacks.
* `World`, `World.step`: a discipline with the packets it holds and those it returned.
* `QueueOp`, `queueStep`, `QueueReach`: the queue under its own operations; `queueStep_cases`: what
  one of them does.
* `Keeps.enqueue`, `Keeps.dequeue`: the callbacks keep what the operations keep.

An operation answers `none` when it accesses an array outside its bounds: a tree has `s` nodes and
an array `num_of_buckets` buckets.  The links of a bucket are the order of its list, and statistics
are left out.
-/

namespace Eiffel

open Gq Ledger

/-! ### The queue -/

structure CurvatureDesc where
  /-- One bit for each child. -/
  a : ℕ
  c : ℕ
  abcI : ℕ
  wwI : ℕ
  deriving DecidableEq, Repr

/-- `main_buckets` with `meta1`, or `buffer_buckets` with `meta2`. -/
structure Side where
  buckets : ℕ → GqBucket
  tree : ℕ → CurvatureDesc

structure GradientQueue where
  grnlrty : ℕ
  numOfElements : ℕ
  numOfBuckets : ℕ
  w : ℕ
  l : ℕ
  s : ℕ
  mainTs : ℕ
  bufferTs : ℕ
  maxTs : ℕ
  horizon : ℕ
  main : Side
  buffer : Side

/-- The loops of `gq_push` and `gq_extract` over the ancestors of a bucket: `visit` changes a
node, and above a node that satisfies `stop` only counts change. -/
def climb (s : ℕ) (visit : Bool → ℕ → CurvatureDesc → CurvatureDesc) (stop : CurvatureDesc → Bool) :
    ℕ → ℕ → ℕ → Bool → (ℕ → CurvatureDesc) → Option (ℕ → CurvatureDesc)
  | 0, _, _, _, tree => some tree
  | n + 1, parentI, wI, done, tree =>
      if parentI ≥ s then none
      else
        let node := visit done wI (tree parentI)
        climb s visit stop n node.abcI node.wwI (done || stop node)
          (Function.update tree parentI node)

/-- A round of `gq_push`. -/
def mark (done : Bool) (wI : ℕ) (node : CurvatureDesc) : CurvatureDesc :=
  { node with
    a := if done then node.a else node.a ||| 1 <<< wI
    c := (node.c + 1) % 2 ^ 64 }

/-- A round of `gq_extract`. -/
def clear (done : Bool) (wI : ℕ) (node : CurvatureDesc) : CurvatureDesc :=
  { node with
    a := if done then node.a else node.a &&& (2 ^ 64 - 1 - 1 <<< wI)
    c := (node.c + 2 ^ 64 - 1) % 2 ^ 64 }

def markLoop (s : ℕ) : ℕ → ℕ → ℕ → Bool → (ℕ → CurvatureDesc) → Option (ℕ → CurvatureDesc) :=
  climb s mark fun node => decide (node.c > 1)

def clearLoop (s : ℕ) : ℕ → ℕ → ℕ → Bool → (ℕ → CurvatureDesc) → Option (ℕ → CurvatureDesc) :=
  climb s clear fun node => decide (node.c > 0)

/-- Adding a packet to a bucket of a side. -/
def Side.push (gq : GradientQueue) (side : Side) (index : ℕ) (skb : SkBuff) : Option Side :=
  if index ≥ gq.numOfBuckets then none
  else
    let bucket := side.buckets index
    let tree :=
      if bucket.qlen = 0 then
        let leaf := (gq.s + index + 2 ^ 64 - 1) % 2 ^ 64
        markLoop gq.s gq.l (leaf / gq.w) (leaf % gq.w) false side.tree
      else some side.tree
    tree.map fun tree =>
      { buckets := Function.update side.buckets index (bucketQueueAdd bucket skb), tree := tree }

/-- Taking the first packet of a bucket of a side. -/
def Side.pop (gq : GradientQueue) (side : Side) (index : ℕ) : Option (Option SkBuff × Side) :=
  if index ≥ gq.numOfBuckets then none
  else
    let (skb, bucket) := gqBucketDequeueHead (side.buckets index)
    let tree :=
      if bucket.qlen = 0 then
        let leaf := (gq.s + index + 2 ^ 64 - 1) % 2 ^ 64
        clearLoop gq.s gq.l (leaf / gq.w) (leaf % gq.w) false side.tree
      else some side.tree
    tree.map fun tree =>
      (skb, { buckets := Function.update side.buckets index bucket, tree := tree })

/-- What `gq_push` did with a packet: the time it came with, the packet as it is stored, and the
start time of its bucket. -/
structure Pushed where
  requested : ℕ
  skb : SkBuff
  key : ℕ
  deriving DecidableEq, Repr

/-- Where `gq_push` stores a packet: whether in the main array, the index and the time. -/
def pushPlace (gq : GradientQueue) (ts : ℕ) : Bool × ℕ × ℕ :=
  if ts < gq.bufferTs then
    if ts ≤ gq.mainTs then (true, 0, gq.mainTs)
    else (true, (ts - gq.mainTs) / gq.grnlrty, ts)
  else if ts ≥ gq.maxTs then
    (false, ((gq.maxTs + 2 ^ 64 - gq.bufferTs) % 2 ^ 64 / gq.grnlrty + 2 ^ 64 - 1) % 2 ^ 64,
      gq.maxTs)
  else (false, (ts - gq.bufferTs) / gq.grnlrty, ts)

def gqPush (gq : GradientQueue) (skb : SkBuff) : Option (GradientQueue × Pushed) :=
  let requested := skb.skbMstampNs
  let (inMain, index, ts) := pushPlace gq skb.skbMstampNs
  let skb := { skb with skbMstampNs := ts }
  let pushed (baseTs : ℕ) : Pushed :=
    { requested := requested, skb := skb, key := baseTs + index * gq.grnlrty }
  if inMain then
    (gq.main.push gq index skb).map fun side =>
      ({ gq with numOfElements := gq.numOfElements + 1, main := side }, pushed gq.mainTs)
  else
    (gq.buffer.push gq index skb).map fun side =>
      ({ gq with numOfElements := gq.numOfElements + 1, buffer := side }, pushed gq.bufferTs)

/-- The descent of `get_min_index` from node `i`. -/
def descend (gq : GradientQueue) (tree : ℕ → CurvatureDesc) : ℕ → ℕ → Option ℕ
  | 0, i => some i
  | n + 1, i =>
      if i ≥ gq.s then none
      else descend gq tree n (gq.w * i + Dyadic.lowBit 64 (tree i).a + 1)

/-- The index that `get_min_index` finds in a tree. -/
def Side.minIndex (gq : GradientQueue) (side : Side) : Option ℕ :=
  if (side.tree 0).a = 0 then some 0
  else (descend gq side.tree (gq.l - 1) (Dyadic.lowBit 64 (side.tree 0).a + 1)).map fun i =>
    (i + 2 ^ 64 - gq.s) % 2 ^ 64

/-- `get_min_index`; `-1` is `2^64 - 1`. -/
def getMinIndex (gq : GradientQueue) : Option ℕ :=
  if gq.s = 0 then none
  else if (gq.main.tree 0).c ≠ 0 then gq.main.minIndex gq
  else if (gq.buffer.tree 0).c ≠ 0 then gq.buffer.minIndex gq
  else some (2 ^ 64 - 1)

/-- An empty queue starts at the clock. -/
def restart (gq : GradientQueue) (now : ℕ) : GradientQueue :=
  { gq with
    mainTs := now, bufferTs := (now + gq.horizon) % 2 ^ 64
    maxTs := (now + gq.horizon + gq.horizon) % 2 ^ 64 }

/-- The start time of the bucket that `get_min_index` found. -/
def minTs (gq : GradientQueue) (index : ℕ) : ℕ :=
  (index * gq.grnlrty + if (gq.main.tree 0).c ≠ 0 then gq.mainTs else gq.bufferTs) % 2 ^ 64

/-- `gq_extract`: the queue, the index and the packet. -/
def gqExtract (gq : GradientQueue) (now : ℕ) :
    Option (GradientQueue × ℕ × Option SkBuff) :=
  (getMinIndex gq).bind fun index =>
    if gq.numOfElements = 0 then some (restart gq now, index, none)
    else if minTs gq index > now then some (gq, index, none)
    else if (gq.main.tree 0).c ≠ 0 then
      (gq.main.pop gq index).map fun (skb, side) =>
        ({ gq with numOfElements := gq.numOfElements - 1, main := side }, index, skb)
    else
      (gq.buffer.pop gq index).map fun (skb, side) =>
        ({ gq with numOfElements := gq.numOfElements - 1, buffer := side }, index, skb)

/-- The rotation of `gq_dequeue`. -/
def rotate (gq : GradientQueue) (now : ℕ) : GradientQueue :=
  if gq.bufferTs < now ∧ (gq.main.tree 0).c = 0 then
    { gq with
      main := gq.buffer, buffer := gq.main, mainTs := gq.bufferTs
      bufferTs := (gq.bufferTs + gq.horizon) % 2 ^ 64
      maxTs := ((gq.bufferTs + gq.horizon) % 2 ^ 64 + gq.horizon) % 2 ^ 64 }
  else gq

/-! ### The callbacks -/

/-- The discipline; `qlen` is `sch->q.qlen`, of type `__u32`. -/
structure Qdisc where
  gq : GradientQueue
  qlen : ℕ
  limit : ℕ
  /-- `watchdog.last_expires`. -/
  lastExpires : ℕ

structure EnqueueResult where
  sch : Qdisc
  ret : NetXmit
  pushed : List Pushed

/-- `gq_push(q->gq, skb)`. -/
def pushOne (sch : Qdisc) (skb : SkBuff) : Option (Qdisc × Pushed) :=
  (gqPush sch.gq skb).map fun (gq, pushed) => ({ sch with gq := gq }, pushed)

/-- `sch->q.qlen++`. -/
def Qdisc.countUp (sch : Qdisc) : Qdisc := { sch with qlen := (sch.qlen + 1) % 2 ^ 32 }

/-- The loop of `gq_segment` on segments that have their times. -/
def segmentLoop : List SkBuff → Qdisc → Option (Qdisc × List Pushed)
  | [], sch => some (sch, [])
  | seg :: segs, sch =>
      -- a segment beyond the limit is dropped, and counted
      if sch.gq.numOfElements ≥ sch.limit then segmentLoop segs sch.countUp
      else
        (pushOne sch seg).bind fun (sch, pushed) =>
          (segmentLoop segs sch.countUp).map fun (sch, rest) => (sch, pushed :: rest)

/-- `gq_segment`; `segs` is the answer of `skb_gso_segment`, empty for an error. -/
def gqSegment (sch : Qdisc) (skb : SkBuff) (segs : List SkBuff) : Option EnqueueResult :=
  if pacingRate skb = 0 then
    (pushOne sch skb).map fun (sch, pushed) =>
      { sch := sch.countUp, ret := .success, pushed := [pushed] }
  else if segs = [] then some { sch := sch, ret := .drop, pushed := [] }
  else
    (segmentLoop (segmentTimes (hdrLen skb) (pacingRate skb) segs skb.skbMstampNs) sch).map
      fun (sch, pushed) =>
        { sch := sch, ret := if pushed = [] then .drop else .success, pushed := pushed }

def gqEnqueue (P : Params) (sch : Qdisc) (now : ℕ) (skb : SkBuff) (segs : List SkBuff) :
    Option EnqueueResult :=
  let sch := if sch.gq.numOfElements = 0 then { sch with gq := restart sch.gq now } else sch
  if sch.gq.numOfElements ≥ sch.limit then some { sch := sch, ret := .drop, pushed := [] }
  else if P.gsoSplit && skb.isGso then gqSegment sch skb segs
  else
    (pushOne sch skb).map fun (sch, pushed) =>
      { sch := sch, ret := .success, pushed := [pushed] }

/-- The outcome of `gq_dequeue`: the packet with the start time of its bucket, and the time that
the watchdog is armed for. -/
structure DequeueResult where
  sch : Qdisc
  skb : Option (SkBuff × ℕ)
  watchdog : Option ℕ

/-- The part of `gq_dequeue` after `gq_extract` returned nothing. -/
def armWatchdog (sch : Qdisc) (now index : ℕ) : DequeueResult :=
  let timeOfMinPkt := minTs sch.gq index
  if sch.gq.numOfElements = 0 ∨ timeOfMinPkt > sch.lastExpires ∧ timeOfMinPkt < now then
    { sch := sch, skb := none, watchdog := none }
  else
    { sch := { sch with lastExpires := timeOfMinPkt }, skb := none, watchdog := some timeOfMinPkt }

def gqDequeue (sch : Qdisc) (now : ℕ) : Option DequeueResult :=
  (gqExtract sch.gq now).map fun (gq, index, skb) =>
    match skb with
    | none => armWatchdog { sch with gq := gq } now index
    | some skb =>
        { sch := { sch with gq := rotate gq now }, skb := some (skb, minTs sch.gq index)
          watchdog := none }

/-- An array of buckets or a tree after a `memset`. -/
def Side.reset (nb s : ℕ) (side : Side) : Side :=
  { buckets := fun i => if i < nb then .empty else side.buckets i
    tree := fun i => if i < s then { a := 0, c := 0, abcI := 0, wwI := 0 } else side.tree i }

/-- `gq_reset`. -/
def gqReset (sch : Qdisc) : Qdisc :=
  { sch with
    gq := { sch.gq with
      main := sch.gq.main.reset sch.gq.numOfBuckets sch.gq.s
      buffer := sch.gq.buffer.reset sch.gq.numOfBuckets sch.gq.s }
    qlen := 0 }

/-! ### Initialisation -/

/-- One round of the loop of `log_approx`, for the mask `b` and the shift `s`. -/
def logRound (st : ℕ × ℕ) (bs : ℕ × ℕ) : ℕ × ℕ :=
  if st.1 &&& bs.1 ≠ 0 then (st.1 >>> bs.2, st.2 ||| bs.2) else st

/-- `log_approx` on a 32-bit number. -/
def logApprox (v : ℕ) : ℕ :=
  ([(0xFFFF0000, 16), (0xFF00, 8), (0xF0, 4), (0xC, 2), (0x2, 1)].foldl logRound
    (v % 2 ^ 32, 0)).2

/-- `num_of_buckets`. -/
def numBuckets (P : Params) : ℕ := P.horizonNs / P.granularity

def base : ℕ := 32

/-- `l`, the number of levels of the trees. -/
def levels (P : Params) : ℕ := (logApprox (numBuckets P) + logApprox base - 1) / logApprox base

/-- `s`, the number of nodes of a tree. -/
def nodes (P : Params) : ℕ := (base ^ levels P - 1) / (base - 1)

/-- The node that `gq_init` sets up, with the links to its parent; those of the root come from
`(0 - 1)` as an unsigned number. -/
def initNode (i : ℕ) : CurvatureDesc :=
  { a := 0, c := 0, abcI := (i + 2 ^ 64 - 1) % 2 ^ 64 / base
    wwI := (i + 2 ^ 64 - 1) % 2 ^ 64 % base }

/-- A side after `gq_init`; `memory` is what the allocated array held.  The loop over the buckets
has a counter of type `int`. -/
def initSide (P : Params) (memory : ℕ → GqBucket) : Side :=
  { buckets := fun i => if i < min (numBuckets P) (2 ^ 31) then .empty else memory i
    tree := initNode }

/-- The discipline that `gq_init` sets up at clock value `now`. -/
def initQdisc (P : Params) (now lastExpires : ℕ) (memory memory' : ℕ → GqBucket) : Qdisc :=
  { gq := { grnlrty := P.granularity, numOfElements := 0, numOfBuckets := numBuckets P
            w := base, l := levels P, s := nodes P
            mainTs := now, bufferTs := (now + P.horizonNs) % 2 ^ 64
            maxTs := (now + P.horizonNs + P.horizonNs) % 2 ^ 64, horizon := P.horizonNs
            main := initSide P memory, buffer := initSide P memory' }
    qlen := 0, limit := schLimit, lastExpires := lastExpires }

/-- `gq_init`, which divides by the granularity. -/
def gqInit (P : Params) (now lastExpires : ℕ) (memory memory' : ℕ → GqBucket) : Option Qdisc :=
  if P.granularity = 0 then none else some (initQdisc P now lastExpires memory memory')

lemma gqInit_eq_some_iff {P : Params} {now lastExpires : ℕ} {memory memory' : ℕ → GqBucket}
    {sch : Qdisc} : gqInit P now lastExpires memory memory' = some sch ↔
      0 < P.granularity ∧ sch = initQdisc P now lastExpires memory memory' := by
  rw [gqInit, Nat.pos_iff_ne_zero, eq_comm (a := sch)]
  split_ifs with hzero
  · simp [hzero]
  · simp [hzero]

/-! ### Runs -/

/-- A packet in the queue. -/
structure Stored extends Pushed where
  /-- The number of packets stored before it. -/
  seq : ℕ
  deriving DecidableEq, Repr

/-- A discipline and its history. -/
structure World where
  sch : Qdisc
  /-- What is in the queue, in the order of arrival. -/
  held : List Stored
  /-- What was returned, in order. -/
  sent : List Stored
  count : ℕ
  /-- The last reading of the clock. -/
  clock : ℕ

/-- A call of a callback; `segs` is the answer of `skb_gso_segment`. -/
inductive Op where
  | enqueue (now : ℕ) (skb : SkBuff) (segs : List SkBuff)
  | dequeue (now : ℕ)
  | reset

/-- Numbering what was pushed. -/
def numbered : ℕ → List Pushed → List Stored
  | _, [] => []
  | count, p :: ps => { p with seq := count } :: numbered (count + 1) ps

/-- The entry of the packet that a dequeue returned: the first one of its bucket. -/
def popped (held : List Stored) (skb : Option (SkBuff × ℕ)) : List Stored :=
  match skb with
  | none => []
  | some (_, key) => (slot (fun e => e.key) held key).take 1

/-- One call; `none` when it faults. -/
def World.step (P : Params) (w : World) : Op → Option World
  | .enqueue now skb segs =>
      (gqEnqueue P w.sch now skb segs).map fun r =>
        { w with
          sch := r.sch, held := w.held ++ numbered w.count r.pushed
          count := w.count + r.pushed.length, clock := now }
  | .dequeue now =>
      (gqDequeue w.sch now).map fun r =>
        let out := popped w.held r.skb
        { w with
          sch := r.sch, held := without Stored.seq w.held (out.map Stored.seq)
          sent := w.sent ++ out, clock := now }
  | .reset => some { w with sch := gqReset w.sch, held := [] }

/-- A discipline at the start of its history. -/
def World.start (sch : Qdisc) (now : ℕ) : World :=
  { sch := sch, held := [], sent := [], count := 0, clock := now }

/-- The worlds after `gq_init`; `ktime_get_ns` is below `2^63`. -/
def World.Initial (P : Params) (w : World) : Prop :=
  ∃ now lastExpires memory memory' sch, now < 2 ^ 63 ∧
    gqInit P now lastExpires memory memory' = some sch ∧ w = World.start sch now

/-- The worlds reached from `gq_init` by calls that satisfy `ok`. -/
abbrev Reach (P : Params) (ok : World → Op → Prop) : World → Prop :=
  Machine.Reach (World.step P) (World.Initial P) ok

/-! ### The queue under its own operations -/

/-- The operations on a queue; a rotation is the part of `gq_dequeue` behind `gq_extract`, and a
restart the part of `gq_enqueue` before `gq_push`. -/
inductive QueueOp where
  | push (skb : SkBuff)
  | extract (now : ℕ)
  | rotate (now : ℕ)
  | restart (now : ℕ)

/-- The operation reads the clock at `now`, if at all. -/
def QueueOp.At (now : ℕ) : QueueOp → Prop
  | .push _ => True
  | .extract t => t = now
  | .rotate t => t = now
  | .restart t => t = now

/-- A clock reading is below `2^63`. -/
def QueueOp.Clocked : QueueOp → Prop
  | .push _ => True
  | .extract t => t < 2 ^ 63
  | .rotate t => t < 2 ^ 63
  | .restart t => t < 2 ^ 63

instance : (op : QueueOp) → Decidable op.Clocked
  | .push _ => inferInstanceAs (Decidable True)
  | .extract _ => inferInstanceAs (Decidable (_ < _))
  | .rotate _ => inferInstanceAs (Decidable (_ < _))
  | .restart _ => inferInstanceAs (Decidable (_ < _))

/-- One operation; `none` when it faults. -/
def queueStep (gq : GradientQueue) : QueueOp → Option GradientQueue
  | .push skb => (gqPush gq skb).map Prod.fst
  | .extract now => (gqExtract gq now).map Prod.fst
  | .rotate now => some (rotate gq now)
  | .restart now => some (restart gq now)

/-- What one operation does to the queue. -/
inductive QueueCases (gq : GradientQueue) : QueueOp → GradientQueue → Prop
  | pushMain (skb : SkBuff) (index ts : ℕ) (side : Side)
      (hplace : pushPlace gq skb.skbMstampNs = (true, index, ts))
      (hpush : gq.main.push gq index { skb with skbMstampNs := ts } = some side) :
      QueueCases gq (.push skb) { gq with numOfElements := gq.numOfElements + 1, main := side }
  | pushBuffer (skb : SkBuff) (index ts : ℕ) (side : Side)
      (hplace : pushPlace gq skb.skbMstampNs = (false, index, ts))
      (hpush : gq.buffer.push gq index { skb with skbMstampNs := ts } = some side) :
      QueueCases gq (.push skb) { gq with numOfElements := gq.numOfElements + 1, buffer := side }
  /-- An extraction from an empty queue restarts it. -/
  | idle (now : ℕ) (hnum : gq.numOfElements = 0) : QueueCases gq (.extract now) (restart gq now)
  /-- The least bucket is not due. -/
  | wait (now index : ℕ) (hmin : getMinIndex gq = some index) (hnum : gq.numOfElements ≠ 0)
      (hlate : minTs gq index > now) : QueueCases gq (.extract now) gq
  | popMain (now index : ℕ) (skb : Option SkBuff) (side : Side)
      (hmin : getMinIndex gq = some index) (hnum : gq.numOfElements ≠ 0)
      (hdue : ¬ minTs gq index > now) (hroot : (gq.main.tree 0).c ≠ 0)
      (hpop : gq.main.pop gq index = some (skb, side)) :
      QueueCases gq (.extract now) { gq with numOfElements := gq.numOfElements - 1, main := side }
  | popBuffer (now index : ℕ) (skb : Option SkBuff) (side : Side)
      (hmin : getMinIndex gq = some index) (hnum : gq.numOfElements ≠ 0)
      (hdue : ¬ minTs gq index > now) (hroot : (gq.main.tree 0).c = 0)
      (hpop : gq.buffer.pop gq index = some (skb, side)) :
      QueueCases gq (.extract now) { gq with numOfElements := gq.numOfElements - 1, buffer := side }
  | turn (now : ℕ) (hturn : gq.bufferTs < now ∧ (gq.main.tree 0).c = 0) :
      QueueCases gq (.rotate now) { gq with
        main := gq.buffer, buffer := gq.main, mainTs := gq.bufferTs
        bufferTs := (gq.bufferTs + gq.horizon) % 2 ^ 64
        maxTs := ((gq.bufferTs + gq.horizon) % 2 ^ 64 + gq.horizon) % 2 ^ 64 }
  | stay (now : ℕ) (hturn : ¬ (gq.bufferTs < now ∧ (gq.main.tree 0).c = 0)) :
      QueueCases gq (.rotate now) gq
  | restart (now : ℕ) : QueueCases gq (.restart now) (restart gq now)

/-- **One operation**: its outcomes. -/
lemma queueStep_cases {gq gq' : GradientQueue} {op : QueueOp}
    (hstep : queueStep gq op = some gq') : QueueCases gq op gq' := by
  cases op with
  | push skb =>
      obtain ⟨⟨gq₁, p⟩, hrun, rfl⟩ := Option.map_eq_some_iff.mp hstep
      obtain ⟨⟨inMain, index, ts⟩, hplace⟩ : ∃ place, pushPlace gq skb.skbMstampNs = place :=
        ⟨_, rfl⟩
      rw [gqPush, hplace] at hrun
      dsimp only at hrun
      cases inMain with
      | true =>
          obtain ⟨side, hpush, heq⟩ := Option.map_eq_some_iff.mp hrun
          obtain ⟨rfl, -⟩ := Prod.mk.inj heq
          exact .pushMain skb index ts side hplace hpush
      | false =>
          obtain ⟨side, hpush, heq⟩ := Option.map_eq_some_iff.mp hrun
          obtain ⟨rfl, -⟩ := Prod.mk.inj heq
          exact .pushBuffer skb index ts side hplace hpush
  | extract now =>
      obtain ⟨⟨gq₁, i, skb⟩, hrun, rfl⟩ := Option.map_eq_some_iff.mp hstep
      obtain ⟨index, hmin, hrun⟩ := Option.bind_eq_some_iff.mp hrun
      split at hrun
      · rename_i hnum
        obtain ⟨rfl, -⟩ := Prod.mk.inj (Option.some.inj hrun)
        exact .idle now hnum
      · rename_i hnum
        split at hrun
        · rename_i hlate
          obtain ⟨rfl, -⟩ := Prod.mk.inj (Option.some.inj hrun)
          exact .wait now index hmin hnum hlate
        · rename_i hdue
          split at hrun
          · rename_i hroot
            obtain ⟨⟨out, side⟩, hpop, heq⟩ := Option.map_eq_some_iff.mp hrun
            obtain ⟨rfl, -⟩ := Prod.mk.inj heq
            exact .popMain now index out side hmin hnum hdue hroot hpop
          · rename_i hroot
            obtain ⟨⟨out, side⟩, hpop, heq⟩ := Option.map_eq_some_iff.mp hrun
            obtain ⟨rfl, -⟩ := Prod.mk.inj heq
            exact .popBuffer now index out side hmin hnum hdue (not_not.mp hroot) hpop
  | rotate now =>
      rw [← Option.some.inj hstep, rotate]
      split
      · rename_i hturn
        exact .turn now hturn
      · rename_i hturn
        exact .stay now hturn
  | restart now =>
      rw [← Option.some.inj hstep]
      exact .restart now

/-- The queue after `gq_init`. -/
def QueueInit (P : Params) (gq : GradientQueue) : Prop :=
  ∃ now lastExpires memory memory' sch, now < 2 ^ 63 ∧
    gqInit P now lastExpires memory memory' = some sch ∧ gq = sch.gq

/-- The queues reached from `gq_init` by any operations. -/
abbrev QueueReach (P : Params) : GradientQueue → Prop :=
  Machine.Reach queueStep (QueueInit P) fun _ op => op.Clocked

/-- An operation of a callback at a clock value below `2^63`. -/
lemma QueueOp.At.clocked {op : QueueOp} {now : ℕ} (h : op.At now) (hnow : now < 2 ^ 63) :
    op.Clocked := by
  cases op with
  | push skb => trivial
  | extract t => exact h.trans_lt hnow
  | rotate t => exact h.trans_lt hnow
  | restart t => exact h.trans_lt hnow

section Keeps

variable {I : GradientQueue → Prop} {sch sch' : Qdisc} {now : ℕ}

/-- The operations at clock value `now` keep `I`. -/
def Keeps (now : ℕ) (I : GradientQueue → Prop) : Prop :=
  ∀ gq gq' op, I gq → op.At now → queueStep gq op = some gq' → I gq'

lemma Keeps.pushOne (hI : Keeps now I) (h : I sch.gq) {skb : SkBuff} {p : Pushed}
    (hrun : pushOne sch skb = some (sch', p)) : I sch'.gq ∧ sch'.limit = sch.limit := by
  obtain ⟨out, hpush, heq⟩ := Option.map_eq_some_iff.mp hrun
  obtain ⟨rfl, -⟩ := Prod.mk.inj heq
  exact ⟨hI _ _ (.push skb) h trivial (Option.map_eq_some_iff.mpr ⟨out, hpush, rfl⟩), rfl⟩

/-- The loop over the segments, by induction on them. -/
lemma Keeps.segmentLoop (hI : Keeps now I) (segs : List SkBuff) :
    ∀ {sch sch' : Qdisc} {ps : List Pushed}, I sch.gq →
      segmentLoop segs sch = some (sch', ps) → I sch'.gq ∧ sch'.limit = sch.limit := by
  induction segs with
  | nil =>
      intro sch sch' ps h hrun
      obtain ⟨rfl, -⟩ := Prod.mk.inj (Option.some.inj hrun)
      exact ⟨h, rfl⟩
  | cons seg segs ih =>
      intro sch sch' ps h hrun
      rw [Eiffel.segmentLoop] at hrun
      split at hrun
      · exact @ih sch.countUp _ _ h hrun
      · obtain ⟨⟨sch₁, p⟩, hpush, hrun⟩ := Option.bind_eq_some_iff.mp hrun
        obtain ⟨⟨sch₂, rest⟩, hrest, heq⟩ := Option.map_eq_some_iff.mp hrun
        obtain ⟨rfl, -⟩ := Prod.mk.inj heq
        obtain ⟨h₁, hlimit₁⟩ := hI.pushOne h hpush
        obtain ⟨h₂, hlimit₂⟩ := @ih sch₁.countUp _ _ h₁ hrest
        exact ⟨h₂, hlimit₂.trans hlimit₁⟩

/-- **The rule for an enqueue**: it keeps what the operations keep, and the limit. -/
lemma Keeps.enqueue {P : Params} (hI : Keeps now I) (h : I sch.gq) {skb : SkBuff}
    {segs : List SkBuff} {r : EnqueueResult} (hrun : gqEnqueue P sch now skb segs = some r) :
    I r.sch.gq ∧ r.sch.limit = sch.limit := by
  rw [gqEnqueue] at hrun
  set sch₀ : Qdisc :=
    if sch.gq.numOfElements = 0 then { sch with gq := restart sch.gq now } else sch
    with hsch₀
  have h₀ : I sch₀.gq ∧ sch₀.limit = sch.limit := by
    rw [hsch₀]
    split
    · exact ⟨hI _ _ (.restart now) h rfl rfl, rfl⟩
    · exact ⟨h, rfl⟩
  dsimp only at hrun
  split at hrun
  · rw [← Option.some.inj hrun]
    exact h₀
  · split at hrun
    · rw [gqSegment] at hrun
      split at hrun
      · obtain ⟨out, hpush, rfl⟩ := Option.map_eq_some_iff.mp hrun
        exact (hI.pushOne h₀.1 hpush).imp_right fun hlimit => hlimit.trans h₀.2
      · split at hrun
        · rw [← Option.some.inj hrun]
          exact h₀
        · obtain ⟨out, hloop, rfl⟩ := Option.map_eq_some_iff.mp hrun
          exact (hI.segmentLoop _ h₀.1 hloop).imp_right fun hlimit => hlimit.trans h₀.2
    · obtain ⟨out, hpush, rfl⟩ := Option.map_eq_some_iff.mp hrun
      exact (hI.pushOne h₀.1 hpush).imp_right fun hlimit => hlimit.trans h₀.2

/-- **The rule for a dequeue**: so does that. -/
lemma Keeps.dequeue (hI : Keeps now I) (h : I sch.gq) {r : DequeueResult}
    (hrun : gqDequeue sch now = some r) : I r.sch.gq ∧ r.sch.limit = sch.limit := by
  obtain ⟨⟨gq', index, skb⟩, hext, rfl⟩ := Option.map_eq_some_iff.mp hrun
  have h' : I gq' := hI _ _ (.extract now) h rfl (Option.map_eq_some_iff.mpr ⟨_, hext, rfl⟩)
  cases skb with
  | none =>
      dsimp only
      rw [armWatchdog]
      split
      · exact ⟨h', rfl⟩
      · exact ⟨h', rfl⟩
  | some skb => exact ⟨hI _ _ (.rotate now) h' rfl rfl, rfl⟩

/-- The operations of a callback reach only such queues. -/
lemma keeps_queueReach (P : Params) (hnow : now < 2 ^ 63) : Keeps now (QueueReach P) :=
  fun _ _ _ h hat hstep => h.step (hat.clocked hnow) hstep

end Keeps

end Eiffel
