import Mathlib.Tactic

/-!
What `sch_carousel.c` and `sch_eiffel.c` have in common: packets, buckets, module parameters
and the segmentation of large packets.

* `SkBuff`, `GqBucket`: a packet and a bucket; the linked packets of a bucket, from `head` to
  `tail`, are a list, and `qlen` is the counter of the source.
* `gqBucketDequeueHead`, `bucketQueueAdd`: the two operations on a bucket; `shelf`, `Counted`:
  the packets of all buckets, and that a counter is right.
* `Params`: the module parameters, words of 32 bits; the horizon in nanoseconds is then far from
  the end of the 64-bit range, which the callbacks' sums of times rely on.
* `segmentTimes`: the loop of `gq_segment` without its pushes, which gives each segment its time.
  The two schedulers push the segments into different queues, but the times do not depend on
  that.
-/

namespace Gq

def nsecPerSec : ℕ := 1000000000

structure SkBuff where
  ptr : ℕ
  len : ℕ
  skbMstampNs : ℕ
  /-- The pacing rate of its socket, if it has one. -/
  skPacingRate : Option ℕ
  isGso : Bool
  transportOffset : ℕ
  tcpHdrlen : ℕ
  deriving DecidableEq, Repr

structure GqBucket where
  packets : List SkBuff
  qlen : ℕ
  deriving DecidableEq, Repr

def gqBucketDequeueHead (bucket : GqBucket) : Option SkBuff × GqBucket :=
  match bucket.packets with
  | [] => (none, bucket)
  | skb :: rest => (some skb, { packets := rest, qlen := bucket.qlen - 1 })

def bucketQueueAdd (bucket : GqBucket) (skb : SkBuff) : GqBucket :=
  { packets := bucket.packets ++ [skb], qlen := bucket.qlen + 1 }

def GqBucket.empty : GqBucket := { packets := [], qlen := 0 }

/-- The counter of a bucket is right. -/
def GqBucket.Counted (b : GqBucket) : Prop := b.qlen = b.packets.length

lemma GqBucket.Counted.add {b : GqBucket} (h : b.Counted) (skb : SkBuff) :
    (bucketQueueAdd b skb).Counted := by
  rw [Counted, bucketQueueAdd, List.length_append, ← h]
  rfl

lemma GqBucket.Counted.tail {b : GqBucket} (h : b.Counted) {skb : SkBuff} {rest : List SkBuff}
    (hb : b.packets = skb :: rest) :
    ({ packets := rest, qlen := b.qlen - 1 } : GqBucket).Counted := by
  rw [Counted, h, hb]
  rfl

/-- The packets of all buckets. -/
def shelf (buckets : ℕ → GqBucket) (i : ℕ) : List SkBuff := (buckets i).packets

lemma shelf_update (buckets : ℕ → GqBucket) (i : ℕ) (b : GqBucket) :
    shelf (Function.update buckets i b) = Function.update (shelf buckets) i b.packets :=
  Function.comp_update GqBucket.packets buckets i b

/-- The module parameters; granularity in nanoseconds and horizon in seconds are of type
`unsigned int`. -/
structure Params where
  gsoSplit : Bool
  granularity : ℕ
  horizon : ℕ
  granularity_lt : granularity < 2 ^ 32
  horizon_lt : horizon < 2 ^ 32

/-- The default granularity, as a word. -/
lemma default_granularity_lt : 1000 < 2 ^ 32 := by norm_num

/-- The default horizon. -/
lemma default_horizon_lt : 10 < 2 ^ 32 := by norm_num

/-- A horizon of one second. -/
lemma second_horizon_lt : 1 < 2 ^ 32 := by norm_num

def Params.horizonNs (P : Params) : ℕ := P.horizon * nsecPerSec

/-- The horizon is below `2^32` seconds. -/
lemma horizonNs_lt (P : Params) : P.horizonNs < 2 ^ 62 := by
  have hlt := P.horizon_lt
  rw [Params.horizonNs, nsecPerSec]
  omega

/-- `sch->limit`. -/
def schLimit : ℕ := 80000

inductive NetXmit where
  | success
  | drop
  deriving DecidableEq, Repr

/-- `skb->sk != NULL ? skb->sk->sk_pacing_rate : 0`. -/
def pacingRate (skb : SkBuff) : ℕ := skb.skPacingRate.getD 0

/-- The header length of `gq_segment`, of type `u8`. -/
def hdrLen (skb : SkBuff) : ℕ := (skb.transportOffset + skb.tcpHdrlen) % 2 ^ 8

/-- The send time after a segment. -/
def nextTime (hdrLen rate sendTimeNs : ℕ) (seg : SkBuff) : ℕ :=
  (sendTimeNs + (seg.len - min hdrLen seg.len) * nsecPerSec % 2 ^ 64 / rate) % 2 ^ 64

/-- The segments with the times that the loop of `gq_segment` gives them. -/
def segmentTimes (hdrLen rate : ℕ) : List SkBuff → ℕ → List SkBuff
  | [], _ => []
  | seg :: segs, sendTimeNs =>
      { seg with skbMstampNs := sendTimeNs } ::
        segmentTimes hdrLen rate segs (nextTime hdrLen rate sendTimeNs seg)

lemma length_segmentTimes (hdrLen rate : ℕ) (segs : List SkBuff) :
    ∀ t, (segmentTimes hdrLen rate segs t).length = segs.length := by
  induction segs with
  | nil => exact fun t => rfl
  | cons seg segs ih =>
      intro t
      rw [segmentTimes, List.length_cons, ih, List.length_cons]

end Gq
