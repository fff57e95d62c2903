import FlowBundler.Bess.Bookkeeping

/-!
Packets that `Insert` refuses, and what their round of `Enqueue` leaves behind.

* `FlowBundler.Untouched`: the schedule is as it was, for a flow.
* `FlowBundler.KeepsQueue`: what `Enqueue` and `Insert` store before the pool is asked is there
  already.
* `enqueueOne_rejected`: the state after a round on an exhausted pool.
* `rejected_untouched_iff`: a round with a refused packet leaves the schedule as it was exactly
  when it stores early what is there already.

On an exhausted pool the round runs up to the call of `GetElement`.  If the bitmap is not zero it
lowers `highest_rate_qid` to the queue index of the packet; if the bitmap is zero, as in a pool
without nodes, it sets the head time and that index as for a first packet.  The stamp of the flow is
written only for a packet that is taken, but a flow seen for the first time gets its default rate,
which is why the flow of the packet is asked to have one.
-/

namespace Bess

open FlowBundler

variable {cfg : Config} {fb : FlowBundler} {n now rate hashId : ℕ} {held : List Placed}
  {pkt : Packet}

namespace FlowBundler

/-- The schedule is the same, with the bytes counted of every flow and the last stamp of flow
`f`. -/
structure Untouched (f : ℕ) (fb fb' : FlowBundler) : Prop where
  headTime : fb'.headTime = fb.headTime
  highestRateQid : fb'.highestRateQid = fb.highestRateQid
  bitmap : fb'.bitmap = fb.bitmap
  nPackets : fb'.nPackets = fb.nPackets
  nPacketsTotal : fb'.nPacketsTotal = fb.nPacketsTotal
  mQueue : fb'.mQueue = fb.mQueue
  /-- The nodes that the buckets link. -/
  nodes : fb'.nodes = fb.nodes
  pktsNum : fb'.pktsNum = fb.pktsNum
  lastStamp : (fb'.flowInfo f).lastStamp = (fb.flowInfo f).lastStamp

/-- The queue index `q` does not lower the one of the scan; if nothing is held, the head time and
the scan are those of a first packet of index `q` due at `s`. -/
structure KeepsQueue (fb : FlowBundler) (q s : ℕ) : Prop where
  busy : fb.bitmap ≠ 0 → fb.highestRateQid ≤ q
  idle : fb.bitmap = 0 → fb.headTime = s &&& headTimeMask q ∧ fb.highestRateQid = q

end FlowBundler

/-- **A rejected packet**: the pool is exhausted, and the round of `Enqueue` has made the stores
that come before the pool is asked. -/
lemma enqueueOne_rejected (h : Repr n fb held)
    (hret : (fb.enqueueOne cfg now pkt rate hashId).ret = -1) :
    (fb.enqueueOne cfg now pkt rate hashId).fb
      = firstPacket { fb with
          flowInfo := Function.update fb.flowInfo pkt.src (fb.infoOf pkt.src now)
          highestRateQid := min (findQueueIndex cfg rate) fb.highestRateQid }
        (findQueueIndex cfg rate) (fb.stampOf pkt now) := by
  rw [enqueueOne] at hret ⊢
  dsimp only at hret ⊢
  set fb₁ : FlowBundler := { fb with
    flowInfo := Function.update fb.flowInfo pkt.src (fb.infoOf pkt.src now)
    highestRateQid := min (findQueueIndex cfg rate) fb.highestRateQid } with hfb₁
  have h₁ : Repr n fb₁ held := h.congr rfl rfl rfl rfl rfl rfl
  by_cases hfull : held.length = n
  · obtain ⟨hneg, -, hfb⟩ := h₁.insert_full hfull cfg pkt (findQueueIndex cfg rate)
      (fb.stampOf pkt now) pkt.src hashId
    rw [if_pos (by rw [hneg]; decide), hfb]
  · obtain ⟨x, hzero, -⟩ := h₁.insert_room hfull cfg pkt (findQueueIndex cfg rate)
      (fb.stampOf pkt now) pkt.src hashId
    rw [hzero, if_neg (lt_irrefl 0)] at hret
    simp at hret

/-- The stores before the pool is asked change nothing exactly when they are there already. -/
lemma untouched_firstPacket_iff {q s : ℕ} (hrate : (fb.flowInfo pkt.src).rate ≠ 0) :
    fb.Untouched pkt.src (firstPacket { fb with
      flowInfo := Function.update fb.flowInfo pkt.src (fb.infoOf pkt.src now)
      highestRateQid := min q fb.highestRateQid } q s) ↔ fb.KeepsQueue q s := by
  have hinfo : Function.update fb.flowInfo pkt.src (fb.infoOf pkt.src now) = fb.flowInfo := by
    rw [infoOf, if_neg hrate]
    exact Function.update_eq_self _ _
  rw [hinfo, firstPacket]
  dsimp only
  split
  · rename_i hidle
    constructor
    · intro hsame
      exact ⟨fun hne => absurd hidle hne,
        fun _ => ⟨hsame.headTime.symm, hsame.highestRateQid.symm⟩⟩
    · intro hkeep
      obtain ⟨hhead, hqid⟩ := hkeep.idle hidle
      exact ⟨hhead.symm, hqid.symm, rfl, rfl, rfl, rfl, rfl, rfl, rfl⟩
  · rename_i hbusy
    constructor
    · intro hsame
      exact ⟨fun _ => min_eq_right_iff.mp hsame.highestRateQid, fun hidle => absurd hidle hbusy⟩
    · intro hkeep
      exact ⟨rfl, min_eq_right (hkeep.busy hbusy), rfl, rfl, rfl, rfl, rfl, rfl, rfl⟩

/-- **A refused packet** of a flow with a rate leaves the schedule as it was exactly when its queue
index does not lower the one of the scan. -/
theorem rejected_untouched_iff {ok : World → Op → Prop} {w : World} (hw : Reach cfg ok w)
    (hrate : (w.fb.flowInfo pkt.src).rate ≠ 0)
    (hret : (w.fb.enqueueOne cfg now pkt rate hashId).ret = -1) :
    w.fb.Untouched pkt.src (w.fb.enqueueOne cfg now pkt rate hashId).fb ↔
      w.fb.KeepsQueue (findQueueIndex cfg rate) (w.fb.stampOf pkt now) := by
  rw [enqueueOne_rejected (reach_inv hw).repr hret]
  exact untouched_firstPacket_iff hrate

/-- A pool of one node. -/
def tinyConfig : Config :=
  { bucketNumScale := 10, minGranScale := 4, dequeueBurst := 1, mempoolSize := 1
    maxBytesPerFlow := 3000 }

/-- In a pool of one node taken at queue index `5`, a second packet at that index is refused and
leaves the schedule as it was. -/
theorem rejected_untouched_iff_run :
    ∃ w, Reach tinyConfig (fun w op => w.Admits op ∧ w.Ticks op) w ∧
      (w.fb.enqueueOne tinyConfig 10 (packetOf 1 101) 20000000 0).ret = -1 ∧
      w.fb.Untouched 1 (w.fb.enqueueOne tinyConfig 10 (packetOf 1 101) 20000000 0).fb := by
  obtain ⟨w, hw, hrate, hret, hbusy, hqid⟩ := exists_reach tinyConfig 100000000
    (fun w op => w.Admits op ∧ w.Ticks op) [.enqueue 0 (packetOf 1 100) 20000000 0]
    (fun w => (w.fb.flowInfo 1).rate ≠ 0 ∧
      (w.fb.enqueueOne tinyConfig 10 (packetOf 1 101) 20000000 0).ret = -1 ∧
      w.fb.bitmap ≠ 0 ∧ w.fb.highestRateQid ≤ findQueueIndex tinyConfig 20000000)
    (by decide +kernel)
  exact ⟨w, hw, hret, (rejected_untouched_iff hw hrate hret).mpr
    ⟨fun _ => hqid, fun hidle => absurd hidle hbusy⟩⟩

/-- In a pool of one node taken at queue index `5`, a packet with a larger aggregate rate is
refused and lowers the queue index of the scan. -/
theorem rejected_touches :
    ¬ ∀ (cfg : Config) (w : World) (now rate hashId : ℕ) (pkt : Packet),
      Reach cfg (fun w op => w.Admits op ∧ w.Ticks op) w → (w.fb.flowInfo pkt.src).rate ≠ 0 →
      (w.fb.enqueueOne cfg now pkt rate hashId).ret = -1 →
      w.fb.Untouched pkt.src (w.fb.enqueueOne cfg now pkt rate hashId).fb := by
  intro hall
  obtain ⟨w, hw, hrate, hret, hlower⟩ := exists_reach tinyConfig 100000000
    (fun w op => w.Admits op ∧ w.Ticks op) [.enqueue 0 (packetOf 1 100) 20000000 0]
    (fun w => (w.fb.flowInfo 2).rate ≠ 0 ∧
      (w.fb.enqueueOne tinyConfig 10 (packetOf 2 101) 80000000 0).ret = -1 ∧
      (w.fb.enqueueOne tinyConfig 10 (packetOf 2 101) 80000000 0).fb.highestRateQid
        ≠ w.fb.highestRateQid)
    (by decide +kernel)
  exact hlower (hall tinyConfig w 10 80000000 0 (packetOf 2 101) hw hrate hret).highestRateQid

end Bess
