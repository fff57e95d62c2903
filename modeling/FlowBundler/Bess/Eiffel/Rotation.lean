import FlowBundler.Bess.Eiffel.Service

/-!
What a rotation does to packets that arrive after it.

* `StoredAt`: a round of `Enqueue` stores its packet in a bucket; `StartsInTime`: that bucket
  starts no later than the send time that the round computed.
* `packet_postponed_iff`: in every run a round stores its packet in time exactly when the base
  time of the main queue is not after the send time; that is so when every rotation so far was
  made at or after the start of the buffer queue.
* `packet_postponed`: a rotation ahead of time postpones the next packet.

A late packet is stored in the first bucket of the main queue, whose start is the base time of that
queue; any other packet is stored in the bucket of its send time, which has started by then.  So a
packet is postponed exactly when the base time is after its send time.  A main queue that has
started stays so until a rotation, and a rotation in time brings a queue to the front that has
started as well.
-/

namespace Bess

namespace Eiffel

variable {cfg : SlotConfig} {e : Eiffel} {S : QueueId → Finset ℕ} {q : QueueId} {i : ℕ}
  {p : ℕ × Packet}

/-- A round of `Enqueue` stores its packet in bucket `i` of queue `q`. -/
def StoredAt (cfg : SlotConfig) (e : Eiffel) (p : ℕ × Packet) (q : QueueId) (i : ℕ) : Prop :=
  (e.enqueueOne cfg p).eiffel.queueOf = Function.update e.queueOf q
    (Function.update (e.queueOf q) i
      { nodes := nodeOf p :: (e.queueOf q i).nodes, nodeNum := (e.queueOf q i).nodeNum + 1 })

/-- The bucket in which a round stores its packet starts no later than the send time that
`Enqueue` computed. -/
def StartsInTime (cfg : SlotConfig) (e : Eiffel) (p : ℕ × Packet) : Prop :=
  ∀ q i, StoredAt cfg e p q i → (e.enqueueOne cfg p).eiffel.bucketTs cfg q i ≤ e.stampOf p

/-- A packet is stored in one bucket only. -/
lemma StoredAt.unique {q' : QueueId} {i' : ℕ} (h : StoredAt cfg e p q i)
    (h' : StoredAt cfg e p q' i') : q = q' ∧ i = i' := by
  by_contra hne
  have hself := congrFun (congrFun (h.symm.trans h') q) i
  rw [update_bucket_self] at hself
  have hold : Function.update e.queueOf q' (Function.update (e.queueOf q') i'
      { nodes := nodeOf p :: (e.queueOf q' i').nodes
        nodeNum := (e.queueOf q' i').nodeNum + 1 }) q i = e.queueOf q i :=
    update_bucket_of_ne hne _ _
  have hnum := congrArg ListBucket.nodeNum (hself.trans hold)
  simp at hnum

/-- A packet that is accepted is stored in the bucket that `DropPacketInsert` selects. -/
lemma exists_storedAt (hacc : 0 ≤ (e.enqueueOne cfg p).ret) :
    ∃ q i, StoredAt cfg e p q i ∧ e.target cfg (e.stampOf p) = some (q, i) ∧
      (e.enqueueOne cfg p).eiffel.tsOf = e.tsOf := by
  cases enqueueOne_outcome cfg e p with
  | refused _ hret _ => omega
  | exhausted _ _ _ hret => omega
  | stored q i ht _ _ hqueue _ hts _ => exact ⟨q, i, hqueue, ht, hts⟩

namespace World

variable {w w' : World} {op : Op}

/-- The base time of the main queue decides. -/
lemma Inv.startsInTime_iff (h : w.Inv cfg S) (hticks : w.TicksAt p.1)
    (hacc : 0 ≤ (w.eiffel.enqueueOne cfg p).ret) :
    StartsInTime cfg w.eiffel p ↔ w.eiffel.mainTs ≤ w.eiffel.stampOf p := by
  obtain ⟨q, i, hstored, ht, hts⟩ := exists_storedAt hacc
  have hstamp : w.eiffel.stampOf p < 2 ^ 64 := Carousel.newStamp_lt _ _ hticks.2
  obtain ⟨hlt, hle, -⟩ := h.timed.target_spec h.marked
    (hticks.1.trans (le_stampOf w.eiffel p)) hstamp ht
  have hbucket : (w.eiffel.enqueueOne cfg p).eiffel.bucketTs cfg q i
      = startTs cfg w.eiffel q i := by
    rw [bucketTs, hts]
    exact Timed.bucketTs_of_lt h.marked hlt
  have hmain : w.eiffel.mainTs ≤ startTs cfg w.eiffel q i := by
    cases q with
    | main => exact Nat.le_add_left _ _
    | buffer => exact (Nat.le_add_right _ _).trans (Nat.le_add_left _ _)
  constructor
  · intro htime
    exact hmain.trans (hbucket ▸ htime q i hstored)
  · intro hnot q' i' hstored'
    obtain ⟨rfl, rfl⟩ := hstored.unique hstored'
    rw [hbucket]
    rwa [leftTime, if_neg fun hlate => not_lt.mpr hnot hlate.2] at hle

/-! ### Rotations in time -/

/-- When `Dequeue` at clock `now` rotates, the buffer queue has started. -/
def RotatesAt (w : World) (now : ℕ) : Prop :=
  w.eiffel.mainMap.bitMap 0 0 = 0 → w.eiffel.bufferMap.bitMap 0 0 ≠ 0 → w.eiffel.bufferTs ≤ now

instance (w : World) (now : ℕ) : Decidable (w.RotatesAt now) :=
  inferInstanceAs (Decidable (_ → _ → _))

/-- A rotation of an operation is not ahead of the clock. -/
def RotatesInTime (cfg : SlotConfig) (w : World) : Op → Prop
  | .enqueue _ => True
  | .dequeue now => w.RotatesAt now
  | .runTask env => env.childrenOverload = 0 →
      ∀ batch ∈ env.generated w.eiffel.store.flowToGen w.eiffel.pktgen,
        (w.enqueue cfg batch).RotatesAt env.dequeueNow
  | .setMaxDequeueBurst _ => True

instance (w : World) : (op : Op) → Decidable (w.RotatesInTime cfg op)
  | .enqueue _ => inferInstanceAs (Decidable True)
  | .dequeue now => inferInstanceAs (Decidable (w.RotatesAt now))
  | .runTask env => inferInstanceAs (Decidable (env.childrenOverload = 0 → ∀ batch ∈
      env.generated w.eiffel.store.flowToGen w.eiffel.pktgen,
        (w.enqueue cfg batch).RotatesAt env.dequeueNow))
  | .setMaxDequeueBurst _ => inferInstanceAs (Decidable True)

/-- The main queue has started. -/
def Started (w : World) : Prop := w.eiffel.mainTs ≤ w.clock

lemma Started.enqueueOne (h : w.Started) (hticks : w.TicksAt p.1) :
    (w.enqueueOne cfg p).Started := by
  have hmain : (w.eiffel.enqueueOne cfg p).eiffel.mainTs = w.eiffel.mainTs :=
    congrFun ((enqueueOne_outcome cfg w.eiffel p).ts cfg) .main
  change (w.eiffel.enqueueOne cfg p).eiffel.mainTs ≤ p.1
  rw [hmain]
  exact h.trans hticks.1

lemma Started.enqueue {batch : List (ℕ × Packet)} : ∀ {w : World}, w.Started →
    w.BatchTicks cfg batch → (w.enqueue cfg batch).Started := by
  induction batch with
  | nil => exact fun h _ => h
  | cons p batch ih => exact fun h hticks => ih (h.enqueueOne hticks.1) hticks.2

/-- A rotation in time, and the service of a bucket, leave a main queue that has started. -/
lemma Started.dequeue (h : w.Started) {now : ℕ} (hticks : w.TicksAt now) (hrot : w.RotatesAt now) :
    (w.dequeue cfg now).Started := by
  have hfront : ∀ q i, w.eiffel.ffs = some (i, q.num) → (w.eiffel.front cfg q).mainTs ≤ now := by
    intro q i hffs
    cases q with
    | main => exact h.trans hticks.1
    | buffer =>
        rw [ffs] at hffs
        split at hffs
        · simp [QueueId.num] at hffs
        · rename_i hmain
          split at hffs
          · rename_i hbuffer
            exact hrot (not_not.mp hmain) hbuffer
          · simp at hffs
  change ((w.eiffel.dequeue cfg now).eiffel).mainTs ≤ now
  cases dequeue_cases cfg w.eiffel now with
  | reset _ hr =>
      rw [hr]
  | early q i hffs _ hr =>
      rw [hr]
      exact hfront q i hffs
  | served q i hffs _ hr =>
      rw [hr]
      exact hfront q i hffs

lemma Started.step (h : w.Started) (hok : w.Ticks cfg op) (hrot : w.RotatesInTime cfg op)
    (hstep : w.step cfg op = some w') : w'.Started := by
  cases op with
  | enqueue batch =>
      obtain rfl := Option.some.inj hstep
      exact h.enqueue hok
  | dequeue now =>
      obtain rfl := Option.some.inj hstep
      exact h.dequeue hok hrot
  | runTask env =>
      obtain rfl := Option.some.inj hstep
      rcases w.runTask_cases env with ⟨hsame, -⟩ | ⟨batch, hover, hgen, hrun⟩
      · rw [hsame]
        exact h
      · obtain ⟨hbatch, hnow⟩ := hok hover batch hgen
        have hstart : ((w.enqueue cfg batch).dequeue cfg env.dequeueNow).Started :=
          (h.enqueue hbatch).dequeue hnow (hrot hover batch hgen)
        have hmain : (w.eiffel.runTask cfg env).mainTs
            = ((w.enqueue cfg batch).eiffel.dequeue cfg env.dequeueNow).eiffel.mainTs := by
          rw [enqueue_eiffel]
          exact congrFun (runTask_same cfg hover hgen).ts .main
        rw [hrun, Started]
        dsimp only
        rw [hmain]
        exact hstart
  | setMaxDequeueBurst arg =>
      obtain rfl := Option.some.inj hstep
      exact h

/-- A run whose rotations are in time has a main queue that has started. -/
lemma started {w : World} (hw : Reach cfg (fun w op => w.Ticks cfg op ∧ w.RotatesInTime cfg op) w) :
    w.Started := by
  refine hw.invariant (fun w hinit => ?_) fun w w' op _ ih hok hstep => ih.step hok.1 hok.2 hstep
  obtain ⟨now, pktsNum, flowToGen, flowInfo, pktgen, e, -, hinit, rfl⟩ := hinit
  rw [init, Option.map_eq_some_iff] at hinit
  obtain ⟨map, -, rfl⟩ := hinit
  exact le_rfl

end World

/-- **When a packet is postponed**: in every run whose clock does not go back, a packet that a
round of `Enqueue` accepts is stored in a bucket that starts no later than its send time exactly
when the base time of the main queue is not after that time; so in every run that rotates only
once the buffer queue has started, no packet is postponed. -/
theorem packet_postponed_iff {w : World} (hw : Reach cfg (World.Ticks cfg) w)
    (hticks : w.TicksAt p.1) (hacc : 0 ≤ (w.eiffel.enqueueOne cfg p).ret) :
    (∃ q i, StoredAt cfg w.eiffel p q i) ∧ p.1 ≤ w.eiffel.stampOf p ∧
      (StartsInTime cfg w.eiffel p ↔ w.eiffel.mainTs ≤ w.eiffel.stampOf p) ∧
      (Reach cfg (fun w op => w.Ticks cfg op ∧ w.RotatesInTime cfg op) w →
        StartsInTime cfg w.eiffel p) := by
  obtain ⟨S, hinv⟩ := exists_inv hw
  obtain ⟨q, i, hstored, -⟩ := exists_storedAt hacc
  have hiff := hinv.startsInTime_iff hticks hacc
  have hle := le_stampOf w.eiffel p
  refine ⟨⟨q, i, hstored⟩, hle, hiff, fun hrun => hiff.mpr ?_⟩
  calc w.eiffel.mainTs ≤ w.clock := World.started hrun
    _ ≤ p.1 := hticks.1
    _ ≤ w.eiffel.stampOf p := hle

/-- A run with a rotation in time, after which a packet is stored in the new main queue. -/
theorem packet_postponed_iff_run :
    ∃ w, Reach smallSlots (World.Ticks smallSlots) w ∧ w.eiffel.mainTs = 80 ∧
      StartsInTime smallSlots w.eiffel (97, packetOfLen 1 1500) := by
  obtain ⟨w, hw, hmain, hticks, hacc⟩ := exists_reach 1000000000
    (fun w op => w.Ticks smallSlots op ∧ w.RotatesInTime smallSlots op)
    [.setMaxDequeueBurst 1, .enqueue [(0, packetOfLen 3 12000)], .dequeue 90]
    (fun w => w.eiffel.mainTs = 80 ∧ w.TicksAt 97 ∧
      0 ≤ (w.eiffel.enqueueOne smallSlots (97, packetOfLen 1 1500)).ret)
    (by decide +kernel)
  have hreach : Reach smallSlots (World.Ticks smallSlots) w := hw.mono fun _ _ hok => hok.1
  exact ⟨w, hreach, hmain, (packet_postponed_iff hreach hticks hacc).2.2.2 hw⟩

/-- A packet with send time `96` waits in the buffer queue, and a call of `Dequeue` at clock `0`
rotates; the next packet has send time `12`, and its bucket starts at `80`. -/
theorem packet_postponed :
    ∃ w p, Reach smallSlots (World.Ticks smallSlots) w ∧ w.TicksAt p.1 ∧
      0 ≤ (w.eiffel.enqueueOne smallSlots p).ret ∧ p.1 ≤ w.eiffel.stampOf p ∧
      ¬ StartsInTime smallSlots w.eiffel p := by
  obtain ⟨w, hw, hmain, hstamp, hticks, hacc⟩ := exists_reach 1000000000
    (World.Ticks smallSlots)
    [.setMaxDequeueBurst 1, .enqueue [(0, packetOfLen 3 12000)], .dequeue 0]
    (fun w => w.eiffel.mainTs = 80 ∧ w.eiffel.stampOf (1, packetOfLen 1 1500) = 12 ∧ w.TicksAt 1 ∧
      0 ≤ (w.eiffel.enqueueOne smallSlots (1, packetOfLen 1 1500)).ret)
    (by decide +kernel)
  refine ⟨w, (1, packetOfLen 1 1500), hw, hticks, hacc, le_stampOf _ _, fun htime => ?_⟩
  obtain ⟨S, hinv⟩ := exists_inv hw
  have hle := (hinv.startsInTime_iff hticks hacc).mp htime
  omega

end Eiffel

end Bess
