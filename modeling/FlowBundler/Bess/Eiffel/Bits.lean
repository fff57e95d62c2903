import FlowBundler.Bess.Eiffel.Service

/-!
The bitmaps of Eiffel and the buckets with packets.

* `Agrees cfg e`: the bit of every slot is set exactly when its bucket has a packet.
* `HasRoom cfg e p`: a round of `Enqueue` does not ask an exhausted pool for the first node of a
  bucket; `Roomy`: so do all rounds of an operation.
* `Exact e S`: every bucket of `S` has a packet; `Exact.round_iff`, `exact_dequeue`: the steps
  keep that.
* `RoomyRun cfg`: the runs with room, with calls of `AdjustRotation` on their own.
* `bits_agree`: in every run with room the bitmaps agree, and `Dequeue` takes a packet when there
  is one that is due; `bits_disagree`: a packet that an exhausted pool refuses leaves its bit set.

`Marked` keeps the bits of the buckets with packets set; what is shown here is the other direction,
that the bucket of a set bit has a packet.  Only a refused packet breaks it: `DropPacketInsert` sets
the bit before it asks the pool for a node.  If the bucket has a packet already, the bit is right
all the same.  A service clears the bit of a bucket that it leaves empty, and a rotation exchanges
maps and buckets together.
-/

namespace Bess

namespace Eiffel

variable {cfg : SlotConfig} {e : Eiffel} {S : QueueId → Finset ℕ} {q : QueueId} {i now : ℕ}
  {p : ℕ × Packet}

/-- The bit of every slot is set exactly when its bucket is not empty. -/
def Agrees (cfg : SlotConfig) (e : Eiffel) : Prop :=
  ∀ q, ∀ i < cfg.slots, (e.mapOf q).bit i = !(e.queueOf q i).isEmpty

/-- A round of `Enqueue` finds a node in the pool, or its bucket has a packet already. -/
def HasRoom (cfg : SlotConfig) (e : Eiffel) (p : ℕ × Packet) : Prop :=
  e.store.freeNum = 0 →
    ∀ t ∈ e.target cfg (e.stampOf p), (e.queueOf t.1 t.2).isEmpty = false

instance (e : Eiffel) (p : ℕ × Packet) : Decidable (HasRoom cfg e p) :=
  inferInstanceAs (Decidable (_ → _))

/-- The rounds of an operation have room, each in the state where it is made. -/
def Roomy (cfg : SlotConfig) (e : Eiffel) (op : Op) : Prop :=
  BatchFits (round cfg) (HasRoom cfg) e (e.batchOf op)

instance (e : Eiffel) (op : Op) : Decidable (Roomy cfg e op) := decidableBatchFits _ _ _ _

/-! ### One step -/

/-- Every bucket of `S` has a packet. -/
def Exact (e : Eiffel) (S : QueueId → Finset ℕ) : Prop :=
  ∀ q, ∀ i ∈ S q, (e.queueOf q i).nodes ≠ []

/-- A bucket without packets counts none. -/
lemma Marked.isEmpty_iff (h : Marked cfg e S) (q : QueueId) (i : ℕ) :
    (e.queueOf q i).isEmpty = true ↔ (e.queueOf q i).nodes = [] := by
  rw [ListBucket.isEmpty, beq_iff_eq, h.counted q i, List.length_eq_zero_iff]

/-- The bitmaps agree exactly when every bucket with its bit set has a packet. -/
lemma Marked.agrees_iff (h : Marked cfg e S) : Agrees cfg e ↔ Exact e S := by
  constructor
  · intro hagree q i hi hnil
    have hbit := ((h.marks q).bit_iff i).mpr hi
    rw [hagree q i ((h.marks q).lt i hi), (h.isEmpty_iff q i).mpr hnil] at hbit
    simp at hbit
  · intro hexact q i _
    rw [Bool.eq_iff_iff, (h.marks q).bit_iff, Bool.not_eq_true', ← Bool.not_eq_true,
      h.isEmpty_iff]
    exact ⟨hexact q i, h.sub q i⟩

/-- **A round of `Enqueue`** keeps every bit right exactly when it has room. -/
lemma Exact.round_iff (h : Exact e S) (hmark : Marked cfg e S) :
    Exact (e.enqueueOne cfg p).eiffel (Marked.after cfg e S (e.stampOf p)) ↔ HasRoom cfg e p := by
  cases enqueueOne_outcome cfg e p with
  | refused ht _ hsame =>
      refine iff_of_true (fun q i hi => ?_) fun _ t hmem => ?_
      · rw [hsame.queue]
        rcases Marked.mem_after.mp hi with hi | hi
        · exact h q i hi
        · simp [ht] at hi
      · rw [ht] at hmem
        simp at hmem
  | exhausted q i ht _ hfree hqueue _ _ =>
      constructor
      · intro hexact _ t hmem
        obtain rfl := Option.some.inj (ht.symm.trans hmem)
        have hne := hexact q i (Marked.mem_after.mpr (.inr ht))
        rw [hqueue] at hne
        rw [← Bool.not_eq_true, hmark.isEmpty_iff]
        exact hne
      · intro hroom q' j hj
        rw [hqueue]
        rcases Marked.mem_after.mp hj with hj | hj
        · exact h q' j hj
        · have hne := hroom hfree _ hj
          rwa [← Bool.not_eq_true, hmark.isEmpty_iff] at hne
  | stored q i ht _ hroom hqueue _ _ _ =>
      refine iff_of_true (fun q' j hj => ?_) fun hfree => absurd hfree hroom
      rw [hqueue]
      by_cases hji : q' = q ∧ j = i
      · obtain ⟨rfl, rfl⟩ := hji
        rw [update_bucket_self]
        exact List.cons_ne_nil _ _
      · rw [update_bucket_of_ne hji]
        rcases Marked.mem_after.mp hj with hj | hj
        · exact h q' j hj
        · obtain ⟨rfl, rfl⟩ := Prod.mk.inj (Option.some.inj (ht.symm.trans hj))
          exact absurd ⟨rfl, rfl⟩ hji

/-- The rounds of a batch. -/
lemma exact_enqueue {batch : List (ℕ × Packet)} : ∀ {e : Eiffel} {S : QueueId → Finset ℕ},
    Marked cfg e S → Exact e S → BatchFits (Eiffel.round cfg) (HasRoom cfg) e batch →
      ∃ S', Marked cfg (e.enqueue cfg batch) S' ∧ Exact (e.enqueue cfg batch) S' := by
  induction batch with
  | nil => exact fun hmark hexact _ => ⟨_, hmark, hexact⟩
  | cons p batch ih =>
      intro e S hmark hexact hroom
      exact ih (hmark.round (enqueueOne_outcome cfg e p)) ((hexact.round_iff hmark).mpr hroom.1)
        hroom.2

/-- A rotation keeps every bit right. -/
lemma Exact.front (h : Exact e S) (q : QueueId) : Exact (e.front cfg q) (frontOf S q) := by
  intro q' i hi
  rw [front_queueOf]
  cases q' with
  | main => exact h q i hi
  | buffer => exact h q.other i hi

/-- **A call of `Dequeue`** keeps every bit right. -/
lemma exact_dequeue (hmark : Marked cfg e S) (h : Exact e S) (now : ℕ) :
    ∃ S', Marked cfg (e.dequeue cfg now).eiffel S' ∧ Exact (e.dequeue cfg now).eiffel S' := by
  cases dequeue_cases cfg e now with
  | reset hffs hr =>
      have hempty := hmark.ffs_eq_none_iff.mp hffs
      rw [hr]
      exact ⟨S, hmark.reset now, fun q i hi => by simp [hempty q] at hi⟩
  | early q i hffs _ hr =>
      rw [hr]
      exact ⟨_, hmark.front q, h.front q⟩
  | served q i hffs _ hr =>
      obtain ⟨hi, hmark', hserve⟩ := hmark.served hffs
      obtain ⟨b, -, -, hqueue⟩ := hserve.queue
      rw [hr]
      refine ⟨_, hmark'.service hi hserve, fun q' j hj => ?_⟩
      by_cases hq : q' = .main
      · subst hq
        rw [Function.update_self] at hj
        by_cases hji : j = i
        · subst hji
          -- the slot is still there only when the bucket has a packet
          split at hj
          · exact absurd rfl (Finset.ne_of_mem_erase hj)
          · assumption
        · rw [hqueue, Function.update_self, Function.update_of_ne hji]
          refine (h.front q : Exact (e.front cfg q) (frontOf S q)) .main j ?_
          split at hj
          · exact Finset.mem_of_mem_erase hj
          · exact hj
      · rw [Function.update_of_ne hq] at hj
        rw [hqueue, Function.update_of_ne hq]
        exact h.front q q' j hj

/-- Every bit is right. -/
def Right (cfg : SlotConfig) (e : Eiffel) : Prop := ∃ S, Marked cfg e S ∧ Exact e S

lemma Right.agrees (h : Right cfg e) : Agrees cfg e := by
  obtain ⟨S, hmark, hexact⟩ := h
  exact hmark.agrees_iff.mpr hexact

/-- A call that leaves queues and base times alone. -/
lemma Right.congr {e' : Eiffel} (h : Right cfg e) (hsame : SameQueues e e') : Right cfg e' := by
  obtain ⟨S, hmark, hexact⟩ := h
  refine ⟨S, hmark.congr hsame, fun q i hi => ?_⟩
  rw [hsame.queue]
  exact hexact q i hi

lemma Right.step {e' : Eiffel} {op : Op} (h : Right cfg e) (hok : Roomy cfg e op)
    (hstep : e.step cfg op = some e') : Right cfg e' := by
  obtain ⟨S, hmark, hexact⟩ := id h
  cases step_cases cfg hstep with
  | enqueue batch => exact exact_enqueue hmark hexact hok
  | dequeue now => exact exact_dequeue hmark hexact now
  | idle env => exact h
  | task env batch _ hover hgen hsame _ =>
      rw [Roomy, batchOf_runTask hover hgen] at hok
      obtain ⟨S₁, hmark₁, hexact₁⟩ := exact_enqueue hmark hexact hok
      obtain ⟨S₂, hmark₂, hexact₂⟩ := exact_dequeue hmark₁ hexact₁ env.dequeueNow
      exact Right.congr ⟨S₂, hmark₂, hexact₂⟩ hsame
  | burst arg => exact h.congr (setMaxDequeueBurst_same e arg)

/-! ### The burst -/

lemma enqueue_burst (batch : List (ℕ × Packet)) : ∀ e : Eiffel,
    (e.enqueue cfg batch).maxDequeueBurst = e.maxDequeueBurst := by
  induction batch with
  | nil => exact fun _ => rfl
  | cons p batch ih =>
      intro e
      obtain ⟨_, _, _, _, _, _, hframe⟩ := e.enqueueOne_frame cfg p
      calc (e.enqueue cfg (p :: batch)).maxDequeueBurst
          = (e.enqueueOne cfg p).eiffel.maxDequeueBurst := ih _
        _ = e.maxDequeueBurst := by rw [hframe]

lemma dequeue_burst (cfg : SlotConfig) (e : Eiffel) (now : ℕ) :
    (e.dequeue cfg now).eiffel.maxDequeueBurst = e.maxDequeueBurst := by
  cases dequeue_cases cfg e now with
  | reset _ hr => rw [hr]
  | early q i _ _ hr => rw [hr, front_maxDequeueBurst]
  | served q i _ _ hr =>
      rw [hr]
      exact front_maxDequeueBurst cfg e q

/-- The burst stays within a batch. -/
lemma step_burst {e' : Eiffel} {op : Op} (h : e.maxDequeueBurst ≤ kMaxBurst)
    (hstep : e.step cfg op = some e') : e'.maxDequeueBurst ≤ kMaxBurst := by
  cases step_cases cfg hstep with
  | enqueue batch => rwa [enqueue_burst]
  | dequeue now => rwa [dequeue_burst]
  | idle env => exact h
  | task env batch _ _ _ _ hburst => rwa [hburst, dequeue_burst, enqueue_burst]
  | burst arg =>
      rw [setMaxDequeueBurst]
      dsimp only
      split <;> omega

/-! ### Runs -/

/-- A step of a run: an operation, or a call of `AdjustRotation` on its own. -/
inductive Move where
  | op (op : Op)
  | adjustRotation

def move (cfg : SlotConfig) (e : Eiffel) : Move → Option Eiffel
  | .op op => e.step cfg op
  | .adjustRotation => some (e.adjustRotation cfg)

/-- The rounds of a step have room. -/
def MoveRoomy (cfg : SlotConfig) (e : Eiffel) : Move → Prop
  | .op op => Roomy cfg e op
  | .adjustRotation => True

/-- The runs with room, whatever the clock reads. -/
abbrev RoomyRun (cfg : SlotConfig) : Eiffel → Prop :=
  Machine.Reach (move cfg) (Initial cfg) (MoveRoomy cfg)

/-- A run with room keeps every bit right, and the burst within a batch. -/
lemma right_of_run (h : RoomyRun cfg e) :
    Right cfg e ∧ e.maxDequeueBurst ≤ (kMaxBurst : ℤ) := by
  refine h.invariant (I := fun e => Right cfg e ∧ e.maxDequeueBurst ≤ (kMaxBurst : ℤ))
    (fun e hinit => ?_) fun e e' m _ ih hok hstep => ?_
  · refine ⟨⟨_, init_marked hinit, by simp [Exact]⟩, ?_⟩
    obtain ⟨now, pktsNum, flowToGen, flowInfo, pktgen, hinit⟩ := hinit
    rw [init, Option.map_eq_some_iff] at hinit
    obtain ⟨map, -, rfl⟩ := hinit
    exact (by decide : (0 : ℤ) ≤ kMaxBurst)
  · cases m with
    | op op => exact ⟨ih.1.step hok hstep, step_burst ih.2 hstep⟩
    | adjustRotation =>
        obtain rfl := Option.some.inj hstep
        obtain ⟨S, hmark, hexact⟩ := ih.1
        exact ⟨⟨_, hmark.front .buffer, hexact.front .buffer⟩, ih.2⟩

/-- The module in a run of worlds. -/
lemma run_of_reach {w : World}
    (hw : Reach cfg (fun w op => w.Ticks cfg op ∧ Roomy cfg w.eiffel op) w) :
    RoomyRun cfg w.eiffel := by
  induction hw with
  | start hinit =>
      obtain ⟨now, pktsNum, flowToGen, flowInfo, pktgen, e, -, hinit, rfl⟩ := hinit
      exact .start ⟨now, pktsNum, flowToGen, flowInfo, pktgen, hinit⟩
  | @step w w' op _ hok hstep ih =>
      have hmove : move cfg w.eiffel (.op op) = some w'.eiffel := by
        rw [move, ← World.step_eiffel, hstep, Option.map_some]
      have hroom : MoveRoomy cfg w.eiffel (.op op) := hok.2
      exact ih.step hroom hmove

/-- **`Dequeue` takes a packet** when the bits are right and one is due. -/
lemma taken_ne_nil {clock : ℕ} (hmark : Marked cfg e S) (htimed : Timed cfg e S clock)
    (hagree : Agrees cfg e) (hpos : 1 ≤ e.maxDequeueBurst) (hburst : e.maxDequeueBurst ≤ kMaxBurst)
    (hne : (e.queueOf q i).nodes ≠ []) (hdue : e.bucketTs cfg q i ≤ now) :
    (e.dequeue cfg now).taken ≠ [] := by
  have hi := hmark.sub q i hne
  have hexact := hmark.agrees_iff.mp hagree
  cases dequeue_cases cfg e now with
  | reset hffs _ =>
      have hempty := hmark.ffs_eq_none_iff.mp hffs q
      simp [hempty] at hi
  | early q' j hffs hearly _ =>
      have hleast := htimed.ffs_least hmark hffs hi
      omega
  | served q' j hffs _ hr =>
      obtain ⟨hj, -, hserve⟩ := hmark.served hffs
      have hnodes : ((e.front cfg q').queueOf .main j).nodes ≠ [] := by
        rw [front_queueOf]
        exact hexact q' j hj
      have hk : (kMaxBurst : ℤ) = 32 := rfl
      have hnum : 0 < (e.front cfg q').takenNum .main j := by
        rw [takenNum, ListBucket.bulkNum, front_maxDequeueBurst]
        exact Nat.lt_min.mpr ⟨by omega, List.length_pos_iff.mpr hnodes⟩
      rw [hr, hserve.taken]
      exact fun hnil => (List.take_eq_nil_iff.mp hnil).elim hnum.ne' hnodes

/-- **The bitmaps agree with the buckets** in every run with room, also with calls of
`AdjustRotation` on their own and whatever the clock reads; a round of `Enqueue` keeps that
exactly when it has room.  When moreover the clock does not go back, `Dequeue` with a positive
burst takes a packet whenever there is one in a bucket that has started. -/
theorem bits_agree :
    (∀ e, RoomyRun cfg e → Agrees cfg e ∧
        ∀ p, Agrees cfg (e.enqueueOne cfg p).eiffel ↔ HasRoom cfg e p) ∧
      ∀ w, Reach cfg (fun w op => w.Ticks cfg op ∧ Roomy cfg w.eiffel op) w →
        ∀ now, 1 ≤ w.eiffel.maxDequeueBurst →
          (∃ q i, (w.eiffel.queueOf q i).nodes ≠ [] ∧ w.eiffel.bucketTs cfg q i ≤ now) →
          (w.eiffel.dequeue cfg now).taken ≠ [] := by
  refine ⟨fun e he => ?_, fun w hw now hpos hexists => ?_⟩
  · obtain ⟨hright, -⟩ := right_of_run he
    refine ⟨hright.agrees, fun p => ?_⟩
    obtain ⟨S, hmark, hexact⟩ := hright
    have hmark' := hmark.round (enqueueOne_outcome cfg e p)
    exact hmark'.agrees_iff.trans (hexact.round_iff hmark)
  · obtain ⟨hright, hburst⟩ := right_of_run (run_of_reach hw)
    obtain ⟨S, hinv⟩ := exists_inv (hw.mono fun _ _ hok => hok.1)
    obtain ⟨q, i, hne, hdue⟩ := hexists
    exact taken_ne_nil hinv.marked hinv.timed hright.agrees hpos hburst hne hdue

/-- A run whose last packet an exhausted pool refuses from a bucket with packets. -/
theorem bits_agree_run :
    ∃ w, Reach smallSlots (fun w op => w.Ticks smallSlots op ∧ Roomy smallSlots w.eiffel op) w ∧
      w.eiffel.store.freeNum = 0 ∧ Agrees smallSlots w.eiffel ∧
      (w.eiffel.dequeue smallSlots 20).taken ≠ [] := by
  obtain ⟨w, hw, hfree, hburst, hne, hdue⟩ := exists_reach 1000000000
    (fun w op => w.Ticks smallSlots op ∧ Roomy smallSlots w.eiffel op)
    [.setMaxDequeueBurst 1, .enqueue [(0, packetOfLen 1 1500), (0, packetOfLen 2 1500),
      (0, packetOfLen 3 1500), (0, packetOfLen 4 1500), (0, packetOfLen 5 1500)]]
    (fun w => w.eiffel.store.freeNum = 0 ∧ 1 ≤ w.eiffel.maxDequeueBurst ∧
      (w.eiffel.queueOf .main 1).nodes ≠ [] ∧ w.eiffel.bucketTs smallSlots .main 1 ≤ 20)
    (by decide +kernel)
  obtain ⟨hagree, htaken⟩ := @bits_agree smallSlots
  exact ⟨w, hw, hfree, (hagree w.eiffel (run_of_reach hw)).1,
    htaken w hw 20 hburst ⟨.main, 1, hne, hdue⟩⟩

/-- Four packets take all nodes, and a fifth one for an empty bucket is refused: its bit stays
set, and `Dequeue` stops at that bucket, although a later one has started. -/
theorem bits_disagree :
    ∃ w, Reach smallSlots (World.Ticks smallSlots) w ∧ ¬ Agrees smallSlots w.eiffel ∧
      1 ≤ w.eiffel.maxDequeueBurst ∧ (w.eiffel.queueOf .main 1).nodes ≠ [] ∧
      w.eiffel.bucketTs smallSlots .main 1 ≤ 20 ∧
      (w.eiffel.dequeue smallSlots 20).taken = [] := by
  obtain ⟨w, hw, hbit, hempty, hrest⟩ := exists_reach 1000000000 (World.Ticks smallSlots)
    [.setMaxDequeueBurst 1, .enqueue [(0, packetOfLen 1 1500), (0, packetOfLen 2 1500),
      (0, packetOfLen 3 1500), (0, packetOfLen 4 1500), (0, packetOfLen 5 600)]]
    (fun w => (w.eiffel.mapOf .main).bit 0 = true ∧ (w.eiffel.queueOf .main 0).isEmpty = true ∧
      1 ≤ w.eiffel.maxDequeueBurst ∧ (w.eiffel.queueOf .main 1).nodes ≠ [] ∧
      w.eiffel.bucketTs smallSlots .main 1 ≤ 20 ∧ (w.eiffel.dequeue smallSlots 20).taken = [])
    (by decide +kernel)
  refine ⟨w, hw, fun hagree => ?_, hrest⟩
  have hself := hagree .main 0 (by decide)
  rw [hbit, hempty] at hself
  simp at hself

end Eiffel

end Bess
