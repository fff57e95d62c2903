import FlowBundler.Kernel.Carousel.Operations

/-!
The counters of `sch_carousel.c`: `num_of_elements`, the `qlen` of the buckets and
`sch->q.qlen`.

* `Matched`: the two counters of the whole queue agree and are within the limit.  A push and the
  count that follows it keep this, and so does a dequeue that takes a packet that was counted.
* `World.AccountsOk`: no segment of a packet is dropped, and a reset finds an empty queue.  The
  loop over the segments counts a dropped segment too, and a reset clears the buckets and
  `sch->q.qlen`, but not `num_of_elements`.
* `Counted`: the wheel is filled and its counters agree; the counters of the buckets are those of
  `Filled`.  `Counted.initial` needs that the loop of `gq_init` comes to all buckets.
* `counters_agree`: in such runs the counters agree; `counters_differ`: a reset of a queue
  with a packet.
-/

namespace Carousel

open Gq Ledger

/-- The counters of the queue agree, within the limit. -/
structure Matched (sch : Qdisc) : Prop where
  qlen_eq : sch.qlen = sch.gq.numOfElements
  le_limit : sch.gq.numOfElements ≤ sch.limit
  limit_eq : sch.limit = schLimit

namespace Matched

variable {sch : Qdisc}

lemma lt_word (h : Matched sch) : sch.gq.numOfElements < 2 ^ 32 := by
  have hle := h.le_limit
  rw [h.limit_eq, schLimit] at hle
  omega

lemma pushOne (h : Matched sch) (hroom : sch.gq.numOfElements < sch.limit) (skb : SkBuff) :
    Matched (pushOne sch skb).1 := by
  have hword := h.lt_word
  have hlimit := h.limit_eq
  refine ⟨?_, hroom, hlimit⟩
  rw [Carousel.pushOne, gqPush]
  dsimp only
  rw [schLimit] at hlimit
  rw [h.qlen_eq, Nat.mod_eq_of_lt (by omega)]

/-- Segments that all fit are pushed and counted, by induction on the segments. -/
lemma segmentLoop {segs : List SkBuff} :
    ∀ {sch : Qdisc}, Matched sch → sch.gq.numOfElements + segs.length ≤ sch.limit →
      Matched (segmentLoop segs sch).1 := by
  induction segs with
  | nil => exact fun h _ => h
  | cons seg segs ih =>
      intro sch h hroom
      rw [List.length_cons] at hroom
      have hlt : sch.gq.numOfElements < sch.limit := by omega
      have hnext : (Carousel.pushOne sch seg).1.gq.numOfElements + segs.length
          ≤ (Carousel.pushOne sch seg).1.limit := by
        change sch.gq.numOfElements + 1 + segs.length ≤ sch.limit
        omega
      rw [Carousel.segmentLoop, if_neg (not_le.mpr hlt)]
      exact ih (h.pushOne hlt seg) hnext

/-- An enqueue that drops no segment. -/
lemma enqueue (h : Matched sch) (P : Params) (now : ℕ) (skb : SkBuff) (segs : List SkBuff)
    (hroom : (P.gsoSplit && skb.isGso) = true → pacingRate skb ≠ 0 →
      sch.gq.numOfElements < sch.limit → sch.gq.numOfElements + segs.length ≤ sch.limit) :
    Matched (gqEnqueue P sch now skb segs).sch := by
  rw [gqEnqueue]
  set sch₀ : Qdisc :=
    if sch.gq.numOfElements = 0 then { sch with gq := restart sch.gq now } else sch
    with hsch₀
  obtain ⟨hnum, hlimit, h₀⟩ : sch₀.gq.numOfElements = sch.gq.numOfElements ∧
      sch₀.limit = sch.limit ∧ Matched sch₀ := by
    rw [hsch₀]
    split <;> exact ⟨rfl, rfl, h.qlen_eq, h.le_limit, h.limit_eq⟩
  rw [← hnum, ← hlimit] at hroom
  dsimp only
  split
  · exact h₀
  rename_i hlt
  rw [ge_iff_le, not_le] at hlt
  split
  · rename_i hgso
    rw [gqSegment]
    split
    · exact h₀.pushOne hlt skb
    · rename_i hrate
      split
      · exact h₀
      · refine h₀.segmentLoop ?_
        rw [length_segmentTimes]
        exact hroom hgso hrate hlt
  · exact h₀.pushOne hlt skb

/-- A dequeue. -/
lemma dequeue {held : List Stored} {now : ℕ} {r : DequeueResult} (h : Matched sch)
    (hfilled : Filled sch.gq held) (hrun : gqDequeue sch now = some r) : Matched r.sch := by
  have hword := h.lt_word
  cases dequeue_cases hfilled hrun with
  | restarted hnum hsch hskb => exact hsch ▸ ⟨h.qlen_eq, h.le_limit, h.limit_eq⟩
  | idle t hnum hseek hfree hsch hskb => exact hsch ▸ ⟨h.qlen_eq, h.le_limit, h.limit_eq⟩
  | taken t skb rest hseek hshelf hsch hskb =>
      -- a packet was counted
      have hpos : 0 < sch.gq.numOfElements := by
        have hne := hfilled.fifo (timeToIndex sch.gq t)
        rw [hshelf] at hne
        obtain ⟨e, tl, hslot, -⟩ := List.map_eq_cons_iff.mp hne.symm
        have he : e ∈ held := (mem_slot.mp (hslot ▸ List.mem_cons_self)).1
        rw [hfilled.total]
        exact List.length_pos_of_mem he
      have hle := h.le_limit
      rw [hsch]
      refine ⟨?_, by dsimp only; omega, h.limit_eq⟩
      dsimp only
      rw [h.qlen_eq]
      omega

end Matched

/-! ### Runs -/

namespace World

variable {P : Params} {w w' : World} {op : Op}

/-- No segment of a packet is beyond the limit, and a reset finds an empty queue. -/
def AccountsOk (P : Params) (w : World) : Op → Prop
  | .enqueue _ skb segs => (P.gsoSplit && skb.isGso) = true → pacingRate skb ≠ 0 →
      w.sch.gq.numOfElements < w.sch.limit →
      w.sch.gq.numOfElements + segs.length ≤ w.sch.limit
  | .dequeue _ => True
  | .reset => w.sch.gq.numOfElements = 0

instance (P : Params) (w : World) : (op : Op) → Decidable (w.AccountsOk P op)
  | .enqueue _ _ _ => inferInstanceAs (Decidable (_ → _ → _ → _))
  | .dequeue _ => inferInstanceAs (Decidable True)
  | .reset => inferInstanceAs (Decidable (_ = _))

/-- The wheel is filled and its counters agree. -/
structure Counted (w : World) : Prop where
  queued : Queued w.sch.gq w.sent w.held w.count
  matched : Matched w.sch

lemma Counted.initial (hint : numBuckets P ≤ 2 ^ 31) (h : w.Initial P) : w.Counted := by
  obtain ⟨now, memory, sch, -, hinit, rfl⟩ := h
  obtain ⟨-, rfl⟩ := gqInit_eq_some_iff.mp hinit
  exact ⟨.init hint now, ⟨rfl, Nat.zero_le _, rfl⟩⟩

/-- A reset of an empty queue changes nothing but the counters. -/
lemma Counted.reset (h : w.Counted) (hnum : w.sch.gq.numOfElements = 0) :
    ({ w with sch := gqReset w.sch, held := [] } : World).Counted := by
  have hheld : w.held = [] := List.length_eq_zero_iff.mp (h.queued.filled.total ▸ hnum)
  have hqueued := h.queued
  rw [hheld] at hqueued
  refine ⟨⟨⟨fun i => ?_, fun i => ?_, hnum, hqueued.filled.buckets_pos, by simp⟩, .nil,
    hqueued.seq_lt⟩, ⟨hnum.symm, hnum ▸ Nat.zero_le _, h.matched.limit_eq⟩⟩
  · have hshelf := hqueued.filled.fifo i
    rw [shelf, gqReset]
    dsimp only
    split
    · rfl
    · exact hshelf
  · rw [gqReset]
    dsimp only
    split
    · rfl
    · exact hqueued.filled.counted i

/-- One callback keeps the counters. -/
lemma Counted.step (h : w.Counted) (hok : w.AccountsOk P op) (hstep : w.step P op = some w') :
    w'.Counted := by
  cases op with
  | enqueue now skb segs =>
      rw [World.step, Option.some.injEq] at hstep
      subst hstep
      exact ⟨h.queued.enqueue (enqueue_pushes P w.sch now skb segs).1,
        h.matched.enqueue P now skb segs hok⟩
  | dequeue now =>
      rw [World.step, Option.map_eq_some_iff] at hstep
      obtain ⟨r, hrun, rfl⟩ := hstep
      have hmatched := h.matched.dequeue h.queued.filled hrun
      rcases h.queued.popped_eq hrun with ⟨-, hpop, hq⟩ | ⟨t, e, tl, -, -, -, hpop, -, -, hq⟩
      · refine ⟨?_, hmatched⟩
        dsimp only
        rw [hpop, List.map_nil, List.append_nil, without_eq_self (by simp)]
        exact hq
      · refine ⟨?_, hmatched⟩
        dsimp only
        rw [hpop]
        exact hq
  | reset =>
      rw [World.step, Option.some.injEq] at hstep
      exact hstep ▸ h.reset hok

end World

/-- **Packet accounting**: when `gq_init` clears all buckets, then in every run that drops no
segment and resets only an empty queue the three counters agree and are within the limit. -/
theorem counters_agree {P : Params} {w : World} (hint : numBuckets P ≤ 2 ^ 31)
    (hw : Reach P (World.AccountsOk P) w) :
    w.sch.gq.numOfElements
        = ∑ i ∈ Finset.range w.sch.gq.numOfBuckets, (w.sch.gq.mainBuckets i).qlen ∧
      w.sch.gq.numOfElements = w.sch.qlen ∧ w.sch.gq.numOfElements ≤ w.sch.limit := by
  have hcounted : w.Counted := hw.invariant (fun w hinit => .initial hint hinit)
    fun w w' op _ ih hok hstep => ih.step hok hstep
  have hfilled := hcounted.queued.filled
  refine ⟨?_, hcounted.matched.qlen_eq.symm, hcounted.matched.le_limit⟩
  rw [hfilled.total, ← sum_length_slot fun e he => Finset.mem_range.mpr (hfilled.index_lt e he)]
  exact Finset.sum_congr rfl fun i _ => (hfilled.qlen_eq i).symm

/-- The defaults of the module, with segmentation. -/
def sampleParams : Params :=
  { gsoSplit := true, granularity := 1000, horizon := 10
    granularity_lt := default_granularity_lt, horizon_lt := default_horizon_lt }

/-- Two packets, one of them in two segments, and one dequeue: two packets are left. -/
theorem counters_agree_run :
    ∃ w, Reach sampleParams (World.AccountsOk sampleParams) w ∧ w.sch.gq.numOfElements = 2 ∧
      w.sch.gq.numOfElements
        = ∑ i ∈ Finset.range w.sch.gq.numOfBuckets, (w.sch.gq.mainBuckets i).qlen ∧
      w.sch.gq.numOfElements = w.sch.qlen ∧ w.sch.gq.numOfElements ≤ w.sch.limit := by
  obtain ⟨w, hw, hnum⟩ := exists_reach sampleParams (World.AccountsOk sampleParams)
    [.enqueue 0 (packetAt 1 500) [],
      .enqueue 0 { packetAt 2 9000 with isGso := true, skPacingRate := some 1000000 }
        [packetAt 3 0, packetAt 4 0],
      .dequeue 2000]
    (fun w => w.sch.gq.numOfElements = 2) (by decide +kernel)
  exact ⟨w, hw, hnum, counters_agree (by decide) hw⟩

/-- One packet and a reset: the packet is still counted in `num_of_elements`. -/
theorem counters_differ :
    ¬ ∀ (P : Params) (w : World), Reach P (fun _ _ => True) w →
      w.sch.gq.numOfElements
          = ∑ i ∈ Finset.range w.sch.gq.numOfBuckets, (w.sch.gq.mainBuckets i).qlen ∧
        w.sch.gq.numOfElements = w.sch.qlen ∧ w.sch.gq.numOfElements ≤ w.sch.limit := by
  intro hall
  obtain ⟨w, hw, hnum, hqlen⟩ := exists_reach sampleParams (fun _ _ => True)
    [.enqueue 0 (packetAt 1 500) [], .reset]
    (fun w => w.sch.gq.numOfElements = 1 ∧ w.sch.qlen = 0) (by decide +kernel)
  have hclaim := (hall sampleParams w hw).2.1
  omega

end Carousel
