import FlowBundler.Bess.Repr

/-!
What one operation does to the represented list.

* `findQueueIndex_le`, `findRealLocation_lt`, `le_findRealLocation`: rate classes and levels
  are in range, for every configuration, rate and time.
* `enqueueOne_computes`, `enqueueOne_stores`: a round of `Enqueue` computes its times and its
  location from the head time, and it stores the packet exactly when the pool has room.
* `scanRound_some`, `scanRound_none`: a round of the scan takes the front of the bucket it
  looks up, or that bucket is empty.
* `DequeueCases`, `dequeue_cases`: a `Dequeue` takes nothing, or the front of one bucket.

Each operation is split as the source does it, and each part has one lemma: the first packet sets
the head time, the horizon test selects a queue index, the pool is asked for a node, the node goes
into its bucket.  What a part does not touch is stated with it, so that the whole operation is put
together by rewriting.
-/

namespace Bess

open Ledger Heap MemoryPool FlowBundler

/-! ### Words -/

lemma clzll_le (x : ℕ) : clzll x ≤ 64 := by
  rw [clzll]
  split <;> omega

lemma clzll_anti {x y : ℕ} (h : x ≤ y) : clzll y ≤ clzll x := by
  by_cases hx : x = 0
  · rw [hx]
    exact clzll_le y
  · have hy : y ≠ 0 := by omega
    rw [clzll, if_neg hy, clzll, if_neg hx]
    have hlog : Nat.log2 x ≤ Nat.log2 y := by
      rw [Nat.log2_eq_log_two, Nat.log2_eq_log_two]
      exact Nat.log_mono_right h
    omega

/-- A word below `2^b` has at least `64 - b` leading zeros. -/
lemma le_clzll {x b : ℕ} (hx : x < 2 ^ b) (hb : b ≤ 64) : 64 - b ≤ clzll x := by
  rw [clzll]
  split
  · omega
  · rename_i hne
    have := (Nat.log2_lt hne).mpr hx
    omega

/-- The rate class: how many bits the rate, capped, is shorter than the maximal rate. -/
lemma findQueueIndex_eq (cfg : Config) (rate : ℕ) :
    findQueueIndex cfg rate = clzll (min rate (maxRate cfg)) - clzll (maxRate cfg) := by
  have hle := clzll_anti (min_le_right rate (maxRate cfg))
  have h64 := clzll_le (min rate (maxRate cfg))
  rw [findQueueIndex, maxRateHighestBit, Nat.sub_add_comm hle, Nat.add_mod_right]
  exact Nat.mod_eq_of_lt (by omega)

/-- Every rate class is at most `34`. -/
lemma findQueueIndex_le (cfg : Config) (rate : ℕ) : findQueueIndex cfg rate ≤ 34 := by
  have hmax : maxRate cfg < 2 ^ 34 := by
    rw [maxRate, Nat.shiftRight_eq_div_pow]
    exact lt_of_le_of_lt (Nat.div_le_self _ _) (by decide)
  have hhigh := le_clzll hmax (by norm_num)
  have h64 := clzll_le (min rate (maxRate cfg))
  rw [findQueueIndex_eq]
  omega

/-- The horizon test only raises the queue index. -/
lemma le_finalQueueId (cfg : Config) {q : ℕ} (hq : q ≤ 34) (head actual : ℕ) :
    q ≤ finalQueueId cfg q head actual ∧ finalQueueId cfg q head actual ≤ 98 := by
  rw [finalQueueId]
  split
  · have hclz := clzll_le ((actual - head) >>> (q + cfg.minGranScale + cfg.bucketNumScale))
    rw [Nat.mod_eq_of_lt (by omega)]
    omega
  · omega

/-- Real locations are inside the calendar. -/
lemma findRealLocation_lt (cfg : Config) (q t : ℕ) : (findRealLocation cfg q t).queueId < 64 := by
  rw [findRealLocation]
  dsimp only
  rw [queueNum]
  split <;> omega

/-- A real location is not below the queue index it comes from, clipped. -/
lemma le_findRealLocation (cfg : Config) {q : ℕ} (hq : q ≤ 98) (t : ℕ) :
    min q 63 ≤ (findRealLocation cfg q t).queueId := by
  have hne : findBucketIndex cfg q t ||| 1 <<< (queueNum - 1) ≠ 0 := fun h => by
    rw [Nat.or_eq_zero_iff] at h
    exact absurd h.2 (by decide)
  set b := findBucketIndex cfg q t ||| 1 <<< (queueNum - 1) with hb
  have hbit : b.testBit 63 = true := by
    rw [hb, queueNum, Nat.testBit_or, Nat.one_shiftLeft, Nat.testBit_two_pow_self, Bool.or_true]
  have hlow := Dyadic.lowBit_le_of_testBit hbit (show 63 < 64 by norm_num)
  have hffs : ffsll b = Dyadic.lowBit 64 b + 1 := if_neg hne
  have hreal : (q + ffsll b - 1) % 2 ^ 32 = q + Dyadic.lowBit 64 b := by
    rw [hffs, Nat.mod_eq_of_lt (by omega)]
    omega
  rw [findRealLocation]
  dsimp only
  rw [← hb, hreal, queueNum]
  split <;> omega

/-! ### Insert and Enqueue -/

section Enqueue

variable {n : ℕ} {fb : FlowBundler} {held : List Placed}

lemma firstPacket_eq (fb : FlowBundler) (q s : ℕ) :
    fb.firstPacket q s = { fb with
      headTime := (fb.firstPacket q s).headTime
      highestRateQid := (fb.firstPacket q s).highestRateQid } := by
  rw [firstPacket]
  split <;> rfl

lemma Repr.firstPacket (h : Repr n fb held) (q s : ℕ) : Repr n (fb.firstPacket q s) held := by
  rw [firstPacket_eq]
  exact h.congr rfl rfl rfl rfl rfl rfl

/-- The head time that `Insert` uses. -/
lemma firstPacket_headTime (fb : FlowBundler) (q s : ℕ) :
    (fb.firstPacket q s).headTime
      = if fb.bitmap = 0 then s &&& headTimeMask q else fb.headTime := by
  rw [firstPacket]
  split <;> rfl

lemma firstPacket_highestRateQid (fb : FlowBundler) (q s : ℕ) :
    (fb.firstPacket q s).highestRateQid = if fb.bitmap = 0 then q else fb.highestRateQid := by
  rw [firstPacket]
  split <;> rfl

/-- What `Insert` computes before it stores. -/
lemma insert_computes (cfg : Config) (fb : FlowBundler) (packet : Packet)
    (q s flowId hashId : ℕ) :
    (fb.insert cfg packet q s flowId hashId).sendTime = s ∧
    (fb.insert cfg packet q s flowId hashId).actual
      = actualTime (fb.firstPacket q s).headTime s ∧
    (fb.insert cfg packet q s flowId hashId).queueId
      = finalQueueId cfg q (fb.firstPacket q s).headTime
          (fb.insert cfg packet q s flowId hashId).actual ∧
    (fb.insert cfg packet q s flowId hashId).loc
      = findRealLocation cfg (fb.insert cfg packet q s flowId hashId).queueId
          (fb.insert cfg packet q s flowId hashId).actual :=
  ⟨rfl, rfl, rfl, rfl⟩

/-- `Insert` on an exhausted pool. -/
lemma Repr.insert_full (h : Repr n fb held) (hfull : held.length = n) (cfg : Config)
    (packet : Packet) (q s flowId hashId : ℕ) :
    (fb.insert cfg packet q s flowId hashId).ret = -1 ∧
    (fb.insert cfg packet q s flowId hashId).node = none ∧
    (fb.insert cfg packet q s flowId hashId).fb = fb.firstPacket q s := by
  rw [FlowBundler.insert]
  dsimp only
  rw [(h.firstPacket q s).enqueuePacket_full hfull]
  exact ⟨rfl, rfl, rfl⟩

/-- `Insert` on a pool with room. -/
lemma Repr.insert_room (h : Repr n fb held) (hroom : held.length ≠ n) (cfg : Config)
    (packet : Packet) (q s flowId hashId : ℕ) :
    ∃ x, (fb.insert cfg packet q s flowId hashId).ret = 0 ∧
      (fb.insert cfg packet q s flowId hashId).node = some x ∧
      (fb.insert cfg packet q s flowId hashId).fb.headTime = (fb.firstPacket q s).headTime ∧
      (fb.insert cfg packet q s flowId hashId).fb.highestRateQid
        = (fb.firstPacket q s).highestRateQid ∧
      ∀ e : Placed, e.node = x → e.packet = packet →
        e.loc = (fb.insert cfg packet q s flowId hashId).loc →
        Repr n (fb.insert cfg packet q s flowId hashId).fb (held ++ [e]) := by
  obtain ⟨-, hactual, hqueue, hloc⟩ := insert_computes cfg fb packet q s flowId hashId
  rw [hloc, hqueue, hactual]
  rw [FlowBundler.insert]
  dsimp only
  set loc := findRealLocation cfg (finalQueueId cfg q (fb.firstPacket q s).headTime
    (actualTime (fb.firstPacket q s).headTime s))
    (actualTime (fb.firstPacket q s).headTime s) with hl
  obtain ⟨x, fb', hrun, hframe, hpush⟩ :=
    (h.firstPacket q s).enqueuePacket_room hroom loc packet flowId s hashId
  rw [hrun]
  dsimp only
  rw [if_pos rfl]
  refine ⟨x, rfl, rfl, by rw [hframe], by rw [hframe], ?_⟩
  rintro e rfl rfl he
  obtain ⟨hbuckets, hblocks⟩ := hpush e rfl rfl he
  have hlev : e.loc.queueId < 64 := by
    rw [he]
    exact findRealLocation_lt cfg _ _
  refine ⟨⟨hbuckets.chain, hbuckets.node_num, hbuckets.packet_eq⟩, hblocks, ?_⟩
  have htally := (h.firstPacket q s).tally.push e hlev
  rw [hframe, ← he]
  exact htally

/-- The head time after the first-packet test of a packet of queue index `q` due at `s`. -/
def headFor (fb : FlowBundler) (q s : ℕ) : ℕ :=
  if fb.bitmap = 0 then s &&& headTimeMask q else fb.headTime

/-- What a round of `Enqueue` computes, in any state. -/
lemma enqueueOne_computes (cfg : Config) (fb : FlowBundler) (now : ℕ) (pkt : Packet)
    (aggreRate hashId : ℕ) :
    (fb.enqueueOne cfg now pkt aggreRate hashId).sendTime = fb.stampOf pkt now ∧
    (fb.enqueueOne cfg now pkt aggreRate hashId).actual
      = actualTime (headFor fb (findQueueIndex cfg aggreRate) (fb.stampOf pkt now))
          (fb.stampOf pkt now) ∧
    (fb.enqueueOne cfg now pkt aggreRate hashId).queueId
      = finalQueueId cfg (findQueueIndex cfg aggreRate)
          (headFor fb (findQueueIndex cfg aggreRate) (fb.stampOf pkt now))
          (fb.enqueueOne cfg now pkt aggreRate hashId).actual ∧
    (fb.enqueueOne cfg now pkt aggreRate hashId).loc
      = findRealLocation cfg (fb.enqueueOne cfg now pkt aggreRate hashId).queueId
          (fb.enqueueOne cfg now pkt aggreRate hashId).actual := by
  rw [enqueueOne]
  dsimp only
  set q := findQueueIndex cfg aggreRate
  set s := fb.stampOf pkt now
  set fb₁ : FlowBundler := { fb with
    flowInfo := Function.update fb.flowInfo pkt.src (fb.infoOf pkt.src now)
    highestRateQid := min q fb.highestRateQid } with hfb₁
  have hhead : (fb₁.firstPacket q s).headTime = headFor fb q s := firstPacket_headTime fb₁ q s
  obtain ⟨hsend, hactual, hqueue, hloc⟩ := insert_computes cfg fb₁ pkt q s pkt.src hashId
  rw [hhead] at hactual hqueue
  split <;> exact ⟨hsend, hactual, hqueue, hloc⟩

/-- What a round of `Enqueue` does to the represented list, and the head time and scan
granularity it leaves. -/
lemma enqueueOne_stores (h : Repr n fb held) (cfg : Config) (now : ℕ) (pkt : Packet)
    (aggreRate hashId : ℕ) :
    (fb.enqueueOne cfg now pkt aggreRate hashId).fb.headTime
        = headFor fb (findQueueIndex cfg aggreRate) (fb.stampOf pkt now) ∧
    (fb.enqueueOne cfg now pkt aggreRate hashId).fb.highestRateQid
        = (if fb.bitmap = 0 then findQueueIndex cfg aggreRate
            else min (findQueueIndex cfg aggreRate) fb.highestRateQid) ∧
      ((held.length = n ∧ (fb.enqueueOne cfg now pkt aggreRate hashId).node = none ∧
          Repr n (fb.enqueueOne cfg now pkt aggreRate hashId).fb held) ∨
        (held.length ≠ n ∧ ∃ x, (fb.enqueueOne cfg now pkt aggreRate hashId).node = some x ∧
          ∀ e : Placed, e.node = x → e.packet = pkt →
            e.loc = (fb.enqueueOne cfg now pkt aggreRate hashId).loc →
            Repr n (fb.enqueueOne cfg now pkt aggreRate hashId).fb (held ++ [e]))) := by
  rw [enqueueOne]
  dsimp only
  set q := findQueueIndex cfg aggreRate
  set s := fb.stampOf pkt now
  set fb₁ : FlowBundler := { fb with
    flowInfo := Function.update fb.flowInfo pkt.src (fb.infoOf pkt.src now)
    highestRateQid := min q fb.highestRateQid } with hfb₁
  have h₁ : Repr n fb₁ held := h.congr rfl rfl rfl rfl rfl rfl
  have hhead : (fb₁.firstPacket q s).headTime = headFor fb q s := firstPacket_headTime fb₁ q s
  have hqid := firstPacket_highestRateQid fb₁ q s
  by_cases hfull : held.length = n
  · obtain ⟨hret, hnode, hfb⟩ := h₁.insert_full hfull cfg pkt q s pkt.src hashId
    rw [if_pos (by rw [hret]; decide)]
    refine ⟨?_, ?_, .inl ⟨hfull, hnode, ?_⟩⟩
    · rw [hfb, hhead]
    · rw [hfb, hqid]
    · rw [hfb]
      exact h₁.firstPacket q s
  · obtain ⟨x, hret, hnode, hht, hhq, hrepr⟩ :=
      h₁.insert_room hfull cfg pkt q s pkt.src hashId
    rw [if_neg (by rw [hret]; decide)]
    refine ⟨hht.trans hhead, hhq.trans hqid, .inr ⟨hfull, x, hnode, fun e hx hp hl => ?_⟩⟩
    exact (hrepr e hx hp hl).congr rfl rfl rfl rfl rfl rfl

end Enqueue

/-! ### Dequeue -/

section Dequeue

variable {n : ℕ} {cfg : Config} {fb : FlowBundler} {held : List Placed} {now garbage t : ℕ}

/-- After a bulk removal the scan granularity is still at most every occupied level. -/
lemma afterBulk_qid_le {l k : ℕ} (h : Repr n (fb.afterBulk l k) held) {e : Placed}
    (he : e ∈ held) (hle : fb.highestRateQid ≤ e.loc.queueId) :
    (fb.afterBulk l k).highestRateQid ≤ e.loc.queueId := by
  have hlow := h.tally.lowBit_le he
  have hne : (fb.afterBulk l k).bitmap ≠ 0 := fun hz => by
    rw [h.tally.bitmap_eq_zero_iff.mp hz] at he
    simp at he
  rw [afterBulk] at hlow hne ⊢
  dsimp only at hlow hne ⊢
  split
  · rename_i hleft
    rw [if_pos hleft] at hlow hne
    dsimp only at hlow hne ⊢
    rw [if_pos hne, ffsll, if_neg hne, Nat.add_sub_cancel]
    exact hlow
  · exact hle

/-- The scan granularity changes only when the level is drained. -/
lemma afterBulk_qid_eq {l k : ℕ} (h : Repr n (fb.afterBulk l k) held) :
    (fb.afterBulk l k).highestRateQid = fb.highestRateQid ∨ ∀ e ∈ held, e.loc.queueId ≠ l := by
  by_cases hleft : fb.nPackets l - k = 0
  · right
    intro e he hl
    have hpos := h.tally.pos_iff.mpr ⟨e, he, hl⟩
    rw [afterBulk_eq] at hpos
    dsimp only at hpos
    rw [Function.update_self, hleft] at hpos
    exact absurd hpos (lt_irrefl 0)
  · left
    rw [afterBulk, if_neg hleft]

/-- A scan round that takes packets takes the front of the bucket it looks up. -/
lemma scanRound_some (h : Repr n fb held) {b : BulkResult × ℕ}
    (hrun : fb.scanRound cfg t = some b) :
    ∃ loc, loc = findRealLocation cfg fb.highestRateQid t ∧ Repr.front cfg held loc ≠ [] ∧
      b.1.taken = (Repr.front cfg held loc).map Placed.node ∧
      b.1.batch = (Repr.front cfg held loc).map Placed.packet ∧
      b.2 = (Repr.front cfg held loc).length ∧
      Repr n b.1.fb (without Placed.node held b.1.taken) ∧
      (∀ e ∈ without Placed.node held b.1.taken, fb.highestRateQid ≤ e.loc.queueId →
        b.1.fb.highestRateQid ≤ e.loc.queueId) ∧
      (b.1.fb.highestRateQid = fb.highestRateQid ∨
        ∀ e ∈ without Placed.node held b.1.taken, e.loc.queueId ≠ loc.queueId) := by
  rw [scanRound] at hrun
  dsimp only at hrun
  set loc := findRealLocation cfg fb.highestRateQid t with hloc
  split at hrun
  · rename_i hocc
    obtain ⟨r, hbulk, htaken, hbatch, hqid, hrepr⟩ :=
      h.bulk_spec cfg ((h.occupied_iff loc).mp hocc)
    rw [hbulk] at hrun
    dsimp only at hrun
    split at hrun
    · rename_i hpos
      rw [Option.some.injEq] at hrun
      subst hrun
      refine ⟨loc, rfl, fun hnil => ?_, htaken, hbatch, rfl, ?_, fun e he hle => ?_, ?_⟩
      · rw [hnil] at hpos
        exact absurd hpos (by simp)
      · dsimp only
        rw [htaken]
        exact hrepr
      · dsimp only at he ⊢
        rw [htaken] at he
        exact afterBulk_qid_le hrepr he (by rw [hqid]; exact hle)
      · dsimp only
        rw [htaken, ← hqid]
        exact afterBulk_qid_eq hrepr
    · exact absurd hrun (by simp)
  · exact absurd hrun (by simp)

/-- A round finds nothing exactly when its bucket is empty, for a positive burst. -/
lemma scanRound_none (h : Repr n fb held) (hburst : 1 ≤ cfg.dequeueBurst)
    (hrun : fb.scanRound cfg t = none) :
    bucketList held (findRealLocation cfg fb.highestRateQid t) = [] := by
  by_contra hne
  rw [scanRound] at hrun
  dsimp only at hrun
  obtain ⟨r, hbulk, -⟩ := h.bulk_spec cfg hne
  have hlen : 0 < (bucketList held (findRealLocation cfg fb.highestRateQid t)).length :=
    List.length_pos_iff.mpr hne
  rw [if_pos ((h.occupied_iff _).mpr hne), hbulk, Repr.length_front, if_pos (by omega)] at hrun
  exact absurd hrun (by simp)

/-- What `Dequeue` can do to the represented list. -/
inductive DequeueCases (n : ℕ) (cfg : Config) (fb : FlowBundler) (held : List Placed)
    (now : ℕ) (r : DequeueResult) : Prop
  /-- Nothing is held. -/
  | empty (hnil : held = []) (hfb : r.fb = { fb with headTime := now }) (htaken : r.taken = [])
      (hbatch : r.batch = [])
  /-- The front of a bucket is taken at head time `t`. -/
  | hit (t : ℕ) (loc : Location) (hdue : t ≤ now)
      (hloc : loc = findRealLocation cfg fb.highestRateQid t)
      (hfront : Repr.front cfg held loc ≠ [])
      (htaken : r.taken = (Repr.front cfg held loc).map Placed.node)
      (hbatch : r.batch = (Repr.front cfg held loc).map Placed.packet)
      (hhead : r.fb.headTime = t) (hrepr : Repr n r.fb (without Placed.node held r.taken))
      (hqid : ∀ e ∈ without Placed.node held r.taken, fb.highestRateQid ≤ e.loc.queueId →
        r.fb.highestRateQid ≤ e.loc.queueId)
      (hdrain : r.fb.highestRateQid = fb.highestRateQid ∨
        ∀ e ∈ without Placed.node held r.taken, e.loc.queueId ≠ loc.queueId)
  /-- The scan ends beyond the clock, at `t`. -/
  | miss (t d : ℕ) (hfb : r.fb = { fb with headTime := t, lastDequeued := d })
      (htaken : r.taken = []) (hbatch : r.batch = [])

/-- **`Dequeue`** takes nothing, or the front of one bucket. -/
theorem dequeue_cases (h : Repr n fb held) {r : DequeueResult}
    (hrun : fb.dequeue cfg now garbage = some r) : DequeueCases n cfg fb held now r := by
  cases dequeue_returned hrun with
  | empty htotal hr =>
      rw [h.tally.total_eq, List.length_eq_zero_iff] at htotal
      rw [hr]
      exact .empty htotal rfl rfl rfl
  | hit b num t hdue hround hr =>
      obtain ⟨loc, hloc, hfront, htaken, hbatch, -, hrepr, hqid, hdrain⟩ := scanRound_some h hround
      rw [hr]
      exact .hit t loc hdue hloc hfront htaken hbatch rfl
        (hrepr.congr rfl rfl rfl rfl rfl rfl) hqid hdrain
  | miss t num hr =>
      rw [hr]
      exact .miss t num rfl rfl rfl

end Dequeue

end Bess
