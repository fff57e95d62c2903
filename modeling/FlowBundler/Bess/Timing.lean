import FlowBundler.Bess.Bookkeeping

/-!
Times in the calendar: where a deadline is stored, and what `Insert` computes for a packet.

* `findRealLocation_eq`: a time is stored, and looked up, at the level and odd part of the
  time rounded up; `eq_of_same_loc`: two deadlines of one bucket that are less than one
  rotation apart are equal.
* `finalQueueId_bounds`: with times in range, the horizon test keeps the granule below the
  width of a word.
* `Timed`: every held packet is stored at its deadline, which is not behind the head time.
* `World.EnqueueStep.timed`: a round of `Enqueue` keeps this, for the first packet, for a
  packet beyond the horizon, for one behind the head time, and for one that is refused.

The rounding is that of the library: a multiple of a granule is rounded to itself, and everything
else up to the next one.  A deadline is rounded up from the later of the send time and the head
time, so it is not before either of them, and its level is at least the granule it is rounded to;
hence the queue that holds it is never below the one whose granule the scan goes by.
-/

namespace Bess

open Ledger Dyadic Wheel FlowBundler

variable {cfg : Config}

/-! ### Words of the source in arithmetic form -/

lemma land_headTimeMask {t k : ℕ} (ht : t < 2 ^ 64) : t &&& headTimeMask k = floorTo k t :=
  land_mask ht

lemma land_bidMask (b : ℕ) : b &&& bidMask cfg = b % 2 ^ cfg.bucketNumScale := by
  rw [bidMask, Nat.one_shiftLeft, Nat.and_two_pow_sub_one_eq_mod]

lemma granularity_eq {q : ℕ} (hq : q + cfg.minGranScale ≤ 63) :
    granularity cfg q = 2 ^ (q + cfg.minGranScale) := by
  rw [granularity, Nat.one_shiftLeft]
  exact Nat.mod_eq_of_lt (Nat.pow_lt_pow_right (by norm_num) (by omega))

/-- The horizon of a queue: one rotation less one granule. -/
lemma horizon_eq {q : ℕ} (hq : q + cfg.minGranScale + cfg.bucketNumScale ≤ 63) :
    horizon cfg q = 2 ^ (q + cfg.minGranScale + cfg.bucketNumScale)
      - 2 ^ (q + cfg.minGranScale) := by
  have hlt : 2 ^ (q + cfg.minGranScale + cfg.bucketNumScale) < 2 ^ 64 :=
    Nat.pow_lt_pow_right (by norm_num) (by omega)
  have hle : 2 ^ (q + cfg.minGranScale) ≤ 2 ^ (q + cfg.minGranScale + cfg.bucketNumScale) :=
    Nat.pow_le_pow_right (by norm_num) (by omega)
  rw [horizon, granularity_eq (by omega), Nat.shiftLeft_eq, ← pow_add, Nat.mod_eq_of_lt hlt,
    Nat.sub_add_comm hle, Nat.add_mod_right]
  exact Nat.mod_eq_of_lt (lt_of_le_of_lt (Nat.sub_le _ _) hlt)

/-- The number of the granule that ends at or after a time. -/
lemma findBucketIndex_eq {q t : ℕ} (ht : t < 2 ^ 64) :
    findBucketIndex cfg q t
      = (t + 2 ^ (q + cfg.minGranScale) - 1) / 2 ^ (q + cfg.minGranScale) := by
  set k := q + cfg.minGranScale with hk
  have hp := Nat.two_pow_pos k
  have hfloor : t >>> k <<< k % 2 ^ 64 = floorTo k t := by
    rw [Nat.shiftLeft_eq, Nat.shiftRight_eq_div_pow]
    exact Nat.mod_eq_of_lt (lt_of_le_of_lt (floorTo_le k t) ht)
  rw [findBucketIndex, ← hk, hfloor, Nat.shiftRight_eq_div_pow]
  -- rounding up is division, plus one unless the time is a multiple of the granule
  have hceil : ceilTo k t = (t + 2 ^ k - 1) / 2 ^ k * 2 ^ k := rfl
  split
  · rename_i hlt
    have hdiv : t / 2 ^ k ≤ floorTo k t := Nat.le_mul_of_pos_right _ hp
    rw [Nat.mod_eq_of_lt (by omega)]
    refine Nat.eq_of_mul_eq_mul_right hp ?_
    rw [← hceil]
    refine le_antisymm ?_ (ceilTo_le (dvd_nextTo k t) (lt_nextTo k t).le)
    exact nextTo_le (dvd_ceilTo k t) (lt_of_le_of_ne (le_ceilTo k t) fun heq => by
      rw [floorTo_of_dvd (heq ▸ dvd_ceilTo k t)] at hlt
      exact lt_irrefl _ hlt)
  · rename_i hge
    refine Nat.eq_of_mul_eq_mul_right hp ?_
    have hdvd : floorTo k t = t := le_antisymm (floorTo_le k t) (not_lt.mp hge)
    rw [← hceil, ceilTo_of_dvd (hdvd ▸ dvd_floorTo k t)]
    exact hdvd

/-! ### Where a deadline is stored -/

/-- The location of a deadline: its level, counted from the finest granule, and its odd part
on a wheel of `2^bucketNumScale` buckets; the deadline `0` lies in the first bucket of the
last level. -/
def locOf (cfg : Config) (D : ℕ) : Location :=
  if D = 0 then { queueId := 63, bucketId := 0 }
  else { queueId := level D - cfg.minGranScale, bucketId := index cfg.bucketNumScale D }

lemma locOf_of_pos {D : ℕ} (hD : 0 < D) : locOf cfg D
    = { queueId := level D - cfg.minGranScale, bucketId := index cfg.bucketNumScale D } :=
  if_neg (by omega)

/-- A time in range stays in range when it is rounded up. -/
lemma ceilTo_le_top {k t : ℕ} (hk : k ≤ 63) (ht : t ≤ 2 ^ 63) : ceilTo k t ≤ 2 ^ 63 :=
  ceilTo_le (pow_dvd_pow 2 hk) ht

lemma level_le_top {D : ℕ} (hD : 0 < D) (hle : D ≤ 2 ^ 63) : level D ≤ 63 :=
  Nat.lt_succ_iff.mp (level_lt hD (by omega) (lt_of_le_of_lt hle (by norm_num)))

/-- A time is stored and looked up at the location of its deadline. -/
lemma findRealLocation_eq {q t : ℕ} (hq : q + cfg.minGranScale ≤ 63) (ht : t ≤ 2 ^ 63) :
    findRealLocation cfg q t = locOf cfg (ceilTo (q + cfg.minGranScale) t) := by
  set k := q + cfg.minGranScale with hk
  set b := (t + 2 ^ k - 1) / 2 ^ k with hb
  have hbid : findBucketIndex cfg q t = b := findBucketIndex_eq (by omega)
  have hne : b ||| 1 <<< 63 ≠ 0 := fun h => by
    rw [Nat.or_eq_zero_iff] at h
    exact absurd h.2 (by decide)
  have hffs : ffsll (b ||| 1 <<< 63) = lowBit 64 (b ||| 1 <<< 63) + 1 := if_neg hne
  rw [findRealLocation, hbid, queueNum, hffs]
  rcases Nat.eq_zero_or_pos t with rfl | hpos
  · -- the bucket number `0` has only the guard bit
    have hb0 : b = 0 := by
      rw [hb, Nat.zero_add]
      exact Nat.div_eq_of_lt (by have := Nat.two_pow_pos k; omega)
    have hceil : ceilTo k 0 = 0 := ceilTo_of_dvd (dvd_zero _)
    have hlow : lowBit 64 (0 ||| 1 <<< 63) = 63 := lowBit_top 63
    have hzero : ∀ q', findBucketIndex cfg q' 0 = 0 := fun q' => by
      rw [findBucketIndex_eq (by norm_num), Nat.zero_add]
      exact Nat.div_eq_of_lt (by have := Nat.two_pow_pos (q' + cfg.minGranScale); omega)
    rw [hb0, hlow, hceil, locOf, if_pos rfl, Nat.mod_eq_of_lt (by omega), hzero, Nat.zero_and]
    split
    · rfl
    · rw [show q + (63 + 1) - 1 = 63 by omega]
  · have htop := ceilTo_le_top hq ht
    have hDpos : 0 < ceilTo k t := lt_of_lt_of_le hpos (le_ceilTo k t)
    obtain ⟨hlev, hidx⟩ := ceil_lookup hpos ht (show ceilTo k t < 2 ^ 64 by omega)
    rw [← hb] at hlev
    have hl63 := level_le_top hDpos htop
    have hqid : (q + (lowBit 64 (b ||| 1 <<< 63) + 1) - 1) % 2 ^ 32
        = level (ceilTo k t) - cfg.minGranScale := by
      rw [Nat.mod_eq_of_lt (by omega)]
      omega
    have hback : level (ceilTo k t) - cfg.minGranScale + cfg.minGranScale
        = level (ceilTo k t) := by omega
    rw [hqid, if_neg (by omega), findBucketIndex_eq (by omega), hback, hidx, land_bidMask,
      locOf_of_pos hDpos]
    rfl

section SameLoc

variable {D D' h : ℕ}

/-- The level of a multiple of the finest granule is at least that granule. -/
lemma minGran_le_level (hD : 0 < D) (hle : D ≤ 2 ^ 63) (hdvd : 2 ^ cfg.minGranScale ∣ D) :
    cfg.minGranScale ≤ level D :=
  le_level_of_dvd hD (by omega) hdvd

/-- A deadline on a level that is not below `h` is a multiple of the granule of `h`. -/
lemma dvd_of_le_loc (hle : D ≤ 2 ^ 63) (hdvd : 2 ^ cfg.minGranScale ∣ D)
    (hh : h ≤ (locOf cfg D).queueId) : 2 ^ (h + cfg.minGranScale) ∣ D := by
  rcases Nat.eq_zero_or_pos D with rfl | hD
  · exact dvd_zero _
  · rw [locOf_of_pos hD] at hh
    dsimp only at hh
    have hgran := minGran_le_level hD hle hdvd
    exact dvd_of_le_level hD (by omega) (by omega)

/-- Two deadlines of one bucket that are less than one rotation apart are equal. -/
lemma eq_of_same_loc (hle : D ≤ D') (htop : D' ≤ 2 ^ 63) (hdvd : 2 ^ cfg.minGranScale ∣ D)
    (hdvd' : 2 ^ cfg.minGranScale ∣ D') (hloc : locOf cfg D = locOf cfg D')
    (hrot : D' < D + 2 ^ ((locOf cfg D').queueId + cfg.minGranScale + cfg.bucketNumScale)) :
    D = D' := by
  rcases Nat.eq_zero_or_pos D' with rfl | hD'
  · omega
  have hgran' := minGran_le_level hD' htop hdvd'
  have hl63 := level_le_top hD' htop
  rw [locOf_of_pos hD'] at hrot hloc
  dsimp only at hrot
  rw [Nat.sub_add_cancel hgran'] at hrot
  rcases Nat.eq_zero_or_pos D with rfl | hD
  · -- only the last deadline of the last level is in the bucket of `0`
    rw [locOf, if_pos rfl, Location.mk.injEq] at hloc
    obtain ⟨hqueue, hidx⟩ := hloc
    have hlev : level D' = 63 := by omega
    have hpow : 2 ^ 63 ∣ D' := hlev ▸ dvd_of_le_level hD' (by omega) le_rfl
    have hD63 : D' = 2 ^ 63 := le_antisymm htop (Nat.le_of_dvd hD' hpow)
    have hscale : cfg.bucketNumScale = 0 := by
      by_contra hne
      have hone : 1 < 2 ^ cfg.bucketNumScale := Nat.one_lt_two_pow hne
      rw [index, hlev, hD63, Nat.div_self (by norm_num), Nat.mod_eq_of_lt hone] at hidx
      omega
    rw [hlev, hscale, Nat.add_zero, Nat.zero_add] at hrot
    omega
  · have hgran := minGran_le_level hD (hle.trans htop) hdvd
    rw [locOf_of_pos hD, Location.mk.injEq] at hloc
    obtain ⟨hqueue, hidx⟩ := hloc
    have hlev : level D = level D' := by omega
    exact eq_of_same_bucket hD (by omega) hlev hidx hle (by rwa [hlev])

end SameLoc

/-! ### What `Insert` computes -/

section Insert

variable {q H s : ℕ}

lemma actualTime_of_lt (h : s < H) : actualTime H s = H := if_pos h

lemma actualTime_of_le (h : H ≤ s) : actualTime H s = s := if_neg (not_lt.mpr h)

lemma actualTime_eq_max (H s : ℕ) : actualTime H s = max H s := by
  rcases Nat.lt_or_ge s H with h | h
  · rw [actualTime_of_lt h, max_eq_left h.le]
  · rw [actualTime_of_le h, max_eq_right h]

/-- A packet behind the head time keeps its rate class. -/
lemma finalQueueId_of_lt (hq : q ≤ 34) (h : s < H) :
    finalQueueId cfg q H (actualTime H s) = q := by
  rw [actualTime_of_lt h, finalQueueId, Nat.sub_self, Nat.zero_shiftRight, clzll, if_pos rfl]
  split
  · exact Nat.mod_eq_of_lt (by omega)
  · rfl

/-- A time that is `x` rotations ahead, `x` positive, goes up by the length of `x` in bits. -/
lemma bump_bounds {k d : ℕ} (hd : d < 2 ^ 62) (hne : d >>> k ≠ 0) :
    64 - clzll (d >>> k) = Nat.log2 (d >>> k) + 1 ∧ k + Nat.log2 (d >>> k) < 62 := by
  have hpow : 2 ^ (k + Nat.log2 (d >>> k)) ≤ d := by
    rw [pow_add]
    calc 2 ^ k * 2 ^ Nat.log2 (d >>> k) ≤ 2 ^ k * (d >>> k) :=
          Nat.mul_le_mul_left _ (Nat.log2_self_le hne)
      _ ≤ d := by
          rw [Nat.shiftRight_eq_div_pow]
          exact Nat.mul_div_le d (2 ^ k)
  have hlog : k + Nat.log2 (d >>> k) < 62 :=
    (Nat.pow_lt_pow_iff_right (by norm_num)).mp (lt_of_le_of_lt hpow hd)
  rw [clzll, if_neg hne]
  exact ⟨by omega, hlog⟩

/-- With times in range the granule that `Insert` finally uses is below the width of a
word. -/
lemma finalQueueId_bounds (hshift : q + cfg.minGranScale + cfg.bucketNumScale < 64)
    (hq : q ≤ 34) (hs : s < 2 ^ 62) :
    finalQueueId cfg q H (actualTime H s) + cfg.minGranScale ≤ 63 := by
  rcases Nat.lt_or_ge s H with h | h
  · rw [finalQueueId_of_lt hq h]
    omega
  rw [actualTime_of_le h, finalQueueId]
  split
  · by_cases hz : (s - H) >>> (q + cfg.minGranScale + cfg.bucketNumScale) = 0
    · rw [hz, clzll, if_pos rfl, Nat.mod_eq_of_lt (by omega)]
      omega
    · obtain ⟨hbits, hlog⟩ := bump_bounds (show s - H < 2 ^ 62 by omega) hz
      rw [Nat.add_sub_assoc (clzll_le _), hbits, Nat.mod_eq_of_lt (by omega)]
      omega
  · omega

end Insert

/-! ### The invariant -/

/-- Every held packet is stored at its deadline, not behind the head time and not before its
send time, and the granule of the scan is below the width of a word. -/
structure Timed (cfg : Config) (fb : FlowBundler) (held : List Placed) : Prop where
  loc_eq : ∀ e ∈ held, e.loc = locOf cfg (e.deadline cfg)
  ahead : ∀ e ∈ held, fb.headTime ≤ e.deadline cfg
  bound : ∀ e ∈ held, e.deadline cfg ≤ 2 ^ 63
  send_le : ∀ e ∈ held, e.sendTime ≤ e.deadline cfg
  gran : held ≠ [] → fb.highestRateQid + cfg.minGranScale ≤ 63

lemma Placed.minGran_dvd_deadline (cfg : Config) (e : Placed) :
    2 ^ cfg.minGranScale ∣ e.deadline cfg :=
  (pow_dvd_pow 2 (by omega)).trans (dvd_ceilTo (e.queueId + cfg.minGranScale) e.actual)

namespace Timed

variable {fb fb' : FlowBundler} {held held' : List Placed}

lemma nil (cfg : Config) (fb : FlowBundler) : Timed cfg fb [] :=
  ⟨by simp, by simp, by simp, by simp, by simp⟩

/-- Held packets and head time may change as long as no deadline falls behind. -/
lemma update (h : Timed cfg fb held) (hsub : ∀ e ∈ held', e ∈ held)
    (hhead : ∀ e ∈ held', fb'.headTime ≤ e.deadline cfg)
    (hgran : held' ≠ [] → fb'.highestRateQid + cfg.minGranScale ≤ 63) : Timed cfg fb' held' :=
  ⟨fun e he => h.loc_eq e (hsub e he), hhead, fun e he => h.bound e (hsub e he),
    fun e he => h.send_le e (hsub e he), hgran⟩

/-- The head time is in range while a packet is held. -/
lemma head_le (h : Timed cfg fb held) (hne : held ≠ []) : fb.headTime ≤ 2 ^ 63 := by
  obtain ⟨e, he⟩ := List.exists_mem_of_ne_nil held hne
  exact (h.ahead e he).trans (h.bound e he)

end Timed

namespace World

variable {w w' : World} {pkt : Packet} {q s : ℕ}

/-- The head time that a round of `Enqueue` uses is in range. -/
lemma Inv.headFor_le (h : w.Inv cfg) (ht : Timed cfg w.fb w.held) (hs : s < 2 ^ 62) :
    headFor w.fb q s ≤ 2 ^ 63 := by
  rw [headFor]
  split
  · rw [land_headTimeMask (by omega)]
    exact (floorTo_le q s).trans (by omega)
  · rename_i hne
    exact ht.head_le fun hnil => hne (h.repr.tally.bitmap_eq_zero_iff.mpr hnil)

/-- While a packet is held the first-packet test fails. -/
lemma Inv.headFor_eq (h : w.Inv cfg) (hne : w.held ≠ []) : headFor w.fb q s = w.fb.headTime :=
  if_neg fun hz => hne (h.repr.tally.bitmap_eq_zero_iff.mp hz)

/-- A new packet is stored at its deadline, in range, and not behind the head time. -/
lemma Places.timed {e : Placed} (hplaces : w.Places cfg pkt q s e)
    (hshift : q + cfg.minGranScale + cfg.bucketNumScale < 64) (hq : q ≤ 34)
    (hH : headFor w.fb q s ≤ 2 ^ 63) (hs : s < 2 ^ 62) :
    e.loc = locOf cfg (e.deadline cfg) ∧ headFor w.fb q s ≤ e.deadline cfg ∧
      e.deadline cfg ≤ 2 ^ 63 ∧ e.sendTime ≤ e.deadline cfg := by
  have hgran : e.queueId + cfg.minGranScale ≤ 63 := by
    rw [hplaces.queueId, hplaces.actual]
    exact finalQueueId_bounds hshift hq hs
  have hactual : e.actual = max (headFor w.fb q s) s := by
    rw [hplaces.actual, actualTime_eq_max]
  have hceil : e.actual ≤ e.deadline cfg := le_ceilTo _ _
  have htop : e.actual ≤ 2 ^ 63 := by omega
  refine ⟨?_, by omega, ceilTo_le_top hgran htop, ?_⟩
  · rw [hplaces.loc]
    exact findRealLocation_eq hgran htop
  · rw [hplaces.sendTime]
    omega

/-- **A round of `Enqueue`** keeps the calendar timed. -/
theorem EnqueueStep.timed (hstep : w.EnqueueStep cfg pkt q s w') (h : w.Inv cfg)
    (ht : Timed cfg w.fb w.held) (hshift : q + cfg.minGranScale + cfg.bucketNumScale < 64)
    (hq : q ≤ 34) (hs : s < 2 ^ 62) : Timed cfg w'.fb w'.held := by
  have hgran : w'.fb.highestRateQid + cfg.minGranScale ≤ 63 := by
    have := hstep.qid_le_class
    omega
  have hkeep : ∀ e ∈ w.held, w'.fb.headTime ≤ e.deadline cfg := by
    intro e he
    rw [hstep.headTime, h.headFor_eq (List.ne_nil_of_mem he)]
    exact ht.ahead e he
  rcases hstep.outcome with ⟨-, hheld, -⟩ | ⟨-, -, e, hplaces, hheld⟩
  · rw [hheld]
    exact ht.update (fun e he => he) hkeep fun _ => hgran
  · obtain ⟨hloc, hahead, hbound, hsend⟩ :=
      hplaces.timed hshift hq (h.headFor_le ht hs) hs
    rw [← hstep.headTime] at hahead
    have hmem : ∀ x ∈ w.held ++ [e], x ∈ w.held ∨ x = e := fun x hx => by simpa using hx
    rw [hheld]
    refine ⟨?_, ?_, ?_, ?_, fun _ => hgran⟩ <;> intro x hx <;>
      rcases hmem x hx with hx | rfl
    · exact ht.loc_eq x hx
    · exact hloc
    · exact hkeep x hx
    · exact hahead
    · exact ht.bound x hx
    · exact hbound
    · exact ht.send_le x hx
    · exact hsend

end World

end Bess
