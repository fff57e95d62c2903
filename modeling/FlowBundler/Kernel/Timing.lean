import FlowBundler.Kernel.Repr

/-!
Times, levels and locations in the calendar, and what storing a packet does to them.

* `locOf D`: a deadline is stored at its level, the number of its trailing zero bits, under
  its odd part; `findRealLocation_eq`: this is where `dfb_find_real_location` looks, as the
  bucket number of a send time is the next multiple of the granule, shifted.
* `Timed`: every held packet is stored at its deadline, ahead of the head time, on a level
  that the scan granularity divides.
* `Windowed c`: no held deadline of the class `c` is more than one rotation of its level
  ahead.  It is apart from `Timed` since a dequeue may break it, by moving the head time
  back to the clock, and it is about a class of packets since some properties need it for
  one packet or one flow only.
* `deadline_bounds`: a send time clamped to the horizon has its deadline within one rotation
  of its own rate class, and its level is at least that of the class.
* `enqueueToCq_spec`: storing a packet keeps the calendar represented, timed and windowed.
  The first packet sets the head time, which it may since the calendar is then empty; the
  clamp puts the deadline between the head time and the horizon, and a push does the rest.
-/

namespace Dfb

open Ledger Dyadic Wheel

/-! ### Words of the source in arithmetic form -/

lemma deadline_eq (q s : ℕ) : deadline q s = nextTo q s := by
  rw [deadline, nextTo, Nat.shiftLeft_eq, Nat.shiftRight_eq_div_pow]

lemma land_headTimeMask {t k : ℕ} (ht : t < 2 ^ 64) : t &&& dfbHeadTimeMask k = floorTo k t :=
  land_mask ht

lemma land_bidMask (b : ℕ) : b &&& bidMask = b % 2 ^ 10 := by
  rw [bidMask, bucketNumScale, Nat.one_shiftLeft, Nat.and_two_pow_sub_one_eq_mod]

lemma granularity_eq {q : ℕ} (hq : q < 64) : 1 <<< (q + minGranScale) % 2 ^ 64 = 2 ^ q := by
  rw [minGranScale, Nat.add_zero, Nat.one_shiftLeft]
  exact Nat.mod_eq_of_lt (Nat.pow_lt_pow_right (by norm_num) hq)

/-- The horizon of a queue: one rotation less one granule. -/
lemma horizon_eq {q : ℕ} (hq : q < 54) : dfbHorizon q = 2 ^ (q + 10) - 2 ^ q := by
  have hlt : 2 ^ (q + 10) < 2 ^ 64 := Nat.pow_lt_pow_right (by norm_num) (by omega)
  have hle : 2 ^ q ≤ 2 ^ (q + 10) := Nat.pow_le_pow_right (by norm_num) (by omega)
  have hshift : 2 ^ q * 2 ^ 10 = 2 ^ (q + 10) := (pow_add 2 q 10).symm
  rw [dfbHorizon, granularity_eq (by omega), bucketNumScale, Nat.shiftLeft_eq, hshift,
    show 2 ^ (q + 10) + 2 ^ 64 - 2 ^ q = 2 ^ (q + 10) - 2 ^ q + 2 ^ 64 by omega,
    Nat.add_mod_right]
  exact Nat.mod_eq_of_lt (by omega)

/-- Every rate class is at most `41`. -/
lemma findQueueIndex_le (rate : ℕ) : dfbFindQueueIndex rate ≤ 41 := by
  have hmax : maxRateHighestBit = 41 := by decide +kernel
  have hfls : fls64 (min maxRate rate) ≤ 41 := by
    rw [fls64]
    split
    · omega
    · rename_i hne
      have hlt : min maxRate rate < 2 ^ 41 := lt_of_le_of_lt (min_le_left _ _) (by decide +kernel)
      have := (Nat.log2_lt hne).mpr hlt
      omega
  rw [dfbFindQueueIndex, hmax]
  have := Nat.mod_lt (41 + 2 ^ 8 - fls64 (min maxRate rate)) (show 0 < 2 ^ 8 by norm_num)
  omega

lemma rateClass_le (P : Params) (q : DfbSchedData) (skb : SkBuff) (rate : ℕ) :
    rateClass P q skb rate ≤ 41 := by
  rw [rateClass]
  split <;> exact findQueueIndex_le _

/-! ### Where a deadline is stored -/

/-- The location of a deadline: its level, and its odd part as bucket number. -/
def locOf (D : ℕ) : DfbLocation := { queueId := level D, bucketId := D / 2 ^ level D }

lemma findBucketIndex_eq {q t : ℕ} (h : t / 2 ^ q + 1 < 2 ^ 64) :
    dfbFindBucketIndex q t = t / 2 ^ q + 1 := by
  rw [dfbFindBucketIndex, minGranScale, Nat.add_zero q, Nat.shiftRight_eq_div_pow,
    Nat.mod_eq_of_lt h]

/-- A send time is stored and looked up at the location of its deadline. -/
lemma findRealLocation_eq {q t : ℕ} (hlt : nextTo q t < 2 ^ 63) :
    dfbFindRealLocation q t = locOf (nextTo q t) := by
  have hpos : 0 < nextTo q t := lt_of_le_of_lt (Nat.zero_le t) (lt_nextTo q t)
  obtain ⟨hlev, hidx⟩ := next_lookup hlt
  have hbid : dfbFindBucketIndex q t = t / 2 ^ q + 1 := by
    refine findBucketIndex_eq (lt_of_le_of_lt ?_ (hlt.trans (by norm_num)))
    exact Nat.le_mul_of_pos_right _ (Nat.two_pow_pos q)
  have hl63 : level (nextTo q t) < 63 := level_lt hpos (by omega) hlt
  have hqid : (q + ffs (dfbFindBucketIndex q t ||| 1 <<< (queueNum - 1))) % 2 ^ 8
      = level (nextTo q t) := by
    rw [hbid, ffs, queueNum, hlev]
    exact Nat.mod_eq_of_lt (by omega)
  have hunlikely : ¬ (if level (nextTo q t) ≠ 0 then 1 else 0) ≥ queueNum := by
    rw [queueNum]
    split <;> omega
  have hreal : dfbFindBucketIndex (level (nextTo q t)) t
      = nextTo q t / 2 ^ level (nextTo q t) := by
    rw [← hidx]
    refine findBucketIndex_eq ?_
    rw [hidx]
    exact lt_of_le_of_lt (Nat.div_le_self _ _) (hlt.trans (by norm_num))
  simp only [dfbFindRealLocation, hqid, if_neg hunlikely, hreal, locOf]

/-- The bucket of a packet stored at the location of its deadline. -/
lemma place_eq {e : Stored} (h : e.loc = locOf e.deadline) :
    e.place = (level e.deadline, index 10 e.deadline) := by
  rw [Stored.place, h, land_bidMask]
  rfl

/-! ### The invariants -/

/-- Every held packet is stored at its deadline, ahead of the head time, on a level the
scan granularity divides. -/
structure Timed (q : DfbSchedData) (held : List Stored) : Prop where
  loc_eq : ∀ e ∈ held, e.loc = locOf e.deadline
  ahead : ∀ e ∈ held, q.headTime < e.deadline
  bound : ∀ e ∈ held, e.deadline < 2 ^ 63
  qid_le : ∀ e ∈ held, q.highestRateQid ≤ e.loc.queueId
  head_lt : q.headTime < 2 ^ 62

/-- No held deadline of the class `c` is more than one rotation of its level ahead of the head
time. -/
def Windowed (c : Stored → Prop) (q : DfbSchedData) (held : List Stored) : Prop :=
  ∀ e ∈ held, c e → e.deadline ≤ q.headTime + 2 ^ (e.loc.queueId + 10)

namespace Timed

variable {q q' : DfbSchedData} {held : List Stored} {e : Stored}

lemma pos (h : Timed q held) (he : e ∈ held) : 0 < e.deadline :=
  lt_of_le_of_lt (Nat.zero_le _) (h.ahead e he)

lemma level_eq (h : Timed q held) (he : e ∈ held) : e.loc.queueId = level e.deadline := by
  rw [h.loc_eq e he]
  rfl

/-- The scan granularity divides every held deadline. -/
lemma dvd (h : Timed q held) (he : e ∈ held) : 2 ^ q.highestRateQid ∣ e.deadline := by
  have hlt := h.bound e he
  refine dvd_of_le_level (h.pos he) (by omega) ?_
  rw [← h.level_eq he]
  exact h.qid_le e he

lemma qid_lt (h : Timed q held) (he : e ∈ held) : q.highestRateQid < 63 := by
  have hlt := h.bound e he
  refine lt_of_le_of_lt (h.qid_le e he) ?_
  rw [h.level_eq he]
  exact level_lt (h.pos he) (by omega) hlt

/-- A head time that is still behind every deadline, and a granularity that is still at
most every level, keep the invariant. -/
lemma update (h : Timed q held) (hhead : ∀ e ∈ held, q'.headTime < e.deadline)
    (hlt : q'.headTime < 2 ^ 62) (hqid : ∀ e ∈ held, q'.highestRateQid ≤ e.loc.queueId) :
    Timed q' held :=
  ⟨h.loc_eq, hhead, h.bound, hqid, hlt⟩

lemma congr (h : Timed q held) (hhead : q'.headTime = q.headTime)
    (hqid : q'.highestRateQid = q.highestRateQid) : Timed q' held :=
  h.update (fun e he => hhead ▸ h.ahead e he) (hhead ▸ h.head_lt)
    fun e he => hqid ▸ h.qid_le e he

lemma sublist (h : Timed q held) {held' : List Stored} (hsub : ∀ e ∈ held', e ∈ held) :
    Timed q held' :=
  ⟨fun e he => h.loc_eq e (hsub e he), fun e he => h.ahead e (hsub e he),
    fun e he => h.bound e (hsub e he), fun e he => h.qid_le e (hsub e he), h.head_lt⟩

/-- One more packet, stored at its deadline. -/
lemma snoc (h : Timed q held) (hloc : e.loc = locOf e.deadline)
    (hahead : q.headTime < e.deadline) (hbound : e.deadline < 2 ^ 63)
    (hqid : q.highestRateQid ≤ e.loc.queueId) : Timed q (held ++ [e]) := by
  have hheld : ∀ x ∈ held ++ [e], x ∈ held ∨ x = e := fun x hx => by
    simpa using hx
  refine ⟨fun x hx => ?_, fun x hx => ?_, fun x hx => ?_, fun x hx => ?_, h.head_lt⟩
  · rcases hheld x hx with hx | rfl
    · exact h.loc_eq x hx
    · exact hloc
  · rcases hheld x hx with hx | rfl
    · exact h.ahead x hx
    · exact hahead
  · rcases hheld x hx with hx | rfl
    · exact h.bound x hx
    · exact hbound
  · rcases hheld x hx with hx | rfl
    · exact h.qid_le x hx
    · exact hqid

end Timed

/-! ### Storing a packet -/

section EnqueueToCq

variable {c : Stored → Prop} {sch : Qdisc} {held : List Stored} {p queueId : ℕ}

/-- The clamped send time lies between the head time and the horizon. -/
lemma clamp_bounds {t lo hi : ℕ} (h : lo ≤ hi) : lo ≤ clampT t lo hi ∧ clampT t lo hi ≤ hi := by
  rw [clampT]
  omega

/-- Initialisation by the first packet keeps the representation. -/
lemma Repr.firstPacket (h : Repr sch held) (queueId s : ℕ) :
    Repr { sch with priv := dfbFirstPacket sch.priv queueId s } held := by
  refine h.congr ?_ ?_ ?_ ?_ fun _ _ => rfl <;> (dsimp only; rw [dfbFirstPacket]; split <;> rfl)

/-- After the first-packet test the granularity is at most the queue index. -/
lemma firstPacket_qid_le {q : DfbSchedData} (s : ℕ) (h : q.highestRateQid ≤ queueId) :
    (dfbFirstPacket q queueId s).highestRateQid ≤ queueId := by
  rw [dfbFirstPacket]
  split
  · exact le_rfl
  · exact h

/-- The first packet finds the calendar empty, so that it can set the head time. -/
lemma Timed.firstPacket (h : Timed sch.priv held) (hr : Repr sch held) (queueId : ℕ) {s : ℕ}
    (hs : sch.priv.bitmap = 0 → s < 2 ^ 62) :
    Timed (dfbFirstPacket sch.priv queueId s) held := by
  rw [dfbFirstPacket]
  split
  · rename_i hz
    have hnil := hr.bitmap_eq_zero_iff.mp hz
    subst hnil
    have hlt := hs hz
    refine ⟨by simp, by simp, by simp, by simp, ?_⟩
    dsimp only
    rw [land_headTimeMask (by omega)]
    exact lt_of_le_of_lt (floorTo_le _ _) hlt
  · exact h

lemma Windowed.firstPacket (h : Windowed c sch.priv held) (hr : Repr sch held)
    (queueId s : ℕ) : Windowed c (dfbFirstPacket sch.priv queueId s) held := by
  rw [dfbFirstPacket]
  split
  · rename_i hz
    rw [hr.bitmap_eq_zero_iff.mp hz]
    simp [Windowed]
  · exact h

/-- What a new packet stored at head time `head` satisfies. -/
lemma deadline_bounds {head s : ℕ} (hhead : head < 2 ^ 62) (hq : queueId ≤ 41)
    (hlo : head ≤ s) (hhi : s ≤ head + dfbHorizon queueId) :
    head < deadline queueId s ∧ deadline queueId s < 2 ^ 63 ∧
      deadline queueId s ≤ head + 2 ^ (level (deadline queueId s) + 10) ∧
      queueId ≤ level (deadline queueId s) := by
  rw [deadline_eq]
  rw [horizon_eq (by omega)] at hhi
  have hpow : 2 ^ (queueId + 10) ≤ 2 ^ 51 := Nat.pow_le_pow_right (by norm_num) (by omega)
  have hle : 2 ^ queueId ≤ 2 ^ (queueId + 10) := Nat.pow_le_pow_right (by norm_num) (by omega)
  have hnext := nextTo_le_add queueId s
  have hgt := lt_nextTo queueId s
  have hlt : nextTo queueId s < 2 ^ 63 := by omega
  have hlev : queueId ≤ level (nextTo queueId s) :=
    le_level_of_dvd (by omega) (by omega) (dvd_nextTo queueId s)
  have hrot : 2 ^ (queueId + 10) ≤ 2 ^ (level (nextTo queueId s) + 10) :=
    Nat.pow_le_pow_right (by norm_num) (by omega)
  exact ⟨by omega, hlt, by omega, hlev⟩

/-- **Storing a packet** keeps the calendar represented, timed and windowed. -/
theorem enqueueToCq_spec (hr : Repr sch held) (ht : Timed sch.priv held)
    (hfresh : p ∉ held.map Stored.ptr) (hq : queueId ≤ 41)
    (hqid : sch.priv.highestRateQid ≤ queueId)
    (hs : sch.priv.bitmap = 0 → (sch.mem p).skbMstampNs < 2 ^ 62) :
    Repr (dfbEnqueueToCq sch p queueId).1 (held ++ [(dfbEnqueueToCq sch p queueId).2]) ∧
      Timed (dfbEnqueueToCq sch p queueId).1.priv (held ++ [(dfbEnqueueToCq sch p queueId).2]) ∧
      ∀ c, Windowed c sch.priv held →
        Windowed c (dfbEnqueueToCq sch p queueId).1.priv
          (held ++ [(dfbEnqueueToCq sch p queueId).2]) := by
  have hr₁ := hr.firstPacket queueId (sch.mem p).skbMstampNs
  have ht₁ := ht.firstPacket hr queueId hs
  have hqid₁ := firstPacket_qid_le (sch.mem p).skbMstampNs hqid
  have hw₁ := fun c (hw : Windowed c sch.priv held) =>
    hw.firstPacket hr queueId (sch.mem p).skbMstampNs
  set q₁ := dfbFirstPacket sch.priv queueId (sch.mem p).skbMstampNs with hq₁
  have hhor : dfbHorizon queueId < 2 ^ 51 := by
    have hpow : 2 ^ (queueId + 10) ≤ 2 ^ 51 := Nat.pow_le_pow_right (by norm_num) (by omega)
    have hpos := Nat.two_pow_pos queueId
    rw [horizon_eq (by omega)]
    omega
  have hhead := ht₁.head_lt
  have hmod : (q₁.headTime + dfbHorizon queueId) % 2 ^ 64 = q₁.headTime + dfbHorizon queueId :=
    Nat.mod_eq_of_lt (by omega)
  set e := (dfbEnqueueToCq sch p queueId).2 with he
  have hsend : e.sendTime = clampT (sch.mem p).skbMstampNs q₁.headTime
      (q₁.headTime + dfbHorizon queueId) := by rw [← hmod]; rfl
  obtain ⟨hlo, hhi⟩ := clamp_bounds (t := (sch.mem p).skbMstampNs)
    (Nat.le_add_right q₁.headTime (dfbHorizon queueId))
  rw [← hsend] at hlo hhi
  obtain ⟨hahead, hbound, hrot, hlev⟩ := deadline_bounds hhead hq hlo hhi
  have hD : e.deadline = deadline queueId e.sendTime := rfl
  have hloc : e.loc = locOf e.deadline := by
    rw [hD, deadline_eq]
    exact findRealLocation_eq (by rwa [deadline_eq] at hbound)
  have hlevel : e.loc.queueId = level e.deadline := by rw [hloc]; rfl
  have hpush : (dfbEnqueueToCq sch p queueId).1
      = dfbPushToBucket { sch with priv := q₁ } e.loc e.ptr := rfl
  have hl63 : level e.deadline < 63 := level_lt (by omega) (by omega) hbound
  rw [hpush]
  refine ⟨hr₁.push hfresh (by omega), ?_, fun c hw x hx hc => ?_⟩
  · refine (ht₁.snoc hloc hahead hbound ?_).congr push_headTime push_highestRateQid
    rw [hlevel]
    exact hqid₁.trans hlev
  · rw [push_headTime]
    rcases List.mem_append.mp hx with hx | hx
    · exact hw₁ c hw x hx hc
    · obtain rfl := List.mem_singleton.mp hx
      rw [hlevel]
      exact hrot

end EnqueueToCq

end Dfb
