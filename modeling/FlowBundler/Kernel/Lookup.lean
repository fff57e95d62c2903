import FlowBundler.Kernel.Timing
import FlowBundler.Lib.Lookup

/-!
`dfb_find_real_location`: storing and scanning name the same buckets.

* `findRealLocation_deadline`, `locOf_spec`: the location of a time at a queue index is the number
  of trailing zero bits of its deadline, and the odd rest.
* `bucket_congr_iff`: two locations hold one bucket of the calendar exactly when they have one
  queue and their bucket numbers agree under `bid_mask`; a calendar whose buckets all differ
  (`labelled`) shows the one direction.
* `lookups_agree`: so two rate classes and two times meet exactly when their deadlines do, and a
  scan over the multiples of a granule meets every location of that level or a coarser one, in the
  order of the deadlines.  The location determines the deadline (`locOf_key`), and the deadlines of
  such locations are multiples of the granule, each looked up at one position of the scan.
* `real_location_in_range_iff`: the send times whose location is in the calendar.  The mask keeps
  every bucket number in range, so this is about the queue; the clamp of the function never acts,
  since it compares a truth value with the number of queues.  At a positive queue index the bucket
  number of the last granule of the 64-bit range is the power of two that makes the queue 64.
-/

namespace Dfb

open Dyadic Wheel

variable {q q' t t' : ℕ}

/-! ### One lookup -/

/-- A deadline in range is positive and at most `2^62`. -/
lemma deadline_range (hq : q ≤ 62) (ht : t < 2 ^ 62) :
    0 < deadline q t ∧ deadline q t ≤ 2 ^ 62 := by
  rw [deadline_eq]
  exact ⟨lt_of_le_of_lt (Nat.zero_le t) (lt_nextTo q t), nextTo_le (pow_dvd_pow 2 hq) ht⟩

lemma findRealLocation_deadline (hq : q ≤ 62) (ht : t < 2 ^ 62) :
    dfbFindRealLocation q t = locOf (deadline q t) := by
  have hle := (deadline_range hq ht).2
  rw [deadline_eq] at hle ⊢
  exact findRealLocation_eq (lt_of_le_of_lt hle (by norm_num))

/-- The location of a deadline: its trailing zero bits, and what is left of it. -/
lemma locOf_spec {D : ℕ} (hD : 0 < D) (hlt : D < 2 ^ 64) :
    (locOf D).queueId = padicValNat 2 D ∧ (locOf D).bucketId = D >>> (locOf D).queueId ∧
      (locOf D).bucketId % 2 = 1 :=
  ⟨level_eq_padicValNat hD hlt, (Nat.shiftRight_eq_div_pow _ _).symm, odd_part hD hlt⟩

/-- The deadline can be read off its location. -/
lemma locOf_key {D : ℕ} (hD : 0 < D) (hlt : D < 2 ^ 64) :
    (locOf D).bucketId <<< (locOf D).queueId = D := by
  rw [Nat.shiftLeft_eq, Nat.mul_comm]
  exact two_pow_level_mul hD hlt

lemma locOf_inj {D D' : ℕ} (hD : 0 < D) (hlt : D < 2 ^ 64) (hD' : 0 < D') (hlt' : D' < 2 ^ 64) :
    locOf D = locOf D' ↔ D = D' := by
  rw [locOf, locOf, DfbLocation.mk.injEq]
  exact (eq_iff_level_odd hD hlt hD' hlt').symm

/-- A location with an odd bucket number is that of the deadline it names. -/
lemma locOf_of_odd {loc : DfbLocation} (hodd : loc.bucketId % 2 = 1) (hr : loc.queueId < 64) :
    locOf (loc.bucketId <<< loc.queueId) = loc := by
  have hlevel : level (2 ^ loc.queueId * loc.bucketId) = loc.queueId :=
    level_two_pow_mul_odd hr hodd
  rw [Nat.shiftLeft_eq, Nat.mul_comm, locOf, hlevel,
    Nat.mul_div_cancel_left _ (Nat.two_pow_pos _)]

/-! ### One bucket -/

/-- A qdisc whose buckets all differ. -/
def labelled : Qdisc :=
  { q := []
    priv :=
      { mlcq := fun l i => { head := some l, tail := some i }
        nPacketsTotal := 0
        nPackets := fun _ => 0
        bitmap := 0
        headTime := 0
        highestRateQid := 0
        hashTable := fun _ => 0
        deqRst := 0
        nCongFlows := 0
        deqCnt := 0
        deqTime := 0
        congRate := 0 }
    mem := fun _ => default }

/-- Two locations hold one bucket of the calendar, whatever is in it, exactly when they have one
queue and their bucket numbers agree under the mask. -/
theorem bucket_congr_iff (loc loc' : DfbLocation) :
    (∀ sch : Qdisc, sch.bucket loc = sch.bucket loc') ↔
      loc.queueId = loc'.queueId ∧ loc.bucketId &&& bidMask = loc'.bucketId &&& bidMask := by
  constructor
  · intro hall
    have hlabel := hall labelled
    rw [Qdisc.bucket, Qdisc.bucket, labelled, DfbBucket.mk.injEq] at hlabel
    exact ⟨Option.some.inj hlabel.1, Option.some.inj hlabel.2⟩
  · rintro ⟨hqueue, hbucket⟩ sch
    rw [Qdisc.bucket, Qdisc.bucket, hqueue, hbucket]

/-! ### The scan -/

/-- The location that the scan at granule `2^q` looks up at its `i`-th position. -/
def scanned (q i : ℕ) : DfbLocation := dfbFindRealLocation q (i <<< q)

lemma deadline_scan (q i : ℕ) : deadline q (i <<< q) = (i + 1) <<< q := by
  rw [deadline, Nat.shiftLeft_shiftRight]

/-- The scan meets the multiples of its granule one after the other. -/
lemma scanned_eq {i : ℕ} (hq : q ≤ 62) (hi : i <<< q < 2 ^ 62) :
    scanned q i = locOf ((i + 1) <<< q) := by
  rw [scanned, findRealLocation_deadline hq hi, deadline_scan]

/-- The scan meets every location of its level or a coarser one, once. -/
lemma existsUnique_scanned {loc : DfbLocation} (hq : q ≤ 62) (hlevel : q ≤ loc.queueId)
    (hodd : loc.bucketId % 2 = 1) (hle : loc.bucketId <<< loc.queueId ≤ 2 ^ 62) :
    ∃! i, i <<< q < 2 ^ 62 ∧ scanned q i = loc := by
  set D := loc.bucketId <<< loc.queueId with hD
  have hkey : D = 2 ^ loc.queueId * loc.bucketId := by rw [hD, Nat.shiftLeft_eq, Nat.mul_comm]
  have hpos : 0 < D := by
    rw [hkey]
    exact Nat.mul_pos (Nat.two_pow_pos _) (by omega)
  have hqueue : loc.queueId < 64 := by
    have hpow : 2 ^ loc.queueId ≤ 2 ^ 62 := by
      refine (Nat.le_mul_of_pos_right _ (by omega)).trans (hkey ▸ hle)
    exact lt_of_le_of_lt ((Nat.pow_le_pow_iff_right (by norm_num)).mp hpow) (by norm_num)
  have hloc : locOf D = loc := locOf_of_odd hodd hqueue
  have hdvd : 2 ^ q ∣ D := (pow_dvd_pow 2 hlevel).trans (Dvd.intro _ hkey.symm)
  have hrange : ∀ i, (i + 1) <<< q = D → i <<< q < 2 ^ 62 := by
    intro i hi
    rw [Nat.shiftLeft_eq, Nat.add_mul, Nat.one_mul] at hi
    have hp := Nat.two_pow_pos q
    rw [Nat.shiftLeft_eq]
    omega
  have hnext : ∀ i, nextTo q (0 + i * 2 ^ q) = (i + 1) <<< q := by
    intro i
    rw [Nat.zero_add, ← Nat.shiftLeft_eq, ← deadline_eq, deadline_scan]
  obtain ⟨i, hi, hunique⟩ := existsUnique_next hdvd hpos
  simp only [hnext] at hi hunique
  refine ⟨i, ⟨hrange i hi, ?_⟩, ?_⟩
  · rw [scanned_eq hq (hrange i hi), hi, hloc]
  · rintro j ⟨hj, heq⟩
    refine hunique j ?_
    have hb := deadline_range hq hj
    rw [deadline_scan] at hb
    rw [scanned_eq hq hj, ← hloc] at heq
    exact (locOf_inj hb.1 (by omega) hpos (by omega)).mp heq

/-! ### Storing and scanning agree -/

/-- **Storing and scanning agree**: a time is looked up at the trailing zero bits and the odd part
of its deadline; two lookups give one location exactly when the deadlines are equal, and one
bucket exactly when the levels are equal and the deadlines agree modulo one rotation; and the scan
over the multiples of a granule meets each location of its level or a coarser one once, in the
order of the deadlines. -/
theorem lookups_agree (hq : q ≤ 41) (hq' : q' ≤ 41) (ht : t < 2 ^ 62) (ht' : t' < 2 ^ 62) :
    ((dfbFindRealLocation q t).queueId = padicValNat 2 (deadline q t) ∧
        (dfbFindRealLocation q t).bucketId
          = deadline q t >>> (dfbFindRealLocation q t).queueId ∧
        (dfbFindRealLocation q t).bucketId % 2 = 1) ∧
      (dfbFindRealLocation q t = dfbFindRealLocation q' t' ↔ deadline q t = deadline q' t') ∧
      ((∀ sch : Qdisc,
          sch.bucket (dfbFindRealLocation q t) = sch.bucket (dfbFindRealLocation q' t')) ↔
        (dfbFindRealLocation q t).queueId = (dfbFindRealLocation q' t').queueId ∧
          deadline q t
            ≡ deadline q' t' [MOD 2 ^ ((dfbFindRealLocation q t).queueId + 10)]) ∧
      (∀ i, i <<< q < 2 ^ 62 → q ≤ (scanned q i).queueId ∧
        (scanned q i).bucketId <<< (scanned q i).queueId = (i + 1) <<< q) ∧
      ∀ l : DfbLocation, q ≤ l.queueId → l.bucketId % 2 = 1 → l.bucketId <<< l.queueId ≤ 2 ^ 62 →
        ∃! i, i <<< q < 2 ^ 62 ∧ scanned q i = l := by
  obtain ⟨hpos, hle⟩ := deadline_range (show q ≤ 62 by omega) ht
  obtain ⟨hpos', hle'⟩ := deadline_range (show q' ≤ 62 by omega) ht'
  rw [findRealLocation_deadline (show q ≤ 62 by omega) ht,
    findRealLocation_deadline (show q' ≤ 62 by omega) ht']
  refine ⟨locOf_spec hpos (by omega), locOf_inj hpos (by omega) hpos' (by omega), ?_, ?_, ?_⟩
  · rw [bucket_congr_iff, land_bidMask, land_bidMask]
    exact same_bucket_iff (n := 10) hpos (by omega) hpos' (by omega)
  · intro i hi
    have hb := deadline_range (show q ≤ 62 by omega) hi
    rw [deadline_scan] at hb
    rw [scanned_eq (by omega) hi]
    refine ⟨le_level_of_dvd hb.1 (by omega) ?_, locOf_key hb.1 (by omega)⟩
    exact ⟨i + 1, by rw [Nat.shiftLeft_eq, Nat.mul_comm]⟩
  · exact fun l hlevel hodd hl => existsUnique_scanned (by omega) hlevel hodd hl

/-- The time `21` at granule `8` and the time `23` at granule `1` have the deadline `24`: queue
`3`, bucket `3`. -/
theorem lookups_agree_run :
    dfbFindRealLocation 3 21 = { queueId := 3, bucketId := 3 } ∧
      dfbFindRealLocation 3 21 = dfbFindRealLocation 0 23 := by
  have hagree := lookups_agree (show 3 ≤ 41 by norm_num) (show 0 ≤ 41 by norm_num)
    (show 21 < 2 ^ 62 by norm_num) (show 23 < 2 ^ 62 by norm_num)
  exact ⟨by decide +kernel, hagree.2.1.mpr (by decide)⟩

/-! ### Locations in the calendar -/

/-- The location is one of the calendar: its queue, its bucket and its bit of the bitmap exist. -/
def DfbLocation.InCalendar (loc : DfbLocation) : Prop :=
  loc.queueId < queueNum ∧ loc.bucketId &&& bidMask < bucketNum ∧ 1 <<< loc.queueId < 2 ^ 64

/-- The mask keeps every bucket number in range, so a location is in the calendar when its queue
is. -/
lemma inCalendar_iff (loc : DfbLocation) : loc.InCalendar ↔ loc.queueId < queueNum := by
  refine ⟨fun h => h.1, fun hlt => ⟨hlt, ?_, ?_⟩⟩
  · rw [land_bidMask]
    exact Nat.mod_lt _ (by norm_num)
  · rw [Nat.one_shiftLeft]
    exact Nat.pow_lt_pow_right (by norm_num) hlt

/-- The clamp of `dfb_find_real_location` never acts: what it compares with `QUEUE_NUM` is a truth
value. -/
lemma findRealLocation_queueId (q t : ℕ) :
    (dfbFindRealLocation q t).queueId
      = (q + ffs (dfbFindBucketIndex q t ||| 1 <<< (queueNum - 1))) % 2 ^ 8 := by
  have hclamp : ∀ b : Prop, [Decidable b] → ¬ (if b then 1 else 0) ≥ queueNum := by
    intro b _
    rw [queueNum]
    split <;> omega
  simp only [dfbFindRealLocation, if_neg (hclamp _)]

/-- The level of a bucket number below `2^63` is its number of trailing zero bits. -/
lemma ffs_or_top {b : ℕ} (hpos : 0 < b) (hlt : b < 2 ^ 63) :
    ffs (b ||| 1 <<< (queueNum - 1)) = level b := by
  rw [ffs, queueNum, level]
  exact lowBit_or_top hpos hlt

/-- At a positive queue index the last granule of the 64-bit range has the location of queue
`64`. -/
lemma findRealLocation_last (hq : 0 < q) (hq' : q ≤ 41) (ht : t < 2 ^ 64)
    (hlast : 2 ^ 64 - 2 ^ q ≤ t) : (dfbFindRealLocation q t).queueId = 64 := by
  have hsplit : 2 ^ 64 = 2 ^ (64 - q) * 2 ^ q := by
    rw [← pow_add]
    congr 1
    omega
  have hpow := Nat.two_pow_pos q
  have hdiv : t / 2 ^ q = 2 ^ (64 - q) - 1 := by
    have hlow : (2 ^ (64 - q) - 1) * 2 ^ q ≤ t := by
      rw [Nat.sub_mul, ← hsplit, Nat.one_mul]
      exact hlast
    have hhigh : t < (2 ^ (64 - q) - 1 + 1) * 2 ^ q := by
      rwa [Nat.sub_add_cancel (Nat.one_le_two_pow), ← hsplit]
    exact Nat.div_eq_of_lt_le hlow hhigh
  have hle : 2 ^ (64 - q) ≤ 2 ^ 63 := Nat.pow_le_pow_right (by norm_num) (by omega)
  have hbid : dfbFindBucketIndex q t = 2 ^ (64 - q) := by
    have hone : 1 ≤ 2 ^ (64 - q) := Nat.one_le_two_pow
    rw [findBucketIndex_eq (by rw [hdiv]; omega), hdiv, Nat.sub_add_cancel hone]
  have hffs : ffs (2 ^ (64 - q) ||| 1 <<< (queueNum - 1)) = 64 - q := by
    rcases hle.lt_or_eq with hlt | heq
    · rw [ffs_or_top (Nat.two_pow_pos _) hlt, level, ← Nat.mul_one (2 ^ (64 - q))]
      exact lowBit_mul_odd (by omega) rfl
    · have hone : 64 - q = 63 := Nat.pow_right_injective le_rfl heq
      rw [hone]
      decide +kernel
  rw [findRealLocation_queueId, hbid, hffs]
  omega

/-- Away from the last granule of the 64-bit range a location is in the calendar. -/
lemma findRealLocation_queueId_lt (hq : q ≤ 41) (ht : q = 0 ∧ t < 2 ^ 64 ∨ t + 2 ^ q < 2 ^ 64) :
    (dfbFindRealLocation q t).queueId < 64 := by
  have hlow : ffs (dfbFindBucketIndex q t ||| 1 <<< (queueNum - 1)) < 64 := by
    refine lowBit_lt ⟨63, by norm_num, ?_⟩
    rw [Nat.testBit_or, queueNum, Nat.testBit_shiftLeft]
    simp
  rw [findRealLocation_queueId]
  rcases ht with ⟨rfl, -⟩ | ht
  · omega
  · have hnext : nextTo q t < 2 ^ 64 := lt_of_le_of_lt (nextTo_le_add q t) ht
    have hpos : 0 < nextTo q t := lt_of_le_of_lt (Nat.zero_le t) (lt_nextTo q t)
    rcases Nat.eq_zero_or_pos q with rfl | hq0
    · omega
    · -- the bucket number is the deadline over `2^q`, below `2^63`
      have hb : t / 2 ^ q + 1 < 2 ^ 63 + 1 := by
        have htwo : 2 ^ 1 ≤ 2 ^ q := Nat.pow_le_pow_right (by norm_num) hq0
        have hhalf : t / 2 ^ q < 2 ^ 63 := by
          rw [Nat.div_lt_iff_lt_mul (Nat.two_pow_pos q)]
          omega
        omega
      have hdvd : 2 ^ level (t / 2 ^ q + 1) * 2 ^ q ∣ nextTo q t := by
        rw [nextTo]
        refine Nat.mul_dvd_mul_right ?_ _
        exact dvd_of_le_level (Nat.succ_pos _) (by omega) le_rfl
      have hbound : level (t / 2 ^ q + 1) + q < 64 := by
        have hle := Nat.le_of_dvd hpos hdvd
        rw [← pow_add] at hle
        exact (Nat.pow_lt_pow_iff_right (by norm_num)).mp (lt_of_le_of_lt hle hnext)
      have hlt : t / 2 ^ q + 1 < 2 ^ 63 := by
        rcases Nat.lt_or_ge (t / 2 ^ q + 1) (2 ^ 63) with hlt | hge
        · exact hlt
        · have heq : t / 2 ^ q + 1 = 2 ^ 63 := by omega
          rw [heq, level, ← Nat.mul_one (2 ^ 63), lowBit_mul_odd (by norm_num) rfl] at hbound
          omega
      rw [findBucketIndex_eq (by omega), ffs_or_top (Nat.succ_pos (t / 2 ^ q)) hlt,
        Nat.succ_eq_add_one]
      omega

/-- **Locations in range**: the location of a send time at the queue index of a rate is in the
calendar exactly when the queue index is `0` or the send time is before the last granule of the
64-bit range. -/
theorem real_location_in_range_iff (rate : ℕ) {t : ℕ} (ht : t < 2 ^ 64) :
    (dfbFindRealLocation (dfbFindQueueIndex rate) t).InCalendar ↔
      dfbFindQueueIndex rate = 0 ∨ t + 2 ^ dfbFindQueueIndex rate < 2 ^ 64 := by
  have hq := findQueueIndex_le rate
  rw [inCalendar_iff, queueNum]
  constructor
  · intro hlt
    by_contra hnot
    obtain ⟨hpos, hlast⟩ :
        0 < dfbFindQueueIndex rate ∧ 2 ^ 64 - 2 ^ dfbFindQueueIndex rate ≤ t := by
      omega
    rw [findRealLocation_last hpos hq ht hlast] at hlt
    exact absurd hlt (by norm_num)
  · intro h
    exact findRealLocation_queueId_lt hq (h.imp_left fun h0 => ⟨h0, ht⟩)

/-- A send time of one second at a rate of one megabyte per second. -/
theorem real_location_in_range_run :
    (dfbFindRealLocation (dfbFindQueueIndex 1000000) 1000000000).InCalendar :=
  (real_location_in_range_iff 1000000 (by norm_num)).mpr (.inr (by decide +kernel))

/-- The largest send time at a rate of one megabyte per second belongs to queue `64`, one beyond
the last; two packets of that rate, due one rotation before the end of the range and at its end,
bring such a packet into the calendar. -/
theorem real_location_out_of_range :
    ¬ (∀ rate t : ℕ, t < 2 ^ 64 → (dfbFindRealLocation (dfbFindQueueIndex rate) t).InCalendar) ∧
      ∃ w, Reach plainParams (fun _ _ => True) w ∧
        w.pushed.map (fun e => e.loc.queueId) = [21, 64] := by
  refine ⟨fun hall => ?_, ?_⟩
  · have hin := hall 1000000 (2 ^ 64 - 1) (by norm_num)
    rw [inCalendar_iff] at hin
    exact absurd hin (by decide +kernel)
  · exact exists_reach plainParams (fun _ _ => True)
      [.enqueue 1 (pacedSkb 1000000 (2 ^ 64 - 2 ^ 31)) [],
        .enqueue 2 (pacedSkb 1000000 (2 ^ 64 - 1)) []]
      (fun w => w.pushed.map (fun e => e.loc.queueId) = [21, 64]) (by decide +kernel)

end Dfb
