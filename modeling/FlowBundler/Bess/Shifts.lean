import FlowBundler.Bess.Rotation

/-!
The bit operations of `flowbundler.cc`: where the language defines them.

* `LookupDefined`, `RateDefined`, `InsertDefined`, `DequeueDefined`: the shift amounts of
  `FindBucketIndex`, `Insert`, `Dequeue` and `HeadTimeMask` are below `64`, the arguments of
  `__builtin_clzll` are not `0`, and the queue indices are below `QUEUE_NUM`.
* `lookupDefined_iff`: when a lookup is; `EnqueueOk`, `DequeueOk`: when a call is.
* `bit_operations_defined_iff`: in every run whose calls are defined so, a call is defined exactly
  under these conditions.

A run is followed by what its calls rely on (`InRange`): every held packet is on a level whose
granule is one of the range, and so is the head time.  The scan then starts in range and steps by a
granule of the range, but nothing keeps it from the time `0`, whose bucket number has no lowest bit,
nor from the last granule of the range, whose end is not a word.
-/

namespace Bess

open Ledger Dyadic Wheel FlowBundler

variable {cfg : Config} {fb : FlowBundler} {q s t H a d rate now : ℕ}

/-! ### The operations -/

/-- The shifts of `FindRealLocation`, for its queue index and for the one it finds. -/
def LookupDefined (cfg : Config) (q t : ℕ) : Prop :=
  q + cfg.minGranScale < 64 ∧ (findRealLocation cfg q t).queueId + cfg.minGranScale < 64

/-- The leading zeros of `FindQueueIndex`. -/
def RateDefined (cfg : Config) (rate : ℕ) : Prop := min rate (maxRate cfg) ≠ 0

namespace FlowBundler

/-- The bit operations of `Insert` for the queue index `q` and the send time `s`, and the queue
indices it comes to. -/
structure InsertDefined (cfg : Config) (fb : FlowBundler) (q s : ℕ) : Prop where
  granularity : q + cfg.minGranScale < 64
  horizon : cfg.bucketNumScale < 64
  mask : q < queueNum
  /-- The leading zeros of the distance, when the horizon test asks for them. -/
  leading : (headFor fb q s + Bess.horizon cfg q) % 2 ^ 64 < actualTime (headFor fb q s) s →
    q + cfg.minGranScale + cfg.bucketNumScale < 64 ∧
      (actualTime (headFor fb q s) s - headFor fb q s)
        >>> (q + cfg.minGranScale + cfg.bucketNumScale) ≠ 0
  lookup : LookupDefined cfg (finalQueueId cfg q (headFor fb q s) (actualTime (headFor fb q s) s))
    (actualTime (headFor fb q s) s)
  final : finalQueueId cfg q (headFor fb q s) (actualTime (headFor fb q s) s) < queueNum
  real : (findRealLocation cfg (finalQueueId cfg q (headFor fb q s)
    (actualTime (headFor fb q s) s)) (actualTime (headFor fb q s) s)).queueId < queueNum

/-- The bit operations of one round of `Enqueue`, for the aggregate rate and the send time. -/
def EnqueueDefined (cfg : Config) (fb : FlowBundler) (rate s : ℕ) : Prop :=
  RateDefined cfg rate ∧ fb.InsertDefined cfg (findQueueIndex cfg rate) s

/-- The head times that the scan of `Dequeue` looks up. -/
abbrev Scans (cfg : Config) (fb : FlowBundler) (now t : ℕ) : Prop :=
  Loop.Visits now (granularity cfg fb.highestRateQid) (fb.scanRound cfg) fb.scanStart t

/-- The bit operations of `Dequeue`. -/
def DequeueDefined (cfg : Config) (fb : FlowBundler) (now : ℕ) : Prop :=
  fb.nPacketsTotal ≠ 0 → fb.highestRateQid < queueNum ∧
    fb.highestRateQid + cfg.minGranScale < 64 ∧
    ∀ t, fb.Scans cfg now t → LookupDefined cfg fb.highestRateQid t

end FlowBundler

/-! ### One lookup -/

/-- The queue that a lookup finds: the trailing zero bits of the number of granules, clipped. -/
lemma findRealLocation_queueId (cfg : Config) (hq : q < 64) (t : ℕ) :
    (findRealLocation cfg q t).queueId
      = min 63 (q + lowBit 64 (findBucketIndex cfg q t ||| 1 <<< 63)) := by
  have hne : findBucketIndex cfg q t ||| 1 <<< 63 ≠ 0 := fun h => by
    rw [Nat.or_eq_zero_iff] at h
    exact absurd h.2 (by decide)
  have hlow : lowBit 64 (findBucketIndex cfg q t ||| 1 <<< 63) < 64 := by
    refine lowBit_lt ⟨63, by norm_num, ?_⟩
    rw [Nat.testBit_or, Nat.testBit_shiftLeft]
    simp
  rw [findRealLocation]
  dsimp only
  rw [queueNum, show 64 - 1 = 63 from rfl, ffsll, if_neg hne, Nat.mod_eq_of_lt (by omega)]
  split <;> omega

/-- A positive time below the last granule of the range. -/
lemma lookup_within (hk : q + cfg.minGranScale < 64) (hpos : 0 < t)
    (hend : t + 2 ^ (q + cfg.minGranScale) ≤ 2 ^ 64) (hgran : 0 < cfg.minGranScale) :
    (findRealLocation cfg q t).queueId + cfg.minGranScale < 64 := by
  set k := q + cfg.minGranScale with hk'
  set b := (t + 2 ^ k - 1) / 2 ^ k with hb
  have hp := Nat.two_pow_pos k
  have hceil : ceilTo k t = 2 ^ k * b := Nat.mul_comm _ _
  have hlt : 2 ^ k * b < 2 ^ 64 := hceil ▸ lt_of_lt_of_le (ceilTo_lt_add k t) hend
  have hbpos : 0 < b := Nat.pos_of_mul_pos_left (hceil ▸ lt_of_lt_of_le hpos (le_ceilTo k t))
  have htwo : 2 ^ 1 ≤ 2 ^ k := Nat.pow_le_pow_right (by norm_num) (by omega)
  have hb63 : b ≤ 2 ^ 63 := by
    have : 2 * b ≤ 2 ^ k * b := Nat.mul_le_mul_right _ htwo
    omega
  have hlevel := lookup_level hbpos hb63 hlt
  have hbound := level_lt (Nat.mul_pos hp hbpos) hlt hlt
  rw [findRealLocation_queueId cfg (by omega), findBucketIndex_eq (by omega), ← hk', ← hb]
  omega

/-- A time in the last granule of the range is rounded up to its end. -/
lemma lookup_last (hk : q + cfg.minGranScale < 64) (ht : t < 2 ^ 64)
    (hend : 2 ^ 64 < t + 2 ^ (q + cfg.minGranScale)) (hgran : 0 < cfg.minGranScale) :
    (findRealLocation cfg q t).queueId + cfg.minGranScale = 64 := by
  set k := q + cfg.minGranScale with hk'
  have hp := Nat.two_pow_pos k
  have hsplit : 2 ^ 64 = 2 ^ (64 - k) * 2 ^ k := by
    rw [← pow_add]
    congr 1
    omega
  have hdiv : (t + 2 ^ k - 1) / 2 ^ k = 2 ^ (64 - k) := by
    refine Nat.div_eq_of_lt_le ?_ ?_
    · rw [← hsplit]
      omega
    · rw [Nat.succ_mul, ← hsplit]
      omega
  have hlow : lowBit 64 (2 ^ (64 - k) ||| 1 <<< 63) = 64 - k := by
    have hone : lowBit 64 (2 ^ (64 - k) * 1) = 64 - k := lowBit_mul_odd (by omega) rfl
    rw [Nat.mul_one] at hone
    rcases Nat.lt_or_ge 1 k with h1 | h1
    · have hlt : 2 ^ (64 - k) < 2 ^ 63 := Nat.pow_lt_pow_right (by norm_num) (by omega)
      rw [lowBit_or_top (Nat.two_pow_pos _) hlt, hone]
    · rw [show 64 - k = 63 by omega] at hone ⊢
      rw [Nat.one_shiftLeft, Nat.or_self, hone]
  rw [findRealLocation_queueId cfg (by omega), findBucketIndex_eq ht, ← hk', hdiv, hlow]
  omega

/-- The time `0` is looked up on the last queue. -/
lemma lookup_zero (hq : q < 64) : (findRealLocation cfg q 0).queueId = 63 := by
  have hzero : findBucketIndex cfg q 0 = 0 := by
    rw [findBucketIndex_eq (by norm_num), Nat.zero_add]
    exact Nat.div_eq_of_lt (Nat.sub_lt (Nat.two_pow_pos _) Nat.one_pos)
  rw [findRealLocation_queueId cfg hq, hzero, lowBit_top 63]
  omega

/-- **A lookup is defined** when its granule is, and its time is neither `0` nor in the last
granule of the range; without a minimal granule every time will do. -/
lemma lookupDefined_iff (hk : q + cfg.minGranScale < 64) (ht : t < 2 ^ 64) :
    LookupDefined cfg q t ↔
      cfg.minGranScale = 0 ∨ 0 < t ∧ t + 2 ^ (q + cfg.minGranScale) ≤ 2 ^ 64 := by
  rw [LookupDefined, and_iff_right hk]
  rcases Nat.eq_zero_or_pos cfg.minGranScale with hzero | hgran
  · have := findRealLocation_lt cfg q t
    exact iff_of_true (by omega) (.inl hzero)
  · rw [or_iff_right hgran.ne']
    constructor
    · intro hlt
      constructor
      · by_contra h0
        rw [Nat.eq_zero_of_not_pos h0, lookup_zero (by omega)] at hlt
        omega
      · by_contra hend
        rw [lookup_last hk ht (by omega) hgran] at hlt
        exact lt_irrefl _ hlt
    · rintro ⟨hpos, hend⟩
      exact lookup_within hk hpos hend hgran

/-! ### One round of Enqueue -/

/-- The largest rate is positive up to a minimal granule of `2^33`. -/
lemma maxRate_ne_zero_iff : maxRate cfg ≠ 0 ↔ cfg.minGranScale ≤ 33 := by
  have hlow : 2 ^ 33 ≤ rateScale * mtu <<< 3 := by decide
  have hhigh : rateScale * mtu <<< 3 < 2 ^ 34 := by decide
  rw [maxRate, Nat.shiftRight_eq_div_pow, ne_eq, Nat.div_eq_zero_iff_lt (Nat.two_pow_pos _), not_lt]
  constructor
  · intro hle
    have hlt := lt_of_le_of_lt hle hhigh
    exact Nat.lt_succ_iff.mp ((Nat.pow_lt_pow_iff_right (by norm_num)).mp hlt)
  · intro hle
    exact (Nat.pow_le_pow_right (by norm_num) hle).trans hlow

lemma rateDefined_iff : RateDefined cfg rate ↔ rate ≠ 0 ∧ cfg.minGranScale ≤ 33 := by
  rw [RateDefined, ← maxRate_ne_zero_iff]
  omega

/-- The granule of a rate class is at most `2^33`. -/
lemma RateDefined.class_add_le (hrate : RateDefined cfg rate) :
    findQueueIndex cfg rate + cfg.minGranScale ≤ 33 := by
  obtain ⟨-, hgran⟩ := rateDefined_iff.mp hrate
  have hhigh := le_clzll (maxRate_lt cfg) (by omega)
  have hlow : clzll (min rate (maxRate cfg)) ≤ 63 := by
    rw [clzll, if_neg hrate]
    exact Nat.sub_le _ _
  rw [findQueueIndex_eq]
  omega

/-- The class of a distance is a granule of the range, unless the calendar has one bucket for each
queue. -/
lemma classFor_add_lt_iff (hq : q + cfg.minGranScale < 64) (hd : d < 2 ^ 64) :
    classFor cfg q d + cfg.minGranScale < 64 ↔ (cfg.bucketNumScale = 0 → d < 2 ^ 63) := by
  have hsize : Nat.size d ≤ 64 := Nat.size_le.mpr hd
  have hhalf : Nat.size d ≤ 63 ↔ d < 2 ^ 63 := Nat.size_le
  rw [classFor]
  omega

/-- The test of `Insert` and its leading zeros select the class of the distance, at any distance,
if what is beyond the horizon is at least one rotation away. -/
lemma finalQueueId_eq_classFor (hq : q + cfg.minGranScale < 64) (hle : H ≤ a) (ha : a < 2 ^ 64)
    (hturn : (H + horizon cfg q) % 2 ^ 64 < a → q + cfg.minGranScale + cfg.bucketNumScale < 64 ∧
      (a - H) >>> (q + cfg.minGranScale + cfg.bucketNumScale) ≠ 0) :
    finalQueueId cfg q H a = classFor cfg q (a - H) := by
  set k := q + cfg.minGranScale + cfg.bucketNumScale with hk
  rw [finalQueueId, ← hk]
  split
  · rename_i hfar
    obtain ⟨hk64, hne⟩ := hturn hfar
    have hlog : Nat.log2 ((a - H) >>> k) < 64 := by
      refine (Nat.log2_lt hne).mpr (lt_of_le_of_lt ?_ ha)
      rw [Nat.shiftRight_eq_div_pow]
      exact (Nat.div_le_self _ _).trans (Nat.sub_le _ _)
    have hclass := classFor_of_le hne
    rw [← hk] at hclass
    rw [clzll, if_neg hne, hclass, Nat.mod_eq_of_lt (by omega)]
    omega
  · rename_i hnear
    have hnear := not_lt.mp hnear
    refine (classFor_of_lt ?_).symm
    rw [← hk]
    rcases Nat.lt_or_ge k 64 with hk64 | hk64
    · have hpow : 2 ^ k < 2 ^ 64 := Nat.pow_lt_pow_right (by norm_num) hk64
      have hgran := Nat.two_pow_pos (q + cfg.minGranScale)
      have hturn := Nat.two_pow_pos k
      rw [horizon_eq (by omega), ← hk] at hnear
      have hmod := Nat.mod_le (H + (2 ^ k - 2 ^ (q + cfg.minGranScale))) (2 ^ 64)
      omega
    · have hpow : 2 ^ 64 ≤ 2 ^ k := Nat.pow_le_pow_right (by norm_num) hk64
      omega

namespace FlowBundler

/-- The conditions on a round of `Enqueue` with the aggregate rate `rate` and the send time
`s`. -/
structure EnqueueOk (cfg : Config) (fb : FlowBundler) (rate s : ℕ) : Prop where
  rate_ne_zero : rate ≠ 0
  gran : cfg.minGranScale ≤ 33
  scale : cfg.bucketNumScale < 64
  /-- What is beyond the horizon is at least one rotation away. -/
  turn : let q := findQueueIndex cfg rate
    let H := headFor fb q s
    (H + Bess.horizon cfg q) % 2 ^ 64 < max H s →
      q + cfg.minGranScale + cfg.bucketNumScale < 64 ∧
        2 ^ (q + cfg.minGranScale + cfg.bucketNumScale) ≤ max H s - H
  wide : cfg.bucketNumScale = 0 →
    s - headFor fb (findQueueIndex cfg rate) s < 2 ^ 63
  /-- The packet is neither placed at the time `0` nor in the last granule of the range. -/
  ends : cfg.minGranScale = 0 ∨
    let q := findQueueIndex cfg rate
    let H := headFor fb q s
    0 < max H s ∧ max H s + 2 ^ (classFor cfg q (s - H) + cfg.minGranScale) ≤ 2 ^ 64

/-- The conditions on a call of `Dequeue`: the scan looks up neither the time `0` nor a time in the
last granule of the range. -/
def DequeueOk (cfg : Config) (fb : FlowBundler) (now : ℕ) : Prop :=
  fb.nPacketsTotal ≠ 0 → cfg.minGranScale = 0 ∨
    ∀ t, fb.Scans cfg now t → 0 < t ∧ t + 2 ^ (fb.highestRateQid + cfg.minGranScale) ≤ 2 ^ 64

/-- **One round of Enqueue** is defined exactly under its conditions. -/
theorem enqueueDefined_iff (hhead : fb.bitmap ≠ 0 → fb.headTime < 2 ^ 64) (hs : s < 2 ^ 64) :
    fb.EnqueueDefined cfg rate s ↔ fb.EnqueueOk cfg rate s := by
  set q := findQueueIndex cfg rate with hq
  set H := headFor fb q s with hH
  have hHlt : H < 2 ^ 64 := by
    rw [hH, headFor]
    split
    · exact lt_of_le_of_lt Nat.and_le_left hs
    · rename_i hne
      exact hhead hne
  have ha : max H s < 2 ^ 64 := max_lt hHlt hs
  have hdist : max H s - H = s - H := by omega
  have hquot : ∀ k, (max H s - H) >>> k ≠ 0 ↔ 2 ^ k ≤ max H s - H := by
    intro k
    rw [Nat.shiftRight_eq_div_pow, ne_eq, Nat.div_eq_zero_iff_lt (Nat.two_pow_pos k), not_lt]
  constructor
  · rintro ⟨hrate, hins⟩
    obtain ⟨hne, hgran⟩ := rateDefined_iff.mp hrate
    obtain ⟨hk, hscale, -, hlead, hlook, -, -⟩ := hins
    rw [← hq, ← hH, actualTime_eq_max] at hlead hlook
    rw [finalQueueId_eq_classFor hk (le_max_left H s) ha hlead, hdist] at hlook
    have hclass := hlook.1
    refine ⟨hne, hgran, hscale, fun hfar => ?_, ?_, ?_⟩
    · obtain ⟨hk64, hx⟩ := hlead hfar
      exact ⟨hk64, (hquot _).mp hx⟩
    · exact (classFor_add_lt_iff hk (by omega)).mp hclass
    · exact (lookupDefined_iff hclass ha).mp hlook
  · rintro ⟨hne, hgran, hscale, hturn, hwide, hends⟩
    have hrate : RateDefined cfg rate := rateDefined_iff.mpr ⟨hne, hgran⟩
    have hadd := hrate.class_add_le
    rw [← hq] at hadd
    have hlead : (H + Bess.horizon cfg q) % 2 ^ 64 < max H s →
        q + cfg.minGranScale + cfg.bucketNumScale < 64 ∧
          (max H s - H) >>> (q + cfg.minGranScale + cfg.bucketNumScale) ≠ 0 := fun hfar =>
      (hturn hfar).imp_right (hquot _).mpr
    have hclass : classFor cfg q (s - H) + cfg.minGranScale < 64 :=
      (classFor_add_lt_iff (by omega) (by omega)).mpr hwide
    have hfinal := finalQueueId_eq_classFor (by omega) (le_max_left H s) ha hlead
    rw [hdist] at hfinal
    have hlook := (lookupDefined_iff hclass ha).mpr hends
    refine ⟨hrate, ?_, hscale, ?_, ?_, ?_, ?_, findRealLocation_lt cfg _ _⟩
    · omega
    · rw [queueNum]
      omega
    · rw [← hq, ← hH, actualTime_eq_max]
      exact hlead
    · rw [← hq, ← hH, actualTime_eq_max, hfinal]
      exact hlook
    · rw [← hq, ← hH, actualTime_eq_max, hfinal, queueNum]
      omega

/-- **One call of Dequeue** is defined exactly under its condition, if the granule of its scan is
one of the range. -/
theorem dequeueDefined_iff
    (hgran : fb.nPacketsTotal ≠ 0 → fb.highestRateQid + cfg.minGranScale < 64) :
    fb.DequeueDefined cfg now ↔ fb.DequeueOk cfg now := by
  have hstart : fb.scanStart < 2 ^ 64 :=
    lt_of_le_of_lt Nat.and_le_right (Nat.mod_lt _ (by norm_num))
  refine forall_congr' fun htotal => ?_
  have hk := hgran htotal
  have hlookup : ∀ t, fb.Scans cfg now t → (LookupDefined cfg fb.highestRateQid t ↔
      cfg.minGranScale = 0 ∨ 0 < t ∧ t + 2 ^ (fb.highestRateQid + cfg.minGranScale) ≤ 2 ^ 64) :=
    fun t ht => lookupDefined_iff hk (ht.lt hstart)
  have hqid : fb.highestRateQid < queueNum := by
    rw [queueNum]
    omega
  rw [and_iff_right hqid, and_iff_right hk]
  constructor
  · intro hdef
    by_cases hzero : cfg.minGranScale = 0
    · exact .inl hzero
    · exact .inr fun t ht => ((hlookup t ht).mp (hdef t ht)).resolve_left hzero
  · intro hok t ht
    exact (hlookup t ht).mpr (hok.imp_right fun hall => hall t ht)

/-- Away from the ends of the range the condition of `Dequeue` holds: the scan starts at a positive
time, and the clock is more than one granule before the end. -/
lemma dequeueOk_of_clock (hstart : 0 < fb.scanStart)
    (hend : now + granularity cfg fb.highestRateQid < 2 ^ 64)
    (hgran : fb.highestRateQid + cfg.minGranScale < 64) : fb.DequeueOk cfg now := by
  refine fun _ => .inr fun t ht => ?_
  rw [granularity_eq (by omega)] at hend
  have hdue : ∀ t, fb.Scans cfg now t → t ≤ now ∧ 0 < t := by
    intro t ht
    induction ht with
    | start hdue => exact ⟨hdue, hstart⟩
    | next ht hidle hdue ih =>
        refine ⟨hdue, ?_⟩
        rw [granularity_eq (by omega), Nat.mod_eq_of_lt (by omega)]
        exact Nat.add_pos_right _ (Nat.two_pow_pos _)
  obtain ⟨hle, hpos⟩ := hdue t ht
  exact ⟨hpos, by omega⟩

end FlowBundler

/-! ### Runs -/

namespace World

variable {w w' : World} {op : Op}

/-- Clock readings are 64-bit words. -/
def Words : Op → Prop
  | .enqueue now _ _ _ => now < 2 ^ 64
  | .dequeue now _ => now < 2 ^ 64

instance : (op : Op) → Decidable (Words op)
  | .enqueue _ _ _ _ => inferInstanceAs (Decidable (_ < _))
  | .dequeue _ _ => inferInstanceAs (Decidable (_ < _))

/-- The call meets its conditions. -/
def BitsOk (cfg : Config) (w : World) : Op → Prop
  | .enqueue now pkt aggreRate _ => w.fb.EnqueueOk cfg aggreRate (w.fb.stampOf pkt now)
  | .dequeue now _ => w.fb.DequeueOk cfg now

/-- Every held packet is on a level whose granule is one of the range, and so is the head time
while a packet is held. -/
structure InRange (cfg : Config) (w : World) : Prop where
  level : ∀ e ∈ w.held, e.loc.queueId + cfg.minGranScale < 64
  head : w.held ≠ [] → w.fb.headTime < 2 ^ 64

lemma stampOf_lt (fb : FlowBundler) (pkt : Packet) (hnow : now < 2 ^ 64) :
    fb.stampOf pkt now < 2 ^ 64 := by
  rw [stampOf, newStamp]
  split
  · exact Nat.mod_lt _ (by norm_num)
  · exact hnow

lemma InRange.head_of_bitmap (h : w.InRange cfg) (hinv : w.Inv cfg) (hne : w.fb.bitmap ≠ 0) :
    w.fb.headTime < 2 ^ 64 :=
  h.head fun hnil => hne (hinv.repr.tally.bitmap_eq_zero_iff.mpr hnil)

/-- While packets are held the granule of the scan is one of the range. -/
lemma InRange.scan (h : w.InRange cfg) (hinv : w.Inv cfg) (htotal : w.fb.nPacketsTotal ≠ 0) :
    w.fb.highestRateQid + cfg.minGranScale < 64 := by
  have hne : w.held ≠ [] := fun hnil => by
    rw [hinv.repr.tally.total_eq, hnil] at htotal
    exact htotal rfl
  obtain ⟨e, he⟩ := List.exists_mem_of_ne_nil _ hne
  have hlevel := h.level e he
  have hle := hinv.qid_le e he
  omega

/-- A `Dequeue` leaves a head time of the range while packets are held. -/
lemma dequeue_headTime_lt {fb : FlowBundler} {r : DequeueResult} {garbage : ℕ} (hnow : now < 2 ^ 64)
    (hrun : fb.dequeue cfg now garbage = some r) : r.fb.headTime < 2 ^ 64 := by
  rw [FlowBundler.dequeue] at hrun
  split at hrun
  · rw [Option.some.injEq] at hrun
    exact hrun ▸ hnow
  · dsimp only at hrun
    have hstart : fb.headTime &&& headTimeMask fb.highestRateQid < 2 ^ 64 :=
      lt_of_le_of_lt Nat.and_le_right (Nat.mod_lt _ (by norm_num))
    split at hrun
    · simp at hrun
    · rename_i b num t hscan
      rw [Option.some.injEq] at hrun
      exact hrun ▸ lt_of_le_of_lt (Loop.whileDue_inl hscan).1 hnow
    · rename_i t hscan
      rw [Option.some.injEq] at hrun
      exact hrun ▸ Loop.whileDue_lt hstart hscan

/-- One call that meets its conditions keeps the range. -/
lemma InRange.step (h : w.InRange cfg) (hinv : w.Inv cfg) (hwords : Words op)
    (hok : w.BitsOk cfg op) (hstep : w.step cfg op = some w') : w'.InRange cfg := by
  cases op with
  | enqueue now pkt aggreRate hashId =>
      have hs := stampOf_lt w.fb pkt hwords
      have henq := step_enqueue hinv.repr hstep
      have hdef := (enqueueDefined_iff (h.head_of_bitmap hinv) hs).mpr hok
      refine ⟨fun x hx => ?_, fun _ => ?_⟩
      · rcases henq.outcome with ⟨-, hheld, -⟩ | ⟨-, -, e, hplaces, hheld⟩ <;> rw [hheld] at hx
        · exact h.level x hx
        · rcases List.mem_append.mp hx with hx | hx
          · exact h.level x hx
          · obtain rfl : x = e := by simpa using hx
            rw [hplaces.loc, hplaces.queueId, hplaces.actual]
            exact hdef.2.lookup.2
      · rw [henq.headTime, headFor]
        split
        · exact lt_of_le_of_lt Nat.and_le_left hs
        · rename_i hne
          exact h.head_of_bitmap hinv hne
  | dequeue now garbage =>
      obtain ⟨r, hrun, rfl⟩ := step_dequeue hstep
      exact ⟨fun x hx => h.level x (mem_without.mp hx).1, fun _ => dequeue_headTime_lt hwords hrun⟩

end World

/-- **Bit operations are defined**: in every state reached by calls that meet their conditions, a
round of `Enqueue` is defined exactly under its conditions, for every rate and send time, and so is
a call of `Dequeue`. -/
theorem bit_operations_defined_iff {w : World}
    (hw : Reach cfg (fun w op => World.Words op ∧ w.BitsOk cfg op) w) :
    (∀ rate s, s < 2 ^ 64 → (w.fb.EnqueueDefined cfg rate s ↔ w.fb.EnqueueOk cfg rate s)) ∧
      ∀ now, w.fb.DequeueDefined cfg now ↔ w.fb.DequeueOk cfg now := by
  have hrange : w.InRange cfg := by
    refine hw.invariant ?_ fun w w' op hw ih hok hstep =>
      ih.step (reach_inv hw) hok.1 hok.2 hstep
    rintro w ⟨now, uuid, nodes, pktsNum, flowToGen, flowInfo, rfl⟩
    exact ⟨by simp [World.start], by simp [World.start]⟩
  have hinv := reach_inv hw
  exact ⟨fun rate s hs => enqueueDefined_iff (hrange.head_of_bitmap hinv) hs,
    fun now => dequeueDefined_iff (hrange.scan hinv)⟩

/-- The world after a first packet at a rate of `20000000`, due at `120`. -/
def oneEnqueued : World :=
  { startAt sampleConfig 100000000 with
    fb := ((startAt sampleConfig 100000000).fb.enqueueOne sampleConfig 0 (packetOf 1 100) 20000000
      0).fb
    held := (startAt sampleConfig 100000000).placedOf (packetOf 1 100)
      ((startAt sampleConfig 100000000).fb.enqueueOne sampleConfig 0 (packetOf 1 100) 20000000 0)
    count := 1 }

/-- After it a round for a packet due at `1000` and a call of `Dequeue` at `500` are defined. -/
theorem bit_operations_defined_iff_run :
    ∃ w, Reach sampleConfig (fun w op => World.Words op ∧ w.BitsOk sampleConfig op) w ∧
      w.fb.nPacketsTotal = 1 ∧ w.fb.EnqueueDefined sampleConfig 20000000 1000 ∧
      w.fb.DequeueDefined sampleConfig 500 := by
  have hstart : Reach sampleConfig (fun w op => World.Words op ∧ w.BitsOk sampleConfig op)
      (startAt sampleConfig 100000000) := .start ⟨0, 7, _, _, _, _, rfl⟩
  have hstamp : (startAt sampleConfig 100000000).fb.stampOf (packetOf 1 100) 0 = 120 := by
    decide +kernel
  have hok : (startAt sampleConfig 100000000).BitsOk sampleConfig
      (.enqueue 0 (packetOf 1 100) 20000000 0) := by
    rw [World.BitsOk, hstamp]
    refine ⟨by decide, by decide, by decide, ?_, by decide, .inr ?_⟩ <;> decide +kernel
  have hstep : (startAt sampleConfig 100000000).step sampleConfig
      (.enqueue 0 (packetOf 1 100) 20000000 0) = some oneEnqueued := rfl
  have hw : Reach sampleConfig (fun w op => World.Words op ∧ w.BitsOk sampleConfig op)
      oneEnqueued := hstart.step ⟨by decide, hok⟩ hstep
  obtain ⟨henqueue, hdequeue⟩ := bit_operations_defined_iff hw
  refine ⟨oneEnqueued, hw, rfl, (henqueue 20000000 1000 (by norm_num)).mpr ?_,
    (hdequeue 500).mpr (dequeueOk_of_clock ?_ ?_ ?_)⟩
  · refine ⟨by decide, by decide, by decide, ?_, by decide, .inr ?_⟩ <;> decide +kernel
  · decide +kernel
  · decide +kernel
  · decide +kernel

/-- An aggregate rate of `0`; and after a first packet due at `120`, a packet due at `524300`, which
is beyond the horizon of its queue but no whole rotation ahead. -/
theorem bit_operations_undefined :
    ¬ (∀ (cfg : Config) (w : World) (rate s : ℕ), Reach cfg (fun _ op => World.Words op) w →
        s < 2 ^ 64 → RateDefined cfg rate) ∧
      ¬ ∀ (cfg : Config) (w : World) (rate s : ℕ), Reach cfg (fun _ op => World.Words op) w →
        rate ≠ 0 → s < 2 ^ 64 → w.fb.InsertDefined cfg (findQueueIndex cfg rate) s := by
  refine ⟨fun hall => ?_, fun hall => ?_⟩
  · exact hall sampleConfig (startAt sampleConfig 1) 0 0 (.start ⟨0, 7, _, _, _, _, rfl⟩)
      (by norm_num) rfl
  · obtain ⟨w, hw, hfar, hzero⟩ := exists_reach sampleConfig 100000000
      (fun _ op => World.Words op) [.enqueue 0 (packetOf 1 100) 20000000 0]
      (fun w => (headFor w.fb 5 524300 + horizon sampleConfig 5) % 2 ^ 64
          < actualTime (headFor w.fb 5 524300) 524300 ∧
        (actualTime (headFor w.fb 5 524300) 524300 - headFor w.fb 5 524300) >>> (5 + 4 + 10) = 0)
      (by decide +kernel)
    have hclass : findQueueIndex sampleConfig 20000000 = 5 := by decide +kernel
    have hdef := hall sampleConfig w 20000000 524300 hw (by norm_num) (by norm_num)
    rw [hclass] at hdef
    exact (hdef.leading hfar).2 hzero

end Bess
