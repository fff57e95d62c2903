import FlowBundler.Bess.Service
import FlowBundler.Lib.Lookup

/-!
`FlowBundler::FindRealLocation`: storing and scanning name the same buckets.

* `unmaskedBucket`: the bucket number that `FindRealLocation` finds, before `bid_mask`.
* `lookup_spec`: the queue and the bucket number of a time are the trailing zero bits of the time
  rounded up, counted from the finest granule, and the odd rest; `lookup_key`: the rounded time
  can be read off them.
* `rounded_lookups_agree`: so two lookups give one queue and bucket number exactly when the
  rounded times are equal, and a scan in steps of its granule, from any start, meets the multiples
  of the granule one after the other.

`FindRealLocation` divides a time by its granule, rounding up, takes the lowest set bit of the
quotient and shifts the quotient by it.  The granule times the quotient is the rounded time, whose
level is that bit plus the exponent of the granule; so the answer does not depend on the granule
that a time was looked up with, and the rounded time is the odd part shifted back by the level.
-/

namespace Bess

open Dyadic Wheel

variable {cfg : Config} {q q' t t' : ℕ}

/-- The bucket number of a time, before it is rounded by `bid_mask`. -/
def unmaskedBucket (cfg : Config) (queueId sendTime : ℕ) : ℕ :=
  findBucketIndex cfg (findRealLocation cfg queueId sendTime).queueId sendTime

lemma findRealLocation_bucketId (cfg : Config) (q t : ℕ) :
    (findRealLocation cfg q t).bucketId = unmaskedBucket cfg q t &&& bidMask cfg := rfl

/-! ### One lookup -/

/-- A time in range that is rounded up is positive and at most `2^62`. -/
lemma ceilTo_range {k : ℕ} (hk : k ≤ 62) (ht : 0 < t) (hlt : t < 2 ^ 62) :
    0 < ceilTo k t ∧ ceilTo k t ≤ 2 ^ 62 :=
  ⟨lt_of_lt_of_le ht (le_ceilTo k t), ceilTo_le (pow_dvd_pow 2 hk) hlt.le⟩

/-- The level of a rounded time is at least its granule. -/
lemma le_level_ceilTo {k : ℕ} (hk : k ≤ 62) (ht : 0 < t) (hlt : t < 2 ^ 62) :
    k ≤ level (ceilTo k t) := by
  obtain ⟨hpos, hle⟩ := ceilTo_range hk ht hlt
  exact le_level_of_dvd hpos (by omega) (dvd_ceilTo k t)

/-- The queue of a time and its bucket number: the level and the odd part of the time rounded
up. -/
lemma lookup_spec (hq : q + cfg.minGranScale ≤ 62) (ht : 0 < t) (hlt : t < 2 ^ 62) :
    (findRealLocation cfg q t).queueId + cfg.minGranScale
        = level (ceilTo (q + cfg.minGranScale) t) ∧
      unmaskedBucket cfg q t = ceilTo (q + cfg.minGranScale) t
        / 2 ^ level (ceilTo (q + cfg.minGranScale) t) := by
  set k := q + cfg.minGranScale with hk
  obtain ⟨hpos, hle⟩ := ceilTo_range hq ht hlt
  have hlevel := le_level_ceilTo hq ht hlt
  have hloc : findRealLocation cfg q t = locOf cfg (ceilTo k t) :=
    findRealLocation_eq (by omega) (by omega)
  have hqueue : (findRealLocation cfg q t).queueId + cfg.minGranScale = level (ceilTo k t) := by
    rw [hloc, locOf_of_pos hpos]
    exact Nat.sub_add_cancel (by omega)
  obtain ⟨-, hidx⟩ := ceil_lookup ht (by omega) (show ceilTo k t < 2 ^ 64 by omega)
  refine ⟨hqueue, ?_⟩
  rw [unmaskedBucket, findBucketIndex_eq (by omega), hqueue]
  exact hidx

/-- The rounded time can be read off the queue and the bucket number. -/
lemma lookup_key (hq : q + cfg.minGranScale ≤ 62) (hlt : t < 2 ^ 62) :
    unmaskedBucket cfg q t <<< ((findRealLocation cfg q t).queueId + cfg.minGranScale)
      = ceilTo (q + cfg.minGranScale) t := by
  rcases Nat.eq_zero_or_pos t with rfl | ht
  · -- the time `0` is in bucket `0`, whatever its queue
    have hzero : unmaskedBucket cfg q 0 = 0 := by
      rw [unmaskedBucket, findBucketIndex_eq (by norm_num), Nat.zero_add]
      exact Nat.div_eq_of_lt (Nat.sub_lt (Nat.two_pow_pos _) Nat.one_pos)
    rw [hzero, Nat.zero_shiftLeft, ceilTo_of_dvd (dvd_zero _)]
  · obtain ⟨hpos, hle⟩ := ceilTo_range hq ht hlt
    obtain ⟨hqueue, hbucket⟩ := lookup_spec hq ht hlt
    rw [hqueue, hbucket, Nat.shiftLeft_eq, Nat.mul_comm]
    exact two_pow_level_mul hpos (by omega)

/-- Two times have one queue and bucket number exactly when they are rounded up to one time. -/
lemma same_lookup_iff (hq : q + cfg.minGranScale ≤ 62) (hq' : q' + cfg.minGranScale ≤ 62)
    (ht : 0 < t) (hlt : t < 2 ^ 62) (hlt' : t' < 2 ^ 62) :
    (findRealLocation cfg q t).queueId = (findRealLocation cfg q' t').queueId ∧
        unmaskedBucket cfg q t = unmaskedBucket cfg q' t' ↔
      ceilTo (q + cfg.minGranScale) t = ceilTo (q' + cfg.minGranScale) t' := by
  constructor
  · rintro ⟨hqueue, hbucket⟩
    rw [← lookup_key hq hlt, ← lookup_key hq' hlt', hqueue, hbucket]
  · intro heq
    have ht' : 0 < t' := Nat.pos_of_ne_zero fun hzero => by
      rw [hzero, ceilTo_of_dvd (dvd_zero _)] at heq
      exact absurd heq (ceilTo_range hq ht hlt).1.ne'
    obtain ⟨hqueue, hbucket⟩ := lookup_spec hq ht hlt
    obtain ⟨hqueue', hbucket'⟩ := lookup_spec hq' ht' hlt'
    rw [heq] at hqueue hbucket
    exact ⟨Nat.add_right_cancel (hqueue.trans hqueue'.symm), hbucket.trans hbucket'.symm⟩

/-! ### Storing and scanning agree -/

/-- **Storing and scanning agree**: a time is looked up at the trailing zero bits and the odd part
of the time rounded up; two lookups give one queue and bucket number exactly when the rounded
times are equal; and from any start `s` the scan in steps of its granule meets, one after the
other and each once, the multiples of the granule from `s` on. -/
theorem rounded_lookups_agree (hq : q + cfg.minGranScale ≤ 62) (hq' : q' + cfg.minGranScale ≤ 62)
    (ht : 0 < t) (hlt : t < 2 ^ 62) (hlt' : t' < 2 ^ 62) :
    let gran := 2 ^ (q + cfg.minGranScale)
    let D := ceilTo (q + cfg.minGranScale) t
    let D' := ceilTo (q' + cfg.minGranScale) t'
    let loc := findRealLocation cfg q t
    let loc' := findRealLocation cfg q' t'
    (loc.queueId + cfg.minGranScale = padicValNat 2 D ∧
        loc.bucketId = (D >>> padicValNat 2 D) &&& bidMask cfg) ∧
      (loc.queueId = loc'.queueId ∧ unmaskedBucket cfg q t = unmaskedBucket cfg q' t' ↔ D = D') ∧
      (∀ s i, s + i * gran < 2 ^ 62 →
        unmaskedBucket cfg q (s + i * gran)
            <<< ((findRealLocation cfg q (s + i * gran)).queueId + cfg.minGranScale)
          = ceilTo (q + cfg.minGranScale) s + i * gran) ∧
      ∀ s M, s ≤ M * gran → 0 < M * gran → M * gran < 2 ^ 62 → ∃! i, s + i * gran < 2 ^ 62 ∧
        (findRealLocation cfg q (s + i * gran)).queueId
            = (findRealLocation cfg q (M * gran)).queueId ∧
          unmaskedBucket cfg q (s + i * gran) = unmaskedBucket cfg q (M * gran) := by
  intro gran D D' loc loc'
  obtain ⟨hpos, hle⟩ := ceilTo_range hq ht hlt
  obtain ⟨hqueue, hbucket⟩ := lookup_spec hq ht hlt
  refine ⟨⟨?_, ?_⟩, same_lookup_iff hq hq' ht hlt hlt', ?_, ?_⟩
  · rw [← level_eq_padicValNat hpos (by omega)]
    exact hqueue
  · rw [findRealLocation_bucketId, hbucket, ← level_eq_padicValNat hpos (by omega),
      Nat.shiftRight_eq_div_pow]
  · intro s i hi
    rw [lookup_key hq hi]
    exact ceilTo_add _ s i
  · intro s M hs hM hlt
    have hdvd : 2 ^ (q + cfg.minGranScale) ∣ M * gran := Dvd.intro_left M rfl
    have hround : ceilTo (q + cfg.minGranScale) (M * gran) = M * gran := ceilTo_of_dvd hdvd
    have hsame : ∀ i, s + i * gran < 2 ^ 62 →
        ((findRealLocation cfg q (s + i * gran)).queueId
            = (findRealLocation cfg q (M * gran)).queueId ∧
          unmaskedBucket cfg q (s + i * gran) = unmaskedBucket cfg q (M * gran) ↔
        ceilTo (q + cfg.minGranScale) (s + i * gran) = M * gran) := by
      intro i hi
      rw [eq_comm, eq_comm (a := unmaskedBucket cfg q (s + i * gran)),
        same_lookup_iff hq hq hM hlt hi, hround, eq_comm]
    obtain ⟨i, hi, hunique⟩ := existsUnique_ceil hdvd hs
    have hrange : s + i * gran < 2 ^ 62 := by
      refine lt_of_le_of_lt ?_ hlt
      exact (le_ceilTo (q + cfg.minGranScale) _).trans hi.le
    exact ⟨i, ⟨hrange, (hsame i hrange).mpr hi⟩, fun j hj => hunique j ((hsame j hj.1).mp hj.2)⟩

/-- With granules from `16` nanoseconds up, the time `500` at queue `2` and the time `510` at
queue `0` are rounded up to `512`: queue `5`, bucket `1`. -/
theorem rounded_lookups_agree_run :
    findRealLocation sampleConfig 2 500 = { queueId := 5, bucketId := 1 } ∧
      (findRealLocation sampleConfig 2 500).queueId = (findRealLocation sampleConfig 0 510).queueId
        ∧ unmaskedBucket sampleConfig 2 500 = unmaskedBucket sampleConfig 0 510 := by
  have hagree := rounded_lookups_agree (show 2 + sampleConfig.minGranScale ≤ 62 by decide)
    (show 0 + sampleConfig.minGranScale ≤ 62 by decide) (show 0 < 500 by norm_num)
    (show 500 < 2 ^ 62 by norm_num)
    (show 510 < 2 ^ 62 by norm_num)
  exact ⟨by decide +kernel, hagree.2.1.mpr (by decide)⟩

end Bess
