import FlowBundler.Lib.Windows

/-!
`FlowRateEstimator::UpdateRate`: what goes into the estimate of a rate, and when it is made.

* `EstimateInfo`, `updateRate`: the accumulators of a `hash_id`, and a call on them; `Estimate`:
  the numbers from which the call computes the rate.
* `EasyMap.updateRate`, `EasyMap.run_eq`: the calls for one `hash_id` do not see the others.
* `Opening c k`: call `k` opens a bucket; `Estimating n c k`: it is the bucket-opening call number
  `n + 1`, or `2 * n + 1`, ….
* `Tracks c s k info`: the accumulators are right for the calls from `s` up to `k`;
  `Tracks.same`, `Tracks.opens`, `Tracks.ends`: the three paths of a call.
* `Measures c s k est`: the estimate is about the window that began at `s`; `updateRate_window`.

The rate itself is a floating-point number and is left out.

A window begins at the call that ends the one before, which opens a bucket itself.  Its bytes are
those of the calls from there up to the call that makes the estimate, without that call, whereas its
span includes the send time of that call.  The accumulators are followed call by call: a call in the
same bucket adds bytes, one that opens a bucket within the window adds a send time to the span and a
bucket to the count, and one that finds the count full ends the window.  Positions and windows are
those of `Lib.Windows`.
-/

namespace Bess

open Windows

/-! ### The estimator -/

/-- The arguments of a call. -/
structure RateCall where
  pktBytes : ℕ
  sendTs : ℕ
  bucketId : ℕ
  pktBytes_lt : pktBytes < 2 ^ 32
  sendTs_lt : sendTs < 2 ^ 64

structure EstimateInfo where
  totalBytes : ℕ
  maxTs : ℕ
  minTs : ℕ
  lastBucket : ℕ
  count : ℕ

/-- The numbers that go into a rate; `bits` is `total_bytes << 3`. -/
structure Estimate where
  totalBytes : ℕ
  bits : ℕ
  span : ℕ

namespace EstimateInfo

/-- `Reset`, and the constructor. -/
def reset : EstimateInfo :=
  { totalBytes := 0, maxTs := 0, minTs := 2 ^ 64 - 1, lastBucket := 2 ^ 32 - 1, count := 0 }

def addBytes (info : EstimateInfo) (bytes : ℕ) : EstimateInfo :=
  { info with totalBytes := (info.totalBytes + bytes) % 2 ^ 64 }

/-- A new bucket is counted, and its time taken into the span. -/
def openBucket (info : EstimateInfo) (call : RateCall) : EstimateInfo :=
  { info with
    lastBucket := call.bucketId % 2 ^ 32
    count := (info.count + 1) % 2 ^ 32
    maxTs := if call.sendTs > info.maxTs then call.sendTs else info.maxTs
    minTs := if call.sendTs < info.minTs then call.sendTs else info.minTs }

/-- The next window begins with the call that ends this one. -/
def restart (info : EstimateInfo) (call : RateCall) : EstimateInfo :=
  { info with count := 1, totalBytes := 0, maxTs := call.sendTs, minTs := call.sendTs }

def estimate (info : EstimateInfo) : Estimate :=
  { totalBytes := info.totalBytes
    bits := info.totalBytes <<< 3 % 2 ^ 64
    span := (info.maxTs + 2 ^ 64 - info.minTs) % 2 ^ 64 }

/-- `UpdateRate` on the accumulators of its `hash_id`. -/
def updateRate (interval : ℕ) (info : EstimateInfo) (call : RateCall) :
    EstimateInfo × Option Estimate :=
  if info.lastBucket = call.bucketId then (info.addBytes call.pktBytes, none)
  else
    let info := info.openBucket call
    if info.count = (interval + 1) % 2 ^ 32 then
      ((info.restart call).addBytes call.pktBytes, some info.estimate)
    else (info.addBytes call.pktBytes, none)

/-- The accumulators after a list of calls. -/
def run (interval : ℕ) (info : EstimateInfo) (calls : List RateCall) : EstimateInfo :=
  calls.foldl (fun info call => (updateRate interval info call).1) info

end EstimateInfo

/-- `bucket` of `aggregation_rates`. -/
abbrev EasyMap := ℕ → EstimateInfo

namespace EasyMap

def reset : EasyMap := fun _ => .reset

def updateRate (interval : ℕ) (map : EasyMap) (hashId : ℕ) (call : RateCall) :
    EasyMap × Option Estimate :=
  let (info, est) := (map hashId).updateRate interval call
  (Function.update map hashId info, est)

def run (interval : ℕ) (map : EasyMap) (calls : List (ℕ × RateCall)) : EasyMap :=
  calls.foldl (fun map call => (updateRate interval map call.1 call.2).1) map

/-- The accumulators of a `hash_id` see its own calls only, by induction on the calls. -/
lemma run_eq (interval hashId : ℕ) (calls : List (ℕ × RateCall)) : ∀ map : EasyMap,
    run interval map calls hashId = (map hashId).run interval
      ((calls.filter fun call => call.1 = hashId).map Prod.snd) := by
  induction calls with
  | nil => exact fun _ => rfl
  | cons call calls ih =>
      intro map
      refine (ih (updateRate interval map call.1 call.2).1).trans ?_
      by_cases hself : call.1 = hashId
      · rw [List.filter_cons_of_pos (by simpa using hself), List.map_cons, EstimateInfo.run,
          EstimateInfo.run, List.foldl_cons, updateRate, ← hself]
        dsimp only
        rw [Function.update_self]
      · rw [List.filter_cons_of_neg (by simpa using hself), updateRate]
        dsimp only
        rw [Function.update_of_ne fun h => hself h.symm]

end EasyMap

/-! ### The calls -/

section Calls

variable (n : ℕ) (c : ℕ → RateCall)

/-- Call `k` opens a bucket: it is the first, or its bucket is not the one of the call before. -/
def Opening (k : ℕ) : Prop := k = 0 ∨ (c k).bucketId ≠ (c (k - 1)).bucketId

instance : DecidablePred (Opening c) := fun k =>
  inferInstanceAs (Decidable (k = 0 ∨ (c k).bucketId ≠ (c (k - 1)).bucketId))

/-- Call `k` is the bucket-opening call number `m * n + 1` for a positive `m`. -/
def Estimating (k : ℕ) : Prop := Boundary n (Opening c) k

/-- The accumulators before call `k`, since `Reset`. -/
def infoAt (k : ℕ) : EstimateInfo := EstimateInfo.reset.run n ((List.range k).map c)

/-- The estimate that call `k` makes, if it makes one. -/
def estimateAt (k : ℕ) : Option Estimate := ((infoAt n c k).updateRate n (c k)).2

/-- The send times of the bucket-opening calls from `s` up to `k`. -/
def openTs (s k : ℕ) : Set ℕ := {t | ∃ i, (s ≤ i ∧ i < k) ∧ Opening c i ∧ (c i).sendTs = t}

/-- The bytes of the calls from `s` up to `k`. -/
def bytesFrom (s k : ℕ) : ℕ := ∑ i ∈ Finset.Ico s k, (c i).pktBytes

/-- The accumulators before call `k`, when the window began at `s`. -/
structure Tracks (s k : ℕ) (info : EstimateInfo) : Prop where
  bucket : info.lastBucket = (c (k - 1)).bucketId
  count : Nat.count (Opening c) s + info.count = Nat.count (Opening c) k
  bytes : info.totalBytes = bytesFrom c s k % 2 ^ 64
  latest : IsGreatest (openTs c s k) info.maxTs
  earliest : IsLeast (openTs c s k) info.minTs

/-- The estimate that call `k` makes of the window that began at `s`: its bytes are the bytes of
the calls before `k`, and its span is over the bucket-opening calls up to `k` itself. -/
structure Measures (s k : ℕ) (est : Estimate) : Prop where
  bytes : est.totalBytes = bytesFrom c s k % 2 ^ 64
  bits : est.bits = 8 * bytesFrom c s k % 2 ^ 64
  span : ∃ last first, IsGreatest (openTs c s (k + 1)) last ∧ IsLeast (openTs c s (k + 1)) first ∧
    est.span = last - first

end Calls

variable {n : ℕ} {c : ℕ → RateCall} {s k : ℕ} {info : EstimateInfo}

lemma opening_zero (c : ℕ → RateCall) : Opening c 0 := .inl rfl

lemma infoAt_succ (n : ℕ) (c : ℕ → RateCall) (k : ℕ) :
    infoAt n c (k + 1) = ((infoAt n c k).updateRate n (c k)).1 := by
  rw [infoAt, EstimateInfo.run, List.range_succ, List.map_append, List.foldl_append]
  rfl

lemma bytesFrom_succ (h : s ≤ k) : bytesFrom c s (k + 1) = bytesFrom c s k + (c k).pktBytes :=
  Finset.sum_Ico_succ_top h _

lemma bytesFrom_self_succ (c : ℕ → RateCall) (k : ℕ) : bytesFrom c k (k + 1) = (c k).pktBytes := by
  rw [bytesFrom_succ le_rfl, bytesFrom, Finset.Ico_self, Finset.sum_empty, Nat.zero_add]

/-- A call in the same bucket has no send time in the span. -/
lemma openTs_succ_of_not (hk : ¬ Opening c k) : openTs c s (k + 1) = openTs c s k := by
  ext t
  constructor
  · rintro ⟨i, ⟨hsi, hik⟩, hopen, ht⟩
    rcases Nat.lt_succ_iff_lt_or_eq.mp hik with hik | rfl
    · exact ⟨i, ⟨hsi, hik⟩, hopen, ht⟩
    · exact absurd hopen hk
  · rintro ⟨i, ⟨hsi, hik⟩, hopen, ht⟩
    exact ⟨i, ⟨hsi, hik.trans (Nat.lt_succ_self k)⟩, hopen, ht⟩

lemma openTs_succ_of_opening (hsk : s ≤ k) (hk : Opening c k) :
    openTs c s (k + 1) = insert (c k).sendTs (openTs c s k) := by
  ext t
  constructor
  · rintro ⟨i, ⟨hsi, hik⟩, hopen, ht⟩
    rcases Nat.lt_succ_iff_lt_or_eq.mp hik with hik | rfl
    · exact .inr ⟨i, ⟨hsi, hik⟩, hopen, ht⟩
    · exact .inl ht.symm
  · rintro (rfl | ⟨i, ⟨hsi, hik⟩, hopen, ht⟩)
    · exact ⟨k, ⟨hsk, Nat.lt_succ_self k⟩, hk, rfl⟩
    · exact ⟨i, ⟨hsi, hik.trans (Nat.lt_succ_self k)⟩, hopen, ht⟩

lemma openTs_self_succ (hk : Opening c k) : openTs c k (k + 1) = {(c k).sendTs} := by
  rw [openTs_succ_of_opening le_rfl hk]
  ext t
  constructor
  · rintro (rfl | ⟨i, ⟨hki, hik⟩, -⟩)
    · rfl
    · omega
  · exact fun ht => .inl ht

/-! ### The three paths of a call -/

namespace Tracks

/-- What a bucket-opening call does to the span. -/
lemma openBucket (h : Tracks c s k info) (hsk : s ≤ k) (hk : Opening c k) :
    IsGreatest (openTs c s (k + 1)) (info.openBucket (c k)).maxTs ∧
      IsLeast (openTs c s (k + 1)) (info.openBucket (c k)).minTs := by
  have hmax : (info.openBucket (c k)).maxTs = max (c k).sendTs info.maxTs := by
    rw [EstimateInfo.openBucket]
    dsimp only
    split <;> omega
  have hmin : (info.openBucket (c k)).minTs = min (c k).sendTs info.minTs := by
    rw [EstimateInfo.openBucket]
    dsimp only
    split <;> omega
  rw [openTs_succ_of_opening hsk hk, hmax, hmin]
  exact ⟨h.latest.insert _, h.earliest.insert _⟩

lemma addBytes (h : info.totalBytes = bytesFrom c s k % 2 ^ 64) (hsk : s ≤ k) :
    (info.addBytes (c k).pktBytes).totalBytes = bytesFrom c s (k + 1) % 2 ^ 64 := by
  rw [bytesFrom_succ hsk, EstimateInfo.addBytes]
  dsimp only
  rw [h, Nat.mod_add_mod]

/-- A call in the bucket of the call before. -/
lemma same (h : Tracks c s k info) (hsk : s ≤ k) (hk : ¬ Opening c k) :
    (info.updateRate n (c k)).2 = none ∧ Tracks c s (k + 1) (info.updateRate n (c k)).1 := by
  have hbucket : info.lastBucket = (c k).bucketId := by
    rw [h.bucket]
    by_contra hne
    exact hk (.inr fun heq => hne heq.symm)
  rw [EstimateInfo.updateRate, if_pos hbucket]
  refine ⟨rfl, hbucket, ?_, addBytes h.bytes hsk, ?_, ?_⟩
  · rw [Nat.count_succ, if_neg hk, Nat.add_zero]
    exact h.count
  · rw [openTs_succ_of_not hk]
    exact h.latest
  · rw [openTs_succ_of_not hk]
    exact h.earliest

/-- A call that opens a bucket within the window. -/
lemma opens (h : Tracks c s k info) (hsk : s ≤ k) (hk : Opening c k)
    (hbucket : (c k).bucketId < 2 ^ 32) (hlast : info.lastBucket ≠ (c k).bucketId)
    (hn : n < 2 ^ 32) (hcount : info.count < n) :
    (info.updateRate n (c k)).2 = none ∧ Tracks c s (k + 1) (info.updateRate n (c k)).1 := by
  have hopen : (info.openBucket (c k)).count = info.count + 1 := Nat.mod_eq_of_lt (by omega)
  have hne : (info.openBucket (c k)).count ≠ (n + 1) % 2 ^ 32 := by
    rw [hopen]
    omega
  obtain ⟨hmax, hmin⟩ := h.openBucket hsk hk
  rw [EstimateInfo.updateRate, if_neg hlast]
  dsimp only
  rw [if_neg hne]
  refine ⟨rfl, Nat.mod_eq_of_lt hbucket, ?_, addBytes h.bytes hsk, hmax, hmin⟩
  have hold := h.count
  rw [Nat.count_succ, if_pos hk, ← hold, Nat.add_assoc]
  exact congrArg _ hopen

/-- A call that opens a bucket after a whole window makes the estimate, and begins the next
window. -/
lemma ends (h : Tracks c s k info) (hsk : s ≤ k) (hk : Opening c k)
    (hbucket : (c k).bucketId < 2 ^ 32) (hlast : info.lastBucket ≠ (c k).bucketId)
    (hcount : info.count = n) :
    (∃ est, (info.updateRate n (c k)).2 = some est ∧ Measures c s k est) ∧
      Tracks c k (k + 1) (info.updateRate n (c k)).1 := by
  have hopen : (info.openBucket (c k)).count = (n + 1) % 2 ^ 32 := by
    rw [EstimateInfo.openBucket, hcount]
  obtain ⟨hmax, hmin⟩ := h.openBucket hsk hk
  have htotal : (info.openBucket (c k)).totalBytes = bytesFrom c s k % 2 ^ 64 := h.bytes
  rw [EstimateInfo.updateRate, if_neg hlast]
  dsimp only
  rw [if_pos hopen]
  refine ⟨⟨_, rfl, htotal, ?_, _, _, hmax, hmin, ?_⟩, ?_⟩
  · rw [EstimateInfo.estimate]
    dsimp only
    rw [htotal, Nat.shiftLeft_eq, Nat.mod_mul_mod, Nat.mul_comm]
  · have hle := hmin.2 hmax.1
    obtain ⟨i, -, -, hi⟩ := hmax.1
    have hlt := (c i).sendTs_lt
    rw [hi] at hlt
    rw [EstimateInfo.estimate]
    dsimp only
    omega
  · refine ⟨Nat.mod_eq_of_lt hbucket, ?_, ?_, ?_, ?_⟩
    · rw [Nat.count_succ, if_pos hk]
      rfl
    · rw [bytesFrom_self_succ, EstimateInfo.addBytes, EstimateInfo.restart]
      dsimp only
      rw [Nat.zero_add]
    · rw [openTs_self_succ hk]
      exact isGreatest_singleton
    · rw [openTs_self_succ hk]
      exact isLeast_singleton

/-- The first call, after `Reset`. -/
lemma first (hbucket : (c 0).bucketId < 2 ^ 32 - 1) (hn : 1 ≤ n) (hn32 : n < 2 ^ 32) :
    (EstimateInfo.reset.updateRate n (c 0)).2 = none ∧
      Tracks c 0 1 (EstimateInfo.reset.updateRate n (c 0)).1 := by
  have hlast : EstimateInfo.reset.lastBucket ≠ (c 0).bucketId := by
    rw [EstimateInfo.reset]
    dsimp only
    omega
  have hne : (EstimateInfo.reset.openBucket (c 0)).count ≠ (n + 1) % 2 ^ 32 := by
    rw [EstimateInfo.openBucket, EstimateInfo.reset]
    dsimp only
    omega
  have hts := (c 0).sendTs_lt
  rw [EstimateInfo.updateRate, if_neg hlast]
  dsimp only
  rw [if_neg hne]
  refine ⟨rfl, Nat.mod_eq_of_lt (by omega), ?_, ?_, ?_, ?_⟩
  · rw [Nat.count_succ, Nat.count_zero, if_pos (opening_zero c)]
    rfl
  · rw [bytesFrom_self_succ, EstimateInfo.addBytes, EstimateInfo.openBucket, EstimateInfo.reset]
    dsimp only
    rw [Nat.zero_add]
  · have hmax : ((EstimateInfo.reset.openBucket (c 0)).addBytes (c 0).pktBytes).maxTs
        = (c 0).sendTs := by
      rw [EstimateInfo.addBytes, EstimateInfo.openBucket, EstimateInfo.reset]
      dsimp only
      split <;> omega
    rw [openTs_self_succ (opening_zero c), hmax]
    exact isGreatest_singleton
  · have hmin : ((EstimateInfo.reset.openBucket (c 0)).addBytes (c 0).pktBytes).minTs
        = (c 0).sendTs := by
      rw [EstimateInfo.addBytes, EstimateInfo.openBucket, EstimateInfo.reset]
      dsimp only
      split <;> omega
    rw [openTs_self_succ (opening_zero c), hmin]
    exact isLeast_singleton

end Tracks

/-! ### Every call -/

/-- **One call**: within the window it makes no estimate, and after it the window goes on; at a
boundary it makes the estimate of the window, and begins the next one. -/
lemma Tracks.step (h : Tracks c s k info) (hopened : Opened n (Opening c) k s) (hn : 1 ≤ n)
    (hn32 : n < 2 ^ 32) (hbucket : (c k).bucketId < 2 ^ 32) :
    (¬ Estimating n c k → (info.updateRate n (c k)).2 = none ∧
        Tracks c s (k + 1) (info.updateRate n (c k)).1) ∧
      (Estimating n c k → (∃ est, (info.updateRate n (c k)).2 = some est ∧ Measures c s k est) ∧
        Tracks c k (k + 1) (info.updateRate n (c k)).1) := by
  have hsk := hopened.lt.le
  have hcount := h.count
  have hle := Opened.count_le hn (opening_zero c) hopened
  have hends := hopened.boundary_iff hn (opening_zero c)
  rw [Estimating, hends]
  by_cases hk : Opening c k
  · have hlast : info.lastBucket ≠ (c k).bucketId := by
      rw [h.bucket]
      rcases hk with rfl | hne
      · exact absurd hopened.lt (Nat.not_lt_zero s)
      · exact hne.symm
    refine ⟨fun hnot => ?_, fun hend => ?_⟩
    · have hne : Nat.count (Opening c) k ≠ Nat.count (Opening c) s + n := fun heq => hnot ⟨hk, heq⟩
      exact h.opens hsk hk hbucket hlast hn32 (by omega)
    · have heq := hend.2
      exact h.ends hsk hk hbucket hlast (by omega)
  · exact ⟨fun _ => h.same hsk hk, fun hend => absurd hend.1 hk⟩

/-- The accumulators before every call but the first, by induction on the calls. -/
lemma tracks_infoAt (hn : 1 ≤ n) (hn32 : n < 2 ^ 32) : ∀ {k s : ℕ},
    (∀ j < k, (c j).bucketId < 2 ^ 32 - 1) → Opened n (Opening c) k s →
    Tracks c s k (infoAt n c k) := by
  intro k
  induction k with
  | zero => exact fun {s} _ h => absurd h.lt (Nat.not_lt_zero s)
  | succ k ih =>
      intro s hbucket h
      rw [infoAt_succ]
      cases k with
      | zero =>
          obtain rfl : s = 0 := Nat.lt_one_iff.mp h.lt
          exact (Tracks.first (hbucket 0 Nat.one_pos) hn hn32).2
      | succ k =>
          obtain ⟨s', hs'⟩ := exists_opened n (Opening c) k
          have hlast := hbucket (k + 1) (Nat.lt_succ_self _)
          obtain ⟨hstay, hmove⟩ := (ih (fun j hj => hbucket j (hj.trans (Nat.lt_succ_self _)))
            hs').step hs' hn hn32 (by omega)
          by_cases hend : Estimating n c (k + 1)
          · obtain rfl := h.unique (.move hend)
            exact (hmove hend).2
          · obtain rfl := h.unique (hs'.stay hend)
            exact (hstay hend).2

/-- Before a boundary there is a window, and the call at it makes its estimate. -/
lemma estimateAt_of_estimating (hn : 1 ≤ n) (hn32 : n < 2 ^ 32)
    (hbucket : ∀ j ≤ k, (c j).bucketId < 2 ^ 32 - 1) (hopened : Opened n (Opening c) k s)
    (hend : Estimating n c k) : ∃ est, estimateAt n c k = some est ∧ Measures c s k est := by
  have hlast := hbucket k le_rfl
  have htracks := tracks_infoAt hn hn32 (fun j hj => hbucket j hj.le) hopened
  exact ((htracks.step hopened hn hn32 (by omega)).2 hend).1

/-- The other calls make none. -/
lemma estimateAt_of_not (hn : 1 ≤ n) (hn32 : n < 2 ^ 32)
    (hbucket : ∀ j ≤ k, (c j).bucketId < 2 ^ 32 - 1) (hend : ¬ Estimating n c k) :
    estimateAt n c k = none := by
  have hlast := hbucket k le_rfl
  cases k with
  | zero => exact (Tracks.first hlast hn hn32).1
  | succ k =>
      obtain ⟨s, hopened⟩ := exists_opened n (Opening c) k
      have htracks := tracks_infoAt hn hn32 (fun j hj => hbucket j hj.le) hopened
      exact ((htracks.step hopened hn hn32 (by omega)).1 hend).1

/-- **The estimation window**: an estimate is made exactly at the bucket-opening calls number
`n + 1`, `2 * n + 1`, …, and it is about the calls since the one that made the previous estimate,
or since the first. -/
theorem updateRate_window (hn : 1 ≤ n) (hn32 : n < 2 ^ 32)
    (hbucket : ∀ j ≤ k, (c j).bucketId < 2 ^ 32 - 1) :
    ((∃ est, estimateAt n c k = some est) ↔ Estimating n c k) ∧
      ∀ est, estimateAt n c k = some est →
        ∃ s, Opened n (Opening c) k s ∧ Measures c s k est := by
  by_cases hend : Estimating n c k
  · cases k with
    | zero => exact absurd hend (not_boundary_zero hn (opening_zero c))
    | succ k =>
        obtain ⟨s, hopened⟩ := exists_opened n (Opening c) k
        obtain ⟨est, hest, hmeasures⟩ := estimateAt_of_estimating hn hn32 hbucket hopened hend
        refine ⟨iff_of_true ⟨est, hest⟩ hend, fun est' hest' => ⟨s, hopened, ?_⟩⟩
        rw [hest, Option.some.injEq] at hest'
        exact hest' ▸ hmeasures
  · have hnone := estimateAt_of_not hn hn32 hbucket hend
    rw [hnone]
    exact ⟨iff_of_false (by simp) hend, fun est hest => absurd hest (by simp)⟩

/-! ### Concrete calls -/

lemma hundred_lt : 100 < 2 ^ 32 := by norm_num

lemma clock_mod_lt (i : ℕ) : i % 2 ^ 64 < 2 ^ 64 := Nat.mod_lt _ (Nat.two_pow_pos 64)

/-- Two calls in each bucket. -/
def pairedCalls (i : ℕ) : RateCall :=
  { pktBytes := 100, sendTs := i % 2 ^ 64, bucketId := i / 2
    pktBytes_lt := hundred_lt, sendTs_lt := clock_mod_lt i }

/-- With windows of two buckets the first call of the third one makes an estimate. -/
theorem updateRate_window_run : ∃ est, estimateAt 2 pairedCalls 4 = some est :=
  (@updateRate_window 2 pairedCalls 4 (by norm_num) (by norm_num) fun j hj => by
    change j / 2 < 2 ^ 32 - 1
    omega).1.mpr ⟨by decide, 1, le_rfl, by decide⟩

lemma long_bytes_lt : 2 ^ 32 - 1 < 2 ^ 32 := by norm_num

/-- One bucket of `2 ^ 32 + 2` calls with the largest packets, and then the next bucket. -/
def longBucket (i : ℕ) : RateCall :=
  { pktBytes := 2 ^ 32 - 1, sendTs := i % 2 ^ 64, bucketId := if i < 2 ^ 32 + 2 then 0 else 1
    pktBytes_lt := long_bytes_lt, sendTs_lt := clock_mod_lt i }

lemma longBucket_of_lt {i : ℕ} (h : i < 2 ^ 32 + 2) : (longBucket i).bucketId = 0 := if_pos h

lemma longBucket_last : (longBucket (2 ^ 32 + 2)).bucketId = 1 := by
  change (if 2 ^ 32 + 2 < 2 ^ 32 + 2 then 0 else 1) = 1
  rw [if_neg (lt_irrefl _)]

lemma longBucket_le (i : ℕ) : (longBucket i).bucketId < 2 ^ 32 - 1 := by
  rw [longBucket]
  dsimp only
  split <;> norm_num

lemma not_opening_longBucket {i : ℕ} (hpos : 0 < i) (h : i < 2 ^ 32 + 2) :
    ¬ Opening longBucket i := by
  rintro (rfl | hne)
  · omega
  · rw [longBucket_of_lt h, longBucket_of_lt (by omega)] at hne
    exact hne rfl

/-- By induction on the calls of the bucket. -/
lemma count_longBucket {k : ℕ} (hpos : 0 < k) (hle : k ≤ 2 ^ 32 + 2) :
    Nat.count (Opening longBucket) k = 1 := by
  induction k with
  | zero => omega
  | succ k ih =>
      rw [Nat.count_succ]
      rcases Nat.eq_zero_or_pos k with rfl | hk
      · rw [Nat.count_zero, if_pos (opening_zero longBucket)]
      · rw [ih hk (by omega), if_neg (not_opening_longBucket hk (by omega))]

/-- With windows of one bucket the second bucket ends the first window. -/
lemma estimating_of_count (hk : Opening c k) (hcount : Nat.count (Opening c) k = 1) :
    Estimating 1 c k := by
  refine ⟨hk, 1, le_rfl, ?_⟩
  rw [Nat.count_succ, if_pos hk, hcount]

lemma opening_longBucket_last : Opening longBucket (2 ^ 32 + 2) := by
  refine .inr ?_
  rw [longBucket_last, longBucket_of_lt (by norm_num)]
  norm_num

lemma estimating_longBucket : Estimating 1 longBucket (2 ^ 32 + 2) :=
  estimating_of_count opening_longBucket_last (count_longBucket (by norm_num) le_rfl)

lemma opened_longBucket : Opened 1 (Opening longBucket) (2 ^ 32 + 2) 0 :=
  ⟨by norm_num, .inl rfl, fun _ hpos hlt hend => not_opening_longBucket hpos hlt hend.1⟩

lemma bytesFrom_longBucket (k : ℕ) : bytesFrom longBucket 0 k = k * (2 ^ 32 - 1) := by
  have hbytes : ∀ i ∈ Finset.Ico 0 k, (longBucket i).pktBytes = 2 ^ 32 - 1 := fun _ _ => rfl
  rw [bytesFrom, Finset.sum_congr rfl hbytes, Finset.sum_const, Nat.card_Ico, Nat.sub_zero,
    smul_eq_mul]

/-- The bytes of that bucket do not fit the accumulator. -/
theorem longBucket_bytes : (∀ i, (longBucket i).bucketId < 2 ^ 32 - 1) ∧
    Opened 1 (Opening longBucket) (2 ^ 32 + 2) 0 ∧
    ∃ est, estimateAt 1 longBucket (2 ^ 32 + 2) = some est ∧
      est.totalBytes ≠ bytesFrom longBucket 0 (2 ^ 32 + 2) := by
  obtain ⟨est, hest, hmeasures⟩ := estimateAt_of_estimating le_rfl (by norm_num)
    (fun j _ => longBucket_le j) opened_longBucket estimating_longBucket
  refine ⟨longBucket_le, opened_longBucket, est, hest, ?_⟩
  rw [hmeasures.bytes, bytesFrom_longBucket]
  norm_num

end Bess
