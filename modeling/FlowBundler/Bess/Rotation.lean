import FlowBundler.Bess.Service
import FlowBundler.Lib.Lookup
import Mathlib.Data.Nat.Size

/-!
`FlowBundler::Insert` and the rotations of the calendar.

* `classFor`: the least queue index whose rotation is longer than a given distance;
  `finalQueueId_eq`: it is the one that the horizon test and the leading zeros select.
* `World.headTime_le`, `World.scanGran_le`: the head time and the granule of the scan stay in
  range, whatever the burst.
* `FlowBundler.WithinRotation`: a packet is stored less than one rotation of its level ahead of
  the head time, so that nothing earlier shares its bucket.
* `insert_within_rotation_iff`: when this is so; `insert_wraps`: a packet that is stored one
  whole rotation ahead.

The horizon test compares with a horizon of one granule less than a rotation, and the quotient of
the distance by the rotation decides by its leading zeros: a packet beyond the horizon but less than
a rotation away keeps its queue index.  The deadline of such a packet is rounded up to one rotation
ahead exactly when its send time falls into the granule one rotation after that of the head time,
and then it shares the bucket of the deadline in that granule of the head time, unless the later
granule belongs to a coarser level (`within_locOf_iff`).
-/

namespace Bess

open Ledger Dyadic Wheel FlowBundler

variable {cfg : Config} {q H a s : ℕ}

/-! ### The queue index of a distance -/

/-- The least queue index, from `q` on, whose rotation is longer than `d`. -/
def classFor (cfg : Config) (q d : ℕ) : ℕ :=
  max q (Nat.size d - (cfg.minGranScale + cfg.bucketNumScale))

lemma lt_rotation_classFor (cfg : Config) (q d : ℕ) :
    d < 2 ^ (classFor cfg q d + cfg.minGranScale + cfg.bucketNumScale) := by
  refine lt_of_lt_of_le (Nat.lt_size_self d) (Nat.pow_le_pow_right (by norm_num) ?_)
  have := le_max_right q (Nat.size d - (cfg.minGranScale + cfg.bucketNumScale))
  rw [classFor]
  omega

lemma classFor_le {c d : ℕ} (hq : q ≤ c)
    (hd : d < 2 ^ (c + cfg.minGranScale + cfg.bucketNumScale)) : classFor cfg q d ≤ c := by
  have hsize := Nat.size_le.mpr hd
  rw [classFor]
  omega

lemma classFor_of_lt {d : ℕ} (hd : d < 2 ^ (q + cfg.minGranScale + cfg.bucketNumScale)) :
    classFor cfg q d = q :=
  le_antisymm (classFor_le le_rfl hd) (le_max_left _ _)

/-- A distance of at least one rotation gives the length of its quotient in bits. -/
lemma classFor_of_le {d : ℕ} (hd : d >>> (q + cfg.minGranScale + cfg.bucketNumScale) ≠ 0) :
    classFor cfg q d
      = q + (Nat.log2 (d >>> (q + cfg.minGranScale + cfg.bucketNumScale)) + 1) := by
  set k := q + cfg.minGranScale + cfg.bucketNumScale with hk
  set x := d >>> k with hx
  rw [Nat.shiftRight_eq_div_pow] at hx
  have hlo : 2 ^ Nat.log2 x ≤ x := Nat.log2_self_le hd
  have hhi : x < 2 ^ (Nat.log2 x + 1) := Nat.lt_log2_self
  refine le_antisymm (classFor_le (by omega) ?_) ?_
  · rw [hx, Nat.div_lt_iff_lt_mul (Nat.two_pow_pos k), ← pow_add] at hhi
    rw [show q + (Nat.log2 x + 1) + cfg.minGranScale + cfg.bucketNumScale
      = Nat.log2 x + 1 + k by omega]
    rwa [hx]
  · rw [hx, Nat.le_div_iff_mul_le (Nat.two_pow_pos k), ← pow_add] at hlo
    have hsize := Nat.lt_size.mpr hlo
    rw [← hx] at hsize
    rw [classFor]
    omega

/-- The horizon test and the leading zeros select the class of the distance. -/
lemma finalQueueId_eq (hq : q + cfg.minGranScale + cfg.bucketNumScale < 64) (hle : H ≤ a)
    (hH : H ≤ 2 ^ 63) (hd : a - H < 2 ^ 62) : finalQueueId cfg q H a = classFor cfg q (a - H) := by
  set k := q + cfg.minGranScale + cfg.bucketNumScale with hk
  have hpow : 2 ^ k ≤ 2 ^ 63 := Nat.pow_le_pow_right (by norm_num) (by omega)
  have hgran := Nat.two_pow_pos (q + cfg.minGranScale)
  have hturn := Nat.two_pow_pos k
  rw [finalQueueId, ← hk, horizon_eq (by omega), ← hk, Nat.mod_eq_of_lt (by omega)]
  by_cases hz : (a - H) >>> k = 0
  · -- within the rotation the queue index stays, whether or not it is beyond the horizon
    have hrot : a - H < 2 ^ k := by
      rw [Nat.shiftRight_eq_div_pow, Nat.div_eq_zero_iff] at hz
      exact hz.resolve_left (Nat.two_pow_pos k).ne'
    rw [classFor_of_lt hrot, hz, clzll, if_pos rfl, Nat.add_sub_cancel]
    split
    · exact Nat.mod_eq_of_lt (by omega)
    · rfl
  · obtain ⟨hbits, hlog⟩ := bump_bounds hd hz
    have hrot : 2 ^ k ≤ a - H := by
      rw [Nat.shiftRight_eq_div_pow] at hz
      exact Nat.le_of_not_lt fun hlt => hz (Nat.div_eq_of_lt hlt)
    rw [if_pos (by omega), Nat.add_sub_assoc (clzll_le _), hbits, Nat.mod_eq_of_lt (by omega)]
    exact (classFor_of_le hz).symm

/-! ### The head time of every run -/

namespace World

variable {w w' : World} {op : Op}

/-- While a packet is held, the head time is in range and the granule of the scan is at most
`2^62`. -/
def HeadInRange (cfg : Config) (w : World) : Prop :=
  w.held ≠ [] → w.fb.headTime ≤ 2 ^ 63 ∧ w.fb.highestRateQid + cfg.minGranScale ≤ 62

/-- A round of `Enqueue` keeps the head time in range. -/
lemma EnqueueStep.headInRange {pkt : Packet} (hstep : w.EnqueueStep cfg pkt q s w')
    (h : w.Inv cfg) (hhead : w.HeadInRange cfg) (hq : q + cfg.minGranScale ≤ 62)
    (hs : s < 2 ^ 62) : w'.HeadInRange cfg := by
  intro _
  rw [hstep.headTime, hstep.highestRateQid, headFor]
  by_cases hz : w.fb.bitmap = 0
  · rw [if_pos hz, if_pos hz, land_headTimeMask (by omega)]
    have := floorTo_le q s
    omega
  · rw [if_neg hz, if_neg hz]
    obtain ⟨hle, hgran⟩ := hhead fun hnil => hz (h.repr.tally.bitmap_eq_zero_iff.mpr hnil)
    omega

/-- The head time after a `Dequeue` is at most one granule beyond the clock, or is the masked
one. -/
lemma Inv.dequeue_headTime_le {now garbage : ℕ} {r : DequeueResult} (h : w.Inv cfg)
    (hne : w.held ≠ []) (hhead : w.HeadInRange cfg) (hnow : now < 2 ^ 62)
    (hrun : w.fb.dequeue cfg now garbage = some r) : r.fb.headTime ≤ 2 ^ 63 := by
  obtain ⟨hle, hgran⟩ := hhead hne
  have htotal : w.fb.nPacketsTotal ≠ 0 := by
    rw [h.repr.tally.total_eq]
    exact fun hz => hne (List.length_eq_zero_iff.mp hz)
  have hstart : w.fb.scanStart ≤ w.fb.headTime := Nat.and_le_left
  have hpow : 2 ^ (w.fb.highestRateQid + cfg.minGranScale) ≤ 2 ^ 62 :=
    Nat.pow_le_pow_right (by norm_num) hgran
  obtain ⟨out, hscan, hout⟩ := @Loop.whileDue_spec _ now (w.fb.scanGran cfg)
    (w.fb.scanRound cfg) (Nat.two_pow_pos _) (by rw [scanGran]; omega) (2 ^ 64 - 1)
    w.fb.scanStart (by omega)
  rw [FlowBundler.dequeue] at hrun
  dsimp only at hrun
  rw [if_neg htotal, granularity_eq (by omega)] at hrun
  rw [show 2 ^ 64 - 1 + 1 = 2 ^ 64 by norm_num, scanStart, scanGran] at hscan
  rw [hscan] at hrun
  cases hout with
  | hit i b hidle hdue hbody =>
      dsimp only at hrun
      rw [Option.some.injEq] at hrun
      rw [← hrun]
      dsimp only
      omega
  | past i hidle hpast =>
      dsimp only at hrun
      rw [Option.some.injEq] at hrun
      rw [← hrun]
      dsimp only
      cases i with
      | zero => omega
      | succ i =>
          have hlast := (hidle i (Nat.lt_succ_self i)).1
          have hgran' : w.fb.scanGran cfg ≤ 2 ^ 62 := hpow
          rw [Nat.add_mul, Nat.one_mul]
          omega

/-- A run that never takes a packet out keeps the head time in range. -/
lemma headInRange_of_burst_zero (hgran : cfg.minGranScale ≤ 62)
    (hburst : cfg.dequeueBurst = 0) (hw : Reach cfg World.Admits w) : w.HeadInRange cfg := by
  induction hw with
  | start hinit =>
      obtain ⟨now, uuid, nodes, pktsNum, flowToGen, flowInfo, rfl⟩ := hinit
      exact fun hne => absurd rfl hne
  | @step w w' op hw hok hstep ih =>
      have hinv := reach_inv hw
      cases op with
      | enqueue now pkt aggreRate hashId =>
          have hclass := findQueueIndex_add_le cfg aggreRate
          exact (step_enqueue hinv.repr hstep).headInRange hinv ih (by omega) hok.2
      | dequeue now garbage =>
          obtain ⟨r, hrun, rfl⟩ := step_dequeue hstep
          intro hne
          cases dequeue_cases hinv.repr hrun with
          | empty hnil hfb htaken hbatch =>
              dsimp only at hne
              rw [hnil] at hne
              exact absurd rfl hne
          | hit t loc hdue hloc hfront =>
              rw [Repr.front, hburst, Nat.zero_min, List.take_zero] at hfront
              exact absurd rfl hfront
          | miss t d hfb htaken hbatch =>
              have hheld : w.held ≠ [] := fun hnil => hne (by simp [hnil, without])
              refine ⟨hinv.dequeue_headTime_le hheld ih hok hrun, ?_⟩
              dsimp only
              rw [hfb]
              exact (ih hheld).2

/-- **The head time of every run** is in range while a packet is held. -/
lemma headTime_le (hcfg : cfg.ShiftsOk) (hgran : cfg.minGranScale ≤ 62)
    (hw : Reach cfg World.Admits w) (hne : w.held ≠ []) : w.fb.headTime ≤ 2 ^ 63 := by
  rcases Nat.eq_zero_or_pos cfg.dequeueBurst with hzero | hburst
  · exact (headInRange_of_burst_zero hgran hzero hw hne).1
  · exact (reach_timed hcfg hburst hw).head_le hne

/-- **The granule of the scan** of every run is below the width of a word while a packet is
held. -/
lemma scanGran_le (hcfg : cfg.ShiftsOk) (hgran : cfg.minGranScale ≤ 62)
    (hw : Reach cfg World.Admits w) (hne : w.held ≠ []) :
    w.fb.highestRateQid + cfg.minGranScale ≤ 63 := by
  rcases Nat.eq_zero_or_pos cfg.dequeueBurst with hzero | hburst
  · exact (headInRange_of_burst_zero hgran hzero hw hne).2.trans (by norm_num)
  · exact (reach_timed hcfg hburst hw).gran hne

/-- The head time that `Insert` uses is in range. -/
lemma headFor_le (hcfg : cfg.ShiftsOk) (hgran : cfg.minGranScale ≤ 62)
    (hw : Reach cfg World.Admits w) (hs : s < 2 ^ 62) : headFor w.fb q s ≤ 2 ^ 63 := by
  rw [headFor]
  split
  · rw [land_headTimeMask (by omega)]
    exact (floorTo_le q s).trans (by omega)
  · rename_i hz
    refine headTime_le hcfg hgran hw fun hnil => hz ?_
    exact (reach_inv hw).repr.tally.bitmap_eq_zero_iff.mpr hnil

end World

/-! ### Within one rotation -/

section Rotation

variable {w : World} {pkt : Packet} {flowId hashId : ℕ}

/-- What `Insert` stores at queue index `q` and send time `s` is less than one rotation of its
level ahead of the head time, so that nothing earlier shares its bucket. -/
structure World.WithinRotation (cfg : Config) (w : World) (q s : ℕ) (r : InsertResult) :
    Prop where
  ahead : headFor w.fb q s ≤ ceilTo (r.queueId + cfg.minGranScale) r.actual
  within : ceilTo (r.queueId + cfg.minGranScale) r.actual
    < headFor w.fb q s + 2 ^ (r.loc.queueId + cfg.minGranScale + cfg.bucketNumScale)
  /-- No held packet with a smaller deadline is in the bucket. -/
  alone : 1 ≤ cfg.dequeueBurst → ∀ e ∈ w.held,
    e.deadline cfg < ceilTo (r.queueId + cfg.minGranScale) r.actual → e.loc ≠ r.loc
  /-- A scan from the head time on, whatever its granule, does not meet the bucket sooner. -/
  unmet : ∀ h t, h + cfg.minGranScale ≤ 63 → headFor w.fb q s ≤ t →
    ceilTo (h + cfg.minGranScale) t < ceilTo (r.queueId + cfg.minGranScale) r.actual →
    findRealLocation cfg h t ≠ r.loc

/-- The send time does not fall into the granule one rotation after that of the head time, or
this granule belongs to a coarser level. -/
def FlowBundler.FitsRotation (cfg : Config) (fb : FlowBundler) (q s : ℕ) : Prop :=
  let H := headFor fb q s
  let k := classFor cfg q (s - H) + cfg.minGranScale
  max H s + 2 ^ k ≤ ceilTo k H + 2 ^ (k + cfg.bucketNumScale) ∨
    2 ^ (k + 1) ∣ ceilTo k H + 2 ^ (k + cfg.bucketNumScale)

instance (cfg : Config) (fb : FlowBundler) (q s : ℕ) : Decidable (fb.FitsRotation cfg q s) :=
  inferInstanceAs (Decidable (_ ∨ _))

/-- Of two deadlines of one bucket the later one is at least one rotation ahead of every time up
to the earlier one. -/
lemma locOf_ne_of_lt {D D' : ℕ} (hlt : D < D') (htop : D' ≤ 2 ^ 63)
    (hdvd : 2 ^ cfg.minGranScale ∣ D) (hdvd' : 2 ^ cfg.minGranScale ∣ D') (hH : H ≤ D)
    (hrot : D' < H + 2 ^ ((locOf cfg D').queueId + cfg.minGranScale + cfg.bucketNumScale)) :
    locOf cfg D ≠ locOf cfg D' := fun hloc =>
  hlt.ne (eq_of_same_loc hlt.le htop hdvd hdvd' hloc (by omega))

/-- A deadline is within one rotation of the head time, on the level of its own location, exactly
when the send time it is rounded from fits. -/
lemma within_locOf_iff {k : ℕ} (hmink : cfg.minGranScale ≤ k) (htop : ceilTo k (max H s) ≤ 2 ^ 63)
    (hturn : max H s < H + 2 ^ (k + cfg.bucketNumScale)) :
    ceilTo k (max H s) < H + 2 ^ ((locOf cfg (ceilTo k (max H s))).queueId + cfg.minGranScale
        + cfg.bucketNumScale) ↔
      max H s + 2 ^ k ≤ ceilTo k H + 2 ^ (k + cfg.bucketNumScale) ∨
        2 ^ (k + 1) ∣ ceilTo k H + 2 ^ (k + cfg.bucketNumScale) := by
  have hge : max H s ≤ ceilTo k (max H s) := le_ceilTo k _
  -- the level of the location is that of the deadline; the deadline `0` is on the last level
  rcases Nat.eq_zero_or_pos (ceilTo k (max H s)) with hzero | hpos
  · have hH0 : H = 0 := by omega
    refine iff_of_true ?_ (.inl ?_)
    · rw [hzero]
      exact Nat.add_pos_right _ (Nat.two_pow_pos _)
    · rw [show max H s = 0 by omega, hH0, ceilTo_of_dvd (dvd_zero _)]
      exact Nat.add_le_add_left (Nat.pow_le_pow_right (by norm_num) (by omega)) _
  · have hmin : 2 ^ cfg.minGranScale ∣ ceilTo k (max H s) :=
      (pow_dvd_pow 2 hmink).trans (dvd_ceilTo k _)
    rw [locOf_of_pos hpos]
    dsimp only
    rw [Nat.sub_add_cancel (minGran_le_level hpos htop hmin)]
    exact within_rotation_iff hpos (by omega) hturn

/-- What `Insert` computes for a send time `s` when the head time is `H`: the granule of the class
of `s - H`, and the location of the deadline at this granule. -/
lemma insert_places (pkt : Packet) (flowId hashId : ℕ) {k : ℕ} (hH : headFor w.fb q s = H)
    (hHle : H ≤ 2 ^ 63) (hk : classFor cfg q (s - H) + cfg.minGranScale = k)
    (hq : q + cfg.minGranScale + cfg.bucketNumScale < 64) (hgran : cfg.minGranScale ≤ 62)
    (hs : s < 2 ^ 62) :
    (w.fb.insert cfg pkt q s flowId hashId).actual = max H s ∧
      (w.fb.insert cfg pkt q s flowId hashId).queueId + cfg.minGranScale = k ∧ k ≤ 63 ∧
      (w.fb.insert cfg pkt q s flowId hashId).loc = locOf cfg (ceilTo k (max H s)) := by
  set r := w.fb.insert cfg pkt q s flowId hashId
  obtain ⟨-, hactual, hqueue, hloc⟩ := insert_computes cfg w.fb pkt q s flowId hashId
  have hhead : (w.fb.firstPacket q s).headTime = H := by
    rw [firstPacket_headTime]
    exact hH
  rw [hhead] at hactual hqueue
  have hmax : r.actual = max H s := hactual.trans (actualTime_eq_max H s)
  have hclass : r.queueId + cfg.minGranScale = k := by
    rw [← hk, show r.queueId = finalQueueId cfg q H r.actual from hqueue, hmax,
      finalQueueId_eq hq (le_max_left H s) hHle (by omega),
      show max H s - H = s - H by omega]
  have hk63 : k ≤ 63 := by
    have hsize : Nat.size (s - H) ≤ 62 := Nat.size_le.mpr (by omega)
    rw [← hk, classFor]
    omega
  refine ⟨hmax, hclass, hk63, ?_⟩
  rw [show r.loc = findRealLocation cfg r.queueId r.actual from hloc, hmax,
    findRealLocation_eq (by omega) (by omega), hclass]

/-- **Insert stays within one rotation exactly when** the send time does not fall into the granule
one rotation after that of the head time, or this granule belongs to a coarser level. -/
theorem insert_within_rotation_iff (hcfg : cfg.ShiftsOk) (hgran : cfg.minGranScale ≤ 62)
    (hw : Reach cfg World.Admits w) (hq : q + cfg.minGranScale + cfg.bucketNumScale < 64)
    (hs : s < 2 ^ 62) :
    w.WithinRotation cfg q s (w.fb.insert cfg pkt q s flowId hashId) ↔
      w.fb.FitsRotation cfg q s := by
  set r := w.fb.insert cfg pkt q s flowId hashId
  set H := headFor w.fb q s with hHdef
  set k := classFor cfg q (s - H) + cfg.minGranScale with hk
  have hH : H ≤ 2 ^ 63 := World.headFor_le hcfg hgran hw hs
  obtain ⟨hmax, hclass, hk63, hr⟩ :=
    insert_places pkt flowId hashId hHdef.symm hH hk.symm hq hgran hs
  have hturn : max H s < H + 2 ^ (k + cfg.bucketNumScale) := by
    have := lt_rotation_classFor cfg q (s - H)
    rw [← hk] at this
    omega
  have htop : ceilTo k (max H s) ≤ 2 ^ 63 := ceilTo_le_top hk63 (by omega)
  have hge : max H s ≤ ceilTo k (max H s) := le_ceilTo k _
  have hmin : 2 ^ cfg.minGranScale ∣ ceilTo k (max H s) :=
    (pow_dvd_pow 2 (Nat.le_add_left _ _)).trans (dvd_ceilTo k _)
  have hwithin : ceilTo k (max H s)
      < H + 2 ^ (r.loc.queueId + cfg.minGranScale + cfg.bucketNumScale) ↔
        w.fb.FitsRotation cfg q s := by
    rw [hr]
    exact within_locOf_iff (Nat.le_add_left _ _) htop hturn
  rw [← hwithin]
  constructor
  · intro h
    have := h.within
    rwa [hclass, hmax] at this
  · intro h
    rw [hr] at h
    refine ⟨?_, ?_, ?_, ?_⟩ <;> rw [hclass, hmax]
    · exact le_trans (le_max_left H s) hge
    · rw [hr]
      exact h
    · intro hburst e he hlt
      have ht := reach_timed hcfg hburst hw
      have hahead : H ≤ e.deadline cfg := by
        rw [hHdef, (reach_inv hw).headFor_eq (List.ne_nil_of_mem he)]
        exact ht.ahead e he
      rw [ht.loc_eq e he, hr]
      exact locOf_ne_of_lt hlt htop (e.minGran_dvd_deadline cfg) hmin hahead h
    · intro c t hc hle hlt
      have ht := le_ceilTo (c + cfg.minGranScale) t
      rw [findRealLocation_eq hc (by omega), hr]
      exact locOf_ne_of_lt hlt htop
        ((pow_dvd_pow 2 (Nat.le_add_left _ _)).trans (dvd_ceilTo _ t)) hmin (hle.trans ht) h

/-- A first packet due at `120` sets the head time to `96`; a packet of queue index `5` due at
`1000` is stored at `1024`, within one rotation. -/
theorem insert_within_rotation_iff_run :
    ∃ w, Reach sampleConfig World.Admits w ∧ w.held.length = 1 ∧
      w.WithinRotation sampleConfig 5 1000
        (w.fb.insert sampleConfig (packetOf 2 101) 5 1000 2 0) := by
  obtain ⟨w, hw, hheld, hhead⟩ := exists_reach sampleConfig 100000000 World.Admits
    [.enqueue 0 (packetOf 1 100) 20000000 0]
    (fun w => w.held.length = 1 ∧ headFor w.fb 5 1000 = 96) (by decide +kernel)
  refine ⟨w, hw, hheld, (insert_within_rotation_iff sampleConfig_shiftsOk (by decide) hw (by decide)
    (by norm_num)).mpr (.inl ?_)⟩
  rw [hhead, classFor_of_lt (by decide)]
  decide

/-- With the head time `96`, a packet of queue index `5` due at `524300` is beyond the horizon,
but no whole rotation ahead: its queue index stays, it is rounded up to `524800`, and it shares
the bucket of `512`, one whole rotation before it. -/
theorem insert_wraps :
    ¬ ∀ (cfg : Config) (w : World) (pkt : Packet) (q s flowId hashId : ℕ), cfg.ShiftsOk →
      Reach cfg (fun w op => w.Admits op ∧ w.Ticks op) w →
      q + cfg.minGranScale + cfg.bucketNumScale < 64 → s < 2 ^ 62 →
      (w.fb.insert cfg pkt q s flowId hashId).ret = 0 →
      w.WithinRotation cfg q s (w.fb.insert cfg pkt q s flowId hashId) := by
  intro hall
  obtain ⟨w, hw, hret, hbeyond⟩ := exists_reach sampleConfig 100000000
    (fun w op => w.Admits op ∧ w.Ticks op) [.enqueue 0 (packetOf 1 100) 20000000 0]
    (fun w => (w.fb.insert sampleConfig (packetOf 2 101) 5 524300 2 0).ret = 0 ∧
      let r := w.fb.insert sampleConfig (packetOf 2 101) 5 524300 2 0
      ¬ ceilTo (r.queueId + sampleConfig.minGranScale) r.actual
        < headFor w.fb 5 524300
          + 2 ^ (r.loc.queueId + sampleConfig.minGranScale + sampleConfig.bucketNumScale))
    (by decide +kernel)
  exact hbeyond (hall sampleConfig w _ 5 524300 2 0 sampleConfig_shiftsOk hw (by decide)
    (by norm_num) hret).within

end Rotation

end Bess
