import FlowBundler.Bess.Scan

/-!
When `Dequeue` serves a packet, over whole runs, and where `Insert` places it.

* `dequeue_leaves_no_due`: a `Dequeue` that takes nothing leaves no due packet behind.
* `World.ScansInStep`, `dequeue_never_early`: as long as no scan meets the bucket of a packet
  that is not yet due, by rounding its start up or one rotation too soon, no packet leaves
  before its send time;
  `dequeue_sends_early`: a run whose head time is aligned by a mask that leaves out
  `min_gran_scale`.
* `enqueue_on_time_iff`: a packet is placed within one granule of its send time exactly when
  the calendar is empty or the head time is not beyond that granule;
  `enqueue_delays_other_flow`: a first packet due far ahead delays another flow.

The packets that a `Dequeue` takes are in the bucket that its scan looked up (`mem_taken`), so an
early packet is one whose bucket the scan meets before its time, although its deadline is not before
its send time.  Two deadlines of one bucket within a rotation are equal, so that within a rotation
this happens only when the scan looks up a deadline beyond the clock, by rounding its start up.
-/

namespace Bess

open Ledger Dyadic Wheel FlowBundler

variable {cfg : Config} {w w' : World} {now garbage : ℕ}

/-! ### Configurations -/

/-- The largest rate, in its finest granule. -/
lemma maxRate_lt (cfg : Config) : maxRate cfg < 2 ^ (34 - cfg.minGranScale) := by
  rw [maxRate, Nat.shiftRight_eq_div_pow, Nat.div_lt_iff_lt_mul (Nat.two_pow_pos _), ← pow_add]
  calc rateScale * mtu <<< 3 < 2 ^ 34 := by decide
    _ ≤ 2 ^ (34 - cfg.minGranScale + cfg.minGranScale) :=
        Nat.pow_le_pow_right (by norm_num) (by omega)

/-- The granules of the rate classes are at most `2^34`, or the finest one if that is larger. -/
lemma findQueueIndex_add_le (cfg : Config) (rate : ℕ) :
    findQueueIndex cfg rate + cfg.minGranScale ≤ max 34 cfg.minGranScale := by
  have hhigh := le_clzll (maxRate_lt cfg) (by omega)
  have h64 := clzll_le (min rate (maxRate cfg))
  rw [findQueueIndex_eq]
  omega

/-- The shifts are in range for every finest granule up to `2^34` with up to `2^29` buckets. -/
lemma Config.shiftsOk_of_lt (h : max 34 cfg.minGranScale + cfg.bucketNumScale < 64) :
    cfg.ShiftsOk := by
  intro rate
  have := findQueueIndex_add_le cfg rate
  omega

/-- `2^10` buckets, granules from `16` nanoseconds up, a pool of eight nodes. -/
def sampleConfig : Config :=
  { bucketNumScale := 10, minGranScale := 4, dequeueBurst := 32, mempoolSize := 8
    maxBytesPerFlow := 3000 }

lemma sampleConfig_shiftsOk : sampleConfig.ShiftsOk :=
  Config.shiftsOk_of_lt (by decide)

/-! ### No due packet is left -/

/-- **No due packet is left behind**: in every run, a `Dequeue` returns, and if it takes
nothing, every packet still queued is due after the clock. -/
theorem dequeue_leaves_no_due (hcfg : cfg.ShiftsOk) (hburst : 1 ≤ cfg.dequeueBurst)
    (hw : Reach cfg World.Admits w) (hok : w.Admits (.dequeue now garbage)) :
    ∃ r, w.fb.dequeue cfg now garbage = some r ∧
      (r.taken = [] → ∀ e ∈ w.held, now < e.deadline cfg) := by
  have hinv := reach_inv hw
  have ht := reach_timed hcfg hburst hw
  obtain ⟨r, hrun, hout⟩ := dequeue_outcome hinv.repr ht hinv.qid_le hburst hok garbage
  refine ⟨r, hrun, fun hnone e he => ?_⟩
  cases hout with
  | empty hnil htaken =>
      rw [hnil] at he
      simp at he
  | hit i hdue hahead hfront htaken hhead hdrain =>
      rw [htaken, List.map_eq_nil_iff] at hnone
      exact absurd hnone hfront
  | miss i hpast hahead htaken hhead hqid =>
      calc now < w.fb.scanStart + i * w.fb.scanGran cfg := hpast
        _ ≤ w.fb.firstKey cfg + i * w.fb.scanGran cfg :=
            Nat.add_le_add_right (scanStart_le_firstKey cfg w.fb) _
        _ ≤ e.deadline cfg := hahead e he

/-- After a first packet due at `120` the scan starts at `96`, which is no multiple of its
granule `512`; at clock `50` it takes nothing and the packet is due at `512`. -/
theorem dequeue_leaves_no_due_run :
    ∃ w, Reach sampleConfig World.Admits w ∧ w.held.map (Placed.deadline sampleConfig) = [512] ∧
      (w.fb.dequeue sampleConfig 50 77).any (fun r => r.taken = []) = true ∧
      ∃ r, w.fb.dequeue sampleConfig 50 77 = some r ∧
        (r.taken = [] → ∀ e ∈ w.held, 50 < e.deadline sampleConfig) := by
  obtain ⟨w, hw, hheld, htaken⟩ := exists_reach sampleConfig 100000000 World.Admits
    [.enqueue 0 (packetOf 1 100) 20000000 0]
    (fun w => w.held.map (Placed.deadline sampleConfig) = [512] ∧
      (w.fb.dequeue sampleConfig 50 77).any (fun r => r.taken = []) = true)
    (by decide +kernel)
  exact ⟨w, hw, hheld, htaken, dequeue_leaves_no_due sampleConfig_shiftsOk (by decide) hw
    (show 50 < 2 ^ 62 by norm_num)⟩

/-! ### No packet leaves early -/

namespace World

/-- For every packet that a `Dequeue` finds not yet due: its deadline is beyond the clock by
more than the scan gets ahead of itself by rounding its start up to a multiple of the scan
granule (by nothing, from an aligned start), and less than one rotation of its level ahead of
that multiple. -/
def ScansInStep (cfg : Config) (w : World) : Op → Prop
  | .enqueue _ _ _ _ => True
  | .dequeue now _ =>
      ∀ e ∈ w.held, now < e.sendTime →
        now + (w.fb.firstKey cfg - w.fb.scanStart) < e.deadline cfg ∧
          e.deadline cfg
            < w.fb.firstKey cfg + 2 ^ (e.loc.queueId + cfg.minGranScale + cfg.bucketNumScale)

instance (cfg : Config) (w : World) : (op : Op) → Decidable (w.ScansInStep cfg op)
  | .enqueue _ _ _ _ => inferInstanceAs (Decidable True)
  | .dequeue now _ => inferInstanceAs (Decidable (∀ e ∈ w.held, now < e.sendTime → _))

/-- Every packet taken out had a send time not after the clock reading of that `Dequeue`. -/
def NeverEarly (w : World) : Prop := ∀ p ∈ w.sent, p.1.sendTime ≤ p.2

instance (w : World) : Decidable w.NeverEarly := inferInstanceAs (Decidable (∀ p ∈ w.sent, _))

end World

/-- With a quota of zero nothing is ever taken out. -/
lemma sent_eq_nil {ok : World → Op → Prop} (hburst : cfg.dequeueBurst = 0)
    (hw : Reach cfg ok w) : w.sent = [] := by
  induction hw with
  | start hinit =>
      obtain ⟨now, uuid, nodes, pktsNum, flowToGen, flowInfo, rfl⟩ := hinit
      rfl
  | @step w w' op hw hok hstep ih =>
      have hrepr := (reach_inv hw).repr
      cases op with
      | enqueue now pkt aggreRate hashId => rw [(step_enqueue hrepr hstep).sent, ih]
      | dequeue now garbage =>
          obtain ⟨r, hrun, rfl⟩ := step_dequeue hstep
          dsimp only
          have htaken : r.taken = [] := by
            cases dequeue_cases hrepr hrun with
            | empty hnil hfb htaken hbatch => exact htaken
            | hit t loc hdue hloc hfront =>
                rw [Repr.front, hburst, Nat.zero_min, List.take_zero] at hfront
                exact absurd rfl hfront
            | miss t d hfb htaken hbatch => exact htaken
          rw [ih, htaken]
          rfl

/-- A packet in the bucket that the scan looks up has the deadline looked up, when it is less
than one rotation ahead of the first one. -/
lemma Timed.deadline_eq {fb : FlowBundler} {held : List Placed} {e : Placed} {i : ℕ}
    (ht : Timed cfg fb held) (he : e ∈ held)
    (hloc : e.loc = locOf cfg (fb.firstKey cfg + i * fb.scanGran cfg))
    (hle : fb.firstKey cfg + i * fb.scanGran cfg ≤ e.deadline cfg)
    (hrot : e.deadline cfg
      < fb.firstKey cfg + 2 ^ (e.loc.queueId + cfg.minGranScale + cfg.bucketNumScale)) :
    e.deadline cfg = fb.firstKey cfg + i * fb.scanGran cfg := by
  have hdvd : fb.scanGran cfg ∣ fb.firstKey cfg + i * fb.scanGran cfg :=
    (dvd_ceilTo _ _).add (Dvd.intro_left i rfl)
  have hloc' := ht.loc_eq e he
  refine (eq_of_same_loc hle (ht.bound e he) ?_ (e.minGran_dvd_deadline cfg)
    (hloc.symm.trans hloc') ?_).symm
  · exact (pow_dvd_pow 2 (Nat.le_add_left _ _)).trans hdvd
  · rw [← hloc']
    omega

/-- In step, a `Dequeue` takes no packet before its send time: a packet not yet due would have
the deadline looked up, which the scan does not reach by `now`. -/
lemma Outcome.send_le {fb : FlowBundler} {held : List Placed} {r : DequeueResult} {n : ℕ}
    (hout : Outcome cfg fb held now r) (hr : Repr n fb held) (ht : Timed cfg fb held)
    (hstep : ∀ e ∈ held, now < e.sendTime →
      now + (fb.firstKey cfg - fb.scanStart) < e.deadline cfg ∧
        e.deadline cfg
          < fb.firstKey cfg + 2 ^ (e.loc.queueId + cfg.minGranScale + cfg.bucketNumScale))
    {e : Placed} (he : e ∈ World.takenFrom held r.taken) : e.sendTime ≤ now := by
  by_contra hearly
  obtain ⟨i, hdue, hmem, hloc, hahead⟩ := hout.mem_taken hr he
  obtain ⟨hlate, hrot⟩ := hstep e hmem (not_le.mp hearly)
  have hD := ht.deadline_eq hmem hloc (hahead e hmem) hrot
  have hfirst := scanStart_le_firstKey cfg fb
  omega

/-- **Never early**: along operations whose scans are in step, every packet leaves at or after
its send time. -/
theorem dequeue_never_early (hcfg : cfg.ShiftsOk)
    (hw : Reach cfg (fun w op => w.Admits op ∧ w.ScansInStep cfg op) w) : w.NeverEarly := by
  rcases Nat.eq_zero_or_pos cfg.dequeueBurst with hzero | hburst
  · intro p hp
    rw [sent_eq_nil hzero hw] at hp
    simp at hp
  induction hw with
  | start hinit =>
      obtain ⟨now, uuid, nodes, pktsNum, flowToGen, flowInfo, rfl⟩ := hinit
      exact fun p hp => by simp [World.start] at hp
  | @step w w' op hw hok hstep ih =>
      have hinv := reach_inv hw
      have ht := reach_timed hcfg hburst (hw.mono fun _ _ h => h.1)
      cases op with
      | enqueue now pkt aggreRate hashId =>
          intro p hp
          rw [(step_enqueue hinv.repr hstep).sent] at hp
          exact ih p hp
      | dequeue now garbage =>
          obtain ⟨r, hrun, rfl⟩ := step_dequeue hstep
          have hout := hinv.outcome ht hburst hok.1 hrun
          intro p hp
          rcases List.mem_append.mp hp with hp | hp
          · exact ih p hp
          · obtain ⟨e, he, rfl⟩ := List.mem_map.mp hp
            exact hout.send_le hinv.repr ht hok.2 he

/-- A flow of one packet per granule: the scan starts at `512`, and the packet due then leaves
at `600`. -/
theorem dequeue_never_early_run :
    ∃ w, Reach sampleConfig (fun w op => w.Admits op ∧ w.ScansInStep sampleConfig op) w ∧
      w.sent.map (fun p => (p.1.sendTime, p.2)) = [(512, 600)] ∧ w.held.length = 1 ∧
      w.NeverEarly := by
  obtain ⟨w, hw, hsent, hheld⟩ := exists_reach sampleConfig 23437500
    (fun w op => w.Admits op ∧ w.ScansInStep sampleConfig op)
    [.enqueue 0 (packetOf 1 100) 20000000 0, .enqueue 0 (packetOf 1 101) 20000000 0,
      .dequeue 600 77]
    (fun w => w.sent.map (fun p => (p.1.sendTime, p.2)) = [(512, 600)] ∧ w.held.length = 1)
    (by decide +kernel)
  exact ⟨w, hw, hsent, hheld, dequeue_never_early sampleConfig_shiftsOk hw⟩

/-- A first packet due at `120` sets the head time to `96`, which the mask of queue `5` does not
align to the granule `512`: the bucket of `512` is met at clock `130`, and with it a packet due
at `240`. -/
theorem dequeue_sends_early :
    ¬ ∀ (cfg : Config) (w : World), cfg.ShiftsOk →
      Reach cfg (fun w op => w.Admits op ∧ w.Ticks op) w → w.NeverEarly := by
  intro hall
  obtain ⟨w, hw, hearly⟩ := exists_reach sampleConfig 100000000
    (fun w op => w.Admits op ∧ w.Ticks op)
    [.enqueue 0 (packetOf 1 100) 20000000 0, .enqueue 0 (packetOf 1 101) 20000000 0,
      .dequeue 130 77]
    (fun w => ¬ w.NeverEarly) (by decide +kernel)
  exact hearly (hall sampleConfig w sampleConfig_shiftsOk hw)

/-! ### A packet is placed near its send time -/

/-- The time at which a round of `Enqueue` places its packet is at or after the send time, by
less than one granule of the queue index it finally uses. -/
def FlowBundler.PlacesOnTime (cfg : Config) (fb : FlowBundler) (now : ℕ) (pkt : Packet)
    (aggreRate hashId : ℕ) : Prop :=
  let r := fb.enqueueOne cfg now pkt aggreRate hashId
  let D := ceilTo (r.queueId + cfg.minGranScale) r.actual
  r.sendTime ≤ D ∧ D < r.sendTime + 2 ^ (r.queueId + cfg.minGranScale)

instance (cfg : Config) (fb : FlowBundler) (now : ℕ) (pkt : Packet) (aggreRate hashId : ℕ) :
    Decidable (fb.PlacesOnTime cfg now pkt aggreRate hashId) :=
  inferInstanceAs (Decidable (_ ∧ _))

/-- The send time is not before the clock reading. -/
lemma le_stampOf (fb : FlowBundler) (pkt : Packet) (now : ℕ) : now ≤ fb.stampOf pkt now := by
  rw [stampOf, newStamp]
  split <;> omega

/-- **A packet is placed on time exactly when** the calendar is empty, or the shared head time
is not beyond its send time rounded up to the granule of its rate class. -/
theorem enqueue_on_time_iff (cfg : Config) (fb : FlowBundler) (now : ℕ) (pkt : Packet)
    (aggreRate hashId : ℕ) :
    fb.PlacesOnTime cfg now pkt aggreRate hashId ↔
      fb.bitmap = 0 ∨ fb.headTime
        ≤ ceilTo (findQueueIndex cfg aggreRate + cfg.minGranScale) (fb.stampOf pkt now) := by
  obtain ⟨hsend, hactual, hqueue, -⟩ := enqueueOne_computes cfg fb now pkt aggreRate hashId
  have hq := findQueueIndex_le cfg aggreRate
  rw [FlowBundler.PlacesOnTime, hqueue, hactual, hsend]
  set q := findQueueIndex cfg aggreRate
  set s := fb.stampOf pkt now
  rcases Nat.lt_or_ge s (headFor fb q s) with hlt | hle
  · -- behind the head time, which some other packet has set
    have hne : fb.bitmap ≠ 0 := fun hz => by
      rw [headFor, if_pos hz] at hlt
      exact absurd hlt (not_lt.mpr Nat.and_le_left)
    have hhead : headFor fb q s = fb.headTime := if_neg hne
    rw [finalQueueId_of_lt hq hlt, actualTime_of_lt hlt, ceilTo_lt_add_iff, hhead]
    have hceil := le_ceilTo (q + cfg.minGranScale) fb.headTime
    constructor
    · exact fun h => .inr h.2
    · rintro (hz | hle)
      · exact absurd hz hne
      · exact ⟨by omega, hle⟩
  · rw [actualTime_of_le hle]
    refine iff_of_true ⟨le_ceilTo _ _, ceilTo_lt_add _ _⟩ ?_
    by_cases hz : fb.bitmap = 0
    · exact .inl hz
    · rw [headFor, if_neg hz] at hle
      exact .inr (hle.trans (le_ceilTo _ _))

/-- A first packet of `1500` bytes, due at `12000000`, sets the head time; a packet of another
flow due at `512000` is then placed at `12000256` too. -/
theorem enqueue_delays_other_flow :
    ¬ ∀ (cfg : Config) (w : World) (now : ℕ) (pkt : Packet) (aggreRate hashId : ℕ),
      cfg.ShiftsOk → Reach cfg (fun w op => w.Admits op ∧ w.Ticks op) w →
      w.Admits (.enqueue now pkt aggreRate hashId) → w.Ticks (.enqueue now pkt aggreRate hashId) →
      now ≤ w.fb.stampOf pkt now → w.fb.PlacesOnTime cfg now pkt aggreRate hashId := by
  intro hall
  set pkt : Packet := { ptr := 101, totalLen := 64, src := 2, dst := 9 }
  obtain ⟨w, hw, hok, hticks, hlate⟩ := exists_reach sampleConfig 1000
    (fun w op => w.Admits op ∧ w.Ticks op) [.enqueue 0 (packetOf 1 100) 20000000 0]
    (fun w => w.Admits (.enqueue 0 pkt 20000000 0) ∧ w.Ticks (.enqueue 0 pkt 20000000 0) ∧
      ¬ w.fb.PlacesOnTime sampleConfig 0 pkt 20000000 0)
    (by decide +kernel)
  exact hlate (hall sampleConfig w 0 pkt 20000000 0 sampleConfig_shiftsOk hw hok hticks
    (le_stampOf _ _ _))

end Bess
