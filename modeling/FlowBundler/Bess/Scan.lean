import FlowBundler.Bess.Timing

/-!
The scan of `Dequeue`: which buckets it meets, and where it stops.

* `FlowBundler.scanStart`, `FlowBundler.firstKey`: the masked head time, and the deadline of
  the first bucket looked up, which is that time rounded up to the granule of the scan.
* `ahead_of_idle`: a scan that met only empty buckets has every deadline ahead.
* `Outcome`, `dequeue_outcome`: from a represented and timed calendar a `Dequeue` with a
  positive burst returns; it takes the front of the first occupied bucket, or no bucket up to
  the clock has a packet.
* `Outcome.timed`, `reach_timed`: so every reached calendar is timed.

The scan is `Loop.whileDue` of the library, whose outcome is told by the first round that finds
packets or by the clock.  Its start is the masked head time, which need not be a multiple of the
granule; the buckets that it looks up are those of the start rounded up (`firstKey`), one granule
after the other, and no held deadline is before the first of them.
-/

namespace Bess

open Ledger Dyadic Wheel FlowBundler

variable {cfg : Config} {n : ℕ} {fb : FlowBundler} {held : List Placed} {now garbage : ℕ}

/-- The head time at which the scan starts. -/
def FlowBundler.scanStart (fb : FlowBundler) : ℕ := fb.headTime &&& headTimeMask fb.highestRateQid

/-- The deadline of the first bucket that the scan looks up. -/
def FlowBundler.firstKey (cfg : Config) (fb : FlowBundler) : ℕ :=
  ceilTo (fb.highestRateQid + cfg.minGranScale) fb.scanStart

/-- The granule of the scan. -/
def FlowBundler.scanGran (cfg : Config) (fb : FlowBundler) : ℕ :=
  2 ^ (fb.highestRateQid + cfg.minGranScale)

lemma scanStart_le_firstKey (cfg : Config) (fb : FlowBundler) :
    fb.scanStart ≤ fb.firstKey cfg := le_ceilTo _ _

/-- The bucket looked up after `i` rounds. -/
lemma lookup_eq {i : ℕ} (hg : fb.highestRateQid + cfg.minGranScale ≤ 63)
    (hi : fb.scanStart + i * fb.scanGran cfg ≤ 2 ^ 63) :
    findRealLocation cfg fb.highestRateQid (fb.scanStart + i * fb.scanGran cfg)
      = locOf cfg (fb.firstKey cfg + i * fb.scanGran cfg) := by
  rw [findRealLocation_eq hg hi, scanGran, ceilTo_add]
  rfl

namespace Timed

/-- A held packet is in the bucket of its deadline. -/
lemma mem_bucketList (ht : Timed cfg fb held) {e : Placed} (he : e ∈ held) :
    e ∈ bucketList held (locOf cfg (e.deadline cfg)) :=
  mem_slot.mpr ⟨he, ht.loc_eq e he⟩

/-- Every held deadline is a multiple of the granule of the scan. -/
lemma scanGran_dvd (ht : Timed cfg fb held) (hqid : ∀ e ∈ held, fb.highestRateQid ≤ e.loc.queueId)
    {e : Placed} (he : e ∈ held) : fb.scanGran cfg ∣ e.deadline cfg := by
  refine dvd_of_le_loc (ht.bound e he) (e.minGran_dvd_deadline cfg) ?_
  rw [← ht.loc_eq e he]
  exact hqid e he

/-- The scan starts behind every held deadline. -/
lemma firstKey_le (ht : Timed cfg fb held) (hqid : ∀ e ∈ held, fb.highestRateQid ≤ e.loc.queueId)
    {e : Placed} (he : e ∈ held) : fb.firstKey cfg ≤ e.deadline cfg := by
  refine ceilTo_le (ht.scanGran_dvd hqid he) (le_trans ?_ (ht.ahead e he))
  exact Nat.and_le_left

end Timed

/-- A scan that met only empty buckets still has every deadline ahead. -/
lemma ahead_of_idle (ht : Timed cfg fb held)
    (hqid : ∀ e ∈ held, fb.highestRateQid ≤ e.loc.queueId) (i : ℕ)
    (hidle : ∀ j < i, bucketList held (locOf cfg (fb.firstKey cfg + j * fb.scanGran cfg)) = []) :
    ∀ x ∈ held, fb.firstKey cfg + i * fb.scanGran cfg ≤ x.deadline cfg := by
  have hkey := le_of_idle (K := fun D => ∃ x ∈ held, x.deadline cfg = D)
    (dvd_ceilTo (fb.highestRateQid + cfg.minGranScale) fb.scanStart)
    (fun D ⟨x, hx, hD⟩ => hD ▸ ht.scanGran_dvd hqid hx)
    (fun D ⟨x, hx, hD⟩ => hD ▸ ht.firstKey_le hqid hx) i fun j hj ⟨x, hx, hD⟩ => by
      have hmem := ht.mem_bucketList hx
      have hnil := hidle j hj
      rw [hD] at hmem
      rw [firstKey, scanGran] at hnil
      rw [hnil] at hmem
      simp at hmem
  intro x hx
  exact hkey (x.deadline cfg) ⟨x, hx, rfl⟩

/-! ### The outcome of a call -/

/-- How a `Dequeue` of a timed calendar can end. -/
inductive Outcome (cfg : Config) (fb : FlowBundler) (held : List Placed) (now : ℕ)
    (r : DequeueResult) : Prop
  /-- Nothing is held. -/
  | empty (hnil : held = []) (htaken : r.taken = [])
  /-- The bucket looked up after `i` rounds is due and has packets. -/
  | hit (i : ℕ) (hdue : fb.scanStart + i * fb.scanGran cfg ≤ now)
      (hahead : ∀ x ∈ held, fb.firstKey cfg + i * fb.scanGran cfg ≤ x.deadline cfg)
      (hfront : Repr.front cfg held (locOf cfg (fb.firstKey cfg + i * fb.scanGran cfg)) ≠ [])
      (htaken : r.taken = (Repr.front cfg held
        (locOf cfg (fb.firstKey cfg + i * fb.scanGran cfg))).map Placed.node)
      (hhead : r.fb.headTime = fb.scanStart + i * fb.scanGran cfg)
      (hdrain : r.fb.highestRateQid = fb.highestRateQid ∨
        ∀ e ∈ without Placed.node held r.taken,
          e.loc.queueId ≠ (locOf cfg (fb.firstKey cfg + i * fb.scanGran cfg)).queueId)
  /-- No bucket up to the clock has a packet. -/
  | miss (i : ℕ) (hpast : now < fb.scanStart + i * fb.scanGran cfg)
      (hahead : ∀ x ∈ held, fb.firstKey cfg + i * fb.scanGran cfg ≤ x.deadline cfg)
      (htaken : r.taken = []) (hhead : r.fb.headTime = fb.scanStart + i * fb.scanGran cfg)
      (hqid : r.fb.highestRateQid = fb.highestRateQid)

/-- **`Dequeue`** with a positive burst returns, and as `Outcome` says. -/
theorem dequeue_outcome (hr : Repr n fb held) (ht : Timed cfg fb held)
    (hqid : ∀ e ∈ held, fb.highestRateQid ≤ e.loc.queueId) (hburst : 1 ≤ cfg.dequeueBurst)
    (hnow : now < 2 ^ 62) (garbage : ℕ) :
    ∃ r, fb.dequeue cfg now garbage = some r ∧ Outcome cfg fb held now r := by
  rw [dequeue]
  dsimp only
  by_cases hz : fb.nPacketsTotal = 0
  · rw [if_pos hz]
    rw [hr.tally.total_eq, List.length_eq_zero_iff] at hz
    exact ⟨_, rfl, .empty hz rfl⟩
  have hne : held ≠ [] := fun hnil => hz (by rw [hr.tally.total_eq, hnil]; rfl)
  have hg := ht.gran hne
  have hpow : 2 ^ (fb.highestRateQid + cfg.minGranScale) ≤ 2 ^ 63 :=
    Nat.pow_le_pow_right (by norm_num) hg
  -- the bucket of a round that is idle is empty
  have hidle_nil : ∀ i, (∀ j < i, fb.scanStart + j * fb.scanGran cfg ≤ now ∧
      fb.scanRound cfg (fb.scanStart + j * fb.scanGran cfg) = none) →
      ∀ j < i, bucketList held (locOf cfg (fb.firstKey cfg + j * fb.scanGran cfg)) = [] := by
    intro i hidle j hj
    obtain ⟨hdue, hnone⟩ := hidle j hj
    rw [← lookup_eq hg (by omega)]
    exact scanRound_none hr hburst hnone
  obtain ⟨out, hscan, hout⟩ := @Loop.whileDue_spec _ now (fb.scanGran cfg) (fb.scanRound cfg)
    (Nat.two_pow_pos _) (by rw [scanGran]; omega) (2 ^ 64 - 1) fb.scanStart (by omega)
  rw [if_neg hz, granularity_eq hg]
  rw [show 2 ^ 64 - 1 + 1 = 2 ^ 64 by norm_num, scanStart, scanGran] at hscan
  rw [hscan]
  cases hout with
  | hit i b hidle hdue hbody =>
      obtain ⟨b, d⟩ := b
      obtain ⟨loc, hloc, hfront, htaken, -, -, -, -, hdrain⟩ := scanRound_some hr hbody
      rw [lookup_eq hg (by omega)] at hloc
      subst hloc
      exact ⟨_, rfl, .hit i hdue (ahead_of_idle ht hqid i (hidle_nil i hidle)) hfront htaken rfl
        hdrain⟩
  | past i hidle hpast =>
      exact ⟨_, rfl, .miss i hpast (ahead_of_idle ht hqid i (hidle_nil i hidle)) rfl rfl rfl⟩

namespace Outcome

variable {r : DequeueResult}

/-- The packets that a `Dequeue` takes out, in order, are of the first occupied bucket. -/
lemma mem_taken (hout : Outcome cfg fb held now r) (hr : Repr n fb held) {e : Placed}
    (he : e ∈ World.takenFrom held r.taken) :
    ∃ i, fb.scanStart + i * fb.scanGran cfg ≤ now ∧ e ∈ held ∧
      e.loc = locOf cfg (fb.firstKey cfg + i * fb.scanGran cfg) ∧
      ∀ x ∈ held, fb.firstKey cfg + i * fb.scanGran cfg ≤ x.deadline cfg := by
  cases hout with
  | empty hnil htaken =>
      rw [htaken] at he
      simp [World.takenFrom] at he
  | hit i hdue hahead hfront htaken hhead hdrain =>
      rw [htaken, takenFrom_front hr] at he
      obtain ⟨hmem, hloc⟩ := Repr.mem_front he
      exact ⟨i, hdue, hmem, hloc, hahead⟩
  | miss i hpast hahead htaken hhead hqid =>
      rw [htaken] at he
      simp [World.takenFrom] at he

/-- Every outcome keeps the calendar timed. -/
lemma timed (hout : Outcome cfg fb held now r) (ht : Timed cfg fb held)
    (hqid : ∀ e ∈ without Placed.node held r.taken, r.fb.highestRateQid ≤ e.loc.queueId) :
    Timed cfg r.fb (without Placed.node held r.taken) := by
  have hsub : ∀ e ∈ without Placed.node held r.taken, e ∈ held :=
    fun e he => (mem_without.mp he).1
  have hle := scanStart_le_firstKey cfg fb
  cases hout with
  | empty hnil htaken =>
      rw [hnil]
      exact .nil cfg r.fb
  | hit i hdue hahead hfront htaken hhead hdrain =>
      refine ht.update hsub (fun e he => ?_) fun hne => ?_
      · have := hahead e (hsub e he)
        omega
      obtain ⟨e, he⟩ := List.exists_mem_of_ne_nil _ hne
      have hheld := hsub e he
      rcases hdrain with hsame | hdrain
      · rw [hsame]
        exact ht.gran (List.ne_nil_of_mem hheld)
      · have hloc := ht.loc_eq e hheld
        have hbound := ht.bound e hheld
        rcases Nat.eq_zero_or_pos (e.deadline cfg) with hD | hD
        · -- a deadline `0` is in the first bucket, and its level is not drained
          have hkey : fb.firstKey cfg + i * fb.scanGran cfg = e.deadline cfg := by
            have := hahead e hheld
            omega
          rw [hkey, ← hloc] at hdrain
          exact absurd rfl (hdrain e he)
        · have hle' := hqid e he
          rw [hloc, locOf_of_pos hD] at hle'
          dsimp only at hle'
          have hgran := minGran_le_level hD hbound (e.minGran_dvd_deadline cfg)
          have hl63 := level_le_top hD hbound
          omega
  | miss i hpast hahead htaken hhead hq =>
      refine ht.update hsub (fun e he => ?_) fun hne => ?_
      · have := hahead e (hsub e he)
        omega
      · obtain ⟨e, he⟩ := List.exists_mem_of_ne_nil _ hne
        rw [hq]
        exact ht.gran (List.ne_nil_of_mem (hsub e he))

end Outcome

/-! ### Whole runs -/

namespace World

variable {w w' : World} {op : Op}

/-- What a `Dequeue` of a world did. -/
lemma Inv.outcome (h : w.Inv cfg) (ht : Timed cfg w.fb w.held) (hburst : 1 ≤ cfg.dequeueBurst)
    (hnow : now < 2 ^ 62) {r : DequeueResult} (hrun : w.fb.dequeue cfg now garbage = some r) :
    Outcome cfg w.fb w.held now r := by
  obtain ⟨r', hrun', hout⟩ := dequeue_outcome h.repr ht h.qid_le hburst hnow garbage
  rw [hrun, Option.some.injEq] at hrun'
  exact hrun' ▸ hout

/-- One operation keeps the calendar timed. -/
lemma Inv.step_timed (h : w.Inv cfg) (ht : Timed cfg w.fb w.held) (hcfg : cfg.ShiftsOk)
    (hburst : 1 ≤ cfg.dequeueBurst) (hok : w.Admits op) (hstep : w.step cfg op = some w') :
    Timed cfg w'.fb w'.held := by
  cases op with
  | enqueue now pkt aggreRate hashId =>
      exact (step_enqueue h.repr hstep).timed h ht (hcfg aggreRate)
        (findQueueIndex_le cfg aggreRate) hok.2
  | dequeue now garbage =>
      obtain ⟨r, hrun, rfl⟩ := step_dequeue hstep
      exact (h.outcome ht hburst hok hrun).timed ht (h.dequeue hrun).2

end World

/-- **Every reached calendar** is timed. -/
theorem reach_timed {w : World} (hcfg : cfg.ShiftsOk) (hburst : 1 ≤ cfg.dequeueBurst)
    (hw : Reach cfg World.Admits w) : Timed cfg w.fb w.held := by
  refine hw.invariant (I := fun w => Timed cfg w.fb w.held) ?_ fun w w' op hw ih hok hstep =>
    (reach_inv hw).step_timed ih hcfg hburst hok hstep
  rintro w ⟨now, uuid, nodes, pktsNum, flowToGen, flowInfo, rfl⟩
  exact .nil cfg _

end Bess
