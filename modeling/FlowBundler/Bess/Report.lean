import FlowBundler.Bess.Rotation
import FlowBundler.Bess.Generator

/-!
What `FlowBundler::Dequeue` reports: the count of the batch, its entries, and the packets taken
out of the calendar.

* `FlowBundler.FirstDue`: the first round of the scan that finds packets, if it is due.
* `dequeue_scan`: a `Dequeue` takes the front of the bucket of that round; without such a round
  its count is whatever `dequeue_num` held before.
* `dequeue_reports_iff`: the report is right exactly when the calendar is empty or such a round
  exists and its quota fits into a batch; `dequeue_reports_garbage`: a call that meets no due
  bucket.

The loop of the scan ends at a round that takes packets; a round that finds packets with an empty
quota assigns `dequeue_num` and goes on.  So the count is the quota's as soon as there is a first
due round with packets, and is what the variable held before if there is none.  The batch has room
for `kMaxBurst` entries, which a quota may exceed.
-/

namespace Bess

open Ledger FlowBundler

variable {cfg : Config} {n : ℕ} {fb : FlowBundler} {held : List Placed} {w : World}
  {now garbage : ℕ}

/-! ### The rounds of the scan -/

/-- The bucket that round `i` of the scan looks up. -/
def FlowBundler.lookedUp (cfg : Config) (fb : FlowBundler) (i : ℕ) : Location :=
  findRealLocation cfg fb.highestRateQid (fb.scanStart + i * fb.scanGran cfg)

/-- Round `i` is due, and it is the first that finds packets. -/
structure FlowBundler.FirstDue (cfg : Config) (fb : FlowBundler) (now i : ℕ) : Prop where
  due : fb.scanStart + i * fb.scanGran cfg ≤ now
  occupied : fb.occupied (fb.lookedUp cfg i) = true
  idle : ∀ j < i, fb.occupied (fb.lookedUp cfg j) = false

lemma FlowBundler.FirstDue.unique {i j : ℕ} (hi : fb.FirstDue cfg now i)
    (hj : fb.FirstDue cfg now j) : i = j := by
  rcases Nat.lt_trichotomy i j with hlt | heq | hlt
  · exact absurd hi.occupied (by rw [hj.idle i hlt]; decide)
  · exact heq
  · exact absurd hj.occupied (by rw [hi.idle j hlt]; decide)

/-- A round that finds packets and takes none has an empty quota. -/
lemma scanRound_quota (h : Repr n fb held) {t : ℕ}
    (hocc : fb.occupied (findRealLocation cfg fb.highestRateQid t) = true)
    (hrun : fb.scanRound cfg t = none) : cfg.dequeueBurst = 0 := by
  by_contra hburst
  exact (h.occupied_iff _).mp hocc (scanRound_none h (Nat.pos_of_ne_zero hburst) hrun)

/-- A due round that takes packets after rounds that took none is the first that finds any. -/
lemma FlowBundler.FirstDue.of_scanRound (h : Repr n fb held) {i : ℕ} {b : BulkResult × ℕ}
    (hdue : fb.scanStart + i * fb.scanGran cfg ≤ now)
    (hbody : fb.scanRound cfg (fb.scanStart + i * fb.scanGran cfg) = some b)
    (hidle : ∀ j < i, fb.scanRound cfg (fb.scanStart + j * fb.scanGran cfg) = none) :
    fb.FirstDue cfg now i := by
  obtain ⟨b, d⟩ := b
  obtain ⟨loc, hloc, hfront, -⟩ := scanRound_some h hbody
  have hburst : cfg.dequeueBurst ≠ 0 := fun hzero => by
    rw [Repr.front, hzero, Nat.zero_min, List.take_zero] at hfront
    exact hfront rfl
  have hocc : fb.occupied (fb.lookedUp cfg i) = true := by
    refine (h.occupied_iff _).mpr fun hnil => hfront ?_
    rw [Repr.front, hloc]
    rw [lookedUp] at hnil
    rw [hnil]
    simp
  refine ⟨hdue, hocc, fun j hj => ?_⟩
  rw [← Bool.not_eq_true]
  exact fun hj' => hburst (scanRound_quota h hj' (hidle j hj))

/-- A round that finds packets and takes none has an empty front. -/
lemma front_of_scanRound (h : Repr n fb held) {t : ℕ}
    (hocc : fb.occupied (findRealLocation cfg fb.highestRateQid t) = true)
    (hrun : fb.scanRound cfg t = none) (loc : Location) : Repr.front cfg held loc = [] := by
  rw [Repr.front, scanRound_quota h hocc hrun, Nat.zero_min, List.take_zero]

/-- The test of a round that looks for packets only. -/
lemma probe_eq_none_iff (loc : Location) :
    (if fb.occupied loc then some () else none) = none ↔ fb.occupied loc = false := by
  cases fb.occupied loc <;> simp

/-! ### One call -/

/-- **The scan** takes the front of the first due bucket; if there is none it takes nothing and
the count is what `dequeue_num` held before. -/
theorem dequeue_scan (hr : Repr n fb held) (hne : held ≠ [])
    (hg : fb.highestRateQid + cfg.minGranScale ≤ 63) (hnow : now < 2 ^ 62) (garbage : ℕ) :
    ∃ r, fb.dequeue cfg now garbage = some r ∧
      ((∃ i, fb.FirstDue cfg now i ∧ r.cnt = (Repr.front cfg held (fb.lookedUp cfg i)).length ∧
          r.taken = (Repr.front cfg held (fb.lookedUp cfg i)).map Placed.node ∧
          r.batch = (Repr.front cfg held (fb.lookedUp cfg i)).map Placed.packet ∧
          Repr n r.fb (without Placed.node held r.taken)) ∨
        ((∀ i, ¬ fb.FirstDue cfg now i) ∧ r.cnt = garbage ∧ r.taken = [] ∧ r.batch = [] ∧
          Repr n r.fb held)) := by
  have htotal : fb.nPacketsTotal ≠ 0 := by
    rw [hr.tally.total_eq]
    exact fun hz => hne (List.length_eq_zero_iff.mp hz)
  have hpow : 2 ^ (fb.highestRateQid + cfg.minGranScale) ≤ 2 ^ 63 :=
    Nat.pow_le_pow_right (by norm_num) hg
  have hend : now + fb.scanGran cfg < 2 ^ 64 := by
    rw [scanGran]
    omega
  set probe : ℕ → Option Unit := fun s =>
    if fb.occupied (findRealLocation cfg fb.highestRateQid s) then some () else none with hprobe
  obtain ⟨out, hscan, hout⟩ := @Loop.whileDue_spec _ now (fb.scanGran cfg) (fb.scanRound cfg)
    (Nat.two_pow_pos _) hend (2 ^ 64 - 1) fb.scanStart (by omega)
  obtain ⟨out', hscan', hout'⟩ := @Loop.whileDue_spec _ now (fb.scanGran cfg) probe
    (Nat.two_pow_pos _) hend (2 ^ 64 - 1) fb.scanStart (by omega)
  rw [show 2 ^ 64 - 1 + 1 = 2 ^ 64 by norm_num, scanStart, scanGran] at hscan hscan'
  rw [dequeue]
  dsimp only
  rw [if_neg htotal, granularity_eq hg, hscan]
  cases hout with
  | hit i b hidle hdue hbody =>
      have hfirst : fb.FirstDue cfg now i :=
        FlowBundler.FirstDue.of_scanRound hr hdue hbody fun j hj => (hidle j hj).2
      obtain ⟨b, d⟩ := b
      obtain ⟨loc, hloc, -, htaken, hbatch, hnum, hrepr, -, -⟩ := scanRound_some hr hbody
      refine ⟨_, rfl, .inl ⟨i, hfirst, ?_, ?_, ?_, ?_⟩⟩
      · exact hnum.trans (by rw [hloc]; rfl)
      · exact htaken.trans (by rw [hloc]; rfl)
      · exact hbatch.trans (by rw [hloc]; rfl)
      · exact hrepr.congr rfl rfl rfl rfl rfl rfl
  | past i hidle hpast =>
      dsimp only
      rw [← hprobe, hscan']
      cases hout' with
      | hit j b hidle' hdue hbody =>
          have hocc : fb.occupied (fb.lookedUp cfg j) = true := by
            by_contra hempty
            have hnone : probe (fb.scanStart + j * fb.scanGran cfg) = none :=
              (probe_eq_none_iff _).mpr (Bool.eq_false_of_not_eq_true hempty)
            rw [hnone] at hbody
            exact absurd hbody (by simp)
          have hji : j < i := Loop.lt_of_due_of_past hdue hpast
          -- the bucket was met with an empty quota
          have hfront : Repr.front cfg held (fb.lookedUp cfg j) = [] :=
            front_of_scanRound hr hocc (hidle j hji).2 _
          refine ⟨_, rfl, .inl ⟨j, ⟨hdue, hocc, fun k hk => ?_⟩, ?_, ?_, ?_, ?_⟩⟩
          · exact (probe_eq_none_iff _).mp (hidle' k hk).2
          · rw [hfront]
            rfl
          · rw [hfront]
            rfl
          · rw [hfront]
            rfl
          · dsimp only
            rw [without_eq_self (by simp)]
            exact hr.congr rfl rfl rfl rfl rfl rfl
      | past j hidle' hpast' =>
          refine ⟨_, rfl, .inr ⟨fun k hk => ?_, rfl, rfl, rfl, hr.congr rfl rfl rfl rfl rfl rfl⟩⟩
          have hkj : k < j := Loop.lt_of_due_of_past hk.due hpast'
          have hempty : fb.occupied (fb.lookedUp cfg k) = false :=
            (probe_eq_none_iff _).mp (hidle' k hkj).2
          exact absurd hk.occupied (by rw [hempty]; decide)

/-! ### What a call reports -/

/-- The count of the batch is the number of packets that left the calendar, the first entries of
the batch are these packets, and no entry beyond the batch was written. -/
structure FlowBundler.DequeueResult.Reports (fb : FlowBundler) (held : List Placed)
    (r : DequeueResult) : Prop where
  cnt_eq : r.cnt = r.taken.length
  total : r.fb.nPacketsTotal + r.cnt = fb.nPacketsTotal
  entries : r.batch.take r.cnt = (World.takenFrom held r.taken).map Placed.packet
  inside : r.batch.length ≤ kMaxBurst

/-- The calendar is empty, or the first round of the scan that finds packets is due and its quota
fits into a batch. -/
def FlowBundler.CanReport (cfg : Config) (fb : FlowBundler) (now : ℕ) : Prop :=
  fb.nPacketsTotal = 0 ∨ ∃ i, fb.FirstDue cfg now i ∧
    min cfg.dequeueBurst (fb.bucket (fb.lookedUp cfg i)).nodeNum ≤ kMaxBurst

/-- A call that takes the front of a bucket reports it when it fits into a batch. -/
lemma reports_front_iff {r : DequeueResult} {loc : Location} (hr : Repr n fb held)
    (hr' : Repr n r.fb (without Placed.node held r.taken))
    (hcnt : r.cnt = (Repr.front cfg held loc).length)
    (htaken : r.taken = (Repr.front cfg held loc).map Placed.node)
    (hbatch : r.batch = (Repr.front cfg held loc).map Placed.packet) :
    r.Reports fb held ↔ min cfg.dequeueBurst (fb.bucket loc).nodeNum ≤ kMaxBurst := by
  have hlen : r.batch.length = min cfg.dequeueBurst (fb.bucket loc).nodeNum := by
    rw [hbatch, List.length_map, Repr.length_front, hr.buckets.node_num]
  constructor
  · intro h
    have := h.inside
    rwa [hlen] at this
  · intro hfits
    refine ⟨?_, ?_, ?_, by rwa [hlen]⟩
    · rw [hcnt, htaken, List.length_map]
    · have hperm : held.Perm (Repr.front cfg held loc ++ without Placed.node held r.taken) := by
        rw [htaken]
        exact hr.perm_front loc
      have hsplit := hperm.length_eq
      rw [List.length_append] at hsplit
      rw [hr.tally.total_eq, hr'.tally.total_eq, hcnt]
      omega
    · rw [htaken, takenFrom_front hr, hbatch, hcnt, ← List.length_map Placed.packet,
        List.take_length]

/-- **The report is right**, whatever `dequeue_num` held before, exactly when the calendar is
empty, or the first round of the scan that finds packets is due and its quota fits into a
batch. -/
theorem dequeue_reports_iff (hcfg : cfg.ShiftsOk) (hgran : cfg.minGranScale ≤ 62)
    (hw : Reach cfg World.Admits w) (hnow : now < 2 ^ 62) :
    (∀ garbage, ∃ r, w.fb.dequeue cfg now garbage = some r ∧ r.Reports w.fb w.held) ↔
      w.fb.CanReport cfg now := by
  have hr := (reach_inv hw).repr
  by_cases hne : w.held = []
  · have htotal : w.fb.nPacketsTotal = 0 := by rw [hr.tally.total_eq, hne, List.length_nil]
    refine iff_of_true (fun garbage => ?_) (.inl htotal)
    refine ⟨_, by rw [dequeue, if_pos htotal], ⟨rfl, ?_, rfl, Nat.zero_le _⟩⟩
    exact Nat.add_zero _
  have hscan := dequeue_scan hr hne (World.scanGran_le hcfg hgran hw hne) hnow
  have htotal : w.fb.nPacketsTotal ≠ 0 := by
    rw [hr.tally.total_eq]
    exact fun hz => hne (List.length_eq_zero_iff.mp hz)
  constructor
  · intro hall
    obtain ⟨r, hrun, hreports⟩ := hall 1
    obtain ⟨r', hrun', hcase⟩ := hscan 1
    obtain rfl : r = r' := by simpa [hrun] using hrun'
    rcases hcase with ⟨i, hfirst, hcnt, htaken, hbatch, hr'⟩ | ⟨-, hcnt, htaken, -, -⟩
    · exact .inr ⟨i, hfirst, (reports_front_iff hr hr' hcnt htaken hbatch).mp hreports⟩
    · have := hreports.cnt_eq
      rw [hcnt, htaken] at this
      exact absurd this (by decide)
  · rintro (hz | ⟨i, hfirst, hfits⟩) garbage
    · exact absurd hz htotal
    · obtain ⟨r, hrun, hcase⟩ := hscan garbage
      rcases hcase with ⟨j, hfirst', hcnt, htaken, hbatch, hr'⟩ | ⟨hnone, -⟩
      · obtain rfl := hfirst.unique hfirst'
        exact ⟨r, hrun, (reports_front_iff hr hr' hcnt htaken hbatch).mpr hfits⟩
      · exact absurd hfirst (hnone i)

/-- A packet due at `512`: the call at `600` reports it, whatever `dequeue_num` held. -/
theorem dequeue_reports_iff_run :
    ∃ w, Reach sampleConfig World.Admits w ∧ w.held.length = 1 ∧
      ∀ garbage, ∃ r, w.fb.dequeue sampleConfig 600 garbage = some r ∧
        r.Reports w.fb w.held := by
  obtain ⟨w, hw, hheld, hdue, hocc, hfits⟩ := exists_reach sampleConfig 100000000 World.Admits
    [.enqueue 0 (packetOf 1 100) 20000000 0]
    (fun w => w.held.length = 1 ∧ w.fb.scanStart + 0 * w.fb.scanGran sampleConfig ≤ 600 ∧
      w.fb.occupied (w.fb.lookedUp sampleConfig 0) = true ∧
      min sampleConfig.dequeueBurst (w.fb.bucket (w.fb.lookedUp sampleConfig 0)).nodeNum
        ≤ kMaxBurst) (by decide +kernel)
  have hfirst : w.fb.FirstDue sampleConfig 600 0 :=
    ⟨hdue, hocc, fun j hj => absurd hj (Nat.not_lt_zero j)⟩
  exact ⟨w, hw, hheld, (dequeue_reports_iff sampleConfig_shiftsOk (by decide) hw
    (by norm_num)).mpr (.inr ⟨0, hfirst, hfits⟩)⟩

/-- A packet due at `512`: the call at `50` meets no due bucket and reports the `77` packets that
`dequeue_num` happened to hold. -/
theorem dequeue_reports_garbage :
    ¬ ∀ (cfg : Config) (w : World) (now garbage : ℕ), cfg.ShiftsOk →
      Reach cfg (fun w op => w.Admits op ∧ w.Ticks op) w → w.Admits (.dequeue now garbage) →
      w.Ticks (.dequeue now garbage) →
      ∀ r, w.fb.dequeue cfg now garbage = some r → r.Reports w.fb w.held := by
  intro hall
  obtain ⟨w, hw, htick, hcnt⟩ := exists_reach sampleConfig 100000000
    (fun w op => w.Admits op ∧ w.Ticks op) [.enqueue 0 (packetOf 1 100) 20000000 0]
    (fun w => w.clock ≤ 50 ∧ (w.fb.dequeue sampleConfig 50 77).any
      (fun r => r.cnt = 77 ∧ r.taken = []) = true) (by decide +kernel)
  obtain ⟨r, hrun, hany⟩ := (Option.any_eq_true _ _).mp hcnt
  obtain ⟨hgarbage, hnone⟩ := of_decide_eq_true hany
  have hreports := hall sampleConfig w 50 77 sampleConfig_shiftsOk hw (show 50 < 2 ^ 62 by norm_num)
    htick r hrun
  have := hreports.cnt_eq
  rw [hgarbage, hnone] at this
  exact absurd this (by decide)

end Bess
