import FlowBundler.Kernel.Eiffel.Reset

/-!
The bucket indices that `gq_push` of `sch_eiffel.c` computes.

* `QueueReach.timed`: in every sequence of operations the three start times are a horizon apart.
  A rotation moves all of them on, and none of them comes near the end of the 64-bit range.
* `GradientQueue.Beyond`: a time behind the last bucket of an array, but within its horizon.  There
  are such times only when the granularity does not divide the horizon.
* `pushPlace_lt_iff`: the index of any other time is in range, and only of these, by the four cases
  of `gq_push`.
* `Qdisc.opened`, `pushAll`: the queue that a `gq_push` of an enqueue finds; as the pushes before it
  are operations too, it is reached by operations (`reach_pushAll`).
* `push_index_lt_iff`: in every run; `push_index_lt_forall_iff`: all indices are in range exactly
  when the granularity divides the horizon.
-/

namespace Eiffel

open Gq

variable {P : Params} {gq gq' : GradientQueue} {ts now : ℕ}

/-! ### Start times -/

/-- **Every operation** keeps the start times a horizon apart. -/
lemma Timed.step {op : QueueOp} (hshaped : Shaped P gq) (h : Timed P gq gq.mainTs)
    (hop : op.Clocked) (hstep : queueStep gq op = some gq') : Timed P gq' gq'.mainTs := by
  have hH := horizonNs_lt P
  cases queueStep_cases hstep with
  | pushMain | pushBuffer | wait | popMain | popBuffer | stay =>
      exact ⟨rfl, h.buffer_eq, h.max_eq, h.lt⟩
  | idle | restart => exact Timed.restart hshaped.horizon hop
  | turn now hturn =>
      -- a rotation is not before the start of the second array
      have ht : gq.bufferTs < 2 ^ 63 := hturn.1.trans hop
      refine ⟨rfl, ?_, ?_, ht⟩
      · dsimp only
        rw [hshaped.horizon, Nat.mod_eq_of_lt (by omega)]
      · dsimp only
        rw [hshaped.horizon, Nat.mod_eq_of_lt (by omega), Nat.mod_eq_of_lt (by omega)]
        ring

/-- **In every sequence** of operations. -/
lemma QueueReach.timed (h : QueueReach P gq) :
    0 < P.granularity ∧ Shaped P gq ∧ Timed P gq gq.mainTs := by
  refine h.invariant (I := fun gq => 0 < P.granularity ∧ Shaped P gq ∧ Timed P gq gq.mainTs)
    (fun gq hinit => ?_) fun gq gq' op _ ih hop hstep => ?_
  · obtain ⟨now, lastExpires, memory, memory', sch, hnow, hrun, rfl⟩ := hinit
    obtain ⟨hgran, rfl⟩ := gqInit_eq_some_iff.mp hrun
    have htimed : Timed P (restart (initQdisc P now lastExpires memory memory').gq now) now :=
      Timed.restart rfl hnow
    exact ⟨hgran, ⟨rfl, rfl, rfl, rfl, rfl, rfl⟩, rfl, htimed.buffer_eq, htimed.max_eq, htimed.lt⟩
  · obtain ⟨hgran, hshaped, htimed⟩ := ih
    exact ⟨hgran, hshaped.step hstep, htimed.step hshaped hop hstep⟩

/-! ### The index -/

/-- The time is behind the last bucket of an array, but within the horizon of the array. -/
def GradientQueue.Beyond (gq : GradientQueue) (ts : ℕ) : Prop :=
  gq.mainTs + gq.numOfBuckets * gq.grnlrty ≤ ts ∧ ts < gq.bufferTs ∨
    gq.bufferTs + gq.numOfBuckets * gq.grnlrty ≤ ts ∧ ts < gq.maxTs

/-- **The index** of a time, by the four cases of `gq_push`. -/
lemma pushPlace_lt_iff (hnb : 0 < numBuckets P) (hg : 0 < P.granularity) (hshaped : Shaped P gq)
    (htimed : Timed P gq gq.mainTs) (ts : ℕ) :
    (pushPlace gq ts).2.1 < gq.numOfBuckets ↔ ¬ gq.Beyond ts := by
  have hH := horizonNs_lt P
  have hfloor : numBuckets P * P.granularity ≤ P.horizonNs := Nat.div_mul_le_self _ _
  have hpos : 0 < numBuckets P * P.granularity := Nat.mul_pos hnb hg
  have hfew := numBuckets_lt P
  obtain ⟨-, hbuffer, hmax, hlt⟩ := htimed
  rw [GradientQueue.Beyond, pushPlace, hshaped.grnlrty, hshaped.numOfBuckets]
  by_cases hmain : ts < gq.bufferTs
  · rw [if_pos hmain]
    by_cases hearly : ts ≤ gq.mainTs
    · rw [if_pos hearly]
      exact iff_of_true hnb (by omega)
    · rw [if_neg hearly]
      dsimp only
      rw [Nat.div_lt_iff_lt_mul hg]
      omega
  · rw [if_neg hmain]
    by_cases hlate : ts ≥ gq.maxTs
    · have hlast : (gq.maxTs + 2 ^ 64 - gq.bufferTs) % 2 ^ 64 = P.horizonNs := by omega
      rw [if_pos hlate, hlast, ← numBuckets]
      exact iff_of_true (by dsimp only; omega) (by omega)
    · rw [if_neg hlate]
      dsimp only
      rw [Nat.div_lt_iff_lt_mul hg]
      omega

/-! ### Runs -/

/-- The queue with which an enqueue begins. -/
def Qdisc.opened (sch : Qdisc) (now : ℕ) : GradientQueue :=
  if sch.gq.numOfElements = 0 then restart sch.gq now else sch.gq

/-- The queue after the pushes of an enqueue so far. -/
def pushAll (gq : GradientQueue) (skbs : List SkBuff) : Option GradientQueue :=
  Machine.exec queueStep gq (skbs.map .push)

/-- **The queue of a `gq_push`** is reached by the operations. -/
lemma reach_pushAll {w : World} {skbs : List SkBuff} (hw : Reach P World.Admits w)
    (hnow : now < 2 ^ 63) (hrun : pushAll (w.sch.opened now) skbs = some gq) : QueueReach P gq := by
  have hopened : QueueReach P (w.sch.opened now) := by
    have hqueue := World.reach_queueReach hw
    rw [Qdisc.opened]
    split
    · exact hqueue.step (show (QueueOp.restart now).Clocked from hnow) rfl
    · exact hqueue
  refine Machine.exec_keeps (fun gq gq' op hop h hstep => ?_) hopened hrun
  obtain ⟨skb, -, rfl⟩ := List.mem_map.mp hop
  exact h.step (show (QueueOp.push skb).Clocked from trivial) hstep

/-- **The index of a push** is in range exactly when its time is not beyond the last bucket. -/
theorem push_index_lt_iff {w : World} {skbs : List SkBuff} (hnb : 0 < numBuckets P)
    (hw : Reach P World.Admits w) (hnow : now < 2 ^ 63)
    (hrun : pushAll (w.sch.opened now) skbs = some gq) (ts : ℕ) :
    (pushPlace gq ts).2.1 < gq.numOfBuckets ↔ ¬ gq.Beyond ts := by
  obtain ⟨hg, hshaped, htimed⟩ := (reach_pushAll hw hnow hrun).timed
  exact pushPlace_lt_iff hnb hg hshaped htimed ts

/-- The defaults, in the middle of an enqueue into a queue with one packet: the last time before
the horizon is in the last bucket. -/
theorem push_index_lt_iff_run :
    ∃ w gq, Reach defaultParams World.Admits w ∧ w.held.length = 1 ∧
      pushAll (w.sch.opened 10) [packetAt 2 1200] = some gq ∧
      (pushPlace gq 9999999999).2.1 < gq.numOfBuckets := by
  obtain ⟨w, hw, hheld, hsome⟩ := exists_reach defaultParams World.Admits
    [.enqueue 0 (packetAt 1 2500) []]
    (fun w => w.held.length = 1 ∧
      (pushAll (w.sch.opened 10) [packetAt 2 1200]).any (fun gq => gq.mainTs = 0 ∧
        gq.numOfBuckets = 10000000 ∧ gq.grnlrty = 1000 ∧ gq.bufferTs = 10000000000) = true)
    (by decide +kernel)
  cases hrun : pushAll (w.sch.opened 10) [packetAt 2 1200] with
  | none => simp [hrun] at hsome
  | some gq =>
      rw [hrun, Option.any_some, decide_eq_true_eq] at hsome
      obtain ⟨hmain, hnum, hgran, hbuffer⟩ := hsome
      have hiff := push_index_lt_iff (by decide) hw (by norm_num) hrun 9999999999
      refine ⟨w, gq, hw, hheld, hrun, hiff.mpr ?_⟩
      rw [GradientQueue.Beyond, hmain, hnum, hgran, hbuffer]
      omega

/-- **All indices** are in range exactly when the granularity divides the horizon. -/
theorem push_index_lt_forall_iff (hg : 0 < P.granularity) (hnb : 0 < numBuckets P) :
    (∀ w now skbs gq ts, Reach P World.Admits w → now < 2 ^ 63 →
      pushAll (w.sch.opened now) skbs = some gq → (pushPlace gq ts).2.1 < gq.numOfBuckets) ↔
      P.granularity ∣ P.horizonNs := by
  have hfloor : numBuckets P * P.granularity ≤ P.horizonNs := Nat.div_mul_le_self _ _
  constructor
  · intro hall
    by_contra hdvd
    have hne : numBuckets P * P.granularity ≠ P.horizonNs := fun heq =>
      hdvd (Dvd.intro_left _ heq)
    set sch := initQdisc P 0 0 (fun _ => .empty) fun _ => .empty with hsch
    have hw : Reach P World.Admits (World.start sch 0) :=
      .start ⟨0, 0, _, _, _, by norm_num, gqInit_eq_some_iff.mpr ⟨hg, rfl⟩, rfl⟩
    have hrun : pushAll (sch.opened 0) [] = some (sch.opened 0) := rfl
    have hmain : (sch.opened 0).mainTs = 0 := rfl
    obtain ⟨-, hshaped, htimed⟩ := (reach_pushAll hw (by norm_num) hrun).timed
    -- the first time that is beyond the last bucket
    have hlt := hall _ 0 [] _ (numBuckets P * P.granularity) hw (by norm_num) hrun
    refine (pushPlace_lt_iff hnb hg hshaped htimed _).mp hlt (.inl ?_)
    rw [htimed.buffer_eq, hshaped.numOfBuckets, hshaped.grnlrty, hmain]
    omega
  · intro hdvd w now skbs gq ts hw hnow hrun
    obtain ⟨-, hshaped, htimed⟩ := (reach_pushAll hw hnow hrun).timed
    refine (pushPlace_lt_iff hnb hg hshaped htimed ts).mpr ?_
    have hend : numBuckets P * P.granularity = P.horizonNs := Nat.div_mul_cancel hdvd
    rw [GradientQueue.Beyond, hshaped.numOfBuckets, hshaped.grnlrty, hend, htimed.buffer_eq,
      htimed.max_eq]
    omega

/-- A granularity of `300` milliseconds and a horizon of one second: three buckets. -/
def threeBuckets : Params :=
  { gsoSplit := false, granularity := 300000000, horizon := 1
    granularity_lt := by norm_num, horizon_lt := second_horizon_lt }

/-- A packet due `950` milliseconds after the start belongs into a fourth bucket. -/
theorem push_index_beyond :
    ¬ ∀ (P : Params) (w : World) (now : ℕ) (gq : GradientQueue) (ts : ℕ), 1 ≤ P.granularity →
      1 ≤ P.horizon → 0 < numBuckets P → Reach P World.Admits w → now < 2 ^ 63 →
      ts < 2 ^ 64 → pushAll (w.sch.opened now) [] = some gq →
      (pushPlace gq ts).2.1 < gq.numOfBuckets := by
  intro hall
  obtain ⟨w, hw, hbeyond⟩ := exists_reach threeBuckets World.Admits []
    (fun w => ¬ (pushPlace (w.sch.opened 0) 950000000).2.1 < (w.sch.opened 0).numOfBuckets)
    (by decide +kernel)
  exact hbeyond (hall threeBuckets w 0 _ 950000000 (by decide) (by decide) (by decide) hw
    (by norm_num) (by norm_num) rfl)

end Eiffel
