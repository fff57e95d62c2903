import FlowBundler.Bess.Eiffel.Marked
import FlowBundler.Bess.Eiffel.MapRuns

/-!
The horizon of Eiffel: `granularity * slots`, kept in 32 bits.

* `Based cfg e`: the buffer queue starts one kept horizon after the main queue, in 64 bits.
* `Clocked`, `Reach.based`: every state reached with readings of a 64-bit clock is based.
* `Honours cfg e`: every send time below the main queue's start and twice the configured horizon
  gets a bucket below `slots`.
* `honours_of_fits`, `not_honours_of_wide`, `not_honours_of_late`: the two ways a module loses
  send times; `honours_iff`: there is no other.

Every reset and every rotation leaves the two base times one kept horizon apart, modulo `2^64`, so
that the question is one of arithmetic on the main queue's base time alone.  A module whose
configured horizon is truncated loses the send time at the end of the kept horizons, which is still
before the end of the configured ones; one whose horizons reach beyond the clock loses the last send
time, as the sum of base time and horizon wraps.  Otherwise nothing wraps, and the two queues cover
the send times up to the end of the horizons.
-/

namespace Bess

namespace Eiffel

variable {cfg : SlotConfig} {e : Eiffel}

/-! ### The base times -/

/-- The base times are 64-bit numbers, one kept horizon apart. -/
structure Based (cfg : SlotConfig) (e : Eiffel) : Prop where
  main_lt : e.mainTs < 2 ^ 64
  base : e.bufferTs = (e.mainTs + horizon cfg) % 2 ^ 64

namespace Based

lemma congr {e' : Eiffel} (h : Based cfg e) (hts : e'.tsOf = e.tsOf) : Based cfg e' := by
  have hmain : e'.mainTs = e.mainTs := congrFun hts .main
  have hbuffer : e'.bufferTs = e.bufferTs := congrFun hts .buffer
  exact ⟨hmain ▸ h.main_lt, by rw [hmain, hbuffer, h.base]⟩

lemma buffer_lt (h : Based cfg e) : e.bufferTs < 2 ^ 64 := by
  rw [h.base]
  exact Nat.mod_lt _ (by norm_num)

/-- No round of `Enqueue` changes a base time, by induction on the batch. -/
lemma enqueue (batch : List (ℕ × Packet)) : ∀ {e : Eiffel}, Based cfg e →
    Based cfg (e.enqueue cfg batch) := by
  induction batch with
  | nil => exact fun h => h
  | cons p batch ih => exact fun {e} h => ih (h.congr (enqueueOne_outcome cfg e p).ts)

/-- A rotation moves both on by the kept horizon. -/
lemma front (h : Based cfg e) (q : QueueId) : Based cfg (e.front cfg q) := by
  cases q with
  | main => exact h
  | buffer => exact ⟨h.buffer_lt, rfl⟩

lemma dequeue (h : Based cfg e) {now : ℕ} (hnow : now < 2 ^ 64) :
    Based cfg (e.dequeue cfg now).eiffel := by
  cases dequeue_cases cfg e now with
  | reset _ hr =>
      rw [hr]
      exact ⟨hnow, rfl⟩
  | early q i _ _ hr =>
      rw [hr]
      exact h.front q
  | served q i _ _ hr =>
      rw [hr]
      exact ⟨(h.front q).main_lt, (h.front q).base⟩

end Based

/-- The readings that become base times are readings of a 64-bit clock. -/
def Clocked (_ : Eiffel) : Op → Prop
  | .dequeue now => now < 2 ^ 64
  | .runTask env => env.dequeueNow < 2 ^ 64
  | _ => True

instance (e : Eiffel) : (op : Op) → Decidable (e.Clocked op)
  | .enqueue _ => inferInstanceAs (Decidable True)
  | .dequeue now => inferInstanceAs (Decidable (now < 2 ^ 64))
  | .runTask env => inferInstanceAs (Decidable (env.dequeueNow < 2 ^ 64))
  | .setMaxDequeueBurst _ => inferInstanceAs (Decidable True)

/-- The module after `Init`, with any flows, static members and generator. -/
def Starts (cfg : SlotConfig) (e : Eiffel) : Prop :=
  ∃ now pktsNum flowToGen flowInfo pktgen, now < 2 ^ 64 ∧
    init cfg now pktsNum flowToGen flowInfo pktgen = some e

/-- **One operation** keeps the base times one kept horizon apart. -/
lemma Based.step {e' : Eiffel} {op : Op} (h : Based cfg e) (hok : e.Clocked op)
    (hstep : e.step cfg op = some e') : Based cfg e' := by
  cases step_cases cfg hstep with
  | enqueue batch => exact h.enqueue batch
  | dequeue now => exact h.dequeue hok
  | idle env => exact h
  | task env batch _ _ _ hsame _ => exact ((h.enqueue batch).dequeue hok).congr hsame.ts
  | burst arg => exact h.congr (setMaxDequeueBurst_same e arg).ts

/-- Every state. -/
lemma based_of_reach (h : Machine.Reach (step cfg) (Starts cfg) Clocked e) : Based cfg e := by
  refine h.invariant ?_ fun _ _ _ _ hI hok hstep => hI.step hok hstep
  rintro e ⟨now, _, _, _, _, hnow, hinit⟩
  rw [init, Option.map_eq_some_iff] at hinit
  obtain ⟨map, -, rfl⟩ := hinit
  exact ⟨hnow, rfl⟩

/-! ### The configured horizon -/

/-- `DropPacketInsert` takes every packet below the main queue's start and twice the configured
horizon, at a bucket below `slots`. -/
def Honours (cfg : SlotConfig) (e : Eiffel) : Prop :=
  ∀ (packet : Packet) (sendTime flowId : ℕ), sendTime < 2 ^ 64 →
    sendTime < e.mainTs + 2 * (cfg.granularity * cfg.slots) →
    (e.dropPacketInsert cfg packet sendTime flowId).ret = 0 ∧
      ∃ q i, e.target cfg sendTime = some (q, i) ∧ i < cfg.slots

/-- With room in the pool a packet that gets a bucket is taken. -/
lemma ret_of_target {packet : Packet} {sendTime flowId i : ℕ} {q : QueueId}
    (hroom : e.store.freeNum ≠ 0) (ht : e.target cfg sendTime = some (q, i)) :
    (e.dropPacketInsert cfg packet sendTime flowId).ret = 0 := by
  cases dropPacketInsert_outcome cfg e packet sendTime flowId with
  | refused hnone _ _ => exact absurd (hnone.symm.trans ht) (by simp)
  | exhausted _ _ _ _ hempty _ _ _ => exact absurd hempty hroom
  | stored _ _ _ hret _ _ _ _ _ => exact hret

/-- A packet without a bucket is refused. -/
lemma not_honours_of_target {sendTime : ℕ} (hlt : sendTime < 2 ^ 64)
    (hbelow : sendTime < e.mainTs + 2 * (cfg.granularity * cfg.slots))
    (ht : e.target cfg sendTime = none) : ¬ Honours cfg e := by
  intro h
  obtain ⟨-, q, i, htarget, -⟩ := h { ptr := 0, totalLen := 0, src := 0, dst := 0 } sendTime 0 hlt
    hbelow
  rw [ht] at htarget
  exact absurd htarget (by simp)

/-- The last send time of all never gets a bucket. -/
lemma target_last (h : Based cfg e) : e.target cfg (2 ^ 64 - 1) = none := by
  have hbuffer := h.buffer_lt
  have hfar := Nat.mod_lt (e.mainTs + horizon cfg + horizon cfg) (show 0 < 2 ^ 64 by norm_num)
  rw [target, if_neg (by omega), if_pos (by omega)]

/-- A module whose horizon reaches the end of the clock loses the last send time. -/
lemma not_honours_of_late (h : Based cfg e)
    (hlate : 2 ^ 64 ≤ e.mainTs + 2 * (cfg.granularity * cfg.slots)) : ¬ Honours cfg e :=
  not_honours_of_target (by norm_num) (by omega) (target_last h)

/-- A module whose horizon is truncated loses the send time at the end of the kept horizons. -/
lemma not_honours_of_wide (h : Based cfg e) (hwide : 2 ^ 32 ≤ cfg.granularity * cfg.slots)
    (hfits : e.mainTs + 2 * (cfg.granularity * cfg.slots) < 2 ^ 64) : ¬ Honours cfg e := by
  have hkept : horizon cfg < 2 ^ 32 := Nat.mod_lt _ (by norm_num)
  have hbase := h.base
  rw [Nat.mod_eq_of_lt (by omega)] at hbase
  have htarget : e.target cfg (e.mainTs + horizon cfg + horizon cfg) = none := by
    rw [target, if_neg (by omega), if_pos (Nat.mod_le _ _)]
  exact not_honours_of_target (by omega) (by omega) htarget

/-- The remaining modules find a bucket for every send time. -/
lemma target_of_fits (h : Based cfg e) (hkept : cfg.granularity * cfg.slots < 2 ^ 32)
    (hfits : e.mainTs + 2 * (cfg.granularity * cfg.slots) < 2 ^ 64) {sendTime : ℕ}
    (hbelow : sendTime < e.mainTs + 2 * (cfg.granularity * cfg.slots)) :
    ∃ q i, e.target cfg sendTime = some (q, i) ∧ i < cfg.slots := by
  have hpos := Nat.mul_pos cfg.granularity_pos cfg.slots_pos
  have hhorizon : horizon cfg = cfg.granularity * cfg.slots := Nat.mod_eq_of_lt hkept
  have hbase := h.base
  rw [hhorizon, Nat.mod_eq_of_lt (by omega)] at hbase
  rw [target, hhorizon]
  by_cases hmain : sendTime < e.bufferTs
  · rw [if_pos hmain]
    by_cases hlate : sendTime < e.mainTs
    · rw [if_pos hlate]
      exact ⟨.main, 0, rfl, cfg.slots_pos⟩
    · rw [if_neg hlate]
      exact ⟨.main, _, rfl, Nat.div_lt_of_lt_mul (by omega)⟩
  · have hend : (e.mainTs + cfg.granularity * cfg.slots + cfg.granularity * cfg.slots) % 2 ^ 64
        = e.mainTs + cfg.granularity * cfg.slots + cfg.granularity * cfg.slots :=
      Nat.mod_eq_of_lt (by omega)
    rw [if_neg hmain, hend, if_neg (by omega)]
    exact ⟨.buffer, _, rfl, Nat.div_lt_of_lt_mul (by omega)⟩

/-- A based module with room in its pool. -/
lemma honours_iff_of_based (h : Based cfg e) (hroom : e.store.freeNum ≠ 0) :
    Honours cfg e ↔ cfg.granularity * cfg.slots < 2 ^ 32 ∧
      e.mainTs + 2 * (cfg.granularity * cfg.slots) < 2 ^ 64 := by
  constructor
  · intro hhonours
    have hfits : e.mainTs + 2 * (cfg.granularity * cfg.slots) < 2 ^ 64 := by
      by_contra hlate
      exact not_honours_of_late h (not_lt.mp hlate) hhonours
    refine ⟨?_, hfits⟩
    by_contra hwide
    exact not_honours_of_wide h (not_lt.mp hwide) hfits hhonours
  · rintro ⟨hkept, hfits⟩ packet sendTime flowId - hbelow
    obtain ⟨q, i, htarget, hi⟩ := target_of_fits h hkept hfits hbelow
    exact ⟨ret_of_target hroom htarget, q, i, htarget, hi⟩

/-- **The configured horizon** is honoured in a state with room in the pool exactly when it fits
in 32 bits and its end is a time of the clock. -/
theorem honours_iff (h : Machine.Reach (step cfg) (Starts cfg) Clocked e)
    (hroom : e.store.freeNum ≠ 0) :
    Honours cfg e ↔ cfg.granularity * cfg.slots < 2 ^ 32 ∧
      e.mainTs + 2 * (cfg.granularity * cfg.slots) < 2 ^ 64 :=
  honours_iff_of_based (based_of_reach h) hroom

/-- Eighty nanoseconds are honoured from the start of the clock on. -/
theorem honours_iff_run : Honours smallSlots (startAt 1) := by
  have hreach : Machine.Reach (step smallSlots) (Starts smallSlots) Clocked (startAt 1) :=
    .start ⟨0, _, _, _, _, by norm_num, (Option.some_get _).symm⟩
  exact (honours_iff hreach (by decide)).mpr (by decide)

/-! ### Two ten-second queues -/

/-- The granularity and the slots of the test of many flows are accepted by `Init`. -/
lemma multiFlow_accepted : (0 < 300 ∧ 300 < 2 ^ 32) ∧ 0 < 33333333 ∧ 33333333 < 2 ^ 64 := by
  norm_num

/-- The slots that the test of many flows configures. -/
def multiFlowSlots : SlotConfig :=
  { granularity := 300, slots := 33333333, mempoolSize := 100000, maxBytesPerFlow := 3000
    granularity_pos := multiFlow_accepted.1.1, granularity_lt := multiFlow_accepted.1.2
    slots_pos := multiFlow_accepted.2.1, slots_lt := multiFlow_accepted.2.2 }

/-- The module of that test at clock `0`. -/
lemma exists_multiFlow : ∃ e, Starts multiFlowSlots e ∧ e.mainTs = 0 ∧ e.store.freeNum ≠ 0 := by
  have hslots : multiFlowSlots.slots ≤ 2 ^ 60 := by
    change 33333333 ≤ 2 ^ 60
    norm_num
  obtain ⟨map, hmap⟩ := BitMap.new_returns hslots
  obtain ⟨e, hinit⟩ : ∃ e, init multiFlowSlots 0 (fun _ => 0) noTokens
      (fun _ => { lastStamp := 0, rate := 1 }) blankGenerator = some e := by
    rw [init, hmap]
    exact ⟨_, rfl⟩
  have hstate := hinit
  rw [init, hmap, Option.map_some, Option.some.injEq] at hstate
  refine ⟨e, ⟨0, _, _, _, _, by norm_num, hinit⟩, hstate ▸ rfl, ?_⟩
  rw [← hstate]
  change 100000 ≠ 0
  norm_num

/-- It loses send times from its first state on. -/
theorem not_honours_multiFlow : ∃ e, Machine.Reach (step multiFlowSlots) (Starts multiFlowSlots)
    Clocked e ∧ e.store.freeNum ≠ 0 ∧ ¬ Honours multiFlowSlots e := by
  obtain ⟨e, hstarts, hmain, hroom⟩ := exists_multiFlow
  have hreach : Machine.Reach (step multiFlowSlots) (Starts multiFlowSlots) Clocked e :=
    .start hstarts
  refine ⟨e, hreach, hroom, not_honours_of_wide (based_of_reach hreach) ?_ ?_⟩
  · change 2 ^ 32 ≤ 300 * 33333333
    norm_num
  · rw [hmain]
    change 0 + 2 * (300 * 33333333) < 2 ^ 64
    norm_num

end Eiffel

end Bess
