import FlowBundler.Kernel.Carousel.Wheel

/-!
The buckets of `sch_carousel.c` and the times that `gq_push` clamps to.

* `NoAlias`: times of different granules between the head and one horizon later have different
  buckets.
* `Headed P gq`: the shape of the wheel, and the range of its head; kept by every callback.  A
  search moves the head by granules, and stops before it is a granule beyond the clock, so that
  neither the head nor the times up to one horizon later wrap around.
* `World.reach_headed`: in every run, resets included, and whatever the buckets hold.
* `Headed.noAlias_iff`: the granules of one horizon are counted by the quotient, plus one if the
  remainders of the head and of the horizon add up to another granule; the wheel has one bucket
  more than the quotient.
* `no_alias_iff`: when a wheel of a run has no aliases; `no_alias_forall_iff`: all of them have none
  exactly when the granularity divides the horizon.  When it does not, a wheel that starts just
  before the end of a granule has one.
-/

namespace Carousel

open Gq

variable {P : Params} {gq gq' : GradientQueue} {now : ℕ}

/-- Times of different granules, within a horizon of the head, have different buckets. -/
def NoAlias (gq : GradientQueue) : Prop :=
  ∀ t t', gq.headTs ≤ t → t ≤ gq.headTs + gq.horizon → gq.headTs ≤ t' →
    t' ≤ gq.headTs + gq.horizon → t / gq.grnlrty ≠ t' / gq.grnlrty →
      timeToIndex gq t ≠ timeToIndex gq t'

/-- The shape of a wheel, and the range of its head and of the times it takes. -/
structure Headed (P : Params) (gq : GradientQueue) : Prop where
  shaped : Shaped P gq
  head_lt : gq.headTs < 2 ^ 63 + P.granularity
  max_eq : gq.maxTs = gq.headTs + P.horizonNs

namespace Headed

/-- A wheel turned to another head. -/
lemma turn (h : Headed P gq) {t : ℕ} (ht : t < 2 ^ 63 + P.granularity) : Headed P (gq.turn t) := by
  have hH := horizonNs_lt P
  have hg := P.granularity_lt
  refine ⟨⟨h.shaped.gran_pos, h.shaped.grnlrty, h.shaped.horizon, h.shaped.buckets⟩, ht, ?_⟩
  rw [GradientQueue.turn]
  dsimp only
  rw [h.shaped.horizon, Nat.mod_eq_of_lt (by omega)]

/-- An empty wheel restarted at the clock. -/
lemma restart (h : Headed P gq) (hnow : now < 2 ^ 63) : Headed P (restart gq now) := by
  obtain ⟨hshaped, hlt, hmax⟩ := h.turn (t := now) (by omega)
  exact ⟨⟨hshaped.gran_pos, hshaped.grnlrty, hshaped.horizon, hshaped.buckets⟩, hlt, hmax⟩

/-- A wheel with other contents. -/
lemma congr (h : Headed P gq) (n : ℕ) (buckets : ℕ → GqBucket) :
    Headed P { gq with numOfElements := n, mainBuckets := buckets } :=
  ⟨⟨h.shaped.gran_pos, h.shaped.grnlrty, h.shaped.horizon, h.shaped.buckets⟩, h.head_lt, h.max_eq⟩

/-- **A search** moves the head by granules, past the clock by less than one. -/
lemma getMinIndex {index : ℕ} (h : Headed P gq) (hnow : now < 2 ^ 63)
    (hrun : getMinIndex gq now = some (gq', index)) : Headed P gq' := by
  obtain ⟨t, hseek, heq⟩ := Option.map_eq_some_iff.mp hrun
  obtain ⟨rfl, -⟩ := Prod.mk.inj heq
  refine h.turn (Loop.seek_lt ?_ h.head_lt hseek)
  rw [h.shaped.grnlrty]
  omega

/-- **A dequeue** keeps the range of the head. -/
lemma dequeue {sch : Qdisc} {r : DequeueResult} (h : Headed P sch.gq) (hnow : now < 2 ^ 63)
    (hrun : gqDequeue sch now = some r) : Headed P r.sch.gq := by
  obtain ⟨⟨gq', out⟩, hext, rfl⟩ := Option.map_eq_some_iff.mp hrun
  have hgq : Headed P gq' := by
    rw [gqExtract] at hext
    split at hext
    · obtain ⟨rfl, -⟩ := Prod.mk.inj (Option.some.inj hext)
      exact h.restart hnow
    · obtain ⟨⟨gq₁, index⟩, hmin, hext⟩ := Option.map_eq_some_iff.mp hext
      have h₁ := h.getMinIndex hnow hmin
      dsimp only at hext
      split at hext
      · obtain ⟨rfl, -⟩ := Prod.mk.inj hext
        exact h₁
      · obtain ⟨rfl, -⟩ := Prod.mk.inj hext
        exact h₁.congr _ _
  cases out with
  | none => exact hgq
  | some skb => exact hgq

/-- Pushes leave the head. -/
lemma pushes {limit : ℕ} {ps : List Pushed} (hps : Pushes limit gq ps gq') (h : Headed P gq) :
    Headed P gq' := by
  induction hps with
  | nil gq => exact h
  | cons skb hroom hrest ih => exact ih (h.congr _ _)

/-- **An enqueue** pushes behind the head. -/
lemma enqueue {sch : Qdisc} (h : Headed P sch.gq) (hnow : now < 2 ^ 63) (skb : SkBuff)
    (segs : List SkBuff) : Headed P (gqEnqueue P sch now skb segs).sch.gq := by
  have hopened : Headed P (opened sch.gq now) := by
    rw [opened]
    split
    · exact h.restart hnow
    · exact h
  exact hopened.pushes (enqueue_pushes P sch now skb segs).1

end Headed

/-! ### Runs -/

/-- Calls with readings of `ktime_get_ns`, in any order of time. -/
def World.Clocked (_ : World) : Op → Prop
  | .enqueue now _ _ => now < 2 ^ 63
  | .dequeue now => now < 2 ^ 63
  | .reset => True

instance (w : World) : (op : Op) → Decidable (w.Clocked op)
  | .enqueue _ _ _ => inferInstanceAs (Decidable (_ < _))
  | .dequeue _ => inferInstanceAs (Decidable (_ < _))
  | .reset => inferInstanceAs (Decidable True)

/-- The wheel of `gq_init`. -/
lemma Headed.initial (hg : 0 < P.granularity) (hnow : now < 2 ^ 63) (memory : ℕ → GqBucket) :
    Headed P (initQdisc P now memory).gq where
  shaped := ⟨hg, rfl, rfl, rfl⟩
  head_lt := Nat.lt_add_right _ hnow
  max_eq := by
    have hH := horizonNs_lt P
    rw [initQdisc]
    exact Nat.mod_eq_of_lt (by omega)

/-- **In every run** the head is at most a granule beyond the clock. -/
lemma World.reach_headed {w : World} (hw : Reach P World.Clocked w) : Headed P w.sch.gq := by
  refine hw.invariant (I := fun w => Headed P w.sch.gq) (fun w hinit => ?_)
    fun w w' op _ ih hok hstep => ?_
  · obtain ⟨now, memory, sch, hnow, hrun, rfl⟩ := hinit
    obtain ⟨hg, rfl⟩ := gqInit_eq_some_iff.mp hrun
    exact Headed.initial hg hnow memory
  · cases op with
    | enqueue now skb segs =>
        rw [← Option.some.inj hstep]
        exact ih.enqueue hok skb segs
    | dequeue now =>
        obtain ⟨r, hrun, rfl⟩ := Option.map_eq_some_iff.mp hstep
        exact ih.dequeue hok hrun
    | reset =>
        rw [← Option.some.inj hstep]
        exact ih.congr _ _

/-- **The aliases** of a wheel, by the remainders of its head and of its horizon. -/
lemma Headed.noAlias_iff (h : Headed P gq) :
    NoAlias gq ↔ gq.headTs % P.granularity + P.horizonNs % P.granularity < P.granularity := by
  rw [← Wheel.slots_distinct_iff h.shaped.gran_pos, NoAlias, h.shaped.horizon]
  simp only [timeToIndex, h.shaped.grnlrty, h.shaped.buckets]

/-- **A wheel of a run** takes the times of one horizon, and keeps their slots apart exactly when
the remainders of head and horizon do not add up to another slot. -/
theorem no_alias_iff {w : World} (hw : Reach P World.Clocked w) :
    w.sch.gq.maxTs = w.sch.gq.headTs + w.sch.gq.horizon ∧ w.sch.gq.maxTs < 2 ^ 64 ∧
      (NoAlias w.sch.gq ↔
        w.sch.gq.headTs % P.granularity + P.horizonNs % P.granularity < P.granularity) := by
  have hheaded := World.reach_headed hw
  have hH := horizonNs_lt P
  have hg := P.granularity_lt
  have hlt := hheaded.head_lt
  have hmax := hheaded.max_eq
  refine ⟨?_, by omega, hheaded.noAlias_iff⟩
  rw [hmax, hheaded.shaped.horizon]

/-- A granularity of `400` milliseconds and a horizon of one second: three buckets. -/
def threeBuckets : Params :=
  { gsoSplit := false, granularity := 400000000, horizon := 1
    granularity_lt := by norm_num, horizon_lt := second_horizon_lt }

/-- Three buckets with the head in the first half of a granule. -/
theorem no_alias_iff_run :
    ∃ w, Reach threeBuckets World.Clocked w ∧ w.held.length = 1 ∧
      w.sch.gq.headTs = 150000000 ∧ NoAlias w.sch.gq := by
  obtain ⟨w, hw, hheld, hhead⟩ := exists_reach threeBuckets World.Clocked
    [.enqueue 150000000 (packetAt 1 400000000) []]
    (fun w => w.held.length = 1 ∧ w.sch.gq.headTs = 150000000) (by decide +kernel)
  have hiff := (no_alias_iff hw).2.2
  rw [hhead] at hiff
  exact ⟨w, hw, hheld, hhead, hiff.mpr (by decide)⟩

/-- **No wheel** of any run has aliases exactly when the granularity divides the horizon. -/
theorem no_alias_forall_iff (hg : 0 < P.granularity) :
    (∀ w, Reach P World.Clocked w → NoAlias w.sch.gq) ↔ P.granularity ∣ P.horizonNs := by
  have hlt := P.granularity_lt
  constructor
  · intro hall
    by_contra hdvd
    -- a wheel that starts just before the end of a granule
    have hnow : P.granularity - 1 < 2 ^ 63 := by omega
    have hw : Reach P World.Clocked
        (World.start (initQdisc P (P.granularity - 1) fun _ => .empty) (P.granularity - 1)) :=
      .start ⟨_, _, _, hnow, gqInit_eq_some_iff.mpr ⟨hg, rfl⟩, rfl⟩
    have hfit := (Headed.initial hg hnow fun _ => .empty).noAlias_iff.mp (hall _ hw)
    have hhead : (initQdisc P (P.granularity - 1) fun _ => .empty).gq.headTs
        = P.granularity - 1 := rfl
    rw [hhead, Nat.mod_eq_of_lt (by omega)] at hfit
    exact hdvd (Nat.dvd_of_mod_eq_zero (by omega))
  · intro hdvd w hw
    refine (World.reach_headed hw).noAlias_iff.mpr ?_
    rw [Nat.mod_eq_zero_of_dvd hdvd]
    exact Nat.mod_lt _ hg

/-- **The first and the last time** of the wheel have one bucket when the head is in the second
half of a granule. -/
theorem slots_alias :
    ¬ ∀ (P : Params) (w : World), 1 ≤ P.granularity → Reach P World.Clocked w →
      ∀ t t', w.sch.gq.headTs ≤ t → t ≤ w.sch.gq.headTs + w.sch.gq.horizon →
        w.sch.gq.headTs ≤ t' → t' ≤ w.sch.gq.headTs + w.sch.gq.horizon →
          t / w.sch.gq.grnlrty ≠ t' / w.sch.gq.grnlrty →
            timeToIndex w.sch.gq t ≠ timeToIndex w.sch.gq t' := by
  intro hall
  obtain ⟨w, hw, hhead, hhorizon, hgran, halias⟩ := exists_reach threeBuckets World.Clocked
    [.enqueue 250000000 (packetAt 1 250000000) []]
    (fun w => w.sch.gq.headTs = 250000000 ∧ w.sch.gq.horizon = 1000000000 ∧
      w.sch.gq.grnlrty = 400000000 ∧
      timeToIndex w.sch.gq 250000000 = timeToIndex w.sch.gq 1250000000) (by decide +kernel)
  have hne := hall threeBuckets w (by decide) hw 250000000 1250000000
  rw [hhead, hhorizon, hgran] at hne
  exact hne (by norm_num) (by norm_num) (by norm_num) (by norm_num) (by norm_num) halias

end Carousel
