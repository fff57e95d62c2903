import FlowBundler.Kernel.Invariant

/-!
What `dfb_dequeue` returns, over whole runs.

* `Windowed.deadline_eq`: a packet found in the bucket of a deadline has that deadline, if it
  is in the window: two deadlines of one level and one index that are less than a rotation
  apart are equal.  `CalendarOutcome.firstLeast`: since all deadlines are ahead of the scan,
  it then is the first packet of the least deadline.
* `dequeue_serves_least`: as long as no dequeue moves the head time back so far that a
  deadline falls out of the window, the calendar is a stable priority queue on the
  deadlines; `dequeue_passes_least`: a run in which one did.
* `dequeue_paces_within_granule`: if moreover the scan granularity is at most that of
  the packet to serve next, it leaves at most one granule of its own class early: its send
  time is before its deadline, and the scan looks one of its own granules ahead of the clock.
  `dequeue_leaves_granule_early`: a run in which the granularity was recomputed from the
  occupied levels and exceeds that of the packet.
* `watchdog_in_time`: in every run the watchdog is armed before every deadline, and the
  dequeue at that time returns a packet.  A miss leaves the calendar as it was, with the
  head time at the clock, and names an occupied bucket ahead; a later scan that passes it
  cannot miss it.
-/

namespace Dfb

open Ledger Dyadic Wheel

variable {P : Params} {w : World} {now tTime : ℕ}

/-! ### The least deadline first -/

/-- With the window, the packet of a hit has the deadline the scan looked up. -/
lemma Windowed.deadline_eq {c : Stored → Prop} {sch : Qdisc} {held : List Stored} {e : Stored}
    {t : ℕ} (hwin : Windowed c sch.priv held) (ht : Timed sch.priv held) (hc : c e)
    (hlow : floorTo sch.priv.highestRateQid sch.priv.headTime ≤ t)
    (hle : t + 2 ^ sch.priv.highestRateQid ≤ e.deadline)
    (hmem : e ∈ bucketAt held (t + 2 ^ sch.priv.highestRateQid)) :
    e.deadline = t + 2 ^ sch.priv.highestRateQid := by
  obtain ⟨he, hlev, hidx⟩ := of_mem_bucketAt ht hmem
  have hbound := ht.bound e he
  have hpos := Nat.two_pow_pos sch.priv.highestRateQid
  have hrot := hwin.le_add ht he hc hlow
  rw [ht.level_eq he, hlev] at hrot
  exact (eq_of_same_bucket (n := 10) (by omega) (by omega) hlev.symm hidx.symm hle (by omega)).symm

/-- A hit pops a held packet; if that is in the window, it is the first of the packets with
the least deadline, whatever the others are. -/
lemma CalendarOutcome.firstLeast {c : Stored → Prop} {sch : Qdisc} {held : List Stored}
    {r : DequeueResult} {p : ℕ}
    (hout : CalendarOutcome sch held now sch.priv.highestRateQid r)
    (hwin : Windowed c sch.priv held) (ht : Timed sch.priv held) (hp : r.skb = some p) :
    ∃ e ∈ held, e.ptr = p ∧ (c e → FirstLeast Stored.deadline held e ∧
      e.deadline ≤ now + 2 ^ sch.priv.highestRateQid) := by
  cases hout with
  | empty hnil => exact absurd hp (by simp)
  | hit t e rest hdue hlow hahead hbucket =>
      have hmem : e ∈ bucketAt held (t + 2 ^ sch.priv.highestRateQid) :=
        hbucket ▸ List.mem_cons_self
      have he := (of_mem_bucketAt ht hmem).1
      have hle := hahead e he
      refine ⟨e, he, by simpa using hp, fun hc => ?_⟩
      have hD := hwin.deadline_eq ht hc hlow hle hmem
      refine ⟨?_, by omega⟩
      refine firstLeast_of_slot hbucket (fun x hx => hD ▸ hahead x hx) fun x hx hx' => ?_
      rw [place_eq (ht.loc_eq x hx), hx', hD]
  | miss wake hne hpast hdvd hahead hocc hidle => exact absurd hp (by simp)

/-- The dequeue returns, and a packet it returns from the calendar is the first pushed of
those with the least deadline. -/
def World.ServesLeast (P : Params) (w : World) (now tTime : ℕ) : Prop :=
  ∃ r, dfbDequeue P w.sch now tTime = some r ∧
    (w.sch.q = [] → ∀ p, r.skb = some p → ∃ e, e.ptr = p ∧ FirstLeast Stored.deadline w.held e)

/-- **Refinement to a stable priority queue**: along operations that do not rewind, every
dequeue serves the least deadline. -/
theorem dequeue_serves_least
    (hw : Reach P (fun w op => w.Admits op ∧ w.NoRewind op) w)
    (hok : w.Admits (.dequeue now tTime)) : w.ServesLeast P now tTime := by
  obtain ⟨hinv, hwin⟩ := reach_windowed hw
  obtain ⟨r, hrun, hcases⟩ := dequeue_total P tTime hinv.repr hinv.timed hok
  refine ⟨r, hrun, fun hq p hp => ?_⟩
  cases hcases with
  | unpaced p' rest hq' hsame hmem => exact absurd (hq.symm.trans hq') (by simp)
  | calendar hq' r₀ hout hsame hmem hsch hskb hwake =>
      obtain ⟨e, -, he, hserved⟩ := hout.firstLeast hwin hinv.timed (hskb ▸ hp)
      exact ⟨e, he, (hserved trivial).1⟩

/-- Three packets of one rate class, the first due last: the run does not rewind and the
packet due first is served. -/
theorem dequeue_serves_least_run :
    ∃ w, Reach plainParams (fun w op => w.Admits op ∧ w.NoRewind op) w ∧
      w.held.map Stored.ptr = [1, 2, 3] ∧
      (dfbDequeue plainParams w.sch 2048 2048).any (fun r => r.skb = some 2) = true ∧
      w.ServesLeast plainParams 2048 2048 := by
  obtain ⟨w, hw, hheld, hskb⟩ := exists_reach plainParams
    (fun w op => w.Admits op ∧ w.NoRewind op)
    [.enqueue 1 (pacedSkb 1250000000 5000) [], .dequeue 0 0,
      .enqueue 2 (pacedSkb 1250000000 2000) [], .enqueue 3 (pacedSkb 1250000000 2000) []]
    (fun w => w.held.map Stored.ptr = [1, 2, 3] ∧
      (dfbDequeue plainParams w.sch 2048 2048).any (fun r => r.skb = some 2) = true)
    (by decide +kernel)
  exact ⟨w, hw, hheld, hskb, dequeue_serves_least hw (show 2048 < 2 ^ 62 by norm_num)⟩

/-- A run that rewinds: the head time is set by a first packet more than one rotation
ahead, an early dequeue moves it back to the clock, and the packet is then found one
rotation too soon, before one that is due. -/
theorem dequeue_passes_least :
    ¬ ∀ (P : Params) (w : World) (now tTime : ℕ),
      Reach P (fun w op => w.Admits op ∧ w.Ticks op) w → w.Admits (.dequeue now tTime) →
      w.Ticks (.dequeue now tTime) → w.ServesLeast P now tTime := by
  intro hall
  obtain ⟨w, hw, hclock, hq, hrun, hheld⟩ := exists_reach plainParams
    (fun w op => w.Admits op ∧ w.Ticks op)
    [.enqueue 1 (pacedSkb 1250000000 1052672) [], .dequeue 0 0,
      .enqueue 2 (pacedSkb 1250000000 6144) []]
    (fun w => w.clock ≤ 10240 ∧ w.sch.q = [] ∧
      (dfbDequeue plainParams w.sch 10240 10240).any (fun r => r.skb = some 1) = true ∧
      ∀ e ∈ w.held, e.ptr = 1 → ∃ x ∈ w.held, x.deadline < e.deadline)
    (by decide +kernel)
  obtain ⟨r, hr, hserve⟩ := hall plainParams w 10240 10240 hw (show 10240 < 2 ^ 62 by norm_num)
    ⟨hclock, le_rfl⟩
  rw [hr, Option.any_some, decide_eq_true_eq] at hrun
  obtain ⟨e, hptr, hleast⟩ := hserve hq 1 hrun
  obtain ⟨x, hx, hlt⟩ := hheld e hleast.mem hptr
  exact absurd (hleast.le x hx) (not_le.mpr hlt)

/-! ### At most one granule early -/

/-- The scan granularity is at most the queue index of the packet to serve next, the first of
those with the least deadline; the comment on `highest_rate_qid` promises this of every
packet. -/
def World.FineScan (w : World) : Prop :=
  ∀ e ∈ w.held.argmin Stored.deadline, w.sch.priv.highestRateQid ≤ e.queueId

instance (w : World) : Decidable w.FineScan :=
  inferInstanceAs (Decidable (∀ e ∈ w.held.argmin Stored.deadline, _))

/-- The dequeue returns, and a packet it returns from the calendar is less than one granule
of its rate class before its send time. -/
def World.PacesWithinGranule (P : Params) (w : World) (now tTime : ℕ) : Prop :=
  ∃ r, dfbDequeue P w.sch now tTime = some r ∧
    (w.sch.q = [] → ∀ p, r.skb = some p →
      ∃ e ∈ w.held, e.ptr = p ∧ e.sendTime < now + 2 ^ e.queueId)

/-- **Pacing error**: along operations that do not rewind, a dequeue whose scan is fine
enough for the packet to serve next returns none more than one granule early. -/
theorem dequeue_paces_within_granule
    (hw : Reach P (fun w op => w.Admits op ∧ w.NoRewind op) w)
    (hok : w.Admits (.dequeue now tTime)) (hfine : w.FineScan) :
    w.PacesWithinGranule P now tTime := by
  obtain ⟨hinv, hwin⟩ := reach_windowed hw
  obtain ⟨r, hrun, hcases⟩ := dequeue_total P tTime hinv.repr hinv.timed hok
  refine ⟨r, hrun, fun hq p hp => ?_⟩
  cases hcases with
  | unpaced p' rest hq' hsame hmem => exact absurd (hq.symm.trans hq') (by simp)
  | calendar hq' r₀ hout hsame hmem hsch hskb hwake =>
      obtain ⟨e, hmem', he, hserved⟩ := hout.firstLeast hwin hinv.timed (hskb ▸ hp)
      obtain ⟨hleast, hdue⟩ := hserved trivial
      refine ⟨e, hmem', he, ?_⟩
      calc e.sendTime < e.deadline := by
            rw [Stored.deadline, deadline_eq]
            exact lt_nextTo _ _
        _ ≤ now + 2 ^ w.sch.priv.highestRateQid := hdue
        _ ≤ now + 2 ^ e.queueId := by
            have := Nat.pow_le_pow_right (n := 2) (by norm_num) (hfine e hleast.argmin_eq)
            omega

/-- Two flows of different classes: the dequeue takes the packet of the faster one. -/
theorem dequeue_paces_within_granule_run :
    ∃ w, Reach plainParams (fun w op => w.Admits op ∧ w.NoRewind op) w ∧ w.FineScan ∧
      (dfbDequeue plainParams w.sch 0 0).any (fun r => r.skb = some 2) = true ∧
      w.PacesWithinGranule plainParams 0 0 := by
  obtain ⟨w, hw, hfine, hskb⟩ := exists_reach plainParams
    (fun w op => w.Admits op ∧ w.NoRewind op)
    [.enqueue 1 (pacedSkb 125000000 0) [], .enqueue 2 (pacedSkb 1250000000 1000) []]
    (fun w => w.FineScan ∧
      (dfbDequeue plainParams w.sch 0 0).any (fun r => r.skb = some 2) = true)
    (by decide +kernel)
  exact ⟨w, hw, hfine, hskb,
    dequeue_paces_within_granule hw (show 0 < 2 ^ 62 by norm_num) hfine⟩

/-- A run of one flow: its second packet lies on level `15`, the level of its first packet
drains, and the scan by granules of `2^15` returns the second packet `31744` nanoseconds
early, where the granule of its class is `1024`. -/
theorem dequeue_leaves_granule_early :
    ¬ ∀ (P : Params) (w : World) (now tTime : ℕ),
      Reach P (fun w op => w.Admits op ∧ w.Ticks op) w → w.Admits (.dequeue now tTime) →
      w.Ticks (.dequeue now tTime) → w.PacesWithinGranule P now tTime := by
  intro hall
  obtain ⟨w, hw, hclock, hq, hrun, hheld⟩ := exists_reach plainParams
    (fun w op => w.Admits op ∧ w.Ticks op)
    [.enqueue 1 (pacedSkb 1250000000 1048576) [], .enqueue 2 (pacedSkb 1250000000 1080320) [],
      .dequeue 1048576 1048576]
    (fun w => w.clock ≤ 1048576 ∧ w.sch.q = [] ∧
      (dfbDequeue plainParams w.sch 1048576 1048576).any (fun r => r.skb = some 2) = true ∧
      ∀ e ∈ w.held, e.ptr = 2 → ¬ e.sendTime < 1048576 + 2 ^ e.queueId)
    (by decide +kernel)
  obtain ⟨r, hr, hpace⟩ := hall plainParams w 1048576 1048576 hw
    (show 1048576 < 2 ^ 62 by norm_num) ⟨hclock, le_rfl⟩
  rw [hr, Option.any_some, decide_eq_true_eq] at hrun
  obtain ⟨e, he, hptr, hlt⟩ := hpace hq 2 hrun
  exact hheld e he hptr hlt

/-! ### The watchdog -/

/-- After a miss, a dequeue at or after the watchdog time returns a packet. -/
lemma CalendarOutcome.hit_of_occupied {sch : Qdisc} {held : List Stored} {r : DequeueResult}
    (hout : CalendarOutcome sch held now sch.priv.highestRateQid r) (wake : ℕ)
    (hdvd : 2 ^ sch.priv.highestRateQid ∣ wake)
    (hlow : floorTo sch.priv.highestRateQid sch.priv.headTime ≤ wake) (hdue : wake ≤ now)
    (hocc : bucketAt held (wake + 2 ^ sch.priv.highestRateQid) ≠ []) :
    ∃ p, r.skb = some p := by
  cases hout with
  | empty hnil => exact absurd (by rw [hnil]; rfl) hocc
  | hit t e rest hdue hlow hahead hbucket => exact ⟨e.ptr, rfl⟩
  | miss wake' hne hpast hdvd' hahead hocc' hidle => exact absurd (hidle wake hdvd hlow hdue) hocc

/-- **The watchdog is in time**: in every run, a dequeue that finds packets in the calendar
but returns none arms the watchdog after the clock and at least one scan granule before
every held deadline, and a dequeue at that time or later returns a packet. -/
theorem watchdog_in_time (hw : Reach P World.Admits w) (hok : w.Admits (.dequeue now tTime))
    (hq : w.sch.q = []) (hbitmap : w.sch.priv.bitmap ≠ 0) :
    ∃ r, dfbDequeue P w.sch now tTime = some r ∧
      (r.skb = none → ∃ wake, r.watchdog = some wake ∧ now < wake ∧
        (∀ e ∈ w.held, wake + 2 ^ w.sch.priv.highestRateQid ≤ e.deadline) ∧
        ∀ now' tTime', wake ≤ now' → now' < 2 ^ 62 →
          ∃ r' p, dfbDequeue P r.sch now' tTime' = some r' ∧ r'.skb = some p) := by
  have hinv := reach_inv hw
  obtain ⟨r, hrun, hcases⟩ := dequeue_total P tTime hinv.repr hinv.timed hok
  refine ⟨r, hrun, fun hnone => ?_⟩
  obtain ⟨hr, ht⟩ := hinv.dequeue_keeps hok hcases
  cases hcases with
  | unpaced p rest hq' hsame hmem => exact absurd (hq.symm.trans hq') (by simp)
  | calendar hq' r₀ hout hsame hmem hsch hskb hwake =>
      rw [popped, if_pos hq, hnone, Option.toList_none, without_eq_self (by simp)] at hr ht
      cases hout with
      | empty hnil => exact absurd (hinv.repr.bitmap_eq_zero_iff.mpr hnil) hbitmap
      | hit t e rest hdue hlow hahead hbucket => exact absurd (hskb.symm.trans hnone) (by simp)
      | miss wake hne hpast hdvd hahead hocc hidle =>
          refine ⟨wake, hwake, hpast, hahead, fun now' tTime' hle hnow' => ?_⟩
          -- the state left by the miss: the same granularity, and the head time at the clock
          have hqid : r.sch.priv.highestRateQid = w.sch.priv.highestRateQid :=
            hsame.highestRateQid
          have hhead : r.sch.priv.headTime = floorTo w.sch.priv.highestRateQid now :=
            hsame.headTime
          obtain ⟨r', hrun', hcases'⟩ := dequeue_total P tTime' hr ht hnow'
          cases hcases' with
          | unpaced p rest hq'' hsame' hmem' =>
              rw [hsch, hq] at hq''
              exact absurd hq'' (by simp)
          | calendar hq'' r₁ hout' hsame' hmem' hsch' hskb' hwake' =>
              have hfloor := floorTo_le w.sch.priv.highestRateQid now
              obtain ⟨p, hp⟩ := hout'.hit_of_occupied wake (by rwa [hqid])
                ((floorTo_le _ _).trans (by omega)) hle (by rwa [hqid])
              exact ⟨r', p, hrun', hskb'.trans hp⟩

/-- A packet due in the future: nothing is returned, and the watchdog is armed. -/
theorem watchdog_in_time_run :
    ∃ w, Reach plainParams World.Admits w ∧
      (dfbDequeue plainParams w.sch 0 0).any
        (fun r => r.skb = none ∧ r.watchdog = some 4096) = true ∧
      ∃ r, dfbDequeue plainParams w.sch 0 0 = some r ∧
        (r.skb = none → ∃ wake, r.watchdog = some wake ∧ 0 < wake ∧
          (∀ e ∈ w.held, wake + 2 ^ w.sch.priv.highestRateQid ≤ e.deadline) ∧
          ∀ now' tTime', wake ≤ now' → now' < 2 ^ 62 →
            ∃ r' p, dfbDequeue plainParams r.sch now' tTime' = some r' ∧ r'.skb = some p) := by
  obtain ⟨w, hw, hq, hbitmap, hrun⟩ := exists_reach plainParams World.Admits
    [.enqueue 1 (pacedSkb 1250000000 5000) []]
    (fun w => w.sch.q = [] ∧ w.sch.priv.bitmap ≠ 0 ∧
      (dfbDequeue plainParams w.sch 0 0).any
        (fun r => r.skb = none ∧ r.watchdog = some 4096) = true)
    (by decide +kernel)
  exact ⟨w, hw, hrun, watchdog_in_time hw (show 0 < 2 ^ 62 by norm_num) hq hbitmap⟩

end Dfb
