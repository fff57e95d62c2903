import FlowBundler.Kernel.Enqueue

/-!
`dfb_dequeue` from the calendar: how it ends, and what it leaves.

* `bucketAt held D`: the packets found at the location of the deadline `D`;
  `scanRound_none`, `scanRound_some`: a round of the scan at an aligned head time looks up
  the bucket one granule ahead.
* `ahead_of_idle`: while the scan meets empty buckets only, every held deadline stays
  ahead of it.  A deadline that the scan passed would be a multiple of the granule, hence
  one of those looked up, and its bucket was empty.
* `CalendarOutcome`: the calendar is empty, or a hit pops the first packet of the first
  occupied bucket that is due, or a miss arms the watchdog one granule before the first
  occupied bucket beyond the clock.
* `calendar_spec`: the call ends in one of these ways.  The loop up to the clock is
  `Loop.whileDue` of the library, the search for the next packet `Loop.doUntil`, which stops
  since the deadline of any held packet is a stop ahead.
* `CalendarOutcome.repr`, `.timed`: every outcome leaves a represented and timed calendar;
  the granularity after a pop is at most every occupied level (`afterPop_qid_le`).
* `CalendarOutcome.windowed`: the window survives too, unless a miss moves the head time
  back to the clock; a multiple of the granule that is at or after the masked head time is
  as good as the head time itself (`Windowed.le_add`).
-/

namespace Dfb

open Ledger Dyadic Wheel

/-- The held packets in the bucket of the key `D`. -/
abbrev bucketAt (held : List Stored) (D : ℕ) : List Stored :=
  bucketList held (level D) (index 10 D)

section Scan

variable {sch : Qdisc} {held : List Stored} {e : Stored} {h t now : ℕ}

lemma nextTo_of_dvd (hd : 2 ^ h ∣ t) : nextTo h t = t + 2 ^ h := by
  rw [nextTo_eq, floorTo_of_dvd hd]

/-- A held packet is in the bucket of its own deadline. -/
lemma mem_bucketAt_self (ht : Timed sch.priv held) (he : e ∈ held) :
    e ∈ bucketAt held e.deadline :=
  mem_slot.mpr ⟨he, place_eq (ht.loc_eq e he)⟩

/-- A packet in the bucket of `D` is held, and its deadline has that bucket. -/
lemma of_mem_bucketAt (ht : Timed sch.priv held) {D : ℕ} (he : e ∈ bucketAt held D) :
    e ∈ held ∧ level e.deadline = level D ∧ index 10 e.deadline = index 10 D := by
  obtain ⟨hmem, hplace⟩ := mem_slot.mp he
  rw [place_eq (ht.loc_eq e hmem), Prod.mk.injEq] at hplace
  exact ⟨hmem, hplace⟩

/-- The location looked up at an aligned head time is that of the granule's end. -/
lemma lookup_eq (hd : 2 ^ h ∣ t) (hlt : t + 2 ^ h < 2 ^ 63) :
    dfbFindRealLocation h t = locOf (t + 2 ^ h) := by
  rw [← nextTo_of_dvd hd] at hlt ⊢
  exact findRealLocation_eq hlt

lemma bucketList_locOf (D : ℕ) :
    bucketList held (locOf D).queueId ((locOf D).bucketId &&& bidMask) = bucketAt held D := by
  rw [land_bidMask]
  rfl

/-- A round at an aligned head time finds nothing in an empty bucket. -/
lemma scanRound_none (hr : Repr sch held) (hd : 2 ^ h ∣ t) (hlt : t + 2 ^ h < 2 ^ 63)
    (hnil : bucketAt held (t + 2 ^ h) = []) : dfbScanRound sch h t = none := by
  rw [← bucketList_locOf] at hnil
  rw [dfbScanRound, lookup_eq hd hlt, hr.linked.pop_none hnil]

/-- A round at an aligned head time pops the first packet of its bucket. -/
lemma scanRound_some (hr : Repr sch held) (hd : 2 ^ h ∣ t) (hlt : t + 2 ^ h < 2 ^ 63)
    {rest : List Stored} (hL : bucketAt held (t + 2 ^ h) = e :: rest) :
    dfbScanRound sch h t = some (e.ptr, (dfbPopFromBucket sch (locOf (t + 2 ^ h))).2) := by
  rw [← bucketList_locOf] at hL
  obtain ⟨hret, -⟩ := hr.pop_some hL
  rw [dfbScanRound, lookup_eq hd hlt]
  cases hpop : dfbPopFromBucket sch (locOf (t + 2 ^ h)) with
  | mk skb sch' =>
      rw [hpop] at hret
      dsimp only at hret
      rw [hret]

lemma bucketAt_eq_nil_of_scanRound (hr : Repr sch held) (hd : 2 ^ h ∣ t)
    (hlt : t + 2 ^ h < 2 ^ 63) (hnone : dfbScanRound sch h t = none) :
    bucketAt held (t + 2 ^ h) = [] := by
  cases hL : bucketAt held (t + 2 ^ h) with
  | nil => rfl
  | cons e rest =>
      rw [scanRound_some hr hd hlt hL] at hnone
      exact absurd hnone (by simp)

/-- The occupancy test of the search for the next packet. -/
lemma occupied_iff (hr : Repr sch held) (hd : 2 ^ h ∣ t) (hlt : t + 2 ^ h < 2 ^ 63) :
    (!dfbBucketIsEmpty (sch.bucket (dfbFindRealLocation h t))) = true ↔
      bucketAt held (t + 2 ^ h) ≠ [] := by
  rw [lookup_eq hd hlt, ← bucketList_locOf, ne_eq, ← hr.linked.head_eq_none_iff]
  rw [← ne_eq, ← Option.isSome_iff_ne_none, dfbBucketIsEmpty, Option.not_isNone]
  rfl

/-- A scan from an aligned head time behind every deadline that met only empty buckets
still has every deadline ahead. -/
lemma ahead_of_idle (ht : Timed sch.priv held) {t₀ : ℕ} (i : ℕ)
    (hd : 2 ^ sch.priv.highestRateQid ∣ t₀)
    (hlow : ∀ x ∈ held, t₀ + 2 ^ sch.priv.highestRateQid ≤ x.deadline)
    (hidle : ∀ j < i, bucketAt held
      (t₀ + j * 2 ^ sch.priv.highestRateQid + 2 ^ sch.priv.highestRateQid) = []) :
    ∀ x ∈ held, t₀ + i * 2 ^ sch.priv.highestRateQid + 2 ^ sch.priv.highestRateQid
      ≤ x.deadline := by
  set g := 2 ^ sch.priv.highestRateQid with hg
  have hdvd : 2 ^ sch.priv.highestRateQid ∣ t₀ + g := hd.add dvd_rfl
  have hkey := le_of_idle (K := fun D => ∃ x ∈ held, x.deadline = D) hdvd
    (fun D ⟨x, hx, hD⟩ => hD ▸ ht.dvd hx) (fun D ⟨x, hx, hD⟩ => hD ▸ hlow x hx) i
    (fun j hj ⟨x, hx, hD⟩ => by
      have hmem := mem_bucketAt_self ht hx
      rw [hD, ← hg, show t₀ + g + j * g = t₀ + j * g + g by ring, hidle j hj] at hmem
      simp at hmem)
  intro x hx
  have hle := hkey x.deadline ⟨x, hx, rfl⟩
  rw [← hg] at hle
  omega

end Scan

/-! ### The outcome of a call -/

/-- How a dequeue from the calendar can end, with `h` the scan granularity. -/
inductive CalendarOutcome (sch : Qdisc) (held : List Stored) (now h : ℕ) :
    DequeueResult → Prop
  /-- Nothing is held. -/
  | empty (hnil : held = []) :
      CalendarOutcome sch held now h { sch := sch, skb := none, watchdog := none }
  /-- The bucket of `t + 2^h` is due and has a packet. -/
  | hit (t : ℕ) (e : Stored) (rest : List Stored) (hdue : t ≤ now)
      (hlow : floorTo h sch.priv.headTime ≤ t)
      (hahead : ∀ x ∈ held, t + 2 ^ h ≤ x.deadline)
      (hbucket : bucketAt held (t + 2 ^ h) = e :: rest) :
      CalendarOutcome sch held now h
        { sch := { (dfbPopFromBucket sch (locOf (t + 2 ^ h))).2 with
            priv := dfbAfterPop (dfbPopFromBucket sch (locOf (t + 2 ^ h))).2.priv h t }
          skb := some e.ptr, watchdog := none }
  /-- No due bucket has a packet; the next occupied bucket is that of `wake + 2^h`. -/
  | miss (wake : ℕ) (hne : held ≠ []) (hpast : now < wake) (hdvd : 2 ^ h ∣ wake)
      (hahead : ∀ x ∈ held, wake + 2 ^ h ≤ x.deadline)
      (hocc : bucketAt held (wake + 2 ^ h) ≠ [])
      (hidle : ∀ s, 2 ^ h ∣ s → floorTo h sch.priv.headTime ≤ s → s ≤ now →
        bucketAt held (s + 2 ^ h) = []) :
      CalendarOutcome sch held now h
        { sch := { sch with priv := { sch.priv with headTime := floorTo h now } }
          skb := none, watchdog := some wake }

/-- The search for the next packet beyond `t` finds the first occupied bucket. -/
lemma next_spec {sch : Qdisc} {held : List Stored} {t : ℕ} (hr : Repr sch held)
    (ht : Timed sch.priv held) (hne : held ≠ [])
    (hd : 2 ^ sch.priv.highestRateQid ∣ t)
    (hlow : ∀ x ∈ held, t + 2 ^ sch.priv.highestRateQid ≤ x.deadline) :
    ∃ wake, Loop.doUntil (2 ^ sch.priv.highestRateQid)
        (fun s => !dfbBucketIsEmpty (sch.bucket (dfbFindRealLocation sch.priv.highestRateQid s)))
        (2 ^ 64) ((t + 2 ^ 64 - 2 ^ sch.priv.highestRateQid) % 2 ^ 64) = some wake ∧
      t ≤ wake ∧ 2 ^ sch.priv.highestRateQid ∣ wake ∧
      (∀ x ∈ held, wake + 2 ^ sch.priv.highestRateQid ≤ x.deadline) ∧
      bucketAt held (wake + 2 ^ sch.priv.highestRateQid) ≠ [] := by
  obtain ⟨e, he⟩ := List.exists_mem_of_ne_nil held hne
  set h := sch.priv.highestRateQid with hh
  have hbound := ht.bound e he
  have hle := hlow e he
  have hpos := Nat.two_pow_pos h
  have hh63 : 2 ^ h < 2 ^ 63 := Nat.pow_lt_pow_right (by norm_num) (ht.qid_lt he)
  -- the deadline of `e` is a stop ahead
  obtain ⟨n, hn⟩ := exists_steps (hd.add dvd_rfl) (ht.dvd he) hle
  have hnle : n ≤ n * 2 ^ h := Nat.le_mul_of_pos_right n hpos
  have hstep : ∀ j, 2 ^ h ∣ t + j * 2 ^ h := fun j => hd.add (Dvd.intro_left j rfl)
  have hstop : (!dfbBucketIsEmpty (sch.bucket (dfbFindRealLocation h (t + n * 2 ^ h)))) = true := by
    rw [occupied_iff hr (hstep n) (by omega)]
    have hmem := mem_bucketAt_self ht he
    rw [hn, show t + 2 ^ h + n * 2 ^ h = t + n * 2 ^ h + 2 ^ h by ring] at hmem
    exact List.ne_nil_of_mem hmem
  have hstart : ((t + 2 ^ 64 - 2 ^ h) % 2 ^ 64 + 2 ^ h) % 2 ^ 64 = t := by
    rw [Nat.mod_add_mod, show t + 2 ^ 64 - 2 ^ h + 2 ^ h = t + 2 ^ 64 by omega, Nat.add_mod_right]
    exact Nat.mod_eq_of_lt (by omega)
  obtain ⟨i, hi, hrun, hst, hno⟩ := @Loop.doUntil_spec (2 ^ h)
    (fun s => !dfbBucketIsEmpty (sch.bucket (dfbFindRealLocation h s))) n (2 ^ 64) _ t (by omega)
    hstart (by omega) hstop
  have hile : i * 2 ^ h ≤ n * 2 ^ h := Nat.mul_le_mul_right _ hi
  refine ⟨t + i * 2 ^ h, hrun, by omega, hstep i, ?_, ?_⟩
  · refine ahead_of_idle ht i hd hlow fun j hj => ?_
    have hjn : j * 2 ^ h ≤ n * 2 ^ h := Nat.mul_le_mul_right _ (by omega)
    have hfalse := hno j hj
    by_contra hocc
    rw [(occupied_iff hr (hstep j) (by omega)).mpr hocc] at hfalse
    exact absurd hfalse (by simp)
  · exact (occupied_iff hr (hstep i) (by omega)).mp hst

/-- **The calendar dequeue** ends, and as `CalendarOutcome` says. -/
theorem calendar_spec {sch : Qdisc} {held : List Stored} {now : ℕ} (hr : Repr sch held)
    (ht : Timed sch.priv held) (hnow : now < 2 ^ 62) :
    ∃ r, dfbDequeueCalendar sch now = some r ∧
      CalendarOutcome sch held now sch.priv.highestRateQid r := by
  rw [dfbDequeueCalendar]
  dsimp only
  by_cases hz : sch.priv.bitmap = 0
  · exact ⟨_, if_pos hz, .empty (hr.bitmap_eq_zero_iff.mp hz)⟩
  have hne : held ≠ [] := fun hnil => hz (hr.bitmap_eq_zero_iff.mpr hnil)
  obtain ⟨e, he⟩ := List.exists_mem_of_ne_nil held hne
  have hqid := ht.qid_lt he
  have hhead := ht.head_lt
  rw [if_neg hz, land_headTimeMask (by omega), land_headTimeMask (by omega),
    granularity_eq (by omega)]
  have hahead := fun i => ahead_of_idle ht i
    (dvd_floorTo sch.priv.highestRateQid sch.priv.headTime) fun x hx =>
      add_le_of_dvd_of_lt (dvd_floorTo _ _) (ht.dvd hx)
      (lt_of_le_of_lt (floorTo_le _ _) (ht.ahead x hx))
  set h := sch.priv.highestRateQid with hh
  set t₀ := floorTo h sch.priv.headTime with ht₀
  have hh62 : 2 ^ h ≤ 2 ^ 62 := Nat.pow_le_pow_right (by norm_num) (by omega)
  have ht₀lt : t₀ < 2 ^ 62 := lt_of_le_of_lt (floorTo_le _ _) hhead
  have hdvd : ∀ j, 2 ^ h ∣ t₀ + j * 2 ^ h := fun j =>
    (dvd_floorTo h sch.priv.headTime).add (Dvd.intro_left j rfl)
  -- every round the scan made at a due time found an empty bucket
  have hempty : ∀ {i : ℕ}, (∀ j < i, t₀ + j * 2 ^ h ≤ now ∧
      dfbScanRound sch h (t₀ + j * 2 ^ h) = none) →
      ∀ j < i, bucketAt held (t₀ + j * 2 ^ h + 2 ^ h) = [] := by
    intro i hidle j hj
    obtain ⟨hdue, hnone⟩ := hidle j hj
    exact bucketAt_eq_nil_of_scanRound hr (hdvd j) (by omega) hnone
  obtain ⟨r, hrun, hout⟩ : ∃ r, Loop.whileDue now (2 ^ h) (dfbScanRound sch h)
      (2 ^ 64 - 1 + 1) t₀ = some r ∧ Loop.WhileOutcome now (2 ^ h) (dfbScanRound sch h) t₀ r :=
    Loop.whileDue_spec (Nat.two_pow_pos h) (by omega) _ _ (by omega)
  rw [show 2 ^ 64 - 1 + 1 = 2 ^ 64 by norm_num] at hrun
  rw [hrun]
  cases hout with
  | hit i b hidle hdue hbody =>
      have hlow := hahead i (hempty hidle)
      cases hL : bucketAt held (t₀ + i * 2 ^ h + 2 ^ h) with
      | nil =>
          rw [scanRound_none hr (hdvd i) (by omega) hL] at hbody
          exact absurd hbody (by simp)
      | cons e rest =>
          rw [scanRound_some hr (hdvd i) (by omega) hL, Option.some.injEq] at hbody
          subst hbody
          exact ⟨_, rfl, .hit (t₀ + i * 2 ^ h) e rest hdue (by omega) hlow hL⟩
  | past i hidle hpast =>
      have hlow := hahead i (hempty hidle)
      obtain ⟨wake, hnext, hle, hwd, hwahead, hocc⟩ := next_spec hr ht hne (hdvd i) hlow
      dsimp only
      rw [hnext]
      refine ⟨_, rfl, .miss wake hne (by omega) hwd hwahead hocc fun s hs hs₀ hsn => ?_⟩
      obtain ⟨j, rfl⟩ := exists_steps (dvd_floorTo h sch.priv.headTime) hs hs₀
      refine hempty hidle j ?_
      refine Nat.lt_of_mul_lt_mul_right (a := 2 ^ h) ?_
      omega

/-! ### What a call leaves -/

lemma afterPop_repr {sch : Qdisc} {held : List Stored} (h : Repr sch held) (qid t : ℕ) :
    Repr { sch with priv := dfbAfterPop sch.priv qid t } held := by
  refine h.congr ?_ ?_ ?_ ?_ fun _ _ => rfl <;> (dsimp only; rw [dfbAfterPop]; split <;> rfl)

lemma afterPop_headTime (q : DfbSchedData) (qid t : ℕ) : (dfbAfterPop q qid t).headTime = t := by
  rw [dfbAfterPop]
  split <;> rfl

/-- The granularity after a pop is still at most every occupied level: it is either the
old one or the lowest bit of the bitmap. -/
lemma afterPop_qid_le {sch : Qdisc} {held : List Stored} {e : Stored} (hr : Repr sch held)
    (he : e ∈ held) (hle : sch.priv.highestRateQid ≤ e.loc.queueId) (qid t : ℕ) :
    (dfbAfterPop sch.priv qid t).highestRateQid ≤ e.loc.queueId := by
  rw [dfbAfterPop]
  dsimp only
  split
  · have hne : sch.priv.bitmap ≠ 0 := fun hz => by
      rw [hr.bitmap_eq_zero_iff.mp hz] at he
      simp at he
    dsimp only
    rw [if_pos hne, ffs]
    exact hr.tally.lowBit_le he
  · exact hle

/-- A held deadline within the window of the head time is within the window of every
aligned time from the masked head time on. -/
lemma Windowed.le_add {c : Stored → Prop} {q : DfbSchedData} {held : List Stored} {e : Stored}
    {t : ℕ} (h : Windowed c q held) (ht : Timed q held) (he : e ∈ held) (hc : c e)
    (hlow : floorTo q.highestRateQid q.headTime ≤ t) :
    e.deadline ≤ t + 2 ^ (e.loc.queueId + 10) := by
  have hwin := h e he hc
  have hqid := ht.qid_le e he
  rcases Nat.lt_or_ge e.deadline (2 ^ (e.loc.queueId + 10)) with hlt | hge
  · omega
  · have hdvd : 2 ^ q.highestRateQid ∣ e.deadline - 2 ^ (e.loc.queueId + 10) :=
      Nat.dvd_sub (ht.dvd he) (pow_dvd_pow 2 (by omega))
    have hfloor := dvd_le_floorTo hdvd (show e.deadline - 2 ^ (e.loc.queueId + 10) ≤ q.headTime by
      omega)
    omega

namespace CalendarOutcome

variable {sch : Qdisc} {held : List Stored} {now : ℕ} {r : DequeueResult}

/-- The packet popped from a bucket is the one removed from the list. -/
lemma pop_repr (hr : Repr sch held) {D : ℕ} {e : Stored} {rest : List Stored}
    (hbucket : bucketAt held D = e :: rest) :
    Repr (dfbPopFromBucket sch (locOf D)).2 (without Stored.ptr held [e.ptr]) := by
  rw [← bucketList_locOf] at hbucket
  exact (hr.pop_some hbucket).2

/-- Every outcome leaves the calendar without the packet returned. -/
theorem repr (hr : Repr sch held) (hout : CalendarOutcome sch held now sch.priv.highestRateQid r) :
    Repr r.sch (without Stored.ptr held r.skb.toList) := by
  cases hout with
  | empty hnil =>
      subst hnil
      exact hr
  | hit t e rest hdue hlow hahead hbucket =>
      exact afterPop_repr (pop_repr hr hbucket) _ _
  | miss wake hne hpast hdvd hahead hocc hidle =>
      dsimp only [Option.toList_none]
      rw [without_eq_self (by simp)]
      exact hr.congr rfl rfl rfl rfl fun _ _ => rfl

/-- Every outcome leaves the calendar timed. -/
theorem timed (hr : Repr sch held) (ht : Timed sch.priv held) (hnow : now < 2 ^ 62)
    (hout : CalendarOutcome sch held now sch.priv.highestRateQid r) :
    Timed r.sch.priv (without Stored.ptr held r.skb.toList) := by
  have hsub : ∀ x ∈ without Stored.ptr held r.skb.toList, x ∈ held := fun x hx =>
    (mem_without.mp hx).1
  refine (ht.sublist hsub).update ?_ ?_ ?_
  · -- the head time stays behind every deadline
    intro x hx
    cases hout with
    | empty hnil => exact ht.ahead x (hsub x hx)
    | hit t e rest hdue hlow hahead hbucket =>
        have hle := hahead x (hsub x hx)
        have hpos := Nat.two_pow_pos sch.priv.highestRateQid
        rw [afterPop_headTime]
        omega
    | miss wake hne hpast hdvd hahead hocc hidle =>
        have hle := hahead x (hsub x hx)
        have hfloor := floorTo_le sch.priv.highestRateQid now
        dsimp only
        omega
  · cases hout with
    | empty hnil => exact ht.head_lt
    | hit t e rest hdue hlow hahead hbucket =>
        rw [afterPop_headTime]
        omega
    | miss wake hne hpast hdvd hahead hocc hidle =>
        exact lt_of_le_of_lt (floorTo_le _ _) hnow
  · intro x hx
    cases hout with
    | empty hnil => exact ht.qid_le x (hsub x hx)
    | hit t e rest hdue hlow hahead hbucket =>
        refine afterPop_qid_le (pop_repr hr hbucket) hx ?_ _ _
        rw [Linked.pop_highestRateQid]
        exact ht.qid_le x (hsub x hx)
    | miss wake hne hpast hdvd hahead hocc hidle => exact ht.qid_le x (hsub x hx)

/-- Every outcome keeps the window, if moving the head time back to the clock does. -/
theorem windowed {c : Stored → Prop} (ht : Timed sch.priv held) (hw : Windowed c sch.priv held)
    (hback : now < floorTo sch.priv.highestRateQid sch.priv.headTime → ∀ e ∈ held, c e →
      e.deadline ≤ floorTo sch.priv.highestRateQid now + 2 ^ (e.loc.queueId + 10))
    (hout : CalendarOutcome sch held now sch.priv.highestRateQid r) :
    Windowed c r.sch.priv (without Stored.ptr held r.skb.toList) := by
  intro x hx hc
  have hmem := (mem_without.mp hx).1
  cases hout with
  | empty hnil => exact hw x hmem hc
  | hit t e rest hdue hlow hahead hbucket =>
      rw [afterPop_headTime]
      exact hw.le_add ht hmem hc hlow
  | miss wake hne hpast hdvd hahead hocc hidle =>
      dsimp only
      rcases Nat.lt_or_ge now (floorTo sch.priv.highestRateQid sch.priv.headTime) with hlt | hge
      · exact hback hlt x hmem hc
      · exact hw.le_add ht hmem hc (dvd_le_floorTo (dvd_floorTo _ _) hge)

end CalendarOutcome

end Dfb
