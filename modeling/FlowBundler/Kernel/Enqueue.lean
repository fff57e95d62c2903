import FlowBundler.Kernel.Timing

/-!
`dfb_enqueue` keeps the invariants of the calendar.

* `SameCalendar`: the congestion marks and the estimator leave the calendar alone.
* `Keeps`: a step from one represented calendar to another that keeps `Repr` and
  `Timed`, and `Windowed` of every class for which it held before.
* `segmentLoop_keeps`: segmentation, by induction on the segments.  Only the first segment
  can find the calendar empty, so the time stamps that the loop computes, which may be
  anything, are clamped at a head time in range.  The segments are pairwise different and
  not held, and stay so as the loop goes on.
* `enqueue_keeps`: `dfb_enqueue` case by case: an unpaced packet and a packet over the limit
  leave the calendar alone, the others lower the scan granularity to their queue index and
  are stored, after the marks of the congested flows have been brought up to date.  Each case
  is a chain of steps that `Keeps.trans` composes.
-/

namespace Dfb

open Ledger

/-! ### What leaves the calendar alone -/

/-- The two states have the same calendar; they may differ in the congestion marks and the
estimator. -/
structure SameCalendar (q q' : DfbSchedData) : Prop where
  mlcq : q'.mlcq = q.mlcq
  nPacketsTotal : q'.nPacketsTotal = q.nPacketsTotal
  nPackets : q'.nPackets = q.nPackets
  bitmap : q'.bitmap = q.bitmap
  headTime : q'.headTime = q.headTime
  highestRateQid : q'.highestRateQid = q.highestRateQid

namespace SameCalendar

variable {q q' q'' : DfbSchedData} {sch sch' : Qdisc} {held : List Stored}

lemma refl (q : DfbSchedData) : SameCalendar q q := ⟨rfl, rfl, rfl, rfl, rfl, rfl⟩

lemma trans (h : SameCalendar q q') (h' : SameCalendar q' q'') : SameCalendar q q'' :=
  ⟨h'.mlcq.trans h.mlcq, h'.nPacketsTotal.trans h.nPacketsTotal, h'.nPackets.trans h.nPackets,
    h'.bitmap.trans h.bitmap, h'.headTime.trans h.headTime,
    h'.highestRateQid.trans h.highestRateQid⟩

lemma repr (h : SameCalendar sch.priv sch'.priv) (hmem : sch'.mem = sch.mem)
    (hr : Repr sch held) : Repr sch' held :=
  hr.congr h.mlcq h.nPacketsTotal h.nPackets h.bitmap fun e _ => by
    rw [Qdisc.next, Qdisc.next, hmem]

lemma timed (h : SameCalendar q q') (ht : Timed q held) : Timed q' held :=
  ht.congr h.headTime h.highestRateQid

lemma windowed (h : SameCalendar q q') (c : Stored → Prop) (hw : Windowed c q held) :
    Windowed c q' held := by
  intro e he hc
  rw [h.headTime]
  exact hw e he hc

end SameCalendar

lemma sameCalendar_markCongested (q : DfbSchedData) (hv rate : ℕ) :
    SameCalendar q (markCongested q hv rate) := by
  rw [markCongested]
  split <;> exact ⟨rfl, rfl, rfl, rfl, rfl, rfl⟩

lemma sameCalendar_unmarkCongested (q : DfbSchedData) (hv rate : ℕ) :
    SameCalendar q (unmarkCongested q hv rate) := by
  rw [unmarkCongested]
  dsimp only
  split <;> exact ⟨rfl, rfl, rfl, rfl, rfl, rfl⟩

/-- `update_congestion` leaves the calendar alone. -/
lemma sameCalendar_updateCongestion (P : Params) (q : DfbSchedData) (skb : SkBuff) :
    SameCalendar q (updateCongestion P q skb) := by
  rw [updateCongestion]
  split
  · rename_i sk _ tcph _ _
    split
    · exact .refl q
    · dsimp only
      set q₁ := if sk.icskCaState.toNat > TcpCaState.disorder.toNat then
        markCongested q (flowHash P skb) sk.skPacingRate else q with hq₁
      have h₁ : SameCalendar q q₁ := by
        rw [hq₁]
        split
        · exact sameCalendar_markCongested _ _ _
        · exact .refl q
      split
      · exact h₁.trans (sameCalendar_unmarkCongested _ _ _)
      · exact h₁
  · exact .refl q

/-- The estimator leaves the calendar alone. -/
lemma sameCalendar_dequeueDone (P : Params) (sch : Qdisc) (skb : Option ℕ) (tTime : ℕ) :
    SameCalendar sch.priv (dfbDequeueDone P sch skb tTime).priv ∧
      (dfbDequeueDone P sch skb tTime).mem = sch.mem ∧
      (dfbDequeueDone P sch skb tTime).q = sch.q := by
  cases skb with
  | none => exact ⟨.refl _, rfl, rfl⟩
  | some p =>
      rw [dfbDequeueDone]
      dsimp only
      split
      · exact ⟨.refl _, rfl, rfl⟩
      · split
        · exact ⟨⟨rfl, rfl, rfl, rfl, rfl, rfl⟩, rfl, rfl⟩
        · split <;> exact ⟨⟨rfl, rfl, rfl, rfl, rfl, rfl⟩, rfl, rfl⟩

/-! ### Steps that keep the invariants -/

/-- The step keeps the representation and the timing, and the window of every class for which
it held. -/
structure Keeps (sch : Qdisc) (held : List Stored) (sch' : Qdisc) (held' : List Stored) :
    Prop where
  repr : Repr sch' held'
  timed : Timed sch'.priv held'
  windowed : ∀ c, Windowed c sch.priv held → Windowed c sch'.priv held'

namespace Keeps

variable {sch sch' sch'' : Qdisc} {held held' held'' : List Stored}

lemma trans (h : Keeps sch held sch' held') (h' : Keeps sch' held' sch'' held'') :
    Keeps sch held sch'' held'' :=
  ⟨h'.repr, h'.timed, fun c hw => h'.windowed c (h.windowed c hw)⟩

lemma of_sameCalendar (hr : Repr sch held) (ht : Timed sch.priv held)
    (h : SameCalendar sch.priv sch'.priv) (hmem : sch'.mem = sch.mem) :
    Keeps sch held sch' held :=
  ⟨h.repr hmem hr, h.timed ht, h.windowed⟩

/-- Lowering the scan granularity to a queue index. -/
lemma lowerQid (hr : Repr sch held) (ht : Timed sch.priv held) (qid : ℕ) :
    Keeps sch held { sch with priv := { sch.priv with
      highestRateQid := min sch.priv.highestRateQid qid } } held :=
  ⟨hr.congr rfl rfl rfl rfl fun _ _ => rfl,
    ht.update ht.ahead ht.head_lt fun e he => (min_le_left _ _).trans (ht.qid_le e he),
    fun _ => id⟩

/-- Writing a packet that is not held. -/
lemma setSkb (hr : Repr sch held) (ht : Timed sch.priv held) {p : ℕ}
    (hp : p ∉ held.map Stored.ptr) (skb : SkBuff) : Keeps sch held (sch.setSkb p skb) held :=
  ⟨hr.setSkb hp skb, ht, fun _ => id⟩

end Keeps

/-! ### Segmentation -/

/-- After storing a packet the granularity is still at most its queue index. -/
lemma enqueueToCq_qid_le {sch : Qdisc} {p queueId : ℕ}
    (h : sch.priv.highestRateQid ≤ queueId) :
    (dfbEnqueueToCq sch p queueId).1.priv.highestRateQid ≤ queueId := by
  have hpush : (dfbEnqueueToCq sch p queueId).1.priv.highestRateQid
      = (dfbFirstPacket sch.priv queueId (sch.mem p).skbMstampNs).highestRateQid :=
    push_highestRateQid
  rw [hpush]
  exact firstPacket_qid_le _ h

lemma enqueueToCq_q (sch : Qdisc) (p queueId : ℕ) :
    (dfbEnqueueToCq sch p queueId).1.q = sch.q := push_q

/-- Storing the segments one after the other keeps the invariants: only the first of them
can find the calendar empty. -/
lemma segmentLoop_keeps {qid rate hdrLen : ℕ} (hq : qid ≤ 41) :
    ∀ (segs : List ℕ) (ntime : ℕ) (sch : Qdisc) (held : List Stored),
      Repr sch held → Timed sch.priv held → sch.priv.highestRateQid ≤ qid →
      segs.Nodup → (∀ x ∈ segs, x ∉ held.map Stored.ptr) →
      (sch.priv.bitmap = 0 → ntime < 2 ^ 62) →
      Keeps sch held (dfbSegmentLoop qid rate hdrLen segs ntime sch).1
          (held ++ (dfbSegmentLoop qid rate hdrLen segs ntime sch).2) ∧
        (dfbSegmentLoop qid rate hdrLen segs ntime sch).1.q = sch.q ∧
        (dfbSegmentLoop qid rate hdrLen segs ntime sch).2.map Stored.ptr = segs
  | [], ntime, sch, held, hr, ht, _, _, _, _ => by
      rw [dfbSegmentLoop, List.append_nil]
      exact ⟨⟨hr, ht, fun _ => id⟩, rfl, rfl⟩
  | seg :: segs, ntime, sch, held, hr, ht, hqid, hnd, hfresh, hn => by
      have hseg := hfresh seg (by simp)
      have hk₁ := Keeps.setSkb hr ht hseg { sch.mem seg with next := none, skbMstampNs := ntime }
      set sch₁ := sch.setSkb seg { sch.mem seg with next := none, skbMstampNs := ntime } with hs₁
      have hmem : (sch₁.mem seg).skbMstampNs = ntime := by rw [hs₁, Qdisc.setSkb_mem_self]
      obtain ⟨hr₂, ht₂, hw₂⟩ := enqueueToCq_spec hk₁.repr hk₁.timed hseg hq hqid
        (fun hz => by rw [hmem]; exact hn hz)
      set e := (dfbEnqueueToCq sch₁ seg qid).2 with he
      set sch₂ := (dfbEnqueueToCq sch₁ seg qid).1 with hs₂
      have hne : sch₂.priv.bitmap ≠ 0 := fun hz => by
        have := hr₂.bitmap_eq_zero_iff.mp hz
        simp at this
      obtain ⟨hsegnot, hnd'⟩ := List.nodup_cons.mp hnd
      have hfresh₂ : ∀ x ∈ segs, x ∉ (held ++ [e]).map Stored.ptr := by
        intro x hx hmemx
        rw [List.map_append, List.mem_append] at hmemx
        rcases hmemx with hold | hnew
        · exact hfresh x (List.mem_cons_of_mem seg hx) hold
        · have hx' : x = e.ptr := by simpa using hnew
          have hep : e.ptr = seg := rfl
          exact hsegnot (hep ▸ hx' ▸ hx)
      obtain ⟨hk, hkq, hptr⟩ := segmentLoop_keeps hq segs
        ((ntime + ((sch₁.mem seg).len - min hdrLen (sch₁.mem seg).len) * nsecPerSec % 2 ^ 64
          / rate) % 2 ^ 64) sch₂ (held ++ [e]) hr₂ ht₂ (enqueueToCq_qid_le hqid) hnd' hfresh₂
        fun hz => absurd hz hne
      rw [List.append_assoc] at hk
      refine ⟨(hk₁.trans ⟨hr₂, ht₂, hw₂⟩).trans hk, hkq.trans (enqueueToCq_q sch₁ seg qid), ?_⟩
      exact congrArg (seg :: ·) hptr

/-! ### Enqueue -/

/-- Writing the segments touches only their own memory. -/
lemma storeSegs_keeps : ∀ (segs : List (ℕ × SkBuff)) {sch : Qdisc} {held : List Stored},
    Repr sch held → Timed sch.priv held →
    (∀ x ∈ segs.map Prod.fst, x ∉ held.map Stored.ptr) →
    Keeps sch held (storeSegs sch segs) held ∧ (storeSegs sch segs).priv = sch.priv ∧
      (storeSegs sch segs).q = sch.q
  | [], sch, held, hr, ht, _ => ⟨⟨hr, ht, fun _ => id⟩, rfl, rfl⟩
  | seg :: segs, sch, held, hr, ht, hfresh => by
      have hk₁ := Keeps.setSkb hr ht (hfresh seg.1 (by simp)) seg.2
      obtain ⟨hk, hpriv, hq⟩ := storeSegs_keeps segs hk₁.repr hk₁.timed
        fun x hx => hfresh x (List.mem_cons_of_mem _ hx)
      exact ⟨hk₁.trans hk, hpriv, hq⟩

/-- `dfb_segment` keeps the invariants and stores fresh segments only. -/
lemma segment_keeps (P : Params) {sch : Qdisc} {held : List Stored} {p : ℕ}
    {segs : List (ℕ × SkBuff)} (hr : Repr sch held) (ht : Timed sch.priv held)
    (hs : (sch.mem p).skbMstampNs < 2 ^ 62) (hnd : (segs.map Prod.fst).Nodup)
    (hfresh : ∀ x ∈ segs.map Prod.fst, x ∉ held.map Stored.ptr) :
    Keeps sch held (dfbSegment P sch p segs).sch (held ++ (dfbSegment P sch p segs).stored) := by
  rw [dfbSegment]
  dsimp only
  set rate := pacingRate (sch.mem p) with hrate
  by_cases h0 : rate = 0
  · rw [if_pos h0]
    simp only [qdiscEnqueueTail, List.append_nil]
    exact .of_sameCalendar hr ht (.refl _) rfl
  · rw [if_neg h0]
    by_cases hnil : segs = []
    · rw [if_pos hnil]
      simp only [qdiscDrop, List.append_nil]
      exact .of_sameCalendar hr ht (.refl _) rfl
    · rw [if_neg hnil]
      have hk₁ := Keeps.lowerQid hr ht (rateClass P sch.priv (sch.mem p) rate)
      obtain ⟨hk₂, hpriv, -⟩ := storeSegs_keeps segs hk₁.repr hk₁.timed hfresh
      have hqid : (storeSegs { sch with priv := { sch.priv with
          highestRateQid := min sch.priv.highestRateQid (rateClass P sch.priv (sch.mem p) rate) } }
          segs).priv.highestRateQid ≤ rateClass P sch.priv (sch.mem p) rate := by
        rw [hpriv]
        exact min_le_right _ _
      obtain ⟨hk₃, -, -⟩ := segmentLoop_keeps (rateClass_le P _ _ _) (segs.map Prod.fst)
        (sch.mem p).skbMstampNs _ held hk₂.repr hk₂.timed hqid hnd hfresh fun _ => hs
      exact (hk₁.trans hk₂).trans hk₃

/-- **Enqueue** keeps the invariants of the calendar. -/
theorem enqueue_keeps (P : Params) {sch : Qdisc} {held : List Stored} {p : ℕ}
    {segs : List (ℕ × SkBuff)} (hr : Repr sch held) (ht : Timed sch.priv held)
    (hs : (sch.mem p).skbMstampNs < 2 ^ 62) (hnd : (p :: segs.map Prod.fst).Nodup)
    (hfresh : ∀ x ∈ p :: segs.map Prod.fst, x ∉ held.map Stored.ptr) :
    Keeps sch held (dfbEnqueue P sch p segs).sch (held ++ (dfbEnqueue P sch p segs).stored) := by
  rw [dfbEnqueue]
  dsimp only
  set rate := pacingRate (sch.mem p) with hrate
  split
  · split
    · -- the flow is not paced
      simp only [qdiscEnqueueTail, List.append_nil]
      exact .of_sameCalendar hr ht (.refl _) rfl
    · have hk₁ : Keeps sch held
          { sch with priv := updateCongestion P sch.priv (sch.mem p) } held :=
        .of_sameCalendar hr ht (sameCalendar_updateCongestion P sch.priv (sch.mem p)) rfl
      split
      · exact hk₁.trans (segment_keeps P hk₁.repr hk₁.timed hs (List.nodup_cons.mp hnd).2
          fun x hx => hfresh x (List.mem_cons_of_mem p hx))
      · have hk₂ := Keeps.lowerQid hk₁.repr hk₁.timed
          (rateClass P (updateCongestion P sch.priv (sch.mem p)) (sch.mem p) rate)
        obtain ⟨hr₃, ht₃, hw₃⟩ := enqueueToCq_spec hk₂.repr hk₂.timed (hfresh p (by simp))
          (rateClass_le P _ _ _) (min_le_right _ _) fun _ => hs
        exact (hk₁.trans hk₂).trans ⟨hr₃, ht₃, hw₃⟩
  · -- over the limit
    simp only [qdiscDrop, List.append_nil]
    exact .of_sameCalendar hr ht (.refl _) rfl

end Dfb
