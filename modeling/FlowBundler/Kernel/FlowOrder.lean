import FlowBundler.Kernel.Service

/-!
The order of the packets of one TCP flow.

* `FlowKey`, `flowOf`: addresses and ports of an IPv4 TCP packet.
* `StoredRun`: what one enqueue pushes, namely packets of one queue index and one flow,
  their time stamps clamped at one head time; `enqueue_stored`.  The head time does not
  change between the segments, as the calendar is not empty after the first.
* `World.KeepsOrder f`: a packet of `f` is not pushed before the deadline of one that is
  still held.  A finer rate class, or a head time that has gone back, can break it.
* `World.Ordered f`: the packets of `f` that are held are the last ones pushed, with their
  deadlines in that order.  An enqueue appends a run whose deadlines do not decrease, as
  rounding and clamping are monotone.  A dequeue that serves a packet of `f` serves the
  first packet of the least deadline, hence the first of `f`; it may serve packets of other
  flows out of turn, so the window is needed for the packets of `f` only.
* `flow_order`: if moreover no dequeue rewinds over a packet of `f`, the packets of `f` return
  in the order in which they were pushed; `flow_reordered`: a rise of the pacing rate between
  two packets exchanges them.
-/

namespace Dfb

open Ledger Dyadic

/-! ### Flows -/

/-- The addresses and ports of a TCP flow. -/
structure FlowKey where
  saddr : ℕ
  daddr : ℕ
  source : ℕ
  dest : ℕ
  deriving DecidableEq

/-- The TCP flow of a packet. -/
def flowOf (skb : SkBuff) : Option FlowKey :=
  (ipv4Tcp skb).map fun h =>
    { saddr := h.1.saddr, daddr := h.1.daddr, source := h.2.source, dest := h.2.dest }

/-- The packets of a flow. -/
def ofFlow (f : FlowKey) (l : List Stored) : List Stored := l.filter fun e => flowOf e.skb = some f

lemma ofFlow_append (f : FlowKey) (l l' : List Stored) :
    ofFlow f (l ++ l') = ofFlow f l ++ ofFlow f l' := List.filter_append l l'

/-- Neither the link nor the time stamp of a packet belongs to its flow. -/
lemma flowOf_update (skb : SkBuff) (next : Option ℕ) (t : ℕ) :
    flowOf { skb with next := next, skbMstampNs := t } = flowOf skb := rfl

lemma flowOf_setNext (sch : Qdisc) (p x : ℕ) (v : Option ℕ) :
    flowOf ((sch.setNext p v).mem x) = flowOf (sch.mem x) := by
  by_cases hx : x = p
  · subst hx
    rw [Qdisc.setNext, Qdisc.setSkb_mem_self]
    rfl
  · rw [Qdisc.setNext, Qdisc.setSkb_mem_of_ne _ _ _ _ hx]

/-- Storing a packet changes the flow of no packet. -/
lemma flowOf_enqueueToCq (sch : Qdisc) (p qid x : ℕ) :
    flowOf ((dfbEnqueueToCq sch p qid).1.mem x) = flowOf (sch.mem x) := by
  rw [dfbEnqueueToCq, dfbPushToBucket]
  dsimp only
  split
  · exact flowOf_setNext _ _ _ _
  · split
    · exact (flowOf_setNext _ _ _ _).trans (flowOf_setNext _ _ _ _)
    · exact flowOf_setNext _ _ _ _

/-! ### What one enqueue pushes -/

/-- The head time that the time stamps of an enqueue are clamped at. -/
lemma firstPacket_headTime (q : DfbSchedData) (qid s : ℕ) :
    (dfbFirstPacket q qid s).headTime
      = if q.bitmap = 0 then s &&& dfbHeadTimeMask qid else q.headTime := by
  rw [dfbFirstPacket]
  split <;> rfl

lemma firstPacket_headTime_congr {q q' : DfbSchedData} (hbitmap : q'.bitmap = q.bitmap)
    (hhead : q'.headTime = q.headTime) (qid s : ℕ) :
    (dfbFirstPacket q' qid s).headTime = (dfbFirstPacket q qid s).headTime := by
  rw [firstPacket_headTime, firstPacket_headTime, hbitmap, hhead]

/-- The packets `l` are of queue index `qid` and of the flow of `s`, clamped at the head
time `H`, and the first has the time stamp of `s`. -/
structure StoredRun (qid H : ℕ) (s : SkBuff) (l : List Stored) : Prop where
  queueId : ∀ x ∈ l, x.queueId = qid
  sendTime : ∀ x ∈ l,
    x.sendTime = clampT x.skb.skbMstampNs H ((H + dfbHorizon qid) % 2 ^ 64)
  flow : ∀ x ∈ l, flowOf x.skb = flowOf s
  stamp : ∀ x ∈ l.head?, x.skb.skbMstampNs = s.skbMstampNs

/-- Only the flow and the time stamp of `s` matter. -/
lemma StoredRun.congr {qid H : ℕ} {s s' : SkBuff} {l : List Stored} (h : StoredRun qid H s l)
    (hflow : flowOf s = flowOf s') (hstamp : s.skbMstampNs = s'.skbMstampNs) :
    StoredRun qid H s' l :=
  ⟨h.queueId, h.sendTime, fun x hx => (h.flow x hx).trans hflow,
    fun x hx => (h.stamp x hx).trans hstamp⟩

/-- One packet in front of a run of its flow. -/
lemma StoredRun.cons {qid H : ℕ} {s s' : SkBuff} {x : Stored} {l : List Stored}
    (h : StoredRun qid H s [x]) (h' : StoredRun qid H s' l) (hflow : flowOf s' = flowOf s) :
    StoredRun qid H s (x :: l) := by
  have hx := List.mem_singleton_self x
  refine ⟨?_, ?_, ?_, h.stamp⟩
  · rintro y (_ | ⟨_, hy⟩)
    · exact h.queueId x hx
    · exact h'.queueId y hy
  · rintro y (_ | ⟨_, hy⟩)
    · exact h.sendTime x hx
    · exact h'.sendTime y hy
  · rintro y (_ | ⟨_, hy⟩)
    · exact h.flow x hx
    · exact (h'.flow y hy).trans hflow

/-- Storing one packet. -/
lemma enqueueToCq_stored (sch : Qdisc) (p qid : ℕ) :
    StoredRun qid (dfbFirstPacket sch.priv qid (sch.mem p).skbMstampNs).headTime (sch.mem p)
      [(dfbEnqueueToCq sch p qid).2] := by
  constructor <;> intro x hx <;> obtain rfl : x = (dfbEnqueueToCq sch p qid).2 := by
    first
      | exact List.mem_singleton.mp hx
      | simpa using hx.symm
  all_goals rfl

lemma enqueueToCq_headTime (sch : Qdisc) (p qid : ℕ) :
    (dfbEnqueueToCq sch p qid).1.priv.headTime
      = (dfbFirstPacket sch.priv qid (sch.mem p).skbMstampNs).headTime := push_headTime

lemma enqueueToCq_bitmap_ne (sch : Qdisc) (p qid : ℕ) :
    (dfbEnqueueToCq sch p qid).1.priv.bitmap ≠ 0 := by
  rw [dfbEnqueueToCq, push_bitmap, Nat.one_shiftLeft, ne_eq, Nat.or_eq_zero_iff]
  exact fun h => absurd h.2 (by positivity)

/-- The segments of one packet: the head time does not change between them. -/
lemma segmentLoop_stored (qid rate hdrLen : ℕ) {F : Option FlowKey} :
    ∀ (segs : List ℕ) (ntime : ℕ) (sch : Qdisc), (∀ x ∈ segs, flowOf (sch.mem x) = F) →
      ∀ s : SkBuff, flowOf s = F → s.skbMstampNs = ntime →
      StoredRun qid (dfbFirstPacket sch.priv qid ntime).headTime s
        (dfbSegmentLoop qid rate hdrLen segs ntime sch).2
  | [], ntime, sch, _, s, _, _ => by
      rw [dfbSegmentLoop]
      exact ⟨by simp, by simp, by simp, by simp⟩
  | seg :: segs, ntime, sch, hF, s, hs, hstamp => by
      rw [dfbSegmentLoop]
      dsimp only
      set sch₁ := sch.setSkb seg { sch.mem seg with next := none, skbMstampNs := ntime } with hsch₁
      have hseg : sch₁.mem seg = { sch.mem seg with next := none, skbMstampNs := ntime } := by
        rw [hsch₁, Qdisc.setSkb_mem_self]
      have hpriv : sch₁.priv = sch.priv := rfl
      have htime : (sch₁.mem seg).skbMstampNs = ntime := by rw [hseg]
      have hflow : ∀ x ∈ seg :: segs, flowOf (sch₁.mem x) = F := by
        intro x hx
        by_cases hxs : x = seg
        · rw [hxs, hseg, flowOf_update]
          exact hF seg (by simp)
        · rw [hsch₁, Qdisc.setSkb_mem_of_ne _ _ _ _ hxs]
          exact hF x hx
      have hone := enqueueToCq_stored sch₁ seg qid
      rw [hpriv, htime] at hone
      -- after the first segment the calendar is not empty, so the head time stays
      have hhead : ∀ t, (dfbFirstPacket (dfbEnqueueToCq sch₁ seg qid).1.priv qid t).headTime
          = (dfbFirstPacket sch.priv qid ntime).headTime := by
        intro t
        rw [firstPacket_headTime, if_neg (enqueueToCq_bitmap_ne sch₁ seg qid),
          enqueueToCq_headTime, hpriv, htime]
      have hrest := fun t => segmentLoop_stored qid rate hdrLen segs t
        (dfbEnqueueToCq sch₁ seg qid).1
        (fun x hx => (flowOf_enqueueToCq sch₁ seg qid x).trans
          (hflow x (List.mem_cons_of_mem seg hx)))
        { s with skbMstampNs := t } hs rfl
      simp only [hhead] at hrest
      exact (hone.congr ((hflow seg (by simp)).trans hs.symm) (htime.trans hstamp.symm)).cons
        (hrest _) (flowOf_update s s.next _)

/-- Writing segments of one flow. -/
lemma flowOf_storeSegs {F : Option FlowKey} :
    ∀ (segs : List (ℕ × SkBuff)) (sch : Qdisc) (x : ℕ), (∀ seg ∈ segs, flowOf seg.2 = F) →
      (x ∈ segs.map Prod.fst ∨ flowOf (sch.mem x) = F) →
      flowOf ((storeSegs sch segs).mem x) = F
  | [], sch, x, _, hx => by simpa [storeSegs] using hx
  | seg :: segs, sch, x, hF, hx => by
      refine flowOf_storeSegs segs (sch.setSkb seg.1 seg.2) x
        (fun y hy => hF y (List.mem_cons_of_mem seg hy)) ?_
      by_cases hxs : x = seg.1
      · right
        rw [hxs, Qdisc.setSkb_mem_self]
        exact hF seg (by simp)
      · rw [Qdisc.setSkb_mem_of_ne _ _ _ _ hxs]
        rcases hx with hx | hx
        · left
          simpa [hxs] using hx
        · exact .inr hx

lemma storeSegs_priv (segs : List (ℕ × SkBuff)) (sch : Qdisc) :
    (storeSegs sch segs).priv = sch.priv := by
  induction segs generalizing sch with
  | nil => rfl
  | cons seg segs ih => exact ih (sch.setSkb seg.1 seg.2)

/-- The queue index `dfb_enqueue` gives to a packet. -/
def classOf (P : Params) (q : DfbSchedData) (skb : SkBuff) : ℕ :=
  rateClass P (updateCongestion P q skb) skb (pacingRate skb)

/-- **What an enqueue pushes**: nothing, or, when the flow is paced and the limit is not
reached, packets of its flow and queue index. -/
lemma enqueue_stored (P : Params) (sch : Qdisc) (p : ℕ) (segs : List (ℕ × SkBuff))
    (hF : ∀ seg ∈ segs, flowOf seg.2 = flowOf (sch.mem p)) :
    (dfbEnqueue P sch p segs).stored = [] ∨
      (sch.priv.nPacketsTotal < P.queueLimit ∧ pacingRate (sch.mem p) ≠ 0 ∧
        StoredRun (classOf P sch.priv (sch.mem p))
          (dfbFirstPacket sch.priv (classOf P sch.priv (sch.mem p))
            (sch.mem p).skbMstampNs).headTime
          (sch.mem p) (dfbEnqueue P sch p segs).stored) := by
  have hcal := sameCalendar_updateCongestion P sch.priv (sch.mem p)
  rw [dfbEnqueue]
  dsimp only
  split
  · rename_i hlimit
    split
    · exact .inl rfl
    · rename_i hrate
      set q₁ : DfbSchedData := { updateCongestion P sch.priv (sch.mem p) with
        highestRateQid := min (updateCongestion P sch.priv (sch.mem p)).highestRateQid
          (classOf P sch.priv (sch.mem p)) } with hq₁
      have hhead := firstPacket_headTime_congr (show q₁.bitmap = sch.priv.bitmap from hcal.bitmap)
        hcal.headTime (classOf P sch.priv (sch.mem p)) (sch.mem p).skbMstampNs
      split
      · rw [dfbSegment]
        dsimp only
        rw [if_neg hrate]
        split
        · exact .inl rfl
        · refine .inr ⟨hlimit, hrate, ?_⟩
          rw [← hhead]
          have hrun := segmentLoop_stored (classOf P sch.priv (sch.mem p))
            (pacingRate (sch.mem p))
            (((sch.mem p).transportOffset + (sch.mem p).tcpHdrlen) % 2 ^ 8)
            (segs.map Prod.fst) (sch.mem p).skbMstampNs (storeSegs { sch with priv := q₁ } segs)
            (fun x hx => flowOf_storeSegs segs _ x hF (.inl hx)) (sch.mem p) rfl rfl
          rw [storeSegs_priv] at hrun
          exact hrun
      · refine .inr ⟨hlimit, hrate, ?_⟩
        rw [← hhead]
        exact enqueueToCq_stored { sch with priv := q₁ } p (classOf P sch.priv (sch.mem p))
  · exact .inl rfl

/-! ### Order -/

lemma clampT_mono {s s' lo hi : ℕ} (h : s ≤ s') : clampT s lo hi ≤ clampT s' lo hi := by
  rw [clampT, clampT]
  omega

lemma deadline_mono {q s s' : ℕ} (h : s ≤ s') : deadline q s ≤ deadline q s' := by
  rw [deadline_eq, deadline_eq]
  exact nextTo_le (dvd_nextTo q s') (lt_of_le_of_lt h (lt_nextTo q s'))

namespace StoredRun

variable {qid H : ℕ} {s : SkBuff} {l : List Stored} {f : FlowKey}

lemma deadline_eq (h : StoredRun qid H s l) {x : Stored} (hx : x ∈ l) :
    x.deadline = deadline qid (clampT x.skb.skbMstampNs H ((H + dfbHorizon qid) % 2 ^ 64)) := by
  rw [Stored.deadline, h.queueId x hx, h.sendTime x hx]

/-- A run of the flow `f` is of `f` as a whole, and of no other flow. -/
lemma ofFlow_eq (h : StoredRun qid H s l) (f : FlowKey) :
    ofFlow f l = if flowOf s = some f then l else [] := by
  split
  · rename_i hf
    exact List.filter_eq_self.mpr fun x hx => by simpa [h.flow x hx] using hf
  · rename_i hf
    exact List.filter_eq_nil_iff.mpr fun x hx => by simpa [h.flow x hx] using hf

/-- The time stamps of a run whose time stamps do not decrease start at that of `s`. -/
lemma stamp_le (h : StoredRun qid H s l)
    (hsorted : l.Pairwise fun a b => a.skb.skbMstampNs ≤ b.skb.skbMstampNs) {x : Stored}
    (hx : x ∈ l) : s.skbMstampNs ≤ x.skb.skbMstampNs := by
  cases l with
  | nil => simp at hx
  | cons y l =>
      have hy := h.stamp y (by simp)
      rcases List.mem_cons.mp hx with rfl | hx
      · exact hy.symm.le
      · exact hy.symm.le.trans ((List.pairwise_cons.mp hsorted).1 x hx)

/-- Deadlines of a run do not decrease when time stamps do not. -/
lemma pairwise_deadline (h : StoredRun qid H s l)
    (hsorted : l.Pairwise fun a b => a.skb.skbMstampNs ≤ b.skb.skbMstampNs) :
    l.Pairwise fun a b => a.deadline ≤ b.deadline := by
  refine hsorted.imp_of_mem fun {a b} ha hb hab => ?_
  rw [h.deadline_eq ha, h.deadline_eq hb]
  exact deadline_mono (clampT_mono hab)

end StoredRun

namespace World

/-- The segments of a packet are of its flow: `skb_gso_segment` copies the headers. -/
def SegsOfFlow (_ : World) : Op → Prop
  | .enqueue _ skb segs => ∀ seg ∈ segs, flowOf seg.2 = flowOf skb
  | .dequeue _ _ => True

instance (w : World) : (op : Op) → Decidable (w.SegsOfFlow op)
  | .enqueue _ _ segs => inferInstanceAs (Decidable (∀ seg ∈ segs, _))
  | .dequeue _ _ => inferInstanceAs (Decidable True)

/-- A packet of the flow `f` that will be pushed, with its queue index and clamped time
stamp, has no held packet of `f` behind its deadline. -/
def KeepsOrder (P : Params) (f : FlowKey) (w : World) : Op → Prop
  | .enqueue _ skb _ =>
      flowOf skb = some f → w.sch.priv.nPacketsTotal < P.queueLimit → pacingRate skb ≠ 0 →
        ∀ e ∈ w.held, flowOf e.skb = some f →
          e.deadline ≤ deadline (classOf P w.sch.priv skb)
            (clampT skb.skbMstampNs w.sch.priv.headTime
              ((w.sch.priv.headTime + dfbHorizon (classOf P w.sch.priv skb)) % 2 ^ 64))
  | .dequeue _ _ => True

instance (P : Params) (f : FlowKey) (w : World) : (op : Op) → Decidable (w.KeepsOrder P f op)
  | .enqueue _ _ _ => inferInstanceAs (Decidable (_ → _ → _ → ∀ e ∈ w.held, _))
  | .dequeue _ _ => inferInstanceAs (Decidable True)

/-- The packets of `f` were pushed with nondecreasing time stamps. -/
def StampsSorted (f : FlowKey) (w : World) : Prop :=
  (ofFlow f w.pushed).Pairwise fun a b => a.skb.skbMstampNs ≤ b.skb.skbMstampNs

instance (f : FlowKey) (w : World) : Decidable (w.StampsSorted f) :=
  inferInstanceAs (Decidable (List.Pairwise _ _))

/-- The packets of `f` are returned in the order in which they were pushed: those returned
so far are the first ones. -/
def FlowInOrder (f : FlowKey) (w : World) : Prop := ofFlow f w.returned <+: ofFlow f w.pushed

instance (f : FlowKey) (w : World) : Decidable (w.FlowInOrder f) :=
  inferInstanceAs (Decidable (_ <+: _))

/-- The packets of `f` that are held are the last ones pushed, with deadlines in that
order. -/
structure Ordered (f : FlowKey) (w : World) : Prop where
  split : ofFlow f w.pushed = ofFlow f w.returned ++ ofFlow f w.held
  sorted : (ofFlow f w.held).Pairwise fun a b => a.deadline ≤ b.deadline

lemma Ordered.inOrder {f : FlowKey} {w : World} (h : w.Ordered f) : w.FlowInOrder f := by
  rw [FlowInOrder, h.split]
  exact List.prefix_append _ _

/-- Pushing a run behind the held packets keeps the order. -/
lemma Ordered.enqueue {P : Params} {f : FlowKey} {w w' : World} {p : ℕ} {skb : SkBuff}
    {segs : List (ℕ × SkBuff)} (h : w.Ordered f) (hinv : w.Inv)
    (hsegs : w.SegsOfFlow (.enqueue p skb segs)) (hkeeps : w.KeepsOrder P f (.enqueue p skb segs))
    (hstep : w.step P (.enqueue p skb segs) = some w') (hstamps : w'.StampsSorted f) :
    w'.Ordered f := by
  obtain rfl := step_enqueue hstep
  have hmem : (w.sch.setSkb p skb).mem p = skb := Qdisc.setSkb_mem_self _ _ _
  have hstored := enqueue_stored P (w.sch.setSkb p skb) p segs (by rw [hmem]; exact hsegs)
  rw [hmem] at hstored
  dsimp only [StampsSorted] at hstamps
  set l := (dfbEnqueue P (w.sch.setSkb p skb) p segs).stored with hl
  rw [ofFlow_append] at hstamps
  refine ⟨?_, ?_⟩
  · dsimp only
    rw [ofFlow_append, ofFlow_append, h.split, List.append_assoc]
  dsimp only
  rw [ofFlow_append]
  rcases hstored with hnil | ⟨hlimit, hrate, hrun⟩
  · rw [hnil]
    simpa [ofFlow] using h.sorted
  · rw [hrun.ofFlow_eq] at hstamps ⊢
    split
    · rename_i hf
      rw [if_pos hf] at hstamps
      have hsorted := (List.pairwise_append.mp hstamps).2.1
      refine List.pairwise_append.mpr ⟨h.sorted, hrun.pairwise_deadline hsorted, ?_⟩
      intro e he x hx
      obtain ⟨heheld, hef⟩ := List.mem_filter.mp he
      -- a packet is held, so the head time is not set anew
      have hbitmap : w.sch.priv.bitmap ≠ 0 := fun hz => by
        rw [hinv.repr.bitmap_eq_zero_iff.mp hz] at heheld
        simp at heheld
      have hle := hkeeps hf hlimit hrate e heheld (by simpa using hef)
      have hD := hrun.deadline_eq hx
      rw [Qdisc.setSkb_priv, firstPacket_headTime, if_neg hbitmap] at hD
      rw [hD]
      exact hle.trans (deadline_mono (clampT_mono (hrun.stamp_le hsorted hx)))
    · simpa using h.sorted

/-- Serving the least deadline keeps the order.  A packet of another flow may be served out
of turn. -/
lemma Ordered.dequeue {P : Params} {f : FlowKey} {w w' : World} {now tTime : ℕ}
    (h : w.Ordered f) (hinv : w.Inv)
    (hwin : Windowed (fun e => flowOf e.skb = some f) w.sch.priv w.held) (hnow : now < 2 ^ 62)
    (hstep : w.step P (.dequeue now tTime) = some w') : w'.Ordered f := by
  obtain ⟨r, hrun, rfl⟩ := step_dequeue hstep
  -- the packets of `f` are split by what is popped, in this order
  have hsplit : ofFlow f w.held = ofFlow f (named Stored.ptr w.held (popped w r))
      ++ ofFlow f (without Stored.ptr w.held (popped w r)) := by
    have hnone : popped w r = [] → ofFlow f w.held
        = ofFlow f (named Stored.ptr w.held (popped w r))
          ++ ofFlow f (without Stored.ptr w.held (popped w r)) := by
      intro hnil
      rw [hnil, without_eq_self (by simp)]
      simp [named, ofFlow]
    cases dequeue_cases hinv.repr hinv.timed hnow hrun with
    | unpaced p rest hq hsame hmem => exact hnone (if_neg (by simp [hq]))
    | calendar hq r₀ hout hsame hmem hsch hskb hwake =>
        cases hp : r.skb with
        | none => exact hnone (by rw [popped, if_pos hq, hp]; rfl)
        | some p =>
            obtain ⟨e, he, rfl, hserved⟩ := hout.firstLeast hwin hinv.timed (hskb ▸ hp)
            rw [popped, if_pos hq, hp]
            exact filter_eq_of_served he (fun hf => (hserved (by simpa using hf)).1)
              hinv.repr.nodup h.sorted
  refine ⟨?_, ?_⟩
  · dsimp only
    rw [h.split, hsplit, ofFlow_append, List.append_assoc]
  · have hsorted := h.sorted
    rw [hsplit] at hsorted
    exact (List.pairwise_append.mp hsorted).2.1

end World

/-- **Per-flow order**: along operations that do not rewind over packets of `f` and push no
packet of `f` before the deadline of one still held, the packets of `f` return in the order
of their pushes. -/
theorem flow_order {P : Params} {f : FlowKey} {w : World}
    (hw : Reach P (fun w op => (w.Admits op ∧ w.NoRewindOf (fun e => flowOf e.skb = some f) op) ∧
      w.SegsOfFlow op ∧ w.KeepsOrder P f op) w) (hstamps : w.StampsSorted f) : w.FlowInOrder f := by
  refine World.Ordered.inOrder ?_
  induction hw with
  | start hinit =>
      obtain ⟨sch, now, -, -, rfl⟩ := hinit
      exact ⟨rfl, .nil⟩
  | @step w w' op hw hok hstep ih =>
      obtain ⟨hinv, hwin⟩ := reach_windowed (hw.mono fun _ _ h => h.1)
      cases op with
      | enqueue p skb segs =>
          refine (ih ?_).enqueue hinv hok.2.1 hok.2.2 hstep hstamps
          obtain rfl := step_enqueue hstep
          dsimp only [World.StampsSorted] at hstamps
          rw [ofFlow_append] at hstamps
          exact (List.pairwise_append.mp hstamps).1
      | dequeue now tTime =>
          refine (ih ?_).dequeue hinv hwin hok.1.1 hstep
          obtain ⟨r, -, rfl⟩ := step_dequeue hstep
          exact hstamps

/-! ### A change of the rate class -/

/-- `jhash2` of three words: one round of the final mix. -/
def jhash2Three (k : List ℕ) (initval : ℕ) : ℕ :=
  let c₀ : BitVec 32 := 0xdeadbeef#32 + BitVec.ofNat 32 (k.length <<< 2) + BitVec.ofNat 32 initval
  let a := c₀ + BitVec.ofNat 32 (k.getD 0 0)
  let b := c₀ + BitVec.ofNat 32 (k.getD 1 0)
  let c := c₀ + BitVec.ofNat 32 (k.getD 2 0)
  let c := (c ^^^ b) - b.rotateLeft 14
  let a := (a ^^^ c) - c.rotateLeft 11
  let b := (b ^^^ a) - a.rotateLeft 25
  let c := (c ^^^ b) - b.rotateLeft 16
  let a := (a ^^^ c) - c.rotateLeft 4
  let b := (b ^^^ a) - a.rotateLeft 14
  let c := (c ^^^ b) - b.rotateLeft 24
  c.toNat

/-- The default module parameters, with the hash of a flow. -/
def tcpParams : Params := { plainParams with jhash2 := jhash2Three }

/-- A TCP flow. -/
def sampleFlow : FlowKey := { saddr := 1, daddr := 2, source := 80, dest := 4000 }

/-- A packet of the flow `f`. -/
def tcpSkb (f : FlowKey) (rate t : ℕ) : SkBuff :=
  { pacedSkb rate t with
    ipHdr := some { version := 4, protocol := 6, saddr := f.saddr, daddr := f.daddr }
    tcpHdr := some { source := f.source, dest := f.dest, fin := false, rst := false } }

/-- A flow that slows down: three packets, two of them already returned, in order. -/
theorem flow_order_run :
    ∃ w, Reach tcpParams (fun w op =>
        (w.Admits op ∧ w.NoRewindOf (fun e => flowOf e.skb = some sampleFlow) op) ∧
          w.SegsOfFlow op ∧ w.KeepsOrder tcpParams sampleFlow op) w ∧
      w.out = [1, 2] ∧ w.pushed.length = 3 ∧ w.FlowInOrder sampleFlow := by
  obtain ⟨w, hw, hout, hpushed, hstamps⟩ := exists_reach tcpParams
    (fun w op => (w.Admits op ∧ w.NoRewindOf (fun e => flowOf e.skb = some sampleFlow) op) ∧
      w.SegsOfFlow op ∧ w.KeepsOrder tcpParams sampleFlow op)
    [.enqueue 1 (tcpSkb sampleFlow 1250000000 0) [],
      .enqueue 2 (tcpSkb sampleFlow 1250000000 1200) [],
      .dequeue 0 0, .enqueue 3 (tcpSkb sampleFlow 125000000 2400) [], .dequeue 1200 1200]
    (fun w => w.out = [1, 2] ∧ w.pushed.length = 3 ∧ w.StampsSorted sampleFlow)
    (by decide +kernel)
  exact ⟨w, hw, hout, hpushed, flow_order hw hstamps⟩

/-- A flow that speeds up: the second packet, of a finer rate class, is returned first. -/
theorem flow_reordered :
    ¬ ∀ (P : Params) (f : FlowKey) (w : World),
      Reach P (fun w op => w.Admits op ∧ w.Ticks op ∧ w.SegsOfFlow op) w →
      w.StampsSorted f → w.FlowInOrder f := by
  intro hall
  obtain ⟨w, hw, hstamps, hreordered⟩ := exists_reach tcpParams
    (fun w op => w.Admits op ∧ w.Ticks op ∧ w.SegsOfFlow op)
    [.enqueue 1 (tcpSkb sampleFlow 125000000 0) [],
      .enqueue 2 (tcpSkb sampleFlow 1250000000 1000) [], .dequeue 0 0]
    (fun w => w.StampsSorted sampleFlow ∧ ¬ w.FlowInOrder sampleFlow)
    (by decide +kernel)
  exact hreordered (hall tcpParams sampleFlow w hw hstamps)

end Dfb
