import FlowBundler.Kernel.Invariant

/-!
What the qdisc holds in every run, whatever the time stamps.

`Repr` needs levels inside the calendar, hence bounded times; the links and the total do
not, and neither does the list `sch->q`.  So the contents are followed once more, on the
links alone and without any bound on the times.

* `World.Fresh`: the packets handed over are not queued already.
* `Grows`: storing packets; `arrivals`, `enqueue_contents`: what an enqueue adds, and where.
  The loop over the segments goes by induction on them.
* `Leaves`, `dequeue_leaves`: what a dequeue takes out, and from where.  Whatever the loops of
  the scan did, a packet that is returned was popped from a bucket, and the links say that it
  is one of those held.
* `World.Contents`, `reach_contents`: the links hold exactly the held packets, the total
  counts them, and no packet is in two places.
-/

namespace Dfb

open Ledger

/-! ### Storing -/

/-- The step stores the packets `stored` in the calendar and leaves `sch->q` alone. -/
structure Grows (sch : Qdisc) (held : List Stored) (sch' : Qdisc) (stored : List Stored) :
    Prop where
  linked : Linked sch' (held ++ stored)
  total : sch'.priv.nPacketsTotal = sch.priv.nPacketsTotal + stored.length
  q : sch'.q = sch.q

namespace Grows

variable {sch sch' sch'' : Qdisc} {held l l' : List Stored}

/-- A step that stores nothing. -/
lemma of_linked (h : Linked sch' held) (htotal : sch'.priv.nPacketsTotal = sch.priv.nPacketsTotal)
    (hq : sch'.q = sch.q) : Grows sch held sch' [] :=
  ⟨by rwa [List.append_nil], by simp [htotal], hq⟩

lemma trans (h : Grows sch held sch' l) (h' : Grows sch' (held ++ l) sch'' l') :
    Grows sch held sch'' (l ++ l') := by
  refine ⟨?_, ?_, h'.q.trans h.q⟩
  · rw [← List.append_assoc]
    exact h'.linked
  · rw [h'.total, h.total, List.length_append, Nat.add_assoc]

end Grows

lemma enqueueToCq_grows {sch : Qdisc} {held : List Stored} {p : ℕ} (h : Linked sch held)
    (hp : p ∉ held.map Stored.ptr) (qid : ℕ) :
    Grows sch held (dfbEnqueueToCq sch p qid).1 [(dfbEnqueueToCq sch p qid).2] := by
  set e := (dfbEnqueueToCq sch p qid).2 with he
  have hfirst : Linked { sch with priv := dfbFirstPacket sch.priv qid (sch.mem p).skbMstampNs }
      held := h.congr (by rw [dfbFirstPacket]; split <;> rfl) fun _ _ => rfl
  refine ⟨hfirst.push (e := e) hp, ?_, enqueueToCq_q sch p qid⟩
  have hpush : (dfbEnqueueToCq sch p qid).1.priv.nPacketsTotal
      = (dfbFirstPacket sch.priv qid (sch.mem p).skbMstampNs).nPacketsTotal + 1 :=
    push_nPacketsTotal
  rw [hpush, dfbFirstPacket]
  split <;> rfl

/-- The loop of `dfb_segment` stores every segment, by induction on the segments. -/
lemma segmentLoop_grows (qid rate hdrLen : ℕ) {segs : List ℕ} (hnd : segs.Nodup) :
    ∀ (ntime : ℕ) {sch : Qdisc} {held : List Stored}, Linked sch held →
      (∀ x ∈ segs, x ∉ held.map Stored.ptr) →
      Grows sch held (dfbSegmentLoop qid rate hdrLen segs ntime sch).1
          (dfbSegmentLoop qid rate hdrLen segs ntime sch).2 ∧
        (dfbSegmentLoop qid rate hdrLen segs ntime sch).2.map Stored.ptr = segs := by
  induction segs with
  | nil => exact fun _ _ _ h _ => ⟨.of_linked h rfl rfl, rfl⟩
  | cons seg segs ih =>
      intro ntime sch held h hfresh
      obtain ⟨hnot, hnd'⟩ := List.nodup_cons.mp hnd
      have hseg := hfresh seg (by simp)
      set sch₁ := sch.setSkb seg { sch.mem seg with next := none, skbMstampNs := ntime } with hs₁
      have h₁ : Linked sch₁ held := h.setSkb hseg _
      have hg₁ := enqueueToCq_grows h₁ hseg qid
      obtain ⟨hg, hptr⟩ := ih hnd'
        ((ntime + ((sch₁.mem seg).len - min hdrLen (sch₁.mem seg).len) * nsecPerSec
          % 2 ^ 64 / rate) % 2 ^ 64) hg₁.linked (by
        intro x hx hmem
        rw [List.map_append, List.mem_append] at hmem
        rcases hmem with hold | hnew
        · exact hfresh x (List.mem_cons_of_mem seg hx) hold
        · obtain rfl : x = seg := List.mem_singleton.mp hnew
          exact hnot hx)
      have hall := hg₁.trans hg
      exact ⟨⟨hall.linked, hall.total, hall.q⟩, congrArg (seg :: ·) hptr⟩

lemma storeSegs_grows {segs : List (ℕ × SkBuff)} :
    ∀ {sch : Qdisc} {held : List Stored}, Linked sch held →
      (∀ x ∈ segs.map Prod.fst, x ∉ held.map Stored.ptr) →
      Grows sch held (storeSegs sch segs) [] := by
  induction segs with
  | nil => exact fun h _ => .of_linked h rfl rfl
  | cons seg segs ih =>
      intro sch held h hfresh
      have h₁ := h.setSkb (hfresh seg.1 (by simp)) seg.2
      obtain ⟨hl, htotal, hq⟩ := ih h₁ fun x hx => hfresh x (List.mem_cons_of_mem _ hx)
      exact ⟨hl, htotal, hq⟩

/-! ### Enqueue -/

/-- The number of packets that an enqueue below the limit adds. -/
def arrivals (P : Params) (skb : SkBuff) (segs : List (ℕ × SkBuff)) : ℕ :=
  if pacingRate skb = 0 then 1 else if P.gsoSplit && skb.isGso then segs.length else 1

/-- What an enqueue adds: nothing, the packet to `sch->q`, or the packet or its segments to
the calendar. -/
inductive EnqueueCases (P : Params) (sch : Qdisc) (held : List Stored) (p : ℕ)
    (segs : List (ℕ × SkBuff)) (r : EnqueueResult) : Prop
  | refused (hlimit : P.queueLimit ≤ sch.priv.nPacketsTotal) (hsch : r.sch = sch)
      (hstored : r.stored = [])
  | unpaced (hlimit : sch.priv.nPacketsTotal < P.queueLimit)
      (hnum : arrivals P (sch.mem p) segs = 1) (hq : r.sch.q = sch.q ++ [p])
      (hstored : r.stored = []) (hlinked : Linked r.sch held)
      (htotal : r.sch.priv.nPacketsTotal = sch.priv.nPacketsTotal)
  | paced (hlimit : sch.priv.nPacketsTotal < P.queueLimit) (ps : List ℕ)
      (hps : ps = [p] ∨ ps = segs.map Prod.fst) (hnum : arrivals P (sch.mem p) segs = ps.length)
      (hptr : r.stored.map Stored.ptr = ps) (hgrows : Grows sch held r.sch r.stored)

section Enqueue

variable {P : Params} {sch : Qdisc} {held : List Stored} {p : ℕ} {segs : List (ℕ × SkBuff)}

/-- `dfb_segment` stores the segments, if there are any. -/
lemma segment_grows (h : Linked sch held) (hrate : pacingRate (sch.mem p) ≠ 0)
    (hnd : (segs.map Prod.fst).Nodup)
    (hfresh : ∀ x ∈ segs.map Prod.fst, x ∉ held.map Stored.ptr) :
    Grows sch held (dfbSegment P sch p segs).sch (dfbSegment P sch p segs).stored ∧
      (dfbSegment P sch p segs).stored.map Stored.ptr = segs.map Prod.fst := by
  rw [dfbSegment]
  dsimp only
  rw [if_neg hrate]
  by_cases hnil : segs = []
  · subst hnil
    rw [if_pos rfl]
    exact ⟨.of_linked h rfl rfl, rfl⟩
  · rw [if_neg hnil]
    have hlower : Linked { sch with priv := { sch.priv with
        highestRateQid := min sch.priv.highestRateQid
          (rateClass P sch.priv (sch.mem p) (pacingRate (sch.mem p))) } } held :=
      h.congr rfl fun _ _ => rfl
    have hstore := storeSegs_grows hlower hfresh
    have hl := hstore.linked
    rw [List.append_nil] at hl
    obtain ⟨hg, hptr⟩ := segmentLoop_grows (rateClass P sch.priv (sch.mem p)
      (pacingRate (sch.mem p))) (pacingRate (sch.mem p))
      (((sch.mem p).transportOffset + (sch.mem p).tcpHdrlen) % 2 ^ 8) hnd
      (sch.mem p).skbMstampNs hl hfresh
    exact ⟨⟨hg.linked, hg.total.trans (by rw [hstore.total]; rfl), hg.q.trans hstore.q⟩, hptr⟩

/-- **Enqueue** adds as many packets as `arrivals` says, or none at the limit. -/
theorem enqueue_contents (h : Linked sch held) (hnd : (p :: segs.map Prod.fst).Nodup)
    (hfresh : ∀ x ∈ p :: segs.map Prod.fst, x ∉ held.map Stored.ptr) :
    EnqueueCases P sch held p segs (dfbEnqueue P sch p segs) := by
  have hfresh' : ∀ x ∈ segs.map Prod.fst, x ∉ held.map Stored.ptr :=
    fun x hx => hfresh x (List.mem_cons_of_mem p hx)
  rw [dfbEnqueue]
  dsimp only
  by_cases hlimit : sch.priv.nPacketsTotal < P.queueLimit
  · rw [if_pos hlimit]
    by_cases hrate : pacingRate (sch.mem p) = 0
    · -- the flow is not paced
      rw [if_pos hrate]
      exact .unpaced hlimit (by simp [arrivals, hrate]) rfl rfl (h.congr rfl fun _ _ => rfl) rfl
    · rw [if_neg hrate]
      have hmark := sameCalendar_updateCongestion P sch.priv (sch.mem p)
      have h₁ : Linked { sch with priv := updateCongestion P sch.priv (sch.mem p) } held :=
        h.congr hmark.mlcq fun _ _ => rfl
      by_cases hgso : (P.gsoSplit && (sch.mem p).isGso) = true
      · rw [if_pos hgso]
        obtain ⟨hg, hptr⟩ := segment_grows (P := P) (p := p) h₁ hrate (List.nodup_cons.mp hnd).2
          hfresh'
        refine .paced hlimit _ (.inr rfl) ?_ hptr
          ⟨hg.linked, hg.total.trans (by rw [hmark.nPacketsTotal]), hg.q⟩
        rw [arrivals, if_neg hrate, if_pos hgso, List.length_map]
      · rw [if_neg hgso]
        have h₂ : Linked { sch with priv := { updateCongestion P sch.priv (sch.mem p) with
            highestRateQid := min (updateCongestion P sch.priv (sch.mem p)).highestRateQid
              (rateClass P (updateCongestion P sch.priv (sch.mem p)) (sch.mem p)
                (pacingRate (sch.mem p))) } } held := h₁.congr rfl fun _ _ => rfl
        have hg := enqueueToCq_grows h₂ (hfresh p (by simp)) (rateClass P
          (updateCongestion P sch.priv (sch.mem p)) (sch.mem p) (pacingRate (sch.mem p)))
        refine .paced hlimit [p] (.inl rfl) ?_ rfl
          ⟨hg.linked, hg.total.trans (congrArg (· + 1) hmark.nPacketsTotal), hg.q⟩
        rw [arrivals, if_neg hrate, if_neg hgso, List.length_singleton]
  · rw [if_neg hlimit]
    exact .refused (not_lt.mp hlimit) rfl rfl

end Enqueue

/-! ### Dequeue -/

/-- What a dequeue takes out: the first packet of `sch->q`, nothing, or a held packet. -/
inductive Leaves (sch : Qdisc) (held : List Stored) (r : DequeueResult) : Prop
  | unpaced (p : ℕ) (rest : List ℕ) (hq : sch.q = p :: rest) (hq' : r.sch.q = rest)
      (hlinked : Linked r.sch held)
      (htotal : r.sch.priv.nPacketsTotal = sch.priv.nPacketsTotal)
  | idle (hq : sch.q = []) (hq' : r.sch.q = []) (hskb : r.skb = none)
      (hlinked : Linked r.sch held)
      (htotal : r.sch.priv.nPacketsTotal = sch.priv.nPacketsTotal)
  | served (hq : sch.q = []) (hq' : r.sch.q = []) (e : Stored) (he : e ∈ held)
      (hskb : r.skb = some e.ptr) (hlinked : Linked r.sch (without Stored.ptr held [e.ptr]))
      (htotal : r.sch.priv.nPacketsTotal = sch.priv.nPacketsTotal - 1)

section Dequeue

variable {P : Params} {sch sch' : Qdisc} {held : List Stored} {now tTime : ℕ}
  {r : DequeueResult}

/-- A pop that returns a packet takes a held packet out of the links. -/
lemma pop_linked (h : Linked sch held) {loc : DfbLocation} {p : ℕ}
    (hpop : dfbPopFromBucket sch loc = (some p, sch')) :
    ∃ e ∈ held, p = e.ptr ∧ Linked sch' (without Stored.ptr held [e.ptr]) ∧
      sch'.priv.nPacketsTotal = sch.priv.nPacketsTotal - 1 ∧ sch'.q = sch.q := by
  cases hL : bucketList held loc.queueId (loc.bucketId &&& bidMask) with
  | nil => simp [h.pop_none hL] at hpop
  | cons e rest =>
      obtain ⟨hret, hl⟩ := h.pop_some hL
      have hmem : e ∈ bucketList held loc.queueId (loc.bucketId &&& bidMask) := by simp [hL]
      have hhead : (sch.bucket loc).head = some e.ptr := by
        have hchain := h.chain loc.queueId (loc.bucketId &&& bidMask)
        rw [hL] at hchain
        exact hchain.1
      obtain ⟨-, -, hpriv, hq⟩ := Linked.pop_eq hhead
      rw [hpop] at hret hl hpriv hq
      refine ⟨e, (mem_slot.mp hmem).1, by simpa using hret, hl, ?_, hq⟩
      rw [hpriv]

/-- The calendar part of a dequeue; a hit of the scan is a pop. -/
lemma calendar_leaves (h : Linked sch held) (hq : sch.q = [])
    (hrun : dfbDequeueCalendar sch now = some r) : Leaves sch held r := by
  rw [dfbDequeueCalendar] at hrun
  dsimp only at hrun
  split at hrun
  · obtain rfl : _ = r := by simpa using hrun
    exact .idle hq hq rfl h rfl
  · split at hrun
    · simp at hrun
    · rename_i p sch' t hscan
      obtain rfl : _ = r := by simpa using hrun
      obtain ⟨-, hround⟩ := Loop.whileDue_inl hscan
      rw [dfbScanRound] at hround
      split at hround
      · rename_i p' sch'' hpop
        obtain ⟨rfl, rfl⟩ : p' = p ∧ sch'' = sch' := by simpa using hround
        obtain ⟨e, he, rfl, hl, htotal, hq'⟩ := pop_linked h hpop
        refine .served hq (hq'.trans hq) e he rfl (hl.congr ?_ fun _ _ => rfl) ?_
        · rw [dfbAfterPop]
          dsimp only
          split <;> rfl
        · rw [← htotal, dfbAfterPop]
          dsimp only
          split <;> rfl
      · simp at hround
    · split at hrun
      · simp at hrun
      · obtain rfl : _ = r := by simpa using hrun
        exact .idle hq hq rfl (h.congr rfl fun _ _ => rfl) rfl

/-- **Dequeue** takes out at most one packet, from `sch->q` as long as it is not empty. -/
theorem dequeue_leaves (h : Linked sch held) (hrun : dfbDequeue P sch now tTime = some r) :
    Leaves sch held r := by
  -- the estimator leaves links, total and `sch->q` alone
  have hdone : ∀ (s : Qdisc) (skb : Option ℕ) (held' : List Stored), Linked s held' →
      Linked (dfbDequeueDone P s skb tTime) held' ∧
        (dfbDequeueDone P s skb tTime).priv.nPacketsTotal = s.priv.nPacketsTotal ∧
        (dfbDequeueDone P s skb tTime).q = s.q := by
    intro s skb held' hs
    obtain ⟨hsame, hmem, hsq⟩ := sameCalendar_dequeueDone P s skb tTime
    exact ⟨hs.congr hsame.mlcq fun _ _ => by rw [Qdisc.next, Qdisc.next, hmem],
      hsame.nPacketsTotal, hsq⟩
  rw [dfbDequeue] at hrun
  cases hq : sch.q with
  | cons p rest =>
      rw [hq] at hrun
      obtain rfl : _ = r := by simpa using hrun
      obtain ⟨hl, htotal, hsq⟩ := hdone { sch with q := rest } (some p) held
        (h.congr rfl fun _ _ => rfl)
      exact .unpaced p rest hq hsq hl htotal
  | nil =>
      rw [hq] at hrun
      obtain ⟨r₀, hcal, rfl⟩ := Option.map_eq_some_iff.mp hrun
      cases calendar_leaves h hq hcal with
      | unpaced p rest hq₀ => exact absurd (hq.symm.trans hq₀) (by simp)
      | idle _ hq' hskb hl htotal =>
          obtain ⟨hl', htotal', hsq⟩ := hdone r₀.sch r₀.skb _ hl
          exact .idle hq (hsq.trans hq') hskb hl' (htotal'.trans htotal)
      | served _ hq' e he hskb hl htotal =>
          obtain ⟨hl', htotal', hsq⟩ := hdone r₀.sch r₀.skb _ hl
          exact .served hq (hsq.trans hq') e he hskb hl' (htotal'.trans htotal)

end Dequeue

/-! ### Whole runs -/

namespace World

variable {P : Params} {w w' : World} {op : Op}

/-- The packets handed over are not queued already; the kernel promises it. -/
def Fresh (w : World) : Op → Prop
  | .enqueue p _ segs =>
      (p :: segs.map Prod.fst).Nodup ∧
        ∀ x ∈ p :: segs.map Prod.fst, x ∉ w.held.map Stored.ptr ∧ x ∉ w.sch.q
  | .dequeue _ _ => True

instance (w : World) : (op : Op) → Decidable (w.Fresh op)
  | .enqueue _ _ _ => inferInstanceAs (Decidable (_ ∧ _))
  | .dequeue _ _ => inferInstanceAs (Decidable True)

/-- The packets of the qdisc: those of `sch->q`, and those of the calendar. -/
def packets (w : World) : List ℕ := w.sch.q ++ w.held.map Stored.ptr

/-- The links hold the held packets, the total counts them, and no packet is in two
places. -/
structure Contents (w : World) : Prop where
  linked : Linked w.sch w.held
  total : w.sch.priv.nPacketsTotal = w.held.length
  nodup : w.packets.Nodup

lemma Contents.start (sch : Qdisc) (now : ℕ) (hq : sch.q = []) : (start sch now).Contents where
  linked := .init sch now
  total := rfl
  nodup := by simp [packets, World.start, dfbInit, hq]

/-- An enqueue sees the contents as they were before the packet was written. -/
lemma Contents.enqueue_cases (h : w.Contents) (P : Params) {p : ℕ} {skb : SkBuff}
    {segs : List (ℕ × SkBuff)} (hfresh : w.Fresh (.enqueue p skb segs)) :
    EnqueueCases P (w.sch.setSkb p skb) w.held p segs
      (dfbEnqueue P (w.sch.setSkb p skb) p segs) :=
  enqueue_contents (h.linked.setSkb (hfresh.2 p (by simp)).1 skb) hfresh.1
    fun x hx => (hfresh.2 x hx).1

/-- Fresh packets join the packets without repetition, on either side. -/
lemma nodup_packets_append {q held : List ℕ} (ps ps' : List ℕ) (h : (q ++ held).Nodup)
    (hnd : (ps ++ ps').Nodup) (hfresh : ∀ x ∈ ps ++ ps', x ∉ held ∧ x ∉ q) :
    ((q ++ ps) ++ (held ++ ps')).Nodup := by
  have hperm : ((q ++ ps) ++ (held ++ ps')).Perm ((q ++ held) ++ (ps ++ ps')) := by
    rw [List.append_assoc, List.append_assoc, ← List.append_assoc ps, ← List.append_assoc held]
    exact (List.perm_append_comm.append_right ps').append_left q
  rw [hperm.nodup_iff, List.nodup_append]
  refine ⟨h, hnd, fun a ha b hb heq => ?_⟩
  subst heq
  rcases List.mem_append.mp ha with hq | hheld
  · exact (hfresh a hb).2 hq
  · exact (hfresh a hb).1 hheld

/-- **An enqueue** of a fresh packet keeps the contents. -/
lemma Contents.enqueue {p : ℕ} {skb : SkBuff} {segs : List (ℕ × SkBuff)} (h : w.Contents)
    (hfresh : w.Fresh (.enqueue p skb segs)) (hstep : w.step P (.enqueue p skb segs) = some w') :
    w'.Contents := by
  obtain rfl := step_enqueue hstep
  cases h.enqueue_cases P hfresh with
  | refused hlimit hsch hstored =>
      refine ⟨?_, ?_, ?_⟩ <;> dsimp only [packets] <;> rw [hsch, hstored, List.append_nil]
      · exact h.linked.setSkb (hfresh.2 p (by simp)).1 skb
      · exact h.total
      · exact h.nodup
  | unpaced hlimit hnum hq hstored hl htotal =>
      refine ⟨?_, ?_, ?_⟩ <;> dsimp only [packets] <;> rw [hstored, List.append_nil]
      · exact hl
      · exact htotal.trans h.total
      · have hnd := nodup_packets_append [p] [] h.nodup (by simp)
          (by simpa using hfresh.2 p (by simp))
        rw [List.append_nil] at hnd
        rw [hq]
        exact hnd
  | paced hlimit ps hps hnum hptr hgrows =>
      refine ⟨hgrows.linked, ?_, ?_⟩
      · dsimp only
        rw [hgrows.total, List.length_append, ← h.total]
        rfl
      · dsimp only [packets]
        rw [hgrows.q, List.map_append, hptr]
        have hsub : ∀ x ∈ ps, x ∈ p :: segs.map Prod.fst := by
          rcases hps with rfl | rfl <;> intro x hx <;> simp_all
        have hnd : ps.Nodup := by
          rcases hps with rfl | rfl
          · simp
          · exact (List.nodup_cons.mp hfresh.1).2
        have hall := nodup_packets_append [] ps h.nodup (by simpa using hnd)
          (by simpa using fun x hx => hfresh.2 x (hsub x hx))
        rwa [List.append_nil] at hall

/-- **A dequeue** keeps the contents. -/
lemma Contents.dequeue {now tTime : ℕ} (h : w.Contents)
    (hstep : w.step P (.dequeue now tTime) = some w') : w'.Contents := by
  obtain ⟨r, hrun, rfl⟩ := step_dequeue hstep
  cases dequeue_leaves h.linked hrun with
  | unpaced p rest hq hq' hl htotal =>
      have hpop : popped w r = [] := by simp [popped, hq]
      refine ⟨?_, ?_, ?_⟩ <;> dsimp only [packets] <;>
        rw [hpop, without_eq_self (by simp)]
      · exact hl
      · exact htotal.trans h.total
      · have hnd := h.nodup
        rw [packets, hq, List.cons_append, List.nodup_cons] at hnd
        rw [hq']
        exact hnd.2
  | idle hq hq' hskb hl htotal =>
      have hpop : popped w r = [] := by simp [popped, hskb]
      refine ⟨?_, ?_, ?_⟩ <;> dsimp only [packets] <;>
        rw [hpop, without_eq_self (by simp)]
      · exact hl
      · exact htotal.trans h.total
      · rw [hq', ← hq]
        exact h.nodup
  | served hq hq' e he hskb hl htotal =>
      have hpop : popped w r = [e.ptr] := by simp [popped, hq, hskb]
      refine ⟨?_, ?_, ?_⟩ <;> dsimp only [packets] <;> rw [hpop]
      · exact hl
      · have hperm := (perm_named_without Stored.ptr w.held [e.ptr]).length_eq
        rw [named_singleton h.linked.nodup he, List.length_append,
          List.length_singleton] at hperm
        rw [htotal, h.total]
        omega
      · rw [hq', List.nil_append]
        exact nodup_without h.linked.nodup

/-- One operation keeps the contents. -/
lemma Contents.step (h : w.Contents) (hfresh : w.Fresh op) (hstep : w.step P op = some w') :
    w'.Contents := by
  cases op with
  | enqueue p skb segs => exact h.enqueue hfresh hstep
  | dequeue now tTime => exact h.dequeue hstep

end World

/-- **Every run** of operations on fresh packets keeps the contents. -/
theorem reach_contents {P : Params} {w : World} (hw : Reach P World.Fresh w) : w.Contents := by
  refine hw.invariant ?_ fun w w' op _ ih hok hstep => ih.step hok hstep
  rintro w ⟨sch, now, hq, -, rfl⟩
  exact .start sch now hq

end Dfb
